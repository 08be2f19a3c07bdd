import CommandScript.Line.Grouping
import CommandScript.Proofs.Outcome

/-!
# The grammar of lines

`Grouping.IsLines` says which tokens form which lines, by the structure of the
tokens alone: lines stand between separators, and a block holds the lines
between a pair of braces.  Blocks may stand anywhere in a line, and lines may be
empty; empty ones are not kept.

Taking the tokens one at a time groups them in the same way.  A failure is never
a matter of the lines, so a sequence of tokens is refused exactly when it has no
such structure.
-/

namespace CommandScript

namespace Grouping

def Separates (token : Token) : Prop :=
  token.symbol = .lineBreak ∨ token.symbol = .andAnd

def IsContent (token : Token) : Prop :=
  token.symbol.kind.hasText = true

def kept (lines : List Line) : List Line :=
  lines.filter fun line => !line.isEmpty

mutual

/-- The tokens, inside of `depth` braces, form the lines; empty lines are still
among them. -/
inductive IsLines (limit : Int) :
    (depth : Nat) → List Token → List Line → Prop where
  | last {depth : Nat} {tokens : List Token} {line : Line} :
      IsItems limit depth tokens line → IsLines limit depth tokens [line]
  | more {depth : Nat} {tokens rest : List Token} {separator : Token}
      {line : Line} {lines : List Line} :
      IsItems limit depth tokens line → Separates separator →
      IsLines limit depth rest lines →
      IsLines limit depth (tokens ++ separator :: rest) (line :: lines)

/-- The tokens, inside of `depth` braces, form the items of one line. -/
inductive IsItems (limit : Int) : (depth : Nat) → List Token → Line → Prop where
  | nil {depth : Nat} : IsItems limit depth [] []
  | content {depth : Nat} {token : Token} {tokens : List Token} {items : Line} :
      IsContent token → IsItems limit depth tokens items →
      IsItems limit depth (token :: tokens) (.token token :: items)
  | block {depth : Nat} {opening closing : Token} {inside tokens : List Token}
      {lines : List Line} {items : Line} :
      opening.symbol = .openBrace → closing.symbol = .closeBrace →
      (depth + 1 : Nat) ≤ limit → IsLines limit (depth + 1) inside lines →
      IsItems limit depth tokens items →
      IsItems limit depth (opening :: inside ++ closing :: tokens)
        (.block (kept lines) opening.position :: items)

end

end Grouping

namespace Level

/-- The level after lines have been read, the first of which continues the line
under construction. -/
def takeLines : Level → List Line → Level
  | level, [] => level
  | level, [line] => { level with current := level.current ++ line }
  | level, line :: next :: lines =>
      takeLines
        ({ level with current := level.current ++ line } : Level).endLine
        (next :: lines)

theorem takeLines_cons {line : Line} {lines : List Line} (level : Level)
    (more : lines ≠ []) :
    level.takeLines (line :: lines) =
      ({ level with
        current := level.current ++ line } : Level).endLine.takeLines
          lines := by
  obtain ⟨next, lines, rfl⟩ := List.exists_cons_of_ne_nil more
  rfl

theorem endLine_current (level : Level) : level.endLine.current = [] := by
  unfold endLine
  split
  · rename_i empty
    exact List.isEmpty_iff.mp empty
  · rfl

theorem finish_takeLines {lines : List Line} (some : lines ≠ []) :
    ∀ {level : Level}, level.current = [] →
      (level.takeLines lines).finish = level.lines ++ Grouping.kept lines := by
  induction lines with
  | nil => exact absurd rfl some
  | cons line lines induction =>
      intro level empty
      cases lines with
      | nil =>
          cases line <;> simp [takeLines, finish, endLine, empty, Grouping.kept]
      | cons next lines =>
          rw [takeLines, induction (List.cons_ne_nil _ _) (endLine_current _)]
          cases line <;> simp [endLine, empty, Grouping.kept]

end Level

namespace Grouping

variable {limit : Int} {token : Token} {level : Level}
  {outer : List (Level × Int)}

theorem step_separates (separates : Separates token) :
    step limit ⟨level, outer⟩ token = .ok ⟨level.endLine, outer⟩ := by
  rcases separates with symbol | symbol <;> simp [step, symbol]

theorem step_content (content : IsContent token) :
    step limit ⟨level, outer⟩ token =
      .ok ⟨level.add (.token token), outer⟩ := by
  unfold IsContent at content
  cases symbol : token.symbol <;> simp_all [step, Symbol.kind, Kind.hasText]

theorem step_open (symbol : token.symbol = .openBrace)
    (shallow : (outer.length + 1 : Nat) ≤ limit) :
    step limit ⟨level, outer⟩ token =
      .ok { outer := (level, token.position) :: outer } := by
  have allowed : ¬ limit < (outer.length : Int) + 1 := by omega
  simp [step, symbol, allowed]

theorem step_close {enclosing : Level} {position : Int}
    (symbol : token.symbol = .closeBrace) :
    step limit ⟨level, (enclosing, position) :: outer⟩ token =
      .ok ⟨enclosing.add (.block level.finish position), outer⟩ := by
  simp [step, symbol]

theorem finish_eq_ok_iff {state : Grouping} {lines : List Line} :
    state.finish = .ok lines ↔
      state.outer = [] ∧ state.level.finish = lines := by
  obtain ⟨level, outer⟩ := state
  cases outer <;> simp [finish]

/-- All that a step can do. -/
theorem step_cases {state next : Grouping}
    (success : step limit state token = .ok next) :
    Separates token ∧ next.outer = state.outer ∨
    IsContent token ∧ next.outer = state.outer ∨
    token.symbol = .openBrace ∧ (state.outer.length + 1 : Nat) ≤ limit ∧
      next.outer.length = state.outer.length + 1 ∨
    token.symbol = .closeBrace ∧
      state.outer.length = next.outer.length + 1 := by
  unfold step at success
  cases symbol : token.symbol with
  | lineBreak | andAnd =>
      rw [symbol] at success
      cases success
      simp [Separates, symbol]
  | backslash | and =>
      rw [symbol] at success
      cases success
  | openBrace =>
      simp only [symbol] at success
      split at success
      · cases success
      · cases success
        simp
        omega
  | closeBrace =>
      simp only [symbol] at success
      split at success
      · cases success
      · rename_i stack
        cases success
        simp [stack]
  | quoted value | unquoted value =>
      rw [symbol] at success
      cases success
      simp [IsContent, symbol, Symbol.kind, Kind.hasText]

theorem IsLines.ne_nil {depth : Nat} {tokens : List Token} {lines : List Line}
    (derivation : IsLines limit depth tokens lines) : lines ≠ [] := by
  cases derivation <;> exact List.cons_ne_nil _ _

mutual

/-- The tokens of lines add these to the level they are read at. -/
theorem IsLines.foldlM :
    ∀ {depth : Nat} {tokens : List Token} {lines : List Line},
      IsLines limit depth tokens lines →
      ∀ (level : Level) (outer : List (Level × Int)), outer.length = depth →
        tokens.foldlM (step limit) ⟨level, outer⟩ =
          .ok ⟨level.takeLines lines, outer⟩
  | _, _, _, .last items => fun level outer place =>
      items.foldlM level outer place
  | _, _, _, @IsLines.more _ _ tokens rest separator line lines items separates
      others => by
      intro level outer place
      have following := others.foldlM
        (Level.endLine { level with current := level.current ++ line })
        outer place
      rw [List.foldlM_append, items.foldlM level outer place,
        level.takeLines_cons others.ne_nil]
      change (step limit _ separator >>= _) = _
      rw [step_separates separates]
      exact following

theorem IsItems.foldlM : ∀ {depth : Nat} {tokens : List Token} {items : Line},
    IsItems limit depth tokens items →
    ∀ (level : Level) (outer : List (Level × Int)), outer.length = depth →
      tokens.foldlM (step limit) ⟨level, outer⟩ =
        .ok ⟨{ level with current := level.current ++ items }, outer⟩
  | _, _, _, .nil => by
      intro level outer _
      rw [List.append_nil]
      rfl
  | _, _, _, @IsItems.content _ _ token tokens items content rest => by
      intro level outer place
      have following := rest.foldlM (level.add (.token token)) outer place
      rw [Level.add, List.append_assoc] at following
      rw [List.foldlM_cons, step_content content]
      exact following
  | _, _, _, @IsItems.block _ depth opening closing inside tokens lines items
      opens closes shallow inner rest => by
      intro level outer place
      have shallowHere : (outer.length + 1 : Nat) ≤ limit := by
        rw [place]
        exact shallow
      have entered := inner.foldlM {} ((level, opening.position) :: outer)
        (by rw [List.length_cons, place])
      have finished : (Level.takeLines {} lines).finish = kept lines :=
        Level.finish_takeLines inner.ne_nil rfl
      have following := rest.foldlM
        (level.add (.block (kept lines) opening.position)) outer place
      rw [Level.add, List.append_assoc] at following
      rw [List.cons_append, List.foldlM_cons, step_open opens shallowHere]
      change ((inside ++ closing :: tokens).foldlM (step limit) _) = _
      rw [List.foldlM_append, entered]
      change (step limit _ closing >>= _) = _
      rw [step_close closes, finished]
      exact following

end

/-- The tokens end `depth` blocks that were opened before them, and the
script. -/
inductive Closing (limit : Int) : (depth : Nat) → List Token → Prop where
  | last {tokens : List Token} {lines : List Line} :
      IsLines limit 0 tokens lines → Closing limit 0 tokens
  | close {depth : Nat} {inside tokens : List Token} {closing : Token}
      {lines : List Line} :
      IsLines limit (depth + 1) inside lines → closing.symbol = .closeBrace →
      Closing limit depth tokens →
      Closing limit (depth + 1) (inside ++ closing :: tokens)

variable {depth : Nat} {front tokens : List Token}

theorem Closing.prepend
    (grow : ∀ tokens lines, IsLines limit depth tokens lines →
      ∃ grown, IsLines limit depth (front ++ tokens) grown)
    (closing : Closing limit depth tokens) :
    Closing limit depth (front ++ tokens) := by
  cases closing with
  | last derivation =>
      obtain ⟨grown, derivation⟩ := grow _ _ derivation
      exact .last derivation
  | close derivation symbol rest =>
      obtain ⟨grown, derivation⟩ := grow _ _ derivation
      rw [← List.append_assoc]
      exact .close derivation symbol rest

theorem IsLines.prepend {item : Item}
    (grow : ∀ tokens items, IsItems limit depth tokens items →
      IsItems limit depth (front ++ tokens) (item :: items))
    (tokens : List Token) (lines : List Line)
    (derivation : IsLines limit depth tokens lines) :
    ∃ grown, IsLines limit depth (front ++ tokens) grown := by
  cases derivation with
  | last items => exact ⟨_, .last (grow _ _ items)⟩
  | more items separates others =>
      rw [← List.append_assoc]
      exact ⟨_, .more (grow _ _ items) separates others⟩

/-- A token that can be taken in continues the structure of those after it. -/
theorem closing_of_foldlM {state final : Grouping}
    (success : tokens.foldlM (step limit) state = .ok final)
    (closed : final.outer = []) : Closing limit state.outer.length tokens := by
  induction tokens generalizing state with
  | nil =>
      cases success
      rw [closed]
      exact .last (.last .nil)
  | cons token tokens induction =>
      rw [List.foldlM_cons] at success
      obtain ⟨next, taken, success⟩ := Outcome.bind_eq_ok_iff.mp success
      have following := induction success
      -- Only the number of open braces matters to what may follow a step.
      rcases step_cases taken with ⟨separates, same⟩ | ⟨content, same⟩ |
        ⟨opens, shallow, deeper⟩ | ⟨closes, shallower⟩
      · rw [same] at following
        have grown : Closing limit state.outer.length ([token] ++ tokens) :=
          following.prepend fun _ _ lines => ⟨_, .more .nil separates lines⟩
        exact grown
      · rw [same] at following
        have grown : Closing limit state.outer.length ([token] ++ tokens) :=
          following.prepend
            (IsLines.prepend fun _ _ items => .content content items)
        exact grown
      · rw [deeper] at following
        cases following with
        | @close _ inside tokens closing lines inner closes rest =>
            have grown : Closing limit state.outer.length
                ((token :: inside ++ [closing]) ++ tokens) :=
              rest.prepend (IsLines.prepend fun _ _ items => by
                simpa using .block opens closes shallow inner items)
            simpa using grown
      · rw [shallower]
        exact .close (.last .nil) closes following

end Grouping

open Grouping in
/-- Tokens are grouped exactly when they have the structure of lines, and the
lines are those of the structure. -/
theorem Line.ofTokens_eq_ok_iff {limit : Int} {tokens : List Token}
    {lines : List Line} :
    Line.ofTokens limit tokens = .ok lines ↔
      ∃ all, IsLines limit 0 tokens all ∧ lines = kept all := by
  have grouped : ∀ {all}, IsLines limit 0 tokens all →
      Line.ofTokens limit tokens = .ok (kept all) := by
    intro all derivation
    have finished : (Level.takeLines {} all).finish = kept all :=
      Level.finish_takeLines derivation.ne_nil rfl
    rw [Line.ofTokens, derivation.foldlM {} [] rfl]
    exact congrArg Except.ok finished
  constructor
  · intro success
    obtain ⟨final, folded, finished⟩ := Outcome.bind_eq_ok_iff.mp success
    obtain ⟨closed, -⟩ := finish_eq_ok_iff.mp finished
    cases closing_of_foldlM folded closed with
    | last derivation =>
        refine ⟨_, derivation, ?_⟩
        have same := (grouped derivation).symm.trans success
        exact (Except.ok.inj same).symm
  · rintro ⟨all, derivation, rfl⟩
    exact grouped derivation

end CommandScript
