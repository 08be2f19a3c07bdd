import CommandScript.Proofs.LineGrammar

/-!
# Lines and the tokens that write them

Grouping keeps every token but the separators, and it keeps them in order.  To
write lines down as tokens again, blocks are put into braces and separators are
put between the lines of a level, one or more, and any number in front of the
first line and behind the last one.  `Grouping.Writes` relates lines to all
sequences of tokens that write them.

Grouping inverts this relation: tokens form lines exactly when they write them,
where no line is empty and blocks nest no deeper than the limit.
-/

namespace CommandScript

/-- The token without the place where a close brace stands. -/
def Token.unplaceClose (token : Token) : Token :=
  if token.symbol = .closeBrace then { symbol := .closeBrace } else token

namespace Item

mutual

/-- The tokens of an item, with a block in braces.  Where the block is closed is
not known. -/
def written : Item → List Token
  | .token content => [content]
  | .block lines position =>
      ⟨.openBrace, position⟩ :: linesWritten lines ++
        [{ symbol := .closeBrace }]

def lineWritten : List Item → List Token
  | [] => []
  | item :: items => written item ++ lineWritten items

def linesWritten : List (List Item) → List Token
  | [] => []
  | line :: lines => lineWritten line ++ linesWritten lines

end

theorem linesWritten_kept (lines : List Line) :
    linesWritten (Grouping.kept lines) = linesWritten lines := by
  induction lines with
  | nil => rfl
  | cons line lines induction =>
      cases line with
      | nil => exact induction
      | cons item items =>
          change linesWritten ((item :: items) :: Grouping.kept lines) = _
          rw [linesWritten, linesWritten, induction]

end Item

namespace Grouping

instance (token : Token) : Decidable (Separates token) :=
  inferInstanceAs (Decidable (_ ∨ _))

/-- The tokens other than separators, without the places of close braces. -/
def unseparated (tokens : List Token) : List Token :=
  (tokens.filter fun token => ¬ Separates token).map Token.unplaceClose

mutual

/-- No line is empty, at any level, and inside of `depth` braces blocks nest no
deeper than the limit. -/
inductive IsForest (limit : Int) : (depth : Nat) → List Line → Prop where
  | nil {depth : Nat} : IsForest limit depth []
  | cons {depth : Nat} {line : Line} {lines : List Line} :
      line ≠ [] → IsRow limit depth line → IsForest limit depth lines →
      IsForest limit depth (line :: lines)

inductive IsRow (limit : Int) : (depth : Nat) → Line → Prop where
  | nil {depth : Nat} : IsRow limit depth []
  | content {depth : Nat} {token : Token} {items : Line} :
      IsContent token → IsRow limit depth items →
      IsRow limit depth (.token token :: items)
  | block {depth : Nat} {lines : List Line} {position : Int} {items : Line} :
      (depth + 1 : Nat) ≤ limit → IsForest limit (depth + 1) lines →
      IsRow limit depth items →
      IsRow limit depth (.block lines position :: items)

end

mutual

/-- The tokens write the lines of one level. -/
inductive Writes : List Line → List Token → Prop where
  | level {lines : List Line} {before tokens after : List Token} :
      (∀ token ∈ before, Separates token) → WritesLines lines tokens →
      (∀ token ∈ after, Separates token) →
      Writes lines (before ++ tokens ++ after)

/-- The tokens write the lines, with separators between any two of them. -/
inductive WritesLines : List Line → List Token → Prop where
  | nil : WritesLines [] []
  | last {line : Line} {tokens : List Token} :
      WritesItems line tokens → WritesLines [line] tokens
  | more {line next : Line} {lines : List Line}
      {tokens between rest : List Token} :
      WritesItems line tokens → between ≠ [] →
      (∀ token ∈ between, Separates token) →
      WritesLines (next :: lines) rest →
      WritesLines (line :: next :: lines) (tokens ++ between ++ rest)

/-- The tokens write the items of a line. -/
inductive WritesItems : Line → List Token → Prop where
  | nil : WritesItems [] []
  | content {token : Token} {items : Line} {tokens : List Token} :
      WritesItems items tokens →
      WritesItems (.token token :: items) (token :: tokens)
  | block {opening closing : Token} {lines : List Line} {items : Line}
      {inside tokens : List Token} :
      opening.symbol = .openBrace → closing.symbol = .closeBrace →
      Writes lines inside →
      WritesItems items tokens →
      WritesItems (.block lines opening.position :: items)
        (opening :: inside ++ closing :: tokens)

end

theorem kept_append (lines others : List Line) :
    kept (lines ++ others) = kept lines ++ kept others :=
  List.filter_append ..

theorem kept_cons_of_ne_nil {line : Line} (lines : List Line)
    (some : line ≠ []) :
    kept (line :: lines) = line :: kept lines := by
  obtain ⟨item, items, rfl⟩ := List.exists_cons_of_ne_nil some
  rfl

theorem kept_cons_nil (lines : List Line) : kept ([] :: lines) = kept lines :=
  rfl

variable {limit : Int}

theorem IsLines.append {separator : Token} {rest : List Token}
    {others : List Line} (separates : Separates separator) :
    ∀ {depth : Nat} {tokens : List Token} {lines : List Line},
      IsLines limit depth tokens lines → IsLines limit depth rest others →
      IsLines limit depth (tokens ++ separator :: rest) (lines ++ others)
  | _, _, _, .last items, following => .more items separates following
  | _, _, _, .more items separatesFirst lines, following => by
      rw [List.append_assoc, List.cons_append]
      exact .more items separatesFirst (lines.append separates following)

variable {depth : Nat} {tokens separators : List Token} {lines : List Line}

theorem IsLines.exists_prepend
    (separate : ∀ token ∈ separators, Separates token)
    (derivation : IsLines limit depth tokens lines) :
    ∃ more, IsLines limit depth (separators ++ tokens) more ∧
      kept more = kept lines := by
  induction separators with
  | nil => exact ⟨lines, derivation, rfl⟩
  | cons separator separators induction =>
      obtain ⟨first, others⟩ := List.forall_mem_cons.mp separate
      obtain ⟨more, grown, same⟩ := induction others
      exact ⟨[] :: more, .more .nil first grown, same⟩

theorem IsLines.exists_append (separate : ∀ token ∈ separators, Separates token)
    (derivation : IsLines limit depth tokens lines) :
    ∃ more, IsLines limit depth (tokens ++ separators) more ∧
      kept more = kept lines := by
  cases separators with
  | nil => exact ⟨lines, by rwa [List.append_nil], rfl⟩
  | cons separator separators =>
      obtain ⟨first, others⟩ := List.forall_mem_cons.mp separate
      have none : IsLines limit depth [] [[]] := .last .nil
      obtain ⟨empty, following, same⟩ := none.exists_prepend others
      rw [List.append_nil] at following
      refine ⟨lines ++ empty, derivation.append first following, ?_⟩
      rw [kept_append, same, kept_cons_nil]
      exact List.append_nil _

mutual

/-- Tokens that write lines have the structure of these lines and of empty
ones. -/
theorem Writes.exists_isLines :
    ∀ {depth : Nat} {lines : List Line} {tokens : List Token},
      Writes lines tokens → IsForest limit depth lines →
        ∃ all, IsLines limit depth tokens all ∧ kept all = lines
  | _, _, _, .level before inner after => fun forest => by
      obtain ⟨all, derivation, rfl⟩ := inner.exists_isLines forest
      obtain ⟨more, preceded, same⟩ := derivation.exists_prepend before
      obtain ⟨most, followed, again⟩ := preceded.exists_append after
      exact ⟨most, followed, again.trans same⟩

theorem WritesLines.exists_isLines :
    ∀ {depth : Nat} {lines : List Line} {tokens : List Token},
      WritesLines lines tokens → IsForest limit depth lines →
      ∃ all, IsLines limit depth tokens all ∧ kept all = lines
  | _, _, _, .nil => fun _ => ⟨[[]], .last .nil, rfl⟩
  | _, _, _, .last items => fun forest => by
      cases forest with
      | cons some row _ =>
          exact ⟨_, .last (items.isItems row), kept_cons_of_ne_nil [] some⟩
  | _, _, _, @WritesLines.more line next lines tokens between rest items
      nonempty separate others => fun forest => by
      cases forest with
      | cons some row forest =>
          obtain ⟨separator, between, rfl⟩ :=
            List.exists_cons_of_ne_nil nonempty
          obtain ⟨first, separate⟩ := List.forall_mem_cons.mp separate
          obtain ⟨all, derivation, same⟩ := others.exists_isLines forest
          obtain ⟨more, preceded, again⟩ := derivation.exists_prepend separate
          refine ⟨line :: more, ?_, ?_⟩
          · rw [List.append_assoc, List.cons_append]
            exact .more (items.isItems row) first preceded
          · rw [kept_cons_of_ne_nil more some, again, same]

theorem WritesItems.isItems :
    ∀ {depth : Nat} {items : Line} {tokens : List Token},
      WritesItems items tokens → IsRow limit depth items →
        IsItems limit depth tokens items
  | _, _, _, .nil => fun _ => .nil
  | _, _, _, .content rest => fun row => by
      cases row with
      | content content row => exact .content content (rest.isItems row)
  | _, _, _, .block opens closes inner rest => fun row => by
      cases row with
      | block shallow forest row =>
          obtain ⟨all, derivation, rfl⟩ := inner.exists_isLines forest
          exact .block opens closes shallow derivation (rest.isItems row)

end

theorem WritesItems.eq_nil (items : WritesItems [] tokens) : tokens = [] := by
  cases items
  rfl

theorem Writes.single {line : Line} (items : WritesItems line tokens) :
    Writes (kept [line]) tokens := by
  have separate := List.forall_mem_nil Separates
  cases line with
  | nil =>
      rw [items.eq_nil]
      exact .level separate .nil separate
  | cons item line =>
      have written := Writes.level separate (.last items) separate
      rw [kept_cons_of_ne_nil [] (List.cons_ne_nil _ _)]
      simpa [kept] using written

theorem Writes.cons {line : Line} {separator : Token} {rest : List Token}
    (items : WritesItems line tokens) (separates : Separates separator)
    (others : Writes lines rest) :
    Writes (kept [line] ++ lines) (tokens ++ separator :: rest) := by
  cases others with
  | @level _ before inner after separate inside afterSeparate =>
      have none := List.forall_mem_nil Separates
      have more := List.forall_mem_cons.mpr ⟨separates, separate⟩
      cases line with
      | nil =>
          rw [items.eq_nil]
          exact .level more inside afterSeparate
      | cons item line =>
          rw [kept_cons_of_ne_nil [] (List.cons_ne_nil _ _)]
          cases lines with
          | nil =>
              cases inside
              have all := List.forall_mem_append.mpr ⟨more, afterSeparate⟩
              have written := Writes.level none (.last items) all
              simpa [kept] using written
          | cons next lines =>
              have joined :=
                WritesLines.more items (List.cons_ne_nil _ _) more inside
              have written := Writes.level none joined afterSeparate
              simpa [kept] using written

theorem IsForest.cons_kept {line : Line} (row : IsRow limit depth line)
    (forest : IsForest limit depth lines) :
    IsForest limit depth (kept [line] ++ lines) := by
  cases line with
  | nil => exact forest
  | cons item items => exact .cons (List.cons_ne_nil _ _) row forest

mutual

/-- The lines that are kept are written by the tokens that have their
structure. -/
theorem IsLines.writes :
    ∀ {depth : Nat} {tokens : List Token} {lines : List Line},
      IsLines limit depth tokens lines →
        IsForest limit depth (kept lines) ∧ Writes (kept lines) tokens
  | _, _, _, @IsLines.last _ _ tokens line items => by
      obtain ⟨row, written⟩ := items.writes
      have forest := IsForest.nil.cons_kept row
      rw [List.append_nil] at forest
      exact ⟨forest, .single written⟩
  | _, _, _, @IsLines.more _ _ _ _ _ line lines items separates others => by
      obtain ⟨row, written⟩ := items.writes
      obtain ⟨forest, following⟩ := others.writes
      rw [← List.singleton_append, kept_append]
      exact ⟨forest.cons_kept row, .cons written separates following⟩

theorem IsItems.writes : ∀ {depth : Nat} {tokens : List Token} {items : Line},
    IsItems limit depth tokens items →
      IsRow limit depth items ∧ WritesItems items tokens
  | _, _, _, .nil => ⟨.nil, .nil⟩
  | _, _, _, .content content rest => by
      obtain ⟨row, written⟩ := rest.writes
      exact ⟨.content content row, .content written⟩
  | _, _, _, .block opens closes shallow inner rest => by
      obtain ⟨forest, inside⟩ := inner.writes
      obtain ⟨row, written⟩ := rest.writes
      exact ⟨.block shallow forest row, .block opens closes inside written⟩

end

section Unseparated

variable {token : Token}

theorem unseparated_append (tokens rest : List Token) :
    unseparated (tokens ++ rest) = unseparated tokens ++ unseparated rest := by
  rw [unseparated, List.filter_append, List.map_append]
  rfl

theorem unseparated_cons_separates (separates : Separates token) :
    unseparated (token :: tokens) = unseparated tokens := by
  simp [unseparated, separates]

theorem unseparated_cons (keeps : ¬ Separates token) :
    unseparated (token :: tokens) =
      token.unplaceClose :: unseparated tokens := by
  simp [unseparated, keeps]

theorem unseparated_cons_content (content : IsContent token) :
    unseparated (token :: tokens) = token :: unseparated tokens := by
  have keeps : ¬ Separates token := by
    rintro (symbol | symbol) <;>
      simp [IsContent, symbol, Symbol.kind, Kind.hasText] at content
  have stays : token.unplaceClose = token := by
    refine if_neg ?_
    intro symbol
    simp [IsContent, symbol, Symbol.kind, Kind.hasText] at content
  rw [unseparated_cons keeps, stays]

theorem unseparated_cons_open (opens : token.symbol = .openBrace) :
    unseparated (token :: tokens) =
      ⟨.openBrace, token.position⟩ :: unseparated tokens := by
  have keeps : ¬ Separates token := by simp [Separates, opens]
  rw [unseparated_cons keeps, Token.unplaceClose, if_neg (by simp [opens]),
    ← opens]

theorem unseparated_cons_close (closes : token.symbol = .closeBrace) :
    unseparated (token :: tokens) =
      { symbol := .closeBrace } :: unseparated tokens := by
  have keeps : ¬ Separates token := by simp [Separates, closes]
  rw [unseparated_cons keeps, Token.unplaceClose, if_pos closes]

end Unseparated

mutual

/-- Writing lines down gives the tokens that form them, but for the separators
and the places of close braces. -/
theorem IsLines.linesWritten_eq :
    ∀ {depth : Nat} {tokens : List Token} {lines : List Line},
      IsLines limit depth tokens lines →
      Item.linesWritten lines = unseparated tokens
  | _, _, _, .last items => by
      rw [Item.linesWritten, Item.linesWritten, List.append_nil,
        items.lineWritten_eq]
  | _, _, _, .more items separates lines => by
      rw [Item.linesWritten, unseparated_append,
        unseparated_cons_separates separates, items.lineWritten_eq,
        lines.linesWritten_eq]

theorem IsItems.lineWritten_eq :
    ∀ {depth : Nat} {tokens : List Token} {items : Line},
      IsItems limit depth tokens items →
        Item.lineWritten items = unseparated tokens
  | _, _, _, .nil => rfl
  | _, _, _, .content content rest => by
      rw [Item.lineWritten, Item.written, unseparated_cons_content content,
        rest.lineWritten_eq, List.singleton_append]
  | _, _, _, .block opens closes _ inner rest => by
      rw [Item.lineWritten, Item.written, Item.linesWritten_kept,
        inner.linesWritten_eq, rest.lineWritten_eq, unseparated_append,
        unseparated_cons_open opens, unseparated_cons_close closes,
        List.append_assoc]
      rfl

end

end Grouping

open Grouping in
/-- Tokens are grouped into lines exactly when they write these lines, none of
them is empty and blocks nest within the limit.  Writing the lines down again
gives all tokens but the separators, in order. -/
theorem Line.ofTokens_lossless (limit : Int) (tokens : List Token)
    (lines : List Line) :
    (Line.ofTokens limit tokens = .ok lines ↔
      IsForest limit 0 lines ∧ Writes lines tokens) ∧
      (Line.ofTokens limit tokens = .ok lines →
        Item.linesWritten lines = unseparated tokens) := by
  refine ⟨?_, ?_⟩
  · rw [Line.ofTokens_eq_ok_iff]
    constructor
    · rintro ⟨all, derivation, rfl⟩
      exact derivation.writes
    · rintro ⟨forest, written⟩
      obtain ⟨all, derivation, same⟩ := written.exists_isLines forest
      exact ⟨all, derivation, same.symm⟩
  · intro success
    obtain ⟨all, derivation, rfl⟩ := Line.ofTokens_eq_ok_iff.mp success
    rw [Item.linesWritten_kept, derivation.linesWritten_eq]

/-- Separators around the lines of a block are not told from those between
them. -/
theorem Line.ofTokens_lossless_block :
    let lines : List Line :=
      [[.token ⟨.unquoted "a", 1⟩, .block [[.token ⟨.quoted "b", 5⟩]] 3],
        [.token ⟨.unquoted "c", 14⟩]]
    let tokens : List Token :=
      [⟨.lineBreak, 0⟩, ⟨.unquoted "a", 1⟩, ⟨.openBrace, 3⟩, ⟨.lineBreak, 4⟩,
        ⟨.quoted "b", 5⟩, ⟨.andAnd, 8⟩, ⟨.closeBrace, 10⟩, ⟨.andAnd, 11⟩,
        ⟨.lineBreak, 13⟩, ⟨.unquoted "c", 14⟩]
    Line.ofTokens 1 tokens = .ok lines ∧ Grouping.Writes lines tokens ∧
      Item.linesWritten lines =
        [⟨.unquoted "a", 1⟩, ⟨.openBrace, 3⟩, ⟨.quoted "b", 5⟩,
          { symbol := .closeBrace }, ⟨.unquoted "c", 14⟩] := by
  intro lines tokens
  have success : Line.ofTokens 1 tokens = .ok lines := by rfl
  obtain ⟨structured, written⟩ := Line.ofTokens_lossless 1 tokens lines
  exact ⟨success, (structured.mp success).2, written success⟩

end CommandScript
