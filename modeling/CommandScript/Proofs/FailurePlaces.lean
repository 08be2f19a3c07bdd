import CommandScript.Proofs.ParsedCommands
import CommandScript.Proofs.TokenPlaces
import CommandScript.Settings

/-!
# Where reading fails

Every failure to read a text comes from the scanner, from the grouping or from a
line that gives no command, and it is reported with a place in the text.  A
failure of the grouping or of a line names the token that is to blame for it,
and the character of the text at that place is the first one of that token.

What is not among the failures is as important.  The lines hold exactly those
tokens that carry a text, and a term is never empty, so every line that starts
with a term has a name for its command.
-/

namespace CommandScript

open Grouping

namespace StructuralReason

/-- The token is to blame for the failure, among the tokens of a text. -/
def Blames (tokens : List Token) (token : Token) : StructuralReason → Prop
  | loneBackslash => token.symbol = .backslash
  | loneAnd => token.symbol = .and
  | unmatchedClose => token.symbol = .closeBrace
  | unclosedOpen | blockWithoutCommand => token.symbol = .openBrace
  | nameNotUnquoted => ∃ value, token.symbol = .quoted value
  | itemAfterBlock =>
      (IsContent token ∨ token.symbol = .openBrace) ∧
        ∃ closing, closing.symbol = .closeBrace ∧ [closing, token] <:+: tokens
  | notAValue _ | other _ => False

/-- The character can stand where the failure is reported. -/
def Marks (char : Char) : StructuralReason → Prop
  | loneBackslash => char = '\\'
  | loneAnd => char = '&'
  | unmatchedClose => char = '}'
  | unclosedOpen | blockWithoutCommand => char = '{'
  | nameNotUnquoted => isQuoteMark char = true
  | itemAfterBlock => startsTerm char = true ∨ char = '{'
  | notAValue _ | other _ => False

variable {reason : StructuralReason} {tokens all : List Token} {token : Token}

theorem Blames.mono (inside : tokens <:+: all)
    (blames : reason.Blames tokens token) :
    reason.Blames all token := by
  cases reason with
  | itemAfterBlock =>
      obtain ⟨item, closing, closes, behind⟩ := blames
      exact ⟨item, closing, closes, behind.trans inside⟩
  | _ => exact blames

theorem Blames.marks {char : Char} (blames : reason.Blames tokens token)
    (begins : token.symbol.Begins char) : reason.Marks char := by
  cases reason with
  | loneBackslash | loneAnd | unmatchedClose | unclosedOpen
  | blockWithoutCommand =>
      rw [show token.symbol = _ from blames] at begins
      exact begins
  | nameNotUnquoted =>
      obtain ⟨value, symbol⟩ := blames
      rw [symbol] at begins
      exact begins
  | itemAfterBlock =>
      obtain ⟨content | symbol, -⟩ := blames
      · left
        obtain ⟨word, symbol, -⟩ := content.exists_word
        rw [symbol] at begins
        cases word with
        | quoted value =>
            simp [startsTerm, show isQuoteMark char = true from begins]
        | unquoted value =>
            simp [startsTerm, show isBare char = true from begins]
      · right
        rw [symbol] at begins
        exact begins
  | notAValue _ | other _ => exact blames

end StructuralReason

namespace Error

/-- The failure is reported at a token that is to blame for it. -/
def Blames (limit : Int) (tokens : List Token) : Error → Prop
  | structural reason position =>
      ∃ token ∈ tokens, position = some token.position ∧
        reason.Blames tokens token
  | nesting most position =>
      most = limit ∧
        ∃ token ∈ tokens, position = some token.position ∧
          token.symbol = .openBrace
  | _ => False

/-- The failure is reported at a place in the text that shows what is wrong. -/
def LocatedIn (limit : Int) (text : String) : Error → Prop
  | lexical _ position location =>
      ∃ offset : Nat, position = offset ∧ offset ≤ text.toList.length ∧
        location = some (Location.ofOffset text.toList offset) ∧
          (Location.ofOffset text.toList offset).position = offset
  | structural reason position =>
      ∃ (offset : Nat) (char : Char) (tokens : List Token) (token : Token),
        position = some (offset : Int) ∧ text.toList[offset]? = some char ∧
          reason.Marks char ∧ Token.ofText text = .ok tokens ∧ token ∈ tokens ∧
            reason.Blames tokens token ∧ token.position = offset ∧
              Lexeme.StartsAt text.toList offset token.symbol
  | nesting most position =>
      most = limit ∧
        ∃ offset : Nat, position = some (offset : Int) ∧
          text.toList[offset]? = some '{'
  | _ => False

theorem Blames.mono {limit : Int} {tokens all : List Token} {error : Error}
    (inside : tokens <:+: all) (blames : error.Blames limit tokens) :
    error.Blames limit all := by
  cases error with
  | structural reason position =>
      obtain ⟨token, member, place, blames⟩ := blames
      exact ⟨token, inside.subset member, place, blames.mono inside⟩
  | nesting most position =>
      obtain ⟨same, token, member, found⟩ := blames
      exact ⟨same, token, inside.subset member, found⟩
  | _ => exact blames

theorem Blames.locatedIn {limit : Int} {text : String} {tokens : List Token}
    {error : Error} (success : Token.ofText text = .ok tokens)
    (blames : error.Blames limit tokens) : error.LocatedIn limit text := by
  cases error with
  | structural reason position =>
      obtain ⟨token, member, rfl, blames⟩ := blames
      obtain ⟨offset, place, starts⟩ := Token.startsAt_of_ofText success member
      obtain ⟨char, found, begins⟩ := starts.exists_begins
      exact ⟨offset, char, tokens, token, congrArg some place, found,
        blames.marks begins, success, member, blames, place, starts⟩
  | nesting most position =>
      obtain ⟨same, token, member, rfl, symbol⟩ := blames
      obtain ⟨offset, place, starts⟩ := Token.startsAt_of_ofText success member
      obtain ⟨char, found, begins⟩ := starts.exists_begins
      rw [symbol] at begins
      cases begins
      exact ⟨same, offset, congrArg some place, found⟩
  | _ => exact False.elim blames

end Error

theorem Token.locatedIn_of_ofText {limit : Int} {text : String} {error : Error}
    (failed : ofText text = .error error) : error.LocatedIn limit text := by
  unfold ofText at failed
  split at failed
  · rename_i fault read
    cases failed
    have bound := lexFrom_fault read
    rw [Nat.zero_add] at bound
    refine ⟨fault.position, rfl, bound, rfl, ?_⟩
    simp [Location.ofOffset, Location.clamp, bound]
  · cases failed

namespace Grouping

variable {tokens : List Token}

/-- Every level that was left was left at a brace among the tokens. -/
def Opened (tokens : List Token) (state : Grouping) : Prop :=
  ∀ level ∈ state.outer, ∃ token ∈ tokens, level.2 = token.position ∧
    token.symbol = .openBrace

theorem Opened.step (limit : Int) {state : Grouping} {token : Token}
    (opened : Opened tokens state) (member : token ∈ tokens) :
    (∃ next, state.step limit token = .ok next ∧ Opened tokens next) ∨
      ∃ error, state.step limit token = .error error ∧
        error.Blames limit tokens := by
  obtain ⟨level, outer⟩ := state
  unfold Grouping.step
  cases symbol : token.symbol with
  | lineBreak | andAnd | quoted value | unquoted value =>
      exact .inl ⟨_, rfl, opened⟩
  | backslash | and => exact .inr ⟨_, rfl, token, member, rfl, symbol⟩
  | openBrace =>
      simp only
      split
      · exact .inr ⟨_, rfl, rfl, token, member, rfl, symbol⟩
      · left
        refine ⟨_, rfl, ?_⟩
        intro other found
        rcases List.mem_cons.mp found with rfl | before
        · exact ⟨token, member, rfl, symbol⟩
        · exact opened other before
  | closeBrace =>
      cases outer with
      | nil => exact .inr ⟨_, rfl, token, member, rfl, symbol⟩
      | cons enclosing outer =>
          left
          refine ⟨_, rfl, ?_⟩
          intro other found
          exact opened other (List.mem_cons_of_mem _ found)

theorem Opened.foldlM (limit : Int) {state : Grouping}
    (opened : Opened tokens state) (rest : List Token)
    (members : ∀ token ∈ rest, token ∈ tokens) :
    (∃ final, rest.foldlM (Grouping.step limit) state = .ok final ∧
        Opened tokens final) ∨
      ∃ error, rest.foldlM (Grouping.step limit) state = .error error ∧
        error.Blames limit tokens := by
  induction rest generalizing state with
  | nil => exact .inl ⟨state, rfl, opened⟩
  | cons token rest induction =>
      -- `tokens` stays as it is, so that what was opened stays among them.
      obtain ⟨here, members⟩ := List.forall_mem_cons.mp members
      rw [List.foldlM_cons]
      obtain ⟨next, taken, opened⟩ | ⟨error, failed, blames⟩ :=
        opened.step limit here
      · rw [taken]
        exact induction opened members
      · rw [failed]
        exact .inr ⟨error, rfl, blames⟩

end Grouping

theorem Line.blames_of_ofTokens {limit : Int} {tokens : List Token}
    {error : Error} (failed : Line.ofTokens limit tokens = .error error) :
    error.Blames limit tokens := by
  have start : Opened tokens {} := fun _ member => by cases member
  rw [Line.ofTokens] at failed
  obtain ⟨final, folded, opened⟩ | ⟨other, folded, blames⟩ :=
    start.foldlM limit tokens fun _ member => member
  · rw [folded] at failed
    obtain ⟨level, outer⟩ := final
    cases outer with
    | nil => cases failed
    | cons enclosing outer =>
        cases failed
        obtain ⟨token, member, place, symbol⟩ :=
          opened enclosing List.mem_cons_self
        exact ⟨token, member, congrArg some place, symbol⟩
  · rw [folded] at failed
    cases failed
    exact blames

namespace Item

mutual

/-- The tokens of an item, those in its blocks included. -/
def tokens : Item → List Token
  | .token content => [content]
  | .block lines _ => linesTokens lines

def lineTokens : List Item → List Token
  | [] => []
  | item :: items => tokens item ++ lineTokens items

def linesTokens : List (List Item) → List Token
  | [] => []
  | line :: lines => lineTokens line ++ linesTokens lines

end

theorem linesTokens_kept (lines : List Line) :
    linesTokens (kept lines) = linesTokens lines := by
  induction lines with
  | nil => rfl
  | cons line lines induction =>
      cases line with
      | nil => exact induction
      | cons item items =>
          change linesTokens ((item :: items) :: kept lines) = _
          rw [linesTokens, linesTokens, induction]

end Item

namespace Grouping

variable {limit : Int}

def hasText (token : Token) : Bool :=
  token.symbol.kind.hasText

theorem hasText_of_symbol {token : Token} {symbol : Symbol}
    (same : token.symbol = symbol) : hasText token = symbol.kind.hasText := by
  rw [hasText, same]

mutual

/-- Lines hold the tokens that carry a text, in the order of the text. -/
theorem IsLines.linesTokens_eq : ∀ {depth : Nat} {tokens : List Token}
    {lines : List Line}, IsLines limit depth tokens lines →
    Item.linesTokens lines = tokens.filter hasText
  | _, _, _, .last items => by
      rw [Item.linesTokens, Item.linesTokens, List.append_nil,
        items.lineTokens_eq]
  | _, _, _, @IsLines.more _ _ _ _ separator _ _ items separates lines => by
      have dropped : hasText separator = false := by
        rcases separates with symbol | symbol <;> exact hasText_of_symbol symbol
      rw [Item.linesTokens, List.filter_append, List.filter_cons, dropped,
        items.lineTokens_eq, lines.linesTokens_eq]
      rfl

theorem IsItems.lineTokens_eq :
    ∀ {depth : Nat} {tokens : List Token} {items : Line},
      IsItems limit depth tokens items →
      Item.lineTokens items = tokens.filter hasText
  | _, _, _, .nil => rfl
  | _, _, _, @IsItems.content _ _ token _ _ content rest => by
      rw [Item.lineTokens, Item.tokens, List.filter_cons,
        show hasText token = true from content, rest.lineTokens_eq]
      rfl
  | _, _, _, .block opens closes _ inner rest => by
      rw [Item.lineTokens, Item.tokens, Item.linesTokens_kept,
        inner.linesTokens_eq, rest.lineTokens_eq, List.filter_append,
        List.filter_cons, List.filter_cons, hasText_of_symbol opens,
        hasText_of_symbol closes]
      rfl

end

theorem IsItems.exists_first {depth : Nat} {tokens : List Token} {item : Item}
    {items : Line} (derivation : IsItems limit depth tokens (item :: items)) :
    ∃ token rest, tokens = token :: rest ∧ item.position = token.position ∧
      (IsContent token ∨ token.symbol = .openBrace) := by
  cases derivation with
  | content content _ => exact ⟨_, _, rfl, rfl, .inl content⟩
  | block opens _ _ _ _ => exact ⟨_, _, rfl, rfl, .inr opens⟩

/-- No term among the tokens is empty. -/
def Named (tokens : List Token) : Prop :=
  ∀ token ∈ tokens, token.symbol ≠ .unquoted ""

theorem Named.mono {tokens all : List Token} (named : Named all)
    (inside : tokens <:+: all) : Named tokens :=
  fun token member => named token (inside.subset member)

mutual

/-- A failure to give the commands of lines is reported at one of their
tokens. -/
theorem IsLines.blames :
    ∀ {depth : Nat} {tokens : List Token} {lines : List Line},
      IsLines limit depth tokens lines → Named tokens →
      ∀ ⦃error : Error⦄, Command.ofLines lines = .error error →
        error.Blames limit tokens
  | _, _, _, .last items => by
      intro named error failed
      rw [Command.ofLines, Command.ofLines, Outcome.bind_eq_error_iff] at failed
      obtain first | ⟨_, _, later⟩ := failed
      · exact items.blames named first
      · cases later
  | _, _, _, @IsLines.more _ _ tokens rest separator _ _ items _ lines => by
      intro named error failed
      have front : tokens <:+: tokens ++ separator :: rest :=
        (List.prefix_append _ _).isInfix
      have back : rest <:+: tokens ++ separator :: rest :=
        ((List.suffix_cons _ _).trans (List.suffix_append _ _)).isInfix
      rw [Command.ofLines, Outcome.bind_eq_error_iff] at failed
      obtain first | ⟨_, _, later⟩ := failed
      · exact (items.blames (named.mono front) first).mono front
      · obtain others | ⟨_, _, later⟩ := Outcome.bind_eq_error_iff.mp later
        · exact (lines.blames (named.mono back) others).mono back
        · cases later

theorem IsItems.blames : ∀ {depth : Nat} {tokens : List Token} {items : Line},
    IsItems limit depth tokens items → Named tokens →
    ∀ ⦃error : Error⦄, Command.ofLine items = .error error →
      error.Blames limit tokens
  | _, _, _, .nil => by
      intro _ error failed
      rw [Command.ofLine] at failed
      cases failed
  | _, _, _, @IsItems.content _ _ token tokens _ content rest => by
      intro named error failed
      rw [Command.ofLine] at failed
      obtain ⟨word, symbol, -⟩ := content.exists_word
      cases word with
      | quoted value =>
          rw [symbol] at failed
          cases failed
          exact ⟨token, List.mem_cons_self, rfl, value, symbol⟩
      | unquoted name =>
          have nonempty : name ≠ "" := by
            rintro rfl
            exact named token List.mem_cons_self symbol
          have behind : tokens <:+: token :: tokens :=
            (List.suffix_cons _ _).isInfix
          rw [symbol] at failed
          obtain below | ⟨subs, _, later⟩ := Outcome.bind_eq_error_iff.mp failed
          · exact (rest.subs_blames (named.mono behind) below).mono behind
          · -- A command with a name is made without fail.
            simp [Command.make, nonempty] at later
  | _, _, _, @IsItems.block _ _ opening _ _ _ _ _ opens _ _ _ _ => by
      intro _ error failed
      rw [Command.ofLine] at failed
      cases failed
      exact ⟨opening, List.mem_cons_self, rfl, opens⟩

theorem IsItems.subs_blames :
    ∀ {depth : Nat} {tokens : List Token} {items : Line},
      IsItems limit depth tokens items → Named tokens →
      ∀ ⦃error : Error⦄, Command.subsOfItems items = .error error →
        error.Blames limit tokens
  | _, _, _, .nil => by
      intro _ error failed
      rw [Command.subsOfItems] at failed
      cases failed
  | _, _, _, @IsItems.content _ _ token tokens _ _ rest => by
      intro named error failed
      have behind : tokens <:+: token :: tokens :=
        (List.suffix_cons _ _).isInfix
      rw [Command.subsOfItems] at failed
      exact (rest.subs_blames (named.mono behind) failed).mono behind
  | _, _, _, @IsItems.block _ _ opening closing inside tokens lines items _
      closes _ inner rest => by
      intro named error failed
      have within : inside <:+: opening :: inside ++ closing :: tokens :=
        ⟨[opening], closing :: tokens, rfl⟩
      rw [Command.subsOfItems, Command.ofLines_kept,
        Outcome.bind_eq_error_iff] at failed
      obtain below | ⟨subs, _, later⟩ := failed
      · exact (inner.blames (named.mono within) below).mono within
      · cases items with
        | nil => cases later
        | cons next items =>
            cases later
            obtain ⟨token, others, rfl, place, kind⟩ := rest.exists_first
            refine ⟨token, by simp, congrArg some place, kind, closing, closes,
              ?_⟩
            exact ⟨opening :: inside, others, by simp⟩

end

end Grouping

namespace Script

theorem named_of_ofText {text : String} {tokens : List Token}
    (success : Token.ofText text = .ok tokens) : Named tokens := by
  intro token member empty
  have writable : Spelling.WritableName "" := by
    apply Token.writableName_of_ofText success
    exact List.mem_map.mpr ⟨token, member, empty⟩
  obtain ⟨first, found, -⟩ := writable.bareFirst
  cases found

/-- Reading a text gives commands or fails at a place in the text that shows
what is wrong.  The tokens that lines are made of all carry a text, and no name
is empty. -/
theorem parse_locatedIn (limit : DepthLimit) (text : String) :
    ((∃ commands, parse limit.value text = .ok commands) ∨
      ∃ error, parse limit.value text = .error error ∧
        error.LocatedIn limit.value text) ∧
    ∀ tokens lines, Token.ofText text = .ok tokens →
      Line.ofTokens limit.value tokens = .ok lines →
      ∀ token ∈ Item.linesTokens lines, ∃ value,
        token.symbol.value? = some value ∧ token.symbol ≠ .unquoted "" := by
  constructor
  · cases outcome : parse limit.value text with
    | ok commands => exact .inl ⟨commands, rfl⟩
    | error error =>
        right
        refine ⟨error, rfl, ?_⟩
        rw [parse, Outcome.bind_eq_error_iff] at outcome
        obtain divided | ⟨tokens, success, later⟩ := outcome
        · exact Token.locatedIn_of_ofText divided
        · apply Error.Blames.locatedIn success
          obtain grouped | ⟨lines, grouped, built⟩ :=
            Outcome.bind_eq_error_iff.mp later
          · exact Line.blames_of_ofTokens grouped
          · obtain ⟨all, derivation, rfl⟩ := Line.ofTokens_eq_ok_iff.mp grouped
            rw [Command.ofLines_kept] at built
            exact derivation.blames (named_of_ofText success) built
  · intro tokens lines success grouped token member
    obtain ⟨all, derivation, rfl⟩ := Line.ofTokens_eq_ok_iff.mp grouped
    rw [Item.linesTokens_kept, derivation.linesTokens_eq] at member
    obtain ⟨among, carries⟩ := List.mem_filter.mp member
    have valued : token.symbol.value?.isSome = true := by
      rw [Symbol.value?_isSome]
      exact carries
    obtain ⟨value, found⟩ := Option.isSome_iff_exists.mp valued
    exact ⟨value, found, named_of_ofText success token among⟩

/-- A brace that is not closed, and a word inside a block. -/
theorem parse_locatedIn_block :
    (∃ error, parse 64 "a \x7b b" = .error error ∧
      error.LocatedIn 64 "a \x7b b") ∧
      ∃ value, Symbol.value? (.unquoted "b") = some value ∧
        Symbol.unquoted "b" ≠ .unquoted "" := by
  have divided : Token.ofText "a \x7b b \x7d" =
      .ok [⟨.unquoted "a", 0⟩, ⟨.openBrace, 2⟩, ⟨.unquoted "b", 4⟩,
        ⟨.closeBrace, 6⟩] := by
    decide +kernel
  constructor
  · apply (parse_locatedIn .default "a \x7b b").1.resolve_left
    intro read
    obtain ⟨commands, success⟩ := read
    have failed : parse 64 "a \x7b b" =
        .error (.structural .unclosedOpen (some 2)) := by
      decide +kernel
    cases failed.symm.trans success
  · exact (parse_locatedIn .default "a \x7b b \x7d").2 _ _ divided rfl
      ⟨.unquoted "b", 4⟩ (by decide)

end Script

end CommandScript
