import CommandScript.Proofs.TextComposition
import CommandScript.Proofs.WrittenTerms
import CommandScript.Template

/-!
# Filled templates

A value in a gap of a template is one term of the script, whatever it holds.  It
is no separator, it ends nothing that the segments opened, and no continuation
reaches across it.  So the tokens of the script are those of the segments, with
the token of each value between those of the segments around it.

The segments must be readable on their own, and where a value stands next to one
they must not touch it with a term.
-/

namespace CommandScript

namespace Template

/-- Characters that a value can stand next to. -/
def isDelimiter (char : Char) : Bool :=
  isBlank char || char == '\n' || char == '{' || char == '}'

/-- A value can stand behind the text. -/
def EndsApart (segment : String) : Prop :=
  ∃ char ∈ segment.toList.getLast?, isDelimiter char = true

/-- A value can stand in front of the text. -/
def StartsApart (segment : String) : Prop :=
  ∃ char ∈ segment.toList.head?, isDelimiter char = true

instance (segment : String) : Decidable (EndsApart segment) :=
  decidable_of_iff (segment.toList.getLast?.any isDelimiter = true)
    (Option.any_eq_true _ _)

instance (segment : String) : Decidable (StartsApart segment) :=
  decidable_of_iff (segment.toList.head?.any isDelimiter = true)
    (Option.any_eq_true _ _)

/-- No segment touches one of the `count` values with a term.  Only before the
first value and behind the last one the segment may be empty. -/
structure Spaced (segments : List String) (count : Nat) : Prop where
  before : ∀ index < count, index = 0 ∧ segments[index]? = some "" ∨
    ∃ segment ∈ segments[index]?, EndsApart segment
  behind : ∀ index < count, index + 1 = count ∧ segments[index + 1]? = some "" ∨
    ∃ segment ∈ segments[index + 1]?, StartsApart segment

/-- The symbols of segments and those of values in turn. -/
def weave :
    (segments : List (List Symbol)) → (values : List Symbol) → List Symbol
  | segment :: segments, value :: values =>
      segment ++ value :: weave segments values
  | segments, _ => segments.flatten

theorem startsTerm_eq_false_of_isDelimiter {char : Char}
    (delimiter : isDelimiter char = true) : startsTerm char = false := by
  simp only [isDelimiter, Bool.or_eq_true, beq_iff_eq] at delimiter
  rcases delimiter with ((blank | feed) | opens) | closes
  · exact startsTerm_eq_false_of_isBlank blank
  · subst feed
    decide
  · subst opens
    decide
  · subst closes
    decide

theorem EndsApart.closed {segment : String} (apart : EndsApart segment) :
    Lexeme.Closed segment.toList := by
  obtain ⟨char, last, delimiter⟩ := apart
  intro other member
  rw [Option.mem_def.mp last] at member
  cases member
  exact startsTerm_eq_false_of_isDelimiter delimiter

theorem StartsApart.boundary {segment : String} (apart : StartsApart segment)
    (rest : List Char) : Boundary (segment.toList ++ rest) := by
  obtain ⟨char, first, delimiter⟩ := apart
  obtain ⟨tail, whole⟩ := List.head?_eq_some_iff.mp first
  rw [whole, List.cons_append, boundary_cons]
  exact startsTerm_eq_false_of_isDelimiter delimiter

namespace Spaced

variable {first : String} {segments : List String} {count : Nat}

theorem tail (spaced : Spaced (first :: segments) (count + 1)) :
    Spaced segments count where
  before index inside := by
    rcases spaced.before (index + 1) (by omega) with ⟨zero, -⟩ | apart
    · cases zero
    · right
      exact apart
  behind index inside := by
    rcases spaced.behind (index + 1) (by omega) with ⟨last, empty⟩ | apart
    · left
      exact ⟨by omega, empty⟩
    · right
      exact apart

theorem closed (spaced : Spaced (first :: segments) (count + 1)) :
    Lexeme.Closed first.toList := by
  rcases spaced.before 0 (by omega) with ⟨-, empty⟩ | ⟨segment, same, apart⟩
  · cases empty
    exact nofun
  · cases same
    exact apart.closed

theorem boundary {values : List String}
    (spaced : Spaced (first :: segments) (values.length + 1))
    (length : segments.length = values.length + 1) :
    Boundary (String.join (interleave segments values)).toList := by
  obtain ⟨next, others, rfl⟩ :=
    List.exists_cons_of_ne_nil (List.ne_nil_of_length_eq_add_one length)
  rw [List.length_cons, Nat.add_right_cancel_iff] at length
  rcases spaced.behind 0 (by omega) with ⟨last, empty⟩ | ⟨segment, same, apart⟩
  · obtain rfl : values = [] := List.eq_nil_of_length_eq_zero (by omega)
    obtain rfl : others = [] := List.eq_nil_of_length_eq_zero length
    cases empty
    exact boundary_nil
  · cases same
    have leads : ∃ rest, interleave (next :: others) values = next :: rest := by
      cases values <;> exact ⟨_, rfl⟩
    obtain ⟨rest, same⟩ := leads
    rw [same, String.toList_join, List.flatMap_cons]
    exact apart.boundary _

end Spaced

end Template

namespace Token

open Continuation Lexeme

theorem cancels_of_hasText {symbol : Symbol}
    (content : symbol.kind.hasText = true) (other : Symbol) :
    symbol.cancels other = false ∧ other.cancels symbol = false := by
  cases symbol <;> cases content <;> cases other <;> exact ⟨rfl, rfl⟩

/-- A term between two texts that do not touch it is one more token between
those of the texts. -/
theorem exists_ofText_term {first term second : String}
    {tokens later : List Token} {symbol : Symbol}
    (read : ofText first = .ok tokens) (closed : Closed first.toList)
    (reads : Reads term.toList [symbol]) (content : symbol.kind.hasText = true)
    (readLater : ofText second = .ok later)
    (boundary : Boundary second.toList) :
    ∃ all, ofText (first ++ (term ++ second)) = .ok all ∧
      all.map Token.symbol =
        tokens.map Token.symbol ++ symbol :: later.map Token.symbol := by
  obtain ⟨front, divides, rfl⟩ := exists_cancel_of_ofText read
  obtain ⟨middle, termDivides, symbols⟩ := reads
  obtain ⟨back, others, rfl⟩ := exists_cancel_of_ofText readLater
  have behind := termDivides.append others (joint_of_boundary boundary)
  have whole :
      Divides (first ++ (term ++ second)).toList
        (front ++ (middle ++ back)) := by
    rw [String.toList_append, String.toList_append]
    exact divides.append behind (divides.joint closed)
  refine ⟨_, (ofText_eq_ok_iff whole).mpr (reduces_iff.mpr rfl), ?_⟩
  have notBackslash : symbol ≠ .backslash := by
    intro escapes
    rw [escapes] at content
    cases content
  have apart :
      cancel (Lexeme.tokens 0 front ++ ⟨symbol, 0⟩ :: Lexeme.tokens 0 back) =
        _ :=
    cancel_append_cons
      (fun last _ => (cancels_of_hasText content last.symbol).2) notBackslash
      fun later _ => (cancels_of_hasText content later.symbol).1
  have same := congrArg (List.map Token.symbol) apart
  rw [List.map_append, List.map_cons] at same
  rw [← same]
  apply cancel_map_symbol
  simp only [List.map_append, List.map_cons, tokens_map_symbol,
    List.filterMap_append, symbols, List.singleton_append]

end Token

namespace Template

theorem reads_ofValue (escapeBreaks : Bool) (value : String) :
    Reads (Spelling.ofValue escapeBreaks value).toList
      [(Spelling.valueWord value).symbol] := by
  have reads := Spelling.reads_ofValue ⟨escapeBreaks, false⟩ 0 value
  rwa [Style.shift_zero, Style.displaced_of_settled (.inr rfl),
    Spelling.asRead_valueWord] at reads

/-- Segments that can be read and do not touch the values between them are read
as they are on their own, with one term for each value. -/
theorem exists_ofText_join (escapeBreaks : Bool) {values : List String} :
    ∀ {segments : List String} {readings : List (List Token)},
      List.Forall₂ (fun segment tokens => Token.ofText segment = .ok tokens)
        segments readings →
      segments.length = values.length + 1 → Spaced segments values.length →
      ∃ tokens, Token.ofText (String.join
          (interleave segments (values.map (Spelling.ofValue escapeBreaks)))) =
            .ok tokens ∧
        tokens.map Token.symbol = weave (readings.map (·.map Token.symbol))
          (values.map fun value => (Spelling.valueWord value).symbol) := by
  induction values with
  | nil =>
      intro segments readings read length _
      obtain ⟨segment, rfl⟩ := List.length_eq_one_iff.mp length
      obtain ⟨tokens, _, first, rest, rfl⟩ := List.forall₂_cons_left_iff.mp read
      cases rest
      refine ⟨tokens, ?_, by simp [weave]⟩
      rw [List.map_nil, interleave, String.join_cons, String.join_nil,
        String.append_empty]
      · exact first
      · exact nofun
  | cons value values induction =>
      intro segments readings read length spaced
      cases read with
      | nil => cases length
      | @cons segment tokens segments readings first rest =>
          have shorter : segments.length = values.length + 1 := by
            simpa using length
          obtain ⟨later, readLater, symbols⟩ :=
            induction rest shorter spaced.tail
          have boundary := @Spaced.boundary segment segments
            (values.map (Spelling.ofValue escapeBreaks)) (by simpa using spaced)
            (by simpa using shorter)
          have content :
              (Spelling.valueWord value).symbol.kind.hasText = true := by
            cases Spelling.valueWord value <;> rfl
          obtain ⟨all, together, same⟩ :=
            Token.exists_ofText_term first spaced.closed
            (reads_ofValue escapeBreaks value) content readLater boundary
          refine ⟨all, ?_, ?_⟩
          · rwa [List.map_cons, interleave, String.join_cons, String.join_cons]
          · rw [same, symbols]
            rfl

/-- A template whose segments can be read on their own and do not touch the
values between them can be filled with any values.  The script that results is
read as the tokens of the segments, with one token for each value between them,
which says exactly that value and is quoted where the value needs quotes. -/
theorem ofText_fill (escapeBreaks : Bool) (segments : List String)
    (values : List Filling) (readings : List (List Token))
    (read : List.Forall₂
      (fun segment tokens => Token.ofText segment = .ok tokens)
      segments readings)
    (count : segments.length = values.length + 1)
    (spaced : Spaced segments values.length) :
    ∃ text tokens, fill escapeBreaks segments values = .ok text ∧
      Token.ofText text = .ok tokens ∧
      tokens.map Token.symbol = weave (readings.map (·.map Token.symbol))
        (values.map fun filling =>
          if Spelling.valueNeedsQuotes filling.value then .quoted filling.value
          else .unquoted filling.value) := by
  obtain ⟨tokens, together, symbols⟩ :=
    @exists_ofText_join escapeBreaks (values.map Filling.value) _ _ read
      (by simpa using count) (by simpa using spaced)
  rw [List.map_map] at together
  refine ⟨_, tokens, ?_, together, ?_⟩
  · rw [fill, if_neg (not_not_intro count)]
    rfl
  · rw [symbols, List.map_map]
    have shown : ∀ value : String, (Spelling.valueWord value).symbol =
        if Spelling.valueNeedsQuotes value then .quoted value
          else .unquoted value := by
      intro value
      unfold Spelling.valueWord
      split <;> rfl
    simp only [Function.comp_def, shown]

/-- A value that looks like a separator and one that looks like an option are
words, the second one alone inside the braces of the template. -/
theorem ofText_fill_block :
    ∃ tokens, Token.ofText "log `&&` \x7b\n`-x`\x7d" = .ok tokens ∧
      tokens.map Token.symbol =
        [.unquoted "log", .quoted "&&", .openBrace, .lineBreak,
        .quoted "-x", .closeBrace] := by
  have spaced : Spaced ["log ", " \x7b\n", "\x7d"] 2 := by
    constructor <;> decide
  have log : Token.ofText "log " = .ok [⟨.unquoted "log", 0⟩] := by
    decide +kernel
  have opening :
      Token.ofText " \x7b\n" = .ok [⟨.openBrace, 1⟩, ⟨.lineBreak, 2⟩] := by
    decide +kernel
  have closing : Token.ofText "\x7d" = .ok [⟨.closeBrace, 0⟩] := by
    decide +kernel
  obtain ⟨text, tokens, filled, read, symbols⟩ := ofText_fill true
    ["log ", " \x7b\n", "\x7d"] [.text "&&", .text "-x"] _
    (.cons log (.cons opening (.cons closing .nil))) rfl spaced
  cases filled
  exact ⟨tokens, read, symbols⟩

end Template

end CommandScript
