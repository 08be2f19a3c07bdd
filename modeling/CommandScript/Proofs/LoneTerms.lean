import CommandScript.Proofs.FilledTemplates
import CommandScript.Proofs.OperandsRoundTrip
import CommandScript.Script

/-!
# Terms on their own

A quoted text ends with its closing delimiter, whatever stands before and behind
it.  So a value, a name and an option key that are written alone are each read
as one token that says what was written, and a name and a key stay unquoted
words even where they need quotes.
-/

namespace CommandScript

open Spelling

namespace Spelling

theorem eq_backquote_of_spells_nil {escapeBreaks : Bool} {mark : Char}
    {value rest : List Char}
    (spells : Quoted.Spells mark (quoteChars escapeBreaks []) value rest) :
    mark = '\x60' :=
  (Option.some.inj spells.head?).symm

/-- A quoted text is scanned back from the middle of any text, up to right
behind its closing delimiter.  Only the two backquotes of the empty text must
not be followed by a third. -/
theorem quotedAt_quote (escapeBreaks : Bool) (value before after : String)
    (apart : value = "" → after.toList.head? ≠ some '\x60') :
    Token.quotedAt (before ++ quote escapeBreaks value ++ after)
      before.toList.length =
        .ok (value,
          before.toList.length + (quote escapeBreaks value).toList.length) := by
  obtain ⟨mark, -, spells⟩ := spells_quoteChars escapeBreaks value.toList
  obtain ⟨spelled, same, exchange⟩ := spells.exists_spelled
  rw [List.append_nil] at same
  subst same
  have inContext := exchange after.toList fun empty => by
    rw [empty] at spells
    rw [eq_backquote_of_spells_nil spells]
    exact apart (String.toList_eq_nil_iff.mp empty)
  apply Token.quotedAt_eq_ok_iff.mpr
  rw [quote, String.toList_append, String.toList_append, String.toList_ofList,
    ← List.length_append]
  refine ⟨?_, mark, ?_⟩
  · simp only [List.length_append]
    omega
  · rw [List.drop_left, List.append_assoc, List.drop_left]
    exact inContext

/-- A text that holds all three marks, with a mark like those that delimit it
right behind it, and the empty text between other characters. -/
theorem quotedAt_quote_triple :
    Token.quotedAt "x \"\"\"'\"\"\\\"`\"\"\"\"" 2 = .ok ("'\"\"\"`", 14) ∧
      Token.quotedAt "x ``y" 2 = .ok ("", 4) := by
  have triple : quote true "'\"\"\"`" = "\"\"\"'\"\"\\\"`\"\"\"" := by
    decide +kernel
  have empty : quote true "" = "``" := by decide +kernel
  have first := quotedAt_quote true "'\"\"\"`" "x " "\"" nofun
  have second := quotedAt_quote true "" "x " "y" (by decide)
  rw [triple] at first
  rw [empty] at second
  exact ⟨first, second⟩

end Spelling

namespace Token

theorem exists_ofText_of_reads {text : String} {symbol : Symbol}
    (reads : Reads text.toList [symbol]) :
    ∃ position, ofText text = .ok [⟨symbol, position⟩] := by
  obtain ⟨lexemes, divides, symbols⟩ := reads
  rw [← Lexeme.tokens_map_symbol 0] at symbols
  obtain ⟨token, whole, same⟩ := List.map_eq_singleton_iff.mp symbols
  subst same
  refine ⟨token.position, (ofText_eq_ok_iff divides).mpr ?_⟩
  rw [whole, Continuation.reduces_iff]
  rfl

end Token

namespace Spelling

variable {escapeBreaks : Bool}

theorem symbol_valueWord (value : String) :
    (valueWord value).symbol =
      if valueNeedsQuotes value then .quoted value else .unquoted value := by
  unfold valueWord
  split <;> rfl

theorem value?_valueWord (value : String) :
    (valueWord value).symbol.value? = some value := by
  rw [symbol_valueWord]
  split <;> rfl

theorem reads_lone_name {name written : String} (named : name ≠ "")
    (success : ofName escapeBreaks name = .ok written) :
    Reads written.toList [.unquoted name] := by
  have reads : Reads (Style.shift ⟨escapeBreaks, false⟩ 0 written.toList) _ :=
    reads_ofName named success
  rwa [Style.shift_zero, Style.displaced_of_settled (.inr rfl)] at reads

theorem reads_lone_key {key written : String} (dash : startsWithDash key = true)
    (success : ofKey escapeBreaks key = .ok written) :
    Reads written.toList [.unquoted key] := by
  have reads : Reads (Style.shift ⟨escapeBreaks, false⟩ 0 written.toList) _ :=
    reads_ofKey success
  rw [Style.shift_zero, Style.displaced_of_settled (.inr rfl),
    Operands.keyWords_of_dash dash] at reads
  have plain : (Word.unquoted key).asRead = .unquoted key := ofTerm_of_dash dash
  rwa [List.map_singleton, plain] at reads

end Spelling

namespace Script

theorem readValue_of_ofText {text value : String} {symbol : Symbol}
    {position : Int} (read : Token.ofText text = .ok [⟨symbol, position⟩])
    (content : symbol.value? = some value) : readValue text = .ok value := by
  simp [readValue, read, content, bind, Except.bind, pure, Except.pure]

/-- A value, a name that can be written and an option key that starts with a
dash are each read back, from what is written for them alone, as one token with
the same text.  A name and a key are unquoted words, and so is a value that
needs no quotes. -/
theorem readValue_ofValue (escapeBreaks : Bool) :
    (∀ value, readValue (ofValue escapeBreaks value) = .ok value ∧
      ∃ position, Token.ofText (ofValue escapeBreaks value) =
        .ok [⟨if valueNeedsQuotes value then .quoted value else .unquoted value,
          position⟩]) ∧
    (∀ name written, name ≠ "" → ofName escapeBreaks name = .ok written →
      ∃ position, Token.ofText written = .ok [⟨.unquoted name, position⟩]) ∧
    ∀ key, startsWithDash key = true → key ≠ positionalMark →
      ∃ written position, ofKey escapeBreaks key = .ok written ∧
        Token.ofText written = .ok [⟨.unquoted key, position⟩] := by
  refine ⟨?_, ?_, ?_⟩
  · intro value
    obtain ⟨position, read⟩ := Token.exists_ofText_of_reads
      (Template.reads_ofValue escapeBreaks value)
    refine ⟨readValue_of_ofText read (value?_valueWord value), position, ?_⟩
    rw [read, symbol_valueWord]
  · intro name written named success
    exact Token.exists_ofText_of_reads (reads_lone_name named success)
  · intro key dash notMark
    obtain ⟨written, success⟩ := exists_ofKey_iff.mpr notMark
    obtain ⟨position, read⟩ :=
      Token.exists_ofText_of_reads (reads_lone_key dash success)
    exact ⟨written, position, success, read⟩

end Script

end CommandScript
