import CommandScript.Proofs.Indentation
import CommandScript.Proofs.LexemeComposition
import CommandScript.Proofs.ScriptGrammar

/-!
# Written terms read back

A value, a name and an option key are each written as one term, which is read as
the word they were written for.  Only a key that is neither a dash followed by
anything nor in need of quotes is taken at face value, so that an empty key
leaves no word at all, and a separator is read as one.  Moving the term into a
block changes what it says just as it would change the text itself.
-/

namespace CommandScript

/-- What a word is read as when it is written as it stands.  An unquoted
separator is then no word any more. -/
def Word.asRead : Word → Symbol
  | quoted value => .quoted value
  | unquoted value => .ofTerm value

theorem Symbol.ofTerm_of_ne {value : String} (notDouble : value ≠ "&&")
    (notSingle : value ≠ "&") : ofTerm value = .unquoted value := by
  simp [ofTerm, notDouble, notSingle]

namespace Reads

variable {run spelled value : List Char}

theorem bare (nonempty : run ≠ []) (bare : ∀ char ∈ run, isBare char = true) :
    Reads run [.ofTerm (String.ofList run)] := by
  have precedes : (Lexeme.term run none).Precedes [] := ⟨nonempty, bare, nofun⟩
  exact single precedes

theorem fused (nonempty : run ≠ []) (bare : ∀ char ∈ run, isBare char = true)
    (quotation : Quotation.Precedes [] ⟨spelled, value⟩) :
    Reads (run ++ spelled) [.ofTerm (String.ofList (run ++ value))] := by
  have precedes : (Lexeme.term run (some ⟨spelled, value⟩)).Precedes [] :=
    ⟨nonempty, bare, quotation⟩
  exact single precedes

theorem quoted (quotation : Quotation.Precedes [] ⟨spelled, value⟩) :
    Reads spelled [.quoted (String.ofList value)] := by
  have precedes : (Lexeme.quoted ⟨spelled, value⟩).Precedes [] := quotation
  exact single precedes

end Reads

namespace Spelling

variable {style : Style} {levels : Nat}

/-- The word that a value is written as. -/
def valueWord (value : String) : Word :=
  if valueNeedsQuotes value then .quoted value else .unquoted value

/-- The words that an option key is written as: one, unless the key is empty. -/
def keyWords (key : String) : List Word :=
  if key = "" then []
  else if startsWithDash key || !keyNeedsQuotes key then [.unquoted key]
  else [.quoted key]

/-- Texts that are not bare are treated alike, so moving a text inside does not
change how it is treated. -/
theorem displaced_congr {quotes : String → Bool}
    (always : ∀ value, isBareText value = false → quotes value = true)
    (style : Style) (levels : Nat) (value : String) :
    quotes (style.displaced levels value) = quotes value := by
  cases bare : isBareText value with
  | true => rw [Style.displaced_of_isBareText bare]
  | false =>
      have moved := style.isBareText_displaced levels value
      rw [bare] at moved
      rw [always value bare, always _ moved]

theorem valueNeedsQuotes_displaced (style : Style) (levels : Nat)
    (value : String) :
    valueNeedsQuotes (style.displaced levels value) =
      valueNeedsQuotes value := by
  apply displaced_congr
  intro value bare
  simp [valueNeedsQuotes, bare]

theorem keyNeedsQuotes_displaced (style : Style) (levels : Nat) (key : String) :
    keyNeedsQuotes (style.displaced levels key) = keyNeedsQuotes key := by
  apply displaced_congr
  intro key bare
  simp [keyNeedsQuotes, bare]

theorem startsWithDash_displaced (style : Style) (levels : Nat) (key : String) :
    startsWithDash (style.displaced levels key) = startsWithDash key := by
  rw [startsWithDash, Style.displaced, String.toList_ofList,
    Style.head?_displace]
  rfl

theorem reads_bareText {text : String} (nonempty : text ≠ "")
    (bare : isBareText text = true) :
    Reads (style.shift levels text.toList)
      [.ofTerm (style.displaced levels text)] := by
  have flat := Style.lineBreak_not_mem_of_isBareText bare
  have reads := Reads.bare (by simpa using nonempty) (List.all_eq_true.mp bare)
  rw [Style.shift_of_not_mem flat, Style.displaced_of_isBareText bare]
  rwa [String.ofList_toList] at reads

theorem asRead_valueWord (value : String) :
    (valueWord value).asRead = (valueWord value).symbol := by
  unfold valueWord
  cases quotes : valueNeedsQuotes value with
  | true => rfl
  | false =>
      obtain ⟨-, -, -, notSeparator, -⟩ :=
        valueNeedsQuotes_eq_false_iff.mp quotes
      apply Symbol.ofTerm_of_ne
      · rintro rfl
        exact notSeparator rfl
      · rintro rfl
        exact notSeparator rfl

theorem reads_ofValue (style : Style) (levels : Nat) (value : String) :
    Reads (style.shift levels (ofValue style.escapeBreaks value).toList)
      [(valueWord (style.displaced levels value)).asRead] := by
  unfold ofValue valueWord
  rw [valueNeedsQuotes_displaced]
  cases quotes : valueNeedsQuotes value with
  | true =>
      rw [if_pos rfl, if_pos rfl, quote, String.toList_ofList,
        style.shift_quoteChars]
      exact Reads.quoted (precedes_quoteChars _ _)
  | false =>
      obtain ⟨nonempty, -, -, -, bare⟩ :=
        valueNeedsQuotes_eq_false_iff.mp quotes
      exact reads_bareText nonempty bare

theorem reads_fused {run text : List Char} (nonempty : run ≠ [])
    (bare : ∀ char ∈ run, isBare char = true) (whole : String)
    (same : whole.toList = run ++ text) :
    Reads (style.shift levels (run ++ quoteChars style.escapeBreaks text))
      [.ofTerm (style.displaced levels whole)] := by
  have flat : '\n' ∉ run := by
    intro member
    exact absurd (bare _ member) (by decide)
  rw [Style.displaced, same, Style.displace_append, Style.shift_append,
    style.shift_quoteChars, Style.shift_of_not_mem flat,
    Style.displace_of_not_mem flat]
  exact Reads.fused nonempty bare (precedes_quoteChars _ _)

theorem displaced_ne_of_not_bare {name separator : String}
    (notBare : isBareText name = false) (bare : isBareText separator = true) :
    style.displaced levels name ≠ separator := by
  intro same
  have moved := style.isBareText_displaced levels name
  rw [same, bare, notBare] at moved
  cases moved

/-- A name is read back as an unquoted word. -/
theorem reads_ofName {name written : String} (named : name ≠ "")
    (success : ofName style.escapeBreaks name = .ok written) :
    Reads (style.shift levels written.toList)
      [.unquoted (style.displaced levels name)] := by
  unfold ofName at success
  split at success
  · cases success
  · rename_i notSeparator
    obtain ⟨notSingle, notDouble⟩ := not_or.mp notSeparator
    split at success
    · rename_i bare
      cases success
      have reads : Reads (style.shift levels name.toList) _ :=
        reads_bareText named bare
      rw [Style.displaced_of_isBareText bare] at reads ⊢
      rwa [Symbol.ofTerm_of_ne notDouble notSingle] at reads
    · rename_i notBare
      simp only at success
      split at success
      · cases success
      · rename_i nonempty
        cases success
        rw [String.toList_ofList]
        have notBare : isBareText name = false := by simpa using notBare
        have plain : Symbol.ofTerm (style.displaced levels name) =
            .unquoted (style.displaced levels name) :=
          Symbol.ofTerm_of_ne (displaced_ne_of_not_bare notBare (by decide))
            (displaced_ne_of_not_bare notBare (by decide))
        rw [← plain]
        refine reads_fused (by simpa using nonempty) ?_ name
          List.takeWhile_append_dropWhile.symm
        intro char member
        exact List.mem_takeWhile_imp member

theorem ne_of_startsWithDash {key other : String}
    (dash : startsWithDash key = true)
    (notDash : startsWithDash other = false) : key ≠ other := by
  intro same
  rw [same, notDash] at dash
  cases dash

theorem ofTerm_of_dash {key : String} (dash : startsWithDash key = true) :
    Symbol.ofTerm key = .unquoted key :=
  Symbol.ofTerm_of_ne (ne_of_startsWithDash dash rfl)
    (ne_of_startsWithDash dash rfl)

theorem ofKey_bare {escapeBreaks : Bool} {key written : String}
    (bare : keyNeedsQuotes key = false)
    (success : ofKey escapeBreaks key = .ok written) :
    written = key := by
  unfold ofKey at success
  split at success
  · cases success
  · rw [bare] at success
    cases success
    rfl

theorem ofKey_quoted {escapeBreaks : Bool} {key written : String}
    (quotes : keyNeedsQuotes key = true)
    (success : ofKey escapeBreaks key = .ok written) :
    written.toList =
      match key.toList with
      | '-' :: '-' :: rest => '-' :: '-' :: quoteChars escapeBreaks rest
      | '-' :: rest => '-' :: quoteChars escapeBreaks rest
      | chars => quoteChars escapeBreaks chars := by
  unfold ofKey at success
  split at success
  · cases success
  · rw [quotes] at success
    cases success
    exact String.toList_ofList

theorem reads_quotedDashKey {key written : String}
    (dash : startsWithDash key = true) (quotes : keyNeedsQuotes key = true)
    (success : ofKey style.escapeBreaks key = .ok written) :
    Reads (style.shift levels written.toList)
      [.unquoted (style.displaced levels key)] := by
  have plain : Symbol.ofTerm (style.displaced levels key) =
      .unquoted (style.displaced levels key) := by
    apply ofTerm_of_dash
    rw [startsWithDash_displaced, dash]
  rw [← plain, ofKey_quoted quotes success]
  split
  · rename_i rest doubled
    exact @reads_fused style levels ['-', '-'] rest (List.cons_ne_nil _ _)
      (List.all_eq_true.mp rfl) key doubled
  · rename_i rest _ single
    exact @reads_fused style levels ['-'] rest (List.cons_ne_nil _ _)
      (List.all_eq_true.mp rfl) key single
  · rename_i _ notSingle
    obtain ⟨rest, led⟩ := List.head?_eq_some_iff.mp (beq_iff_eq.mp dash)
    exact absurd led (notSingle rest)

theorem reads_quotedKey {key written : String}
    (notDash : startsWithDash key = false) (quotes : keyNeedsQuotes key = true)
    (success : ofKey style.escapeBreaks key = .ok written) :
    Reads (style.shift levels written.toList)
      [.quoted (style.displaced levels key)] := by
  have notLed : ∀ rest, key.toList ≠ '-' :: rest := by
    intro rest led
    simp [startsWithDash, led] at notDash
  rw [ofKey_quoted quotes success]
  split
  · rename_i led
    exact absurd led (notLed _)
  · rename_i led
    exact absurd led (notLed _)
  · rw [style.shift_quoteChars]
    exact Reads.quoted (precedes_quoteChars _ _)

/-- A key is read back as its words, or as the separator that it is. -/
theorem reads_ofKey {key written : String}
    (success : ofKey style.escapeBreaks key = .ok written) :
    Reads (style.shift levels written.toList)
      ((keyWords (style.displaced levels key)).map Word.asRead) := by
  unfold keyWords
  rw [startsWithDash_displaced, keyNeedsQuotes_displaced]
  cases quotes : keyNeedsQuotes key with
  | false =>
      have bare := (keyNeedsQuotes_eq_false_iff.mp quotes).2
      rw [ofKey_bare quotes success]
      by_cases empty : key = ""
      · subst empty
        rw [Style.displaced_of_isBareText rfl, if_pos rfl,
          Style.shift_of_not_mem (by simp)]
        exact Reads.nil
      · have reads : Reads (style.shift levels key.toList) _ :=
          reads_bareText empty bare
        rw [Style.displaced_of_isBareText bare] at reads ⊢
        simpa [empty, Word.asRead] using reads
  | true =>
      have nonempty : style.displaced levels key ≠ "" := by
        intro empty
        have moved := keyNeedsQuotes_displaced style levels key
        rw [empty, quotes] at moved
        cases moved
      rw [if_neg nonempty]
      cases dash : startsWithDash key with
      | true =>
          have plain : (Word.unquoted (style.displaced levels key)).asRead =
              .unquoted (style.displaced levels key) :=
            ofTerm_of_dash (by rw [startsWithDash_displaced, dash])
          rw [Bool.true_or, if_pos rfl, List.map_singleton, plain]
          exact reads_quotedDashKey dash quotes success
      | false => exact reads_quotedKey dash quotes success

end Spelling

end CommandScript
