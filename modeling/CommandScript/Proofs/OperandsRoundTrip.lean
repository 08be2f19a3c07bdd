import CommandScript.Proofs.RenderedCommands

/-!
# Operands survive being written as words

Arguments are written before options, and no argument is written as a word that
could open an option or end them all.  So the words give back the same arguments
and options, provided that every key starts with a dash and none is `--`.  These
are also the only keys that any words give.
-/

namespace CommandScript

/-- A key that the words of a line can give. -/
structure IsOptionKey (key : String) : Prop where
  dash : startsWithDash key = true
  notMark : key ≠ positionalMark

namespace Operands

open Spelling

theorem valueWord_value (value : String) : (valueWord value).value = value := by
  unfold valueWord
  split <;> rfl

theorem startsWithDash_of_unquoted {value : String}
    (bare : valueNeedsQuotes value = false) : startsWithDash value = false := by
  obtain ⟨-, -, notDash, -⟩ := valueNeedsQuotes_eq_false_iff.mp bare
  exact notDash

theorem valueWord_isAbsorbable (value : String) :
    (valueWord value).isAbsorbable = true := by
  unfold valueWord
  cases quotes : valueNeedsQuotes value with
  | true => rfl
  | false => simp [Word.isAbsorbable, startsWithDash_of_unquoted quotes]

theorem ofWords_valueWord (value : String) (words : List Word) :
    ofWords (valueWord value :: words) = (ofWords words).addArg value := by
  unfold valueWord
  cases quotes : valueNeedsQuotes value with
  | true => rfl
  | false =>
      have notDash := startsWithDash_of_unquoted quotes
      have notMark : value ≠ positionalMark :=
        Ne.symm (ne_of_startsWithDash (by decide) notDash)
      rw [if_neg Bool.false_ne_true, ofWords.eq_def]
      simp [notMark, notDash]

theorem keyWords_of_dash {key : String} (dash : startsWithDash key = true) :
    keyWords key = [.unquoted key] := by
  have nonempty : key ≠ "" := ne_of_startsWithDash dash rfl
  simp [keyWords, nonempty, dash]

theorem head?_optionWords {options : List (String × Option String)}
    (keys : ∀ option ∈ options, IsOptionKey option.1) :
    ∀ word ∈ (options.flatMap optionWords).head?,
      word.isAbsorbable = false := by
  intro word member
  cases options with
  | nil => cases member
  | cons option options =>
      have dash := (keys option List.mem_cons_self).dash
      rw [List.flatMap_cons, optionWords, keyWords_of_dash dash] at member
      obtain rfl : .unquoted option.1 = word := by simpa using member
      simp [Word.isAbsorbable, dash]

theorem ofWords_flag {key : String} {words : List Word}
    (isKey : IsOptionKey key)
    (kept : ∀ word ∈ words.head?, word.isAbsorbable = false) :
    ofWords (.unquoted key :: words) = (ofWords words).addOption key none := by
  cases words with
  | nil => simp [ofWords, isKey.notMark, isKey.dash, addOption]
  | cons next words => simp [ofWords, isKey.notMark, isKey.dash, kept next rfl]

theorem ofWords_option {key value : String} {words : List Word}
    (isKey : IsOptionKey key) :
    ofWords (.unquoted key :: valueWord value :: words) =
      (ofWords words).addOption key (some value) := by
  simp [ofWords, isKey.notMark, isKey.dash, valueWord_isAbsorbable,
    valueWord_value]

theorem ofWords_options {options : List (String × Option String)}
    (keys : ∀ option ∈ options, IsOptionKey option.1) :
    ofWords (options.flatMap optionWords) = ⟨[], options⟩ := by
  induction options with
  | nil => rfl
  | cons option options induction =>
      obtain ⟨isKey, others⟩ := List.forall_mem_cons.mp keys
      obtain ⟨key, value⟩ := option
      rw [List.flatMap_cons, optionWords, keyWords_of_dash isKey.dash]
      cases value with
      | none =>
          have flag := ofWords_flag isKey (head?_optionWords others)
          rw [induction others] at flag
          exact flag
      | some value =>
          have absorbed : ofWords (.unquoted key :: valueWord value ::
              options.flatMap optionWords) = _ := ofWords_option isKey
          rw [induction others] at absorbed
          exact absorbed

theorem ofWords_operandWords (args : List String)
    {options : List (String × Option String)}
    (keys : ∀ option ∈ options, IsOptionKey option.1) :
    ofWords (operandWords args options) = ⟨args, options⟩ := by
  rw [operandWords]
  induction args with
  | nil => exact ofWords_options keys
  | cons arg args induction =>
      rw [List.map_cons, List.cons_append, ofWords_valueWord, induction]
      rfl

theorem isOptionKey_of_ofWords (words : List Word) :
    ∀ option ∈ (ofWords words).options, IsOptionKey option.1 := by
  fun_induction ofWords words with
  | case1 => simp
  | case2 value rest induction => exact induction
  | case3 rest => simp
  | case4 value notMark dash =>
      intro option member
      obtain rfl := List.mem_singleton.mp member
      exact ⟨dash, notMark⟩
  | case5 value notMark dash next others absorbable induction =>
      intro option member
      cases member with
      | head => exact ⟨dash, notMark⟩
      | tail _ later => exact induction option later
  | case6 value notMark dash next others kept induction =>
      intro option member
      cases member with
      | head => exact ⟨dash, notMark⟩
      | tail _ later => exact induction option later
  | case7 value rest notMark notDash induction => exact induction

end Operands

end CommandScript
