import CommandScript.Command.Render
import CommandScript.Proofs.QuotingRoundTrip
import Mathlib.Data.List.Find
import Mathlib.Logic.Function.Iterate

/-!
# Indentation and quoted texts

Blocks are indented after their commands have been written, once for each level
they end up below.  Indenting a quoted text quotes the indented text, unless
line ends are escaped, in which case it does nothing.  So the effect of the
layout on a value can be told without looking at how the value was written.
-/

namespace CommandScript

namespace Command

variable {char mark : Char} {text rest : List Char}

theorem indent_cons (char : Char) (text : List Char) :
    indent (char :: text) =
      (if char = '\n' then ['\n', '\t'] else [char]) ++ indent text :=
  List.flatMap_cons

theorem indent_append (text rest : List Char) :
    indent (text ++ rest) = indent text ++ indent rest :=
  List.flatMap_append

theorem indent_of_not_mem (flat : '\n' ∉ text) : indent text = text := by
  induction text with
  | nil => rfl
  | cons char text induction =>
      obtain ⟨notFeed, others⟩ : '\n' ≠ char ∧ '\n' ∉ text := by
        simpa using flat
      rw [indent_cons, if_neg (Ne.symm notFeed), induction others]
      rfl

theorem mem_indent {other : Char} (visible : other ≠ '\t') :
    other ∈ indent text ↔ other ∈ text := by
  induction text with
  | nil => rfl
  | cons char text induction =>
      rw [indent_cons, List.mem_append, induction, List.mem_cons]
      split <;> simp_all

theorem head?_indent (text : List Char) : (indent text).head? = text.head? := by
  cases text with
  | nil => rfl
  | cons char text =>
      rw [indent_cons]
      split <;> simp_all

theorem getLast?_indent_eq_mark_iff (quote : isQuoteMark mark = true) :
    (indent text).getLast? = some mark ↔ text.getLast? = some mark := by
  rcases List.eq_nil_or_concat' text with rfl | ⟨text, char, rfl⟩
  · rfl
  · rw [indent_append, indent_cons]
    split
    · rename_i feed
      subst char
      have notTab : '\t' ≠ mark := ne_of_isQuoteMark quote rfl
      have notFeed : '\n' ≠ mark := ne_of_isQuoteMark quote rfl
      simp [indent, notTab, notFeed]
    · simp [indent]

theorem indent_replicate_mark (quote : isQuoteMark mark = true) (count : Nat) :
    indent (List.replicate count mark) = List.replicate count mark := by
  apply indent_of_not_mem
  intro member
  exact ne_of_isQuoteMark quote rfl (List.eq_of_mem_replicate member)

end Command

namespace Spelling

open Command (indent indent_cons indent_append)

variable {mark : Char} {text : List Char}

theorem indent_escape_raw (text : List Char) :
    indent (escape false text) = escape false (indent text) := by
  induction text with
  | nil => rfl
  | cons char text induction =>
      rw [escape_cons, indent_append, induction, indent_cons, escape_append]
      congr 1
      by_cases feed : char = '\n'
      · subst char
        rfl
      · by_cases backslash : char = '\\'
        · subst char
          rfl
        · simp [escapeChar, escape, indent, feed, backslash]

theorem absentMark?_indent (text : List Char) :
    absentMark? (indent text) = absentMark? text := by
  have same : ∀ mark ∈ preferredMarks,
      (!(indent text).contains mark) = !text.contains mark := by
    intro mark member
    have visible : mark ≠ '\t' := by
      rintro rfl
      exact absurd member (by decide)
    have present : mark ∈ indent text ↔ mark ∈ text :=
      Command.mem_indent visible
    rw [Bool.not_inj_iff, Bool.eq_iff_iff, List.contains_iff_mem,
      List.contains_iff_mem]
    exact present
  exact List.find?_congr same

theorem tripleMark_indent (text : List Char) :
    tripleMark (indent text) = tripleMark text := by
  have same : ∀ mark ∈ ['"', '\''],
      ((indent text).head? != some mark &&
        (indent text).getLast? != some mark) =
          (text.head? != some mark && text.getLast? != some mark) := by
    intro mark member
    have quote : isQuoteMark mark = true := by
      simp only [List.mem_cons, List.not_mem_nil, or_false] at member
      rcases member with rfl | rfl <;> rfl
    have last : (indent text).getLast? = some mark ↔
        text.getLast? = some mark :=
      Command.getLast?_indent_eq_mark_iff quote
    rw [Command.head?_indent, Bool.eq_iff_iff]
    simp [last]
  exact congrArg (Option.getD · '\x60') (List.find?_congr same)

theorem indent_breakTriples (quote : isQuoteMark mark = true)
    (text : List Char) :
    indent (breakTriples mark text) = breakTriples mark (indent text) := by
  have notFeed : '\n' ≠ mark := ne_of_isQuoteMark quote rfl
  have notTab : '\t' ≠ mark := ne_of_isQuoteMark quote rfl
  induction text using markRuns_induction mark with
  | nil => rfl
  | plain char text other induction =>
      rw [breakTriples_cons other, indent_cons, indent_cons,
        breakTriples_append ?_, induction]
      intro written member
      split at member
      · simp only [List.mem_cons, List.not_mem_nil, or_false] at member
        rcases member with rfl | rfl
        · exact notFeed
        · exact notTab
      · rw [List.mem_singleton] at member
        exact member.trans_ne other
  | triple text induction =>
      rw [breakTriples_triple]
      simp only [indent_cons, Ne.symm notFeed, if_false, List.singleton_append,
        induction]
      rw [breakTriples_triple]
      rfl
  | few count text positive few apart induction =>
      have apartIndented := apart
      rw [← Command.head?_indent] at apartIndented
      rw [breakTriples_run few apart, indent_append, indent_append,
        Command.indent_replicate_mark quote, breakTriples_run few apartIndented,
        induction]

/-- Indenting a quoted text quotes the indented text. -/
theorem indent_quoteChars_raw (text : List Char) :
    indent (quoteChars false text) = quoteChars false (indent text) := by
  have chosen := absentMark?_indent (escape false text)
  rw [indent_escape_raw] at chosen
  cases found : absentMark? (escape false text) with
  | some mark =>
      have quote := (absentMark?_some found).1
      have single := Command.indent_replicate_mark quote 1
      rw [found] at chosen
      rw [quoteChars_single found, quoteChars_single chosen, indent_append,
        indent_append, indent_escape_raw]
      exact congrArg₂ (· ++ _ ++ ·) single single
  | none =>
      have quote := isQuoteMark_tripleMark (escape false text)
      have same := tripleMark_indent (escape false text)
      rw [indent_escape_raw] at same
      rw [found] at chosen
      rw [quoteChars_triple found rfl, quoteChars_triple chosen same,
        indent_append, indent_append, indent_breakTriples quote,
        indent_escape_raw, Command.indent_replicate_mark quote]

theorem mem_breakTriples {char : Char}
    (member : char ∈ breakTriples mark text) :
    char = '\\' ∨ char ∈ text := by
  fun_induction breakTriples mark text with
  | case1 first second third rest marks induction =>
      obtain ⟨rfl, -, -⟩ := marks
      simp only [List.mem_cons] at member ⊢
      rcases member with same | same | same | same | later
      · exact .inr (.inl same)
      · exact .inr (.inl same)
      · exact .inl same
      · exact .inr (.inl same)
      · exact (induction later).imp_right fun inside =>
          .inr (.inr (.inr inside))
  | case2 first second third rest _ induction =>
      rcases List.mem_cons.mp member with same | later
      · exact .inr (List.mem_cons.mpr (.inl same))
      · exact (induction later).imp_right (List.mem_cons_of_mem first)
  | case3 | case4 | case5 => exact .inr member

theorem mem_quoteChars {escapeBreaks : Bool} {char : Char}
    (member : char ∈ quoteChars escapeBreaks text) :
    isQuoteMark char = true ∨ char = '\\' ∨
      char ∈ escape escapeBreaks text := by
  cases found : absentMark? (escape escapeBreaks text) with
  | some mark =>
      have quote := (absentMark?_some found).1
      rw [quoteChars_single found, List.mem_append, List.mem_append] at member
      rcases member with (first | inside) | last
      · rw [List.mem_singleton.mp first]
        exact .inl quote
      · exact .inr (.inr inside)
      · rw [List.mem_singleton.mp last]
        exact .inl quote
  | none =>
      have quote := isQuoteMark_tripleMark (escape escapeBreaks text)
      rw [quoteChars_triple found rfl, List.mem_append,
        List.mem_append] at member
      rcases member with (first | inside) | last
      · rw [List.eq_of_mem_replicate first]
        exact .inl quote
      · exact .inr (mem_breakTriples inside)
      · rw [List.eq_of_mem_replicate last]
        exact .inl quote

theorem mem_escape_true {char : Char} (member : char ∈ escape true text) :
    char ≠ '\n' ∧ char ≠ '\r' := by
  obtain ⟨source, -, written⟩ := List.mem_flatMap.mp member
  rw [escapeChar] at written
  constructor
  · rintro rfl
    grind
  · rintro rfl
    grind

theorem lineBreak_not_mem_quoteChars : '\n' ∉ quoteChars true text := by
  intro member
  rcases mem_quoteChars member with quote | backslash | inside
  · exact absurd quote (by decide)
  · exact absurd backslash (by decide)
  · exact (mem_escape_true inside).1 rfl

end Spelling

namespace Style

open Command (indent)

variable {style : Style} {levels : Nat} {text rest : List Char}

/-- A text written `levels` levels inside, as it stands in the whole. -/
def shift (style : Style) (levels : Nat) (text : List Char) : List Char :=
  if style.multiline then indent^[levels] text else text

/-- What is left of a text that is written `levels` levels inside and read
back. -/
def displace (style : Style) (levels : Nat) (text : List Char) : List Char :=
  if style.escapeBreaks then text else style.shift levels text

theorem shift_induction {motive : List Char → Prop} (style : Style)
    (levels : Nat) (base : motive text)
    (step : ∀ text, motive text → motive (indent text)) :
    motive (style.shift levels text) := by
  unfold shift
  split
  · exact Function.Iterate.rec motive base step levels
  · exact base

theorem displace_induction {motive : List Char → Prop} (style : Style)
    (levels : Nat) (base : motive text)
    (step : ∀ text, motive text → motive (indent text)) :
    motive (style.displace levels text) := by
  unfold displace
  split
  · exact base
  · exact shift_induction style levels base step

theorem shift_zero (style : Style) (text : List Char) :
    style.shift 0 text = text := by
  simp [shift]

theorem shift_append (style : Style) (levels : Nat) (text rest : List Char) :
    style.shift levels (text ++ rest) =
      style.shift levels text ++ style.shift levels rest := by
  unfold shift
  split
  · induction levels generalizing text rest with
    | zero => rfl
    | succ levels induction =>
        rw [Function.iterate_succ_apply, Command.indent_append, induction]
        rfl
  · rfl

theorem shift_of_not_mem (flat : '\n' ∉ text) :
    style.shift levels text = text := by
  unfold shift
  split
  · exact Function.iterate_fixed (Command.indent_of_not_mem flat) levels
  · rfl

theorem shift_cons {char : Char} (visible : char ≠ '\n') (text : List Char) :
    style.shift levels (char :: text) = char :: style.shift levels text := by
  have flat : '\n' ∉ [char] := by simpa using Ne.symm visible
  rw [← List.singleton_append, shift_append, shift_of_not_mem flat]
  rfl

theorem shift_indent (multiline : style.multiline = true) (text : List Char) :
    style.shift levels (indent text) = style.shift (levels + 1) text := by
  simp only [shift, multiline, if_true]
  rfl

theorem shift_lineBreak (multiline : style.multiline = true)
    (text : List Char) :
    style.shift levels ('\n' :: text) =
      '\n' :: List.replicate levels '\t' ++ style.shift levels text := by
  rw [← List.singleton_append, shift_append]
  congr 1
  simp only [shift, multiline, if_true]
  induction levels with
  | zero => rfl
  | succ levels induction =>
      have flat : '\n' ∉ List.replicate levels '\t' := by
        intro member
        exact absurd (List.eq_of_mem_replicate member) (by decide)
      rw [Function.iterate_succ_apply', induction, Command.indent_cons,
        Command.indent_of_not_mem flat]
      rfl

theorem displace_of_not_mem (flat : '\n' ∉ text) :
    style.displace levels text = text := by
  unfold displace
  split
  · rfl
  · exact shift_of_not_mem flat

theorem displace_append (style : Style) (levels : Nat) (text rest : List Char) :
    style.displace levels (text ++ rest) =
      style.displace levels text ++ style.displace levels rest := by
  unfold displace
  split
  · rfl
  · exact shift_append style levels text rest

theorem lineBreak_mem_displace :
    '\n' ∈ style.displace levels text ↔ '\n' ∈ text := by
  refine displace_induction (motive := fun moved => '\n' ∈ moved ↔ '\n' ∈ text)
    style levels Iff.rfl fun moved same => ?_
  rw [Command.mem_indent (by decide), same]

theorem head?_displace (style : Style) (levels : Nat) (text : List Char) :
    (style.displace levels text).head? = text.head? := by
  refine displace_induction (motive := fun moved => moved.head? = text.head?)
    style levels rfl fun moved same => ?_
  rw [Command.head?_indent, same]

/-- Indentation does not reach line ends inside quotes. -/
def Settled (style : Style) : Prop :=
  style.escapeBreaks = true ∨ style.multiline = false

theorem displace_of_settled (settled : style.Settled) :
    style.displace levels text = text := by
  unfold displace shift
  rcases settled with escaped | single <;> simp [*]

/-- A quoted text that is moved inside quotes what is left of the text. -/
theorem shift_quoteChars (style : Style) (levels : Nat) (text : List Char) :
    style.shift levels (Spelling.quoteChars style.escapeBreaks text) =
      Spelling.quoteChars style.escapeBreaks (style.displace levels text) := by
  unfold displace
  cases escaped : style.escapeBreaks with
  | true => exact shift_of_not_mem Spelling.lineBreak_not_mem_quoteChars
  | false =>
      simp only [shift, Bool.false_eq_true, if_false]
      split
      · induction levels generalizing text with
        | zero => rfl
        | succ levels induction =>
            rw [Function.iterate_succ_apply, Spelling.indent_quoteChars_raw,
              induction]
            rfl
      · rfl

/-- A value that is written `levels` levels inside and read back. -/
def displaced (style : Style) (levels : Nat) (value : String) : String :=
  String.ofList (style.displace levels value.toList)

theorem displaced_of_settled (settled : style.Settled) (value : String) :
    style.displaced levels value = value := by
  rw [displaced, displace_of_settled settled, String.ofList_toList]

theorem lineBreak_not_mem_of_isBareText {value : String}
    (bare : Spelling.isBareText value = true) : '\n' ∉ value.toList := by
  intro member
  have visible := List.all_eq_true.mp bare _ member
  exact absurd visible (by decide)

theorem displaced_of_isBareText {value : String}
    (bare : Spelling.isBareText value = true) :
    style.displaced levels value = value := by
  rw [displaced, displace_of_not_mem (lineBreak_not_mem_of_isBareText bare),
    String.ofList_toList]

theorem isBareText_displaced (style : Style) (levels : Nat) (value : String) :
    Spelling.isBareText (style.displaced levels value) =
      Spelling.isBareText value := by
  by_cases feed : '\n' ∈ value.toList
  · have notBare : ∀ text : String, '\n' ∈ text.toList →
        Spelling.isBareText text = false := by
      intro text member
      cases bare : Spelling.isBareText text with
      | false => rfl
      | true => exact absurd member (lineBreak_not_mem_of_isBareText bare)
    have moved : '\n' ∈ (style.displaced levels value).toList := by
      rw [displaced, String.toList_ofList]
      exact lineBreak_mem_displace.mpr feed
    rw [notBare value feed, notBare _ moved]
  · rw [displaced, displace_of_not_mem feed, String.ofList_toList]

end Style

end CommandScript
