import CommandScript.Proofs.QuotedGrammar
import CommandScript.Token.Lexer

/-!
# How far a quoted string extends

A quoted string is an opening delimiter, characters that stand for others or for
themselves, and a closing delimiter.  `Quoted.Inside` says what can stand
between the delimiters.  Whatever text follows an opening delimiter, some such
inside leads up to the place where the string ends.  There it is closed, or a
backslash starts no escape, or the text is over.  The scanner passes over the
inside and so ends up in the same place.
-/

namespace CommandScript

namespace Quoted

/-- The text stands for the value inside a string with delimiters of `width`
marks when it is followed by `behind`.  Its parts are single characters, escapes
and runs of marks that are too short to close the string. -/
inductive Inside (mark : Char) (width : Nat) (behind : List Char) :
    (text value : List Char) → Prop where
  | nil : Inside mark width behind [] []
  | plain {char : Char} {text value : List Char} :
      char ≠ mark → char ≠ '\\' → Inside mark width behind text value →
      Inside mark width behind (char :: text) (char :: value)
  | escape {letter decoded : Char} {text value : List Char} :
      '\\' ≠ mark → unescape? letter = some decoded →
      Inside mark width behind text value →
      Inside mark width behind ('\\' :: letter :: text) (decoded :: value)
  | run {count : Nat} {text value : List Char} :
      0 < count → count < width → (text ++ behind).head? ≠ some mark →
      Inside mark width behind text value →
      Inside mark width behind (List.replicate count mark ++ text)
        (List.replicate count mark ++ value)

/-- The inside of a string ends in front of the text. -/
inductive Ends (mark : Char) (width : Nat) : (behind : List Char) → Prop where
  | closed (rest : List Char) :
      Ends mark width (List.replicate width mark ++ rest)
  | unknownEscape {rest : List Char} :
      '\\' ≠ mark → (∀ letter ∈ rest.head?, unescape? letter = none) →
      Ends mark width ('\\' :: rest)
  | endOfText : Ends mark width []

variable {mark : Char} {width count offset : Nat}
  {text value behind rest : List Char}

theorem Inside.pending (shorter : count < width)
    (maximal : (text ++ behind).head? ≠ some mark)
    (inside : Inside mark width behind text value) :
    Inside mark width behind (List.replicate count mark ++ text)
      (List.replicate count mark ++ value) := by
  cases count with
  | zero => exact inside
  | succ count => exact .run (Nat.succ_pos count) shorter maximal inside

/-- Some inside leads from the front of the text to where the string ends. -/
def Leads (mark : Char) (width : Nat) (text : List Char) : Prop :=
  ∃ inside value behind, text = inside ++ behind ∧
    Inside mark width behind inside value ∧ Ends mark width behind

namespace Leads

theorem here (ends : Ends mark width behind) : Leads mark width behind :=
  ⟨[], [], behind, rfl, .nil, ends⟩

theorem plain {char : Char} (notMark : char ≠ mark) (notBackslash : char ≠ '\\')
    (leads : Leads mark width text) : Leads mark width (char :: text) := by
  obtain ⟨inside, value, behind, rfl, passed, ends⟩ := leads
  exact ⟨_, _, behind, rfl, .plain notMark notBackslash passed, ends⟩

theorem escape {letter decoded : Char} (notMark : '\\' ≠ mark)
    (known : unescape? letter = some decoded) (leads : Leads mark width text) :
    Leads mark width ('\\' :: letter :: text) := by
  obtain ⟨inside, value, behind, rfl, passed, ends⟩ := leads
  exact ⟨_, _, behind, rfl, .escape notMark known passed, ends⟩

theorem run (shorter : count < width) (maximal : text.head? ≠ some mark)
    (leads : Leads mark width text) :
    Leads mark width (List.replicate count mark ++ text) := by
  obtain ⟨inside, value, behind, rfl, passed, ends⟩ := leads
  exact ⟨_, _, behind, (List.append_assoc ..).symm,
    passed.pending shorter maximal, ends⟩

end Leads

/-- Whatever follows an opening delimiter, an inside leads to where the string
ends. -/
theorem leads (mark : Char) (width : Nat) (text : List Char) :
    Leads mark width text := by
  obtain ⟨count, body, whole, maximal⟩ := exists_run mark text
  rw [whole]
  by_cases closing : width ≤ count
  · obtain ⟨more, rfl⟩ := Nat.exists_eq_add_of_le closing
    rw [← List.replicate_append_replicate, List.append_assoc]
    exact .here (.closed _)
  refine .run (Nat.lt_of_not_le closing) maximal ?_
  cases body with
  | nil => exact .here .endOfText
  | cons char rest =>
      have notMark : char ≠ mark := by simpa using maximal
      by_cases backslash : char = '\\'
      · subst char
        cases known : rest.head?.bind unescape? with
        | none =>
            refine .here (.unknownEscape notMark ?_)
            intro letter first
            simpa [Option.mem_def.mp first] using known
        | some decoded =>
            obtain ⟨letter, first, known⟩ := Option.bind_eq_some_iff.mp known
            obtain ⟨rest, rfl⟩ := List.head?_eq_some_iff.mp first
            exact .escape notMark known (leads mark width rest)
      · exact .plain notMark backslash (leads mark width rest)
termination_by text.length
decreasing_by
  · simp only [whole, List.length_append, List.length_cons]
    omega
  · simp only [whole, List.length_append, List.length_cons]
    omega

theorem map_prepend_prepend (result : Except LexicalFault Scanned)
    (first second : List Char) :
    (result.map (·.prepend second)).map (·.prepend first) =
      result.map (·.prepend (first ++ second)) := by
  cases result <;> simp [Except.map, Scanned.prepend]

/-- The scanner passes over the inside of a string and keeps what it stands
for. -/
theorem scanBody_inside (inside : Inside mark width behind text value)
    (offset : Nat) :
    scanBody mark width 0 offset (text ++ behind) =
      (scanBody mark width 0 (offset + text.length) behind).map
        (·.prepend value) := by
  induction inside generalizing offset with
  | nil =>
      rw [List.nil_append, List.length_nil, Nat.add_zero]
      cases scanBody mark width 0 offset behind <;> rfl
  | plain notMark notBackslash _ induction =>
      rw [List.cons_append, scanBody_plain notMark notBackslash, induction,
        map_prepend_prepend, List.length_cons, Nat.add_assoc, Nat.add_comm 1]
      rfl
  | escape notMark known _ induction =>
      rw [List.cons_append, List.cons_append, scanBody_escape notMark known,
        induction, map_prepend_prepend, List.length_cons, List.length_cons,
        Nat.add_assoc, Nat.add_comm 2]
      rfl
  | @run count text value _ shorter maximal _ induction =>
      rw [List.append_assoc, scanBody_run count (by omega),
        scanBody_pending maximal, induction, map_prepend_prepend,
        List.length_append, List.length_replicate, Nat.add_assoc, Nat.zero_add]

theorem scanBody_closed (positive : 0 < width)
    (inside :
      Inside mark width (List.replicate width mark ++ rest) text value) :
    scanBody mark width 0 offset (text ++ (List.replicate width mark ++ rest)) =
      .ok ⟨value, offset + text.length + width, rest⟩ := by
  obtain ⟨count, rfl⟩ : ∃ count, width = count + 1 := ⟨width - 1, by omega⟩
  rw [scanBody_inside inside, scanBody_close count (Nat.zero_add _)]
  simp [Except.map, Scanned.prepend]

theorem scanBody_unknownEscape (notMark : '\\' ≠ mark)
    (unknown : ∀ letter ∈ rest.head?, unescape? letter = none)
    (inside : Inside mark width ('\\' :: rest) text value) :
    scanBody mark width 0 offset (text ++ '\\' :: rest) =
      .error ⟨.unknownEscape, offset + text.length + 1⟩ := by
  rw [scanBody_inside inside]
  cases rest with
  | nil => simp [scanBody, notMark, Except.map]
  | cons letter rest => simp [scanBody, notMark, unknown letter rfl, Except.map]

theorem scanBody_endOfText (inside : Inside mark width [] text value) :
    scanBody mark width 0 offset text =
      .error ⟨.endOfText, offset + text.length⟩ := by
  have passed := scanBody_inside inside offset
  rw [List.append_nil] at passed
  rw [passed]
  rfl

/-- How many marks stand at the front of a text. -/
def runLength (mark : Char) (text : List Char) : Nat :=
  (text.takeWhile (· == mark)).length

theorem runLength_replicate (count : Nat) (maximal : text.head? ≠ some mark) :
    runLength mark (List.replicate count mark ++ text) = count := by
  have marks : ∀ char ∈ List.replicate count mark, (char == mark) = true := by
    intro char member
    simp [List.eq_of_mem_replicate member]
  have stopped : text.takeWhile (· == mark) = [] := by
    cases text with
    | nil => rfl
    | cons char text => simpa using maximal
  rw [runLength, List.takeWhile_append_of_pos marks, stopped]
  simp

/-- From `offset` to `stop` a text has a quoted string that stands for the value
and has delimiters of `width` marks. -/
structure Extends (text : List Char) (mark : Char) (width offset : Nat)
    (value : List Char) (stop : Nat) : Prop where
  apart : offset + width + width ≤ stop
  within : stop ≤ text.length
  closing : text.extract (stop - width) stop = List.replicate width mark
  inside : Inside mark width (text.drop (stop - width))
    (text.extract (offset + width) (stop - width)) value

/-- Where the quoted string that opens at `offset` with `width` marks breaks off
instead. -/
inductive Breaks (text : List Char) (mark : Char) (width offset : Nat) :
    LexicalFault → Prop where
  | unknownEscape {place : Nat} {value : List Char} :
      offset + width ≤ place →
      Inside mark width (text.drop place)
        (text.extract (offset + width) place) value →
      '\\' ≠ mark → text[place]? = some '\\' →
      (∀ letter ∈ text[place + 1]?, unescape? letter = none) →
      Breaks text mark width offset ⟨.unknownEscape, place + 1⟩
  | endOfText {value : List Char} :
      Inside mark width [] (text.drop (offset + width)) value →
      Breaks text mark width offset ⟨.endOfText, text.length⟩

section

variable {value : List Char} {stop start : Nat}

theorem drop_eq_extract_append (before : start ≤ stop) :
    text.drop start = text.extract start stop ++ text.drop stop := by
  have split := (List.take_append_drop (stop - start) (text.drop start)).symm
  rwa [List.drop_drop, Nat.add_sub_of_le before] at split

theorem length_extract (start : Nat) (within : stop ≤ text.length) :
    (text.extract start stop).length = stop - start := by
  rw [List.extract_eq_take_drop, List.length_take, List.length_drop]
  omega

theorem Extends.scanBody_eq (positive : 0 < width)
    (closed : Extends text mark width offset value stop) :
    scanBody mark width 0 (offset + width) (text.drop (offset + width)) =
      .ok ⟨value, stop, text.drop stop⟩ := by
  obtain ⟨apart, within, closing, inside⟩ := closed
  have behind : text.drop (stop - width) =
      List.replicate width mark ++ text.drop stop := by
    rw [drop_eq_extract_append (Nat.sub_le stop width), closing]
  have length :=
    length_extract (offset + width) ((Nat.sub_le stop width).trans within)
  rw [drop_eq_extract_append (show offset + width ≤ stop - width by omega),
    behind, scanBody_closed positive (behind ▸ inside), length]
  congr 2
  omega

theorem Breaks.scanBody_eq {fault : LexicalFault}
    (opened : offset + width ≤ text.length)
    (broken : Breaks text mark width offset fault) :
    scanBody mark width 0 (offset + width) (text.drop (offset + width)) =
      .error fault := by
  cases broken with
  | @unknownEscape place value after inside notMark backslash unknown =>
      obtain ⟨within, first⟩ := List.getElem?_eq_some_iff.mp backslash
      have behind : text.drop place = '\\' :: text.drop (place + 1) := by
        rw [List.drop_eq_getElem_cons within, first]
      have length := length_extract (offset + width) (Nat.le_of_lt within)
      rw [← List.head?_drop] at unknown
      rw [drop_eq_extract_append after, behind,
        scanBody_unknownEscape notMark unknown (behind ▸ inside), length,
        Nat.add_sub_of_le after]
  | endOfText inside =>
      rw [scanBody_endOfText inside, List.length_drop, Nat.add_sub_of_le opened]

/-- A string that opens somewhere extends up to a place or breaks off. -/
theorem exists_extends_or_breaks (opened : offset + width ≤ text.length) :
    (∃ value stop, Extends text mark width offset value stop) ∨
      ∃ fault, Breaks text mark width offset fault := by
  obtain ⟨inside, value, behind, split, passed, ends⟩ :=
    leads mark width (text.drop (offset + width))
  have lengths := congrArg List.length split
  rw [List.length_drop, List.length_append] at lengths
  have further : text.drop (offset + width + inside.length) = behind := by
    rw [← List.drop_drop, split, List.drop_left]
  have upTo : text.extract (offset + width) (offset + width + inside.length) =
      inside := by
    rw [List.extract_eq_take_drop, Nat.add_sub_cancel_left, split,
      List.take_left]
  have found : Inside mark width (text.drop (offset + width + inside.length))
      (text.extract (offset + width) (offset + width + inside.length))
      value := by
    rw [further, upTo]
    exact passed
  cases ends with
  | closed rest =>
      rw [List.length_append, List.length_replicate] at lengths
      left
      refine ⟨value, offset + width + inside.length + width, by omega,
        by omega, ?_, ?_⟩
      · rw [Nat.add_sub_cancel, List.extract_eq_take_drop,
          Nat.add_sub_cancel_left, further]
        simp
      · rw [Nat.add_sub_cancel]
        exact found
  | @unknownEscape rest notMark unknown =>
      right
      have backslash : text[offset + width + inside.length]? = some '\\' := by
        rw [← List.head?_drop, further]
        rfl
      have letters :
          text[offset + width + inside.length + 1]? = rest.head? := by
        rw [← List.head?_drop, ← List.drop_drop, further]
        rfl
      rw [← letters] at unknown
      exact ⟨_, .unknownEscape (Nat.le_add_right _ _) found notMark backslash
        unknown⟩
  | endOfText =>
      right
      rw [List.append_nil] at split
      exact ⟨_, .endOfText (split ▸ passed)⟩

end

end Quoted

namespace Token

open Quoted

section

variable {text : String} {offset width : Nat} {mark : Char}
  (opens : text.toList[offset]? = some mark)
  (wide : runLength mark (text.toList.drop offset) = width)

include opens wide

theorem exists_drop_eq_run :
    ∃ count, width = count + 1 ∧
      text.toList.drop offset =
        mark ::
          (List.replicate count mark ++ text.toList.drop (offset + width)) ∧
      (text.toList.drop (offset + width)).head? ≠ some mark := by
  rw [← List.head?_drop] at opens
  obtain ⟨rest, first⟩ := List.head?_eq_some_iff.mp opens
  obtain ⟨count, body, rfl, maximal⟩ := exists_run mark rest
  have run :
      text.toList.drop offset = List.replicate (count + 1) mark ++ body := first
  rw [run, runLength_replicate _ maximal] at wide
  have behind : text.toList.drop (offset + width) = body := by
    rw [← List.drop_drop, run, ← wide]
    simp
  exact ⟨count, wide.symm, by rw [behind, first], by rwa [behind]⟩

theorem run_in_text : 0 < width ∧ offset + width ≤ text.toList.length := by
  obtain ⟨count, positive, split, -⟩ := exists_drop_eq_run opens wide
  have lengths := congrArg List.length split
  simp only [List.length_cons, List.length_append, List.length_replicate,
    List.length_drop] at lengths
  obtain ⟨within, -⟩ := List.getElem?_eq_some_iff.mp opens
  omega

theorem quotedAt_two (two : width = 2) :
    quotedAt text offset = .ok ("", offset + 2) := by
  obtain ⟨count, rfl, split, maximal⟩ := exists_drop_eq_run opens wide
  simp only [quotedAt, split, scan_run count maximal, if_pos two]

theorem quotedAt_of_extends {value : List Char} {stop : Nat}
    (notTwo : width ≠ 2)
    (closed : Extends text.toList mark width offset value stop) :
    quotedAt text offset = .ok (String.ofList value, stop) := by
  obtain ⟨count, rfl, split, maximal⟩ := exists_drop_eq_run opens wide
  have read := closed.scanBody_eq (Nat.succ_pos count)
  simp only [quotedAt, split, scan_run count maximal, if_neg notTwo, read]

theorem quotedAt_of_breaks {fault : LexicalFault} (notTwo : width ≠ 2)
    (broken : Breaks text.toList mark width offset fault) :
    quotedAt text offset = .error (.ofLexicalFault text.toList fault) := by
  have opened := (run_in_text opens wide).2
  obtain ⟨count, rfl, split, maximal⟩ := exists_drop_eq_run opens wide
  simp only [quotedAt, split, scan_run count maximal, if_neg notTwo,
    broken.scanBody_eq opened]

theorem quotedAt_eq_ok_iff_extends {value : String} {stop : Nat}
    (notTwo : width ≠ 2) :
    quotedAt text offset = .ok (value, stop) ↔
      Extends text.toList mark width offset value.toList stop := by
  constructor
  · intro success
    rcases exists_extends_or_breaks (run_in_text opens wide).2 with
      ⟨found, reached, closed⟩ | ⟨fault, broken⟩
    · have read := quotedAt_of_extends opens wide notTwo closed
      obtain ⟨rfl, rfl⟩ : String.ofList found = value ∧ reached = stop := by
        simpa using read.symm.trans success
      rwa [String.toList_ofList]
    · have failed := quotedAt_of_breaks opens wide notTwo broken
      cases success.symm.trans failed
  · intro closed
    rw [quotedAt_of_extends opens wide notTwo closed, String.ofList_toList]

theorem quotedAt_eq_error_iff_breaks {error : Error} (notTwo : width ≠ 2) :
    quotedAt text offset = .error error ↔
      ∃ fault, Breaks text.toList mark width offset fault ∧
        error = .ofLexicalFault text.toList fault := by
  constructor
  · intro failed
    rcases exists_extends_or_breaks (run_in_text opens wide).2 with
      ⟨found, reached, closed⟩ | ⟨fault, broken⟩
    · have read := quotedAt_of_extends opens wide notTwo closed
      cases read.symm.trans failed
    · have found := quotedAt_of_breaks opens wide notTwo broken
      exact ⟨fault, broken, Except.error.inj (failed.symm.trans found)⟩
  · rintro ⟨fault, broken, rfl⟩
    exact quotedAt_of_breaks opens wide notTwo broken

end

/-- Two marks are the empty string.  Otherwise what is read at an offset is the
quoted string that extends from there, of which there is at most one, and
reading fails exactly where the string breaks off. -/
theorem quotedAt_extent {text : String} {offset width : Nat} {mark : Char}
    (opens : text.toList[offset]? = some mark)
    (wide : runLength mark (text.toList.drop offset) = width) :
    (width = 2 → quotedAt text offset = .ok ("", offset + 2)) ∧
    (width ≠ 2 →
      (∀ value stop, quotedAt text offset = .ok (value, stop) ↔
        Extends text.toList mark width offset value.toList stop) ∧
      (∀ value stop, Extends text.toList mark width offset value stop →
        ∀ otherValue otherStop,
          Extends text.toList mark width offset otherValue otherStop →
          otherValue = value ∧ otherStop = stop) ∧
      ∀ error, quotedAt text offset = .error error ↔
        ∃ fault, Breaks text.toList mark width offset fault ∧
          error = .ofLexicalFault text.toList fault) ∧
    (∀ value stop, quotedAt text offset = .ok (value, stop) →
      offset < stop ∧ stop ≤ text.toList.length) ∧
    LexicalReason.unknownEscape.text = "Unexpected escape sequence" ∧
    LexicalReason.endOfText.text = "Unexpected EOF" := by
  obtain ⟨positive, opened⟩ := run_in_text opens wide
  refine ⟨quotedAt_two opens wide, ?_, ?_, rfl, rfl⟩
  · intro notTwo
    refine ⟨fun _ _ => quotedAt_eq_ok_iff_extends opens wide notTwo, ?_,
      fun _ => quotedAt_eq_error_iff_breaks opens wide notTwo⟩
    intro value stop closed otherValue otherStop otherClosed
    have read := closed.scanBody_eq positive
    have otherRead := otherClosed.scanBody_eq positive
    rw [read] at otherRead
    simp only [Except.ok.injEq, Scanned.mk.injEq] at otherRead
    exact ⟨otherRead.1.symm, otherRead.2.1.symm⟩
  · intro value stop success
    by_cases two : width = 2
    · obtain ⟨-, rfl⟩ : "" = value ∧ offset + 2 = stop := by
        simpa using (quotedAt_two opens wide two).symm.trans success
      omega
    · have closed := (quotedAt_eq_ok_iff_extends opens wide two).mp success
      have apart := closed.apart
      have within := closed.within
      omega

/-- A single mark does not close a string that three have opened, and the end of
the text can cut an escape off. -/
theorem quotedAt_extent_triple :
    quotedAt "x'''a'b\\n'''c" 1 = .ok ("a'b\n", 12) ∧
      quotedAt "x'''a'\\" 1 =
        .error (.ofLexicalFault "x'''a'\\".toList ⟨.unknownEscape, 7⟩) := by
  constructor
  · have extent := @quotedAt_extent "x'''a'b\\n'''c" 1 3 '\'' rfl rfl
    refine ((extent.2.1 (by decide)).1 _ _).mpr
      ⟨by decide, by decide, by decide, ?_⟩
    exact .plain (by decide) (by decide)
      (.run Nat.one_pos (by decide) (by decide)
        (.plain (by decide) (by decide) (.escape (by decide) rfl .nil)))
  · have extent := @quotedAt_extent "x'''a'\\" 1 3 '\'' rfl rfl
    have inside : Inside '\'' 3 ['\\'] ['a', '\''] ['a', '\''] :=
      .plain (by decide) (by decide)
        (.run Nat.one_pos (by decide) (by decide) .nil)
    have broken : Breaks "x'''a'\\".toList '\'' 3 1 ⟨.unknownEscape, 6 + 1⟩ :=
      .unknownEscape (by decide) inside (by decide) rfl (by simp)
    exact ((extent.2.1 (by decide)).2.2 _).mpr ⟨_, broken, rfl⟩

end Token

end CommandScript
