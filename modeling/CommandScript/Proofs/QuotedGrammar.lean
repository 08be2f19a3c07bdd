import CommandScript.Token.Quoted
import Mathlib.Data.List.TakeWhile

/-!
# The grammar of quoted strings

`Quoted.Spells` says which texts start with a quoted string, what the string
stands for and what follows it, without saying how to find its end.  Runs of
the mark are maximal, so that a run as long as the opening delimiter can only
be the closing one.  The scanner accepts exactly these texts.
-/

namespace CommandScript

namespace Quoted

/-- What follows an opening delimiter of `width` marks: `text` is the inside of
the string, which stands for `value`, the closing delimiter and `rest`. -/
inductive Body (mark : Char) (width : Nat) :
    (text value rest : List Char) → Prop where
  | close (rest : List Char) :
      Body mark width (List.replicate width mark ++ rest) [] rest
  | plain {char : Char} {text value rest : List Char} :
      char ≠ mark → char ≠ '\\' → Body mark width text value rest →
      Body mark width (char :: text) (char :: value) rest
  | escape {letter decoded : Char} {text value rest : List Char} :
      '\\' ≠ mark → unescape? letter = some decoded →
      Body mark width text value rest →
      Body mark width ('\\' :: letter :: text) (decoded :: value) rest
  | run {count : Nat} {text value rest : List Char} :
      0 < count → count < width → text.head? ≠ some mark →
      Body mark width text value rest →
      Body mark width (List.replicate count mark ++ text)
        (List.replicate count mark ++ value) rest

/-- `text` starts with a quoted string delimited by `mark` that stands for
`value` and is followed by `rest`. -/
inductive Spells (mark : Char) : (text value rest : List Char) → Prop where
  | empty {rest : List Char} :
      rest.head? ≠ some mark → Spells mark (mark :: mark :: rest) [] rest
  | delimited {width : Nat} {text value rest : List Char} :
      0 < width → width ≠ 2 → text.head? ≠ some mark →
      Body mark width text value rest →
      Spells mark (List.replicate width mark ++ text) value rest

variable {mark : Char} {width run offset : Nat} {text value rest : List Char}

theorem scanBody_mark : scanBody mark width run offset (mark :: text) =
    if run + 1 = width then .ok ⟨[], offset + 1, text⟩
    else scanBody mark width (run + 1) (offset + 1) text := by
  rw [scanBody.eq_def]
  simp

theorem scanBody_escape {letter decoded : Char} (notMark : '\\' ≠ mark)
    (known : unescape? letter = some decoded) :
    scanBody mark width run offset ('\\' :: letter :: text) =
      (scanBody mark width 0 (offset + 2) text).map
        (·.prepend (List.replicate run mark ++ [decoded])) := by
  simp [scanBody, notMark, known]

theorem scanBody_plain {char : Char} (notMark : char ≠ mark)
    (notBackslash : char ≠ '\\') :
    scanBody mark width run offset (char :: text) =
      (scanBody mark width 0 (offset + 1) text).map
        (·.prepend (List.replicate run mark ++ [char])) := by
  rw [scanBody.eq_def]
  simp [notMark, notBackslash]

theorem Body.pending (shorter : run < width) (maximal : text.head? ≠ some mark)
    (body : Body mark width text value rest) :
    Body mark width (List.replicate run mark ++ text)
      (List.replicate run mark ++ value) rest := by
  cases run with
  | zero => simpa using body
  | succ run => exact .run (Nat.succ_pos run) shorter maximal body

theorem Body.suffix (body : Body mark width text value rest) :
    rest <:+ text := by
  induction body with
  | close rest => exact List.suffix_append _ rest
  | plain _ _ _ induction => exact induction.trans (List.suffix_cons _ _)
  | escape _ _ _ induction =>
      exact induction.trans
        ((List.suffix_cons _ _).trans (List.suffix_cons _ _))
  | run _ _ _ _ induction => exact induction.trans (List.suffix_append _ _)

theorem Spells.suffix (spelled : Spells mark text value rest) :
    rest <:+ text := by
  cases spelled with
  | empty _ => exact (List.suffix_cons _ _).trans (List.suffix_cons _ _)
  | delimited _ _ _ body => exact body.suffix.trans (List.suffix_append _ _)

theorem Spells.head? (spelled : Spells mark text value rest) :
    text.head? = some mark := by
  cases spelled with
  | empty _ => rfl
  | @delimited width text value rest positive _ _ _ =>
      obtain ⟨count, rfl⟩ : ∃ count, width = count + 1 := ⟨width - 1, by omega⟩
      rfl

theorem scanBody_sound {scanned : Scanned} (shorter : run < width)
    (success : scanBody mark width run offset text = .ok scanned) :
    Body mark width (List.replicate run mark ++ text) scanned.value
      scanned.rest ∧
      scanned.stop + scanned.rest.length = offset + text.length := by
  fun_induction scanBody mark width run offset text generalizing scanned with
  | case1 => cases success
  | case2 run offset rest closed =>
      cases success
      refine ⟨?_, by simp only [List.length_cons]; omega⟩
      have closing :
          Body mark width (List.replicate width mark ++ rest) [] rest :=
        .close rest
      rw [← closed, List.replicate_succ', List.append_assoc] at closing
      simpa [closed] using closing
  | case3 run offset rest opened induction =>
      obtain ⟨body, place⟩ := induction (by omega) success
      refine ⟨?_, by simp only [List.length_cons]; omega⟩
      rw [List.replicate_succ', List.append_assoc] at body
      exact body
  | case4 => cases success
  | case5 => cases success
  | case6 run offset letter rest decoded known notMark induction =>
      obtain ⟨inner, innerSuccess, rfl⟩ := Outcome.map_eq_ok_iff.mp success
      obtain ⟨body, place⟩ := induction (by omega) innerSuccess
      refine ⟨?_, by simp only [Scanned.prepend_stop, Scanned.prepend_rest,
        List.length_cons]; omega⟩
      have escaped := Body.escape notMark known (by simpa using body)
      have pending := escaped.pending shorter (by simpa using notMark)
      simpa [Scanned.prepend] using pending
  | case7 run offset char rest notMark notBackslash induction =>
      obtain ⟨inner, innerSuccess, rfl⟩ := Outcome.map_eq_ok_iff.mp success
      obtain ⟨body, place⟩ := induction (by omega) innerSuccess
      refine ⟨?_, by simp only [Scanned.prepend_stop, Scanned.prepend_rest,
        List.length_cons]; omega⟩
      have plain := Body.plain notMark notBackslash (by simpa using body)
      have pending := plain.pending shorter (by simpa using notMark)
      simpa [Scanned.prepend] using pending

theorem scanBody_close (count : Nat) (closing : run + (count + 1) = width) :
    scanBody mark width run offset (List.replicate (count + 1) mark ++ rest) =
      .ok ⟨[], offset + (count + 1), rest⟩ := by
  induction count generalizing run offset with
  | zero => simp [scanBody_mark, closing]
  | succ count induction =>
      have opened : run + 1 ≠ width := by omega
      rw [List.replicate_succ, List.cons_append, scanBody_mark, if_neg opened,
        induction (by omega)]
      congr 2
      omega

theorem scanBody_run (count : Nat) (shorter : run + count < width) :
    scanBody mark width run offset (List.replicate count mark ++ text) =
      scanBody mark width (run + count) (offset + count) text := by
  induction count generalizing run offset with
  | zero => simp
  | succ count induction =>
      have opened : run + 1 ≠ width := by omega
      rw [List.replicate_succ, List.cons_append, scanBody_mark, if_neg opened,
        induction (by omega)]
      congr 1 <;> omega

/-- Pending marks become text as soon as no further mark follows. -/
theorem scanBody_pending (maximal : text.head? ≠ some mark) :
    scanBody mark width run offset text =
      (scanBody mark width 0 offset text).map
        (·.prepend (List.replicate run mark)) := by
  cases text with
  | nil => rfl
  | cons char text =>
      have notMark : char ≠ mark := by simpa using maximal
      by_cases backslash : char = '\\'
      · subst char
        cases text with
        | nil => simp [scanBody, notMark, Except.map]
        | cons letter text =>
            cases known : unescape? letter with
            | none => simp [scanBody, notMark, known, Except.map]
            | some decoded =>
                rw [scanBody_escape notMark known,
                  scanBody_escape notMark known]
                cases scanBody mark width 0 (offset + 2) text <;>
                  simp [Except.map, Scanned.prepend]
      · rw [scanBody_plain notMark backslash, scanBody_plain notMark backslash]
        cases scanBody mark width 0 (offset + 1) text <;>
          simp [Except.map, Scanned.prepend]

theorem scanBody_complete (offset : Nat) (positive : 0 < width)
    (body : Body mark width text value rest) :
    ∃ stop, scanBody mark width 0 offset text = .ok ⟨value, stop, rest⟩ := by
  induction body generalizing offset with
  | close rest =>
      obtain ⟨count, rfl⟩ : ∃ count, width = count + 1 := ⟨width - 1, by omega⟩
      exact ⟨_, scanBody_close count (by omega)⟩
  | plain notMark notBackslash _ induction =>
      obtain ⟨stop, success⟩ := induction (offset + 1)
      refine ⟨stop, ?_⟩
      rw [scanBody_plain notMark notBackslash, success]
      rfl
  | escape notMark known _ induction =>
      obtain ⟨stop, success⟩ := induction (offset + 2)
      refine ⟨stop, ?_⟩
      rw [scanBody_escape notMark known, success]
      rfl
  | @run count text value rest _ shorter maximal _ induction =>
      obtain ⟨stop, success⟩ := induction (offset + count)
      refine ⟨stop, ?_⟩
      rw [scanBody_run count (by omega), scanBody_pending maximal, success]
      simp [Except.map, Scanned.prepend]

theorem exists_run (mark : Char) (text : List Char) :
    ∃ count body, text = List.replicate count mark ++ body ∧
      body.head? ≠ some mark := by
  refine ⟨(text.takeWhile (· == mark)).length, text.dropWhile (· == mark), ?_,
    ?_⟩
  · have marks : text.takeWhile (· == mark) =
        List.replicate (text.takeWhile (· == mark)).length mark :=
      List.eq_replicate_of_mem fun char member => by
        simpa using List.mem_takeWhile_imp member
    rw [← marks, List.takeWhile_append_dropWhile]
  · intro first
    have stopped := List.head?_dropWhile_not (· == mark) text
    rw [first] at stopped
    simp at stopped

theorem scan_run (count : Nat) (maximal : text.head? ≠ some mark) :
    scan mark offset (List.replicate count mark ++ text) =
      if count + 1 = 2 then .ok ⟨[], offset + 2, text⟩
      else scanBody mark (count + 1) 0 (offset + (count + 1)) text := by
  have taken : text.takeWhile (· == mark) = [] := by
    cases text with
    | nil => rfl
    | cons char text => simpa using maximal
  have kept : text.dropWhile (· == mark) = text := by
    cases text with
    | nil => rfl
    | cons char text => simpa using maximal
  have marks : ∀ char ∈ List.replicate count mark, (char == mark) = true := by
    intro char member
    simp [List.eq_of_mem_replicate member]
  rw [scan, List.takeWhile_append_of_pos marks,
    List.dropWhile_append_of_pos marks, taken, kept]
  simp

theorem scan_sound {scanned : Scanned}
    (success : scan mark offset text = .ok scanned) :
    Spells mark (mark :: text) scanned.value scanned.rest ∧
      scanned.stop + scanned.rest.length = offset + 1 + text.length := by
  obtain ⟨count, body, rfl, maximal⟩ := exists_run mark text
  rw [scan_run count maximal] at success
  split at success
  · rename_i two
    cases success
    obtain rfl : count = 1 := by omega
    refine ⟨.empty maximal, ?_⟩
    simp
    omega
  · rename_i notTwo
    obtain ⟨spelled, place⟩ := scanBody_sound (Nat.succ_pos count) success
    have opened := Spells.delimited (Nat.succ_pos count) notTwo maximal spelled
    refine ⟨by simpa [List.replicate_succ] using opened, ?_⟩
    simp only [List.length_append, List.length_replicate]
    omega

theorem scan_complete (offset : Nat)
    (spelled : Spells mark (mark :: text) value rest) :
    ∃ stop, scan mark offset text = .ok ⟨value, stop, rest⟩ := by
  generalize whole : mark :: text = quoted at spelled
  cases spelled with
  | empty maximal =>
      obtain rfl : text = List.replicate 1 mark ++ rest := by simpa using whole
      exact ⟨offset + 2, by rw [scan_run 1 maximal]; simp⟩
  | @delimited width body value rest positive notTwo maximal inside =>
      obtain ⟨count, rfl⟩ : ∃ count, width = count + 1 := ⟨width - 1, by omega⟩
      obtain rfl : text = List.replicate count mark ++ body := by
        simpa [List.replicate_succ] using whole
      obtain ⟨stop, success⟩ :=
        scanBody_complete (offset + (count + 1)) positive inside
      exact ⟨stop, by rw [scan_run count maximal, if_neg notTwo, success]⟩

/-- The scanner accepts exactly the texts that start with a quoted string, and
tells what the string stands for, where it ends and what follows it. -/
theorem scan_eq_ok_iff {scanned : Scanned} :
    scan mark offset text = .ok scanned ↔
      Spells mark (mark :: text) scanned.value scanned.rest ∧
        scanned.stop + scanned.rest.length = offset + 1 + text.length := by
  constructor
  · exact scan_sound
  · rintro ⟨spelled, place⟩
    obtain ⟨stop, success⟩ := scan_complete offset spelled
    have reached := (scan_sound success).2
    have same : stop = scanned.stop := by
      simp only at reached
      omega
    rw [success, same]

end Quoted

end CommandScript
