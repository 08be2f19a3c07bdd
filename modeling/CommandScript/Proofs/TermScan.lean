import CommandScript.Proofs.LexerSteps
import CommandScript.Proofs.QuotedGrammar

/-!
# Where a term ends

A term is a run of bare characters, to which a quoted string is added that
follows directly.  The run ends where the text stops to continue it, and there
is only one place where it can.
-/

namespace CommandScript

namespace Term

variable {first : Char} {offset : Nat}

theorem exists_bareRun (text : List Char) :
    ∃ run rest, text = run ++ rest ∧ (∀ char ∈ run, isBare char = true) ∧
      ∀ char ∈ rest.head?, isBare char = false := by
  refine ⟨text.takeWhile isBare, text.dropWhile isBare,
    List.takeWhile_append_dropWhile.symm, ?_, ?_⟩
  · intro char member
    exact List.mem_takeWhile_imp member
  · intro char member
    have stopped := List.head?_dropWhile_not isBare text
    rw [Option.mem_def.mp member] at stopped
    exact stopped

/-- Either a quoted string follows the run directly or nothing continues the
term. -/
theorem exists_bareRun_boundary_or_mark (text : List Char) :
    ∃ run rest, text = run ++ rest ∧ (∀ char ∈ run, isBare char = true) ∧
      (Boundary rest ∨ ∃ mark tail, rest = mark :: tail ∧
        isQuoteMark mark = true) := by
  obtain ⟨run, rest, whole, bare, maximal⟩ := exists_bareRun text
  refine ⟨run, rest, whole, bare, ?_⟩
  cases rest with
  | nil => exact .inl boundary_nil
  | cons char tail =>
      cases quote : isQuoteMark char with
      | true => exact .inr ⟨char, tail, rfl, quote⟩
      | false =>
          left
          rw [boundary_cons]
          simp [startsTerm, quote, maximal char rfl]

theorem takeWhile_bareRun {run rest : List Char}
    (bare : ∀ char ∈ run, isBare char = true)
    (maximal : ∀ char ∈ rest.head?, isBare char = false) :
    (run ++ rest).takeWhile isBare = run ∧
      (run ++ rest).dropWhile isBare = rest := by
  rw [List.takeWhile_append_of_pos bare, List.dropWhile_append_of_pos bare]
  cases rest with
  | nil => simp
  | cons char rest => simp [maximal char rfl]

theorem bareRun_unique {leftRun rightRun left right : List Char}
    (leftBare : ∀ char ∈ leftRun, isBare char = true)
    (leftMaximal : ∀ char ∈ left.head?, isBare char = false)
    (rightBare : ∀ char ∈ rightRun, isBare char = true)
    (rightMaximal : ∀ char ∈ right.head?, isBare char = false)
    (same : leftRun ++ left = rightRun ++ right) :
    leftRun = rightRun ∧ left = right := by
  obtain ⟨leftTaken, leftDropped⟩ := takeWhile_bareRun leftBare leftMaximal
  obtain ⟨rightTaken, rightDropped⟩ := takeWhile_bareRun rightBare rightMaximal
  rw [same] at leftTaken leftDropped
  exact ⟨leftTaken.symm.trans rightTaken, leftDropped.symm.trans rightDropped⟩

theorem scan_bare {run rest : List Char}
    (bare : ∀ char ∈ run, isBare char = true) (boundary : Boundary rest) :
    scan first offset (run ++ rest) =
      .ok ⟨first :: run, offset + (run.length + 1), rest⟩ := by
  have maximal : ∀ char ∈ rest.head?, isBare char = false := by
    intro char member
    have stopped := boundary char member
    simp only [startsTerm, Bool.or_eq_false_iff] at stopped
    exact stopped.2
  obtain ⟨taken, dropped⟩ := takeWhile_bareRun bare maximal
  simp only [scan, taken, dropped]
  cases rest with
  | nil => simp
  | cons char rest =>
      have stopped := boundary_cons.mp boundary
      simp only [startsTerm, Bool.or_eq_false_iff] at stopped
      simp [stopped.1]

/-- A quoted string that follows the run directly belongs to the term. -/
theorem scan_fused {mark : Char} {run tail : List Char}
    (bare : ∀ char ∈ run, isBare char = true)
    (quote : isQuoteMark mark = true) :
    scan first offset (run ++ mark :: tail) =
      (Quoted.scan mark (offset + (run.length + 1)) tail).map
        (·.prepend (first :: run)) := by
  have maximal : ∀ char ∈ (mark :: tail).head?, isBare char = false := by
    intro char member
    cases member
    exact isBare_eq_false_of_isQuoteMark quote
  obtain ⟨taken, dropped⟩ := takeWhile_bareRun bare maximal
  simp only [scan, taken, dropped]
  simp [quote]

end Term

end CommandScript
