import CommandScript.Token.Quoted

/-!
# Unquoted terms

An unquoted term is a run of bare characters.  A quoted string that follows the
run directly belongs to the term, so that a name or an option key can hold any
character after its first.
-/

namespace CommandScript

namespace Term

/-- Scans the term whose first character is `first` at `offset`; `text` is what
follows that character. -/
def scan (first : Char) (offset : Nat) (text : List Char) :
    Except LexicalFault Scanned :=
  let run := first :: text.takeWhile isBare
  let stop := offset + run.length
  match text.dropWhile isBare with
  | [] => .ok ⟨run, stop, []⟩
  | char :: rest =>
      if isQuoteMark char then (Quoted.scan char stop rest).map (·.prepend run)
      else .ok ⟨run, stop, char :: rest⟩

/-- A term ends no earlier than right after its first character. -/
theorem scan_rest_length {first : Char} {offset : Nat} {text : List Char}
    {scanned : Scanned} (success : scan first offset text = .ok scanned) :
    scanned.rest.length ≤ text.length := by
  have runShorter : (text.dropWhile isBare).length ≤ text.length :=
    (List.dropWhile_suffix _).length_le
  simp only [scan] at success
  split at success
  · cases success
    simp
  · rename_i char rest following
    rw [following, List.length_cons] at runShorter
    split at success
    · obtain ⟨inner, innerSuccess, rfl⟩ := Outcome.map_eq_ok_iff.mp success
      have shorter := Quoted.scan_rest_length innerSuccess
      simp only [Scanned.prepend_rest]
      omega
    · cases success
      simpa using runShorter

end Term

end CommandScript
