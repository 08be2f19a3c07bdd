import CommandScript.Error
import CommandScript.Outcome
import CommandScript.Text.Charset

/-!
# Quoted strings

A quoted string opens with a run of one mark and closes with a run of the same
length.  Two marks alone are the empty string.  Between the delimiters a
shorter run of the mark stands for itself and a backslash introduces one of
seven escapes.

The scanner counts the marks it has just passed in `run`.  They close the
string as soon as they are as many as opened it; before that they are pending,
and the next other character turns them into text.
-/

namespace CommandScript

/-- What a scanner found at the front of a text: the decoded characters, the
offset right after them and the text from there on. -/
structure Scanned where
  value : List Char
  stop : Nat
  rest : List Char
  deriving DecidableEq, Repr

namespace Scanned

def prepend (chars : List Char) (scanned : Scanned) : Scanned :=
  { scanned with value := chars ++ scanned.value }

@[simp]
theorem prepend_stop (chars : List Char) (scanned : Scanned) :
    (scanned.prepend chars).stop = scanned.stop := rfl

@[simp]
theorem prepend_rest (chars : List Char) (scanned : Scanned) :
    (scanned.prepend chars).rest = scanned.rest := rfl

end Scanned

namespace Quoted

def unescape? : Char → Option Char
  | 't' => some '\t'
  | 'n' => some '\n'
  | 'r' => some '\r'
  | '\x60' => some '\x60'
  | '\'' => some '\''
  | '"' => some '"'
  | '\\' => some '\\'
  | _ => none

/-- Scans from right after the opening delimiter, which was `width` marks wide.
`run` marks right before `text` are pending. -/
def scanBody (mark : Char) (width : Nat) :
    (run offset : Nat) → (text : List Char) → Except LexicalFault Scanned
  | _, offset, [] => .error ⟨.endOfText, offset⟩
  | run, offset, char :: rest =>
      if char = mark then
        if run + 1 = width then .ok ⟨[], offset + 1, rest⟩
        else scanBody mark width (run + 1) (offset + 1) rest
      else if char = '\\' then
        match rest with
        | [] => .error ⟨.unknownEscape, offset + 1⟩
        | letter :: rest =>
            match unescape? letter with
            | none => .error ⟨.unknownEscape, offset + 1⟩
            | some decoded =>
                (scanBody mark width 0 (offset + 2) rest).map
                  (·.prepend (List.replicate run mark ++ [decoded]))
      else
        (scanBody mark width 0 (offset + 1) rest).map
          (·.prepend (List.replicate run mark ++ [char]))

/-- Scans the quoted string whose first mark is `mark` at `offset`; `text` is
what follows that mark. -/
def scan (mark : Char) (offset : Nat) (text : List Char) :
    Except LexicalFault Scanned :=
  let width := (text.takeWhile (· == mark)).length + 1
  let body := text.dropWhile (· == mark)
  if width = 2 then .ok ⟨[], offset + 2, body⟩
  else scanBody mark width 0 (offset + width) body

theorem scanBody_rest_length {mark : Char} {width run offset : Nat}
    {text : List Char} {scanned : Scanned}
    (success : scanBody mark width run offset text = .ok scanned) :
    scanned.rest.length < text.length := by
  fun_induction scanBody mark width run offset text generalizing scanned with
  | case1 => cases success
  | case2 =>
      cases success
      simp
  | case3 run offset rest opened induction =>
      have shorter := induction success
      simp only [List.length_cons]
      omega
  | case4 => cases success
  | case5 => cases success
  | case6 run offset notMark letter rest decoded found induction =>
      obtain ⟨inner, innerSuccess, rfl⟩ := Outcome.map_eq_ok_iff.mp success
      have shorter := induction innerSuccess
      simp only [Scanned.prepend_rest, List.length_cons]
      omega
  | case7 run offset char rest notMark notBackslash induction =>
      obtain ⟨inner, innerSuccess, rfl⟩ := Outcome.map_eq_ok_iff.mp success
      have shorter := induction innerSuccess
      simp only [Scanned.prepend_rest, List.length_cons]
      omega

/-- A quoted string ends no earlier than right after its first mark. -/
theorem scan_rest_length {mark : Char} {offset : Nat} {text : List Char}
    {scanned : Scanned} (success : scan mark offset text = .ok scanned) :
    scanned.rest.length ≤ text.length := by
  have bodyShorter : (text.dropWhile (· == mark)).length ≤ text.length :=
    (List.dropWhile_suffix _).length_le
  simp only [scan] at success
  split at success
  · cases success
    exact bodyShorter
  · have shorter := scanBody_rest_length success
    omega

end Quoted

end CommandScript
