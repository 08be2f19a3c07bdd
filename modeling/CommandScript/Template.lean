import CommandScript.Spelling.Term

/-!
# Templates

A template is a script with gaps.  Its segments are taken as they are, and each
gap between two segments is filled with a value, written so that it reads back
as one term.
-/

namespace CommandScript

inductive Filling where
  | text (value : String)
  | integer (value : Int)
  | boolean (value : Bool)
  | absent
  deriving DecidableEq, Repr

namespace Filling

def value : Filling → String
  | text value => value
  | integer value => toString value
  | boolean true => "True"
  | boolean false => "False"
  | absent => "None"

end Filling

namespace Template

/-- Segments and written values in turn; a segment left over at the end stands
last. -/
def interleave : (segments values : List String) → List String
  | segment :: segments, value :: values =>
      segment :: value :: interleave segments values
  | segments, _ => segments

/-- The script that fills the gaps between `segments` with `values`. -/
def fill (escapeBreaks : Bool) (segments : List String)
    (values : List Filling) : Except Error String :=
  if segments.length ≠ values.length + 1 then
    .error (.segmentCount values.length segments.length)
  else
    let written :=
      values.map fun filling => Spelling.ofValue escapeBreaks filling.value
    .ok (String.join (interleave segments written))

end Template

end CommandScript
