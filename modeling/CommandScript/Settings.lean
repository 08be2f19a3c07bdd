import CommandScript.Command.Render
import CommandScript.Numeral
import CommandScript.Script

/-!
# Settings

Settings come from outside as values of several types.  An integer may be given
as a number, a truth value or a numeral; a truth value may be given as such, as
one or zero, or as one of a few words.  Whatever else is given is refused, with
the setting and the reason, and all refused settings are reported together.
-/

namespace CommandScript

inductive Setting where
  | integer (value : Int)
  | boolean (value : Bool)
  | text (value : String)
  | other
  deriving DecidableEq, Repr

namespace Setting

def toInteger : Setting → Except SettingCause Int
  | integer value => .ok value
  | boolean value => .ok (if value then 1 else 0)
  | text value =>
      match Numeral.read value with
      | .ok number => .ok number
      | .error .malformed => .error .unreadableInteger
      | .error .oversized => .error .oversizedInteger
  | other => .error .notAnInteger

def trueWords : List String := ["1", "true", "t", "yes", "y", "on"]

def falseWords : List String := ["0", "false", "f", "no", "n", "off"]

/-- Whether an integer fits 64 bits with a sign. -/
def fitsWord (value : Int) : Bool :=
  -9223372036854775808 ≤ value && value ≤ 9223372036854775807

/-- A given value as a truth value.  The case of ASCII letters does not matter
in a word.  An integer is looked at only if it fits a machine word. -/
def toBoolean : Setting → Except SettingCause Bool
  | boolean value => .ok value
  | integer value =>
      if value = 1 then .ok true
      else if value = 0 then .ok false
      else if fitsWord value then .error .unreadableBoolean
      else .error .notABoolean
  | text value =>
      let word := String.ofList (value.toList.map Char.toLower)
      if trueWords.contains word then .ok true
      else if falseWords.contains word then .ok false
      else .error .unreadableBoolean
  | other => .error .notABoolean

end Setting

/-- How deep blocks may nest in a text that is read. -/
structure DepthLimit where
  value : Int
  one_le : 1 ≤ value
  le_maxNesting : value ≤ Command.maxNesting

namespace DepthLimit

/-- The limit that applies when none is given. -/
def default : DepthLimit where
  value := Script.defaultDepth
  one_le := by decide
  le_maxNesting := by decide

/-- The limit given for the setting `max_depth`. -/
def ofSetting : Option Setting → Except Error DepthLimit
  | none => .ok default
  | some setting =>
      let refuse cause := Except.error (.settings [⟨"max_depth", cause⟩])
      match setting.toInteger with
      | .error cause => refuse cause
      | .ok value =>
          if small : value < 1 then refuse (.belowLeast 1)
          else if large : Command.maxNesting < value then
            refuse (.aboveMost Command.maxNesting)
          else .ok ⟨value, by omega, by omega⟩

end DepthLimit

/-- How a style is asked for: settings as they are given, and truth values that
take precedence over them. -/
structure StyleRequest where
  escapeBreaksSetting : Option Setting := none
  multilineSetting : Option Setting := none
  escapeBreaks : Option Bool := none
  multiline : Option Bool := none
  deriving DecidableEq, Repr

namespace StyleRequest

/-- The truth value given for a setting, or its default, or what is wrong. -/
def read (field : String) (fallback : Bool) :
    Option Setting → Except SettingFault Bool
  | none => .ok fallback
  | some setting => setting.toBoolean.mapError fun cause => ⟨field, cause⟩

/-- The fault of a reading that failed. -/
def fault? : Except SettingFault Bool → Option SettingFault
  | .ok _ => none
  | .error fault => some fault

/-- The style asked for, unless a setting is refused. -/
def resolve (request : StyleRequest) : Except Error Style :=
  let defaults : Style := {}
  let escapeBreaks :=
    read "encode_rn" defaults.escapeBreaks request.escapeBreaksSetting
  let multiline := read "fancy" defaults.multiline request.multilineSetting
  match escapeBreaks, multiline with
  | .ok escapeBreaks, .ok multiline =>
      .ok ⟨request.escapeBreaks.getD escapeBreaks,
        request.multiline.getD multiline⟩
  | escapeBreaks, multiline =>
      .error
        (.settings ((fault? escapeBreaks).toList ++ (fault? multiline).toList))

end StyleRequest

end CommandScript
