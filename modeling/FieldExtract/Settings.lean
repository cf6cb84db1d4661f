import FieldExtract.Text.Blank
import FieldExtract.Text.Numeral

/-!
# Client settings

The axes level used where a call names none, the source reported with every call, and whether grid
hashes are withheld. Two environment variables may change the defaults; each must hold a value
that can be read, and the outcome must be valid.
-/

namespace FieldExtract

inductive SettingsError
  | axesLevelOutOfRange (level : Nat)
  | emptyContextSource
  | invalidVariable (name value : String)
deriving DecidableEq

def SettingsError.message : SettingsError → String
  | .axesLevelOutOfRange level => "axes level " ++ toString level ++ " outside 1..=3"
  | .emptyContextSource => "context source must not be empty"
  | .invalidVariable name value =>
    "environment variable " ++ name ++ "='" ++ value ++ "' is not valid"

structure Settings where
  axesLevel : Nat
  source : String
  ignoreGridHash : Bool
deriving DecidableEq

namespace Settings

def default : Settings := ⟨3, "gribjump-rs", false⟩

def checkLevel (level : Nat) : Except SettingsError Unit :=
  if 1 ≤ level ∧ level ≤ 3 then .ok () else .error (.axesLevelOutOfRange level)

def validate (s : Settings) : Except SettingsError Unit := do
  checkLevel s.axesLevel
  if (Text.trim s.source).isEmpty then .error .emptyContextSource else .ok ()

def flagVariable : String := "GRIBJUMP_IGNORE_GRID"

def levelVariable : String := "GRIBJUMP_AXES_LEVEL"

/-- Blanks around the word and the case of its ASCII letters do not matter. -/
def readFlag (value : String) : Option Bool :=
  let word := (Text.trim value).map Char.toLower
  if word ∈ ["1", "true", "yes", "on"] then some true
  else if word ∈ ["0", "false", "no", "off", ""] then some false
  else none

def maxLevelNumeral : Nat := UInt32.size - 1

def readLevel (value : String) : Option Nat :=
  (Text.Numeral.read maxLevelNumeral (Text.trim value)).toOption

/-- `start`, or what the variable says if it is set. -/
def overlay {α : Type} (name : String) (read : String → Option α) (start : α) :
    Option String → Except SettingsError α
  | none => .ok start
  | some value =>
    match read value with
    | some a => .ok a
    | none => .error (.invalidVariable name value)

def ofLookup (lookup : String → Option String) : Except SettingsError Settings := do
  let flag ← overlay flagVariable readFlag default.ignoreGridHash (lookup flagVariable)
  let level ← overlay levelVariable readLevel default.axesLevel (lookup levelVariable)
  let settings : Settings := { default with axesLevel := level, ignoreGridHash := flag }
  settings.validate
  return settings

end Settings

end FieldExtract
