import EthBatch.Number.Numeral
import EthBatch.Fault

/-!
# The environment

Variables of the environment stand in for settings that are not given. Each variable is turned
into a value here; whether the value is admissible is decided with the setting itself.
-/

namespace EthBatch

/-- The variables that are set. -/
abbrev Environment := List (String × String)

namespace Environment

/-- The value of a variable. -/
def get? (env : Environment) (name : String) : Option String := env.lookup name

/-- A whole number, or a default. -/
def int (env : Environment) (name : String) (otherwise : Int) : Except Fault Value :=
  match env.get? name with
  | none => .ok (.int otherwise)
  | some s =>
    match Number.whole? s.toList with
    | some n => .ok (.int n)
    | none => .error .badValue

/-- A switch: on when the variable is set to anything but `false`, in any letter case. -/
def switch (env : Environment) (name : String) : Except Fault Value :=
  match env.get? name with
  | none => .ok (.bool false)
  | some s => .ok (.bool (String.ofList (s.toList.map Char.toLower) ≠ "false"))

/-- The text of a variable without blanks at its ends; a blank one counts as not set. -/
def trimmed? (env : Environment) (name : String) : Option (List Char) :=
  let cs := Text.trim ((env.get? name).getD "").toList
  if cs.isEmpty then none else some cs

/-- A text, or nothing. -/
def text (env : Environment) (name : String) : Except Fault Value :=
  match env.trimmed? name with
  | some cs => .ok (.text (String.ofList cs))
  | none => .ok .null

/-- A floating-point number, or nothing. -/
def float (env : Environment) (name : String) : Except Fault Value :=
  match env.trimmed? name with
  | none => .ok .null
  | some cs =>
    match Number.real? cs with
    | some x => .ok (.float x)
    | none => .error .badValue

end Environment

end EthBatch
