import Playscript.Table
import Playscript.Text.Quoted

/-!
# JSON values

The values of configurations and of event payloads. Objects keep the order of their fields. A
number with a fraction or an exponent is kept as the shortest decimal that stands for the same
number in double precision.
-/

namespace Playscript

inductive Json
  | null
  | bool (b : Bool)
  | int (n : Int)
  | decimal (literal : Text)
  | str (t : Text)
  | arr (items : List Json)
  | obj (fields : List (Text × Json))
  deriving Inhabited

namespace Json

def zeroLiterals : List Text := ["0.0".toList, "-0.0".toList]

/-- Infinities and what is no number have names of their own in messages. -/
def decimalName (literal : Text) : Text :=
  if literal = "NaN".toList then "nan".toList
  else if literal = "Infinity".toList then "inf".toList
  else if literal = "-Infinity".toList then "-inf".toList
  else literal

/-- Nothing, zero and what is empty count as no; all else counts as yes. -/
def isTruthy : Json → Bool
  | null => false
  | bool b => b
  | int n => n ≠ 0
  | decimal literal => !zeroLiterals.contains literal
  | str t => !t.isEmpty
  | arr items => !items.isEmpty
  | obj fields => !fields.isEmpty

def ofOption (t : Option Text) : Json :=
  match t with
  | none => null
  | some t => str t

mutual

/-- The value as messages show it, on one line. -/
def inspect : Json → Text
  | null => "None".toList
  | bool b => (if b then "True" else "False").toList
  | int n => Text.ofInt n
  | decimal literal => decimalName literal
  | str t => Text.quoted t
  | arr items => '[' :: inspectItems items ++ [']']
  | obj fields => '\x7b' :: inspectFields fields ++ ['\x7d']

def inspectItems : List Json → Text
  | [] => []
  | [v] => inspect v
  | v :: w :: r => inspect v ++ ", ".toList ++ inspectItems (w :: r)

def inspectFields : List (Text × Json) → Text
  | [] => []
  | [(k, v)] => Text.quoted k ++ ": ".toList ++ inspect v
  | (k, v) :: f :: r =>
    Text.quoted k ++ ": ".toList ++ inspect v ++ ", ".toList ++ inspectFields (f :: r)

end

/-- The value as a text of its own. -/
def plain : Json → Text
  | str t => t
  | v => inspect v

end Json

end Playscript
