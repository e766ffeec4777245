import RowFilter.Decimal.Layout

/-!
JSON values, with floating-point numbers as numbers of their own kind.
-/

namespace RowFilter

/-- A JSON value. The fields of an object keep their order. -/
inductive Json where
  | null
  | bool (value : Bool)
  | integer (value : Int)
  | float (value : Binary64)
  | string (value : String)
  | array (items : List Json)
  | object (fields : List (String × Json))

namespace Json

/-- Floating-point numbers in JSON are positional from 0.00001 to below 10^16, an exponent that is
not negative has a plus, and of two equally near digits the even one is taken. -/
def floatLayout : FloatLayout := ⟨-5, 16, "+", .even⟩

/-- A floating-point number in JSON, where what is not finite becomes null. -/
def showFloat (x : Binary64) : String :=
  if x.isFinite then floatLayout.finite x else "null"

/-- A character inside a JSON string. -/
def escape (c : Char) : List Char :=
  if c = '"' then ['\\', '"']
  else if c = '\\' then ['\\', '\\']
  else if c = '\n' then ['\\', 'n']
  else if c = '\t' then ['\\', 't']
  else if c = '\r' then ['\\', 'r']
  else if c = '\x08' then ['\\', 'b']
  else if c = '\x0c' then ['\\', 'f']
  else if c.toNat < 0x20 then
    ['\\', 'u', '0', '0', Nat.digitChar (c.toNat / 16), Nat.digitChar (c.toNat % 16)]
  else [c]

def quote (text : String) : String :=
  String.ofList ('"' :: text.toList.flatMap escape ++ ['"'])

/-- A JSON value without items or fields, or else the empty text. -/
def showScalar : Json → String
  | null => "null"
  | bool value => if value then "true" else "false"
  | integer value => toString value
  | float value => showFloat value
  | string value => quote value
  | array _ | object _ => ""

end Json

end RowFilter
