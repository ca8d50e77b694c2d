import Mathlib.Data.UInt

/-!
# JSON values

Library `Base`. The values that JSON texts stand for and the look-ups on them. Parsers and
printers of texts are parameters where they are needed.
-/

namespace Vidarax.Base

/-- Numbers: whole ones of 64 bits, or the bits of a double. -/
inductive JsonNumber where
  | posInt (n : UInt64)
  | negInt (n : Int64)
  | float (bits : UInt64)
  deriving DecidableEq

/-- JSON values. The keys of an object are taken as they are found first. -/
inductive Json where
  | null
  | bool (b : Bool)
  | number (n : JsonNumber)
  | string (s : String)
  | array (values : List Json)
  | object (members : List (String × Json))

namespace Json

/-- Member of an object. -/
def get (key : String) : Json → Option Json
  | object members => members.lookup key
  | _ => none

/-- Text of a string. -/
def asStr : Json → Option String
  | string s => some s
  | _ => none

/-- Values of an array. -/
def asArray : Json → Option (List Json)
  | array values => some values
  | _ => none

end Json

end Vidarax.Base
