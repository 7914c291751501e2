import Mathlib.Tactic.TypeStar

/-! JSON values as `serde_json::Value` and `JSON.parse` read them. Objects are lists of
fields; only the lookup of a field is observed. -/
namespace Sapphillon

/-- The three representations of `serde_json::Number`; a float is kept as its bits. -/
inductive JsonNumber where
  | posInt (n : UInt64)
  | negInt (n : Int64)
  | float (bits : UInt64)
deriving DecidableEq, Repr

inductive Json where
  | null
  | bool (b : Bool)
  | number (n : JsonNumber)
  | string (s : String)
  | array (items : List Json)
  | object (fields : List (String × Json))

namespace Json

/-- The field of an object; every other value has none. -/
def field? (j : Json) (key : String) : Option Json :=
  match j with
  | .object fields => fields.lookup key
  | _ => none

def asStr? : Json → Option String
  | .string s => some s
  | _ => none

/-- An object whose fields are all texts. -/
def stringObject (fields : List (String × String)) : Json :=
  .object (fields.map fun (key, s) => (key, .string s))

end Json
end Sapphillon
