/-!
# JSON values

Natural numbers are kept as numbers. Any other number is kept as it is
written, since nothing here computes with it. The fields of an object keep
their order.
-/

set_option autoImplicit false

namespace Bindery

inductive Json where
  | null
  | bool (value : Bool)
  | nat (value : Nat)
  | number (written : String)
  | text (value : String)
  | array (items : List Json)
  | object (fields : List (String × Json))
  deriving Repr, Inhabited

namespace Json

def text? : Json → Option String
  | .text s => some s
  | _ => none

def bool? : Json → Option Bool
  | .bool b => some b
  | _ => none

def word? : Json → Option Nat
  | .nat n => if n < Nat.pow 2 64 then some n else none
  | _ => none

def array? : Json → Option (List Json)
  | .array items => some items
  | _ => none

def record? (names : List String) : Json → Option (List (String × Json))
  | .object fields => some fields
  | .array items => if items.length ≤ names.length then some (names.zip items) else none
  | _ => none

def field? (fields : List (String × Json)) (name : String) : Option Json := fields.lookup name

def bareCase? : Json → Option String
  | .text s => some s
  | .object [(s, .null)] => some s
  | _ => none

end Json
end Bindery
