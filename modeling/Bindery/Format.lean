import Bindery.Cpp
import Bindery.Json.Form
import Bindery.Json.Reader
import Bindery.Json.Writer

/-!
# Output formats

A bundle is written as C++ or as JSON. The JSON text can be read back.
-/

set_option autoImplicit false

namespace Bindery

namespace Bundle

def json (b : Bundle) : String := b.form.pretty ++ "\n"

def ofJson? (text : String) : Option Bundle := (Json.ofText? text).bind ofForm?

end Bundle

inductive Format where
  | cpp
  | json
  deriving DecidableEq, Repr

namespace Format

def name : Format → String
  | .cpp => "cpp"
  | .json => "json"

def ofName? (text : String) : Option Format :=
  [Format.cpp, .json].find? fun f => f.name == text

def ofWord? : String → Option Format
  | "cpp" => some .cpp
  | "c++" => some .cpp
  | "c" => some .cpp
  | "json" => some .json
  | _ => none

def unknownMessage (word : String) : String := "unknown output format: " ++ word

def render (f : Format) (c : Config) (b : Bundle) : String :=
  match f with
  | .cpp => b.cpp c
  | .json => b.json

end Format
end Bindery
