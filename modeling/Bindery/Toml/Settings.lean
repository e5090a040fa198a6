import Bindery.Config
import Bindery.Toml.Document

/-!
# Settings from a file

A settings file may give any of the fields of a configuration; the others
keep their defaults. Other keys are passed over, but a field with a value of
another kind makes the whole file useless.
-/

set_option autoImplicit false

namespace Bindery
open Bindery.Toml

namespace Toml.Item

def text? : Item → Option String
  | .text s => some s
  | _ => none

def flag? : Item → Option Bool
  | .flag b => some b
  | _ => none

def isEmpty : Item → Bool
  | .array [] => true
  | .inline [] => true
  | .table _ [] => true
  | .tables [] => true
  | _ => false

def bareCase? : Item → Option String
  | .text s => some s
  | .inline [(s, i)] => if i.isEmpty then some s else none
  | .table _ [(s, i)] => if i.isEmpty then some s else none
  | _ => none

end Toml.Item

namespace Config

def entryOr {α : Type} (read : Item → Option α) (default : α) : Option Item → Option α
  | none => some default
  | some i => read i

def ofTable? (t : Table) : Option Config := do
  let d : Config := {}
  let functionMarker ← entryOr Item.text? d.functionMarker (t.get? "function_marker")
  let namespaceMarker ← entryOr Item.text? d.namespaceMarker (t.get? "namespace_marker")
  let boundPrefix ← entryOr Item.text? d.boundPrefix (t.get? "bound_prefix")
  let wrapperPrefix ← entryOr Item.text? d.wrapperPrefix (t.get? "wrapper_prefix")
  let initFunction ← entryOr Item.text? d.initFunction (t.get? "init_function")
  let banner ← entryOr Item.flag? d.banner (t.get? "banner")
  let onError ← entryOr (fun i => i.bareCase?.bind Policy.ofName?) d.onError (t.get? "on_error")
  some ⟨functionMarker, namespaceMarker, boundPrefix, wrapperPrefix, initFunction, banner, onError⟩

def ofToml? (text : String) : Option Config := (document? text).bind ofTable?

end Config
end Bindery
