import Bindery.Setup
import Bindery.Diagnostic
import Bindery.Json.Value

/-!
# JSON forms

How the values of a run are written as JSON, and what is read back as such a
value. A record is read from an object that has all its fields, whatever
else it has, or from an array of its fields in order. A case that carries
nothing is its name.
-/

set_option autoImplicit false

namespace Bindery
open Json

def readAll {α : Type} (read : Json → Option α) : List Json → Option (List α)
  | [] => some []
  | v :: vs => do
    let x ← read v
    let xs ← readAll read vs
    some (x :: xs)

def readList {α : Type} (read : Json → Option α) (v : Json) : Option (List α) :=
  v.array?.bind (readAll read)

theorem readAll_map {α : Type} {read : Json → Option α} {form : α → Json} {xs : List α}
    (h : ∀ x ∈ xs, read (form x) = some x) : readAll read (xs.map form) = some xs := by
  induction xs with
  | nil => rfl
  | cons x xs ih =>
    have hrest := ih fun y hy => h y (List.mem_cons_of_mem _ hy)
    simp [readAll, h x List.mem_cons_self, hrest]

namespace TypeExpr

def form (t : TypeExpr) : Json :=
  .object [("is_const", .bool t.isConst), ("base", .array (t.base.map .text)),
    ("indirection", .text t.indirection)]

def ofForm? (v : Json) : Option TypeExpr := do
  let fields ← v.record? ["is_const", "base", "indirection"]
  let isConst ← (← field? fields "is_const").bool?
  let base ← readList text? (← field? fields "base")
  let indirection ← (← field? fields "indirection").text?
  some ⟨isConst, base, indirection⟩

end TypeExpr

namespace ParamType

def tag : ParamType → String
  | .int => "Int"
  | .text => "Text"
  | .bool => "Bool"

def ofForm? (v : Json) : Option ParamType := do
  let name ← v.bareCase?
  all.find? fun p => p.tag == name

theorem ofForm?_tag (p : ParamType) : ofForm? (.text p.tag) = some p := by cases p <;> rfl

end ParamType

namespace ReturnType

def tag : ReturnType → String
  | .int => "Int"
  | .text => "Text"
  | .void => "Void"

def ofForm? (v : Json) : Option ReturnType := do
  let name ← v.bareCase?
  all.find? fun r => r.tag == name

theorem ofForm?_tag (r : ReturnType) : ofForm? (.text r.tag) = some r := by cases r <;> rfl

end ReturnType

namespace Param

def form (p : Param) : Json := .object [("ty", .text p.type.tag), ("name", .text p.name)]

def ofForm? (v : Json) : Option Param := do
  let fields ← v.record? ["ty", "name"]
  let type ← ParamType.ofForm? (← field? fields "ty")
  let name ← (← field? fields "name").text?
  some ⟨type, name⟩

end Param

namespace Declaration

def form (d : Declaration) : Json :=
  .object [("return_type", .text d.returnType.tag), ("name", .text d.name),
    ("params", .array (d.params.map Param.form))]

def ofForm? (v : Json) : Option Declaration := do
  let fields ← v.record? ["return_type", "name", "params"]
  let returnType ← ReturnType.ofForm? (← field? fields "return_type")
  let name ← (← field? fields "name").text?
  let params ← readList Param.ofForm? (← field? fields "params")
  some ⟨returnType, name, params⟩

end Declaration

namespace Extraction

def form (e : Extraction) : Json := .object [("slot", .nat e.slot), ("ty", .text e.type.tag)]

def ofForm? (v : Json) : Option Extraction := do
  let fields ← v.record? ["slot", "ty"]
  let slot ← (← field? fields "slot").word?
  let type ← ParamType.ofForm? (← field? fields "ty")
  some ⟨slot, type⟩

end Extraction

namespace Wrapper

def form (w : Wrapper) : Json :=
  .object [("symbol", .text w.symbol), ("callee", .text w.callee),
    ("bound_name", .text w.boundName), ("extractions", .array (w.extractions.map Extraction.form)),
    ("returns", .text w.returns.tag)]

def ofForm? (v : Json) : Option Wrapper := do
  let fields ← v.record? ["symbol", "callee", "bound_name", "extractions", "returns"]
  let symbol ← (← field? fields "symbol").text?
  let callee ← (← field? fields "callee").text?
  let boundName ← (← field? fields "bound_name").text?
  let extractions ← readList Extraction.ofForm? (← field? fields "extractions")
  let returns ← ReturnType.ofForm? (← field? fields "returns")
  some ⟨symbol, callee, boundName, extractions, returns⟩

end Wrapper

def Target.form : Target → Json
  | .global => .text "Global"
  | .space name => .object [("Namespace", .text name)]

namespace Statement

def form : Statement → Json
  | .activateGlobal => .object [("op", .text "activate_global")]
  | .deactivate => .object [("op", .text "deactivate_target")]
  | .defineSpace name => .object [("op", .text "define_namespace"), ("name", .text name)]
  | .activateSpace name => .object [("op", .text "activate_namespace"), ("name", .text name)]
  | .register wrapper arity =>
    .object [("op", .text "register_callable"), ("wrapper", .text wrapper), ("arity", .nat arity)]
  | .bind name => .object [("op", .text "bind_property"), ("name", .text name)]

def op? : Json → Option String
  | .object fields => (field? fields "op").bind text?
  | .array (v :: _) => v.text?
  | _ => none

def name? (v : Json) : Option String := do
  let fields ← v.record? ["op", "name"]
  (← field? fields "name").text?

def ofForm? (v : Json) : Option Statement := do
  match ← op? v with
  | "activate_global" => (v.record? ["op"]).map fun _ => .activateGlobal
  | "deactivate_target" => (v.record? ["op"]).map fun _ => .deactivate
  | "define_namespace" => (name? v).map .defineSpace
  | "activate_namespace" => (name? v).map .activateSpace
  | "register_callable" =>
    let fields ← v.record? ["op", "wrapper", "arity"]
    let wrapper ← (← field? fields "wrapper").text?
    let arity ← (← field? fields "arity").word?
    some (.register wrapper arity)
  | "bind_property" => (name? v).map .bind
  | _ => none

end Statement

namespace Routine

def form (r : Routine) : Json :=
  .object [("name", .text r.name), ("statements", .array (r.statements.map Statement.form))]

def ofForm? (v : Json) : Option Routine := do
  let fields ← v.record? ["name", "statements"]
  let name ← (← field? fields "name").text?
  let statements ← readList Statement.ofForm? (← field? fields "statements")
  some ⟨name, statements⟩

end Routine

namespace Bundle

def form (b : Bundle) : Json :=
  .object [("wrappers", .array (b.wrappers.map Wrapper.form)), ("bootstrap", b.routine.form)]

def ofForm? (v : Json) : Option Bundle := do
  let fields ← v.record? ["wrappers", "bootstrap"]
  let wrappers ← readList Wrapper.ofForm? (← field? fields "wrappers")
  let routine ← Routine.ofForm? (← field? fields "bootstrap")
  some ⟨wrappers, routine⟩

end Bundle

namespace Location

def form (l : Location) : Json := .object [("origin", .text l.origin), ("line", .nat l.line)]

def ofForm? (v : Json) : Option Location := do
  let fields ← v.record? ["origin", "line"]
  let origin ← (← field? fields "origin").text?
  let line ← (← field? fields "line").word?
  some ⟨origin, line⟩

end Location

def Policy.ofForm? (v : Json) : Option Policy := v.bareCase?.bind ofName?

namespace Config

def fieldNames : List String :=
  ["function_marker", "namespace_marker", "bound_prefix", "wrapper_prefix", "init_function",
    "banner", "on_error"]

def form (c : Config) : Json :=
  .object [("function_marker", .text c.functionMarker),
    ("namespace_marker", .text c.namespaceMarker), ("bound_prefix", .text c.boundPrefix),
    ("wrapper_prefix", .text c.wrapperPrefix), ("init_function", .text c.initFunction),
    ("banner", .bool c.banner), ("on_error", .text c.onError.name)]

def readOr {α : Type} (read : Json → Option α) (default : α) : Option Json → Option α
  | none => some default
  | some v => read v

def ofForm? (v : Json) : Option Config := do
  let fields ← v.record? fieldNames
  let d : Config := {}
  let functionMarker ← readOr text? d.functionMarker (field? fields "function_marker")
  let namespaceMarker ← readOr text? d.namespaceMarker (field? fields "namespace_marker")
  let boundPrefix ← readOr text? d.boundPrefix (field? fields "bound_prefix")
  let wrapperPrefix ← readOr text? d.wrapperPrefix (field? fields "wrapper_prefix")
  let initFunction ← readOr text? d.initFunction (field? fields "init_function")
  let banner ← readOr bool? d.banner (field? fields "banner")
  let onError ← readOr Policy.ofForm? d.onError (field? fields "on_error")
  some ⟨functionMarker, namespaceMarker, boundPrefix, wrapperPrefix, initFunction, banner, onError⟩

end Config
end Bindery
