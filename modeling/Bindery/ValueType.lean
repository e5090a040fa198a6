import Bindery.TypeExpr

/-!
# Types that cross into script

Each type is known by one canonical spelling. A parameter type names the
call that reads an argument from the engine's stack; a return type names the
call that pushes the result, if there is one.
-/

set_option autoImplicit false

namespace Bindery

inductive ParamType where
  | int
  | text
  | bool
  deriving DecidableEq, Repr

namespace ParamType

def all : List ParamType := [.int, .text, .bool]

def spelling : ParamType → String
  | .int => "int"
  | .text => "const char*"
  | .bool => "bool"

def accessor : ParamType → String
  | .int => "duk_require_int"
  | .text => "duk_require_string"
  | .bool => "duk_require_boolean"

def ofTypeExpr? (t : TypeExpr) : Option ParamType :=
  all.find? fun p => p.spelling == t.canonical

theorem mem_all (p : ParamType) : p ∈ all := by cases p <;> simp [all]

theorem spelling_injective {p q : ParamType} (h : p.spelling = q.spelling) : p = q := by
  cases p <;> cases q <;> simp_all [spelling]

theorem ofTypeExpr?_eq_some_iff {t : TypeExpr} {p : ParamType} :
    ofTypeExpr? t = some p ↔ t.canonical = p.spelling := by
  constructor
  · intro h
    unfold ofTypeExpr? at h
    have found := List.find?_some h
    exact (beq_iff_eq.1 found).symm
  · intro h
    cases p <;> simp [ofTypeExpr?, all, h, spelling]

end ParamType

inductive ReturnType where
  | int
  | text
  | void
  deriving DecidableEq, Repr

namespace ReturnType

def all : List ReturnType := [.int, .text, .void]

def spelling : ReturnType → String
  | .int => "int"
  | .text => "std::string"
  | .void => "void"

def pusher : ReturnType → Option String
  | .int => some "duk_push_int"
  | .text => some "duk_push_string"
  | .void => none

def resultSuffix : ReturnType → String
  | .text => ".c_str()"
  | _ => ""

def resultCount : ReturnType → Nat
  | .void => 0
  | _ => 1

def ofTypeExpr? (t : TypeExpr) : Option ReturnType :=
  all.find? fun r => r.spelling == t.canonical

theorem mem_all (r : ReturnType) : r ∈ all := by cases r <;> simp [all]

theorem spelling_injective {r s : ReturnType} (h : r.spelling = s.spelling) : r = s := by
  cases r <;> cases s <;> simp_all [spelling]

theorem ofTypeExpr?_eq_some_iff {t : TypeExpr} {r : ReturnType} :
    ofTypeExpr? t = some r ↔ t.canonical = r.spelling := by
  constructor
  · intro h
    unfold ofTypeExpr? at h
    have found := List.find?_some h
    exact (beq_iff_eq.1 found).symm
  · intro h
    cases r <;> simp [ofTypeExpr?, all, h, spelling]

end ReturnType
end Bindery
