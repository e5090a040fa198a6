import Bindery.Cpp
import Mathlib.Logic.Function.Basic

/-!
# The script engine as a machine

The engine keeps a stack of values and a heap of objects with plain data
properties. A call fails where it takes a value that is not there, or stores
on a value that is no object. Each operation of the registration gets one
equation: what its calls make of a stack that holds the active object on top.
-/

set_option autoImplicit false

namespace Bindery.Engine

inductive Object where
  | global
  | made (index : Nat)
  deriving DecidableEq, Repr

inductive Value (α : Type) where
  | undefined
  | text (content : String)
  | object (o : Object)
  | function (symbol : String) (arity : Nat)
  | other (a : α)
  deriving DecidableEq, Repr

abbrev Heap (α : Type) := Object → String → Option (Value α)

namespace Heap
variable {α : Type}

def store (h : Heap α) (o : Object) (name : String) (v : Value α) : Heap α :=
  Function.update h o (Function.update (h o) name (some v))

def allocate (h : Heap α) (o : Object) : Heap α := Function.update h o fun _ => none

@[simp] theorem store_same (h : Heap α) (o : Object) (name : String) (v : Value α) :
    h.store o name v o name = some v := by
  simp [store]

theorem store_object_ne (h : Heap α) {o p : Object} (name : String) (v : Value α) (hp : p ≠ o) :
    h.store o name v p = h p :=
  Function.update_of_ne hp _ _

theorem store_name_ne (h : Heap α) (o p : Object) {name other : String} (v : Value α)
    (hn : other ≠ name) : h.store o name v p other = h p other := by
  by_cases hp : p = o
  · subst hp
    simp [store, hn]
  · rw [store_object_ne h name v hp]

@[simp] theorem allocate_same (h : Heap α) (o : Object) (name : String) :
    h.allocate o o name = none := by
  simp [allocate]

theorem allocate_ne (h : Heap α) {o p : Object} (hp : p ≠ o) : h.allocate o p = h p :=
  Function.update_of_ne hp _ _

end Heap

structure Machine (α : Type) where
  stack : List (Value α)
  heap : Heap α
  next : Nat

namespace Machine
variable {α : Type}

def valueAt (m : Machine α) : Nat → Option (Value α)
  | 0 => none
  | depth + 1 => m.stack[depth]?

def objectAt (m : Machine α) (depth : Nat) : Option Object :=
  match m.valueAt depth with
  | some (.object o) => some o
  | _ => none

def push (m : Machine α) (v : Value α) : Machine α := { m with stack := v :: m.stack }

def step (m : Machine α) : Call → Option (Machine α)
  | .pushGlobalObject => some (m.push (.object .global))
  | .pushString text => some (m.push (.text text))
  | .pushObject =>
    some ⟨.object (.made m.next) :: m.stack, m.heap.allocate (.made m.next), m.next + 1⟩
  | .pushFunction symbol arity => some (m.push (.function symbol arity))
  | .getGlobalString name => some (m.push ((m.heap .global name).getD .undefined))
  | .putProp depth =>
    match m.stack, m.objectAt depth with
    | v :: .text name :: rest, some o => some ⟨rest, m.heap.store o name v, m.next⟩
    | _, _ => none
  | .putPropString depth name =>
    match m.stack, m.objectAt depth with
    | v :: rest, some o => some ⟨rest, m.heap.store o name v, m.next⟩
    | _, _ => none
  | .pop =>
    match m.stack with
    | _ :: rest => some { m with stack := rest }
    | [] => none

def run (m : Machine α) : List Call → Option (Machine α)
  | [] => some m
  | k :: ks => (m.step k).bind fun next => next.run ks

theorem run_append (m : Machine α) (ks ls : List Call) :
    m.run (ks ++ ls) = (m.run ks).bind fun next => next.run ls := by
  induction ks generalizing m with
  | nil => rfl
  | cons k ks ih =>
    rw [List.cons_append, run, run, Option.bind_assoc]
    exact congrArg _ (funext ih)

/-- Opening a namespace stores a new object on the global one, whatever was
there under its name, and leaves it on top. -/
theorem run_openingSpace (name : String) (v : Value α) (below : List (Value α)) (h : Heap α)
    (next : Nat) :
    run ⟨v :: below, h, next⟩ ((Registration.openingSpace name).flatMap Statement.calls) =
      some ⟨.object (.made next) :: below,
        (h.allocate (.made next)).store .global name (.object (.made next)), next + 1⟩ := by
  simp [Registration.openingSpace, Statement.calls, run, step, push, objectAt, valueAt]

/-- A binding stores the wrapper on the object on top, which stays there. -/
theorem run_binding (symbol name : String) (arity : Nat) (o : Object) (below : List (Value α))
    (h : Heap α) (next : Nat) :
    run ⟨.object o :: below, h, next⟩
        ((Registration.binding symbol name arity).flatMap Statement.calls) =
      some ⟨.object o :: below, h.store o name (.function symbol arity), next⟩ := by
  simp [Registration.binding, Statement.calls, run, step, push, objectAt, valueAt]

end Machine
end Bindery.Engine
