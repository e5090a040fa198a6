import Bindery.Proofs.CallTexts
import Bindery.Proofs.EngineMachine

/-!
# Setup routines carried out by the engine

A scene is what a setup means without a stack: the objects, and the object
that is current. The engine follows it operation by operation: the current
object stays on top of whatever was on the stack before, and is fetched again
by its name only where the scene has just stored it.
-/

set_option autoImplicit false

namespace Bindery

inductive Operation where
  | openSpace (name : String)
  | bind (wrapper name : String) (arity : Nat)
  deriving DecidableEq, Repr

def Operation.calls : Operation → List Call
  | .openSpace name => (Registration.openingSpace name).flatMap Statement.calls
  | .bind wrapper name arity =>
    (Registration.binding wrapper name arity).flatMap Statement.calls

namespace Registration

def perform (r : Registration) : Operation → Registration
  | .openSpace name => r.openSpace name
  | .bind wrapper name arity => r.bind wrapper name arity

def recorded (ops : List Operation) : Registration := ops.foldl perform empty

def calls (r : Registration) : List Call := r.statements.flatMap Statement.calls

theorem perform_calls (r : Registration) (op : Operation) :
    (r.perform op).calls = r.calls ++ op.calls := by
  cases op with
  | openSpace name => exact List.flatMap_append
  | bind wrapper name arity => exact List.flatMap_append

theorem foldl_perform_calls (ops : List Operation) (r : Registration) :
    (ops.foldl perform r).calls = r.calls ++ ops.flatMap Operation.calls := by
  induction ops generalizing r with
  | nil => simp
  | cons op ops ih =>
    rw [List.foldl_cons, ih, perform_calls, List.append_assoc]
    rfl

theorem recorded_calls (ops : List Operation) :
    (recorded ops).calls = ops.flatMap Operation.calls :=
  foldl_perform_calls ops empty

end Registration

namespace Routine

theorem enclosing_calls (name : String) (r : Registration) :
    (enclosing name r.statements).calls = .pushGlobalObject :: (r.calls ++ [.pop]) := by
  simp [enclosing, calls, Registration.calls, Statement.calls]

end Routine

namespace Engine
variable {α : Type}

structure Scene (α : Type) where
  heap : Heap α
  next : Nat
  current : Object

namespace Scene

def openSpace (s : Scene α) (name : String) : Scene α where
  heap := (s.heap.allocate (.made s.next)).store .global name (.object (.made s.next))
  next := s.next + 1
  current := .made s.next

def bind (s : Scene α) (name : String) (v : Value α) : Scene α :=
  { s with heap := s.heap.store s.current name v }

def perform (s : Scene α) : Operation → Scene α
  | .openSpace name => s.openSpace name
  | .bind wrapper name arity => s.bind name (.function wrapper arity)

def machine (s : Scene α) (below : List (Value α)) : Machine α :=
  ⟨.object s.current :: below, s.heap, s.next⟩

end Scene

namespace Machine

def scene (m : Machine α) : Scene α := ⟨m.heap, m.next, .global⟩

theorem run_operation (s : Scene α) (below : List (Value α)) (op : Operation) :
    (s.machine below).run op.calls = some ((s.perform op).machine below) := by
  cases op with
  | openSpace name => exact run_openingSpace name _ below s.heap s.next
  | bind wrapper name arity => exact run_binding wrapper name arity s.current below s.heap s.next

theorem run_operations (s : Scene α) (below : List (Value α)) (ops : List Operation) :
    (s.machine below).run (ops.flatMap Operation.calls) =
      some ((ops.foldl Scene.perform s).machine below) := by
  induction ops generalizing s with
  | nil => rfl
  | cons op ops ih =>
    rw [List.flatMap_cons, run_append, run_operation, Option.bind_some, ih]
    rfl

theorem run_recorded (m : Machine α) (ops : List Operation) :
    m.run (.pushGlobalObject :: (Registration.recorded ops).calls) =
      some ((ops.foldl Scene.perform m.scene).machine m.stack) := by
  rw [Registration.recorded_calls]
  exact run_operations m.scene m.stack ops

/-- A setup routine leaves the stack as it was, and the objects as the scene has them. -/
theorem run_routine (m : Machine α) (name : String) (ops : List Operation) :
    let s := ops.foldl Scene.perform m.scene
    m.run (Routine.enclosing name (Registration.recorded ops).statements).calls =
      some ⟨m.stack, s.heap, s.next⟩ := by
  intro s
  rw [Routine.enclosing_calls, ← List.cons_append, run_append, run_recorded]
  rfl

end Machine
end Engine
end Bindery
