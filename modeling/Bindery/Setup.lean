import Bindery.Wrapper

/-!
# Setup statements and bundles

The setup routine attaches wrappers to objects: to the global object, or to
a namespace, which is an object stored on the global one under a name. A
statement either moves the active object, or makes an object or a callable
and stores it. Opening a namespace leaves the present object, stores a new
one and fetches it by its name; a binding registers a callable and stores it.
The replay of the statements keeps a stack of active objects and tells where
each binding lands. What one finished run hands over are its wrappers, in the
order in which they were met, and the setup routine that installs them.
-/

set_option autoImplicit false

namespace Bindery

inductive Target where
  | global
  | space (name : String)
  deriving DecidableEq, Repr

def Target.text : Target → String
  | .global => "global"
  | .space name => name

inductive Statement where
  | activateGlobal
  | deactivate
  | defineSpace (name : String)
  | activateSpace (name : String)
  | register (wrapper : String) (arity : Nat)
  | bind (name : String)
  deriving DecidableEq, Repr

structure Registration where
  statements : List Statement
  active : Target
  deriving DecidableEq, Repr

namespace Registration

def empty : Registration := ⟨[], .global⟩

def openingSpace (name : String) : List Statement :=
  [.deactivate, .activateGlobal, .defineSpace name, .deactivate, .activateSpace name]

def binding (wrapper name : String) (arity : Nat) : List Statement :=
  [.register wrapper arity, .bind name]

def openSpace (r : Registration) (name : String) : Registration :=
  ⟨r.statements ++ openingSpace name, .space name⟩

def bind (r : Registration) (wrapper name : String) (arity : Nat) : Registration :=
  { r with statements := r.statements ++ binding wrapper name arity }

def addWrapper (r : Registration) (w : Wrapper) : Registration :=
  r.bind w.symbol w.boundName w.arity

end Registration

structure Routine where
  name : String
  statements : List Statement
  deriving DecidableEq, Repr

def Routine.enclosing (name : String) (statements : List Statement) : Routine :=
  ⟨name, .activateGlobal :: statements ++ [.deactivate]⟩

namespace Replay

def step : Statement → List Target → List Target
  | .activateGlobal, stack => .global :: stack
  | .activateSpace name, stack => .space name :: stack
  | .deactivate, stack => stack.tail
  | _, stack => stack

def run : List Statement → List Target → List Target
  | [], stack => stack
  | s :: ss, stack => run ss (step s stack)

def current : List Target → Target
  | [] => .global
  | t :: _ => t

def bindings : List Statement → List Target → List (Target × String)
  | [], _ => []
  | .bind name :: ss, stack => (current stack, name) :: bindings ss stack
  | s :: ss, stack => bindings ss (step s stack)

theorem run_append (ss rest : List Statement) (stack : List Target) :
    run (ss ++ rest) stack = run rest (run ss stack) := by
  induction ss generalizing stack with
  | nil => rfl
  | cons s ss ih => exact ih _

theorem bindings_append (ss rest : List Statement) (stack : List Target) :
    bindings (ss ++ rest) stack = bindings ss stack ++ bindings rest (run ss stack) := by
  induction ss generalizing stack with
  | nil => rfl
  | cons s ss ih => cases s <;> simp [bindings, run, step, ih]

end Replay

def Routine.bindings (r : Routine) : List (Target × String) :=
  Replay.bindings r.statements []

structure Bundle where
  wrappers : List Wrapper
  routine : Routine
  deriving DecidableEq, Repr

namespace Bundle

def symbols (b : Bundle) : List String := b.wrappers.map Wrapper.symbol

def bindings (b : Bundle) : List (Target × String) := b.routine.bindings

end Bundle

end Bindery
