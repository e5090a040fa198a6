import Bindery.Diagnostic
import Bindery.Setup

/-!
# Events and the log

What a run tells its log while it works, in order, and what the command tells
it besides. The log lets through what its filter admits, and writes a line
for each with the time and the colours of its own; so filter and lines are
given from outside. Where the environment names no filter that can be read,
only warnings pass.
-/

set_option autoImplicit false

namespace Bindery

inductive Level where
  | debug
  | info
  | warn
  deriving DecidableEq, Repr

def Level.name : Level → String
  | .debug => "DEBUG"
  | .info => "INFO"
  | .warn => "WARN"

def Level.column (l : Level) : String := "".pushn ' ' (5 - l.name.length) ++ l.name

inductive Event where
  | scanning (origin : String)
  | spaceRead (location : Location) (name : String)
  | opening (name : String) (previous : Target)
  | declared (location : Location) (declaration : Declaration) (target : Target)
  | duplicate (location : Location) (name : String)
  | skipping (location : Location) (fault : Fault)
  | generated (wrappers statements : Nat)
  deriving DecidableEq, Repr

namespace Event

def level : Event → Level
  | .scanning _ => .info
  | .spaceRead _ _ => .debug
  | .opening _ _ => .debug
  | .declared _ _ _ => .debug
  | .duplicate _ _ => .warn
  | .skipping _ _ => .warn
  | .generated _ _ => .info

def message : Event → String
  | .scanning origin => "scanning " ++ origin
  | .spaceRead location name => location.text ++ ": namespace " ++ name
  | .opening name previous =>
    "opening namespace " ++ name ++ " (was " ++ previous.text ++ ")"
  | .declared location d target =>
    location.text ++ ": " ++ d.returnType.spelling ++ " " ++ d.name ++ " with " ++
      toString d.arity ++ " param(s) on " ++ target.text
  | .duplicate location name => location.text ++ ": duplicate declaration of " ++ name
  | .skipping location fault => location.text ++ ": skipping directive: " ++ fault.message
  | .generated wrappers statements =>
    "generated " ++ toString wrappers ++ " wrapper(s), " ++ toString statements ++
      " setup statement(s)"

def text (e : Event) : String := e.level.name ++ ": " ++ e.message

end Event

inductive Notice where
  | loaded (path : String)
  | event (e : Event)
  | wrote (wrappers : Nat) (path : String)
  deriving DecidableEq, Repr

namespace Notice

def level : Notice → Level
  | .loaded _ => .debug
  | .event e => e.level
  | .wrote _ _ => .info

def message : Notice → String
  | .loaded path => "loaded configuration from " ++ path
  | .event e => e.message
  | .wrote wrappers path => "wrote " ++ toString wrappers ++ " wrapper(s) to " ++ path

def target : Notice → String
  | .loaded _ => "dukweld::config"
  | .event (.opening _ _) => "duk_weld::codegen::registration"
  | .event _ => "duk_weld::build::generator"
  | .wrote _ _ => "dukweld::generate"

def plainLine (time : String) (n : Notice) : String :=
  time ++ " " ++ n.level.column ++ " " ++ n.target ++ ": " ++ n.message ++ "\n"

end Notice

/-- A filter, and the line for each admitted notice, which may depend on how many
lines stand before it. -/
structure Log where
  admits : Notice → Bool
  line : Nat → Notice → String

namespace Log

def off : Log := ⟨fun _ => false, fun _ _ => ""⟩

def warnings (line : Nat → Notice → String) : Log := ⟨fun n => n.level == .warn, line⟩

def ofVariable (filter? : String → Option (Notice → Bool)) (line : Nat → Notice → String)
    (value : Option String) : Log :=
  match value.bind filter? with
  | none => warnings line
  | some admits => ⟨admits, line⟩

def text (log : Log) (notices : List Notice) : String :=
  String.join ((notices.filter log.admits).mapIdx log.line)

end Log
end Bindery
