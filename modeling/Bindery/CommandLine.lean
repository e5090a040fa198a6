import Bindery.Format

/-!
# Command line

Arguments are taken one after the other. A switch with a value takes it from
the same argument or from the next one; the first argument that does not fit
ends the reading, and so does a question for the version or for help.
-/

set_option autoImplicit false

namespace Bindery

structure Request where
  inputs : List String
  output : Option String
  format : Format
  settings : Option String
  keepGoing : Bool
  initName : Option String
  deriving DecidableEq, Repr

inductive Switch where
  | output
  | format
  | settings
  | keepGoing
  | initName
  | version
  | help
  deriving DecidableEq, Repr

namespace Switch

def ofLong? : String → Option Switch
  | "output" => some .output
  | "format" => some .format
  | "config" => some .settings
  | "keep-going" => some .keepGoing
  | "init-name" => some .initName
  | "version" => some .version
  | "help" => some .help
  | _ => none

def ofShort? : Char → Option Switch
  | 'o' => some .output
  | 'f' => some .format
  | 'c' => some .settings
  | 'k' => some .keepGoing
  | 'V' => some .version
  | 'h' => some .help
  | _ => none

def takesValue : Switch → Bool
  | .output => true
  | .format => true
  | .settings => true
  | .initName => true
  | _ => false

end Switch

inductive Stop where
  | misuse
  | version
  | help
  deriving DecidableEq, Repr

structure Draft where
  inputs : List String := []
  output : Option String := none
  format : Option Format := none
  settings : Option String := none
  keepGoing : Bool := false
  initName : Option String := none
  awaiting : Option Switch := none
  onlyInputs : Bool := false
  deriving DecidableEq, Repr

namespace Draft

def addInput (d : Draft) (path : String) : Except Stop Draft :=
  if path = "" then .error .misuse else .ok { d with inputs := d.inputs ++ [path] }

def give (d : Draft) (s : Switch) (value : String) : Except Stop Draft :=
  match s with
  | .output =>
    if d.output.isSome ∨ value = "" then .error .misuse
    else .ok { d with output := some value }
  | .settings =>
    if d.settings.isSome ∨ value = "" then .error .misuse
    else .ok { d with settings := some value }
  | .initName =>
    if d.initName.isSome then .error .misuse else .ok { d with initName := some value }
  | .format =>
    match d.format, Format.ofName? value with
    | none, some f => .ok { d with format := some f }
    | _, _ => .error .misuse
  | _ => .error .misuse

def raise (d : Draft) : Switch → Except Stop Draft
  | .keepGoing => if d.keepGoing then .error .misuse else .ok { d with keepGoing := true }
  | .version => .error .version
  | .help => .error .help
  | _ => .error .misuse

def await (d : Draft) (s : Switch) : Draft := { d with awaiting := some s }

def takeShort (d : Draft) : List Char → Except Stop Draft
  | [] => .ok d
  | c :: cs =>
    match Switch.ofShort? c with
    | none => .error .misuse
    | some s =>
      if s.takesValue then
        match cs with
        | [] => .ok (d.await s)
        | '=' :: value => d.give s (String.ofList value)
        | value => d.give s (String.ofList value)
      else do (← d.raise s).takeShort cs

def takeLong (d : Draft) (cs : List Char) : Except Stop Draft :=
  let name := cs.takeWhile (· != '=')
  match Switch.ofLong? (String.ofList name), cs.drop name.length with
  | none, _ => .error .misuse
  | some s, [] => if s.takesValue then .ok (d.await s) else d.raise s
  | some s, _ :: value =>
    if s.takesValue then d.give s (String.ofList value) else .error .misuse

def takePlain (d : Draft) (arg : String) : Except Stop Draft :=
  match d.awaiting with
  | some s => { d with awaiting := none }.give s arg
  | none => d.addInput arg

def step (d : Draft) (arg : String) : Except Stop Draft :=
  if d.onlyInputs then d.addInput arg
  else match arg.toList with
    | '-' :: c :: cs =>
      if d.awaiting.isSome then .error .misuse
      else if c = '-' then
        if cs = [] then .ok { d with onlyInputs := true } else d.takeLong cs
      else d.takeShort (c :: cs)
    | _ => d.takePlain arg

def run (d : Draft) : List String → Except Stop Draft
  | [] => .ok d
  | arg :: args => do (← d.step arg).run args

def finish (d : Draft) : Except Stop Request :=
  if d.awaiting.isSome ∨ d.inputs = [] then .error .misuse
  else .ok ⟨d.inputs, d.output, d.format.getD .cpp, d.settings, d.keepGoing, d.initName⟩

theorem run_append (d : Draft) (args rest : List String) :
    d.run (args ++ rest) = (do (← d.run args).run rest) := by
  induction args generalizing d with
  | nil => rfl
  | cons a as ih =>
    simp only [List.cons_append, run]
    cases d.step a with
    | error e => rfl
    | ok next => exact ih next

end Draft

def Request.ofArguments (args : List String) : Except Stop Request := do
  (← Draft.run {} args).finish

end Bindery
