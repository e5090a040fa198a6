import Bindery.Directive
import Bindery.Event

/-!
# Runs

A run takes sources one after the other and carries out the orders of their
directives. A directive that cannot be read is skipped with a diagnostic, or
ends the run, as the policy says. After its first failure a run takes no
further source and hands over no bundle.
-/

set_option autoImplicit false

namespace Bindery

structure Run where
  wrappers : List Wrapper
  registration : Registration
  firstSeen : List (String × Location)
  report : Report
  log : List Event
  aborted : Bool
  deriving DecidableEq, Repr

inductive Source where
  | text (origin content : String)
  | file (path : String)
  deriving DecidableEq, Repr

def ordersOf (c : Config) (origin content : String) :
    List (Location × Except Fault Order) :=
  (Directive.ofSource c content).map fun p => (⟨origin, p.1⟩, p.2.order)

namespace Run

def start : Run := ⟨[], .empty, [], [], [], false⟩

def note (r : Run) (e : Event) : Run := { r with log := r.log ++ [e] }

def openSpace (r : Run) (l : Location) (name : String) : Run :=
  { (r.note (.spaceRead l name)).note (.opening name r.registration.active) with
    registration := r.registration.openSpace name }

def see (r : Run) (l : Location) (name : String) : Run :=
  match r.firstSeen.lookup name with
  | none => { r with firstSeen := r.firstSeen ++ [(name, l)] }
  | some first =>
    { r.note (.duplicate l name) with
      report := r.report ++ [Diagnostic.duplicate l name first] }

def addWrapper (r : Run) (w : Wrapper) : Run :=
  { r with
    wrappers := r.wrappers ++ [w]
    registration := r.registration.addWrapper w }

def declare (c : Config) (r : Run) (l : Location) (d : Declaration) : Run :=
  ((r.note (.declared l d r.registration.active)).see l d.name).addWrapper
    (Wrapper.ofDeclaration c d)

def apply (c : Config) (r : Run) (l : Location) : Order → Run
  | .openSpace name => r.openSpace l name
  | .declare d => r.declare c l d

def skip (r : Run) (l : Location) (f : Fault) : Run :=
  { r.note (.skipping l f) with report := r.report ++ [Diagnostic.ofFault l f] }

def abort (r : Run) : Run := { r with aborted := true }

def carryOut (c : Config) (r : Run) :
    List (Location × Except Fault Order) → Run × Option Failure
  | [] => (r, none)
  | (l, .ok o) :: rest => carryOut c (r.apply c l o) rest
  | (l, .error f) :: rest =>
    match c.onError with
    | .abort => (r.abort, some (.directive l f))
    | .skip => carryOut c (r.skip l f) rest

def scanText (c : Config) (r : Run) (origin content : String) : Run × Option Failure :=
  if r.aborted then (r, some .aborted)
  else carryOut c (r.note (.scanning origin)) (ordersOf c origin content)

def scanFile (c : Config) (read : ReadText) (r : Run) (path : String) : Run × Option Failure :=
  if r.aborted then (r, some .aborted)
  else match read path with
    | .error fault => (r.abort, some (.ofRead path fault))
    | .ok content => r.scanText c path content

def scan (c : Config) (read : ReadText) (r : Run) : Source → Run × Option Failure
  | .text origin content => r.scanText c origin content
  | .file path => r.scanFile c read path

def scanAll (c : Config) (read : ReadText) (r : Run) : List Source → Run × List (Option Failure)
  | [] => (r, [])
  | s :: ss =>
    let (next, failure) := r.scan c read s
    let (last, failures) := next.scanAll c read ss
    (last, failure :: failures)

def bundle (c : Config) (r : Run) : Bundle :=
  ⟨r.wrappers, .enclosing c.initFunction r.registration.statements⟩

def finish (c : Config) (r : Run) : Except Failure Bundle × List Event :=
  if r.aborted then (.error .aborted, r.log)
  else
    let b := r.bundle c
    (.ok b, r.log ++ [.generated b.wrappers.length b.routine.statements.length])

def scanFiles (c : Config) (read : ReadText) (r : Run) : List String → Except Failure Run
  | [] => .ok r
  | path :: paths =>
    match r.scanFile c read path with
    | (_, some failure) => .error failure
    | (next, none) => next.scanFiles c read paths

end Run

def generate (c : Config) (read : ReadText) (paths : List String) :
    Except Failure (Bundle × Report) := do
  let r ← Run.start.scanFiles c read paths
  let b ← (r.finish c).1
  .ok (b, r.report)

/-- What a run over files tells its log, up to its first failure: a run that has
failed takes no further file and tells nothing more. -/
def generateLog (c : Config) (read : ReadText) (paths : List String) : List Event :=
  ((Run.start.scanAll c read (paths.map .file)).1.finish c).2

end Bindery
