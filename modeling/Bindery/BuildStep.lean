import Bindery.FileTree
import Bindery.Format
import Bindery.Run

/-!
# Build steps

A build step takes sources below one directory and writes the bundle below
another. Before anything is printed or written, every source must exist. It
then announces each source to the build, and after a run without failure
passes every diagnostic on as a warning. A step that fails leaves every file
as it was.
-/

set_option autoImplicit false

namespace Bindery

structure BuildStep where
  sources : List String := []
  output : String := "duk_wrappers.inc"
  config : Config := {}
  format : Format := .cpp
  deriving DecidableEq, Repr

structure Built where
  output : String
  wrapperCount : Nat
  report : Report
  deriving DecidableEq, Repr

structure BuildResult where
  outcome : Except Failure Built
  printed : String
  tree : FileTree

namespace BuildStep

def addSource (b : BuildStep) (path : String) : BuildStep :=
  { b with sources := b.sources ++ [path] }

def addSources (b : BuildStep) (paths : List String) : BuildStep :=
  { b with sources := b.sources ++ paths }

def withPolicy (b : BuildStep) (p : Policy) : BuildStep :=
  { b with config := { b.config with onError := p } }

def prefixedLines (opening : String) : List String → String
  | [] => ""
  | l :: ls => opening ++ l ++ "\n" ++ prefixedLines opening ls

def announced (b : BuildStep) : String := prefixedLines "cargo:rerun-if-changed=" b.sources

def warned (r : Report) : String := prefixedLines "cargo:warning=" (r.map Diagnostic.text)

def fullSources (b : BuildStep) (root : String) : List String :=
  b.sources.map (Path.join root)

def saveFailure (path : String) : SaveFault → Failure
  | .directory fault => .disk (Path.above path) fault
  | .file fault => .disk path fault

def scanSource (b : BuildStep) (read : ReadText) (r : Run) (path : String) : Except Failure Run :=
  match r.scanFile b.config read path with
  | (next, none) => .ok next
  | (_, some failure) => .error failure

def scanned (b : BuildStep) (read : ReadText) (paths : List String) : Except Failure Run :=
  paths.foldlM (b.scanSource read) Run.start

def runIn (b : BuildStep) (t : FileTree) (root out : String) : BuildResult :=
  let paths := b.fullSources root
  match paths.find? fun p => !t.exists? p with
  | some missing => ⟨.error (.sourceNotFound missing), "", t⟩
  | none =>
    match b.scanned t.readText paths with
    | .error failure => ⟨.error failure, b.announced, t⟩
    | .ok r =>
      match (r.finish b.config).1 with
      | .error failure => ⟨.error failure, b.announced, t⟩
      | .ok bundle =>
        let printed := b.announced ++ warned r.report
        let path := Path.join out b.output
        match t.save path (.text (b.format.render b.config bundle)) with
        | (left, some fault) => ⟨.error (saveFailure path fault), printed, left⟩
        | (written, none) => ⟨.ok ⟨path, bundle.wrappers.length, r.report⟩, printed, written⟩

def outVariable : String := "OUT_DIR"

def rootVariable : String := "CARGO_MANIFEST_DIR"

def run (b : BuildStep) (t : FileTree) (env : String → Option String) : BuildResult :=
  match env outVariable, env rootVariable with
  | none, _ => ⟨.error (.variableMissing outVariable), "", t⟩
  | some _, none => ⟨.error (.variableMissing rootVariable), "", t⟩
  | some out, some root => b.runIn t root out

end BuildStep
end Bindery
