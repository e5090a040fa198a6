import Bindery.CommandLine
import Bindery.FileTree
import Bindery.Run
import Bindery.Toml.Settings

/-!
# The command

The command reads its settings and its inputs, and only when nothing has
failed does it write: the rendered bundle to a file or to its output, the
diagnostics and their summary to its error output. It ends with status 0,
with 1 after a failure and with 2 when directives were skipped or when its
arguments make no sense. Its log goes to the error output too, and what it
lets through stands before everything else there. A command that is given no
log has it switched off.
-/

set_option autoImplicit false

namespace Bindery

structure Trouble where
  message : String
  causes : List String
  deriving DecidableEq, Repr

namespace Trouble

def hanging (indent : String) (text : String) : String :=
  String.ofList (text.toList.flatMap fun c => if c = '\n' then '\n' :: indent.toList else [c])

def ranked (n : Nat) : List String → String
  | [] => ""
  | c :: cs => "\n    " ++ toString n ++ ": " ++ hanging "       " c ++ ranked (n + 1) cs

def causesText : List String → String
  | [] => ""
  | [c] => "\n\nCaused by:\n    " ++ hanging "    " c
  | cs => "\n\nCaused by:" ++ ranked 0 cs

def text (t : Trouble) : String := "Error: " ++ t.message ++ causesText t.causes ++ "\n"

def disk (purpose path : String) (fault : DiskFault) : Trouble :=
  ⟨purpose ++ path, [fault.message]⟩

def ofFailure (f : Failure) : Trouble :=
  ⟨"Binding generation failed", f.message :: f.cause?.toList⟩

def ofSave (path : String) : SaveFault → Trouble
  | .directory fault => disk "Failed to create " (Path.above path) fault
  | .file fault => disk "Failed to write " path fault

end Trouble

structure Outcome where
  status : Nat
  output : String
  errorOutput : String
  tree : FileTree

structure Rendering where
  text : String
  wrappers : Nat
  report : Report
  deriving DecidableEq, Repr

namespace Request

def baseConfig (read : ReadText) (r : Request) : Except Trouble Config :=
  match r.settings with
  | none => .ok {}
  | some path =>
    match read path with
    | .error fault => .error (.disk "Failed to read config file " path fault)
    | .ok content =>
      match Config.ofToml? content with
      | none => .error ⟨"Failed to parse config file " ++ path, ["invalid settings"]⟩
      | some c => .ok c

def override (r : Request) (c : Config) : Config :=
  { c with
    onError := if r.keepGoing then .skip else c.onError
    initFunction := r.initName.getD c.initFunction }

def config (read : ReadText) (r : Request) : Except Trouble Config :=
  (r.baseConfig read).map r.override

def told (read : ReadText) (r : Request) : List Notice :=
  match r.config read with
  | .error _ => []
  | .ok c => (r.settings.map .loaded).toList ++ (generateLog c read r.inputs).map .event

def render (read : ReadText) (r : Request) : Except Trouble Rendering := do
  let c ← r.config read
  match generate c read r.inputs with
  | .error failure => .error (.ofFailure failure)
  | .ok (bundle, report) => .ok ⟨r.format.render c bundle, bundle.wrappers.length, report⟩

def status (report : Report) : Nat := if report.hasErrors then 2 else 0

def reportText (report : Report) : String := report.printed ++ report.summary

def perform (t : FileTree) (r : Request) (log : Log := .off) : Outcome :=
  let told := r.told t.readText
  match r.render t.readText with
  | .error trouble => ⟨1, "", log.text told ++ trouble.text, t⟩
  | .ok made =>
    match r.output with
    | none => ⟨status made.report, made.text, log.text told ++ reportText made.report, t⟩
    | some path =>
      match t.save path (.text made.text) with
      | (left, some fault) => ⟨1, "", log.text told ++ (Trouble.ofSave path fault).text, left⟩
      | (written, none) =>
        ⟨status made.report, "",
          log.text (told ++ [.wrote made.wrappers path]) ++ reportText made.report, written⟩

end Request

def versionText : String := "dukweld 0.1.0\n"

def usageText : String := "Usage: dukweld [OPTIONS] <INPUTS>...\n"

def helpText : String :=
  "Generate Duktape wrapper functions and their registration routine\n\n" ++ usageText ++
    "\nArguments:\n" ++
    "  <INPUTS>...  Annotated source files, scanned in the given order\n" ++
    "\nOptions:\n" ++
    "  -o, --output <OUTPUT>        Write the generated code to this file instead of stdout\n" ++
    "  -f, --format <FORMAT>        Output format [default: cpp] [possible values: cpp, json]\n" ++
    "  -c, --config <CONFIG>        TOML configuration file\n" ++
    "  -k, --keep-going             Skip malformed directives and report them instead of aborting\n" ++
    "      --init-name <INIT_NAME>  Name of the generated registration routine\n" ++
    "  -h, --help                   Print help\n" ++
    "  -V, --version                Print version\n"

namespace Stop

def status : Stop → Nat
  | .misuse => 2
  | _ => 0

def output : Stop → String
  | .misuse => ""
  | .version => versionText
  | .help => helpText

def errorOutput : Stop → String
  | .misuse => "error: the arguments make no sense\n\n" ++ usageText
  | _ => ""

end Stop

def command (t : FileTree) (args : List String) (log : Log := .off) : Outcome :=
  match Request.ofArguments args with
  | .error stop => ⟨stop.status, stop.output, stop.errorOutput, t⟩
  | .ok request => request.perform t log

end Bindery
