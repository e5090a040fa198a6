/-!
# Faults, diagnostics and failures

A marked line is refused with a fault: a sentence that says why, and the
short code under which it is reported. A report is the list of diagnostics
of a run in the order in which they were made; it is printed one coloured
line for each, with a summary of the counts behind. A run sees the disk only
through a function from paths to texts, and what the system answers when it
refuses a path is one of a few disk faults. Why a run stops without a bundle
is a failure, which may have a cause with a text of its own.
-/

set_option autoImplicit false

namespace Bindery

/-! ## Faults of a directive -/

inductive Fault where
  | unknownParameterType (type param : String)
  | unknownReturnType (type : String)
  | malformedDeclaration (detail : String)
  | malformedNamespace (detail : String)
  deriving DecidableEq, Repr

namespace Fault

def message : Fault → String
  | .unknownParameterType type param =>
    "unknown parameter type `" ++ type ++ "` for parameter `" ++ param ++ "`"
  | .unknownReturnType type => "unknown return type `" ++ type ++ "`"
  | .malformedDeclaration detail => "malformed declaration: " ++ detail
  | .malformedNamespace detail => "malformed namespace directive: " ++ detail

def code : Fault → String
  | .unknownParameterType _ _ => "W001"
  | .unknownReturnType _ => "W002"
  | .malformedDeclaration _ => "W003"
  | .malformedNamespace _ => "W004"

end Fault

/-! ## Diagnostics -/

structure Location where
  origin : String
  line : Nat
  deriving DecidableEq, Repr

def Location.text (l : Location) : String := l.origin ++ ":" ++ toString l.line

inductive Severity where
  | error
  | warning
  deriving DecidableEq, Repr

namespace Severity

def name : Severity → String
  | .error => "error"
  | .warning => "warning"

def colour : Severity → String
  | .error => "\x1b[31m"
  | .warning => "\x1b[33m"

end Severity

structure Diagnostic where
  severity : Severity
  message : String
  location : Option Location := none
  code : Option String := none
  deriving DecidableEq, Repr

namespace Diagnostic

def ofFault (l : Location) (f : Fault) : Diagnostic :=
  ⟨.error, f.message, some l, some f.code⟩

def duplicate (l : Location) (name : String) (first : Location) : Diagnostic :=
  ⟨.warning, "duplicate declaration of `" ++ name ++ "` (first declared at " ++
    first.text ++ ")", some l, some "W010"⟩

def codeText (code : String) : String := "[" ++ code ++ "]"

def text (d : Diagnostic) : String :=
  (match d.location with | some l => l.text ++ ": " | none => "") ++ d.severity.name ++
    (match d.code with | some c => codeText c | none => "") ++ ": " ++ d.message

def painted (colour text : String) : String := colour ++ text ++ "\x1b[0m"

def dim : String := "\x1b[2m"

def coloured (d : Diagnostic) : String :=
  (match d.location with | some l => painted dim l.text ++ ": " | none => "") ++
    painted d.severity.colour d.severity.name ++
    (match d.code with | some c => painted dim (codeText c) | none => "") ++ ": " ++ d.message

end Diagnostic

abbrev Report := List Diagnostic

namespace Report

def count (s : Severity) (r : Report) : Nat := r.countP fun d => d.severity == s

def errors (r : Report) : Nat := count .error r

def warnings (r : Report) : Nat := count .warning r

def hasErrors (r : Report) : Bool := r.any fun d => d.severity == .error

def printed : Report → String
  | [] => ""
  | d :: ds => d.coloured ++ "\n" ++ printed ds

def summary (r : Report) : String :=
  if r = [] then ""
  else "\n" ++ toString (errors r) ++ " error(s), " ++ toString (warnings r) ++ " warning(s)\n"

end Report

/-! ## Reading and its faults -/

inductive DiskFault where
  | notFound
  | alreadyExists
  | notDirectory
  | isDirectory
  | nameTooLong
  | notText
  | zeroCharacter
  | other (text : String)
  deriving DecidableEq, Repr

def DiskFault.message : DiskFault → String
  | .notFound => "No such file or directory (os error 2)"
  | .alreadyExists => "File exists (os error 17)"
  | .notDirectory => "Not a directory (os error 20)"
  | .isDirectory => "Is a directory (os error 21)"
  | .nameTooLong => "File name too long (os error 36)"
  | .notText => "stream did not contain valid UTF-8"
  | .zeroCharacter => "file name contained an unexpected NUL byte"
  | .other text => text

inductive SaveFault where
  | directory (fault : DiskFault)
  | file (fault : DiskFault)
  deriving DecidableEq, Repr

abbrev ReadText := String → Except DiskFault String

/-! ## Failures of a run -/

inductive Failure where
  | directive (location : Location) (fault : Fault)
  | disk (path : String) (fault : DiskFault)
  | sourceNotFound (path : String)
  | variableMissing (name : String)
  | aborted
  deriving DecidableEq, Repr

namespace Failure

def message : Failure → String
  | .directive location fault => location.text ++ ": " ++ fault.message
  | .disk path fault => "IO error on " ++ path ++ ": " ++ fault.message
  | .sourceNotFound path => "Source file not found: " ++ path
  | .variableMissing name => "Environment variable not set: " ++ name
  | .aborted => "generation was aborted by an earlier error"

def cause? : Failure → Option String
  | .directive _ fault => some fault.message
  | .disk _ fault => some fault.message
  | _ => none

def ofRead (path : String) : DiskFault → Failure
  | .notFound => .sourceNotFound path
  | fault => .disk path fault

end Failure

end Bindery
