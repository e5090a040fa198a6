import Bindery.Command

/-!
# The program

Every file that the command may read is read first. What the command decides
is then carried out on the disk, with its log switched off.
-/

set_option autoImplicit false

namespace Bindery

def faultOf : IO.Error → DiskFault
  | .noFileOrDirectory _ _ _ => .notFound
  | .alreadyExists _ 17 _ => .alreadyExists
  | .inappropriateType _ 20 _ => .notDirectory
  | .inappropriateType _ 21 _ => .isDirectory
  | e => .other (toString e)

def readDisk (path : String) : IO (Except DiskFault String) := do
  try
    let bytes ← IO.FS.readBinFile path
    match String.fromUTF8? bytes with
    | some content => return .ok content
    | none => return .error .notText
  catch e => return .error (faultOf e)

def makeOnDisk (path : String) : IO (Except DiskFault Unit) := do
  try
    IO.FS.createDir path
    return .ok ()
  catch e => return .error (faultOf e)

def isDirectoryOnDisk (path : String) : IO Bool := do
  match ← readDisk path with
  | .error .isDirectory => return true
  | _ => return false

def makeChainOnDisk : List String → IO (Except DiskFault Unit)
  | [] => return .ok ()
  | path :: above => do
    match ← makeOnDisk path with
    | .ok () => return .ok ()
    | .error .notFound =>
      match ← makeChainOnDisk above with
      | .error fault => return .error fault
      | .ok () => keep path (← makeOnDisk path)
    | .error fault => keep path (.error fault)
where
  keep (path : String) : Except DiskFault Unit → IO (Except DiskFault Unit)
    | .ok () => return .ok ()
    | .error fault => do
      if ← isDirectoryOnDisk path then return .ok () else return .error fault

def saveOnDisk (path text : String) : IO (Except Trouble Unit) := do
  match ← makeChainOnDisk (Path.chain (Path.above path)) with
  | .error fault => return .error (.ofSave path (.directory fault))
  | .ok () =>
    try
      IO.FS.writeFile path text
      return .ok ()
    catch e => return .error (.ofSave path (.file (faultOf e)))

def fail (trouble : Trouble) : IO UInt32 := do
  IO.eprint trouble.text
  return 1

def performOnDisk (r : Request) : IO UInt32 := do
  let paths := r.settings.toList ++ r.inputs
  let contents ← paths.mapM fun path => return (path, ← readDisk path)
  match r.render fun path => (contents.lookup path).getD (.error .notFound) with
  | .error trouble => fail trouble
  | .ok made =>
    match r.output with
    | none => IO.print made.text
    | some path =>
      match ← saveOnDisk path made.text with
      | .error trouble => return ← fail trouble
      | .ok () => pure ()
    IO.eprint (Request.reportText made.report)
    return (Request.status made.report).toUInt32

end Bindery

def main (args : List String) : IO UInt32 := do
  match Bindery.Request.ofArguments args with
  | .ok request => Bindery.performOnDisk request
  | .error stop =>
    IO.print stop.output
    IO.eprint stop.errorOutput
    return stop.status.toUInt32
