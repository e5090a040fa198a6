import Bindery.Diagnostic
import Bindery.Text

/-!
# Paths and file trees

A path is a text whose segments are parted by slashes. Empty segments and
single dots do not count, except that a dot at the very start stands for the
present directory. A tree holds files and directories under the names that
lead to them from its root, and has a present directory from which relative
paths start. A path is walked segment by segment: only a directory can be
walked through, a missing name ends the walk, and two dots lead back up.
-/

set_option autoImplicit false

namespace Bindery

/-! ## Paths -/

namespace Path
open Bindery.Text

def segmentsOf : List Char → List (List Char)
  | [] => [[]]
  | c :: cs => if c = '/' then [] :: segmentsOf cs else consHead c (segmentsOf cs)

def segments (path : String) : List (List Char) := segmentsOf path.toList

def ofSegments (segs : List (List Char)) : String :=
  String.ofList (['/'].intercalate segs)

def isAbsolute (path : String) : Bool := path.toList.head? == some '/'

def join (base path : String) : String :=
  if isAbsolute path ∨ base = "" then path
  else if base.toList.getLast? = some '/' then base ++ path
  else base ++ "/" ++ path

def isIdle (seg : List Char) : Bool := seg == [] || seg == ['.']

def chainFrom (lead : List (List Char)) : List (List Char) → List String
  | [] => []
  | seg :: before =>
    if isIdle seg then chainFrom lead before
    else ofSegments (lead ++ (seg :: before).reverse) :: chainFrom lead before

def chain (path : String) : List String :=
  match segments path with
  | [] :: body@(_ :: _) => chainFrom [[]] body.reverse ++ ["/"]
  | ['.'] :: body => chainFrom [['.']] body.reverse ++ ["."]
  | segs => chainFrom [] segs.reverse

def parent? (path : String) : Option String :=
  match chain path with
  | [] => none
  | [top] => if top = "/" then none else some ""
  | _ :: above :: _ => some above

def above (path : String) : String := (parent? path).getD ""

end Path

/-! ## Trees -/


inductive Entry where
  | text (content : String)
  | bytes
  | directory
  deriving DecidableEq, Repr

abbrev Place := List String

structure FileTree where
  entries : List (Place × Entry)
  here : Place
  deriving DecidableEq, Repr

namespace FileTree

def look? (t : FileTree) (p : Place) : Option Entry :=
  if p = [] then some .directory else t.entries.lookup p

def put (t : FileTree) (p : Place) (e : Entry) : FileTree :=
  { t with entries := (p, e) :: t.entries.filter fun q => q.1 != p }

theorem look?_put (t : FileTree) (p q : Place) (e : Entry) (h : q ≠ []) :
    (t.put p e).look? q = if q = p then some e else t.look? q := by
  simp only [look?, put, h, if_false, List.lookup_cons]
  by_cases hq : q = p
  · simp [hq]
  · simp only [beq_eq_false_iff_ne.2 hq, hq, if_false]
    induction t.entries with
    | nil => rfl
    | cons a as ih =>
      obtain ⟨r, f⟩ := a
      by_cases hr : r = p
      · subst hr
        simp [List.lookup_cons, beq_eq_false_iff_ne.2 hq, ih]
      · simp only [List.filter_cons, bne_iff_ne, ne_eq, hr, not_false_eq_true, if_true,
          List.lookup_cons]
        cases q == r <;> simp [ih]

def isLong (name : String) : Bool := 255 < name.utf8ByteSize

def walkSegment (t : FileTree) (p : Place) (seg : List Char) : Except DiskFault Place :=
  let name := String.ofList seg
  match t.look? p with
  | some .directory =>
    if Path.isIdle seg then .ok p
    else if seg = ['.', '.'] then .ok p.dropLast
    else if isLong name then .error .nameTooLong
    else if (t.look? (p ++ [name])).isSome then .ok (p ++ [name])
    else .error .notFound
  | _ => .error .notDirectory

def walk (t : FileTree) (p : Place) : List (List Char) → Except DiskFault Place
  | [] => .ok p
  | seg :: segs => do t.walk (← t.walkSegment p seg) segs

def origin (t : FileTree) (path : String) : Except DiskFault Place :=
  if path.toList.contains '\x00' then .error .zeroCharacter
  else if path = "" then .error .notFound
  else if 4096 ≤ path.utf8ByteSize then .error .nameTooLong
  else .ok (if Path.isAbsolute path then [] else t.here)

def find (t : FileTree) (path : String) : Except DiskFault Entry := do
  let start ← t.origin path
  let p ← t.walk start (Path.segments path)
  .ok ((t.look? p).getD .directory)

def exists? (t : FileTree) (path : String) : Bool := (t.find path).isOk

def isDirectory (t : FileTree) (path : String) : Bool :=
  match t.find path with
  | .ok .directory => true
  | _ => false

def readText (t : FileTree) (path : String) : Except DiskFault String := do
  match ← t.find path with
  | .text content => .ok content
  | .bytes => .error .notText
  | .directory => .error .isDirectory

def lastSegment (segs : List (List Char)) : List (List Char) × List Char × Bool :=
  let back := segs.reverse
  match back.dropWhile (· == []) with
  | [] => ([], [], true)
  | seg :: before => (before.reverse, seg, back.head? == some [])

def newPlace (t : FileTree) (path : String) :
    Except DiskFault (Place × Option String × Bool) := do
  let start ← t.origin path
  let (before, seg, slash) := lastSegment (Path.segments path)
  let p ← t.walk start before
  match t.look? p with
  | some .directory =>
    if Path.isIdle seg ∨ seg = ['.', '.'] then .ok (p, none, slash)
    else .ok (p, some (String.ofList seg), slash)
  | _ => .error .notDirectory

def write (t : FileTree) (path : String) (e : Entry) : Except DiskFault FileTree := do
  match ← t.newPlace path with
  | (_, none, _) => .error .isDirectory
  | (p, some name, slash) =>
    if slash then .error .isDirectory
    else if isLong name then .error .nameTooLong
    else if t.look? (p ++ [name]) = some .directory then .error .isDirectory
    else .ok (t.put (p ++ [name]) e)

def makeDirectory (t : FileTree) (path : String) : Except DiskFault FileTree := do
  match ← t.newPlace path with
  | (_, none, _) => .error .alreadyExists
  | (p, some name, _) =>
    if isLong name then .error .nameTooLong
    else if (t.look? (p ++ [name])).isSome then .error .alreadyExists
    else .ok (t.put (p ++ [name]) .directory)

def makeChain (t : FileTree) : List String → FileTree × Option DiskFault
  | [] => (t, none)
  | path :: above =>
    match t.makeDirectory path with
    | .ok made => (made, none)
    | .error .notFound =>
      -- what has been made stays, whatever fails afterwards
      match t.makeChain above with
      | (base, some fault) => (base, some fault)
      | (base, none) =>
        match base.makeDirectory path with
        | .ok made => (made, none)
        | .error fault => (base, if base.isDirectory path then none else some fault)
    | .error fault => (t, if t.isDirectory path then none else some fault)

def makeDirectories (t : FileTree) (path : String) : Except DiskFault FileTree :=
  match t.makeChain (Path.chain path) with
  | (made, none) => .ok made
  | (_, some fault) => .error fault

def save (t : FileTree) (path : String) (e : Entry) : FileTree × Option SaveFault :=
  match t.makeChain (Path.chain (Path.above path)) with
  | (made, some fault) => (made, some (.directory fault))
  | (made, none) =>
    match made.write path e with
    | .ok written => (written, none)
    | .error fault => (made, some (.file fault))

def files (t : FileTree) : List (String × String) :=
  t.entries.filterMap fun
    | (p, .text content) =>
      if t.here.isPrefixOf p then some ("/".intercalate (p.drop t.here.length), content)
      else none
    | _ => none

def changedSince (t old : FileTree) : List (String × String) :=
  t.files.filter fun f => !old.files.contains f

def waysTo : Place → List Place
  | [] => []
  | name :: rest => [name] :: (waysTo rest).map (name :: ·)

def empty (here : Place) : FileTree := ⟨(waysTo here).map fun p => (p, .directory), here⟩

end FileTree
end Bindery
