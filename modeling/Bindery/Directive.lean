import Bindery.Config
import Bindery.Declaration
import Bindery.Text

/-!
# Directives

A line that starts with a marker is a directive, and every other line is
passed over in silence. The namespace marker is looked for first. A marker
that ends in a word character does not match inside a longer word, and an
empty marker matches nothing.
-/

set_option autoImplicit false

namespace Bindery
open Bindery.Text

inductive Directive where
  | space (rest : String)
  | function (rest : String)
  deriving DecidableEq, Repr

inductive Order where
  | openSpace (name : String)
  | declare (declaration : Declaration)
  deriving DecidableEq, Repr

def runsOn (before after : List Char) : Bool :=
  before.getLast?.any isWordChar && after.head?.any isWordChar

def afterMarker? (marker line : List Char) : Option (List Char) :=
  if marker = [] then none
  else match dropStart? marker line with
    | none => none
    | some rest => if runsOn marker rest then none else some rest

def isSpaceStart (c : Char) : Bool := c.isAlpha || c == '_' || c == '$'

def isSpaceChar (c : Char) : Bool := c.isAlphanum || c == '_' || c == '$'

def isScriptIdentifier : List Char → Bool
  | [] => false
  | c :: cs => isSpaceStart c && cs.all isSpaceChar

inductive NameFlaw where
  | missing
  | notIdentifier (name : String)
  deriving DecidableEq, Repr

def NameFlaw.detail : NameFlaw → String
  | .missing => "missing namespace name"
  | .notIdentifier name => "`" ++ name ++ "` is not a valid identifier"

def readSpaceName (rest : String) : Except Fault String :=
  let name := firstWord rest.toList
  if name = [] then .error (.malformedNamespace NameFlaw.missing.detail)
  else if isScriptIdentifier name then .ok (String.ofList name)
  else .error (.malformedNamespace (NameFlaw.notIdentifier (String.ofList name)).detail)

namespace Directive

def ofChars? (c : Config) (line : List Char) : Option Directive :=
  let line := trim line
  match afterMarker? c.namespaceMarker.toList line with
  | some rest => some (.space (String.ofList rest))
  | none => (afterMarker? c.functionMarker.toList line).map fun rest =>
    .function (String.ofList rest)

def ofLine? (c : Config) (line : String) : Option Directive := ofChars? c line.toList

def order : Directive → Except Fault Order
  | .space rest => (readSpaceName rest).map .openSpace
  | .function rest => (Declaration.ofText rest).map .declare

def ofLines (c : Config) : List (Nat × List Char) → List (Nat × Directive)
  | [] => []
  | (n, line) :: rest =>
    match ofChars? c line with
    | some d => (n, d) :: ofLines c rest
    | none => ofLines c rest

def ofSource (c : Config) (source : String) : List (Nat × Directive) :=
  ofLines c (numbered 1 (lines source.toList))

theorem ofLines_append (c : Config) (ls ms : List (Nat × List Char)) :
    ofLines c (ls ++ ms) = ofLines c ls ++ ofLines c ms := by
  induction ls with
  | nil => rfl
  | cons l ls ih =>
    obtain ⟨n, line⟩ := l
    simp only [List.cons_append, ofLines]
    cases ofChars? c line <;> simp [ih]

end Directive
end Bindery
