import Bindery.Diagnostic
import Bindery.ValueType

/-!
# Declarations of native functions

A declaration is a return type, a name and parameters between the first `(`
and the first `)` after it; what follows is not looked at. Parameters are
parted by commas, and each is a type and a name. A single `void` stands for
no parameters. Parameter types are settled before the return type.
-/

set_option autoImplicit false

namespace Bindery

structure Param where
  type : ParamType
  name : String
  deriving DecidableEq, Repr

structure Declaration where
  returnType : ReturnType
  name : String
  params : List Param
  deriving DecidableEq, Repr

namespace Declaration

def arity (d : Declaration) : Nat := d.params.length

def addParam (d : Declaration) (p : Param) : Declaration :=
  { d with params := d.params ++ [p] }

inductive Flaw where
  | noOpening
  | nothingBeforeOpening
  | nameExpected (found : String)
  | noReturnType (name : String)
  | noClosing (name : String)
  | emptyParameter (position : Nat)
  | incompleteParameter (position : Nat)
  | badType (flaw : TypeExpr.Flaw)
  deriving DecidableEq, Repr

def Flaw.detail : Flaw → String
  | .noOpening => "missing `(` after function name"
  | .nothingBeforeOpening => "missing return type and function name"
  | .nameExpected found => "expected function name before `(`, found `" ++ found ++ "`"
  | .noReturnType name => "missing return type for `" ++ name ++ "`"
  | .noClosing name => "missing `)` in `" ++ name ++ "`"
  | .emptyParameter position => "parameter " ++ toString position ++ " is empty"
  | .incompleteParameter position => "parameter " ++ toString position ++ " needs a type and a name"
  | .badType flaw => flaw.detail

def flawed {α : Type} (flaw : Flaw) : Except Fault α :=
  .error (.malformedDeclaration flaw.detail)

def readType (ts : List Token) : Except Fault TypeExpr :=
  match TypeExpr.ofTokens ts with
  | .ok t => .ok t
  | .error flaw => flawed (.badType flaw)

def cutAt (k : Kind) : List Token → Option (List Token × List Token)
  | [] => none
  | t :: ts =>
    if t.kind = k then some ([], ts)
    else (cutAt k ts).map fun p => (t :: p.1, p.2)

def parts : List Token → List (List Token)
  | [] => [[]]
  | t :: ts =>
    if t.kind = .comma then [] :: parts ts
    else match parts ts with
      | [] => [[t]]
      | p :: ps => (t :: p) :: ps

def splitLast : List Token → Option (List Token × Token)
  | [] => none
  | [t] => some ([], t)
  | t :: ts => (splitLast ts).map fun p => (t :: p.1, p.2)

def readParam (position : Nat) (part : List Token) : Except Fault Param :=
  match splitLast part with
  | none => flawed (.emptyParameter position)
  | some (type, name) =>
    if name.isIdentifier = false ∨ type = [] then flawed (.incompleteParameter position)
    else do
      let expr ← readType type
      match ParamType.ofTypeExpr? expr with
      | some p => .ok ⟨p, name.lexeme⟩
      | none => .error (.unknownParameterType expr.canonical name.lexeme)

def readParts (position : Nat) : List (List Token) → Except Fault (List Param)
  | [] => .ok []
  | p :: ps => do
    let first ← readParam position p
    let rest ← readParts (position + 1) ps
    .ok (first :: rest)

def isVoidList : List Token → Bool
  | [] => true
  | [t] => t.isNamed "void"
  | _ => false

def readParams (ts : List Token) : Except Fault (List Param) :=
  if isVoidList ts then .ok [] else readParts 1 (parts ts)

def readHead (ts : List Token) : Except Fault (TypeExpr × String) :=
  match splitLast ts with
  | none => flawed .nothingBeforeOpening
  | some (type, name) =>
    if name.isIdentifier = false then flawed (.nameExpected name.lexeme)
    else if type = [] then flawed (.noReturnType name.lexeme)
    else do
      let expr ← readType type
      .ok (expr, name.lexeme)

def ofTokens (ts : List Token) : Except Fault Declaration :=
  match cutAt .lparen ts with
  | none => flawed .noOpening
  | some (head, tail) => do
    let (expr, name) ← readHead head
    match cutAt .rparen tail with
    | none => flawed (.noClosing name)
    | some (inner, _) =>
      let params ← readParams inner
      match ReturnType.ofTypeExpr? expr with
      | none => .error (.unknownReturnType expr.canonical)
      | some r => .ok ⟨r, name, params⟩

def ofText (body : String) : Except Fault Declaration := ofTokens (Token.ofText body)

end Declaration
end Bindery
