import Bindery.Config
import Bindery.Declaration

/-!
# Wrappers

A wrapper reads its arguments from consecutive stack slots into locals,
calls the native function with them in the same order and pushes what the
return type asks for.
-/

set_option autoImplicit false

namespace Bindery

structure Extraction where
  slot : Nat
  type : ParamType
  deriving DecidableEq, Repr

def Extraction.localName (e : Extraction) : String := "arg" ++ toString e.slot

structure Wrapper where
  symbol : String
  callee : String
  boundName : String
  extractions : List Extraction
  returns : ReturnType
  deriving DecidableEq, Repr

namespace Wrapper

def arity (w : Wrapper) : Nat := w.extractions.length

def resultCount (w : Wrapper) : Nat := w.returns.resultCount

def call (w : Wrapper) : String :=
  w.callee ++ "(" ++ ", ".intercalate (w.extractions.map Extraction.localName) ++ ")"

def extractionsFrom (slot : Nat) : List Param → List Extraction
  | [] => []
  | p :: ps => ⟨slot, p.type⟩ :: extractionsFrom (slot + 1) ps

def ofDeclaration (c : Config) (d : Declaration) : Wrapper where
  symbol := c.wrapperSymbol d.name
  callee := d.name
  boundName := c.boundName d.name
  extractions := extractionsFrom 0 d.params
  returns := d.returnType

theorem extractionsFrom_length (slot : Nat) (ps : List Param) :
    (extractionsFrom slot ps).length = ps.length := by
  induction ps generalizing slot with
  | nil => rfl
  | cons p ps ih => simp [extractionsFrom, ih]

theorem ofDeclaration_arity (c : Config) (d : Declaration) :
    (ofDeclaration c d).arity = d.arity :=
  extractionsFrom_length 0 d.params

end Wrapper
end Bindery
