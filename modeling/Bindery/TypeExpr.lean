import Bindery.Token

/-!
# Written types

A type is read from the tokens that stand before a name. Its words and its
`*` and `&` marks keep their order, and `const` may stand anywhere. A path
such as `std::string` is one word: `::` joins the word right before it, and
a word joins a `::` right before it. Two spellings with the same canonical
form mean the same type.
-/

set_option autoImplicit false

namespace Bindery

structure TypeExpr where
  isConst : Bool
  base : List String
  indirection : String
  deriving DecidableEq, Repr

namespace TypeExpr

def named (name : String) : TypeExpr := ⟨false, [name], ""⟩

def constant (t : TypeExpr) : TypeExpr := { t with isConst := true }

def pointer (t : TypeExpr) : TypeExpr := { t with indirection := t.indirection.push '*' }

def canonical (t : TypeExpr) : String :=
  (if t.isConst then "const " else "") ++ " ".intercalate t.base ++ t.indirection

inductive Flaw where
  | afterIndirection (lexeme indirection : String)
  | unexpected (lexeme : String)
  | noName
  deriving DecidableEq, Repr

def Flaw.detail : Flaw → String
  | .afterIndirection lexeme indirection =>
    "unexpected `" ++ lexeme ++ "` after `" ++ indirection ++ "`"
  | .unexpected lexeme => "unexpected `" ++ lexeme ++ "` in type"
  | .noName => "missing type name"

def extendLast (text : String) : List String → List String
  | [] => [text]
  | [w] => [w ++ text]
  | w :: ws => w :: extendLast text ws

structure Reading where
  expr : TypeExpr
  last : Option Kind
  deriving DecidableEq, Repr

namespace Reading

def start : Reading := ⟨⟨false, [], ""⟩, none⟩

def joined (e : TypeExpr) (join : Bool) (text : String) : TypeExpr :=
  { e with base := if join then extendLast text e.base else e.base ++ [text] }

def step (r : Reading) (t : Token) : Except Flaw Reading :=
  match t.kind with
  | .const => .ok ⟨{ r.expr with isConst := true }, some .const⟩
  | .ident =>
    if r.expr.indirection = "" then
      .ok ⟨joined r.expr (r.last == some .pathSep) t.lexeme, some .ident⟩
    else .error (.afterIndirection t.lexeme r.expr.indirection)
  | .pathSep => .ok ⟨joined r.expr (r.last == some .ident) "::", some .pathSep⟩
  | .star => .ok ⟨{ r.expr with indirection := r.expr.indirection.push '*' }, some .star⟩
  | .amp => .ok ⟨{ r.expr with indirection := r.expr.indirection.push '&' }, some .amp⟩
  | _ => .error (.unexpected t.lexeme)

def run (r : Reading) : List Token → Except Flaw Reading
  | [] => .ok r
  | t :: ts => do (← r.step t).run ts

def finish (r : Reading) : Except Flaw TypeExpr :=
  if r.expr.base = [] then .error .noName else .ok r.expr

theorem run_append (r : Reading) (ts rest : List Token) :
    r.run (ts ++ rest) = (do (← r.run ts).run rest) := by
  induction ts generalizing r with
  | nil => rfl
  | cons t ts ih =>
    simp only [List.cons_append, run]
    cases r.step t with
    | error f => rfl
    | ok s => exact ih s

end Reading

def ofTokens (ts : List Token) : Except Flaw TypeExpr := do
  (← Reading.start.run ts).finish

def ofText (text : String) : Except Flaw TypeExpr := ofTokens (Token.ofText text)

end TypeExpr
end Bindery
