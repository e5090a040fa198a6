import Bindery.Text

/-!
# Tokens of a declaration

A declaration is read as words and marks. A word is a longest run of word
characters, so digits may lead it; two colons that touch are one mark. Every
other character that is not blank is a mark of its own. Positions count
bytes of the text.
-/

set_option autoImplicit false

namespace Bindery
open Bindery.Text

inductive Kind where
  | ident
  | const
  | star
  | amp
  | pathSep
  | lparen
  | rparen
  | comma
  | other
  deriving DecidableEq, Repr

structure Token where
  kind : Kind
  lexeme : String
  pos : Nat
  deriving DecidableEq, Repr

def Kind.name : Kind → String
  | .ident => "Ident"
  | .const => "Const"
  | .star => "Star"
  | .amp => "Amp"
  | .pathSep => "PathSep"
  | .lparen => "LParen"
  | .rparen => "RParen"
  | .comma => "Comma"
  | .other => "Other"

def Kind.ofMark : Char → Kind
  | '*' => .star
  | '&' => .amp
  | '(' => .lparen
  | ')' => .rparen
  | ',' => .comma
  | _ => .other

namespace Token

def word (cs : List Char) (pos : Nat) : Token :=
  let lexeme := String.ofList cs
  ⟨if lexeme = "const" then .const else .ident, lexeme, pos⟩

def mark (c : Char) (pos : Nat) : Token :=
  ⟨Kind.ofMark c, String.ofList [c], pos⟩

def scan (pos : Nat) : List Char → List Token
  | [] => []
  | c :: cs =>
    if isBlank c then scan (pos + c.utf8Size) cs
    else if isWordChar c then
      word (c :: cs.takeWhile isWordChar) pos ::
        scan (pos + 1 + (cs.takeWhile isWordChar).length) (cs.dropWhile isWordChar)
    else if c = ':' ∧ cs.head? = some ':' then
      ⟨.pathSep, "::", pos⟩ :: scan (pos + 2) cs.tail
    else mark c pos :: scan (pos + c.utf8Size) cs
termination_by cs => cs.length
decreasing_by
  · simp
  · simpa using Nat.lt_succ_of_le (List.dropWhile_suffix isWordChar).length_le
  · simp only [List.length_tail, List.length_cons]; omega
  · simp

def ofText (text : String) : List Token := scan 0 text.toList

def isNamed (t : Token) (name : String) : Bool :=
  t.kind == .ident && t.lexeme == name

def isIdentifier (t : Token) : Bool :=
  t.kind == .ident &&
    match t.lexeme.toList with
    | [] => false
    | c :: _ => c.isAlpha || c == '_'

def shown (t : Token) : String :=
  t.kind.name ++ "(" ++ Escape.quoted t.lexeme ++ " @ " ++ toString t.pos ++ ")"

end Token
end Bindery
