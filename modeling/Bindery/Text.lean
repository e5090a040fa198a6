import Bindery.Text.Printable

/-!
# Text

Words are separated by characters with the white-space property; a line is
read without the blanks at its two ends, and the first word of a text is
what stands before its next blank. A text is cut into lines after each
newline. Neither the newline nor one carriage return right before it belongs
to its line, and what follows the last newline is a line only if it is not
empty. Between quotes a lexeme is shown with escapes: a backslash before the
quote, the backslash and the usual control characters, and the hexadecimal
number of a character that would not be seen on its own.
-/

set_option autoImplicit false

namespace Bindery.Text

/-! ## Blanks -/

def isBlank (c : Char) : Bool :=
  let n := c.toNat
  (9 ≤ n && n ≤ 13) || n == 32 || n == 0x85 || n == 0xa0 || n == 0x1680 ||
    (0x2000 ≤ n && n ≤ 0x200a) || n == 0x2028 || n == 0x2029 ||
    n == 0x202f || n == 0x205f || n == 0x3000

def isWordChar (c : Char) : Bool := c.isAlphanum || c == '_'

def dropBlank (cs : List Char) : List Char := cs.dropWhile isBlank

def trim (cs : List Char) : List Char :=
  (dropBlank (dropBlank cs).reverse).reverse

def firstWord (cs : List Char) : List Char :=
  (dropBlank cs).takeWhile (fun c => !isBlank c)

theorem dropBlank_cons_blank {c : Char} (h : isBlank c = true) (cs : List Char) :
    dropBlank (c :: cs) = dropBlank cs := by
  simp [dropBlank, h]

theorem dropBlank_cons_solid {c : Char} (h : isBlank c = false) (cs : List Char) :
    dropBlank (c :: cs) = c :: cs := by
  simp [dropBlank, h]

/-! ## Lines -/

def consHead (c : Char) : List (List Char) → List (List Char)
  | [] => [[c]]
  | l :: ls => (c :: l) :: ls

def lines : List Char → List (List Char)
  | [] => []
  | '\n' :: cs => [] :: lines cs
  | '\r' :: '\n' :: cs => [] :: lines cs
  | c :: cs => consHead c (lines cs)

def numbered (n : Nat) : List (List Char) → List (Nat × List Char)
  | [] => []
  | l :: ls => (n, l) :: numbered (n + 1) ls

theorem numbered_append (n : Nat) (ls ms : List (List Char)) :
    numbered n (ls ++ ms) = numbered n ls ++ numbered (n + ls.length) ms := by
  induction ls generalizing n with
  | nil => rfl
  | cons l ls ih => simp [numbered, ih, Nat.add_assoc, Nat.add_comm 1]

/-! ## Digits -/

def hexValue? (c : Char) : Option Nat :=
  if '0' ≤ c ∧ c ≤ '9' then some (c.toNat - 48)
  else if 'a' ≤ c ∧ c ≤ 'f' then some (c.toNat - 87)
  else if 'A' ≤ c ∧ c ≤ 'F' then some (c.toNat - 55)
  else none

def digitsFrom? (base start : Nat) : List Char → Option Nat
  | [] => some start
  | c :: cs => do
    let d ← hexValue? c
    if d < base then digitsFrom? base (start * base + d) cs else none

def digits? (base : Nat) (cs : List Char) : Option Nat :=
  if cs = [] then none else digitsFrom? base 0 cs

def scalar? (n : Nat) : Option Char :=
  if n < 0xd800 ∨ (0xdfff < n ∧ n < 0x110000) then some (Char.ofNat n) else none

theorem number_digits (n : Nat) : ∀ a ∈ (toString n).toList, a.isDigit = true := by
  intro a ha
  rw [Nat.toString_eq_repr, Nat.toList_repr] at ha
  exact Nat.isDigit_of_mem_toDigits (by decide) (by decide) ha

/-! ## Escapes -/

namespace Escape

def number (c : Char) : List Char :=
  ['\\', 'u', '\x7b'] ++ Nat.toDigits 16 c.toNat ++ ['\x7d']

def char (c : Char) : List Char :=
  if c = '\x00' then ['\\', '0']
  else if c = '\t' then ['\\', 't']
  else if c = '\n' then ['\\', 'n']
  else if c = '\r' then ['\\', 'r']
  else if c = '"' then ['\\', '"']
  else if c = '\\' then ['\\', '\\']
  else if isHidden c then number c
  else [c]

def quoted (text : String) : String :=
  String.ofList ('"' :: text.toList.flatMap char ++ ['"'])

end Escape
end Bindery.Text
