import Bindery.Text
import Bindery.Toml.Table

/-!
# Scalars of a settings file

Quoted texts on one line or on several, with or without escapes, truth
values, numbers and times. A reader takes what it can from the front of a
text and returns what follows.
-/

set_option autoImplicit false

namespace Bindery.Toml
open Bindery.Text

def isGap (c : Char) : Bool := c == ' ' || c == '\t'

def dropGap (cs : List Char) : List Char := cs.dropWhile isGap

def isPlain (c : Char) : Bool := c == '\t' || (32 ≤ c.toNat && c.toNat != 127)

def dropNewline? : List Char → Option (List Char)
  | '\n' :: cs => some cs
  | '\r' :: '\n' :: cs => some cs
  | _ => none

def consChar (c : Char) (rest : Option (List Char × List Char)) :
    Option (List Char × List Char) :=
  rest.map fun p => (c :: p.1, p.2)

def escaped? : Char → Option Char
  | '"' => some '"'
  | '\\' => some '\\'
  | 'b' => some '\x08'
  | 'f' => some '\x0c'
  | 'n' => some '\n'
  | 'r' => some '\r'
  | 't' => some '\t'
  | _ => none

def numbered? (digits : List Char) : Option Char := (digits? 16 digits).bind scalar?

def basicText : List Char → Option (List Char × List Char)
  | [] => none
  | '"' :: cs => some ([], cs)
  | '\\' :: 'u' :: a :: b :: c :: d :: cs =>
    match numbered? [a, b, c, d] with
    | some x => consChar x (basicText cs)
    | none => none
  | '\\' :: 'U' :: a :: b :: c :: d :: e :: f :: g :: h :: cs =>
    match numbered? [a, b, c, d, e, f, g, h] with
    | some x => consChar x (basicText cs)
    | none => none
  | '\\' :: e :: cs =>
    match escaped? e with
    | some x => consChar x (basicText cs)
    | none => none
  | c :: cs => if c ≠ '\\' ∧ isPlain c then consChar c (basicText cs) else none

def basicLines (skipping : Bool) : List Char → Option (List Char × List Char)
  | [] => none
  -- one or two quotes may stand before the three that close
  | '"' :: '"' :: '"' :: '"' :: '"' :: cs => some (['"', '"'], cs)
  | '"' :: '"' :: '"' :: '"' :: cs => some (['"'], cs)
  | '"' :: '"' :: '"' :: cs => some ([], cs)
  | '\\' :: 'u' :: a :: b :: c :: d :: cs =>
    match numbered? [a, b, c, d] with
    | some x => consChar x (basicLines false cs)
    | none => none
  | '\\' :: 'U' :: a :: b :: c :: d :: e :: f :: g :: h :: cs =>
    match numbered? [a, b, c, d, e, f, g, h] with
    | some x => consChar x (basicLines false cs)
    | none => none
  | '\\' :: e :: cs =>
    -- a backslash at the end of a line takes away the gap up to the next other character
    if (dropNewline? (dropGap (e :: cs))).isSome then basicLines true (e :: cs)
    else match escaped? e with
      | some x => consChar x (basicLines false cs)
      | none => none
  | '\r' :: '\n' :: cs =>
    if skipping then basicLines true cs else consChar '\n' (basicLines false cs)
  | c :: cs =>
    if skipping && (c == '\n' || isGap c) then basicLines true cs
    else if c ≠ '\\' ∧ (c = '\n' ∨ isPlain c) then consChar c (basicLines false cs)
    else none

def literalText : List Char → Option (List Char × List Char)
  | [] => none
  | c :: cs =>
    if c = '\'' then some ([], cs)
    else if isPlain c then consChar c (literalText cs)
    else none

def literalLines : List Char → Option (List Char × List Char)
  | [] => none
  | '\'' :: '\'' :: '\'' :: '\'' :: '\'' :: cs => some (['\'', '\''], cs)
  | '\'' :: '\'' :: '\'' :: '\'' :: cs => some (['\''], cs)
  | '\'' :: '\'' :: '\'' :: cs => some ([], cs)
  | '\r' :: '\n' :: cs => consChar '\n' (literalLines cs)
  | c :: cs => if c = '\n' ∨ isPlain c then consChar c (literalLines cs) else none

def afterOpening (cs : List Char) : List Char := (dropNewline? cs).getD cs

def quoted? : List Char → Option (String × List Char)
  | '"' :: '"' :: '"' :: cs => (basicLines false (afterOpening cs)).map (·.map String.ofList id)
  | '"' :: cs => (basicText cs).map (·.map String.ofList id)
  | '\'' :: '\'' :: '\'' :: cs => (literalLines (afterOpening cs)).map (·.map String.ofList id)
  | '\'' :: cs => (literalText cs).map (·.map String.ofList id)
  | _ => none

def digitRun (isDigit : Char → Bool) : List Char → List Char × List Char
  | [] => ([], [])
  | '_' :: c :: cs =>
    if isDigit c then let (ds, rest) := digitRun isDigit cs; (c :: ds, rest)
    else ([], '_' :: c :: cs)
  | c :: cs =>
    if isDigit c then let (ds, rest) := digitRun isDigit cs; (c :: ds, rest)
    else ([], c :: cs)

def digits1? (isDigit : Char → Bool) (cs : List Char) : Option (List Char × List Char) :=
  match cs with
  | [] => none
  | c :: _ => if isDigit c then some (digitRun isDigit cs) else none

def dropSign : List Char → List Char
  | '+' :: cs => cs
  | '-' :: cs => cs
  | cs => cs

def whole? : List Char → Option (List Char × List Char)
  | '0' :: cs => some (['0'], cs)
  | cs => digits1? Char.isDigit cs

def decimalValue (ds : List Char) : Nat := (digits? 10 ds).getD 0

def wordLimit : Nat := Nat.pow 2 63

def isNegative (cs : List Char) : Bool := cs.head? == some '-'

def decimal? (cs : List Char) : Option (List Char) := do
  let (ds, rest) ← whole? (dropSign cs)
  let n := decimalValue ds
  if n < wordLimit ∨ (isNegative cs ∧ n = wordLimit) then some rest else none

def basedDigits? (base : Nat) (cs : List Char) : Option (List Char) := do
  let (ds, rest) ← digits1? (fun c => (hexValue? c).any fun d => d < base) cs
  let n ← digits? base ds
  if n < wordLimit then some rest else none

def integer? : List Char → Option (List Char)
  | '0' :: 'x' :: cs => basedDigits? 16 cs
  | '0' :: 'o' :: cs => basedDigits? 8 cs
  | '0' :: 'b' :: cs => basedDigits? 2 cs
  | cs => decimal? cs

def fraction? : List Char → Option (List Char × List Char)
  | '.' :: cs => digits1? Char.isDigit cs
  | _ => none

def exponent? : List Char → Option (Int × List Char)
  | e :: cs =>
    if e = 'e' ∨ e = 'E' then do
      let (ds, rest) ← digits1? Char.isDigit (dropSign cs)
      let n : Int := decimalValue ds
      some (if isNegative cs then -n else n, rest)
    else none
  | [] => none

/-- The least number that is nearer to infinity than to any double. -/
def infinityLimit : Nat := Nat.pow 2 1024 - Nat.pow 2 970

def overflows (digits : List Char) (exponent : Int) : Bool :=
  let n := decimalValue digits
  if n = 0 ∨ exponent + digits.length < 0 then false
  else if 400 < exponent then true
  else if exponent < 0 then infinityLimit * Nat.pow 10 exponent.natAbs ≤ n
  else infinityLimit ≤ n * Nat.pow 10 exponent.toNat

def special? (cs : List Char) : Option (List Char) :=
  match dropSign cs with
  | 'i' :: 'n' :: 'f' :: rest => some rest
  | 'n' :: 'a' :: 'n' :: rest => some rest
  | _ => none

def finite? (cs : List Char) : Option (List Char) := do
  let (ds, rest) ← whole? (dropSign cs)
  let (digits, shift, exponent, rest) ←
    match fraction? rest with
    | some (fs, rest) =>
      match exponent? rest with
      | some (n, rest) => some (ds ++ fs, fs.length, n, rest)
      | none => some (ds ++ fs, fs.length, (0 : Int), rest)
    | none => (exponent? rest).map fun p => (ds, 0, p.1, p.2)
  if !isNegative cs && overflows digits (exponent - shift) then none else some rest

def float? (cs : List Char) : Option (List Char) := (special? cs).or (finite? cs)

def fixed? (count least most : Nat) (cs : List Char) : Option (Nat × List Char) := do
  let ds := cs.take count
  if ds.length = count ∧ ds.all Char.isDigit then
    let n := decimalValue ds
    if least ≤ n ∧ n ≤ most then some (n, cs.drop count) else none
  else none

def drop? (c : Char) : List Char → Option (List Char)
  | x :: cs => if x = c then some cs else none
  | [] => none

def isLeap (year : Nat) : Bool := year % 4 == 0 && (year % 100 != 0 || year % 400 == 0)

def daysIn (year month : Nat) : Nat :=
  if month = 2 then (if isLeap year then 29 else 28)
  else if month ∈ [4, 6, 9, 11] then 30
  else 31

def date? (cs : List Char) : Option (List Char) := do
  let (year, cs) ← fixed? 4 0 9999 cs
  let cs ← drop? '-' cs
  let (month, cs) ← fixed? 2 1 12 cs
  let cs ← drop? '-' cs
  let (day, cs) ← fixed? 2 1 31 cs
  if day ≤ daysIn year month then some cs else none

def dropFraction (cs : List Char) : List Char :=
  match cs with
  | '.' :: c :: rest => if c.isDigit then rest.dropWhile Char.isDigit else cs
  | _ => cs

def time? (cs : List Char) : Option (List Char) := do
  let (_, cs) ← fixed? 2 0 23 cs
  let cs ← drop? ':' cs
  let (_, cs) ← fixed? 2 0 59 cs
  let cs ← drop? ':' cs
  let (_, cs) ← fixed? 2 0 60 cs
  some (dropFraction cs)

def zone? : List Char → Option (List Char)
  | c :: cs =>
    if c = 'Z' ∨ c = 'z' then some cs
    else if c = '+' ∨ c = '-' then do
      let (_, cs) ← fixed? 2 0 23 cs
      let cs ← drop? ':' cs
      let (_, cs) ← fixed? 2 0 59 cs
      some cs
    else none
  | [] => none

def zonedTime? : List Char → Option (List Char)
  | c :: cs =>
    if c = 'T' ∨ c = 't' ∨ c = ' ' then (time? cs).map fun rest => (zone? rest).getD rest
    else none
  | [] => none

def moment? (cs : List Char) : Option (List Char) :=
  match date? cs with
  | some rest => some ((zonedTime? rest).getD rest)
  | none => time? cs

def scalarItem? (cs : List Char) : Option (Item × List Char) :=
  match cs with
  | 't' :: 'r' :: 'u' :: 'e' :: rest => some (.flag true, rest)
  | 'f' :: 'a' :: 'l' :: 's' :: 'e' :: rest => some (.flag false, rest)
  | _ =>
    match quoted? cs with
    | some (s, rest) => some (.text s, rest)
    | none => ((moment? cs).or ((float? cs).or (integer? cs))).map fun rest => (.scalar, rest)

end Bindery.Toml
