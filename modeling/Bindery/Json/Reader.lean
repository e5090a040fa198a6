import Bindery.Json.Value
import Bindery.Text

/-!
# Reading JSON

A text is first cut into marks: brackets, separators, quoted texts and
atoms. The marks are then taken one by one by a machine that keeps the
arrays and objects still open on a stack.
-/

set_option autoImplicit false

namespace Bindery.Json
open Bindery.Text

inductive Mark where
  | openArray
  | closeArray
  | openObject
  | closeObject
  | colon
  | comma
  | text (value : String)
  | atom (value : Json)
  deriving Repr

def plainEscape? : Char → Option Char
  | '"' => some '"'
  | '\\' => some '\\'
  | '/' => some '/'
  | 'b' => some '\x08'
  | 'f' => some '\x0c'
  | 'n' => some '\n'
  | 'r' => some '\r'
  | 't' => some '\t'
  | _ => none

def surrogates? (hi lo : Nat) : Option Char :=
  if 0xd800 ≤ hi ∧ hi < 0xdc00 ∧ 0xdc00 ≤ lo ∧ lo < 0xe000 then
    some (Char.ofNat (0x10000 + (hi - 0xd800) * 0x400 + (lo - 0xdc00)))
  else none

def consUnit (n : Nat) (rest : Option (List Nat × List Char)) : Option (List Nat × List Char) :=
  rest.map fun p => (n :: p.1, p.2)

def readUnits : List Char → Option (List Nat × List Char)
  | [] => none
  | '"' :: cs => some ([], cs)
  | '\\' :: 'u' :: a :: b :: c :: d :: cs =>
    match digits? 16 [a, b, c, d] with
    | some n => consUnit n (readUnits cs)
    | none => none
  | '\\' :: e :: cs =>
    match plainEscape? e with
    | some x => consUnit x.toNat (readUnits cs)
    | none => none
  | c :: cs => if c = '\\' ∨ c.toNat < 32 then none else consUnit c.toNat (readUnits cs)

def joinUnits : List Nat → Option (List Char)
  | [] => some []
  | [n] => (scalar? n).map ([·])
  | n :: m :: ns =>
    match scalar? n with
    | some c => (joinUnits (m :: ns)).map (c :: ·)
    -- a character beyond the sixteen-bit range is written as two halves
    | none => do
      let c ← surrogates? n m
      let rest ← joinUnits ns
      some (c :: rest)

def readText (cs : List Char) : Option (String × List Char) := do
  let (units, rest) ← readUnits cs
  let text ← joinUnits units
  some (String.ofList text, rest)

def dropDigits1? (cs : List Char) : Option (List Char) :=
  match cs with
  | [] => none
  | c :: rest => if c.isDigit then some (rest.dropWhile Char.isDigit) else none

def dropFraction? : List Char → Option (List Char)
  | '.' :: cs => dropDigits1? cs
  | cs => some cs

def dropExponent? : List Char → Option (List Char)
  | e :: cs =>
    if e = 'e' ∨ e = 'E' then
      match cs with
      | s :: rest => if s = '+' ∨ s = '-' then dropDigits1? rest else dropDigits1? cs
      | [] => none
    else some (e :: cs)
  | [] => some []

def dropWhole? : List Char → Option (List Char)
  | '0' :: cs => some cs
  | cs => dropDigits1? cs

def isNumber (cs : List Char) : Bool :=
  let unsigned := match cs with | '-' :: rest => rest | _ => cs
  ((dropWhole? unsigned).bind dropFraction? |>.bind dropExponent?) == some []

def isWhole (cs : List Char) : Bool := dropWhole? cs == some []

def atom? (cs : List Char) : Option Json :=
  if isWhole cs then (digits? 10 cs).map .nat
  else if isNumber cs then some (.number (String.ofList cs))
  else if cs = ['n', 'u', 'l', 'l'] then some .null
  else if cs = ['t', 'r', 'u', 'e'] then some (.bool true)
  else if cs = ['f', 'a', 'l', 's', 'e'] then some (.bool false)
  else none

def isSpace (c : Char) : Bool := c == ' ' || c == '\n' || c == '\r' || c == '\t'

def isAtomChar (c : Char) : Bool := c.isAlphanum || c == '-' || c == '+' || c == '.'

def punctuation? : Char → Option Mark
  | '[' => some .openArray
  | ']' => some .closeArray
  | '\x7b' => some .openObject
  | '\x7d' => some .closeObject
  | ':' => some .colon
  | ',' => some .comma
  | _ => none

theorem readUnits_length (cs : List Char) :
    ∀ p, readUnits cs = some p → p.2.length < cs.length := by
  fun_induction readUnits cs with
  | case1 => simp
  | case2 cs => simp
  | case3 a b c d cs n hn ih =>
    intro p h
    obtain ⟨q, hq, rfl⟩ := Option.map_eq_some_iff.1 h
    have := ih q hq
    simp only [List.length_cons]
    omega
  | case4 => simp
  | case5 e cs _ x hx ih =>
    intro p h
    obtain ⟨q, hq, rfl⟩ := Option.map_eq_some_iff.1 h
    have := ih q hq
    simp only [List.length_cons]
    omega
  | case6 => simp
  | case7 => simp
  | case8 c cs _ _ _ _ ih =>
    intro p h
    obtain ⟨q, hq, rfl⟩ := Option.map_eq_some_iff.1 h
    have := ih q hq
    simp only [List.length_cons]
    omega

theorem readText_length {cs : List Char} {p : String × List Char} (h : readText cs = some p) :
    p.2.length < cs.length := by
  simp only [readText, Option.bind_eq_bind, Option.bind_eq_some_iff, Option.some.injEq] at h
  obtain ⟨⟨units, rest⟩, hu, text, _, rfl⟩ := h
  exact readUnits_length cs _ hu

def marks (cs : List Char) : Option (List Mark) :=
  match cs with
  | [] => some []
  | c :: rest =>
    if isSpace c then marks rest
    else if c = '"' then
      match _h : readText rest with
      | none => none
      | some (s, after) => (marks after).map (.text s :: ·)
    else if isAtomChar c then do
      let a ← atom? (c :: rest.takeWhile isAtomChar)
      let ms ← marks (rest.dropWhile isAtomChar)
      some (.atom a :: ms)
    else do
      let m ← punctuation? c
      let ms ← marks rest
      some (m :: ms)
termination_by cs.length
decreasing_by
  · simp
  · have := readText_length _h; simp at this ⊢; omega
  · simpa using Nat.lt_succ_of_le (List.dropWhile_suffix isAtomChar).length_le
  · simp

inductive Open where
  | array (items : List Json)
  | object (fields : List (String × Json)) (key : String)
  deriving Repr

inductive State where
  | value (opened : List Open) (mayClose : Bool)
  | key (opened : List Open) (fields : List (String × Json)) (mayClose : Bool)
  | colon (opened : List Open) (fields : List (String × Json)) (key : String)
  | done (opened : List Open) (value : Json)
  deriving Repr

namespace State

def start : State := .value [] false

def stepValue (opened : List Open) (mayClose : Bool) : Mark → Option State
  | .atom v => some (.done opened v)
  | .text s => some (.done opened (.text s))
  | .openArray => some (.value (.array [] :: opened) true)
  | .openObject => some (.key opened [] true)
  | .closeArray =>
    match mayClose, opened with
    | true, .array items :: rest => some (.done rest (.array items))
    | _, _ => none
  | _ => none

def stepKey (opened : List Open) (fields : List (String × Json)) (mayClose : Bool) :
    Mark → Option State
  | .text k => some (.colon opened fields k)
  | .closeObject => if mayClose then some (.done opened (.object fields)) else none
  | _ => none

def stepDone (opened : List Open) (v : Json) (m : Mark) : Option State :=
  match opened, m with
  | .array items :: rest, .comma => some (.value (.array (items ++ [v]) :: rest) false)
  | .array items :: rest, .closeArray => some (.done rest (.array (items ++ [v])))
  | .object fields k :: rest, .comma => some (.key rest (fields ++ [(k, v)]) false)
  | .object fields k :: rest, .closeObject => some (.done rest (.object (fields ++ [(k, v)])))
  | _, _ => none

def step (s : State) (m : Mark) : Option State :=
  match s with
  | .value opened mayClose => stepValue opened mayClose m
  | .key opened fields mayClose => stepKey opened fields mayClose m
  | .colon opened fields k =>
    match m with
    | .colon => some (.value (.object fields k :: opened) false)
    | _ => none
  | .done opened v => stepDone opened v m

def run (s : State) : List Mark → Option State
  | [] => some s
  | m :: ms => (s.step m).bind fun t => t.run ms

def result? : State → Option Json
  | .done [] v => some v
  | _ => none

theorem run_append (s : State) (ms rest : List Mark) :
    s.run (ms ++ rest) = (s.run ms).bind fun t => t.run rest := by
  induction ms generalizing s with
  | nil => rfl
  | cons m ms ih =>
    simp only [List.cons_append, run]
    cases s.step m with
    | none => rfl
    | some t => exact ih t

end State

def ofText? (text : String) : Option Json := do
  let ms ← marks text.toList
  (← State.start.run ms).result?

end Bindery.Json
