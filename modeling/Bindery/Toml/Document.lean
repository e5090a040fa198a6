import Bindery.Toml.Scalar

/-!
# Settings files

A file is a sequence of lines: comments, headers of tables and assignments
of values to dotted keys. Arrays may run over several lines, inline tables
may not. Values nest less than eighty deep, and keys have less than eighty
parts.
-/

set_option autoImplicit false

namespace Bindery.Toml

def nestingLimit : Nat := 79

def skipLines (inComment : Bool) : List Char → Option (List Char)
  | [] => some []
  | '\r' :: '\n' :: cs => skipLines false cs
  | c :: cs =>
    if c = '\n' then skipLines false cs
    else if inComment then (if isPlain c then skipLines true cs else none)
    else if isGap c then skipLines false cs
    else if c = '#' then skipLines true cs
    else some (c :: cs)

def endLine? (cs : List Char) : Option (List Char) :=
  let rest := match dropGap cs with
    | '#' :: comment => comment.dropWhile isPlain
    | other => other
  match rest with
  | [] => some []
  | _ => dropNewline? rest

def isBareKeyChar (c : Char) : Bool := c.isAlphanum || c == '-' || c == '_'

def keyPart? (cs : List Char) : Option (String × List Char) :=
  match cs with
  | '"' :: rest => (basicText rest).map (·.map String.ofList id)
  | '\'' :: rest => (literalText rest).map (·.map String.ofList id)
  | _ =>
    let name := cs.takeWhile isBareKeyChar
    if name = [] then none else some (String.ofList name, cs.dropWhile isBareKeyChar)

def key? : Nat → List Char → Option (List String × String × List Char)
  | 0, _ => none
  | n + 1, cs => do
    let (part, rest) ← keyPart? (dropGap cs)
    match dropGap rest with
    | '.' :: more =>
      let (path, last, rest) ← key? n more
      some (part :: path, last, rest)
    | rest => some ([], part, rest)

def arrayItems? (read : List Char → Option (Item × List Char)) :
    Nat → List Char → Option (List Item × List Char)
  | 0, _ => none
  | n + 1, cs => do
    match ← skipLines false cs with
    | ']' :: rest => some ([], rest)
    | start =>
      let (v, rest) ← read start
      match ← skipLines false rest with
      | ',' :: rest =>
        let (vs, rest) ← arrayItems? read n rest
        some (v :: vs, rest)
      | ']' :: rest => some ([v], rest)
      | _ => none

def assignment? (read : List Char → Option (Item × List Char)) (t : Table) (cs : List Char) :
    Option (Table × List Char) := do
  let (path, last, rest) ← key? nestingLimit cs
  let rest ← drop? '=' rest
  let (v, rest) ← read (dropGap rest)
  let t ← t.assign path last v
  some (t, rest)

def inlineEntries? (read : List Char → Option (Item × List Char)) :
    Nat → Table → List Char → Option (Table × List Char)
  | 0, _, _ => none
  | n + 1, t, cs => do
    let (t, rest) ← assignment? read t cs
    match dropGap rest with
    | ',' :: rest => inlineEntries? read n t rest
    | '\x7d' :: rest => some (t, rest)
    | _ => none

def value? : Nat → List Char → Option (Item × List Char)
  | depth, '[' :: cs =>
    match depth with
    | 0 => none
    | depth + 1 =>
      (arrayItems? (value? depth) (cs.length + 1) cs).map fun p => (.array p.1, p.2)
  | depth, '\x7b' :: cs =>
    match depth with
    | 0 => none
    | depth + 1 =>
      match dropGap cs with
      | '\x7d' :: rest => some (.inline [], rest)
      | _ =>
        (inlineEntries? (value? depth) (cs.length + 1) .root cs).map fun p =>
          (.inline p.1.entries, p.2)
  | _, cs => scalarItem? cs

structure Reading where
  root : Table
  path : List String
  deriving Repr

def header? (r : Reading) (cs : List Char) : Option (Reading × List Char) :=
  match cs with
  | '[' :: rest => do
    let (path, last, rest) ← key? nestingLimit rest
    let rest ← drop? ']' rest
    let rest ← drop? ']' rest
    let root ← r.root.openElement path last
    some (⟨root, path ++ [last]⟩, rest)
  | _ => do
    let (path, last, rest) ← key? nestingLimit cs
    let rest ← drop? ']' rest
    let root ← r.root.openTable path last
    some (⟨root, path ++ [last]⟩, rest)

def readEntry (r : Reading) (cs : List Char) : Option (Reading × List Char) := do
  let (path, last, rest) ← key? nestingLimit cs
  let rest ← drop? '=' rest
  let (v, rest) ← value? nestingLimit (dropGap rest)
  let root ← r.root.within false (fun t => t.assign path last v) r.path
  some ({ r with root := root }, rest)

def documentFrom? : Nat → Reading → List Char → Option Table
  | 0, _, _ => none
  | n + 1, r, cs => do
    match ← skipLines false cs with
    | [] => some r.root
    | '[' :: rest =>
      let (r, rest) ← header? r rest
      documentFrom? n r (← endLine? rest)
    | rest =>
      let (r, rest) ← readEntry r rest
      documentFrom? n r (← endLine? rest)

def dropMark : List Char → List Char
  | c :: cs => if c = '\ufeff' then cs else c :: cs
  | [] => []

def document? (text : String) : Option Table :=
  let cs := dropMark text.toList
  documentFrom? (cs.length + 1) ⟨.root, []⟩ cs

end Bindery.Toml
