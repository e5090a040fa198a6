/-!
# Settings tables

A table keeps its entries in order. It may stand under a header, be implied
by the header of another table, or be made by a dotted key; only tables of
the last two kinds can still be extended. Inline tables and arrays are
closed once they are written. Numbers and times are recognised, not kept.
-/

set_option autoImplicit false

namespace Bindery.Toml

inductive Origin where
  | header
  | implied
  | dotted
  deriving DecidableEq, Repr

inductive Item where
  | text (value : String)
  | flag (value : Bool)
  | scalar
  | array (items : List Item)
  | inline (entries : List (String × Item))
  | table (origin : Origin) (entries : List (String × Item))
  | tables (all : List (List (String × Item)))
  deriving Repr, Inhabited

structure Table where
  origin : Origin
  entries : List (String × Item)
  deriving Repr

namespace Table

def root : Table := ⟨.header, []⟩

def item (t : Table) : Item := .table t.origin t.entries

def get? (t : Table) (key : String) : Option Item := t.entries.lookup key

def set (t : Table) (key : String) (i : Item) : Table :=
  { t with entries := t.entries.filter (fun e => e.1 != key) ++ [(key, i)] }

def within (dotted : Bool) (change : Table → Option Table) : List String → Table → Option Table
  | [], t => change t
  | key :: keys, t => do
    match t.get? key with
    | none =>
      let sub ← within dotted change keys ⟨if dotted then .dotted else .implied, []⟩
      some (t.set key sub.item)
    | some (.table origin entries) =>
      -- a dotted path does not lead through a table with a header
      if dotted && origin == .header then none
      else
        let sub ← within dotted change keys ⟨origin, entries⟩
        some (t.set key sub.item)
    | some (.tables all) =>
      let last ← all.getLast?
      let sub ← within dotted change keys ⟨.header, last⟩
      some (t.set key (.tables (all.dropLast ++ [sub.entries])))
    | some _ => none

def assign (path : List String) (key : String) (i : Item) (t : Table) : Option Table :=
  within true (fun sub =>
    -- a table made by a dotted key takes entries by dotted keys only
    if (sub.origin == .dotted) == path.isEmpty then none
    else if (sub.get? key).isSome then none
    else some (sub.set key i)) path t

def openTable (path : List String) (key : String) (t : Table) : Option Table :=
  within false (fun parent =>
    match parent.get? key with
    | none => some (parent.set key (.table .header []))
    | some (.table .implied entries) => some (parent.set key (.table .header entries))
    | some _ => none) path t

def openElement (path : List String) (key : String) (t : Table) : Option Table :=
  within false (fun parent =>
    match parent.get? key with
    | none => some (parent.set key (.tables [[]]))
    | some (.tables all) => some (parent.set key (.tables (all ++ [[]])))
    | some _ => none) path t

end Table
end Bindery.Toml
