/-!
# Settings of a run

The markers that start a directive, the prefixes from which names are made,
and what happens to a directive that cannot be read.
-/

set_option autoImplicit false

namespace Bindery

inductive Policy where
  | abort
  | skip
  deriving DecidableEq, Repr

namespace Policy

def name : Policy → String
  | .abort => "abort"
  | .skip => "skip"

def ofName? : String → Option Policy
  | "abort" => some .abort
  | "skip" => some .skip
  | _ => none

theorem ofName?_name (p : Policy) : ofName? p.name = some p := by cases p <;> rfl

end Policy

structure Config where
  functionMarker : String := "DFUNC"
  namespaceMarker : String := "// DUKTAPE_NAMESPACE"
  boundPrefix : String := "duk_"
  wrapperPrefix : String := "wrapper_"
  initFunction : String := "init_wrappers"
  banner : Bool := true
  onError : Policy := .abort
  deriving DecidableEq, Repr, Inhabited

def dropStart? : List Char → List Char → Option (List Char)
  | [], cs => some cs
  | _ :: _, [] => none
  | s :: ss, c :: cs => if s = c then dropStart? ss cs else none

theorem dropStart?_append (start rest : List Char) :
    dropStart? start (start ++ rest) = some rest := by
  induction start with
  | nil => rfl
  | cons s ss ih => simp [dropStart?, ih]

theorem dropStart?_eq_some_iff {start cs rest : List Char} :
    dropStart? start cs = some rest ↔ cs = start ++ rest := by
  constructor
  · intro h
    induction start generalizing cs with
    | nil => simpa [dropStart?] using h
    | cons s ss ih =>
      cases cs with
      | nil => simp [dropStart?] at h
      | cons c cs =>
        by_cases hc : s = c
        · subst hc
          simp only [dropStart?, if_true] at h
          simp [ih h]
        · simp [dropStart?, hc] at h
  · rintro rfl
    exact dropStart?_append start rest

namespace Config

def boundName (c : Config) (name : String) : String :=
  match dropStart? c.boundPrefix.toList name.toList with
  | some rest => String.ofList rest
  | none => name

def wrapperSymbol (c : Config) (name : String) : String := c.wrapperPrefix ++ name

theorem wrapperSymbol_chars (c : Config) (name : String) :
    (c.wrapperSymbol name).toList = c.wrapperPrefix.toList ++ name.toList :=
  String.toList_append

end Config
end Bindery
