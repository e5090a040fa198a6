import Bindery.Proofs.CppText

/-!
# Names in script

The routine stores namespaces under the words of their directives, which are checked,
and wrappers under what the prefix leaves of a native name, which is not. So the name of
a namespace is an identifier in script. The name of a wrapper is one as well, unless
the prefix has cut the native name before its end or before a digit.
-/

set_option autoImplicit false

namespace Bindery
open Bindery.Text

def Config.CutsInto (c : Config) (name : String) : Prop :=
  ∃ rest, name = c.boundPrefix ++ rest ∧
    (rest = "" ∨ ∃ first ∈ rest.toList.head?, first.isDigit = true)

theorem isScriptIdentifier_word {cs : List Char} (h : ∀ c ∈ cs, isWordChar c = true) :
    isScriptIdentifier cs = true ↔ cs ≠ [] ∧ ∀ first ∈ cs.head?, first.isDigit = false := by
  cases cs with
  | nil => simp [isScriptIdentifier]
  | cons first rest =>
    obtain ⟨hfirst, hrest⟩ := List.forall_mem_cons.mp h
    have hspace : rest.all isSpaceChar = true := by
      rw [List.all_eq_true]
      intro c hc
      rw [isSpaceChar, ← isWordChar, hrest c hc, Bool.true_or]
    have hstart : isSpaceStart first = true ↔ first.isDigit = false := by
      rw [isSpaceStart, Bool.or_eq_true, Bool.or_eq_true, beq_iff_eq, beq_iff_eq]
      rw [Token.isWordChar_iff] at hfirst
      constructor
      · rintro ((halpha | rfl) | rfl)
        · exact Token.isDigit_of_isAlpha halpha
        · decide
        · decide
      · intro hdigit
        rw [hdigit] at hfirst
        exact .inl (hfirst.imp_right fun h => h.resolve_left Bool.false_ne_true)
    simp [isScriptIdentifier, hspace, hstart]

namespace Config
variable {c : Config} {name : String}

theorem boundName_word (h : Token.IsWord name.toList) :
    ∀ ch ∈ (c.boundName name).toList, isWordChar ch = true := by
  have hcases := c.boundName_cases name
  split at hcases
  · intro ch hch
    refine h.2 ch ?_
    rw [hcases, String.toList_append]
    exact List.mem_append_right _ hch
  · rw [hcases]
    exact h.2

/-- What the prefix leaves of a native name is an identifier unless the prefix cuts into
the name. -/
theorem boundName_identifier_iff (h : Token.IsWord name.toList)
    (hdigit : ∀ first ∈ name.toList.head?, first.isDigit = false) :
    isScriptIdentifier (c.boundName name).toList = true ↔ ¬c.CutsInto name := by
  rw [isScriptIdentifier_word (boundName_word h)]
  have hcases := c.boundName_cases name
  split at hcases
  case isTrue =>
    have hcuts : c.CutsInto name ↔ c.boundName name = "" ∨
        ∃ first ∈ (c.boundName name).toList.head?, first.isDigit = true := by
      constructor
      · rintro ⟨rest, hname, hrest⟩
        obtain rfl := (String.append_right_inj _).mp (hcases.symm.trans hname)
        exact hrest
      · intro hrest
        exact ⟨_, hcases, hrest⟩
    rw [hcuts, not_or]
    exact and_congr (by simp) (by simp)
  case isFalse hprefix =>
    rw [hcases]
    refine iff_of_true ⟨h.1, hdigit⟩ ?_
    rintro ⟨rest, hname, -⟩
    exact hprefix ⟨rest.toList, by rw [hname, String.toList_append]⟩

end Config

def Order.statements (c : Config) : Order → List Statement
  | .openSpace name => Registration.openingSpace name
  | .declare d => Registration.binding (c.wrapperSymbol d.name) (c.boundName d.name) d.arity

theorem Registration.foldl_obey_statements (c : Config) (os : List Order) (r : Registration) :
    (os.foldl (obey c) r).statements = r.statements ++ os.flatMap (Order.statements c) := by
  induction os generalizing r with
  | nil => simp
  | cons o os ih =>
    have hstep : (r.obey c o).statements = r.statements ++ o.statements c := by
      cases o with
      | openSpace name => rfl
      | declare d =>
        rw [obey, addWrapper, Wrapper.ofDeclaration_arity]
        rfl
    rw [List.foldl_cons, ih, hstep, List.flatMap_cons, List.append_assoc]

namespace Order
variable {c : Config} {o : Order} {name : String}

theorem openSpace_of_mem
    (h : .defineSpace name ∈ o.statements c ∨ .activateSpace name ∈ o.statements c) :
    o = .openSpace name := by
  cases o with
  | openSpace space =>
    simp [statements, Registration.openingSpace] at h
    rw [h]
  | declare d => simp [statements, Registration.binding] at h

theorem bind_mem_iff :
    .bind name ∈ o.statements c ↔ ∃ d, o = .declare d ∧ c.boundName d.name = name := by
  cases o with
  | openSpace space => simp [statements, Registration.openingSpace]
  | declare d => simp [statements, Registration.binding, eq_comm]

end Order

theorem readSpaceName_identifier {rest name : String} (h : readSpaceName rest = .ok name) :
    isScriptIdentifier name.toList = true := by
  simp only [readSpaceName] at h
  split at h
  · cases h
  · split at h
    case isTrue hname =>
      cases h
      rwa [String.toList_ofList]
    · cases h

namespace Run
variable {c : Config} {read : ReadText} {ss : List Source} {b : Bundle}

theorem mem_statements (h : ((start.scanAll c read ss).1.finish c).1 = .ok b) {s : Statement} :
    s ∈ b.routine.statements ↔ s = .activateGlobal ∨ s = .deactivate ∨
      ∃ o ∈ acceptedOf c read ss, s ∈ o.statements c := by
  rw [finish_registration c read ss b h, Registration.foldl_obey_statements]
  simp [Routine.enclosing, Registration.empty, or_comm]

/-- The names under which the routine of a finished run stores namespaces are identifiers
in script. The names of its bindings are what the prefix leaves of the names of the
accepted declarations. They hold letters, digits and underscores only, and such a name is
an identifier exactly when the prefix does not cut into the declared name. -/
theorem script_names (c : Config) (read : ReadText) (ss : List Source) (b : Bundle)
    (h : ((start.scanAll c read ss).1.finish c).1 = .ok b) :
    let statements := b.routine.statements
    let ds := declared (acceptedOf c read ss)
    (∀ name, .defineSpace name ∈ statements ∨ .activateSpace name ∈ statements →
      isScriptIdentifier name.toList = true) ∧
    (∀ name, .bind name ∈ statements ↔ ∃ d ∈ ds, c.boundName d.name = name) ∧
    ∀ d ∈ ds, (∀ ch ∈ (c.boundName d.name).toList, isWordChar ch = true) ∧
      (isScriptIdentifier (c.boundName d.name).toList = true ↔ ¬c.CutsInto d.name) := by
  intro statements ds
  refine ⟨?_, ?_, ?_⟩
  · intro name hname
    have horder : ∃ o ∈ acceptedOf c read ss,
        .defineSpace name ∈ o.statements c ∨ .activateSpace name ∈ o.statements c := by
      simpa [statements, mem_statements h, ← exists_or, ← and_or_left] using hname
    obtain ⟨o, ho, hmem⟩ := horder
    obtain rfl := Order.openSpace_of_mem hmem
    obtain ⟨d, hd⟩ := acceptedOf_read ho
    rcases Directive.order_eq_ok_iff.mp hd with ⟨_, _, _, hread, hopen⟩ | ⟨_, _, _, _, hopen⟩
    · cases hopen
      exact readSpaceName_identifier hread
    · cases hopen
  · intro name
    calc .bind name ∈ statements
      _ ↔ ∃ o ∈ acceptedOf c read ss, .bind name ∈ o.statements c := by
        simp [statements, mem_statements h]
      _ ↔ ∃ o ∈ acceptedOf c read ss, ∃ d, o = .declare d ∧ c.boundName d.name = name := by
        simp only [Order.bind_mem_iff]
      _ ↔ ∃ d ∈ ds, c.boundName d.name = name := by
        constructor
        · rintro ⟨_, ho, d, rfl, hd⟩
          exact ⟨d, mem_declared.mpr ho, hd⟩
        · rintro ⟨d, hmem, hd⟩
          exact ⟨_, mem_declared.mp hmem, d, rfl, hd⟩
  · intro d hd
    obtain ⟨directive, hdirective⟩ := acceptedOf_read (mem_declared.mp hd)
    rcases Directive.order_eq_ok_iff.mp hdirective with
      ⟨_, _, _, _, hdeclare⟩ | ⟨_, _, _, hread, hdeclare⟩
    · cases hdeclare
    · cases hdeclare
      obtain ⟨hword, hdigit⟩ := Declaration.name_of_ofText hread
      exact ⟨Config.boundName_word hword, Config.boundName_identifier_iff hword hdigit⟩

/-- A namespace, a name with the prefix, one without it, and one that the prefix cuts
before a digit. -/
theorem script_names_cut :
    let c : Config := {}
    let read : ReadText := fun _ => .error .notFound
    let source : Source := .text "a.hpp"
      "// DUKTAPE_NAMESPACE $ui\nDFUNC void duk_log();\nDFUNC void add();\nDFUNC void duk_9x();\n"
    ∃ b, ((start.scanAll c read [source]).1.finish c).1 = .ok b ∧
      isScriptIdentifier "$ui".toList = true ∧
      (.bind "log" ∈ b.routine.statements ∧ isScriptIdentifier "log".toList = true) ∧
      (.bind "add" ∈ b.routine.statements ∧ isScriptIdentifier "add".toList = true) ∧
      (.bind "9x" ∈ b.routine.statements ∧ ¬isScriptIdentifier "9x".toList = true) := by
  intro c read source
  have hok : (start.scanAll c read [source]).1.aborted = false := by decide +kernel
  have hb := (finish_eq_ok_iff c _ _).mpr ⟨hok, rfl⟩
  obtain ⟨hspaces, hbinds, hnames⟩ := script_names c read [source] _ hb
  have hdeclared : ∀ name ∈ ["duk_log", "add", "duk_9x"],
      ∃ d ∈ declared (acceptedOf c read [source]), d.name = name := by decide +kernel
  have hbind : ∀ name ∈ ["duk_log", "add", "duk_9x"],
      .bind (c.boundName name) ∈ ((start.scanAll c read [source]).1.bundle c).routine.statements ∧
      (isScriptIdentifier (c.boundName name).toList = true ↔ ¬c.CutsInto name) := by
    intro name hname
    obtain ⟨d, hd, rfl⟩ := hdeclared name hname
    exact ⟨(hbinds _).mpr ⟨d, hd, rfl⟩, (hnames d hd).2⟩
  obtain ⟨hlog, hadd, hcut⟩ : c.boundName "duk_log" = "log" ∧ c.boundName "add" = "add" ∧
      c.boundName "duk_9x" = "9x" := by decide +kernel
  refine ⟨_, hb, hspaces "$ui" (by decide +kernel), ?_, ?_, ?_⟩
  · have h := hbind "duk_log" (by decide)
    rw [hlog] at h
    exact ⟨h.1, by decide +kernel⟩
  · have h := hbind "add" (by decide)
    rw [hadd] at h
    exact ⟨h.1, by decide +kernel⟩
  · have h := hbind "duk_9x" (by decide)
    rw [hcut] at h
    exact ⟨h.1, fun hidentifier => h.2.mp hidentifier ⟨"9x", rfl, .inr ⟨'9', rfl, rfl⟩⟩⟩

/-- With the default prefix a function may be bound under a name that no script can write
as an identifier. -/
theorem script_names_not_usable :
    ¬∀ (read : ReadText) (ss : List Source) (b : Bundle),
      ((start.scanAll {} read ss).1.finish {}).1 = .ok b →
      ∀ name, .bind name ∈ b.routine.statements → isScriptIdentifier name.toList = true := by
  intro hall
  have hidentifier := hall (fun _ => .error .notFound) [.text "a.hpp" "DFUNC void duk_9()\n"] _
    ((finish_eq_ok_iff {} _ _).mpr ⟨by decide +kernel, rfl⟩) "9" (by decide +kernel)
  exact absurd hidentifier (by decide +kernel)

end Run
end Bindery
