import Bindery.Proofs.RegisteredWrappers
import Bindery.Proofs.SetupEffect
import Mathlib.Data.List.Nodup

/-!
# Bindings that are kept

A run warns where one native name is declared twice. Scripts see other names:
the prefix is taken off, and the global object holds the namespaces too. So a
run without any warning may still store two things in one place, and the later
one stays. Here it is settled which bindings of such a run are still found.
-/

set_option autoImplicit false

namespace Bindery

def opened (os : List Order) : List String := os.filterMap Order.space?

theorem mem_opened {name : String} {os : List Order} :
    name ∈ opened os ↔ Order.openSpace name ∈ os := by
  rw [opened, List.mem_filterMap]
  constructor
  · rintro ⟨o, ho, hname⟩
    cases o with
    | openSpace space => rwa [← Option.some.inj hname]
    | declare d => cases hname
  · intro h
    exact ⟨_, h, rfl⟩

theorem declared_split {os : List Order} {i : Nat} {d : Declaration}
    (h : (declared os)[i]? = some d) :
    ∃ before after, os = before ++ .declare d :: after ∧ (declared before).length = i := by
  induction os generalizing i with
  | nil => simp [declared] at h
  | cons o os ih =>
    cases o with
    | openSpace name =>
      obtain ⟨before, after, hos, hlength⟩ := ih h
      exact ⟨.openSpace name :: before, after, by rw [hos]; rfl, hlength⟩
    | declare e =>
      cases i with
      | zero =>
        obtain rfl : e = d := Option.some.inj h
        exact ⟨[], os, rfl, rfl⟩
      | succ i =>
        obtain ⟨before, after, hos, hlength⟩ := ih (i := i) h
        exact ⟨.declare e :: before, after, by rw [hos]; rfl, congrArg (· + 1) hlength⟩

theorem targetAfter_cons (start : Target) (o : Order) (os : List Order) :
    targetAfter start (o :: os) = targetAfter (targetAfter start [o]) os := by
  cases o with
  | openSpace name => exact targetAfter_openSpace start name os
  | declare d => rfl

/-- The target is the global object before the first namespace, and one that was
opened from there on. -/
theorem targetAfter_cases (os : List Order) :
    (opened os = [] ∧ targetAfter .global os = .global) ∨
      ∃ space ∈ opened os, targetAfter .global os = .space space := by
  cases hlast : (opened os).getLast? with
  | none => exact .inl ⟨List.getLast?_eq_none_iff.mp hlast, congrArg (Option.elim · _ _) hlast⟩
  | some space =>
    exact .inr ⟨space, List.mem_of_getLast? hlast, congrArg (Option.elim · _ _) hlast⟩

theorem landings_append (c : Config) (t : Target) (os rest : List Order) :
    landings c t (os ++ rest) = landings c t os ++ landings c (targetAfter t os) rest := by
  induction os generalizing t with
  | nil => rfl
  | cons o os ih =>
    rw [targetAfter_cons]
    cases o with
    | openSpace name => exact ih (.space name)
    | declare d => exact congrArg (_ :: ·) (ih t)

theorem landings_drop (c : Config) (t : Target) (before after : List Order) (d : Declaration) :
    (landings c t (before ++ .declare d :: after)).drop ((declared before).length + 1) =
      landings c (targetAfter t before) after := by
  rw [landings_append, ← List.drop_drop, ← landings_length c t before, List.drop_left]
  rfl

theorem landings_target {c : Config} {t : Target} {os : List Order} {p : Target × String}
    (h : p ∈ landings c t os) : p.1 = t ∨ ∃ space ∈ opened os, p.1 = .space space := by
  induction os generalizing t with
  | nil => cases h
  | cons o os ih =>
    cases o with
    | openSpace name =>
      rcases ih h with ht | ⟨space, hspace, ht⟩
      · exact .inr ⟨name, List.mem_cons_self, ht⟩
      · exact .inr ⟨space, List.mem_cons_of_mem _ hspace, ht⟩
    | declare d =>
      rcases List.mem_cons.mp h with rfl | h
      · exact .inl rfl
      · exact ih h

theorem binding_split {c : Config} {os : List Order} {i : Nat} {w : Wrapper} {p : Target × String}
    (hw : ((declared os).map (Wrapper.ofDeclaration c))[i]? = some w)
    (hp : (landings c .global os)[i]? = some p) :
    ∃ before d after, (declared os)[i]? = some d ∧ os = before ++ .declare d :: after ∧
      (declared before).length = i ∧ w = Wrapper.ofDeclaration c d ∧
        p = (targetAfter .global before, c.boundName d.name) := by
  rw [List.getElem?_map, Option.map_eq_some_iff] at hw
  obtain ⟨d, hd, rfl⟩ := hw
  obtain ⟨before, after, hos, hlength⟩ := declared_split hd
  have hat := landings_at c .global before after d
  rw [← hos, hlength, hp] at hat
  exact ⟨before, d, after, hd, hos, hlength, rfl, Option.some.inj hat⟩

theorem declared_name_ne {os : List Order} (hnames : ((declared os).map Declaration.name).Nodup)
    {i j : Nat} {d e : Declaration} (hij : i ≠ j) (hd : (declared os)[i]? = some d)
    (he : (declared os)[j]? = some e) : d.name ≠ e.name := by
  intro heq
  have hlength : i < ((declared os).map Declaration.name).length := by
    rw [List.length_map]
    exact (List.getElem?_eq_some_iff.mp hd).1
  have hsame : ((declared os).map Declaration.name)[i]? =
      ((declared os).map Declaration.name)[j]? := by
    rw [List.getElem?_map, List.getElem?_map, hd, he, Option.map_some, Option.map_some, heq]
  exact hij ((List.getElem?_inj hlength hnames).mp hsame)

theorem declared_after_ne {before after : List Order} {d : Declaration}
    (hnames : ((declared (before ++ .declare d :: after)).map Declaration.name).Nodup) :
    ∀ e ∈ declared after, e.name ≠ d.name := by
  have hsplit : declared (before ++ .declare d :: after) =
      declared before ++ d :: declared after := List.filterMap_append
  intro e he heq
  rw [hsplit, List.map_append, List.map_cons, List.nodup_append, List.nodup_cons] at hnames
  exact hnames.2.1.1 (heq ▸ List.mem_map_of_mem he)

/-- What still lands on the present object is held by it, unless that object is
a namespace that is opened once more. -/
theorem mem_landings_iff (c : Config) (t : Target) (name : String) (os : List Order)
    (hopen : ∀ space, t = .space space → space ∉ opened os) :
    (t, name) ∈ landings c t os ↔ ∃ d ∈ held os, c.boundName d.name = name := by
  induction os with
  | nil => simp [landings, held]
  | cons o os ih =>
    cases o with
    | openSpace space =>
      have hnot : (t, name) ∉ landings c (.space space) os := by
        intro hmem
        rcases landings_target hmem with ht | ⟨other, hother, ht⟩
        · exact hopen space ht List.mem_cons_self
        · exact hopen other ht (List.mem_cons_of_mem _ hother)
      exact iff_of_false hnot (by simp [held])
    | declare d =>
      simp [landings, held, ih hopen, eq_comm]

theorem Config.boundName_eq {c : Config} {a b : String} (h : c.boundName a = c.boundName b) :
    a = b ∨ a = c.boundPrefix ++ b ∨ b = c.boundPrefix ++ a := by
  have ha := c.boundName_cases a
  have hb := c.boundName_cases b
  split at ha <;> split at hb
  · exact .inl (ha.trans (h ▸ hb.symm))
  · exact .inr (.inl (by rw [← hb, ← h, ← ha]))
  · exact .inr (.inr (by rw [← ha, h, ← hb]))
  · exact .inl (ha.symm.trans (h.trans hb))

namespace Engine
variable {α : Type}

def Heap.find (h : Heap α) : Target → String → Option (Value α)
  | .global, name => h .global name
  | .space space, name =>
    match h .global space with
    | some (.object o) => h o name
    | _ => none

theorem Heap.store_ne {h : Heap α} {o : Object} {name : String} {u v : Value α} (p : Object)
    (other : String) (hh : h o name ≠ some u) (hv : v ≠ u) : h.store p other v o name ≠ some u := by
  by_cases ho : o = p
  · by_cases hname : name = other
    · subst ho hname
      simpa using hv
    · rwa [store_name_ne _ _ _ _ hname]
  · rwa [store_object_ne _ _ _ ho]

theorem Heap.allocate_ne_some {h : Heap α} {o : Object} {name : String} {u : Value α}
    (p : Object) (hh : h o name ≠ some u) : h.allocate p o name ≠ some u := by
  by_cases ho : o = p
  · subst ho
    simp
  · rwa [allocate_ne _ ho]

namespace Scene
variable {c : Config} {s : Scene α} {t : Target}

def Shows (s : Scene α) : Target → Prop
  | .global => s.current = .global
  | .space name => s.current ≠ .global ∧ s.heap .global name = some (.object s.current)

theorem Shows.obey (h : s.Shows t) (o : Order) : (s.obey c o).Shows (targetAfter t [o]) := by
  cases o with
  | openSpace name => exact ⟨Object.noConfusion, openSpace_stored s name⟩
  | declare d =>
    cases t with
    | global => exact h
    | space name =>
      refine ⟨h.1, ?_⟩
      change (Heap.store _ s.current _ _) .global name = _
      rw [Heap.store_object_ne _ _ _ (Ne.symm h.1)]
      exact h.2

theorem Shows.foldl_obey (h : s.Shows t) (os : List Order) :
    (os.foldl (Scene.obey c) s).Shows (targetAfter t os) := by
  induction os generalizing s t with
  | nil => exact h
  | cons o os ih =>
    rw [targetAfter_cons]
    exact ih (h.obey o)

theorem Shows.current_iff (h : s.Shows t) : s.current = .global ↔ t = .global := by
  cases t with
  | global => exact iff_of_true h rfl
  | space name => exact iff_of_false h.1 Target.noConfusion

/-- A target that is not opened again stays the same object. -/
theorem Shows.find_after (h : s.Shows t) (os : List Order) (name : String)
    (hopen : ∀ space, t = .space space → space ∉ opened os) :
    (os.foldl (Scene.obey c) s).heap.find t name =
      (os.foldl (Scene.obey c) s).heap s.current name := by
  cases t with
  | global =>
    rw [show s.current = .global from h]
    rfl
  | space space =>
    have hkept := foldl_obey_heap c os s .global space trivial (fun hs => absurd hs h.1)
      fun _ hmem => hopen space rfl (mem_opened.mpr hmem)
    rw [Heap.find, hkept, h.2]

theorem obey_ne_wrapper {s : Scene α} {o : Object} {name : String} {d : Declaration}
    (order : Order) (hother : ∀ e, order = .declare e → e.name ≠ d.name)
    (h : s.heap o name ≠ some (.function (c.wrapperSymbol d.name) d.arity)) :
    (s.obey c order).heap o name ≠ some (.function (c.wrapperSymbol d.name) d.arity) := by
  cases order with
  | openSpace space =>
    exact Heap.store_ne _ _ (Heap.allocate_ne_some _ h) (by simp)
  | declare e =>
    refine Heap.store_ne _ _ h fun hv => hother e rfl ?_
    exact Config.wrapperSymbol_injective (Value.function.inj hv).1

/-- A wrapper that is not in a place does not come there by other declarations. -/
theorem foldl_obey_ne_wrapper (os : List Order) {s : Scene α} {o : Object} {name : String}
    {d : Declaration} (hother : ∀ e ∈ declared os, e.name ≠ d.name)
    (h : s.heap o name ≠ some (.function (c.wrapperSymbol d.name) d.arity)) :
    (os.foldl (Scene.obey c) s).heap o name ≠
      some (.function (c.wrapperSymbol d.name) d.arity) := by
  induction os generalizing s with
  | nil => exact h
  | cons order os ih =>
    have hfirst : ∀ e, order = .declare e → e.name ≠ d.name := by
      rintro e rfl
      exact hother e (mem_declared.mpr List.mem_cons_self)
    have hrest : ∀ e ∈ declared os, e.name ≠ d.name := fun e he =>
      hother e (mem_declared.mpr (List.mem_cons_of_mem _ (mem_declared.mp he)))
    exact ih hrest (obey_ne_wrapper order hfirst h)

theorem held_split {e : Declaration} {os : List Order} (h : e ∈ held os) :
    ∃ before after, os = before ++ .declare e :: after ∧
      ∀ s : Scene α, (before.foldl (Scene.obey c) s).current = s.current := by
  induction os with
  | nil => cases h
  | cons o os ih =>
    cases o with
    | openSpace name => cases h
    | declare d =>
      rcases List.mem_cons.mp h with rfl | h
      · exact ⟨[], os, rfl, fun _ => rfl⟩
      · obtain ⟨before, after, hos, hcurrent⟩ := ih h
        exact ⟨.declare d :: before, after, by rw [hos]; rfl, fun s => hcurrent _⟩

/-- A wrapper is lost from the current object when a later one is bound there
under its name, and from the global object when a namespace takes its place. -/
theorem wrapper_lost (s : Scene α) (d : Declaration) (after : List Order)
    (hother : ∀ e ∈ declared after, e.name ≠ d.name)
    (hlost : (∃ e ∈ held after, c.boundName e.name = c.boundName d.name) ∨
      s.current = .global ∧ c.boundName d.name ∈ opened after) :
    ((Order.declare d :: after).foldl (obey c) s).heap s.current (c.boundName d.name) ≠
      some (.function (c.wrapperSymbol d.name) d.arity) := by
  have hlater : ∀ {before o rest}, after = before ++ o :: rest →
      ∀ e ∈ declared rest, e.name ≠ d.name := by
    rintro before o rest rfl e he
    exact hother e (mem_declared.mpr (by simp [mem_declared.mp he]))
  rcases hlost with ⟨e, he, hname⟩ | ⟨hcurrent, hspace⟩
  · obtain ⟨before, rest, hafter, hkept⟩ := held_split (c := c) he
    have hd : e.name ≠ d.name := hother e (mem_declared.mpr (by simp [hafter]))
    rw [List.foldl_cons, hafter, List.foldl_append, List.foldl_cons]
    refine foldl_obey_ne_wrapper rest (hlater hafter) ?_
    change Heap.store _ _ _ _ _ _ ≠ _
    rw [hkept, hname]
    change Heap.store _ s.current _ _ s.current _ ≠ _
    rw [Heap.store_same]
    intro hv
    exact hd (Config.wrapperSymbol_injective (Value.function.inj (Option.some.inj hv)).1)
  · obtain ⟨before, rest, hafter⟩ := List.append_of_mem (mem_opened.mp hspace)
    rw [List.foldl_cons, hafter, List.foldl_append, List.foldl_cons, hcurrent]
    refine foldl_obey_ne_wrapper rest (hlater hafter) ?_
    rw [obey, openSpace_stored]
    simp

/-- Where a binding is found once all orders were obeyed. -/
theorem find_binding_iff (start : Scene α) (hstart : start.current = .global)
    (before after : List Order) (d : Declaration)
    (hnames : ∀ e ∈ declared after, e.name ≠ d.name)
    (hspaces : (opened (before ++ .declare d :: after)).Nodup) :
    let os := before ++ .declare d :: after
    let t := targetAfter .global before
    (os.foldl (obey c) start).heap.find t (c.boundName d.name) =
        some (.function (c.wrapperSymbol d.name) d.arity) ↔
      (t, c.boundName d.name) ∉ landings c t after ∧
        (t = .global → c.boundName d.name ∉ opened os) := by
  intro os t
  have hopened : opened os = opened before ++ opened after := List.filterMap_append
  have hreopen : ∀ space, t = .space space → space ∉ opened after := by
    intro space ht hafter
    rcases targetAfter_cases before with ⟨-, hglobal⟩ | ⟨first, hfirst, hspace⟩
    · cases hglobal.symm.trans ht
    · obtain rfl := Target.space.inj (hspace.symm.trans ht)
      exact (List.nodup_append.mp (hopened ▸ hspaces)).2.2 first hfirst first hafter rfl
  have hshows : (before.foldl (obey c) start).Shows t :=
    Shows.foldl_obey (t := .global) hstart before
  have hknown := current_known c before start (hstart ▸ trivial)
  have hfold : os.foldl (obey c) start =
      (Order.declare d :: after).foldl (obey c) (before.foldl (obey c) start) := List.foldl_append
  rw [hfold, hshows.find_after (.declare d :: after) _ hreopen,
    mem_landings_iff c t _ after hreopen]
  constructor
  · intro hfound
    refine ⟨fun hlater => wrapper_lost _ d after hnames (.inl hlater) hfound, ?_⟩
    intro ht hspace
    refine wrapper_lost _ d after hnames (.inr ⟨hshows.current_iff.mpr ht, ?_⟩) hfound
    rcases targetAfter_cases before with ⟨hnone, -⟩ | ⟨first, -, hfirst⟩
    · rwa [hopened, hnone] at hspace
    · cases hfirst.symm.trans ht
  · rintro ⟨hlast, hspace⟩
    refine last_binding c _ d after hknown (fun e he hname => hlast ⟨e, he, hname⟩) ?_
    intro hcurrent hafter
    have ht := hshows.current_iff.mp hcurrent
    exact hspace ht (hopened ▸ List.mem_append_right _ (mem_opened.mpr hafter))

end Scene
end Engine

namespace Run
open Engine

def Distinct (r : Run) : Prop :=
  r.report = [] → (r.wrappers.map Wrapper.callee).Nodup ∧
    ∀ w ∈ r.wrappers, (r.firstSeen.lookup w.callee).isSome

theorem distinct_invariant (c : Config) : Invariant c Distinct where
  apply r l o h := by
    cases o with
    | openSpace name => exact h
    | declare d =>
      intro hreport
      cases hseen : r.firstSeen.lookup d.name with
      | some first => simp [apply, declare, see, note, hseen, addWrapper] at hreport
      | none =>
        simp only [apply, declare, see, note, hseen, addWrapper] at hreport ⊢
        obtain ⟨hnodup, hknown⟩ := h hreport
        have hnew : ∀ w ∈ r.wrappers, w.callee ≠ d.name := by
          intro w hw hname
          have hw := hknown w hw
          rw [hname, hseen] at hw
          cases hw
        constructor
        · rw [List.map_append, List.nodup_append]
          refine ⟨hnodup, List.nodup_singleton _, ?_⟩
          rintro name hname other hother rfl
          obtain ⟨w, hw, rfl⟩ := List.mem_map.mp hname
          exact hnew w hw (List.mem_singleton.mp hother)
        · intro w hw
          rw [List.lookup_append, Option.isSome_or]
          rcases List.mem_append.mp hw with hw | hw
          · simp [hknown w hw]
          · obtain rfl := List.mem_singleton.mp hw
            simp [Wrapper.ofDeclaration]
  skip r l f _ hreport := by simp [skip] at hreport
  note _ _ h := h
  abort _ h := h

/-- Without a report, no name was declared twice. -/
theorem finish_distinct (c : Config) (read : ReadText) (ss : List Source) (b : Bundle)
    (h : ((start.scanAll c read ss).1.finish c).1 = .ok b)
    (hclean : (start.scanAll c read ss).1.report = []) :
    ((declared (acceptedOf c read ss)).map Declaration.name).Nodup := by
  have hstart : start.Distinct := fun _ => ⟨List.nodup_nil, fun _ hw => nomatch hw⟩
  have hnodup := ((distinct_invariant c).scanAll read start hstart ss hclean).1
  have hb := ((finish_eq_ok_iff c _ b).mp h).2
  have hwrappers := finish_wrappers c read ss b h
  rw [← hb] at hwrappers
  have hnames : (start.scanAll c read ss).1.wrappers.map Wrapper.callee =
      (declared (acceptedOf c read ss)).map Declaration.name := by
    rw [show (start.scanAll c read ss).1.wrappers = _ from hwrappers, List.map_map]
    rfl
  rwa [hnames] at hnodup

variable {α : Type}

theorem finish_run (c : Config) (read : ReadText) (ss : List Source) (b : Bundle)
    (h : ((start.scanAll c read ss).1.finish c).1 = .ok b) (m : Machine α) :
    let last := (acceptedOf c read ss).foldl (Scene.obey c) m.scene
    m.run b.routine.calls = some ⟨m.stack, last.heap, last.next⟩ := by
  intro last
  rw [finish_registration c read ss b h, Registration.foldl_obey]
  exact (Machine.run_routine m c.initFunction _).trans (by rw [← Scene.foldl_obey])

/-- Which bindings are found after the routine of a run without any report. A binding
is lost only to a later one of the same name on the same object, whose native name
differs by the prefix, or from the global object to a namespace of its name. -/
theorem binding_kept_iff (c : Config) (read : ReadText) (ss : List Source) (b : Bundle)
    (h : ((start.scanAll c read ss).1.finish c).1 = .ok b)
    (hclean : (start.scanAll c read ss).1.report = [])
    (hspaces : (opened (acceptedOf c read ss)).Nodup) (m : Machine α) :
    b.bindings.length = b.wrappers.length ∧ b.symbols.Nodup ∧
    ∃ last, m.run b.routine.calls = some last ∧
      ∀ (i : Nat) w target name, b.wrappers[i]? = some w → b.bindings[i]? = some (target, name) →
        (last.heap.find target name = some (.function w.symbol w.arity) ↔
          (target, name) ∉ b.bindings.drop (i + 1) ∧
            (target = .global → name ∉ opened (acceptedOf c read ss))) ∧
        ∀ (j : Nat) v, i < j → b.wrappers[j]? = some v → b.bindings[j]? = some (target, name) →
          v.callee ≠ w.callee ∧
            (v.callee = c.boundPrefix ++ w.callee ∨ w.callee = c.boundPrefix ++ v.callee) := by
  have hbindings := finish_bindings c read ss b h
  have hwrappers := finish_wrappers c read ss b h
  have hnames := finish_distinct c read ss b h hclean
  have hrun := finish_run c read ss b h m
  generalize acceptedOf c read ss = os at hbindings hwrappers hnames hspaces hrun ⊢
  refine ⟨?_, ?_, _, hrun, ?_⟩
  · rw [hbindings, landings_length, hwrappers, List.length_map]
  · rw [Bundle.symbols, hwrappers, List.map_map]
    rw [List.nodup_iff_pairwise_ne, List.pairwise_map] at hnames ⊢
    exact hnames.imp fun hne hsymbol => hne (Config.wrapperSymbol_injective hsymbol)
  · intro i w target name hw hbinding
    rw [hwrappers] at hw
    rw [hbindings] at hbinding ⊢
    obtain ⟨before, d, after, hd, hos, rfl, rfl, hp⟩ := binding_split hw hbinding
    obtain ⟨rfl, rfl⟩ := Prod.mk.inj hp
    constructor
    · rw [hos, landings_drop, Wrapper.ofDeclaration_arity]
      exact Scene.find_binding_iff m.scene rfl before after d (declared_after_ne (hos ▸ hnames))
        (hos ▸ hspaces)
    · intro j v hj hv hlater
      rw [hwrappers] at hv
      obtain ⟨earlier, e, rest, he, -, -, rfl, hq⟩ := binding_split hv hlater
      have hne : e.name ≠ d.name := declared_name_ne hnames (Nat.ne_of_gt hj) he hd
      have hbound : c.boundName e.name = c.boundName d.name := (Prod.mk.inj hq).2.symm
      exact ⟨hne, (Config.boundName_eq hbound).resolve_left hne⟩

theorem binding_kept_iff_in_space :
    let c : Config := {}
    let read : ReadText := fun _ => .error .notFound
    let source : Source := .text "a.cpp" ("DFUNC void f();\n// DUKTAPE_NAMESPACE app\n" ++
      "DFUNC void duk_f();\n")
    let m : Machine Unit := ⟨[], fun _ _ => none, 0⟩
    ∃ b last, ((start.scanAll c read [source]).1.finish c).1 = .ok b ∧
      m.run b.routine.calls = some last ∧
      last.heap.find .global "f" = some (.function "wrapper_f" 0) ∧
      last.heap.find (.space "app") "f" = some (.function "wrapper_duk_f" 0) := by
  intro c read source m
  have hok : (start.scanAll c read [source]).1.aborted = false := by decide +kernel
  have hclean : (start.scanAll c read [source]).1.report = [] := by decide +kernel
  have hopened : opened (acceptedOf c read [source]) = ["app"] := by decide +kernel
  have hb := (finish_eq_ok_iff c _ _).mpr ⟨hok, rfl⟩
  obtain ⟨-, -, last, hlast, hkept⟩ :=
    binding_kept_iff c read [source] _ hb hclean (hopened ▸ List.nodup_singleton _) m
  refine ⟨_, last, hb, hlast, ?_, ?_⟩
  · exact (hkept 0 ⟨"wrapper_f", "f", "f", [], .void⟩ .global "f" (by decide +kernel)
      (by decide +kernel)).1.mpr ⟨by decide +kernel, fun _ => by decide +kernel⟩
  · exact (hkept 1 ⟨"wrapper_duk_f", "duk_f", "f", [], .void⟩ (.space "app") "f"
      (by decide +kernel) (by decide +kernel)).1.mpr ⟨by decide +kernel, fun h => nomatch h⟩

/-- Without any report, one wrapper is lost to another whose name has the prefix,
and one to a namespace. -/
theorem bindings_lost_without_report :
    let c : Config := {}
    let read : ReadText := fun _ => .error .notFound
    let source : Source := .text "a.hpp" ("DFUNC void f()\nDFUNC void duk_f()\n" ++
      "DFUNC void app()\n// DUKTAPE_NAMESPACE app\n")
    let m : Machine Unit := ⟨[], fun _ _ => none, 0⟩
    c.functionMarker ≠ "" ∧ c.namespaceMarker ≠ "" ∧
    (start.scanAll c read [source]).1.report = [] ∧
    (opened (acceptedOf c read [source])).Nodup ∧
    ∃ b last, ((start.scanAll c read [source]).1.finish c).1 = .ok b ∧
      m.run b.routine.calls = some last ∧
      b.symbols = ["wrapper_f", "wrapper_duk_f", "wrapper_app"] ∧
      b.bindings = [(.global, "f"), (.global, "f"), (.global, "app")] ∧
      last.heap.find .global "f" = some (.function "wrapper_duk_f" 0) ∧
      last.heap.find .global "app" = some (.object (.made 0)) := by
  intro c read source m
  have hok : (start.scanAll c read [source]).1.aborted = false := by decide +kernel
  have hb := (finish_eq_ok_iff c _ _).mpr ⟨hok, rfl⟩
  refine ⟨by decide, by decide, by decide +kernel, by decide +kernel, _, _, hb,
    finish_run c read [source] _ hb m, ?_⟩
  decide +kernel

end Run
end Bindery
