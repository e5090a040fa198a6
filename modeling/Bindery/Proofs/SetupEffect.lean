import Bindery.Proofs.ReplayTargets
import Bindery.Proofs.SetupSimulation

/-!
# Effect of a bundle's routine

The orders of a run have a direct meaning on the objects of a script: a
namespace order stores a new object on the global one and makes it current, a
declaration stores a wrapper on the current object. The routine of the bundle
leaves the objects exactly as this meaning has them.
-/

set_option autoImplicit false

namespace Bindery

def held : List Order → List Declaration
  | .declare d :: os => d :: held os
  | _ => []

def Order.operation (c : Config) : Order → Operation
  | .openSpace name => .openSpace name
  | .declare d => .bind (c.wrapperSymbol d.name) (c.boundName d.name) d.arity

theorem Registration.foldl_obey (c : Config) (os : List Order) (r : Registration) :
    os.foldl (obey c) r = (os.map (Order.operation c)).foldl perform r := by
  induction os generalizing r with
  | nil => rfl
  | cons o os ih =>
    cases o with
    | openSpace name => exact ih _
    | declare d =>
      rw [List.foldl_cons, ih, obey, addWrapper, Wrapper.ofDeclaration_arity]
      rfl

namespace Engine.Scene
variable {α : Type}

def obey (c : Config) (s : Scene α) : Order → Scene α
  | .openSpace name => s.openSpace name
  | .declare d => s.bind (c.boundName d.name) (.function (c.wrapperSymbol d.name) d.arity)

theorem foldl_obey (c : Config) (os : List Order) (s : Scene α) :
    os.foldl (obey c) s = (os.map (Order.operation c)).foldl perform s := by
  induction os generalizing s with
  | nil => rfl
  | cons o os ih => cases o <;> exact ih _

def Knows (s : Scene α) : Object → Prop
  | .global => True
  | .made index => index < s.next

theorem Knows.ne_next {s : Scene α} {o : Object} (h : s.Knows o) : o ≠ .made s.next := by
  rintro rfl
  exact Nat.lt_irrefl _ h

theorem Knows.obey {c : Config} {s : Scene α} {o : Object} (h : s.Knows o) (order : Order) :
    (s.obey c order).Knows o := by
  cases order with
  | openSpace name =>
    cases o with
    | global => trivial
    | made index => exact Nat.lt_succ_of_lt h
  | declare d => exact h

theorem current_known (c : Config) (os : List Order) (s : Scene α) (h : s.Knows s.current) :
    (os.foldl (Scene.obey c) s).Knows (os.foldl (Scene.obey c) s).current := by
  induction os generalizing s with
  | nil => exact h
  | cons o os ih =>
    cases o with
    | openSpace name => exact ih _ (Nat.lt_succ_self s.next)
    | declare d => exact ih _ h

/-- A property changes only by a binding on its object while that is current, and
on the global object by a namespace of that name. -/
theorem foldl_obey_heap (c : Config) (os : List Order) (s : Scene α) (o : Object) (name : String)
    (hknown : s.Knows o)
    (hcurrent : s.current = o → ∀ d ∈ held os, c.boundName d.name ≠ name)
    (hglobal : o = .global → Order.openSpace name ∉ os) :
    (os.foldl (Scene.obey c) s).heap o name = s.heap o name := by
  induction os generalizing s with
  | nil => rfl
  | cons order os ih =>
    have htail : o = .global → Order.openSpace name ∉ os := fun h hmem =>
      hglobal h (List.mem_cons_of_mem _ hmem)
    rw [List.foldl_cons]
    cases order with
    | openSpace space =>
      -- the new object is none that was known, and it is the current one from here on
      have hnew := hknown.ne_next
      have hother : (s.obey c (.openSpace space)).current ≠ o := hnew.symm
      rw [ih _ (hknown.obey _) (fun h => absurd h hother) htail]
      change (Heap.store _ .global space _) o name = _
      by_cases ho : o = .global
      · have hname : name ≠ space := by
          rintro rfl
          exact hglobal ho List.mem_cons_self
        rw [Heap.store_name_ne _ _ _ _ hname, Heap.allocate_ne _ hnew]
      · rw [Heap.store_object_ne _ _ _ ho, Heap.allocate_ne _ hnew]
    | declare d =>
      have hlater : (s.obey c (.declare d)).current = o →
          ∀ e ∈ held os, c.boundName e.name ≠ name := fun h e he =>
        hcurrent h e (List.mem_cons_of_mem _ he)
      rw [ih _ (hknown.obey _) hlater htail]
      change (Heap.store _ s.current _ _) o name = _
      by_cases ho : o = s.current
      · have hname := hcurrent ho.symm d List.mem_cons_self
        rw [Heap.store_name_ne _ _ _ _ hname.symm]
      · rw [Heap.store_object_ne _ _ _ ho]

theorem openSpace_stored (s : Scene α) (name : String) :
    (s.openSpace name).heap .global name = some (.object (.made s.next)) := by
  simp [openSpace]

theorem openSpace_empty (s : Scene α) (name p : String) :
    (s.openSpace name).heap (.made s.next) p = none := by
  have hobject : Object.made s.next ≠ .global := Object.noConfusion
  simp [openSpace, Heap.store_object_ne _ _ _ hobject]

theorem last_binding (c : Config) (s : Scene α) (d : Declaration) (after : List Order)
    (hknown : s.Knows s.current)
    (hlast : ∀ e ∈ held after, c.boundName e.name ≠ c.boundName d.name)
    (hkept : s.current = .global → Order.openSpace (c.boundName d.name) ∉ after) :
    ((Order.declare d :: after).foldl (obey c) s).heap s.current (c.boundName d.name) =
      some (.function (c.wrapperSymbol d.name) d.arity) := by
  have hnext : (s.obey c (.declare d)).Knows s.current := hknown.obey _
  rw [List.foldl_cons, foldl_obey_heap c after _ _ _ hnext (fun _ => hlast) hkept]
  exact Heap.store_same _ _ _ _

/-- A namespace opened for the last time holds what is declared after that alone. -/
theorem last_space (c : Config) (s : Scene α) (name : String) (after : List Order)
    (hlast : Order.openSpace name ∉ after) :
    let last := (Order.openSpace name :: after).foldl (obey c) s
    last.heap .global name = some (.object (.made s.next)) ∧
      ∀ p, (∀ e ∈ held after, c.boundName e.name ≠ p) → last.heap (.made s.next) p = none := by
  intro last
  have hcurrent : (s.openSpace name).current ≠ .global := Object.noConfusion
  have hnew : (s.openSpace name).Knows (.made s.next) := Nat.lt_succ_self s.next
  constructor
  · have h := foldl_obey_heap c after (s.openSpace name) .global name trivial
      (fun h => absurd h hcurrent) (fun _ => hlast)
    exact h.trans (openSpace_stored s name)
  · intro p hp
    have h := foldl_obey_heap c after (s.openSpace name) (.made s.next) p hnew
      (fun _ => hp) Object.noConfusion
    exact h.trans (openSpace_empty s name p)

end Engine.Scene

namespace Run
open Engine
variable {α : Type}

/-- The routine of a finished run does to the objects of a script what the accepted
orders mean directly, and leaves the stack as it was. So the last binding of a name
on an object is kept, a namespace holds what was declared since it was opened last,
and the global object and its older objects keep every other property. -/
theorem routine_effect (c : Config) (read : ReadText) (ss : List Source) (b : Bundle)
    (h : ((start.scanAll c read ss).1.finish c).1 = .ok b) (m : Machine α) :
    let os := acceptedOf c read ss
    let direct := fun orders : List Order => orders.foldl (Scene.obey c) m.scene
    (∀ calls, b.routine.statements.flatMap Statement.lines = calls.map Call.text ↔
      calls = b.routine.calls) ∧
    m.run b.routine.calls = some ⟨m.stack, (direct os).heap, (direct os).next⟩ ∧
    (∀ before d after, os = before ++ .declare d :: after →
      (∀ e ∈ held after, c.boundName e.name ≠ c.boundName d.name) →
      ((direct before).current = .global → Order.openSpace (c.boundName d.name) ∉ after) →
      (direct os).heap (direct before).current (c.boundName d.name) =
        some (.function (c.wrapperSymbol d.name) d.arity)) ∧
    (∀ before name after, os = before ++ .openSpace name :: after →
      Order.openSpace name ∉ after →
      ∃ o, (direct os).heap .global name = some (.object o) ∧
        ∀ p, (∀ e ∈ held after, c.boundName e.name ≠ p) → (direct os).heap o p = none) ∧
    (∀ p, (∀ e ∈ held os, c.boundName e.name ≠ p) → Order.openSpace p ∉ os →
      (direct os).heap .global p = m.heap .global p) ∧
    ∀ index, index < m.next → (direct os).heap (.made index) = m.heap (.made index) := by
  intro os direct
  have hsplit : ∀ before after, os = before ++ after →
      direct os = after.foldl (Scene.obey c) (direct before) := by
    intro before after hos
    rw [hos]
    exact List.foldl_append
  refine ⟨b.routine.lines_eq_iff, ?_, ?_, ?_, ?_, ?_⟩
  · rw [finish_registration c read ss b h, Registration.foldl_obey]
    exact (Machine.run_routine m c.initFunction _).trans
      (by rw [← Scene.foldl_obey])
  · intro before d after hos hlast hkept
    rw [hsplit before _ hos]
    exact Scene.last_binding c _ d after (Scene.current_known c before m.scene trivial) hlast hkept
  · intro before name after hos hlast
    rw [hsplit before _ hos]
    exact ⟨_, Scene.last_space c _ name after hlast⟩
  · intro p hheld hopen
    exact Scene.foldl_obey_heap c os m.scene .global p trivial (fun _ => hheld) (fun _ => hopen)
  · intro index hindex
    funext p
    exact Scene.foldl_obey_heap c os m.scene (.made index) p hindex Object.noConfusion
      Object.noConfusion

theorem routine_effect_reopened :
    let c : Config := {}
    let read : ReadText := fun _ => .error .notFound
    let source : Source := .text "a.cpp" ("DFUNC void duk_go();\n// DUKTAPE_NAMESPACE app\n" ++
      "DFUNC void duk_f();\n// DUKTAPE_NAMESPACE app\n")
    let m : Machine Unit := ⟨[], fun _ _ => none, 0⟩
    ∃ b last o, ((start.scanAll c read [source]).1.finish c).1 = .ok b ∧
      m.run b.routine.calls = some last ∧ last.stack = [] ∧
      last.heap .global "go" = some (.function "wrapper_duk_go" 0) ∧
      last.heap .global "app" = some (.object o) ∧ last.heap o "f" = none := by
  intro c read source m
  have hok : (start.scanAll c read [source]).1.aborted = false := by decide +kernel
  have horders : acceptedOf c read [source] = [.declare ⟨.void, "duk_go", []⟩,
      .openSpace "app", .declare ⟨.void, "duk_f", []⟩, .openSpace "app"] := by decide +kernel
  have hb := (finish_eq_ok_iff c _ _).mpr ⟨hok, rfl⟩
  obtain ⟨-, hrun, hbinding, hspace, -⟩ := routine_effect c read [source] _ hb m
  have hgo := hbinding [] ⟨.void, "duk_go", []⟩
    [.openSpace "app", .declare ⟨.void, "duk_f", []⟩, .openSpace "app"] horders
    (by simp [held]) (fun _ => by decide +kernel)
  obtain ⟨o, happ, hempty⟩ := hspace
    [.declare ⟨.void, "duk_go", []⟩, .openSpace "app", .declare ⟨.void, "duk_f", []⟩] "app" []
    horders List.not_mem_nil
  have hname : c.boundName "duk_go" = "go" := by decide +kernel
  have hsymbol : c.wrapperSymbol "duk_go" = "wrapper_duk_go" := by decide +kernel
  rw [hname, hsymbol] at hgo
  exact ⟨_, _, o, hb, hrun, rfl, hgo, happ, hempty "f" (by simp [held])⟩

end Run
end Bindery
