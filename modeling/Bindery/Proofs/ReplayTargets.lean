import Bindery.Proofs.AcceptedOrders

/-!
# Targets of bindings

Two notions of the active object must agree: the one kept beside the recorded
statements, and the one that a replay of these statements finds on its stack.
Every order keeps them equal, and so the bindings of a finished run lie where
the last namespace directive before them says, whichever source it stood in.
-/

set_option autoImplicit false

namespace Bindery

def Order.space? : Order → Option String
  | .openSpace name => some name
  | .declare _ => none

def Order.declaration? : Order → Option Declaration
  | .openSpace _ => none
  | .declare d => some d

def declared (os : List Order) : List Declaration := os.filterMap Order.declaration?

theorem mem_declared {d : Declaration} {os : List Order} :
    d ∈ declared os ↔ Order.declare d ∈ os := by
  rw [declared, List.mem_filterMap]
  constructor
  · rintro ⟨o, ho, hd⟩
    cases o with
    | openSpace space => cases hd
    | declare e => rwa [← Option.some.inj hd]
  · intro h
    exact ⟨_, h, rfl⟩

def targetAfter (start : Target) (os : List Order) : Target :=
  (os.filterMap Order.space?).getLast?.elim start .space

def landings (c : Config) : Target → List Order → List (Target × String)
  | _, [] => []
  | _, .openSpace name :: os => landings c (.space name) os
  | t, .declare d :: os => (t, c.boundName d.name) :: landings c t os

theorem targetAfter_openSpace (start : Target) (name : String) (os : List Order) :
    targetAfter start (.openSpace name :: os) = targetAfter (.space name) os := by
  simp only [targetAfter, List.filterMap_cons, Order.space?, List.getLast?_cons]
  cases (os.filterMap Order.space?).getLast? <;> rfl

theorem landings_length (c : Config) (t : Target) (os : List Order) :
    (landings c t os).length = (declared os).length := by
  induction os generalizing t with
  | nil => rfl
  | cons o os ih =>
    cases o with
    | openSpace name => exact ih _
    | declare d => exact congrArg (· + 1) (ih t)

theorem landings_at (c : Config) (t : Target) (before after : List Order) (d : Declaration) :
    (landings c t (before ++ .declare d :: after))[(declared before).length]? =
      some (targetAfter t before, c.boundName d.name) := by
  induction before generalizing t with
  | nil => rfl
  | cons o before ih =>
    cases o with
    | openSpace name =>
      rw [targetAfter_openSpace]
      exact ih (.space name)
    | declare e => exact ih t

namespace Registration

def obey (c : Config) (r : Registration) : Order → Registration
  | .openSpace name => r.openSpace name
  | .declare d => r.addWrapper (Wrapper.ofDeclaration c d)

def Settled (r : Registration) : Prop :=
  Replay.run (.activateGlobal :: r.statements) [] = [r.active]

theorem empty_settled : empty.Settled := rfl

theorem obey_settled (c : Config) (r : Registration) (o : Order) (h : r.Settled) :
    (r.obey c o).Settled := by
  have hrun : ∀ ss, Replay.run (.activateGlobal :: (r.statements ++ ss)) [] =
      Replay.run ss [r.active] := by
    intro ss
    rw [← List.cons_append, Replay.run_append, h]
  -- an opening empties the stack and fills it again; a binding does not move it
  cases o with
  | openSpace name => exact hrun _
  | declare d => exact hrun _

theorem foldl_obey_bindings (c : Config) (os : List Order) (r : Registration) (h : r.Settled) :
    Replay.bindings (.activateGlobal :: (os.foldl (obey c) r).statements) [] =
      Replay.bindings (.activateGlobal :: r.statements) [] ++ landings c r.active os := by
  induction os generalizing r with
  | nil => simp [landings]
  | cons o os ih =>
    have hadd : ∀ ss, Replay.bindings (.activateGlobal :: (r.statements ++ ss)) [] =
        Replay.bindings (.activateGlobal :: r.statements) [] ++ Replay.bindings ss [r.active] := by
      intro ss
      rw [← List.cons_append, Replay.bindings_append, h]
    rw [List.foldl_cons, ih _ (obey_settled c r o h)]
    cases o with
    | openSpace name =>
      have hb := hadd (openingSpace name)
      simp only [openingSpace, Replay.bindings, List.append_nil] at hb
      exact congrArg (· ++ _) hb
    | declare d =>
      have hb := hadd (binding (Wrapper.ofDeclaration c d).symbol (c.boundName d.name)
        (Wrapper.ofDeclaration c d).arity)
      refine (congrArg (· ++ _) hb).trans ?_
      simp [binding, Replay.bindings, Replay.step, Replay.current, landings, obey, addWrapper, bind]

theorem enclosing_bindings (name : String) (r : Registration) :
    (Routine.enclosing name r.statements).bindings =
      Replay.bindings (.activateGlobal :: r.statements) [] := by
  rw [Routine.bindings, Routine.enclosing, Replay.bindings_append]
  simp [Replay.bindings]

end Registration

def View.registration (c : Config) : View c Registration where
  of := Run.registration
  obey := Registration.obey c
  of_apply r l o := by
    cases o with
    | openSpace name => rfl
    | declare d =>
      simp only [Run.apply, Run.declare, Run.addWrapper, Run.see, Registration.obey]
      split <;> rfl
  of_skip _ _ _ := rfl
  of_note _ _ := rfl
  of_abort _ := rfl

namespace Run

theorem finish_registration (c : Config) (read : ReadText) (ss : List Source) (b : Bundle)
    (h : ((start.scanAll c read ss).1.finish c).1 = .ok b) :
    b.routine = .enclosing c.initFunction
      ((acceptedOf c read ss).foldl (Registration.obey c) .empty).statements := by
  obtain ⟨ha, hb⟩ := (finish_eq_ok_iff c _ b).mp h
  have hr := (View.registration c).of_scanAll read start ss ha
  rw [← hb]
  exact congrArg (fun r => Routine.enclosing c.initFunction r.statements) hr

theorem finish_bindings (c : Config) (read : ReadText) (ss : List Source) (b : Bundle)
    (h : ((start.scanAll c read ss).1.finish c).1 = .ok b) :
    b.bindings = landings c .global (acceptedOf c read ss) := by
  rw [Bundle.bindings, finish_registration c read ss b h, Registration.enclosing_bindings,
    Registration.foldl_obey_bindings c _ _ Registration.empty_settled]
  rfl

theorem settled_at (c : Config) (read : ReadText) (ss : List Source) (s : Source)
    (os : List (Location × Except Fault Order)) :
    (((start.scanAll c read ss).1.takeUp s).carryOut c os).1.registration.Settled := by
  have kept := (View.registration c).invariant (Registration.obey_settled c)
  have hbefore := kept.scanAll read start Registration.empty_settled ss
  exact kept.carryOut _ (kept.note _ (.scanning s.origin) hbefore) os

theorem rejected_registration (c : Config) (r : Run) (l : Location) (f : Fault)
    (os : List (Location × Except Fault Order)) :
    (r.carryOut c (os ++ [(l, .error f)])).1.registration = (r.carryOut c os).1.registration := by
  rw [carryOut_append]
  split
  · next next hnext =>
    rw [hnext, carryOut]
    cases c.onError <;> rfl
  · rfl

/-- The bindings of a finished run, one for each accepted declaration, lie on the
object of the last namespace accepted before it. At every directive the replay
holds the active object alone, and a rejected one does not move it. -/
theorem bindings_follow_orders (c : Config) (read : ReadText) (ss : List Source) :
    (∀ b, ((start.scanAll c read ss).1.finish c).1 = .ok b →
      b.bindings.length = (declared (acceptedOf c read ss)).length ∧
        ∀ before d after, acceptedOf c read ss = before ++ .declare d :: after →
          b.bindings[(declared before).length]? =
            some (targetAfter .global before, c.boundName d.name)) ∧
    ∀ before s after os rest, ss = before ++ s :: after → s.orders c read = os ++ rest →
      let r := (((start.scanAll c read before).1.takeUp s).carryOut c os).1
      Replay.run (.activateGlobal :: r.registration.statements) [] = [r.registration.active] ∧
        ∀ l f later, rest = (l, .error f) :: later →
          (((start.scanAll c read before).1.takeUp s).carryOut c
            (os ++ [(l, .error f)])).1.registration = r.registration := by
  constructor
  · intro b hb
    have hroutine := finish_registration c read ss b hb
    have hbindings : b.bindings = landings c .global (acceptedOf c read ss) := by
      rw [Bundle.bindings, hroutine, Registration.enclosing_bindings,
        Registration.foldl_obey_bindings c _ _ Registration.empty_settled]
      rfl
    rw [hbindings]
    refine ⟨landings_length c .global _, ?_⟩
    intro before d after hsplit
    rw [hsplit]
    exact landings_at c .global before after d
  · intro before s after os rest _ _
    refine ⟨settled_at c read before s os, ?_⟩
    intro l f later _
    exact rejected_registration c _ l f os

theorem bindings_follow_orders_across_sources :
    let c : Config := { onError := .skip }
    let read : ReadText := fun _ => .error .notFound
    let first : Source := .text "a.cpp" "// DUKTAPE_NAMESPACE app\n// DUKTAPE_NAMESPACE 7\n"
    let second : Source := .text "b.cpp" "DFUNC void duk_go();\n"
    (∃ b, ((start.scanAll c read [first, second]).1.finish c).1 = .ok b ∧
      b.bindings.length = 1 ∧ b.bindings[0]? = some (.space "app", "go")) ∧
    let r := ((start.takeUp first).carryOut c ((first.orders c read).take 1)).1
    Replay.run (.activateGlobal :: r.registration.statements) [] = [.space "app"] := by
  intro c read first second
  obtain ⟨hbind, hreplay⟩ := bindings_follow_orders c read [first, second]
  have hok : (start.scanAll c read [first, second]).1.aborted = false := by decide +kernel
  have horders : acceptedOf c read [first, second] =
      [.openSpace "app"] ++ .declare ⟨.void, "duk_go", []⟩ :: [] := by decide +kernel
  have hname : c.boundName "duk_go" = "go" := by decide +kernel
  constructor
  · have hb := (finish_eq_ok_iff c _ _).mpr ⟨hok, rfl⟩
    obtain ⟨hlength, hat⟩ := hbind _ hb
    have h := hat _ _ _ horders
    rw [horders] at hlength
    rw [hname] at h
    exact ⟨_, hb, hlength, h⟩
  · have hsplit := List.take_append_drop 1 (first.orders c read)
    have hactive : (((start.takeUp first).carryOut c
        ((first.orders c read).take 1)).1).registration.active = .space "app" := by decide +kernel
    have h := (hreplay [] first [second] _ _ rfl hsplit.symm).1
    exact h.trans (congrArg (· :: []) hactive)

end Run
end Bindery
