import Bindery.Proofs.SetupSimulation
import Mathlib.Data.List.Induction

/-!
# Stack discipline of setup routines

Relative positions on the engine's stack mean what they should after every
history of operations. No call reaches below the stack that the routine was
given, a new namespace is stored on the global object, and a binding is stored
on the object that its target has at that moment.
-/

set_option autoImplicit false

namespace Bindery

def Call.reach : Call → Nat
  | .putProp depth => max 2 depth
  | .putPropString depth _ => max 1 depth
  | .pop => 1
  | _ => 0

theorem Operation.putPropString_split {op : Operation} {done rest : List Call} {depth : Nat}
    {name : String} (h : op.calls = done ++ .putPropString depth name :: rest) :
    ∃ wrapper arity, op = .bind wrapper name arity ∧ done = [.pushFunction wrapper arity] := by
  cases op with
  | openSpace space =>
    have hmem : Call.putPropString depth name ∈ (Operation.openSpace space).calls := by simp [h]
    simp [calls, Registration.openingSpace, Statement.calls] at hmem
  | bind wrapper bound arity =>
    simp only [calls, Registration.binding, List.flatMap_cons, List.flatMap_nil,
      Statement.calls, List.append_nil, List.singleton_append] at h
    cases done with
    | nil => simp at h
    | cons first done =>
      rw [List.cons_append, List.cons.injEq] at h
      cases done with
      | nil =>
        rw [List.nil_append, List.cons.injEq, Call.putPropString.injEq] at h
        exact ⟨wrapper, arity, by rw [h.2.1.2], by rw [h.1]⟩
      | cons second done => simp at h

theorem Operation.calls_split {ops : List Operation} {done rest : List Call} {k : Call}
    (h : ops.flatMap Operation.calls = done ++ k :: rest) :
    ∃ before op after part tail, ops = before ++ op :: after ∧ op.calls = part ++ k :: tail ∧
      done = before.flatMap Operation.calls ++ part := by
  induction ops generalizing done with
  | nil => simp at h
  | cons op ops ih =>
    rw [List.flatMap_cons] at h
    rcases append_eq_append_cons h with ⟨left, hop, -⟩ | ⟨past, hdone, hops⟩
    · exact ⟨[], op, ops, done, left, rfl, hop, rfl⟩
    · obtain ⟨before, other, after, part, tail, hsplit, hcalls, hpast⟩ := ih hops
      exact ⟨op :: before, other, after, part, tail, by rw [hsplit]; rfl, hcalls, by
        rw [hdone, hpast, List.flatMap_cons, List.append_assoc]⟩

namespace Engine
variable {α : Type}

def Aims (o : Object) (m : Machine α) : Call → Prop
  | .putProp depth => depth = 3 ∧ m.valueAt 3 = some (.object .global)
  | .putPropString depth _ => depth = 2 ∧ m.valueAt 2 = some (.object o)
  | _ => True

def Safe (base : Nat) (o : Object) : List Call → Machine α → Prop
  | [], _ => True
  | k :: ks, m => k.reach + base ≤ m.stack.length ∧ Aims o m k ∧
      ∃ next, m.step k = some next ∧ Safe base o ks next

theorem safe_at {base : Nat} {o : Object} {done rest : List Call} {k : Call} {m : Machine α}
    (h : Safe base o (done ++ k :: rest) m) :
    ∃ s t, m.run done = some s ∧ s.step k = some t ∧
      k.reach + base ≤ s.stack.length ∧ Aims o s k := by
  induction done generalizing m with
  | nil =>
    obtain ⟨hreach, haims, next, hstep, -⟩ := h
    exact ⟨m, next, rfl, hstep, hreach, haims⟩
  | cons first done ih =>
    obtain ⟨-, -, next, hstep, hnext⟩ := h
    obtain ⟨s, t, hrun, hat⟩ := ih hnext
    exact ⟨s, t, by rw [Machine.run, hstep]; exact hrun, hat⟩

theorem operation_safe (s : Scene α) (below : List (Value α)) (op : Operation) :
    Safe below.length s.current op.calls (s.machine below) := by
  cases op with
  | openSpace name =>
    simp [Operation.calls, Registration.openingSpace, Statement.calls, Safe, Aims, Call.reach,
      Scene.machine, Machine.step, Machine.push, Machine.objectAt, Machine.valueAt]
    omega
  | bind wrapper name arity =>
    simp [Operation.calls, Registration.binding, Statement.calls, Safe, Aims, Call.reach,
      Scene.machine, Machine.step, Machine.push, Machine.objectAt, Machine.valueAt]
    omega

def Owner (m : Machine α) (ops : List Operation) : Target → Object → Prop
  | .global, o => o = .global
  | .space name, o => ∃ earlier later s,
      ops = earlier ++ .openSpace name :: later ∧ Operation.openSpace name ∉ later ∧
      m.run (.pushGlobalObject :: (Registration.recorded earlier).calls ++
        [.pop, .pushGlobalObject, .pushString name, .pushObject]) = some s ∧
      s.valueAt 1 = some (.object o)

theorem owner_current (m : Machine α) (ops : List Operation) :
    Owner m ops (Registration.recorded ops).active (ops.foldl Scene.perform m.scene).current := by
  induction ops using List.reverseRecOn with
  | nil => rfl
  | append_singleton ops op ih =>
    rw [Registration.recorded, List.foldl_append, List.foldl_append]
    cases op with
    | openSpace name =>
      refine ⟨ops, [], ?_⟩
      rw [Machine.run_append, Machine.run_recorded]
      exact ⟨_, rfl, List.not_mem_nil, rfl, rfl⟩
    | bind wrapper name arity =>
      -- a binding moves neither the active target nor the last opening of it
      change Owner m _ (Registration.recorded ops).active _
      cases hactive : (Registration.recorded ops).active with
      | global =>
        rw [hactive] at ih
        exact ih
      | space space =>
        rw [hactive] at ih
        obtain ⟨earlier, later, s, hops, hlater, hrun, htop⟩ := ih
        refine ⟨earlier, later ++ [.bind wrapper name arity], s, ?_, ?_, hrun, htop⟩
        · rw [hops, List.append_assoc]
          rfl
        · simpa using hlater

/-- A call of a setup routine is the first push, the last pop, or a call of one
of the operations. -/
theorem routine_calls_split {name : String} {ops : List Operation} {done rest : List Call}
    {k : Call}
    (h : (Routine.enclosing name (Registration.recorded ops).statements).calls =
      done ++ k :: rest) :
    (done = [] ∧ k = .pushGlobalObject) ∨
      (∃ before op after part tail, ops = before ++ op :: after ∧ op.calls = part ++ k :: tail ∧
        done = .pushGlobalObject :: (Registration.recorded before).calls ++ part) ∨
      (done = .pushGlobalObject :: (Registration.recorded ops).calls ∧ k = .pop) := by
  rw [Routine.enclosing_calls] at h
  cases done with
  | nil => exact .inl ⟨rfl, (List.cons.inj h).1.symm⟩
  | cons first done =>
    obtain ⟨rfl, hcalls⟩ := List.cons.inj h
    right
    rcases append_eq_append_cons hcalls with ⟨left, hcalls, -⟩ | ⟨past, hdone, hlast⟩
    · rw [Registration.recorded_calls] at hcalls
      obtain ⟨before, op, after, part, tail, hops, hop, hdone⟩ := Operation.calls_split hcalls
      refine .inl ⟨before, op, after, part, tail, hops, hop, ?_⟩
      rw [hdone, Registration.recorded_calls]
      rfl
    · cases past with
      | nil => exact .inr ⟨by rw [hdone, List.append_nil], (List.cons.inj hlast).1.symm⟩
      | cons next past => simp at hlast

/-- The calls of a setup routine keep the discipline of the stack from every
stack, whatever was recorded. Every call succeeds and reaches no value of the
caller, one value more stands there after every operation, and none at the end.
Namespaces are stored on the global object, and a binding on the owner of the
target that was active when it was recorded. -/
theorem routine_stack_discipline (m : Machine α) (name : String) (ops : List Operation) :
    let routine := Routine.enclosing name (Registration.recorded ops).statements
    (∀ calls, routine.statements.flatMap Statement.lines = calls.map Call.text ↔
      calls = routine.calls) ∧
    (∃ last, m.run routine.calls = some last ∧ last.stack = m.stack) ∧
    (∀ before after, ops = before ++ after → ∃ rest s,
      routine.calls = .pushGlobalObject :: (Registration.recorded before).calls ++ rest ∧
      m.run (.pushGlobalObject :: (Registration.recorded before).calls) = some s ∧
      s.stack.length = m.stack.length + 1) ∧
    ∀ done k rest, routine.calls = done ++ k :: rest → ∃ s t,
      m.run done = some s ∧ s.step k = some t ∧ k.reach + m.stack.length ≤ s.stack.length ∧
      (∀ depth, k = .putProp depth → depth = 3 ∧ s.valueAt 3 = some (.object .global)) ∧
      ∀ depth bound, k = .putPropString depth bound → depth = 2 ∧
        ∃ before wrapper arity after o,
          ops = before ++ .bind wrapper bound arity :: after ∧
          done = .pushGlobalObject :: (Registration.recorded before).calls ++
            [.pushFunction wrapper arity] ∧
          Owner m before (Registration.recorded before).active o ∧
          s.valueAt 2 = some (.object o) := by
  intro routine
  refine ⟨routine.lines_eq_iff, ⟨_, Machine.run_routine m name ops, rfl⟩, ?_, ?_⟩
  · intro before after hops
    refine ⟨after.flatMap Operation.calls ++ [.pop], _, ?_, Machine.run_recorded m before, rfl⟩
    simp only [routine, Routine.enclosing_calls, hops, Registration.recorded_calls,
      List.flatMap_append, List.append_assoc, List.cons_append]
  · intro done k rest hcalls
    rcases routine_calls_split hcalls with ⟨rfl, rfl⟩ |
      ⟨before, op, after, part, tail, hops, hop, rfl⟩ | ⟨rfl, rfl⟩
    · exact ⟨m, _, rfl, rfl, by simp [Call.reach], by simp, by simp⟩
    · have hsafe := operation_safe (before.foldl Scene.perform m.scene) m.stack op
      rw [hop] at hsafe
      obtain ⟨s, t, hrun, hstep, hreach, haims⟩ := safe_at hsafe
      refine ⟨s, t, ?_, hstep, hreach, ?_, ?_⟩
      · rw [Machine.run_append, Machine.run_recorded]
        exact hrun
      · rintro depth rfl
        exact haims
      · rintro depth bound rfl
        obtain ⟨wrapper, arity, rfl, rfl⟩ := Operation.putPropString_split hop
        exact ⟨haims.1, before, wrapper, arity, after, _, hops, rfl, owner_current m before,
          haims.2⟩
    · exact ⟨_, _, Machine.run_recorded m ops, rfl, by simp [Call.reach, Scene.machine]; omega,
        by simp, by simp⟩

theorem routine_stack_discipline_in_space :
    let m : Machine Unit := ⟨[.text "caller"], fun _ _ => none, 0⟩
    ∃ s o, m.run (.pushGlobalObject :: (Registration.recorded [.openSpace "app"]).calls ++
        [.pushFunction "wrapper_go" 0]) = some s ∧
      3 ≤ s.stack.length ∧ s.valueAt 2 = some (.object o) := by
  intro m
  obtain ⟨-, -, -, hcalls⟩ :=
    routine_stack_discipline m "init" [.openSpace "app", .bind "wrapper_go" "go" 0]
  obtain ⟨s, t, hrun, -, hreach, -, hbind⟩ := hcalls
    (.pushGlobalObject :: (Registration.recorded [.openSpace "app"]).calls ++
      [.pushFunction "wrapper_go" 0]) (.putPropString 2 "go") [.pop] rfl
  obtain ⟨-, before, wrapper, arity, after, o, -, -, -, hvalue⟩ := hbind 2 "go" rfl
  exact ⟨s, o, hrun, hreach, hvalue⟩

end Engine
end Bindery
