import Bindery.Run

/-!
# Orders carried out by a run

What a run has gathered when it can be finished is decided by the orders of
the directives that could be read, taken source after source and line after
line. A view is a part of the run that orders alone change: it is followed
through one order, one source and a whole run once and for all.
-/

set_option autoImplicit false

namespace Bindery

def accepted : List (Location × Except Fault Order) → List Order
  | [] => []
  | (_, .ok o) :: rest => o :: accepted rest
  | (_, .error _) :: rest => accepted rest

theorem mem_accepted {o : Order} {os : List (Location × Except Fault Order)} :
    o ∈ accepted os ↔ ∃ l, (l, .ok o) ∈ os := by
  induction os with
  | nil => simp [accepted]
  | cons p os ih =>
    obtain ⟨l, e⟩ := p
    cases e with
    | ok first => simp [accepted, ih, exists_or]
    | error f => simp [accepted, ih]

def Source.origin : Source → String
  | .text origin _ => origin
  | .file path => path

def Source.orders (c : Config) (read : ReadText) : Source → List (Location × Except Fault Order)
  | .text origin content => ordersOf c origin content
  | .file path =>
    match read path with
    | .ok content => ordersOf c path content
    | .error _ => []

def acceptedOf (c : Config) (read : ReadText) (ss : List Source) : List Order :=
  ss.flatMap fun s => accepted (s.orders c read)

theorem acceptedOf_cons (c : Config) (read : ReadText) (s : Source) (ss : List Source) :
    acceptedOf c read (s :: ss) = accepted (s.orders c read) ++ acceptedOf c read ss := rfl

theorem acceptedOf_read {c : Config} {read : ReadText} {ss : List Source} {o : Order}
    (h : o ∈ acceptedOf c read ss) : ∃ d : Directive, d.order = .ok o := by
  have htext : ∀ origin content, o ∈ accepted (ordersOf c origin content) →
      ∃ d : Directive, d.order = .ok o := by
    intro origin content ho
    obtain ⟨l, hl⟩ := mem_accepted.mp ho
    obtain ⟨p, -, hp⟩ := List.mem_map.mp hl
    exact ⟨p.2, (Prod.mk.inj hp).2⟩
  obtain ⟨s, -, hs⟩ := List.mem_flatMap.mp h
  cases s with
  | text origin content => exact htext origin content hs
  | file path =>
    rw [Source.orders] at hs
    split at hs
    · exact htext path _ hs
    · cases hs

def Run.takeUp (r : Run) (s : Source) : Run := r.note (.scanning s.origin)

/-- A part of a run that changes with the orders that are carried out, and with
nothing else. -/
structure View (c : Config) (α : Type) where
  of : Run → α
  obey : α → Order → α
  of_apply : ∀ r l o, of (r.apply c l o) = obey (of r) o
  of_skip : ∀ r l f, of (r.skip l f) = of r
  of_note : ∀ r e, of (r.note e) = of r
  of_abort : ∀ r, of r.abort = of r

namespace Run

theorem carryOut_append (c : Config) (r : Run) (os rest : List (Location × Except Fault Order)) :
    r.carryOut c (os ++ rest) =
      match r.carryOut c os with
      | (next, none) => next.carryOut c rest
      | stopped => stopped := by
  induction os generalizing r with
  | nil => rfl
  | cons p os ih =>
    obtain ⟨l, e⟩ := p
    cases e with
    | ok o => exact ih _
    | error f =>
      rw [List.cons_append, carryOut, carryOut]
      cases c.onError with
      | abort => rfl
      | skip => exact ih _

theorem apply_aborted (c : Config) (r : Run) (l : Location) (o : Order) :
    (r.apply c l o).aborted = r.aborted := by
  cases o with
  | openSpace name => rfl
  | declare d =>
    simp only [apply, declare, addWrapper, see]
    split <;> rfl

theorem carryOut_aborted (c : Config) (r : Run) (os : List (Location × Except Fault Order)) :
    (r.carryOut c os).1.aborted = (r.aborted || (r.carryOut c os).2.isSome) := by
  induction os generalizing r with
  | nil => simp [carryOut]
  | cons p os ih =>
    obtain ⟨l, e⟩ := p
    cases e with
    | ok o => rw [carryOut, ih, apply_aborted]
    | error f =>
      rw [carryOut]
      cases c.onError with
      | abort => simp [abort]
      | skip => exact ih _

theorem scan_stopped (c : Config) (read : ReadText) (r : Run) (s : Source)
    (h : r.aborted = true) : r.scan c read s = (r, some .aborted) := by
  cases s <;> simp [scan, scanText, scanFile, h]

/-- A source is scanned by carrying out its orders, unless the run has stopped
or stops on a file that cannot be read. -/
theorem scan_cases (c : Config) (read : ReadText) (r : Run) (s : Source) :
    (r.aborted = true ∧ r.scan c read s = (r, some .aborted)) ∨
      (r.aborted = false ∧ s.orders c read = [] ∧ ∃ f, r.scan c read s = (r.abort, some f)) ∨
      (r.aborted = false ∧ r.scan c read s = (r.takeUp s).carryOut c (s.orders c read)) := by
  cases ha : r.aborted with
  | true => exact .inl ⟨rfl, scan_stopped c read r s ha⟩
  | false =>
    cases s with
    | text origin content =>
      exact .inr (.inr ⟨rfl, by simp [scan, scanText, ha, Source.orders, takeUp, Source.origin]⟩)
    | file path =>
      cases hr : read path with
      | error fault =>
        exact .inr (.inl ⟨rfl, by simp [Source.orders, hr], .ofRead path fault,
          by simp [scan, scanFile, ha, hr]⟩)
      | ok content =>
        exact .inr (.inr ⟨rfl, by
          simp [scan, scanFile, scanText, ha, hr, Source.orders, takeUp, Source.origin]⟩)

theorem scanAll_cons (c : Config) (read : ReadText) (r : Run) (s : Source) (ss : List Source) :
    (r.scanAll c read (s :: ss)).1 = ((r.scan c read s).1.scanAll c read ss).1 := rfl

theorem scanAll_stopped (c : Config) (read : ReadText) (r : Run) (ss : List Source)
    (h : r.aborted = true) : (r.scanAll c read ss).1 = r := by
  induction ss with
  | nil => rfl
  | cons s ss ih => rw [scanAll_cons, scan_stopped c read r s h, ih]

theorem scan_running (c : Config) (read : ReadText) (r : Run) (s : Source)
    (h : (r.scan c read s).1.aborted = false) :
    r.scan c read s = (r.takeUp s).carryOut c (s.orders c read) ∧
      ((r.takeUp s).carryOut c (s.orders c read)).2 = none := by
  rcases scan_cases c read r s with ⟨hr, hs⟩ | ⟨-, -, f, hs⟩ | ⟨hr, hs⟩
  · simp [hs, hr] at h
  · simp [hs, abort] at h
  · rw [hs, carryOut_aborted, Bool.or_eq_false_iff] at h
    exact ⟨hs, by simpa using h.2⟩

theorem finish_eq_ok_iff (c : Config) (r : Run) (b : Bundle) :
    (r.finish c).1 = .ok b ↔ r.aborted = false ∧ r.bundle c = b := by
  cases h : r.aborted <;> simp [finish, h]

end Run

structure Run.Invariant (c : Config) (P : Run → Prop) : Prop where
  apply : ∀ r l o, P r → P (r.apply c l o)
  skip : ∀ r l f, P r → P (r.skip l f)
  note : ∀ r e, P r → P (r.note e)
  abort : ∀ r, P r → P r.abort

namespace Run.Invariant
variable {c : Config} {P : Run → Prop} (inv : Invariant c P)
include inv

theorem carryOut (r : Run) (h : P r) (os : List (Location × Except Fault Order)) :
    P (r.carryOut c os).1 := by
  induction os generalizing r with
  | nil => exact h
  | cons p os ih =>
    obtain ⟨l, e⟩ := p
    cases e with
    | ok o => exact ih _ (inv.apply r l o h)
    | error f =>
      rw [Run.carryOut]
      cases c.onError with
      | abort => exact inv.abort r h
      | skip => exact ih _ (inv.skip r l f h)

theorem scanAll (read : ReadText) (r : Run) (h : P r) (ss : List Source) :
    P (r.scanAll c read ss).1 := by
  induction ss generalizing r with
  | nil => exact h
  | cons s ss ih =>
    rw [Run.scanAll_cons]
    apply ih
    rcases Run.scan_cases c read r s with ⟨-, hs⟩ | ⟨-, -, f, hs⟩ | ⟨-, hs⟩
    · rw [hs]
      exact h
    · rw [hs]
      exact inv.abort r h
    · rw [hs]
      exact inv.carryOut _ (inv.note r _ h) _

end Run.Invariant

namespace View
variable {c : Config} {α : Type} (v : View c α)

theorem of_carryOut (r : Run) (os : List (Location × Except Fault Order))
    (h : (r.carryOut c os).2 = none) :
    v.of (r.carryOut c os).1 = (accepted os).foldl v.obey (v.of r) := by
  induction os generalizing r with
  | nil => rfl
  | cons p os ih =>
    obtain ⟨l, e⟩ := p
    cases e with
    | ok o =>
      rw [Run.carryOut] at h ⊢
      rw [ih _ h, v.of_apply]
      rfl
    | error f =>
      rw [Run.carryOut] at h ⊢
      cases hp : c.onError with
      | abort => simp [hp] at h
      | skip =>
        simp only [hp] at h ⊢
        rw [ih _ h, v.of_skip]
        rfl

/-- A run that is not aborted has obeyed the accepted orders of its sources. -/
theorem of_scanAll (read : ReadText) (r : Run) (ss : List Source)
    (h : (r.scanAll c read ss).1.aborted = false) :
    v.of (r.scanAll c read ss).1 = (acceptedOf c read ss).foldl v.obey (v.of r) := by
  induction ss generalizing r with
  | nil => rfl
  | cons s ss ih =>
    rw [Run.scanAll_cons] at h ⊢
    have hs : (r.scan c read s).1.aborted = false := by
      cases hs : (r.scan c read s).1.aborted with
      | false => rfl
      | true => rw [Run.scanAll_stopped c read _ ss hs, hs] at h; exact h
    obtain ⟨hscan, hnone⟩ := Run.scan_running c read r s hs
    rw [ih _ h, hscan, v.of_carryOut _ _ hnone, Run.takeUp, v.of_note, acceptedOf_cons,
      List.foldl_append]

/-- What every order preserves is kept by a run wherever it stops. -/
theorem invariant {P : α → Prop} (hstep : ∀ a o, P a → P (v.obey a o)) :
    Run.Invariant c fun r => P (v.of r) where
  apply r l o h := by
    rw [v.of_apply]
    exact hstep _ o h
  skip r l f h := by rwa [v.of_skip]
  note r e h := by rwa [v.of_note]
  abort r h := by rwa [v.of_abort]

end View
end Bindery
