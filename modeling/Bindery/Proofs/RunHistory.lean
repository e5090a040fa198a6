import Bindery.Proofs.FailedScans

/-!
# The history of a run

Which orders a run has carried out, and at which places, is told from the sources alone: those of
every source that was scanned, up to the failure that ended the run, if there was one. What holds of
a run together with its history is kept by each order that adds to both, and so it holds after any
scans.
-/

set_option autoImplicit false

namespace Bindery

def obeyed (c : Config) : List (Location × Except Fault Order) → List (Location × Order)
  | [] => []
  | (l, .ok o) :: os => (l, o) :: obeyed c os
  | (_, .error _) :: os =>
    match c.onError with
    | .abort => []
    | .skip => obeyed c os

def Source.stops (c : Config) (read : ReadText) (s : Source) : Bool :=
  (match s with
    | .text _ _ => false
    | .file path => !(read path).isOk) ||
  (c.onError == .abort && (s.orders c read).any fun p => !p.2.isOk)

def history (c : Config) : List (ReadText × Source) → List (Location × Order)
  | [] => []
  | (read, s) :: calls =>
    obeyed c (s.orders c read) ++ if s.stops c read then [] else history c calls

theorem Run.carryOut_stops (c : Config) (r : Run) (os : List (Location × Except Fault Order)) :
    (r.carryOut c os).2.isSome = (c.onError == .abort && os.any fun p => !p.2.isOk) := by
  induction os generalizing r with
  | nil => simp [carryOut]
  | cons p os ih =>
    obtain ⟨l, e⟩ := p
    cases e with
    | ok o => rw [carryOut, ih]; rfl
    | error f =>
      rw [carryOut]
      cases hp : c.onError with
      | abort => rfl
      | skip =>
        refine (ih (r.skip l f)).trans ?_
        rw [hp]
        rfl

/-- A run that was not ended before is ended by a source that stops it, and by no other. -/
theorem Run.scan_stops (c : Config) (read : ReadText) (r : Run) (s : Source)
    (h : r.aborted = false) : (r.scan c read s).1.aborted = s.stops c read := by
  have htext : ∀ origin content, (r.scanText c origin content).1.aborted =
      (c.onError == .abort && (ordersOf c origin content).any fun p => !p.2.isOk) := by
    intro origin content
    rw [scanText, h]
    simp only [Bool.false_eq_true, if_false]
    rw [carryOut_aborted, carryOut_stops, note, h, Bool.false_or]
  cases s with
  | text origin content => rw [scan, htext, Source.stops, Source.orders, Bool.false_or]
  | file path =>
    rw [scan, scanFile, h, Source.stops, Source.orders]
    cases hread : read path with
    | error fault => rfl
    | ok content => exact htext path content

structure Run.Progress (c : Config) (P : List (Location × Order) → Run → Prop) : Prop where
  apply : ∀ past r l o, P past r → P (past ++ [(l, o)]) (r.apply c l o)
  skip : ∀ past r l f, P past r → P past (r.skip l f)
  takeUp : ∀ past r s, P past r → P past (r.takeUp s)
  abort : ∀ past r, P past r → P past r.abort

namespace Run.Progress
variable {c : Config} {P : List (Location × Order) → Run → Prop} (kept : Progress c P)
include kept

theorem carryOut {past : List (Location × Order)} {r : Run} (h : P past r)
    (os : List (Location × Except Fault Order)) :
    P (past ++ obeyed c os) (r.carryOut c os).1 := by
  induction os generalizing past r with
  | nil => simpa [obeyed, Run.carryOut] using h
  | cons p os ih =>
    obtain ⟨l, e⟩ := p
    cases e with
    | ok o =>
      have hnext := ih (kept.apply past r l o h)
      rwa [List.append_assoc] at hnext
    | error f =>
      rw [Run.carryOut, obeyed]
      cases c.onError with
      | abort => simpa using kept.abort past r h
      | skip => exact ih (kept.skip past r l f h)

theorem scan {past : List (Location × Order)} {r : Run} (h : P past r) (hr : r.aborted = false)
    (read : ReadText) (s : Source) :
    P (past ++ obeyed c (s.orders c read)) (r.scan c read s).1 := by
  rcases scan_cases c read r s with ⟨ha, -⟩ | ⟨-, hnone, f, hs⟩ | ⟨-, hs⟩
  · rw [hr] at ha
    cases ha
  · rw [hs, hnone]
    simpa [obeyed] using kept.abort past r h
  · rw [hs]
    exact kept.carryOut (kept.takeUp past r s h) _

theorem scanEach {past : List (Location × Order)} {r : Run} (h : P past r)
    (hr : r.aborted = false) (calls : List (ReadText × Source)) :
    P (past ++ history c calls) (r.scanEach c calls).1 := by
  induction calls generalizing past r with
  | nil => simpa [history, Run.scanEach] using h
  | cons call calls ih =>
    obtain ⟨read, s⟩ := call
    have hscan := kept.scan h hr read s
    have hstops := scan_stops c read r s hr
    rw [scanEach_cons, history]
    cases hs : s.stops c read with
    | true =>
      rw [hs] at hstops
      rw [scanEach_stopped c _ calls hstops]
      simpa using hscan
    | false =>
      rw [hs] at hstops
      have hlast := ih hscan hstops
      rwa [List.append_assoc] at hlast

end Run.Progress

/-- A view of a run is told by its history alone. -/
theorem View.progress {c : Config} {α : Type} (v : View c α) (a : α) :
    Run.Progress c fun past r => v.of r = (past.map Prod.snd).foldl v.obey a where
  apply past r l o h := by
    rw [v.of_apply, h, List.map_append, List.foldl_append]
    rfl
  skip _ r l f h := (v.of_skip r l f).trans h
  takeUp _ r s h := (v.of_note r (.scanning s.origin)).trans h
  abort _ r h := (v.of_abort r).trans h

end Bindery
