import Bindery.Proofs.AcceptedOrders

/-!
# Failed scans

The first scan that fails says why, and it ends the run: every later scan is
turned away and changes nothing, and there is no bundle. The disk may change
from one scan to the next. A run over files that stops at the first failure
answers with that failure, whatever stands behind it.
-/

set_option autoImplicit false

namespace Bindery
namespace Run

def scanEach (c : Config) (r : Run) : List (ReadText × Source) → Run × List (Option Failure)
  | [] => (r, [])
  | (read, s) :: calls =>
    let (next, failure) := r.scan c read s
    let (last, failures) := next.scanEach c calls
    (last, failure :: failures)

theorem scanEach_cons (c : Config) (r : Run) (call : ReadText × Source)
    (calls : List (ReadText × Source)) :
    let next := r.scan c call.1 call.2
    r.scanEach c (call :: calls) =
      ((next.1.scanEach c calls).1, next.2 :: (next.1.scanEach c calls).2) := rfl

theorem scanAll_step (c : Config) (read : ReadText) (r : Run) (s : Source) (ss : List Source) :
    let next := r.scan c read s
    r.scanAll c read (s :: ss) =
      ((next.1.scanAll c read ss).1, next.2 :: (next.1.scanAll c read ss).2) := rfl

theorem scanAll_eq_scanEach (c : Config) (read : ReadText) (r : Run) (ss : List Source) :
    r.scanAll c read ss = r.scanEach c (ss.map fun s => (read, s)) := by
  induction ss generalizing r with
  | nil => rfl
  | cons s ss ih =>
    rw [List.map_cons, scanEach_cons, scanAll_step, ih]

theorem scanEach_append (c : Config) (r : Run) (calls rest : List (ReadText × Source)) :
    let done := r.scanEach c calls
    r.scanEach c (calls ++ rest) =
      ((done.1.scanEach c rest).1, done.2 ++ (done.1.scanEach c rest).2) := by
  induction calls generalizing r with
  | nil => rfl
  | cons call calls ih =>
    have hnext := ih (r.scan c call.1 call.2).1
    simp only [List.cons_append, scanEach_cons] at hnext ⊢
    rw [hnext]

theorem scanAll_append (c : Config) (read : ReadText) (r : Run) (ss rest : List Source) :
    let done := r.scanAll c read ss
    r.scanAll c read (ss ++ rest) =
      ((done.1.scanAll c read rest).1, done.2 ++ (done.1.scanAll c read rest).2) := by
  simp only [scanAll_eq_scanEach, List.map_append]
  exact scanEach_append c r _ _

theorem carryOut_ne_aborted (c : Config) (r : Run) (os : List (Location × Except Fault Order)) :
    (r.carryOut c os).2 ≠ some .aborted := by
  induction os generalizing r with
  | nil => simp [carryOut]
  | cons p os ih =>
    obtain ⟨l, e⟩ := p
    cases e with
    | ok o => exact ih _
    | error f =>
      rw [carryOut]
      cases c.onError with
      | abort => simp
      | skip => exact ih _

/-- A run that has not failed before names a cause of its own. -/
theorem scan_ne_aborted (c : Config) (read : ReadText) (r : Run) (s : Source)
    (h : r.aborted = false) : (r.scan c read s).2 ≠ some .aborted := by
  have htext : ∀ origin content, (r.scanText c origin content).2 ≠ some .aborted := by
    intro origin content
    rw [scanText, h]
    exact carryOut_ne_aborted c _ _
  cases s with
  | text origin content => exact htext origin content
  | file path =>
    rw [scan, scanFile, h]
    cases read path with
    | error fault => cases fault <;> simp [Failure.ofRead]
    | ok content => exact htext path content

/-- A run is aborted from its first failure on. -/
theorem scan_aborted (c : Config) (read : ReadText) (r : Run) (s : Source)
    (h : r.aborted = false) :
    (r.scan c read s).1.aborted = (r.scan c read s).2.isSome := by
  rcases scan_cases c read r s with ⟨hr, -⟩ | ⟨-, -, f, hs⟩ | ⟨-, hs⟩
  · simp [h] at hr
  · simp [hs, abort]
  · rw [hs, carryOut_aborted, takeUp, note, h, Bool.false_or]

theorem scanEach_stopped (c : Config) (r : Run) (calls : List (ReadText × Source))
    (h : r.aborted = true) :
    r.scanEach c calls = (r, calls.map fun _ => some .aborted) := by
  induction calls with
  | nil => rfl
  | cons call calls ih => rw [scanEach_cons, scan_stopped c call.1 r call.2 h, ih, List.map_cons]

/-- Either every scan succeeds, or one fails after scans that all succeed, and
from then on nothing changes. -/
theorem scanEach_cases (c : Config) (r : Run) (calls : List (ReadText × Source))
    (h : r.aborted = false) :
    ((r.scanEach c calls).1.aborted = false ∧ (r.scanEach c calls).2 = calls.map fun _ => none) ∨
      ∃ before call after f, calls = before ++ call :: after ∧ f ≠ .aborted ∧
        (r.scanEach c (before ++ [call])).1.aborted = true ∧
        (r.scanEach c (before ++ [call])).2 = before.map (fun _ => none) ++ [some f] := by
  induction calls generalizing r with
  | nil => exact .inl ⟨h, rfl⟩
  | cons call calls ih =>
    have haborted := scan_aborted c call.1 r call.2 h
    cases hs : (r.scan c call.1 call.2).2 with
    | some f =>
      rw [hs] at haborted
      refine .inr ⟨[], call, calls, f, rfl, ?_, haborted, ?_⟩
      · rintro rfl
        exact scan_ne_aborted c call.1 r call.2 h hs
      · exact congrArg (· :: []) hs
    | none =>
      rw [hs] at haborted
      rcases ih _ haborted with
        ⟨hlast, hresults⟩ | ⟨before, failed, after, f, hcalls, hf, hlast, hresults⟩
      · left
        rw [scanEach_cons, hresults, hs]
        exact ⟨hlast, rfl⟩
      · right
        refine ⟨call :: before, failed, after, f, by rw [hcalls]; rfl, hf, ?_, ?_⟩
        · rw [List.cons_append, scanEach_cons]
          exact hlast
        · rw [List.cons_append, scanEach_cons, hresults, hs]
          rfl

theorem scanEach_failed (c : Config) (r : Run) (before : List (ReadText × Source))
    (call : ReadText × Source) (later : List (ReadText × Source))
    (h : (r.scanEach c (before ++ [call])).1.aborted = true) :
    r.scanEach c (before ++ call :: later) = ((r.scanEach c (before ++ [call])).1,
      (r.scanEach c (before ++ [call])).2 ++ later.map fun _ => some .aborted) := by
  rw [← List.singleton_append, ← List.append_assoc, scanEach_append]
  simp only [scanEach_stopped c _ later h]

theorem finish_of_aborted (c : Config) (r : Run) (h : r.aborted = true) :
    (r.finish c).1 = .error .aborted := by
  simp [finish, h]

theorem finish_of_running (c : Config) (r : Run) (h : r.aborted = false) :
    (r.finish c).1 = .ok (r.bundle c) := by
  simp [finish, h]

def FailsFirst (c : Config) (read : ReadText) (r : Run) (before : List String) (path : String)
    (f : Failure) : Prop :=
  (∀ result ∈ (r.scanAll c read (before.map .file)).2, result = none) ∧
    ((r.scanAll c read (before.map .file)).1.scanFile c read path).2 = some f

theorem scanFiles_cons (c : Config) (read : ReadText) (r : Run) (path : String)
    (paths : List String) :
    r.scanFiles c read (path :: paths) =
      match (r.scanFile c read path).2 with
      | some f => .error f
      | none => (r.scanFile c read path).1.scanFiles c read paths := by
  rw [scanFiles]
  split <;> simp_all

/-- A run over files that ends is the run that takes every file in turn. -/
theorem scanFiles_scanAll {c : Config} {read : ReadText} {r last : Run} {paths : List String}
    (h : r.scanFiles c read paths = .ok last) : (r.scanAll c read (paths.map .file)).1 = last := by
  induction paths generalizing r with
  | nil =>
    cases h
    rfl
  | cons path paths ih =>
    rw [scanFiles_cons] at h
    rw [List.map_cons, scanAll_cons]
    cases hs : (r.scanFile c read path).2 with
    | some f => simp [hs] at h
    | none =>
      rw [hs] at h
      exact ih h

theorem failsFirst_cons (c : Config) (read : ReadText) (r : Run) (first : String)
    (before : List String) (path : String) (f : Failure) :
    FailsFirst c read r (first :: before) path f ↔ (r.scanFile c read first).2 = none ∧
      FailsFirst c read (r.scanFile c read first).1 before path f := by
  rw [FailsFirst, List.map_cons, scanAll_step, List.forall_mem_cons, and_assoc]
  rfl

theorem scanFiles_eq_error_iff (c : Config) (read : ReadText) (r : Run) (paths : List String)
    (f : Failure) :
    r.scanFiles c read paths = .error f ↔
      ∃ before path after, paths = before ++ path :: after ∧ FailsFirst c read r before path f := by
  induction paths generalizing r with
  | nil => simp [scanFiles]
  | cons first paths ih =>
    rw [scanFiles_cons]
    cases hs : (r.scanFile c read first).2 with
    | some g =>
      constructor
      · intro h
        obtain rfl : g = f := by simpa using h
        exact ⟨[], first, paths, rfl, by simp [scanAll], hs⟩
      · rintro ⟨before, path, after, hpaths, hfails⟩
        cases before with
        | nil =>
          obtain ⟨rfl, -⟩ := List.cons.inj hpaths
          have hf : (r.scanFile c read first).2 = some f := hfails.2
          rw [hs] at hf
          rw [Option.some.inj hf]
        | cons second before =>
          obtain ⟨rfl, -⟩ := List.cons.inj hpaths
          rw [failsFirst_cons, hs] at hfails
          cases hfails.1
    | none =>
      refine (ih _).trans ?_
      constructor
      · rintro ⟨before, path, after, hpaths, hfails⟩
        exact ⟨first :: before, path, after, by rw [hpaths]; rfl,
          (failsFirst_cons c read r first before path f).mpr ⟨hs, hfails⟩⟩
      · rintro ⟨before, path, after, hpaths, hfails⟩
        cases before with
        | nil =>
          obtain ⟨rfl, -⟩ := List.cons.inj hpaths
          have hf : (r.scanFile c read first).2 = some f := hfails.2
          rw [hs] at hf
          cases hf
        | cons second before =>
          obtain ⟨rfl, hrest⟩ := List.cons.inj hpaths
          exact ⟨before, path, after, hrest,
            ((failsFirst_cons c read r first before path f).mp hfails).2⟩

theorem scanFiles_running (c : Config) (read : ReadText) (r last : Run) (paths : List String)
    (h : r.aborted = false) (hok : r.scanFiles c read paths = .ok last) : last.aborted = false := by
  induction paths generalizing r with
  | nil =>
    obtain rfl : r = last := by simpa [scanFiles] using hok
    exact h
  | cons path paths ih =>
    have haborted := scan_aborted c read r (.file path) h
    rw [scanFiles_cons] at hok
    cases hs : (r.scanFile c read path).2 with
    | some f => simp [hs] at hok
    | none =>
      rw [hs] at hok
      rw [scan, hs] at haborted
      exact ih _ haborted hok

theorem scanAll_congr (c : Config) (read disk : ReadText) (r : Run) (paths : List String)
    (h : ∀ p ∈ paths, disk p = read p) :
    r.scanAll c disk (paths.map .file) = r.scanAll c read (paths.map .file) := by
  induction paths generalizing r with
  | nil => rfl
  | cons path paths ih =>
    obtain ⟨hpath, hpaths⟩ := List.forall_mem_cons.mp h
    have hscan : r.scan c disk (.file path) = r.scan c read (.file path) := by
      rw [scan, scan, scanFile, scanFile, hpath]
    rw [List.map_cons, scanAll_step, scanAll_step, hscan, ih _ hpaths]

end Run

theorem generate_eq_error_iff (c : Config) (read : ReadText) (paths : List String) (f : Failure) :
    generate c read paths = .error f ↔ Run.start.scanFiles c read paths = .error f := by
  cases hs : Run.start.scanFiles c read paths with
  | error g => simp [generate, hs, bind, Except.bind]
  | ok last =>
    have hlast := Run.scanFiles_running c read Run.start last paths rfl hs
    have hfinish := Run.finish_of_running c last hlast
    simp [generate, hs, hfinish, bind, Except.bind]

namespace Run

theorem failsFirst_congr (c : Config) (read disk : ReadText) (r : Run) (before : List String)
    (path : String) (f : Failure) (h : ∀ p ∈ before ++ [path], disk p = read p)
    (hfails : FailsFirst c read r before path f) : FailsFirst c disk r before path f := by
  have hbefore : ∀ p ∈ before, disk p = read p := fun p hp => h p (List.mem_append_left _ hp)
  have hpath : disk path = read path := h path (by simp)
  rw [FailsFirst, scanAll_congr c read disk r before hbefore]
  refine ⟨hfails.1, ?_⟩
  rw [scanFile, hpath]
  exact hfails.2

theorem carryOut_skip (c : Config) (r : Run) (os : List (Location × Except Fault Order))
    (hskip : c.onError = .skip) : (r.carryOut c os).2 = none := by
  induction os generalizing r with
  | nil => rfl
  | cons p os ih =>
    obtain ⟨l, e⟩ := p
    cases e with
    | ok o => exact ih _
    | error f =>
      rw [carryOut, hskip]
      exact ih _

theorem scan_text (c : Config) (read : ReadText) (r : Run) (origin content : String)
    (h : r.aborted = false) :
    r.scan c read (.text origin content) =
      (r.takeUp (.text origin content)).carryOut c (ordersOf c origin content) := by
  rw [scan, scanText, h]
  rfl

/-- Every scan of a run succeeds, or one of them is the first to fail. -/
theorem scanEach_results (c : Config) (calls : List (ReadText × Source)) :
    let done := start.scanEach c calls
    (done.1.aborted = false ∧ done.2 = calls.map fun _ => none) ∨
      done.1.aborted = true ∧ ∃ before call after f, calls = before ++ call :: after ∧ f ≠ .aborted ∧
        done.2 = before.map (fun _ => none) ++ some f :: after.map (fun _ => some .aborted) ∧
        ∀ n, before.length < n → (start.scanEach c (calls.take n)).1 = done.1 := by
  intro done
  rcases scanEach_cases c start calls rfl with h | ⟨before, call, after, f, rfl, hf, hlast, hresults⟩
  · exact .inl h
  · right
    have hfailed := fun later => scanEach_failed c start before call later hlast
    have hdone : done = _ := hfailed after
    refine ⟨by rw [hdone]; exact hlast, before, call, after, f, rfl, hf, ?_, ?_⟩
    · rw [hdone, hresults, List.append_assoc]
      rfl
    · intro n hn
      obtain ⟨k, rfl⟩ := Nat.exists_eq_add_of_lt hn
      rw [hdone, Nat.add_assoc, List.take_length_add_append, List.take_succ_cons, hfailed]

theorem scanEach_aborted_iff (c : Config) (calls : List (ReadText × Source)) :
    (start.scanEach c calls).1.aborted = false ↔
      ∀ result ∈ (start.scanEach c calls).2, result = none := by
  rcases scanEach_results c calls with
    ⟨hlast, hresults⟩ | ⟨hlast, before, call, after, f, -, -, hresults, -⟩
  · rw [hlast, hresults, List.forall_mem_map]
    exact iff_of_true rfl fun _ _ => rfl
  · have hfailed : some f ∈ (start.scanEach c calls).2 := by simp [hresults]
    rw [hlast]
    exact iff_of_false Bool.noConfusion fun hall => by cases hall _ hfailed

theorem generate_failed_alike {c : Config} {read disk : ReadText} {before after later : List String}
    {path : String} {f : Failure} (hfails : FailsFirst c read start before path f)
    (hdisk : ∀ p ∈ before ++ [path], disk p = read p) :
    generate c disk (before ++ path :: later) = generate c read (before ++ path :: after) := by
  have herror := fun disk files => (generate_eq_error_iff c disk files f).trans
    (scanFiles_eq_error_iff c disk start files f)
  have hread := (herror read _).mpr ⟨before, path, after, rfl, hfails⟩
  have hlater := (herror disk _).mpr
    ⟨before, path, later, rfl, failsFirst_congr c read disk start before path f hdisk hfails⟩
  rw [hread, hlater]

/-- A run fails at most once with a cause of its own. Before that every scan
succeeds, after that every scan is turned away and the run stays as it is, and it
hands over a bundle exactly when no scan has failed. Sources given as text cannot
fail a run that skips what it cannot read. A run over files fails with the first
failure among them, whatever the disk holds for the files behind it. -/
theorem first_failure_ends_run (c : Config) :
    (∀ calls : List (ReadText × Source),
      let done := start.scanEach c calls
      ((∃ b, (done.1.finish c).1 = .ok b) ↔ ∀ result ∈ done.2, result = none) ∧
      ((∃ result ∈ done.2, result ≠ none) → (done.1.finish c).1 = .error .aborted) ∧
      (done.2 = calls.map (fun _ => none) ∨
        ∃ before call after f, calls = before ++ call :: after ∧ f ≠ .aborted ∧
          done.2 = before.map (fun _ => none) ++ some f :: after.map (fun _ => some .aborted) ∧
          ∀ n, before.length < n → (start.scanEach c (calls.take n)).1 = done.1)) ∧
    (c.onError = .skip → ∀ (read : ReadText) (r : Run) (origin content : String),
      r.aborted = false → (r.scan c read (.text origin content)).2 = none) ∧
    ∀ (read : ReadText) (paths : List String),
      (∀ f, generate c read paths = .error f ↔ ∃ before path after,
        paths = before ++ path :: after ∧ FailsFirst c read start before path f) ∧
      ∀ before path after f, paths = before ++ path :: after →
        FailsFirst c read start before path f →
        ∀ (disk : ReadText) (later : List String), (∀ p ∈ before ++ [path], disk p = read p) →
          generate c disk (before ++ path :: later) = generate c read paths := by
  refine ⟨?_, ?_, ?_⟩
  · intro calls done
    have hrunning := scanEach_aborted_iff c calls
    refine ⟨?_, ?_, ?_⟩
    · rw [← hrunning]
      exact ⟨fun ⟨b, hb⟩ => ((finish_eq_ok_iff c _ b).mp hb).1,
        fun h => ⟨_, finish_of_running c done.1 h⟩⟩
    · rintro ⟨result, hmem, hne⟩
      cases hlast : done.1.aborted with
      | true => exact finish_of_aborted c done.1 hlast
      | false => exact absurd (hrunning.mp hlast result hmem) hne
    · rcases scanEach_results c calls with ⟨-, hresults⟩ | ⟨-, hfailed⟩
      · exact .inl hresults
      · exact .inr hfailed
  · intro hskip read r origin content h
    rw [scan_text c read r origin content h]
    exact carryOut_skip c _ _ hskip
  · intro read paths
    refine ⟨fun f => (generate_eq_error_iff c read paths f).trans
      (scanFiles_eq_error_iff c read start paths f), ?_⟩
    rintro before path after f rfl hfails disk later hdisk
    exact generate_failed_alike hfails hdisk

theorem first_failure_ends_run_at_missing_file :
    let c : Config := { onError := .skip }
    let empty : ReadText := fun _ => .error .notFound
    let disk : ReadText := fun path =>
      if path = "a.cpp" then .ok "DFUNC void duk_go();\nDFUNC float half(int x);\n"
      else .error .notFound
    let calls : List (ReadText × Source) :=
      [(disk, .file "a.cpp"), (disk, .file "b.cpp"), (disk, .text "c.cpp" "DFUNC int f();")]
    ((start.scanEach c calls).1.finish c).1 = .error .aborted ∧
    (start.scan c empty (.text "a.cpp" "DFUNC float half(int x);")).2 = none ∧
    generate c disk ["a.cpp", "b.cpp", "c.cpp"] = .error (.sourceNotFound "b.cpp") ∧
    ∀ later, generate c disk ("a.cpp" :: "b.cpp" :: later) =
      generate c disk ["a.cpp", "b.cpp", "c.cpp"] := by
  intro c empty disk calls
  obtain ⟨hcalls, htext, hfiles⟩ := first_failure_ends_run c
  have hfails : FailsFirst c disk start ["a.cpp"] "b.cpp" (.sourceNotFound "b.cpp") :=
    ⟨by decide +kernel, by decide +kernel⟩
  obtain ⟨herror, hsame⟩ := hfiles disk ["a.cpp", "b.cpp", "c.cpp"]
  refine ⟨?_, ?_, ?_, ?_⟩
  · exact (hcalls calls).2.1 ⟨some .aborted, by decide +kernel, by decide⟩
  · exact htext rfl empty start "a.cpp" _ rfl
  · exact (herror _).mpr ⟨["a.cpp"], "b.cpp", ["c.cpp"], rfl, hfails⟩
  · intro later
    exact hsame ["a.cpp"] "b.cpp" ["c.cpp"] _ rfl hfails disk later (fun _ _ => rfl)

end Run
end Bindery
