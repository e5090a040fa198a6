import Bindery.Proofs.FailedScans

/-!
# Runs under the two policies

The policy of a run matters only at a directive that cannot be read. Up to the
first of them a run that aborts and a run that skips are in the same state;
there the one ends with the fault, and the other reports it and goes on.
-/

set_option autoImplicit false

namespace Bindery

def Config.under (c : Config) (p : Policy) : Config := { c with onError := p }

def Source.texts (ts : List (String × String)) : List Source := ts.map fun t => .text t.1 t.2

theorem Source.texts_cons (t : String × String) (ts : List (String × String)) :
    texts (t :: ts) = .text t.1 t.2 :: texts ts := rfl

theorem Source.texts_append (ts us : List (String × String)) :
    texts (ts ++ us) = texts ts ++ texts us := List.map_append

theorem Directive.ofLines_under (c : Config) (p : Policy) (ls : List (Nat × List Char)) :
    ofLines (c.under p) ls = ofLines c ls := by
  induction ls with
  | nil => rfl
  | cons l ls ih =>
    obtain ⟨n, line⟩ := l
    have hline : ofChars? (c.under p) line = ofChars? c line := rfl
    rw [ofLines, ofLines, hline, ih]

theorem ordersOf_under (c : Config) (p : Policy) (origin content : String) :
    ordersOf (c.under p) origin content = ordersOf c origin content := by
  rw [ordersOf, ordersOf, Directive.ofSource, Directive.ofSource, Directive.ofLines_under]

def Readable (os : List (Location × Except Fault Order)) : Prop :=
  ∀ l e, (l, e) ∈ os → ∃ o, e = .ok o

theorem readable_cons (l : Location) (o : Order) (os : List (Location × Except Fault Order)) :
    Readable ((l, .ok o) :: os) ↔ Readable os := by
  constructor
  · intro h m e hmem
    exact h m e (List.mem_cons_of_mem _ hmem)
  · intro h m e hmem
    rcases List.mem_cons.mp hmem with heq | hmem
    · exact ⟨o, (Prod.mk.inj heq).2⟩
    · exact h m e hmem

theorem not_readable_cons (l : Location) (f : Fault) (os : List (Location × Except Fault Order)) :
    ¬Readable ((l, .error f) :: os) := by
  intro h
  obtain ⟨o, ho⟩ := h l _ List.mem_cons_self
  cases ho

/-- Orders can be read up to the first fault, if there is any. -/
theorem readable_or_fault (os : List (Location × Except Fault Order)) :
    Readable os ∨ ∃ done l f rest, os = done ++ (l, .error f) :: rest ∧ Readable done := by
  induction os with
  | nil => exact .inl fun _ _ hmem => absurd hmem List.not_mem_nil
  | cons p os ih =>
    obtain ⟨l, e⟩ := p
    cases e with
    | error f => exact .inr ⟨[], l, f, os, rfl, fun _ _ hmem => absurd hmem List.not_mem_nil⟩
    | ok o =>
      rcases ih with h | ⟨done, m, f, rest, hos, h⟩
      · exact .inl ((readable_cons l o os).mpr h)
      · exact .inr ⟨(l, .ok o) :: done, m, f, rest, by rw [hos]; rfl,
          (readable_cons l o done).mpr h⟩

/-- The first directive of some texts that cannot be read: the texts before it and
behind it, and the orders around it in its own text. -/
structure FirstFault (c : Config) (ts : List (String × String)) where
  earlier : List (String × String)
  text : String × String
  later : List (String × String)
  done : List (Location × Except Fault Order)
  location : Location
  fault : Fault
  rest : List (Location × Except Fault Order)
  texts_eq : ts = earlier ++ text :: later
  orders_eq : ordersOf c text.1 text.2 = done ++ (location, .error fault) :: rest
  earlier_readable : ∀ t ∈ earlier, Readable (ordersOf c t.1 t.2)
  done_readable : Readable done

theorem readable_or_firstFault (c : Config) (ts : List (String × String)) :
    (∀ t ∈ ts, Readable (ordersOf c t.1 t.2)) ∨ Nonempty (FirstFault c ts) := by
  induction ts with
  | nil => exact .inl fun _ hmem => absurd hmem List.not_mem_nil
  | cons t ts ih =>
    rcases readable_or_fault (ordersOf c t.1 t.2) with h | ⟨done, l, f, rest, hos, h⟩
    · rcases ih with hts | ⟨⟨first⟩⟩
      · exact .inl (List.forall_mem_cons.mpr ⟨h, hts⟩)
      · exact .inr ⟨t :: first.earlier, first.text, first.later, first.done, first.location,
          first.fault, first.rest, congrArg (t :: ·) first.texts_eq, first.orders_eq,
          List.forall_mem_cons.mpr ⟨h, first.earlier_readable⟩, first.done_readable⟩
    · exact .inr ⟨[], t, ts, done, l, f, rest, rfl, hos,
        fun _ hmem => absurd hmem List.not_mem_nil, h⟩

theorem FirstFault.sources_eq {c : Config} {ts : List (String × String)}
    (first : FirstFault c ts) : Source.texts ts = Source.texts first.earlier ++
      .text first.text.1 first.text.2 :: Source.texts first.later :=
  (congrArg Source.texts first.texts_eq).trans (Source.texts_append _ _)

def refused : List (Location × Except Fault Order) → Report
  | [] => []
  | (_, .ok _) :: os => refused os
  | (l, .error f) :: os => .ofFault l f :: refused os

namespace Report

def failed (r : Report) : Report := r.filter fun d => d.severity == .error

theorem failed_append (r s : Report) : failed (r ++ s) = failed r ++ failed s :=
  List.filter_append r s

theorem failed_eq_nil_iff (r : Report) : failed r = [] ↔ r.hasErrors = false := by
  simp [failed, hasErrors]

theorem hasErrors_append (r s : Report) : hasErrors (r ++ s) = (hasErrors r || hasErrors s) :=
  List.any_append

theorem first_error_unique {before other after rest : Report} {d e : Diagnostic}
    (h : before ++ d :: after = other ++ e :: rest) (hbefore : hasErrors before = false)
    (hother : hasErrors other = false) (hd : d.severity = .error) (he : e.severity = .error) :
    before = other ∧ d = e := by
  have hcut : ∀ (r : Report) (x : Diagnostic) (later : Report), hasErrors r = false →
      x.severity = .error → (r ++ x :: later).takeWhile (fun y => y.severity != .error) = r := by
    intro r x later hr hx
    rw [List.takeWhile_append_of_pos, List.takeWhile_cons_of_neg, List.append_nil]
    · simp [hx]
    · simpa [hasErrors] using hr
  have hsame : before = other := by
    rw [← hcut before d after hbefore hd, h, hcut other e rest hother he]
  subst hsame
  exact ⟨rfl, (List.cons.inj (List.append_cancel_left h)).1⟩

end Report

namespace Run

theorem apply_under (c : Config) (p : Policy) (r : Run) (l : Location) (o : Order) :
    r.apply (c.under p) l o = r.apply c l o := by
  cases o <;> rfl

/-- An order adds at most one warning, at its own place. -/
theorem apply_report_at (c : Config) (r : Run) (l : Location) (o : Order) :
    (r.apply c l o).report = r.report ∨
      ∃ name first, (r.apply c l o).report = r.report ++ [Diagnostic.duplicate l name first] := by
  cases o with
  | openSpace name => exact .inl rfl
  | declare d =>
    simp only [apply, declare, see]
    split
    · exact .inl rfl
    · next first _ => exact .inr ⟨d.name, first, rfl⟩

theorem apply_report (c : Config) (r : Run) (l : Location) (o : Order) :
    ∃ ws, (r.apply c l o).report = r.report ++ ws ∧ Report.hasErrors ws = false := by
  rcases apply_report_at c r l o with hnone | ⟨name, first, hone⟩
  · exact ⟨[], hnone.trans (List.append_nil _).symm, rfl⟩
  · exact ⟨_, hone, rfl⟩

theorem carryOut_readable (c : Config) (p q : Policy) (r : Run)
    {os : List (Location × Except Fault Order)} (h : Readable os) :
    r.carryOut (c.under p) os = r.carryOut (c.under q) os := by
  induction os generalizing r with
  | nil => rfl
  | cons x os ih =>
    obtain ⟨l, e⟩ := x
    cases e with
    | ok o =>
      rw [carryOut, carryOut, apply_under, apply_under]
      exact ih _ ((readable_cons l o os).mp h)
    | error f => exact absurd h (not_readable_cons l f os)

theorem carryOut_readable_none (c : Config) (r : Run) {os : List (Location × Except Fault Order)}
    (h : Readable os) : (r.carryOut c os).2 = none := by
  induction os generalizing r with
  | nil => rfl
  | cons p os ih =>
    obtain ⟨l, e⟩ := p
    obtain ⟨o, rfl⟩ := h l e List.mem_cons_self
    exact ih _ ((readable_cons l o os).mp h)

theorem carryOut_readable_report (c : Config) (r : Run)
    {os : List (Location × Except Fault Order)} (h : Readable os) :
    ∃ ws, (r.carryOut c os).1.report = r.report ++ ws ∧ Report.hasErrors ws = false := by
  induction os generalizing r with
  | nil => exact ⟨[], (List.append_nil _).symm, rfl⟩
  | cons x os ih =>
    obtain ⟨l, e⟩ := x
    cases e with
    | ok o =>
      obtain ⟨ws, happly, hws⟩ := apply_report c r l o
      obtain ⟨vs, hcarry, hvs⟩ := ih (r.apply c l o) ((readable_cons l o os).mp h)
      refine ⟨ws ++ vs, ?_, ?_⟩
      · rw [carryOut, hcarry, happly, List.append_assoc]
      · rw [Report.hasErrors_append, hws, hvs]
        rfl
    | error f => exact absurd h (not_readable_cons l f os)

theorem carryOut_ends_iff (c : Config) (r : Run) (os : List (Location × Except Fault Order)) :
    (r.carryOut c os).2 = none ↔ c.onError = .skip ∨ refused os = [] := by
  induction os generalizing r with
  | nil => simp [carryOut, refused]
  | cons p os ih =>
    obtain ⟨l, e⟩ := p
    cases e with
    | ok o => exact ih _
    | error f =>
      rw [carryOut, refused]
      cases hpolicy : c.onError with
      | abort => simp
      | skip => simpa [hpolicy] using ih (r.skip l f)

theorem carryOut_failed (c : Config) (r : Run) (os : List (Location × Except Fault Order))
    (h : (r.carryOut c os).2 = none) :
    (r.carryOut c os).1.report.failed = r.report.failed ++ refused os := by
  induction os generalizing r with
  | nil => simp [carryOut, refused]
  | cons p os ih =>
    obtain ⟨l, e⟩ := p
    cases e with
    | ok o =>
      obtain ⟨ws, happly, hws⟩ := apply_report c r l o
      rw [carryOut] at h ⊢
      rw [ih _ h, happly, Report.failed_append, (Report.failed_eq_nil_iff ws).mpr hws,
        List.append_nil, refused]
    | error f =>
      have hskip : c.onError = .skip := by simpa [refused] using (carryOut_ends_iff c r _).mp h
      rw [carryOut, hskip] at h ⊢
      have hnoted : (r.skip l f).report.failed = r.report.failed ++ [.ofFault l f] :=
        Report.failed_append _ _
      rw [ih _ h, hnoted, refused, List.append_assoc, List.singleton_append]

theorem carryOut_report (c : Config) (r : Run) (os : List (Location × Except Fault Order)) :
    r.report <+: (r.carryOut c os).1.report := by
  induction os generalizing r with
  | nil => exact List.prefix_rfl
  | cons x os ih =>
    obtain ⟨l, e⟩ := x
    cases e with
    | ok o =>
      obtain ⟨ws, happly, -⟩ := apply_report c r l o
      exact (List.prefix_append r.report ws).trans (happly ▸ ih (r.apply c l o))
    | error f =>
      rw [carryOut]
      cases c.onError with
      | abort => exact List.prefix_rfl
      | skip => exact (List.prefix_append r.report _).trans (ih (r.skip l f))

theorem scan_report (c : Config) (read : ReadText) (r : Run) (s : Source) :
    r.report <+: (r.scan c read s).1.report := by
  rcases scan_cases c read r s with ⟨-, hs⟩ | ⟨-, -, f, hs⟩ | ⟨-, hs⟩
  · simp [hs]
  · simp [hs, abort]
  · rw [hs]
    exact carryOut_report c (r.takeUp s) _

theorem scanAll_report (c : Config) (read : ReadText) (r : Run) (ss : List Source) :
    r.report <+: (r.scanAll c read ss).1.report := by
  induction ss generalizing r with
  | nil => exact List.prefix_rfl
  | cons s ss ih => exact (scan_report c read r s).trans (ih _)

theorem scan_readable (c : Config) (read : ReadText) (r : Run) (t : String × String)
    (h : Readable (ordersOf c t.1 t.2)) :
    r.scan (c.under .abort) read (.text t.1 t.2) = r.scan (c.under .skip) read (.text t.1 t.2) := by
  rw [scan, scan, scanText, scanText, ordersOf_under, ordersOf_under,
    carryOut_readable c .abort .skip _ h]

/-- Where everything can be read, the policy makes no difference. -/
theorem scanAll_readable (c : Config) (read : ReadText) (r : Run) (ts : List (String × String))
    (h : ∀ t ∈ ts, Readable (ordersOf c t.1 t.2)) :
    r.scanAll (c.under .abort) read (Source.texts ts) =
      r.scanAll (c.under .skip) read (Source.texts ts) := by
  induction ts generalizing r with
  | nil => rfl
  | cons t ts ih =>
    obtain ⟨ht, hts⟩ := List.forall_mem_cons.mp h
    rw [Source.texts_cons, scanAll_step, scanAll_step, scan_readable c read r t ht, ih _ hts]

theorem scan_skip (c : Config) (read : ReadText) (r : Run) (t : String × String)
    (h : r.aborted = false) :
    (r.scan (c.under .skip) read (.text t.1 t.2)).1.aborted = false ∧
      (r.scan (c.under .skip) read (.text t.1 t.2)).2 = none := by
  have hnone : (r.scan (c.under .skip) read (.text t.1 t.2)).2 = none := by
    rw [scan_text _ _ _ _ _ h]
    exact carryOut_skip _ _ _ rfl
  refine ⟨?_, hnone⟩
  rw [scan_aborted _ _ _ _ h, hnone]
  rfl

theorem scanAll_skip (c : Config) (read : ReadText) (r : Run) (ts : List (String × String))
    (h : r.aborted = false) :
    (r.scanAll (c.under .skip) read (Source.texts ts)).1.aborted = false ∧
      (r.scanAll (c.under .skip) read (Source.texts ts)).2 = ts.map fun _ => none := by
  induction ts generalizing r with
  | nil => exact ⟨h, rfl⟩
  | cons t ts ih =>
    obtain ⟨hnext, hnone⟩ := scan_skip c read r t h
    obtain ⟨hlast, hresults⟩ := ih _ hnext
    rw [Source.texts_cons, scanAll_step, hnone, hresults]
    exact ⟨hlast, rfl⟩

theorem scan_readable_report (c : Config) (read : ReadText) (r : Run) (t : String × String)
    (h : r.aborted = false) (ht : Readable (ordersOf c t.1 t.2)) :
    ∃ ws, (r.scan (c.under .skip) read (.text t.1 t.2)).1.report = r.report ++ ws ∧
      Report.hasErrors ws = false := by
  rw [scan_text _ _ _ _ _ h, ordersOf_under]
  exact carryOut_readable_report (c.under .skip) (r.takeUp (.text t.1 t.2)) ht

theorem scanAll_readable_report (c : Config) (read : ReadText) (r : Run)
    (ts : List (String × String)) (h : r.aborted = false)
    (hts : ∀ t ∈ ts, Readable (ordersOf c t.1 t.2)) :
    ∃ ws, (r.scanAll (c.under .skip) read (Source.texts ts)).1.report = r.report ++ ws ∧
      Report.hasErrors ws = false := by
  induction ts generalizing r with
  | nil => exact ⟨[], (List.append_nil _).symm, rfl⟩
  | cons t ts ih =>
    obtain ⟨ht, hrest⟩ := List.forall_mem_cons.mp hts
    obtain ⟨hnext, -⟩ := scan_skip c read r t h
    obtain ⟨ws, hscan, hws⟩ := scan_readable_report c read r t h ht
    obtain ⟨vs, hlast, hvs⟩ := ih _ hnext hrest
    refine ⟨ws ++ vs, ?_, ?_⟩
    · rw [Source.texts_cons, scanAll_step, hlast, hscan, List.append_assoc]
    · rw [Report.hasErrors_append, hws, hvs]
      rfl

end Run

namespace FirstFault
variable {c : Config} {ts : List (String × String)}
open Run

def now (first : FirstFault c ts) (read : ReadText) : Run :=
  let before := (start.scanAll (c.under .skip) read (Source.texts first.earlier)).1
  ((before.takeUp (.text first.text.1 first.text.2)).carryOut (c.under .skip) first.done).1

theorem carryOut_done (first : FirstFault c ts) (read : ReadText) (p : Policy) :
    let before := (start.scanAll (c.under .skip) read (Source.texts first.earlier)).1
    (before.takeUp (.text first.text.1 first.text.2)).carryOut (c.under p) first.done =
      (first.now read, none) := by
  intro before
  rw [carryOut_readable c p .skip _ first.done_readable]
  exact Prod.ext rfl (carryOut_skip _ _ _ rfl)

/-- Up to the first fault a run that aborts is the run that skips, and it ends there. -/
theorem scanAll_abort (first : FirstFault c ts) (read : ReadText) :
    start.scanAll (c.under .abort) read (Source.texts ts) =
      ((first.now read).abort, first.earlier.map (fun _ => none) ++
        some (.directive first.location first.fault) ::
          first.later.map (fun _ => some .aborted)) := by
  obtain ⟨hbefore, hresults⟩ := scanAll_skip c read start first.earlier rfl
  have hdone := first.carryOut_done read .abort
  have hscan : (start.scanAll (c.under .skip) read (Source.texts first.earlier)).1.scan
      (c.under .abort) read (.text first.text.1 first.text.2) =
        ((first.now read).abort, some (.directive first.location first.fault)) := by
    rw [scan_text _ _ _ _ _ hbefore, ordersOf_under, first.orders_eq, carryOut_append, hdone]
    rfl
  have hstop : (first.now read).abort.scanAll (c.under .abort) read (Source.texts first.later) =
      ((first.now read).abort, first.later.map fun _ => some .aborted) := by
    rw [scanAll_eq_scanEach, scanEach_stopped _ _ _ rfl, Source.texts, List.map_map, List.map_map]
    rfl
  rw [first.sources_eq, scanAll_append, scanAll_step,
    scanAll_readable c read start _ first.earlier_readable, hresults]
  simp only [hscan, hstop]

theorem now_report (first : FirstFault c ts) (read : ReadText) :
    (first.now read).report.hasErrors = false := by
  obtain ⟨ws, hearlier, hws⟩ :=
    scanAll_readable_report c read start first.earlier rfl first.earlier_readable
  obtain ⟨vs, hnow, hvs⟩ := carryOut_readable_report (c.under .skip)
    ((start.scanAll (c.under .skip) read (Source.texts first.earlier)).1.takeUp
      (.text first.text.1 first.text.2)) first.done_readable
  have hreport : (first.now read).report = ws ++ vs := by
    refine hnow.trans ?_
    rw [takeUp, note, hearlier]
    rfl
  rw [hreport, Report.hasErrors_append, hws, hvs]
  rfl

/-- The run that skips reports the first fault and goes on. -/
theorem scanAll_skip_report (first : FirstFault c ts) (read : ReadText) :
    (first.now read).report ++ [Diagnostic.ofFault first.location first.fault] <+:
      (start.scanAll (c.under .skip) read (Source.texts ts)).1.report := by
  obtain ⟨hbefore, -⟩ := scanAll_skip c read start first.earlier rfl
  have hdone := first.carryOut_done read .skip
  have hscan : (first.now read).report ++ [Diagnostic.ofFault first.location first.fault] <+:
      ((start.scanAll (c.under .skip) read (Source.texts first.earlier)).1.scan
        (c.under .skip) read (.text first.text.1 first.text.2)).1.report := by
    rw [scan_text _ _ _ _ _ hbefore, ordersOf_under, first.orders_eq, carryOut_append, hdone]
    exact carryOut_report (c.under .skip)
      ((first.now read).skip first.location first.fault) first.rest
  rw [first.sources_eq, scanAll_append, scanAll_step]
  exact hscan.trans (scanAll_report _ read _ _)

end FirstFault

namespace Run

/-- A run that aborts and a run that skips agree on texts that can all be read. If
not, they agree up to the first fault: there the one ends with the fault, which
the other reports as its first error, and it keeps the wrappers and the warnings
that both had gathered by then. -/
theorem policies_agree_up_to_first_fault (c : Config) (read : ReadText)
    (ts : List (String × String)) :
    let strict := start.scanAll (c.under .abort) read (Source.texts ts)
    let lenient := start.scanAll (c.under .skip) read (Source.texts ts)
    (lenient.1.report.hasErrors = false →
      (∀ result ∈ strict.2, result = none) ∧ strict.1.report = lenient.1.report ∧
      ∃ b, (strict.1.finish (c.under .abort)).1 = .ok b ∧
        (lenient.1.finish (c.under .skip)).1 = .ok b) ∧
    ∀ (before : Report) (d : Diagnostic) (after : Report),
      lenient.1.report = before ++ d :: after → before.hasErrors = false → d.severity = .error →
      ∃ first : FirstFault c ts,
        (first.now read).report = before ∧
        ((first.now read).skip first.location first.fault).report = before ++ [d] ∧
        d.location = some first.location ∧ d.message = first.fault.message ∧
        d.code = some first.fault.code ∧
        strict.2 = first.earlier.map (fun _ => none) ++
          some (.directive first.location first.fault) ::
            first.later.map (fun _ => some .aborted) ∧
        (strict.1.finish (c.under .abort)).1 = .error .aborted ∧
        strict.1.wrappers = (first.now read).wrappers ∧ strict.1.report = before := by
  intro strict lenient
  rcases readable_or_firstFault c ts with hts | ⟨⟨first⟩⟩
  · have hsame : strict = lenient := scanAll_readable c read start ts hts
    obtain ⟨hrunning, hresults⟩ := scanAll_skip c read start ts rfl
    obtain ⟨ws, hreport, hws⟩ := scanAll_readable_report c read start ts rfl hts
    constructor
    · intro _
      rw [hsame]
      refine ⟨?_, rfl, _, finish_of_running _ _ hrunning, finish_of_running _ _ hrunning⟩
      rw [hresults, List.forall_mem_map]
      exact fun _ _ => rfl
    · intro before d after h _ hd
      have hnone : lenient.1.report.hasErrors = false := by
        rw [hreport]
        exact hws
      rw [h, Report.hasErrors_append] at hnone
      simp [Report.hasErrors, hd] at hnone
  · obtain ⟨more, hmore⟩ := first.scanAll_skip_report read
    have hstrict := first.scanAll_abort read
    constructor
    · intro hnone
      rw [show lenient.1.report = _ from hmore.symm] at hnone
      simp [Report.hasErrors, Diagnostic.ofFault] at hnone
    · intro before d after h hbefore hd
      have hsplit : (first.now read).report ++
          Diagnostic.ofFault first.location first.fault :: more = before ++ d :: after := by
        rw [← h, show lenient.1.report = _ from hmore.symm, List.append_assoc]
        rfl
      obtain ⟨hnow, rfl⟩ :=
        Report.first_error_unique hsplit (first.now_report read) hbefore rfl hd
      refine ⟨first, hnow, ?_, rfl, rfl, rfl, ?_, ?_, ?_, ?_⟩
      · exact congrArg (· ++ _) hnow
      · exact congrArg Prod.snd hstrict
      · rw [show strict = _ from hstrict]
        rfl
      · rw [show strict = _ from hstrict]
        rfl
      · rw [show strict = _ from hstrict]
        exact hnow

theorem policies_agree_up_to_first_fault_behind_duplicate :
    let c : Config := {}
    let read : ReadText := fun _ => .error .notFound
    let twice := "DFUNC void go();\nDFUNC void go();\n"
    let ready := [("a.cpp", twice), ("b.cpp", "DFUNC int f();\n")]
    let faulty := [("a.cpp", twice ++ "DFUNC float half(int x);\n"), ("b.cpp", "DFUNC int f();\n")]
    let warning := Diagnostic.duplicate ⟨"a.cpp", 2⟩ "go" ⟨"a.cpp", 1⟩
    let strict := start.scanAll (c.under .abort) read (Source.texts faulty)
    (∃ b, ((start.scanAll (c.under .abort) read (Source.texts ready)).1.finish
      (c.under .abort)).1 = .ok b) ∧
    (strict.1.finish (c.under .abort)).1 = .error .aborted ∧ strict.1.report = [warning] ∧
    ∃ first : FirstFault c faulty, first.location = ⟨"a.cpp", 3⟩ ∧
      strict.1.wrappers = (first.now read).wrappers := by
  intro c read twice ready faulty warning strict
  have hready : (start.scanAll (c.under .skip) read (Source.texts ready)).1.report.hasErrors =
      false := by decide +kernel
  have hfaulty : (start.scanAll (c.under .skip) read (Source.texts faulty)).1.report =
      [warning] ++ Diagnostic.ofFault ⟨"a.cpp", 3⟩ (.unknownReturnType "float") :: [] := by
    decide +kernel
  obtain ⟨-, -, b, hb, -⟩ := (policies_agree_up_to_first_fault c read ready).1 hready
  obtain ⟨first, -, -, hlocation, -, -, -, hfinish, hwrappers, hreport⟩ :=
    (policies_agree_up_to_first_fault c read faulty).2 _ _ _ hfaulty (by decide +kernel) rfl
  exact ⟨⟨b, hb⟩, hfinish, hreport, first, (Option.some.inj hlocation).symm, hwrappers⟩

end Run
end Bindery
