import Bindery.Proofs.PolicyAgreement
import Bindery.Proofs.SourceLines
import Mathlib.Data.List.Forall2

/-!
# Accounts of the lines

A run that skips what it cannot read leaves no directive without a trace: each line with a
directive adds one wrapper, one namespace or one error, and every other line adds nothing. So the
directives of all sources are counted by what the run holds in the end, and its report follows the
lines from which it comes.
-/

set_option autoImplicit false

namespace Bindery
open Bindery.Text

def Statement.space? : Statement → Option String
  | .defineSpace name => some name
  | _ => none

def Run.spaces (r : Run) : List String := r.registration.statements.filterMap Statement.space?

def ordersOfLines (c : Config) (origin : String) (n : Nat) (ls : List (List Char)) :
    List (Location × Except Fault Order) :=
  (Directive.ofLines c (numbered n ls)).map fun p => (⟨origin, p.1⟩, p.2.order)

def Run.past (c : Config) (r : Run) (origin : String) (ls : List (List Char)) : Run :=
  ((r.note (.scanning origin)).carryOut c (ordersOfLines c origin 1 ls)).1

structure Run.Gains (r next : Run) (ws : List Wrapper) (names : List String) (faults : Report) :
    Prop where
  wrappers : next.wrappers = r.wrappers ++ ws
  spaces : next.spaces = r.spaces ++ names
  faults : next.report.failed = r.report.failed ++ faults

def Run.Accounts (c : Config) (l : Location) (line : List Char) (r next : Run) : Prop :=
  match (Directive.ofChars? c line).map Directive.order with
  | none => next = r
  | some (.ok (.declare d)) => Gains r next [Wrapper.ofDeclaration c d] [] []
  | some (.ok (.openSpace name)) => Gains r next [] [name] []
  | some (.error f) => Gains r next [] [] [Diagnostic.ofFault l f]

structure ReportOn (c : Config) (text : String × String) (ds : Report) : Prop where
  lines_increase : ∃ ns : List Nat, ns.Pairwise (· < ·) ∧
    ds.map Diagnostic.location = ns.map fun n => some ⟨text.1, n⟩
  error_iff : ∀ d, d ∈ ds ∧ d.severity = .error ↔ ∃ n line directive f,
    (lines text.2.toList)[n]? = some line ∧ Directive.ofChars? c line = some directive ∧
      directive.order = .error f ∧ d = Diagnostic.ofFault ⟨text.1, n + 1⟩ f

theorem Report.errors_eq_length (r : Report) : r.errors = r.failed.length :=
  List.countP_eq_length_filter

theorem Report.mem_failed_iff (r : Report) (d : Diagnostic) :
    d ∈ r.failed ↔ d ∈ r ∧ d.severity = .error := by
  rw [failed, List.mem_filter, beq_iff_eq]

theorem Report.errors_add_warnings (r : Report) : r.errors + r.warnings = r.length := by
  rw [errors, warnings, count, count, List.length_eq_countP_add_countP fun d => d.severity == .error]
  congr 1
  apply List.countP_congr
  intro d _
  cases d.severity <;> decide

namespace Directive

theorem mem_ofLines_iff (c : Config) (n m : Nat) (ls : List (List Char)) (d : Directive) :
    (m, d) ∈ ofLines c (numbered n ls) ↔
      ∃ k line, ls[k]? = some line ∧ m = n + k ∧ ofChars? c line = some d := by
  induction ls generalizing n with
  | nil => simp [numbered, ofLines]
  | cons first ls ih =>
    rw [numbered, ofLines_cons, List.mem_append, ih]
    constructor
    · rintro (hmem | ⟨k, line, hline, rfl, hd⟩)
      · obtain ⟨e, he, heq⟩ : ∃ e, ofChars? c first = some e ∧ (n, e) = (m, d) := by
          simpa using hmem
        obtain ⟨rfl, rfl⟩ := Prod.mk.inj heq
        exact ⟨0, first, rfl, rfl, he⟩
      · exact ⟨k + 1, line, hline, by omega, hd⟩
    · rintro ⟨k, line, hline, rfl, hd⟩
      cases k with
      | zero =>
        obtain rfl : first = line := Option.some.inj hline
        exact .inl (by simp [hd])
      | succ k => exact .inr ⟨k, line, hline, by omega, hd⟩

theorem ofLines_numbers (c : Config) (n : Nat) (ls : List (List Char)) :
    ((ofLines c (numbered n ls)).map Prod.fst).Pairwise (· < ·) := by
  have hsub : ((ofLines c (numbered n ls)).map Prod.fst).Sublist (List.range' n ls.length) := by
    induction ls generalizing n with
    | nil => exact .slnil
    | cons line ls ih =>
      rw [numbered, ofLines_cons, List.map_append, List.length_cons, List.range'_succ]
      cases ofChars? c line with
      | none => exact (ih (n + 1)).cons n
      | some d => exact (ih (n + 1)).cons_cons n
  exact (List.pairwise_lt_range' 1).sublist hsub

end Directive

theorem ordersOfLines_append (c : Config) (origin : String) (n : Nat)
    (above below : List (List Char)) :
    ordersOfLines c origin n (above ++ below) =
      ordersOfLines c origin n above ++ ordersOfLines c origin (n + above.length) below := by
  simp only [ordersOfLines, numbered_append, Directive.ofLines_append, List.map_append]

namespace Run
variable (c : Config)

theorem gains_openSpace (r : Run) (l : Location) (name : String) :
    Gains r (r.apply c l (.openSpace name)) [] [name] [] where
  wrappers := (List.append_nil _).symm
  spaces := List.filterMap_append
  faults := (List.append_nil _).symm

theorem gains_declare (r : Run) (l : Location) (d : Declaration) :
    Gains r (r.apply c l (.declare d)) [Wrapper.ofDeclaration c d] [] [] := by
  simp only [apply, declare, see]
  split
  · refine ⟨rfl, ?_, (List.append_nil _).symm⟩
    exact List.filterMap_append
  · refine ⟨rfl, ?_, ?_⟩
    · exact List.filterMap_append
    · exact Report.failed_append _ _

theorem gains_skip (r : Run) (l : Location) (f : Fault) :
    Gains r (r.skip l f) [] [] [Diagnostic.ofFault l f] where
  wrappers := (List.append_nil _).symm
  spaces := (List.append_nil _).symm
  faults := Report.failed_append _ _

theorem past_append (r : Run) (origin : String) (above below : List (List Char))
    (hskip : c.onError = .skip) :
    r.past c origin (above ++ below) =
      ((r.past c origin above).carryOut c (ordersOfLines c origin (1 + above.length) below)).1 := by
  have hnone := carryOut_skip c (r.note (.scanning origin)) (ordersOfLines c origin 1 above) hskip
  have habove : (r.note (.scanning origin)).carryOut c (ordersOfLines c origin 1 above) =
      (r.past c origin above, none) := Prod.ext rfl hnone
  rw [past, ordersOfLines_append, carryOut_append, habove]

theorem past_line (r : Run) (origin : String) (above : List (List Char)) (line : List Char) :
    Accounts c ⟨origin, above.length + 1⟩ line (r.past (c.under .skip) origin above)
      (r.past (c.under .skip) origin (above ++ [line])) := by
  have horders : ordersOfLines (c.under .skip) origin (1 + above.length) [line] =
      ((Directive.ofChars? c line).map fun d =>
        ((⟨origin, above.length + 1⟩ : Location), d.order)).toList := by
    rw [ordersOfLines, Directive.ofLines_under, numbered, numbered, Directive.ofLines_cons,
      Nat.add_comm 1]
    cases Directive.ofChars? c line <;> rfl
  rw [past_append _ r origin above [line] rfl, horders, Accounts]
  cases Directive.ofChars? c line with
  | none => rfl
  | some d =>
    simp only [Option.map_some, Option.toList_some]
    cases d.order with
    | ok o =>
      cases o with
      | openSpace name => exact gains_openSpace (c.under .skip) _ _ name
      | declare d => exact gains_declare (c.under .skip) _ _ d
    | error f => exact gains_skip _ _ f

def tally (r : Run) : Nat := r.wrappers.length + r.spaces.length + r.report.errors

theorem Gains.tally {r next : Run} {ws : List Wrapper} {names : List String} {faults : Report}
    (h : Gains r next ws names faults) :
    next.tally = r.tally + (ws.length + names.length + faults.length) := by
  simp only [Run.tally, Report.errors_eq_length, h.wrappers, h.spaces, h.faults,
    List.length_append]
  omega

theorem carryOut_tally (r : Run) (os : List (Location × Except Fault Order)) :
    (r.carryOut (c.under .skip) os).1.tally = r.tally + os.length := by
  induction os generalizing r with
  | nil => rfl
  | cons p os ih =>
    obtain ⟨l, e⟩ := p
    have hone : ∀ next : Run, next.tally = r.tally + 1 →
        (next.carryOut (c.under .skip) os).1.tally = r.tally + (os.length + 1) := by
      intro next hnext
      rw [ih, hnext, Nat.add_assoc, Nat.add_comm 1]
    cases e with
    | ok o =>
      refine hone _ ?_
      cases o with
      | openSpace name => exact (gains_openSpace (c.under .skip) r l name).tally
      | declare d => exact (gains_declare (c.under .skip) r l d).tally
    | error f => exact hone _ (gains_skip r l f).tally

theorem scanAll_tally (read : ReadText) (r : Run) (ts : List (String × String))
    (h : r.aborted = false) :
    (r.scanAll (c.under .skip) read (Source.texts ts)).1.tally =
      r.tally + (ts.flatMap fun t => Directive.ofSource c t.2).length := by
  induction ts generalizing r with
  | nil => rfl
  | cons t ts ih =>
    obtain ⟨hnext, -⟩ := scan_skip c read r t h
    have hlength : (ordersOf c t.1 t.2).length = (Directive.ofSource c t.2).length :=
      List.length_map _
    rw [Source.texts_cons, scanAll_step, ih _ hnext, scan_text _ _ _ _ _ h, ordersOf_under,
      carryOut_tally, hlength, List.flatMap_cons, List.length_append, ← Nat.add_assoc]
    rfl

/-- Each wrapper is registered and bound, and each namespace is opened by five statements. -/
theorem statements_length_invariant : Invariant c fun r =>
    r.registration.statements.length = 2 * r.wrappers.length + 5 * r.spaces.length where
  apply r l o h := by
    cases o with
    | openSpace name =>
      have hgains := gains_openSpace c r l name
      have hstatements : (r.apply c l (.openSpace name)).registration.statements =
          r.registration.statements ++ Registration.openingSpace name := rfl
      rw [hgains.wrappers, hgains.spaces, hstatements]
      simp only [List.length_append, h, Registration.openingSpace, List.length_cons,
        List.length_nil]
      omega
    | declare d =>
      have hgains := gains_declare c r l d
      have hstatements : (r.apply c l (.declare d)).registration.statements.length =
          r.registration.statements.length + 2 := by
        simp only [apply, declare, see]
        split <;> exact List.length_append
      rw [hgains.wrappers, hgains.spaces, hstatements]
      simp only [List.length_append, h, List.length_cons, List.length_nil]
      omega
  skip _ _ _ h := h
  note _ _ h := h
  abort _ h := h

theorem mem_refused_iff (os : List (Location × Except Fault Order)) (d : Diagnostic) :
    d ∈ refused os ↔ ∃ l f, (l, .error f) ∈ os ∧ d = Diagnostic.ofFault l f := by
  induction os with
  | nil => simp [refused]
  | cons p os ih =>
    obtain ⟨l, e⟩ := p
    cases e with
    | ok o => simp [refused, ih]
    | error f =>
      rw [refused, List.mem_cons, ih]
      constructor
      · rintro (rfl | ⟨m, g, hg, hd⟩)
        · exact ⟨l, f, List.mem_cons_self, rfl⟩
        · exact ⟨m, g, List.mem_cons_of_mem _ hg, hd⟩
      · rintro ⟨m, g, hg, hd⟩
        rcases List.mem_cons.mp hg with heq | hg
        · cases heq
          exact .inl hd
        · exact .inr ⟨m, g, hg, hd⟩

/-- What orders add to the report of a run that skips: in their order, at most one diagnostic at
each place. -/
theorem carryOut_places (r : Run) (os : List (Location × Except Fault Order)) :
    ∃ ds, (r.carryOut (c.under .skip) os).1.report = r.report ++ ds ∧
      (ds.map Diagnostic.location).Sublist (os.map fun p => some p.1) := by
  induction os generalizing r with
  | nil => exact ⟨[], (List.append_nil _).symm, .slnil⟩
  | cons p os ih =>
    obtain ⟨l, e⟩ := p
    cases e with
    | ok o =>
      obtain ⟨ds, hreport, hplaces⟩ := ih (r.apply (c.under .skip) l o)
      rcases apply_report_at (c.under .skip) r l o with hnone | ⟨name, first, hone⟩
      · exact ⟨ds, by rw [carryOut, hreport, hnone], hplaces.cons _⟩
      · refine ⟨Diagnostic.duplicate l name first :: ds, ?_, hplaces.cons_cons _⟩
        rw [carryOut, hreport, hone, List.append_assoc, List.singleton_append]
    | error f =>
      obtain ⟨ds, hreport, hplaces⟩ := ih (r.skip l f)
      refine ⟨Diagnostic.ofFault l f :: ds, hreport.trans ?_, hplaces.cons_cons _⟩
      rw [skip, List.append_assoc, List.singleton_append]

theorem scan_reportOn (read : ReadText) (r : Run) (t : String × String) (h : r.aborted = false) :
    ∃ ds, (r.scan (c.under .skip) read (.text t.1 t.2)).1.report = r.report ++ ds ∧
      ReportOn c t ds := by
  rw [scan_text _ _ _ _ _ h, ordersOf_under]
  obtain ⟨ds, hreport, hplaces⟩ :=
    carryOut_places c (r.takeUp (.text t.1 t.2)) (ordersOf c t.1 t.2)
  have hfailed : Report.failed ds = refused (ordersOf c t.1 t.2) := by
    have hall := carryOut_failed (c.under .skip) (r.takeUp (.text t.1 t.2)) (ordersOf c t.1 t.2)
      (carryOut_skip _ _ _ rfl)
    rw [hreport, Report.failed_append] at hall
    exact List.append_cancel_left hall
  refine ⟨ds, hreport, ?_, fun d => ?_⟩
  · have hlocations : (ordersOf c t.1 t.2).map (fun p => some p.1) =
        ((Directive.ofSource c t.2).map Prod.fst).map fun n => some (⟨t.1, n⟩ : Location) := by
      rw [ordersOf, List.map_map, List.map_map]
      rfl
    rw [hlocations] at hplaces
    obtain ⟨ns, hns, hds⟩ := List.sublist_map_iff.mp hplaces
    exact ⟨ns, (Directive.ofLines_numbers c 1 _).sublist hns, hds⟩
  · rw [← Report.mem_failed_iff, hfailed, mem_refused_iff]
    constructor
    · rintro ⟨l, f, hmem, hd⟩
      obtain ⟨⟨m, directive⟩, hdirective, heq⟩ := List.mem_map.mp hmem
      obtain ⟨rfl, hfault⟩ := Prod.mk.inj heq
      obtain ⟨k, line, hline, rfl, hread⟩ := (Directive.mem_ofLines_iff c 1 m _ _).mp hdirective
      exact ⟨k, line, directive, f, hline, hread, hfault, by rw [hd, Nat.add_comm]⟩
    · rintro ⟨k, line, directive, f, hline, hread, hfault, hd⟩
      refine ⟨⟨t.1, k + 1⟩, f, List.mem_map.mpr ⟨(k + 1, directive), ?_, by rw [hfault]⟩, hd⟩
      exact (Directive.mem_ofLines_iff c 1 _ _ _).mpr ⟨k, line, hline, Nat.add_comm k 1, hread⟩

theorem scanAll_reportOn (read : ReadText) (r : Run) (ts : List (String × String))
    (h : r.aborted = false) :
    ∃ reports : List Report, (r.scanAll (c.under .skip) read (Source.texts ts)).1.report =
      r.report ++ reports.flatten ∧ List.Forall₂ (ReportOn c) ts reports := by
  induction ts generalizing r with
  | nil => exact ⟨[], (List.append_nil _).symm, .nil⟩
  | cons t ts ih =>
    obtain ⟨hnext, -⟩ := scan_skip c read r t h
    obtain ⟨ds, hscan, hds⟩ := scan_reportOn c read r t h
    obtain ⟨reports, hrest, hreports⟩ := ih _ hnext
    refine ⟨ds :: reports, ?_, .cons hds hreports⟩
    rw [Source.texts_cons, scanAll_step, hrest, hscan, List.append_assoc, List.flatten_cons]

/-- Wherever a run that skips has come to, the next line adds one wrapper, one namespace or one
error if it holds a directive, and leaves the run as it is if not; a source is scanned by reading
its lines. So the directives of all sources are the wrappers, namespaces and errors of the run
together, the routine has its fixed share of statements for each, and the report goes through the
sources line by line, with an error for every directive that cannot be read and no other. -/
theorem directives_accounted_for (c : Config) (read : ReadText) (ts : List (String × String)) :
    let r := (start.scanAll (c.under .skip) read (Source.texts ts)).1
    (∀ (origin : String) (above : List (List Char)) (line : List Char),
      Accounts c ⟨origin, above.length + 1⟩ line (r.past (c.under .skip) origin above)
        (r.past (c.under .skip) origin (above ++ [line]))) ∧
    (∀ origin content, r.scan (c.under .skip) read (.text origin content) =
      (r.past (c.under .skip) origin (lines content.toList), none)) ∧
    (ts.flatMap fun t => Directive.ofSource c t.2).length =
      r.wrappers.length + r.spaces.length + r.report.errors ∧
    (∃ b, (r.finish (c.under .skip)).1 = .ok b ∧ b.wrappers = r.wrappers ∧
      b.routine.statements.length = 2 + 2 * r.wrappers.length + 5 * r.spaces.length) ∧
    r.report.errors + r.report.warnings = r.report.length ∧
    ∃ reports : List Report, r.report = reports.flatten ∧ List.Forall₂ (ReportOn c) ts reports := by
  intro r
  obtain ⟨hrunning, -⟩ := scanAll_skip c read start ts rfl
  refine ⟨past_line c r, ?_, ?_, ?_, Report.errors_add_warnings r.report, ?_⟩
  · intro origin content
    obtain ⟨-, hnone⟩ := scan_skip c read r (origin, content) hrunning
    refine Prod.ext ?_ hnone
    rw [scan_text _ _ _ _ _ hrunning]
    rfl
  · have htally := scanAll_tally c read start ts rfl
    rw [show start.tally = 0 from rfl, Nat.zero_add] at htally
    exact htally.symm
  · have hlength : r.registration.statements.length =
        2 * r.wrappers.length + 5 * r.spaces.length :=
      (statements_length_invariant (c.under .skip)).scanAll read start rfl (Source.texts ts)
    refine ⟨_, finish_of_running _ _ hrunning, rfl, ?_⟩
    simp only [bundle, Routine.enclosing, List.length_append, List.length_cons, List.length_nil,
      hlength]
    omega
  · obtain ⟨reports, hreport, hreports⟩ := scanAll_reportOn c read start ts rfl
    exact ⟨reports, hreport, hreports⟩

end Run
end Bindery
