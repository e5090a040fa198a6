import Bindery.Proofs.PolicyAgreement
import Bindery.Proofs.SourceLines

/-!
# Refused directives

A run that skips a directive is left as if its line had been empty, but for
the error that it reports. So the lines that cannot be read may be emptied
beforehand: the bundle and the warnings stay the same, and nothing is left for
which a run could abort.
-/

set_option autoImplicit false

namespace Bindery
open Bindery.Text

def isRefused (c : Config) (line : List Char) : Bool :=
  (Directive.ofChars? c line).any fun d => !d.order.isOk

def emptied (c : Config) (line : List Char) : List Char := if isRefused c line then [] else line

def withoutRefused (c : Config) (source : String) : String :=
  String.ofList (mapLines (emptied c) source.toList)

theorem newline_not_mem_emptied (c : Config) {line : List Char} (h : '\n' ∉ line) :
    '\n' ∉ emptied c line := by
  rw [emptied]
  split
  · exact List.not_mem_nil
  · exact h

namespace Directive

theorem ofChars?_emptied (c : Config) (n : Nat) (line : List Char) :
    ((ofChars? c (emptied c line)).map fun d => (n, d)).toList =
      ((ofChars? c line).map fun d => (n, d)).toList.filter fun p => p.2.order.isOk := by
  cases hd : ofChars? c line with
  | none => simp [emptied, isRefused, hd]
  | some d => cases ho : d.order.isOk <;> simp [emptied, isRefused, hd, ho, ofChars?_nil]

theorem ofLines_emptied (c : Config) (n : Nat) (cs : List Char) :
    ofLines c (numbered n (lines (mapLines (emptied c) cs))) =
      (ofLines c (numbered n (lines cs))).filter fun p => p.2.order.isOk := by
  induction cs using byLine generalizing n with
  | last line hline =>
    have hempty := newline_not_mem_emptied c hline
    rw [mapLines_last _ hline, ofLines_last c n hempty, ofLines_last c n hline, ofChars?_emptied]
  | more line rest hline ih =>
    have hempty := newline_not_mem_emptied c hline
    rw [mapLines_more _ rest hline, ofLines_more c n _ hempty, ofLines_more c n rest hline,
      ofChars?_emptied, ih, List.filter_append]

end Directive

theorem ordersOf_withoutRefused (c : Config) (origin content : String) :
    ordersOf c origin (withoutRefused c content) =
      (ordersOf c origin content).filter fun p => p.2.isOk := by
  rw [ordersOf, ordersOf, Directive.ofSource, Directive.ofSource, withoutRefused,
    String.toList_ofList, Directive.ofLines_emptied, List.filter_map]
  rfl

example : withoutRefused {} "DFUNC void go();\nDFUNC float half(int x);\r\n\nint n;\n" =
    "DFUNC void go();\n\n\nint n;\n" := by decide +kernel

theorem readable_filter (os : List (Location × Except Fault Order)) :
    Readable (os.filter fun p => p.2.isOk) := by
  intro l e hmem
  have hok := (List.mem_filter.mp hmem).2
  cases e with
  | ok o => exact ⟨o, rfl⟩
  | error f => cases hok

def Report.warned (r : Report) : Report := r.filter fun d => d.severity != .error

theorem Report.warned_append (r s : Report) : warned (r ++ s) = warned r ++ warned s :=
  List.filter_append ..

theorem Report.warned_eq_self {r : Report} (h : r.hasErrors = false) : warned r = r := by
  rw [warned, List.filter_eq_self]
  simpa [hasErrors] using h

namespace Run

def sifted (r : Run) : Run := { r with report := r.report.warned, log := [] }

theorem bundle_sifted (c : Config) (r : Run) : r.sifted.bundle c = r.bundle c := rfl

theorem sifted_skip (r : Run) (l : Location) (f : Fault) : (r.skip l f).sifted = r.sifted := by
  have hreport : Report.warned (r.report ++ [Diagnostic.ofFault l f]) = Report.warned r.report := by
    rw [Report.warned_append]
    exact List.append_nil _
  rw [skip, sifted, sifted, hreport]
  rfl

/-- An order does not look at what is sifted out. -/
theorem sifted_apply (c : Config) {r q : Run} (l : Location) (o : Order)
    (h : r.sifted = q.sifted) : (r.apply c l o).sifted = (q.apply c l o).sifted := by
  simp only [sifted, Run.mk.injEq] at h
  obtain ⟨hwrappers, hregistration, hseen, hreport, -, haborted⟩ := h
  cases o with
  | openSpace name =>
    simp [sifted, apply, openSpace, note, hwrappers, hregistration, hseen, hreport, haborted]
  | declare d =>
    simp only [apply, declare, see, note, hseen]
    cases q.firstSeen.lookup d.name with
    | none => simp [sifted, addWrapper, hwrappers, hregistration, hreport, haborted]
    | some first =>
      simp [sifted, addWrapper, Report.warned_append, hwrappers, hregistration, hreport, haborted]

/-- Skipping orders that cannot be read is leaving them out. -/
theorem sifted_carryOut (c : Config) {r q : Run} (h : r.sifted = q.sifted)
    (os : List (Location × Except Fault Order)) :
    (r.carryOut (c.under .skip) os).1.sifted =
      (q.carryOut (c.under .skip) (os.filter fun p => p.2.isOk)).1.sifted := by
  induction os generalizing r q with
  | nil => exact h
  | cons p os ih =>
    obtain ⟨l, e⟩ := p
    cases e with
    | ok o => exact ih (sifted_apply _ l o h)
    | error f => exact ih ((sifted_skip r l f).trans h)

theorem sifted_scanAll (c : Config) (read : ReadText) {r q : Run} (h : r.sifted = q.sifted)
    (hr : r.aborted = false) (ts : List (String × String)) :
    (r.scanAll (c.under .skip) read (Source.texts ts)).1.sifted =
      (q.scanAll (c.under .skip) read
        (Source.texts (ts.map fun t => (t.1, withoutRefused c t.2)))).1.sifted := by
  induction ts generalizing r q with
  | nil => exact h
  | cons t ts ih =>
    have hq : q.aborted = false := (congrArg Run.aborted h).symm.trans hr
    have hnote : (r.takeUp (.text t.1 t.2)).sifted = (q.takeUp (.text t.1 t.2)).sifted := h
    obtain ⟨hnext, -⟩ := scan_skip c read r t hr
    rw [List.map_cons, Source.texts_cons, Source.texts_cons, scanAll_step, scanAll_step]
    refine ih ?_ hnext
    rw [scan_text _ _ _ _ _ hr, scan_text _ _ _ _ _ hq, ordersOf_under, ordersOf_under,
      ordersOf_withoutRefused]
    exact sifted_carryOut c hnote _

/-- A run that skips makes of some texts what it makes of them with every refused
line emptied, apart from the errors that it reports; and then nothing is left for
which it would have had to abort. -/
theorem skipping_is_emptying (c : Config) (read : ReadText) (ts : List (String × String)) :
    let rest := ts.map fun t => (t.1, withoutRefused c t.2)
    let full := start.scanAll (c.under .skip) read (Source.texts ts)
    let clean := start.scanAll (c.under .skip) read (Source.texts rest)
    let strict := start.scanAll (c.under .abort) read (Source.texts rest)
    clean.1.report = full.1.report.filter (fun d => d.severity != .error) ∧
    strict.1.report = clean.1.report ∧
    (∀ result ∈ full.2 ++ clean.2 ++ strict.2, result = none) ∧
    ∃ b, (full.1.finish (c.under .skip)).1 = .ok b ∧ (clean.1.finish (c.under .skip)).1 = .ok b ∧
      (strict.1.finish (c.under .abort)).1 = .ok b := by
  intro rest full clean strict
  have hreadable : ∀ t ∈ rest, Readable (ordersOf c t.1 t.2) := by
    intro t hmem
    obtain ⟨u, -, rfl⟩ := List.mem_map.mp hmem
    rw [ordersOf_withoutRefused]
    exact readable_filter _
  have hstrict : strict = clean := scanAll_readable c read start rest hreadable
  have hsifted : full.1.sifted = clean.1.sifted := sifted_scanAll c read rfl rfl ts
  obtain ⟨hfull, hfullNone⟩ := scanAll_skip c read start ts rfl
  obtain ⟨hclean, hcleanNone⟩ := scanAll_skip c read start rest rfl
  have hreport : clean.1.report = full.1.report.warned := by
    obtain ⟨ws, hws, hnone⟩ := scanAll_readable_report c read start rest rfl hreadable
    have hself : clean.1.report.warned = clean.1.report := by
      refine Report.warned_eq_self ?_
      rw [hws]
      exact hnone
    exact hself.symm.trans (congrArg Run.report hsifted).symm
  have hbundle : full.1.bundle (c.under .skip) = clean.1.bundle (c.under .skip) := by
    rw [← bundle_sifted, hsifted, bundle_sifted]
  rw [hstrict]
  refine ⟨hreport, rfl, ?_, clean.1.bundle (c.under .skip), ?_, ?_, ?_⟩
  · intro result hmem
    rw [show full.2 = _ from hfullNone, show clean.2 = _ from hcleanNone, List.append_assoc,
      ← List.map_append, ← List.map_append] at hmem
    obtain ⟨_, -, rfl⟩ := List.mem_map.mp hmem
    rfl
  · rw [finish_of_running _ _ hfull, hbundle]
  · exact finish_of_running _ _ hclean
  · exact finish_of_running _ _ hclean

end Run
end Bindery
