import Bindery.Proofs.FailedScans
import Bindery.Proofs.MessageBlanks

/-!
# Diagnostics on one line

What a run reports quotes the texts of its sources without their blanks, and
names their origins. So every diagnostic of a run over origins that stand on one
line stands on one line.
-/

set_option autoImplicit false

namespace Bindery
open Bindery.Text

def OneLine (text : String) : Prop := '\n' ∉ text.toList

instance (text : String) : Decidable (OneLine text) :=
  inferInstanceAs (Decidable ('\n' ∉ text.toList))

@[simp] theorem oneLine_append (s t : String) : OneLine (s ++ t) ↔ OneLine s ∧ OneLine t := by
  simp [OneLine, not_or]

theorem Spaced.oneLine {text : String} (h : Spaced text) : OneLine text := by
  intro hmem
  exact absurd (h '\n' hmem (by decide)) (by decide)

inductive Diagnostic.Quotes (origin : String → Prop) : Diagnostic → Prop where
  | fault {l : Location} {f : Fault} (hl : origin l.origin) (hf : f.Clean) :
      Quotes origin (ofFault l f)
  | duplicate {l first : Location} {name : String} (hl : origin l.origin) (hname : Spaced name)
      (hfirst : origin first.origin) : Quotes origin (Diagnostic.duplicate l name first)

namespace Diagnostic

theorem location_lined {l : Location} (h : OneLine l.origin) : OneLine l.text := by
  rw [Location.text, oneLine_append, oneLine_append]
  exact ⟨⟨h, by decide⟩, (spaced_number l.line).oneLine⟩

theorem text_lined {s : Severity} {message code : String} {l : Location}
    (hl : OneLine l.origin) (hmessage : OneLine message) (hcode : OneLine code) :
    let d : Diagnostic := ⟨s, message, some l, some code⟩
    OneLine d.text ∧ OneLine d.coloured := by
  simp only [text, coloured, painted, codeText, oneLine_append, location_lined hl, hmessage,
    hcode, and_true, true_and]
  cases s <;> decide

theorem Quotes.lined {d : Diagnostic} (h : d.Quotes OneLine) :
    OneLine d.text ∧ OneLine d.coloured := by
  cases h with
  | @fault l f hl hf =>
    have hcode : OneLine f.code := by cases f <;> simp only [Fault.code] <;> decide
    exact text_lined hl hf.message.oneLine hcode
  | @duplicate l first name hl hname hfirst =>
    refine text_lined hl ?_ (by decide)
    simp only [oneLine_append, hname.oneLine, location_lined hfirst, and_true]
    decide

end Diagnostic

theorem ordersOf_clean (c : Config) (origin content : String) :
    ∀ p ∈ ordersOf c origin content,
      p.1.origin = origin ∧ Gives (fun o => Spaced o.name) Fault.Clean p.2 := by
  intro p hp
  obtain ⟨q, -, rfl⟩ := List.mem_map.mp hp
  exact ⟨rfl, q.2.order_clean⟩

namespace Run

structure Quotes (origin : String → Prop) (r : Run) : Prop where
  report : ∀ d ∈ r.report, d.Quotes origin
  firstSeen : ∀ s ∈ r.firstSeen, origin s.2.origin

namespace Quotes
variable {origin : String → Prop} {c : Config} {r : Run} {l : Location}

theorem start : Quotes origin start :=
  ⟨fun _ hd => absurd hd List.not_mem_nil, fun _ hs => absurd hs List.not_mem_nil⟩

theorem see {name : String} (h : r.Quotes origin) (hl : origin l.origin) (hname : Spaced name) :
    (r.see l name).Quotes origin := by
  rw [Run.see]
  split
  · exact ⟨h.report, fun s hs => (List.mem_append.mp hs).elim (h.firstSeen s) fun hs =>
      List.mem_singleton.mp hs ▸ hl⟩
  case h_2 first hfirst =>
    -- the warning quotes a location that the run remembers
    obtain ⟨before, after, hseen, -⟩ := List.lookup_eq_some_iff.mp hfirst
    have horigin : origin first.origin := h.firstSeen (name, first) (by simp [hseen])
    refine ⟨fun d hd => ?_, h.firstSeen⟩
    rcases List.mem_append.mp hd with hd | hd
    · exact h.report d hd
    · rw [List.mem_singleton.mp hd]
      exact .duplicate hl hname horigin

theorem apply {o : Order} (h : r.Quotes origin) (hl : origin l.origin) (ho : Spaced o.name) :
    (r.apply c l o).Quotes origin := by
  cases o with
  | openSpace name => exact ⟨h.report, h.firstSeen⟩
  | declare d =>
    have hnoted : (r.note (.declared l d r.registration.active)).Quotes origin :=
      ⟨h.report, h.firstSeen⟩
    have hseen := hnoted.see hl ho
    exact ⟨hseen.report, hseen.firstSeen⟩

theorem skip {f : Fault} (h : r.Quotes origin) (hl : origin l.origin) (hf : f.Clean) :
    (r.skip l f).Quotes origin := by
  refine ⟨fun d hd => ?_, h.firstSeen⟩
  rcases List.mem_append.mp hd with hd | hd
  · exact h.report d hd
  · rw [List.mem_singleton.mp hd]
    exact .fault hl hf

theorem carryOut {os : List (Location × Except Fault Order)} (h : r.Quotes origin)
    (hos : ∀ p ∈ os, origin p.1.origin ∧ Gives (fun o => Spaced o.name) Fault.Clean p.2) :
    (r.carryOut c os).1.Quotes origin := by
  induction os generalizing r with
  | nil => exact h
  | cons p os ih =>
    obtain ⟨⟨hl, he⟩, hrest⟩ := List.forall_mem_cons.mp hos
    obtain ⟨l, e⟩ := p
    cases e with
    | ok o => exact ih (h.apply hl he) hrest
    | error f =>
      rw [Run.carryOut]
      cases c.onError with
      | abort => exact ⟨h.report, h.firstSeen⟩
      | skip => exact ih (h.skip hl he) hrest

theorem scan {s : Source} (read : ReadText) (h : r.Quotes origin) (hs : origin s.origin) :
    (r.scan c read s).1.Quotes origin := by
  rcases scan_cases c read r s with ⟨-, hscan⟩ | ⟨-, -, f, hscan⟩ | ⟨-, hscan⟩
  · rw [hscan]
    exact h
  · rw [hscan]
    exact ⟨h.report, h.firstSeen⟩
  · rw [hscan]
    have htaken : (r.takeUp s).Quotes origin := ⟨h.report, h.firstSeen⟩
    refine htaken.carryOut fun p hp => ?_
    have horders : ∀ content, p ∈ ordersOf c s.origin content → origin p.1.origin ∧
        Gives (fun o => Spaced o.name) Fault.Clean p.2 := by
      intro content hp
      obtain ⟨hl, he⟩ := ordersOf_clean c s.origin content p hp
      exact ⟨hl ▸ hs, he⟩
    cases s with
    | text name content => exact horders content hp
    | file path =>
      rw [Source.orders] at hp
      split at hp
      · exact horders _ hp
      · cases hp

theorem scanEach {calls : List (ReadText × Source)} (h : r.Quotes origin)
    (hcalls : ∀ call ∈ calls, origin call.2.origin) : (r.scanEach c calls).1.Quotes origin := by
  induction calls generalizing r with
  | nil => exact h
  | cons call calls ih =>
    obtain ⟨hcall, hcalls⟩ := List.forall_mem_cons.mp hcalls
    exact ih (h.scan call.1 hcall) hcalls

theorem scanFiles {paths : List String} {last : Run} (read : ReadText) (h : r.Quotes origin)
    (hpaths : ∀ p ∈ paths, origin p) (hok : r.scanFiles c read paths = .ok last) :
    last.Quotes origin := by
  induction paths generalizing r with
  | nil =>
    cases hok
    exact h
  | cons path paths ih =>
    obtain ⟨hpath, hpaths⟩ := List.forall_mem_cons.mp hpaths
    rw [scanFiles_cons] at hok
    cases hs : (r.scanFile c read path).2 with
    | some f => simp [hs] at hok
    | none =>
      rw [hs] at hok
      exact ih (h.scan (s := .file path) read hpath) hpaths hok

end Quotes
end Run

theorem generate_quotes {origin : String → Prop} {c : Config} {read : ReadText}
    {paths : List String} {bundle : Bundle} {report : Report} (hpaths : ∀ p ∈ paths, origin p)
    (h : generate c read paths = .ok (bundle, report)) : ∀ d ∈ report, d.Quotes origin := by
  rw [generate, bind_eq_ok_iff] at h
  obtain ⟨last, hscan, hfinish⟩ := h
  rw [bind_eq_ok_iff] at hfinish
  obtain ⟨b, -, hok⟩ := hfinish
  cases hok
  exact (Run.Quotes.start.scanFiles read hpaths hscan).report

/-- Every diagnostic of a run over paths without a newline is printed on one line. -/
theorem generate_lined {c : Config} {read : ReadText} {paths : List String} {bundle : Bundle}
    {report : Report} (hpaths : ∀ p ∈ paths, OneLine p)
    (h : generate c read paths = .ok (bundle, report)) : ∀ d ∈ report, OneLine d.coloured :=
  fun d hd => (generate_quotes hpaths h d hd).lined.2

end Bindery
