import Bindery.Proofs.DiagnosticLines
import Bindery.Proofs.FrontEnds

/-!
# What a build step prints

A build step prints one line for each source and, after a run without failure, one
line for each diagnostic. No text of a source can break out of its line: the
messages that quote it hold no blank but spaces.
-/

set_option autoImplicit false

namespace Bindery
open Bindery.Text

def HasLines (text : String) (ls : List String) : Prop :=
  text.toList.splitOn '\n' = ls.map String.toList ++ [[]]

theorem hasLines_nil : HasLines "" [] := rfl

theorem HasLines.cons {l text : String} {ls : List String} (hl : OneLine l)
    (h : HasLines text ls) : HasLines (l ++ "\n" ++ text) (l :: ls) := by
  have hsplit : (l ++ "\n" ++ text).toList = l.toList ++ '\n' :: text.toList := by simp
  rw [HasLines, hsplit, List.splitOn_append_cons_self_of_not_mem hl, h]
  rfl

theorem OneLine.join {base path : String} (hbase : OneLine base) (hpath : OneLine path) :
    OneLine (Path.join base path) := by
  rw [Path.join]
  split
  · exact hpath
  · split
    · exact (oneLine_append _ _).mpr ⟨hbase, hpath⟩
    · simp only [oneLine_append, hbase, hpath, and_true, true_and]
      decide

namespace BuildStep

theorem prefixedLines_hasLines (opening text : String) {ls rest : List String}
    (hopening : OneLine opening) (hls : ∀ l ∈ ls, OneLine l) (h : HasLines text rest) :
    HasLines (prefixedLines opening ls ++ text) (ls.map (opening ++ ·) ++ rest) := by
  induction ls with
  | nil => simpa [prefixedLines] using h
  | cons l ls ih =>
    obtain ⟨hl, hls⟩ := List.forall_mem_cons.mp hls
    have hline : OneLine (opening ++ l) := (oneLine_append _ _).mpr ⟨hopening, hl⟩
    have hrest := (ih hls).cons hline
    rw [prefixedLines, List.map_cons, List.cons_append]
    rwa [← String.append_assoc] at hrest

variable {b : BuildStep} {t : FileTree} {root out : String}

theorem runIn_silent (h : ∃ p ∈ b.fullSources root, t.exists? p = false) :
    (b.runIn t root out).printed = "" := by
  cases hfind : (b.fullSources root).find? fun p => !t.exists? p with
  | none =>
    obtain ⟨p, hp, hmissing⟩ := h
    have hthere := List.find?_eq_none.mp hfind p hp
    simp [hmissing] at hthere
  | some missing =>
    rw [runIn]
    simp only [hfind]

/-- What is printed does not depend on whether the output can be saved. -/
theorem runIn_printed (hexist : ∀ p ∈ b.fullSources root, t.exists? p = true) :
    (b.runIn t root out).printed = b.announced ++
      match generate b.config t.readText (b.fullSources root) with
      | .error _ => ""
      | .ok (_, report) => warned report := by
  rw [← finish_scanned, runIn]
  simp only [find?_missing_eq_none hexist]
  cases b.scanned t.readText (b.fullSources root) with
  | error failure => exact String.append_empty.symm
  | ok r =>
    simp only [bind, Except.bind]
    cases (r.finish b.config).1 with
    | error failure => exact String.append_empty.symm
    | ok bundle =>
      simp only
      rcases t.save (Path.join out b.output) (.text (b.format.render b.config bundle)) with
        ⟨left, fault⟩
      cases fault <;> rfl

end BuildStep

namespace Run

theorem carryOut_clean {c : Config} {r : Run} {os : List (Location × Except Fault Order)}
    {l : Location} {f : Fault} (hos : ∀ p ∈ os, Gives (fun o => Spaced o.name) Fault.Clean p.2)
    (h : (r.carryOut c os).2 = some (.directive l f)) : f.Clean := by
  induction os generalizing r with
  | nil => cases h
  | cons p os ih =>
    obtain ⟨hp, hrest⟩ := List.forall_mem_cons.mp hos
    obtain ⟨place, e⟩ := p
    cases e with
    | ok o => exact ih hrest h
    | error fault =>
      rw [carryOut] at h
      cases honError : c.onError with
      | abort =>
        simp only [honError, Option.some.injEq, Failure.directive.injEq] at h
        exact h.2 ▸ hp
      | skip =>
        rw [honError] at h
        exact ih hrest h

theorem scan_clean {c : Config} {read : ReadText} {r : Run} {s : Source} {l : Location}
    {f : Fault} (h : (r.scan c read s).2 = some (.directive l f)) : f.Clean := by
  have htext : ∀ origin content, (r.scanText c origin content).2 = some (.directive l f) →
      f.Clean := by
    intro origin content htext
    rw [scanText] at htext
    split at htext
    · cases htext
    · exact carryOut_clean (fun p hp => (ordersOf_clean c origin content p hp).2) htext
  cases s with
  | text origin content => exact htext origin content h
  | file path =>
    rw [scan, scanFile] at h
    split at h
    · cases h
    · cases hread : read path with
      | ok content =>
        rw [hread] at h
        exact htext path content h
      | error fault =>
        rw [hread] at h
        cases fault <;> cases h

theorem scanEach_clean {c : Config} {r : Run} {calls : List (ReadText × Source)} {l : Location}
    {f : Fault} (h : some (.directive l f) ∈ (r.scanEach c calls).2) : f.Clean := by
  induction calls generalizing r with
  | nil => cases h
  | cons call calls ih =>
    rw [scanEach_cons] at h
    rcases List.mem_cons.mp h with h | h
    · exact scan_clean h.symm
    · exact ih h

end Run

/-- What a diagnostic quotes of a source has no blank but spaces in it. A warning also
names an origin. -/
theorem Diagnostic.Quotes.spaced {origin : String → Prop} {d : Diagnostic}
    (h : d.Quotes origin) :
    (d.severity = .error ∧ Spaced d.message) ∨
      (d.severity = .warning ∧ d.code = some "W010" ∧ ∃ before name after,
        d.message = before ++ name ++ after ∧ origin name ∧ Spaced before ∧ Spaced after) := by
  cases h with
  | fault hl hf => exact .inl ⟨rfl, hf.message⟩
  | @duplicate l first name hl hname hfirst =>
    refine .inr ⟨rfl, rfl, "duplicate declaration of `" ++ name ++ "` (first declared at ",
      first.origin, ":" ++ toString first.line ++ ")", ?_, hfirst, ?_, ?_⟩
    · simp [Diagnostic.duplicate, Location.text, String.append_assoc]
    · simp only [spaced_append, hname, and_true]
      decide
    · rw [spaced_append, spaced_append]
      exact ⟨⟨by decide, spaced_number first.line⟩, by decide⟩

/-- Where neither a source nor the directory above has a newline in its name, a build
step prints nothing if a source does not exist. Otherwise it prints one line for each
source, also when the run fails, and then, if the run makes a bundle, one line for each
diagnostic, also when the bundle cannot be saved. Whatever the sources hold, the messages
of a run have no blank but spaces in them, apart from an origin that a warning names. -/
theorem BuildStep.printed_lines :
    (∀ (b : BuildStep) (t : FileTree) (root out : String),
      OneLine root → (∀ s ∈ b.sources, OneLine s) →
      let paths := b.sources.map (Path.join root)
      let printed := (b.runIn t root out).printed
      let announced := b.sources.map ("cargo:rerun-if-changed=" ++ ·)
      ((∃ p ∈ paths, t.exists? p = false) → printed = "") ∧
      ((∀ p ∈ paths, t.exists? p = true) →
        (∀ f, generate b.config t.readText paths = .error f → HasLines printed announced) ∧
        ∀ bundle report, generate b.config t.readText paths = .ok (bundle, report) →
          HasLines printed (announced ++ report.map fun d => "cargo:warning=" ++ d.text))) ∧
    ∀ (c : Config) (calls : List (ReadText × Source)),
      let done := Run.start.scanEach c calls
      (∀ d ∈ done.1.report, (d.severity = .error ∧ Spaced d.message) ∨
        (d.severity = .warning ∧ d.code = some "W010" ∧ ∃ before origin after,
          d.message = before ++ origin ++ after ∧ (∃ call ∈ calls, call.2.origin = origin) ∧
          Spaced before ∧ Spaced after)) ∧
      ∀ l f, some (.directive l f) ∈ done.2 → Spaced f.message := by
  constructor
  · intro b t root out hroot hsources paths printed announced
    refine ⟨runIn_silent, fun hexist => ?_⟩
    have hprinted : printed = _ := runIn_printed hexist
    have hannounced : ∀ text rest, HasLines text rest →
        HasLines (b.announced ++ text) (announced ++ rest) := fun text rest h =>
      prefixedLines_hasLines "cargo:rerun-if-changed=" text (by decide) hsources h
    constructor
    · intro f hfail
      rw [hprinted, show b.fullSources root = paths from rfl, hfail]
      simpa using hannounced "" [] hasLines_nil
    · intro bundle report hok
      have hpaths : ∀ p ∈ paths, OneLine p := by
        intro p hp
        obtain ⟨s, hs, rfl⟩ := List.mem_map.mp hp
        exact hroot.join (hsources s hs)
      have htexts : ∀ l ∈ report.map Diagnostic.text, OneLine l := by
        intro l hl
        obtain ⟨d, hd, rfl⟩ := List.mem_map.mp hl
        exact (generate_quotes hpaths hok d hd).lined.1
      have hwarned := prefixedLines_hasLines "cargo:warning=" "" (by decide) htexts hasLines_nil
      rw [String.append_empty, List.append_nil, List.map_map] at hwarned
      rw [hprinted, show b.fullSources root = paths from rfl, hok]
      exact hannounced _ _ hwarned
  · intro c calls done
    have hquotes : done.1.Quotes fun o => ∃ call ∈ calls, call.2.origin = o :=
      Run.Quotes.start.scanEach fun call hcall => ⟨call, hcall, rfl⟩
    exact ⟨fun d hd => (hquotes.report d hd).spaced,
      fun l f hf => (Run.scanEach_clean hf).message⟩

theorem BuildStep.printed_lines_tabbed :
    let source := "DFUNC void go();\nDFUNC void go();\nDFUNC\tfloat\thalf(int\tx);\r\n"
    let t := ((FileTree.empty ["work"]).put ["work", "m"] .directory).put
      ["work", "m", "a.hpp"] (.text source)
    let b : BuildStep := { sources := ["a.hpp"], config := { onError := .skip } }
    let fault := Fault.unknownReturnType "float"
    ((b.addSource "b.hpp").runIn t "m" "out").printed = "" ∧
    HasLines ((b.withPolicy .abort).runIn t "m" "out").printed
      ["cargo:rerun-if-changed=a.hpp"] ∧
    HasLines (b.runIn t "m" "out").printed ["cargo:rerun-if-changed=a.hpp",
      "cargo:warning=" ++ (Diagnostic.duplicate ⟨"m/a.hpp", 2⟩ "go" ⟨"m/a.hpp", 1⟩).text,
      "cargo:warning=" ++ (Diagnostic.ofFault ⟨"m/a.hpp", 3⟩ fault).text] ∧
    Spaced fault.message := by
  intro source t b fault
  obtain ⟨hprinted, hmessages⟩ := printed_lines
  have hthere : ∀ p ∈ ["a.hpp"].map (Path.join "m"), t.exists? p = true := by decide +kernel
  have hreport : (generate b.config t.readText (["a.hpp"].map (Path.join "m"))).map Prod.snd =
      .ok [Diagnostic.duplicate ⟨"m/a.hpp", 2⟩ "go" ⟨"m/a.hpp", 1⟩,
        Diagnostic.ofFault ⟨"m/a.hpp", 3⟩ fault] := by decide +kernel
  have hfault : (generate (b.withPolicy .abort).config t.readText
      (["a.hpp"].map (Path.join "m"))).map Prod.snd =
        .error (.directive ⟨"m/a.hpp", 3⟩ fault) := by decide +kernel
  refine ⟨?_, ?_, ?_, ?_⟩
  · exact (hprinted (b.addSource "b.hpp") t "m" "out" (by decide) (by decide)).1
      ⟨"m/b.hpp", by decide +kernel, by decide +kernel⟩
  · have hfailed :=
      ((hprinted (b.withPolicy .abort) t "m" "out" (by decide) (by decide)).2 hthere).1
    cases h : generate (b.withPolicy .abort).config t.readText (["a.hpp"].map (Path.join "m")) with
    | error failure => exact hfailed failure h
    | ok made =>
      rw [h] at hfault
      cases hfault
  · have hmade := ((hprinted b t "m" "out" (by decide) (by decide)).2 hthere).2
    cases h : generate b.config t.readText (["a.hpp"].map (Path.join "m")) with
    | error failure =>
      rw [h] at hreport
      cases hreport
    | ok made =>
      obtain ⟨bundle, report⟩ := made
      rw [h] at hreport
      obtain rfl := Except.ok.inj hreport
      exact hmade bundle _ h
  · exact (hmessages { onError := .abort } [(t.readText, .file "m/a.hpp")]).2
      ⟨"m/a.hpp", 3⟩ fault (by decide +kernel)

end Bindery
