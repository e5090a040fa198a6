import Bindery.Proofs.DiagnosticLines
import Bindery.Proofs.FrontEnds
import Bindery.Proofs.PolicyAgreement
import Bindery.Proofs.RunLog

/-!
# How the command ends

A run over files fails on a file that cannot be read, and on a refused directive unless
it skips. What it reports as errors is then what it has skipped, in order. So the command
either fails before it has written anything, or writes its whole text, and its status tells
whether anything was skipped. What its log lets through stands first on its error output; a
log of warnings has one line for each diagnostic.
-/

set_option autoImplicit false

namespace Bindery

def refusedOf (c : Config) (read : ReadText) (paths : List String) : Report :=
  paths.flatMap fun path => refused ((Source.file path).orders c read)

theorem refusedOf_cons (c : Config) (read : ReadText) (path : String) (paths : List String) :
    refusedOf c read (path :: paths) =
      refused ((Source.file path).orders c read) ++ refusedOf c read paths :=
  List.flatMap_cons

namespace Report

theorem printed_eq (r : Report) : r.printed = String.join (r.map fun d => d.coloured ++ "\n") := by
  induction r with
  | nil => rfl
  | cons d r ih => rw [printed, ih, List.map_cons, String.join_cons]

theorem summary_eq_empty_iff (r : Report) : r.summary = "" ↔ r = [] := by
  rw [summary]
  split
  case isTrue h => simp [h]
  case isFalse h => simp [h]

end Report

namespace Run

variable {c : Config} {read : ReadText} {r : Run}

theorem scanFile_ends_iff (path : String) (h : r.aborted = false) :
    (r.scanFile c read path).2 = none ↔ (∃ content, read path = .ok content) ∧
      (c.onError = .skip ∨ refused ((Source.file path).orders c read) = []) := by
  cases hread : read path with
  | error fault => simp [scanFile, h, hread]
  | ok content =>
    simp only [scanFile, scanText, h, hread, Source.orders, Bool.false_eq_true, if_false]
    rw [carryOut_ends_iff]
    simp

theorem scanFile_running {path : String} (h : r.aborted = false)
    (hends : (r.scanFile c read path).2 = none) : (r.scanFile c read path).1.aborted = false := by
  have haborted := scan_aborted c read r (.file path) h
  rw [scan, hends] at haborted
  exact haborted

theorem scanFile_failed {path : String} (h : r.aborted = false)
    (hends : (r.scanFile c read path).2 = none) :
    (r.scanFile c read path).1.report.failed =
      r.report.failed ++ refused ((Source.file path).orders c read) := by
  obtain ⟨hscan, hnone⟩ := scan_running c read r (.file path) (scanFile_running h hends)
  rw [scan] at hscan
  rw [hscan]
  exact carryOut_failed c (r.takeUp (.file path)) _ hnone

theorem scanFiles_ends_iff (paths : List String) (h : r.aborted = false) :
    (∃ last, r.scanFiles c read paths = .ok last) ↔
      (∀ path ∈ paths, ∃ content, read path = .ok content) ∧
        (c.onError = .skip ∨ refusedOf c read paths = []) := by
  induction paths generalizing r with
  | nil => simp [scanFiles, refusedOf]
  | cons path paths ih =>
    have hfile : (r.scanFile c read path).2 = none ↔ _ := scanFile_ends_iff path h
    rw [scanFiles_cons, refusedOf_cons, List.forall_mem_cons, List.append_eq_nil_iff]
    cases hs : (r.scanFile c read path).2 with
    | some f =>
      have hfails : ¬((∃ content, read path = .ok content) ∧
          (c.onError = .skip ∨ refused ((Source.file path).orders c read) = [])) := by
        rw [← hfile, hs]
        simp
      simp only [reduceCtorEq, exists_false, false_iff]
      rintro ⟨⟨hread, -⟩, hdone⟩
      exact hfails ⟨hread, hdone.imp_right And.left⟩
    | none =>
      obtain ⟨hread, hdone⟩ := hfile.mp hs
      simp only
      rw [ih (scanFile_running h hs)]
      constructor
      · rintro ⟨hpaths, hrest⟩
        exact ⟨⟨hread, hpaths⟩, or_and_left.mpr ⟨hdone, hrest⟩⟩
      · rintro ⟨⟨-, hpaths⟩, hrest⟩
        exact ⟨hpaths, hrest.imp_right And.right⟩

theorem scanFiles_failed {paths : List String} {last : Run} (h : r.aborted = false)
    (hok : r.scanFiles c read paths = .ok last) :
    last.report.failed = r.report.failed ++ refusedOf c read paths := by
  induction paths generalizing r with
  | nil =>
    cases hok
    simp [refusedOf]
  | cons path paths ih =>
    rw [scanFiles_cons] at hok
    cases hs : (r.scanFile c read path).2 with
    | some f => simp [hs] at hok
    | none =>
      rw [hs] at hok
      rw [ih (scanFile_running h hs) hok, scanFile_failed h hs, refusedOf_cons, List.append_assoc]

end Run

section Generate
variable {c : Config} {read : ReadText} {paths : List String}

theorem generate_eq_ok_iff {bundle : Bundle} {report : Report} :
    generate c read paths = .ok (bundle, report) ↔
      ∃ last, Run.start.scanFiles c read paths = .ok last ∧ bundle = last.bundle c ∧
        report = last.report := by
  cases hs : Run.start.scanFiles c read paths with
  | error f => simp [generate, hs, bind, Except.bind]
  | ok last =>
    have hlast := Run.scanFiles_running c read Run.start last paths rfl hs
    have hfinish := Run.finish_of_running c last hlast
    simp [generate, hs, hfinish, bind, Except.bind, eq_comm]

/-- A run over files makes a bundle if it can read them all, and every directive in them
that it does not skip. -/
theorem generate_ends_iff :
    (∃ bundle report, generate c read paths = .ok (bundle, report)) ↔
      (∀ path ∈ paths, ∃ content, read path = .ok content) ∧
        (c.onError = .skip ∨ refusedOf c read paths = []) := by
  rw [← Run.scanFiles_ends_iff (r := Run.start) paths rfl]
  simp only [generate_eq_ok_iff]
  constructor
  · rintro ⟨-, -, last, hlast, -⟩
    exact ⟨last, hlast⟩
  · rintro ⟨last, hlast⟩
    exact ⟨_, _, last, hlast, rfl, rfl⟩

theorem generate_failed {bundle : Bundle} {report : Report}
    (h : generate c read paths = .ok (bundle, report)) :
    report.failed = refusedOf c read paths := by
  obtain ⟨last, hlast, -, rfl⟩ := generate_eq_ok_iff.mp h
  exact Run.scanFiles_failed rfl hlast

end Generate

namespace Request

inductive Fails (t : FileTree) (r : Request) : Prop where
  | settings (path : String) (hpath : r.settings = some path)
      (h : ∀ content c, t.readText path = .ok content → Config.ofToml? content ≠ some c)
  | input (path : String) (hpath : path ∈ r.inputs) (h : ∀ content, t.readText path ≠ .ok content)
  | directive (c : Config) (hconfig : r.config t.readText = .ok c) (habort : c.onError = .abort)
      (h : refusedOf c t.readText r.inputs ≠ [])
  | output (path : String) (hpath : r.output = some path) (h : ¬t.Writable path)

theorem config_ends {read : ReadText} {r : Request}
    (h : ∀ path, r.settings = some path →
      ∃ content c, read path = .ok content ∧ Config.ofToml? content = some c) :
    ∃ c, r.config read = .ok c := by
  rw [config, baseConfig]
  cases hsettings : r.settings with
  | none => exact ⟨_, rfl⟩
  | some path =>
    obtain ⟨content, c, hread, hparse⟩ := h path hsettings
    exact ⟨r.override c, by simp [hread, hparse, Except.map]⟩

theorem settings_readable {read : ReadText} {r : Request} {c : Config} {path : String}
    (h : r.config read = .ok c) (hpath : r.settings = some path) :
    ∃ content base, read path = .ok content ∧ Config.ofToml? content = some base := by
  rw [config, baseConfig, hpath] at h
  cases hread : read path with
  | error fault => simp [hread, Except.map] at h
  | ok content =>
    cases hparse : Config.ofToml? content with
    | none => simp [hread, hparse, Except.map] at h
    | some base => exact ⟨content, base, rfl, hparse⟩

theorem render_ends {read : ReadText} {r : Request} {made : Rendering}
    (h : r.render read = .ok made) :
    ∃ c bundle, r.config read = .ok c ∧ generate c read r.inputs = .ok (bundle, made.report) := by
  rw [render, bind_eq_ok_iff] at h
  obtain ⟨c, hconfig, h⟩ := h
  cases hgenerate : generate c read r.inputs with
  | error f => simp [hgenerate] at h
  | ok made =>
    simp only [hgenerate, Except.ok.injEq] at h
    obtain rfl := h
    exact ⟨c, made.1, hconfig, hgenerate⟩

end Request

structure Outcome.Failed (t : FileTree) (logged : String) (o : Outcome) : Prop where
  status : o.status = 1
  output : o.output = ""
  errorOutput : ∃ rest, o.errorOutput = logged ++ "Error: " ++ rest
  tree : t.SameFiles o.tree

structure Outcome.Wrote (t : FileTree) (r : Request) (text : String) (report : Report)
    (logged : String) (o : Outcome) : Prop where
  printed : r.output = none → o.output = text ∧ o.tree = t
  saved : ∀ path, r.output = some path → o.output = "" ∧ t.Saved o.tree path text
  errorOutput :
    o.errorOutput = logged ++ String.join (report.map fun d => d.coloured ++ "\n") ++ report.summary

theorem Log.off_text (notices : List Notice) : off.text notices = "" := by
  have hnone : notices.filter off.admits = [] := List.filter_eq_nil_iff.mpr fun _ _ h => by cases h
  rw [text, hnone]
  rfl

namespace Request
variable {t : FileTree} {r : Request}

theorem trouble_text (logged : String) (trouble : Trouble) :
    ∃ rest, logged ++ trouble.text = logged ++ "Error: " ++ rest :=
  ⟨trouble.message ++ (Trouble.causesText trouble.causes ++ "\n"),
    by simp only [Trouble.text, String.append_assoc]⟩

theorem reportText_eq (logged : String) (report : Report) :
    logged ++ reportText report =
      logged ++ String.join (report.map fun d => d.coloured ++ "\n") ++ report.summary := by
  rw [reportText, Report.printed_eq, String.append_assoc]

/-- The warnings among the notices go with the diagnostics, one for each and in order. -/
theorem notices_warned {read : ReadText} {c : Config} {bundle : Bundle} {report : Report}
    (hconfig : r.config read = .ok c) (h : generate c read r.inputs = .ok (bundle, report))
    (wrappers : Nat) : ∃ events : List Event, List.Forall₂ Diagnostic.Logged report events ∧
      (r.notices read wrappers).filter (fun n => n.level == .warn) = events.map .event := by
  refine ⟨(generateLog c read r.inputs).filter fun e => e.level == .warn, ?_, ?_⟩
  · obtain ⟨last, hlast, -, rfl⟩ := generate_eq_ok_iff.mp h
    rw [← Run.scanFiles_scanAll hlast]
    exact generateLog_warned c read r.inputs
  · have hloaded : (r.settings.map Notice.loaded).toList.filter (fun n => n.level == .warn) = [] := by
      cases r.settings <;> rfl
    have hwrote : (r.output.map (Notice.wrote wrappers)).toList.filter (fun n => n.level == .warn) =
        [] := by
      cases r.output <;> rfl
    simp only [notices, told, hconfig, List.filter_append, hloaded, hwrote, List.filter_map,
      List.nil_append, List.append_nil]
    rfl

theorem perform_failed (log : Log) (h : r.Fails t) :
    (r.perform t log).Failed t (log.text (r.told t.readText)) := by
  cases hrender : r.render t.readText with
  | error trouble =>
    rw [perform, hrender]
    exact ⟨rfl, rfl, trouble_text _ trouble, FileTree.SameFiles.refl t⟩
  | ok made =>
    obtain ⟨c, bundle, hconfig, hgenerate⟩ := render_ends hrender
    obtain ⟨hread, hdone⟩ := generate_ends_iff.mp ⟨bundle, made.report, hgenerate⟩
    -- the text is there, so only the place of the output can have failed
    cases h with
    | settings path hpath h =>
      obtain ⟨content, base, hcontent, hparse⟩ := settings_readable hconfig hpath
      exact absurd hparse (h content base hcontent)
    | input path hpath h =>
      obtain ⟨content, hcontent⟩ := hread path hpath
      exact absurd hcontent (h content)
    | directive c' hconfig' habort h =>
      obtain rfl : c = c' := by simpa [hconfig] using hconfig'
      simp [habort, h] at hdone
    | output path hpath h =>
      rw [← FileTree.save_eq_none_iff t path (.text made.text)] at h
      cases hsave : t.save path (.text made.text) with
      | mk left fault =>
        cases fault with
        | none => simp [hsave] at h
        | some fault =>
          have hperform : r.perform t log =
              ⟨1, "", log.text (r.told t.readText) ++ (Trouble.ofSave path fault).text, left⟩ := by
            simp [perform, hrender, hpath, hsave]
          rw [hperform]
          exact ⟨rfl, rfl, trouble_text _ _, FileTree.save_failed hsave⟩

theorem perform_wrote (log : Log) (h : ¬r.Fails t) :
    ∃ c bundle report, r.config t.readText = .ok c ∧
      generate c t.readText r.inputs = .ok (bundle, report) ∧
      (r.perform t log).status = status report ∧
      (r.perform t log).Wrote t r (r.format.render c bundle) report
        (log.text (r.notices t.readText bundle.wrappers.length)) := by
  have hsettings : ∀ path, r.settings = some path →
      ∃ content c, t.readText path = .ok content ∧ Config.ofToml? content = some c := by
    intro path hpath
    by_contra hnone
    exact h (.settings path hpath fun content c hcontent hparse =>
      hnone ⟨content, c, hcontent, hparse⟩)
  have hread : ∀ path ∈ r.inputs, ∃ content, t.readText path = .ok content := by
    intro path hpath
    by_contra hnone
    exact h (.input path hpath fun content hcontent => hnone ⟨content, hcontent⟩)
  obtain ⟨c, hconfig⟩ := config_ends hsettings
  have hdone : c.onError = .skip ∨ refusedOf c t.readText r.inputs = [] := by
    cases hpolicy : c.onError with
    | skip => exact .inl rfl
    | abort =>
      refine .inr ?_
      by_contra hrefused
      exact h (.directive c hconfig hpolicy hrefused)
  obtain ⟨bundle, report, hgenerate⟩ := generate_ends_iff.mpr ⟨hread, hdone⟩
  have hrender := render_eq hconfig hgenerate
  refine ⟨c, bundle, report, hconfig, hgenerate, ?_⟩
  cases hout : r.output with
  | none =>
    rw [perform_printed log hrender hout]
    exact ⟨rfl, fun _ => ⟨rfl, rfl⟩, fun path hpath => by simp [hout] at hpath,
      reportText_eq _ report⟩
  | some file =>
    have hwritable : t.Writable file := by
      by_contra hnot
      exact h (.output file hout hnot)
    obtain ⟨written, hsaved, hperform⟩ := perform_saved log hrender hout hwritable
    rw [hperform]
    refine ⟨rfl, fun hnone => by simp [hout] at hnone, fun path hpath => ?_,
      reportText_eq _ report⟩
    obtain rfl : file = path := by simpa [hout] using hpath
    exact ⟨rfl, hsaved⟩

end Request

/-- The command fails exactly when its settings, an input, a directive that it does not skip
or the place of its output does, and then it has written nothing. Otherwise it writes the
whole text and reports every diagnostic, and it ends with status 2 exactly when it has
skipped a directive. What the log lets through goes before the error and before the report:
nothing when the log is off, and a line for each diagnostic when it is a log of warnings. -/
theorem command_ends (t : FileTree) (args : List String) (log : Log) (r : Request)
    (h : Request.ofArguments args = .ok r) :
    let o := command t args log
    (o.status = 1 ↔ r.Fails t) ∧ (r.Fails t → o.Failed t (log.text (r.told t.readText))) ∧
    (¬r.Fails t → ∃ c bundle report, r.config t.readText = .ok c ∧
      generate c t.readText r.inputs = .ok (bundle, report) ∧
      (∃ logged, o.Wrote t r (r.format.render c bundle) report logged ∧
        logged = log.text (r.notices t.readText bundle.wrappers.length) ∧
        ∀ line, log = .warnings line → ∃ events : List Event,
          List.Forall₂ Diagnostic.Logged report events ∧
          logged = String.join ((events.map Notice.event).mapIdx line)) ∧
      report.failed = refusedOf c t.readText r.inputs ∧
      (o.status = 2 ↔ c.onError = .skip ∧ refusedOf c t.readText r.inputs ≠ []) ∧
      (o.status = 0 ↔ report.hasErrors = false) ∧ (o.status = 0 ∨ o.status = 2) ∧
      (report.summary = "" ↔ report = []) ∧
      ((∀ path ∈ r.inputs, OneLine path) → ∀ d ∈ report, OneLine d.coloured)) ∧
    (log = .off → ∀ notices, log.text notices = "") := by
  intro o
  have ho : o = r.perform t log := command_eq log h
  rw [ho]
  refine ⟨⟨fun hstatus => ?_, fun hfails => (Request.perform_failed log hfails).status⟩,
    Request.perform_failed log, fun hfails => ?_, ?_⟩
  · by_contra hfails
    obtain ⟨c, bundle, report, -, -, hends, -⟩ := Request.perform_wrote log hfails
    rw [hstatus, Request.status] at hends
    split at hends <;> cases hends
  · obtain ⟨c, bundle, report, hconfig, hgenerate, hstatus, hleft⟩ :=
      Request.perform_wrote log hfails
    have hfailed := generate_failed hgenerate
    obtain ⟨-, hdone⟩ := generate_ends_iff.mp ⟨bundle, report, hgenerate⟩
    refine ⟨c, bundle, report, hconfig, hgenerate, ⟨_, hleft, rfl, ?_⟩, hfailed, ?_, ?_, ?_,
      report.summary_eq_empty_iff, fun hinputs => generate_lined hinputs hgenerate⟩
    · rintro line rfl
      obtain ⟨events, hlogged, hevents⟩ :=
        Request.notices_warned hconfig hgenerate bundle.wrappers.length
      refine ⟨events, hlogged, ?_⟩
      rw [← hevents]
      rfl
    all_goals rw [hstatus, Request.status]
    · rw [← hfailed, Ne, Report.failed_eq_nil_iff]
      rw [← hfailed, Report.failed_eq_nil_iff] at hdone
      cases herrors : report.hasErrors with
      | true => simpa [herrors] using hdone
      | false => simp
    · cases report.hasErrors <;> simp
    · cases report.hasErrors <;> simp
  · rintro rfl
    exact Log.off_text

/-- With a log of warnings the report is not all that stands on the error output. -/
theorem command_ends_behind_log :
    let t := (FileTree.empty ["work"]).put ["work", "a.hpp"] (.text "DFUNC float half(int x);\n")
    let line : Nat → Notice → String := fun _ => Notice.plainLine "2026-01-01T00:00:00.000000Z"
    let o := command t ["-k", "a.hpp"] (.ofVariable (fun _ => none) line none)
    let d : Diagnostic := .ofFault ⟨"a.hpp", 1⟩ (.unknownReturnType "float")
    (generate { onError := .skip } t.readText ["a.hpp"]).toOption.map Prod.snd = some [d] ∧
    o.status = 2 ∧ o.output ≠ "" ∧ o.tree = t ∧
    o.errorOutput = "2026-01-01T00:00:00.000000Z  WARN duk_weld::build::generator: " ++
      "a.hpp:1: skipping directive: unknown return type `float`\n" ++
      (d.coloured ++ "\n" ++ Report.summary [d]) ∧
    o.errorOutput ≠ d.coloured ++ "\n" ++ Report.summary [d] := by
  decide +kernel

theorem command_ends_each_way :
    let t := ((FileTree.empty ["work"]).put ["work", "a.hpp"]
        (.text "DFUNC void go();\nDFUNC float half(int x);\n")).put ["work", "b.hpp"]
      (.text "DFUNC void go();\nDFUNC void go();\n")
    let line : Nat → Notice → String := fun _ => Notice.plainLine "2026-01-01T00:00:00.000000Z"
    let log := Log.ofVariable (fun _ => none) line none
    let skipping := command t ["-k", "a.hpp"] log
    let saving := command t ["b.hpp", "-o", "gen/w.inc"]
    (command t ["a.hpp"] log).Failed t "" ∧ skipping.status = 2 ∧ saving.status = 0 ∧
    (∃ (report : Report) (events : List Event), report ≠ [] ∧ (∀ d ∈ report, OneLine d.coloured) ∧
      List.Forall₂ Diagnostic.Logged report events ∧
      skipping.errorOutput = String.join ((events.map Notice.event).mapIdx line) ++
        String.join (report.map fun d => d.coloured ++ "\n") ++ report.summary) ∧
    ∃ (text : String) (report : Report), t.Saved saving.tree "gen/w.inc" text ∧
      saving.errorOutput =
        String.join (report.map fun d => d.coloured ++ "\n") ++ report.summary := by
  intro t line log skipping saving
  obtain ⟨-, hstops, -⟩ := command_ends t ["a.hpp"] log
    ⟨["a.hpp"], none, .cpp, none, false, none⟩ (by cbv)
  obtain ⟨hone, -, hskips, -⟩ := command_ends t ["-k", "a.hpp"] log
    ⟨["a.hpp"], none, .cpp, none, true, none⟩ (by cbv)
  obtain ⟨hone', -, hsaves, hoff⟩ := command_ends t ["b.hpp", "-o", "gen/w.inc"] .off
    ⟨["b.hpp"], some "gen/w.inc", .cpp, none, false, none⟩ (by cbv)
  have hrefused : refusedOf {} t.readText ["a.hpp"] ≠ [] := by decide +kernel
  obtain ⟨c, bundle, report, hc, -, ⟨_, hleft, -, hlines⟩, hfailed, htwo, -, -, -, hlined⟩ :=
    hskips (by
      rw [← hone]
      decide +kernel)
  obtain ⟨_, _, report', -, -, ⟨_, hleft', hlogged', -⟩, -⟩ := hsaves (by
    rw [← hone']
    decide +kernel)
  cases hc
  obtain ⟨events, hevents, hlines⟩ := hlines line rfl
  have hsilent : log.text (Request.told t.readText ⟨["a.hpp"], none, .cpp, none, false, none⟩) = "" := by
    decide +kernel
  refine ⟨hsilent ▸ hstops (.directive {} rfl rfl hrefused), htwo.mpr ⟨rfl, ?_⟩, by decide +kernel,
    ⟨report, events, ?_, hlined (by simp [OneLine]), hevents, hlines ▸ hleft.errorOutput⟩,
    _, report', (hleft'.saved _ rfl).2, ?_⟩
  · decide +kernel
  · rintro rfl
    exact absurd hfailed.symm (by decide +kernel)
  · rw [hoff rfl] at hlogged'
    simpa [hlogged'] using hleft'.errorOutput

end Bindery
