import Bindery.BuildStep
import Bindery.Command
import Bindery.Proofs.FailedScans
import Bindery.Proofs.SavedFiles

/-!
# Build step and command

The build step scans its sources by a loop of its own, after it has made sure that
they all exist. What it writes and reports is nevertheless what a plain run over the
same files makes of them, and the command writes the same text.
-/

set_option autoImplicit false

namespace Bindery
namespace BuildStep

theorem foldlM_scanSource (b : BuildStep) (read : ReadText) (r : Run) (paths : List String) :
    paths.foldlM (b.scanSource read) r = r.scanFiles b.config read paths := by
  induction paths generalizing r with
  | nil => rfl
  | cons path paths ih =>
    rw [List.foldlM_cons, Run.scanFiles, scanSource]
    rcases r.scanFile b.config read path with ⟨next, failure⟩
    cases failure with
    | some failure => rfl
    | none => exact ih next

/-- The loop of the build step and the run over files come to the same. -/
theorem finish_scanned (b : BuildStep) (read : ReadText) (paths : List String) :
    (do let r ← b.scanned read paths
        let bundle ← (r.finish b.config).1
        .ok (bundle, r.report)) = generate b.config read paths := by
  rw [scanned, foldlM_scanSource]
  rfl

variable {b : BuildStep} {t : FileTree} {root out : String}

theorem runIn_missing {before after : List String} {missing : String}
    (hpaths : b.fullSources root = before ++ missing :: after)
    (hbefore : ∀ p ∈ before, t.exists? p = true) (hmissing : t.exists? missing = false) :
    b.runIn t root out = ⟨.error (.sourceNotFound missing), "", t⟩ := by
  have hfind : (b.fullSources root).find? (fun p => !t.exists? p) = some missing := by
    rw [List.find?_eq_some_iff_append]
    exact ⟨by simp [hmissing], before, after, hpaths, by simpa using hbefore⟩
  rw [runIn]
  simp only [hfind]

theorem find?_missing_eq_none (h : ∀ p ∈ b.fullSources root, t.exists? p = true) :
    (b.fullSources root).find? (fun p => !t.exists? p) = none := by
  simpa using h

theorem runIn_failed {f : Failure} (hexist : ∀ p ∈ b.fullSources root, t.exists? p = true)
    (h : generate b.config t.readText (b.fullSources root) = .error f) :
    (b.runIn t root out).outcome = .error f ∧ (b.runIn t root out).tree = t := by
  rw [← finish_scanned] at h
  rw [runIn]
  simp only [find?_missing_eq_none hexist]
  cases hscan : b.scanned t.readText (b.fullSources root) with
  | error failure =>
    rw [hscan] at h
    cases h
    exact ⟨rfl, rfl⟩
  | ok r =>
    simp only [hscan, bind, Except.bind] at h ⊢
    cases hfinish : (r.finish b.config).1 with
    | error failure =>
      rw [hfinish] at h
      cases h
      exact ⟨rfl, rfl⟩
    | ok bundle => simp [hfinish] at h

theorem runIn_written {bundle : Bundle} {report : Report}
    (hexist : ∀ p ∈ b.fullSources root, t.exists? p = true)
    (h : generate b.config t.readText (b.fullSources root) = .ok (bundle, report))
    (hout : t.Writable (Path.join out b.output)) :
    (b.runIn t root out).outcome =
        .ok ⟨Path.join out b.output, bundle.wrappers.length, report⟩ ∧
      t.Saved (b.runIn t root out).tree (Path.join out b.output)
        (b.format.render b.config bundle) := by
  rw [← finish_scanned] at h
  rw [runIn]
  simp only [find?_missing_eq_none hexist]
  cases hscan : b.scanned t.readText (b.fullSources root) with
  | error failure =>
    rw [hscan] at h
    cases h
  | ok r =>
    simp only [hscan, bind, Except.bind] at h ⊢
    cases hfinish : (r.finish b.config).1 with
    | error failure => simp [hfinish] at h
    | ok made =>
      simp only [hfinish, Except.ok.injEq, Prod.mk.injEq] at h ⊢
      obtain ⟨rfl, rfl⟩ := h
      rw [← FileTree.save_eq_none_iff t _ (.text (b.format.render b.config made))] at hout
      cases hsave : t.save (Path.join out b.output) (.text (b.format.render b.config made)) with
      | mk written fault =>
        obtain rfl : fault = none := by rw [hsave] at hout; exact hout
        exact ⟨rfl, FileTree.save_saved hsave⟩

end BuildStep

namespace Request

theorem render_eq {r : Request} {read : ReadText} {c : Config} {bundle : Bundle}
    {report : Report} (hconfig : r.config read = .ok c)
    (h : generate c read r.inputs = .ok (bundle, report)) :
    r.render read = .ok ⟨r.format.render c bundle, bundle.wrappers.length, report⟩ := by
  simp [render, hconfig, h, bind, Except.bind]

def notices (read : ReadText) (r : Request) (wrappers : Nat) : List Notice :=
  r.told read ++ (r.output.map (.wrote wrappers)).toList

theorem perform_printed {r : Request} {t : FileTree} {made : Rendering} (log : Log)
    (h : r.render t.readText = .ok made) (hout : r.output = none) :
    r.perform t log = ⟨status made.report, made.text,
      log.text (r.notices t.readText made.wrappers) ++ reportText made.report, t⟩ := by
  simp [perform, notices, h, hout]

theorem perform_saved {r : Request} {t : FileTree} {made : Rendering} {path : String} (log : Log)
    (h : r.render t.readText = .ok made) (hout : r.output = some path)
    (hwritable : t.Writable path) : ∃ written, t.Saved written path made.text ∧
      r.perform t log = ⟨status made.report, "",
        log.text (r.notices t.readText made.wrappers) ++ reportText made.report, written⟩ := by
  rw [← FileTree.save_eq_none_iff t _ (.text made.text)] at hwritable
  cases hsave : t.save path (.text made.text) with
  | mk written fault =>
    obtain rfl : fault = none := by rw [hsave] at hwritable; exact hwritable
    exact ⟨written, FileTree.save_saved hsave, by simp [perform, notices, h, hout, hsave]⟩

end Request

theorem command_eq {t : FileTree} {args : List String} {r : Request} (log : Log)
    (h : Request.ofArguments args = .ok r) : command t args log = r.perform t log := by
  rw [command, h]

/-- The build step refuses the first source that does not exist, and otherwise fails as
a run over its sources fails. Where that run makes a bundle, the build step and the
command write the same text: the one to its output, the other to a file or to its own
output. -/
theorem BuildStep.front_ends_write_alike (t : FileTree) (b : BuildStep) (root out : String) :
    let paths := b.sources.map (Path.join root)
    let result := b.runIn t root out
    let path := Path.join out b.output
    (∀ before missing after, paths = before ++ missing :: after →
      (∀ p ∈ before, t.exists? p = true) → t.exists? missing = false →
      result.outcome = .error (.sourceNotFound missing) ∧ result.printed = "" ∧ result.tree = t) ∧
    ((∀ p ∈ paths, t.exists? p = true) →
      (∀ failure, generate b.config t.readText paths = .error failure →
        result.outcome = .error failure ∧ result.tree = t) ∧
      ∀ bundle report, generate b.config t.readText paths = .ok (bundle, report) →
        t.Writable path →
        result.outcome = .ok ⟨path, bundle.wrappers.length, report⟩ ∧
          t.Saved result.tree path (b.format.render b.config bundle)) ∧
    ∀ bundle report, generate b.config t.readText paths = .ok (bundle, report) →
      ∀ (args : List String) (r : Request) (log : Log), Request.ofArguments args = .ok r →
        r.inputs = paths → r.format = b.format → r.config t.readText = .ok b.config →
        let text := b.format.render b.config bundle
        let outcome := command t args log
        (r.output = none → outcome.output = text ∧ outcome.tree = t) ∧
        ∀ file, r.output = some file → t.Writable file →
          outcome.output = "" ∧ t.Saved outcome.tree file text := by
  intro paths result path
  refine ⟨?_, ?_, ?_⟩
  · intro before missing after hpaths hbefore hmissing
    rw [show result = _ from runIn_missing hpaths hbefore hmissing]
    exact ⟨rfl, rfl, rfl⟩
  · intro hexist
    exact ⟨fun failure h => runIn_failed hexist h,
      fun bundle report h hout => runIn_written hexist h hout⟩
  · intro bundle report h args r log hargs hinputs hformat hconfig text outcome
    have hrender := Request.render_eq hconfig (hinputs.symm ▸ h)
    rw [hformat] at hrender
    rw [show outcome = _ from command_eq log hargs]
    constructor
    · intro hnone
      rw [Request.perform_printed log hrender hnone]
      exact ⟨rfl, rfl⟩
    · intro file hfile hwritable
      obtain ⟨written, hsaved, hperform⟩ := Request.perform_saved log hrender hfile hwritable
      rw [hperform]
      exact ⟨rfl, hsaved⟩

theorem BuildStep.front_ends_write_alike_skipping :
    let source := "DFUNC void go();\nDFUNC float half(int x);\n"
    let t := ((FileTree.empty ["work"]).put ["work", "m"] .directory).put
      ["work", "m", "a.hpp"] (.text source)
    let b : BuildStep := { sources := ["a.hpp"], output := "gen/w.inc", config := { onError := .skip } }
    let fault := Failure.directive ⟨"m/a.hpp", 2⟩ (.unknownReturnType "float")
    ((b.addSource "b.hpp").runIn t "m" "out").outcome = .error (.sourceNotFound "m/b.hpp") ∧
    ((b.withPolicy .abort).runIn t "m" "out").outcome = .error fault ∧
    t.Writable "out/gen/w.inc" ∧ t.Writable "w.inc" ∧
    ∃ bundle report, generate b.config t.readText ["m/a.hpp"] = .ok (bundle, report) ∧
      t.Saved (b.runIn t "m" "out").tree "out/gen/w.inc" (bundle.cpp b.config) ∧
      t.Saved (command t ["-k", "m/a.hpp", "-o", "w.inc"]).tree "w.inc" (bundle.cpp b.config) ∧
      (command t ["-k", "m/a.hpp"]).output = bundle.cpp b.config := by
  intro source t b fault
  have hthere : ∀ p ∈ ["m/a.hpp"], t.exists? p = true := by decide +kernel
  have hmissing : t.exists? "m/b.hpp" = false := by decide +kernel
  have hpaths : b.sources.map (Path.join "m") = ["m/a.hpp"] := by decide +kernel
  have hfault : generate (b.withPolicy .abort).config t.readText ["m/a.hpp"] = .error fault :=
    (generate_eq_error_iff _ _ _ _).mpr ((Run.scanFiles_eq_error_iff _ _ _ _ _).mpr
      ⟨[], "m/a.hpp", [], rfl, by decide +kernel, by decide +kernel⟩)
  have hok : (generate b.config t.readText ["m/a.hpp"]).isOk = true := by decide +kernel
  have hbuild : t.Writable "out/gen/w.inc" :=
    (FileTree.save_eq_none_iff t _ (.text "")).mp (by decide +kernel)
  have hfile : t.Writable "w.inc" :=
    (FileTree.save_eq_none_iff t _ (.text "")).mp (by decide +kernel)
  refine ⟨?_, ?_, hbuild, hfile, ?_⟩
  · exact ((front_ends_write_alike t (b.addSource "b.hpp") "m" "out").1
      ["m/a.hpp"] "m/b.hpp" [] (by decide +kernel) hthere hmissing).1
  · have hrun := (front_ends_write_alike t (b.withPolicy .abort) "m" "out").2.1
    rw [show (b.withPolicy .abort).sources.map (Path.join "m") = ["m/a.hpp"] from hpaths] at hrun
    exact ((hrun hthere).1 fault hfault).1
  · obtain ⟨-, hrun, hcommand⟩ := front_ends_write_alike t b "m" "out"
    rw [hpaths] at hrun hcommand
    cases h : generate b.config t.readText ["m/a.hpp"] with
    | error failure => simp [h, Except.isOk, Except.toBool] at hok
    | ok made =>
      obtain ⟨bundle, report⟩ := made
      have hout : Path.join "out" b.output = "out/gen/w.inc" := by decide +kernel
      rw [hout] at hrun
      have hto := hcommand bundle report h ["-k", "m/a.hpp", "-o", "w.inc"]
        ⟨["m/a.hpp"], some "w.inc", .cpp, none, true, none⟩ .off (by cbv) rfl rfl rfl
      have hon := hcommand bundle report h ["-k", "m/a.hpp"]
        ⟨["m/a.hpp"], none, .cpp, none, true, none⟩ .off (by cbv) rfl rfl rfl
      exact ⟨bundle, report, rfl, ((hrun hthere).2 bundle report h hbuild).2,
        (hto.2 "w.inc" rfl hfile).2, (hon.1 rfl).1⟩

end Bindery
