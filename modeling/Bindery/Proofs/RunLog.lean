import Bindery.Proofs.DuplicateWarnings
import Bindery.Proofs.KeptBindings
import Bindery.Proofs.PolicyAgreement

/-!
# The log of a run

A run writes its log while it works, and keeps its report and its registration beside it. The
events for debugging can be told from the orders it has carried out, each with the target that is
active when it comes. The warnings are made together with the diagnostics, one for each. So what
the log says of a run is what the run has recorded.
-/

set_option autoImplicit false

namespace Bindery

def Event.line (e : Event) : Level × String := (e.level, e.message)

/-- The warning in the log that goes with a diagnostic. -/
inductive Diagnostic.Logged : Diagnostic → Event → Prop where
  | skipped {e : Event} (l : Location) (message code : String)
      (h : e.line = (.warn, l.text ++ ": skipping directive: " ++ message)) :
      Logged ⟨.error, message, some l, some code⟩ e
  | repeated {e : Event} (l first : Location) (name : String)
      (h : e.line = (.warn, l.text ++ ": duplicate declaration of " ++ name)) :
      Logged ⟨.warning, "duplicate declaration of `" ++ name ++ "` (first declared at " ++
        first.text ++ ")", some l, some "W010"⟩ e

namespace Event

def isOpening : Event → Bool
  | .opening _ _ => true
  | _ => false

def isDeclared : Event → Bool
  | .declared _ _ _ => true
  | _ => false

theorem isOpening_debug (e : Event) (h : e.isOpening = true) : e.level = .debug := by
  cases e <;> first | rfl | cases h

theorem isDeclared_debug (e : Event) (h : e.isDeclared = true) : e.level = .debug := by
  cases e <;> first | rfl | cases h

def openingLine (name previous : String) : Level × String :=
  (.debug, "opening namespace " ++ name ++ " (was " ++ previous ++ ")")

def declaredLine (p : Location × Declaration) (target : Target) : Level × String :=
  (.debug, p.1.text ++ ": " ++ p.2.returnType.spelling ++ " " ++ p.2.name ++ " with " ++
    toString p.2.arity ++ " param(s) on " ++ target.text)

def ofOrder (active : Target) (l : Location) : Order → List Event
  | .openSpace name => [.spaceRead l name, .opening name active]
  | .declare d => [.declared l d active]

def ofOrders : Target → List (Location × Order) → List Event
  | _, [] => []
  | active, (l, o) :: past => ofOrder active l o ++ ofOrders (targetAfter active [o]) past

theorem ofOrders_append (active : Target) (past rest : List (Location × Order)) :
    ofOrders active (past ++ rest) =
      ofOrders active past ++ ofOrders (targetAfter active (past.map Prod.snd)) rest := by
  induction past generalizing active with
  | nil => rfl
  | cons p past ih =>
    obtain ⟨l, o⟩ := p
    rw [List.cons_append, ofOrders, ofOrders, ih, List.map_cons,
      targetAfter_cons active o (past.map Prod.snd), List.append_assoc]

/-- Each opening names the space opened before it, and the first one the target active before. -/
theorem ofOrders_openings (active : Target) (past : List (Location × Order)) :
    let names := opened (past.map Prod.snd)
    ((ofOrders active past).filter isOpening).map line =
      List.zipWith openingLine names (active.text :: names) := by
  induction past generalizing active with
  | nil => rfl
  | cons p past ih =>
    obtain ⟨l, o⟩ := p
    cases o with
    | openSpace name => exact congrArg (openingLine name active.text :: ·) (ih (.space name))
    | declare d => exact ih active

/-- Each declaration is written down with the target on which it is bound. -/
theorem ofOrders_declared (c : Config) (active : Target) (past : List (Location × Order)) :
    ((ofOrders active past).filter isDeclared).map line =
      List.zipWith declaredLine (declaredAt past)
        ((landings c active (past.map Prod.snd)).map Prod.fst) := by
  induction past generalizing active with
  | nil => rfl
  | cons p past ih =>
    obtain ⟨l, o⟩ := p
    cases o with
    | openSpace name => exact ih (.space name)
    | declare d => exact congrArg (declaredLine (l, d) active :: ·) (ih active)

end Event

theorem declaredAt_length (past : List (Location × Order)) :
    (declaredAt past).length = (declared (past.map Prod.snd)).length := by
  induction past with
  | nil => rfl
  | cons p past ih =>
    obtain ⟨l, o⟩ := p
    cases o with
    | openSpace name => exact ih
    | declare d => exact congrArg (· + 1) ih

theorem Registration.foldl_obey_active (c : Config) (os : List Order) (r : Registration) :
    (os.foldl (obey c) r).active = targetAfter r.active os := by
  induction os generalizing r with
  | nil => rfl
  | cons o os ih =>
    rw [List.foldl_cons, ih, targetAfter_cons]
    cases o <;> rfl

namespace Run

structure Logs (c : Config) (past : List (Location × Order)) (r : Run) : Prop where
  registration : r.registration = (past.map Prod.snd).foldl (Registration.obey c) .empty
  debug : (r.log.filter fun e => e.level == .debug) = Event.ofOrders .global past
  warned : List.Forall₂ Diagnostic.Logged r.report (r.log.filter fun e => e.level == .warn)

/-- An order writes what it says for debugging, and a warning where it adds a diagnostic. -/
theorem apply_logged (c : Config) (r : Run) (l : Location) (o : Order) :
    ((r.apply c l o).log.filter fun e => e.level == .debug) =
      (r.log.filter fun e => e.level == .debug) ++ Event.ofOrder r.registration.active l o ∧
    ∃ ds es, (r.apply c l o).report = r.report ++ ds ∧
      ((r.apply c l o).log.filter fun e => e.level == .warn) =
        (r.log.filter fun e => e.level == .warn) ++ es ∧
      List.Forall₂ Diagnostic.Logged ds es := by
  cases o with
  | openSpace name =>
    have hlog : (r.apply c l (.openSpace name)).log =
        r.log ++ [.spaceRead l name, .opening name r.registration.active] := by
      simp [apply, openSpace, note]
    rw [hlog, List.filter_append, List.filter_append]
    exact ⟨rfl, [], [], (List.append_nil _).symm, rfl, .nil⟩
  | declare d =>
    cases hseen : r.firstSeen.lookup d.name with
    | none =>
      have hlog : (r.apply c l (.declare d)).log =
          r.log ++ [.declared l d r.registration.active] := by
        simp [apply, Run.declare, addWrapper, see, note, hseen]
      have hreport : (r.apply c l (.declare d)).report = r.report ++ [] := by
        simp [apply, Run.declare, addWrapper, see, note, hseen]
      rw [hlog, List.filter_append, List.filter_append]
      exact ⟨rfl, [], [], hreport, rfl, .nil⟩
    | some first =>
      have hlog : (r.apply c l (.declare d)).log =
          r.log ++ [.declared l d r.registration.active, .duplicate l d.name] := by
        simp [apply, Run.declare, addWrapper, see, note, hseen]
      have hreport : (r.apply c l (.declare d)).report =
          r.report ++ [Diagnostic.duplicate l d.name first] := by
        simp [apply, Run.declare, addWrapper, see, note, hseen]
      rw [hlog, List.filter_append, List.filter_append]
      exact ⟨rfl, [_], [.duplicate l d.name], hreport, rfl,
        .cons (.repeated l first d.name rfl) .nil⟩

namespace Logs
variable {c : Config} {past : List (Location × Order)} {r : Run}

theorem start (c : Config) : Logs c [] start := ⟨rfl, rfl, .nil⟩

theorem active (h : Logs c past r) :
    r.registration.active = targetAfter .global (past.map Prod.snd) := by
  rw [h.registration, Registration.foldl_obey_active]
  rfl

theorem apply (h : Logs c past r) (l : Location) (o : Order) :
    Logs c (past ++ [(l, o)]) (r.apply c l o) := by
  obtain ⟨hdebug, ds, es, hreport, hwarn, hlogged⟩ := apply_logged c r l o
  refine ⟨?_, ?_, ?_⟩
  · exact ((View.registration c).progress .empty).apply past r l o h.registration
  · rw [hdebug, h.debug, h.active, Event.ofOrders_append]
    exact congrArg (_ ++ ·) (List.append_nil _).symm
  · rw [hreport, hwarn]
    exact List.rel_append h.warned hlogged

theorem skip (h : Logs c past r) (l : Location) (f : Fault) : Logs c past (r.skip l f) := by
  refine ⟨h.registration, ?_, ?_⟩
  · exact (List.filter_append _ _).trans ((List.append_nil _).trans h.debug)
  · have hlogged : List.Forall₂ Diagnostic.Logged [Diagnostic.ofFault l f] [Event.skipping l f] :=
      .cons (.skipped l f.message f.code rfl) .nil
    have hwarn : ((r.skip l f).log.filter fun e => e.level == .warn) =
        (r.log.filter fun e => e.level == .warn) ++ [.skipping l f] := List.filter_append _ _
    rw [hwarn]
    exact List.rel_append h.warned hlogged

theorem takeUp (h : Logs c past r) (s : Source) : Logs c past (r.takeUp s) := by
  refine ⟨h.registration, ?_, ?_⟩
  · exact (List.filter_append _ _).trans ((List.append_nil _).trans h.debug)
  · have hwarn : ((r.takeUp s).log.filter fun e => e.level == .warn) =
        (r.log.filter fun e => e.level == .warn) ++ [] := List.filter_append _ _
    rw [hwarn, List.append_nil]
    exact h.warned

theorem progress (c : Config) : Progress c (Logs c) where
  apply _ _ l o h := h.apply l o
  skip _ _ l f h := h.skip l f
  takeUp _ _ s h := h.takeUp s
  abort _ _ h := ⟨h.registration, h.debug, h.warned⟩

/-- Events for debugging are those that the orders write. -/
theorem filter_debug (h : Logs c past r) {p : Event → Bool}
    (hp : ∀ e, p e = true → e.level = .debug) :
    r.log.filter p = (Event.ofOrders .global past).filter p := by
  rw [← h.debug, List.filter_filter]
  apply List.filter_congr
  intro e _
  cases he : p e with
  | false => rfl
  | true => simp [hp e he]

theorem bindings (h : Logs c past r) :
    (r.bundle c).bindings = landings c .global (past.map Prod.snd) := by
  have hroutine : (r.bundle c).bindings =
      (Routine.enclosing c.initFunction r.registration.statements).bindings := rfl
  rw [hroutine, Registration.enclosing_bindings, h.registration,
    Registration.foldl_obey_bindings c _ _ Registration.empty_settled]
  rfl

end Logs

theorem finish_log_filter (c : Config) (r : Run) {p : Event → Bool}
    (hp : ∀ wrappers statements, p (.generated wrappers statements) = false) :
    (r.finish c).2.filter p = r.log.filter p := by
  rw [finish]
  split
  · rfl
  · simp [List.filter_append, hp]

theorem scanEach_logs (c : Config) (calls : List (ReadText × Source)) :
    Logs c (history c calls) (start.scanEach c calls).1 :=
  (Logs.progress c).scanEach (Logs.start c) rfl calls

/-- A run that ends at a directive keeps the log and the report that it had before it. -/
theorem scanEach_ended (c : Config) (before after : List (ReadText × Source)) (read : ReadText)
    (s : Source) {os rest : List (Location × Except Fault Order)} {l : Location} {f : Fault}
    (hrunning : (start.scanEach c before).1.aborted = false)
    (horders : s.orders c read = os ++ (l, .error f) :: rest) (hos : Readable os)
    (habort : c.onError = .abort) :
    (start.scanEach c (before ++ (read, s) :: after)).1 =
      ((((start.scanEach c before).1.takeUp s).carryOut c os).1).abort := by
  have hscan : ((start.scanEach c before).1.scan c read s).1 =
      ((((start.scanEach c before).1.takeUp s).carryOut c os).1).abort := by
    rcases scan_cases c read (start.scanEach c before).1 s with
      ⟨hstopped, -⟩ | ⟨-, hnone, -⟩ | ⟨-, hs⟩
    · rw [hrunning] at hstopped
      cases hstopped
    · simp [hnone] at horders
    · have hdone := carryOut_readable_none c ((start.scanEach c before).1.takeUp s) hos
      rw [hs, horders, carryOut_append, ← Prod.eta (carryOut c _ os), hdone]
      simp only [carryOut, habort]
  rw [scanEach_append, scanEach_cons, hscan, scanEach_stopped c _ after rfl]

/-- The warnings of a log go with the diagnostics of the run, one for each and in order, and the
directive that ends a run adds neither. Each opening of a namespace names the one before it, up to
the target that is active last. Each accepted declaration is logged once, with the target on which
it is bound. -/
theorem log_mirrors_run (c : Config) (calls : List (ReadText × Source)) :
    let r := (start.scanEach c calls).1
    let log := (r.finish c).2
    let names := opened ((history c calls).map Prod.snd)
    let ds := declaredAt (history c calls)
    List.Forall₂ Diagnostic.Logged r.report (log.filter fun e => e.level == .warn) ∧
    (log.filter Event.isOpening).map Event.line =
      List.zipWith Event.openingLine names ("global" :: names) ∧
    r.registration.active = names.getLast?.elim .global .space ∧
    (∃ targets : List Target, targets.length = ds.length ∧
      (log.filter Event.isDeclared).map Event.line = List.zipWith Event.declaredLine ds targets ∧
      ∀ b, (r.finish c).1 = .ok b → b.bindings.map Prod.fst = targets) ∧
    ∀ before read s after os l f rest, calls = before ++ (read, s) :: after →
      (start.scanEach c before).1.aborted = false →
      s.orders c read = os ++ (l, .error f) :: rest → Readable os → c.onError = .abort →
      let last := (((start.scanEach c before).1.takeUp s).carryOut c os).1
      log = last.log ∧ r.report = last.report := by
  intro r log names ds
  have hlogs : Logs c (history c calls) r := scanEach_logs c calls
  refine ⟨?_, ?_, hlogs.active, ?_, ?_⟩
  · rw [finish_log_filter c r fun _ _ => rfl]
    exact hlogs.warned
  · rw [finish_log_filter c r fun _ _ => rfl, hlogs.filter_debug Event.isOpening_debug]
    exact Event.ofOrders_openings .global (history c calls)
  · refine ⟨(landings c .global ((history c calls).map Prod.snd)).map Prod.fst, ?_, ?_, ?_⟩
    · rw [List.length_map, landings_length, declaredAt_length]
    · rw [finish_log_filter c r fun _ _ => rfl, hlogs.filter_debug Event.isDeclared_debug]
      exact Event.ofOrders_declared c .global (history c calls)
    · intro b hb
      obtain ⟨-, rfl⟩ := (finish_eq_ok_iff c r b).mp hb
      rw [hlogs.bindings]
  · rintro before read s after os l f rest rfl hrunning horders hos habort last
    have hended : r = last.abort :=
      scanEach_ended c before after read s hrunning horders hos habort
    have hlog : log = r.log := by
      simp [log, finish, hended, abort]
    rw [hlog, hended]
    exact ⟨rfl, rfl⟩

/-- A run that skips a directive before it opens a further namespace, and one that ends there. -/
theorem log_mirrors_run_either_policy :
    let read : ReadText := fun _ => .error .notFound
    let first : Source := .text "a.cpp" "DFUNC void go();\n// DUKTAPE_NAMESPACE app\n"
    let second : Source := .text "b.cpp"
      "DFUNC int go();\nDFUNC float half();\n// DUKTAPE_NAMESPACE gfx\nDFUNC void f();\n"
    let c : Config := { onError := .skip }
    let lenient := (start.scanEach c [(read, first), (read, second)]).1
    let strict := (start.scanEach {} [(read, first), (read, second), (read, first)]).1
    let os := (second.orders {} read).take 1
    let last := (((start.scanEach {} [(read, first)]).1.takeUp second).carryOut {} os).1
    List.Forall₂ Diagnostic.Logged lenient.report
      [.duplicate ⟨"b.cpp", 1⟩ "go", .skipping ⟨"b.cpp", 2⟩ (.unknownReturnType "float")] ∧
    ((lenient.finish c).2.filter Event.isOpening).map Event.line =
      [(.debug, "opening namespace app (was global)"),
        (.debug, "opening namespace gfx (was app)")] ∧
    (∃ b, (lenient.finish c).1 = .ok b ∧
      b.bindings.map Prod.fst = [.global, .space "app", .space "gfx"] ∧
      ((lenient.finish c).2.filter Event.isDeclared).map Event.line =
        List.zipWith Event.declaredLine (declaredAt (history c [(read, first), (read, second)]))
          (b.bindings.map Prod.fst)) ∧
    (start.scanEach {} [(read, first)]).1.aborted = false ∧ Readable os ∧
    (strict.finish {}).2 = last.log ∧ strict.report = last.report := by
  intro read first second c lenient strict os last
  obtain ⟨hwarned, hopenings, -, ⟨targets, -, hdeclared, htargets⟩, -⟩ :=
    log_mirrors_run c [(read, first), (read, second)]
  obtain ⟨-, -, -, -, hended⟩ :=
    log_mirrors_run {} [(read, first), (read, second), (read, first)]
  have hwarnings : ((lenient.finish c).2.filter fun e => e.level == .warn) =
      [.duplicate ⟨"b.cpp", 1⟩ "go", .skipping ⟨"b.cpp", 2⟩ (.unknownReturnType "float")] := by
    decide +kernel
  have hnames : opened ((history c [(read, first), (read, second)]).map Prod.snd) =
      ["app", "gfx"] := by decide +kernel
  have hb := (finish_eq_ok_iff c lenient _).mpr ⟨by decide +kernel, rfl⟩
  have hrunning : (start.scanEach {} [(read, first)]).1.aborted = false := by decide +kernel
  have horders : second.orders {} read =
      os ++ (⟨"b.cpp", 2⟩, .error (.unknownReturnType "float")) ::
        (second.orders {} read).drop 2 := by decide +kernel
  have hos : Readable os := by
    have hone : os = [(⟨"b.cpp", 1⟩, .ok (.declare ⟨.int, "go", []⟩))] := by decide +kernel
    intro l e hmem
    rw [hone, List.mem_singleton] at hmem
    exact ⟨_, (Prod.mk.inj hmem).2⟩
  refine ⟨hwarnings ▸ hwarned, ?_, ⟨_, hb, by decide +kernel, ?_⟩, hrunning, hos,
    hended [(read, first)] read second [(read, first)] os _ _ _ rfl hrunning horders hos rfl⟩
  · rw [hopenings, hnames]
    decide +kernel
  · rw [hdeclared, htargets _ hb]

end Run

/-- The warnings that a run over files tells its log go with what it has reported. -/
theorem generateLog_warned (c : Config) (read : ReadText) (paths : List String) :
    List.Forall₂ Diagnostic.Logged (Run.start.scanAll c read (paths.map .file)).1.report
      ((generateLog c read paths).filter fun e => e.level == .warn) := by
  rw [generateLog, Run.finish_log_filter c _ fun _ _ => rfl, Run.scanAll_eq_scanEach]
  exact (Run.scanEach_logs c _).warned

end Bindery
