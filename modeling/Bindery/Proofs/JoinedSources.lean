import Bindery.Proofs.FailedScans
import Bindery.Proofs.SourceLines
import Mathlib.Data.List.Forall2

/-!
# Joined sources

A text that is scanned in two parts is scanned as the whole, and a line without
a directive may be put in anywhere: wrappers, setup and outcome stay the same,
and only the lines of which the diagnostics speak are counted from elsewhere.
Two runs are followed side by side that carry out the same orders at different
locations.
-/

set_option autoImplicit false

namespace Bindery
open Bindery.Text

def Location.down (k : Nat) (l : Location) : Location := ⟨l.origin, l.line + k⟩

def Location.within (origin : String) (k : Nat) (l : Location) : Location := ⟨origin, l.line + k⟩

def relocated (g : Location → Location) (os : List (Location × Except Fault Order)) :
    List (Location × Except Fault Order) := os.map fun p => (g p.1, p.2)

theorem relocated_id (os : List (Location × Except Fault Order)) : relocated id os = os :=
  List.map_id os

theorem relocated_down_comm (k m : Nat) (os : List (Location × Except Fault Order)) :
    relocated (.down k) (relocated (.down m) os) = relocated (.down m) (relocated (.down k) os) := by
  simp only [relocated, List.map_map]
  apply List.map_congr_left
  intro p _
  simp only [Function.comp_apply, Location.down, Prod.mk.injEq, Location.mk.injEq, true_and,
    and_true]
  omega

namespace Directive

theorem ofLines_numbered_add (c : Config) (n k : Nat) (ls : List (List Char)) :
    ofLines c (numbered (n + k) ls) = (ofLines c (numbered n ls)).map fun p => (p.1 + k, p.2) := by
  induction ls generalizing n with
  | nil => rfl
  | cons line ls ih =>
    have hnext := ih (n + 1)
    rw [Nat.add_right_comm] at hnext
    rw [numbered, numbered, ofLines_cons, ofLines_cons, hnext, List.map_append]
    cases ofChars? c line <;> rfl

/-- The directives of two texts that a newline joins. -/
theorem ofLines_joined (c : Config) (n : Nat) (above below : List Char) :
    ofLines c (numbered n (lines (above ++ '\n' :: below))) =
      ofLines c (numbered n (lines above)) ++
        ofLines c (numbered (n + (above.count '\n' + 1)) (lines below)) := by
  induction above using byLine generalizing n with
  | last line hline =>
    rw [ofLines_more c n below hline, ofLines_last c n hline, List.count_eq_zero.mpr hline,
      Nat.zero_add]
  | more line rest hline ih =>
    have hcount : (line ++ '\n' :: rest).count '\n' = rest.count '\n' + 1 := by
      rw [List.count_append, List.count_eq_zero.mpr hline, List.count_cons_self, Nat.zero_add]
    rw [List.append_assoc, List.cons_append, ofLines_more c n _ hline, ih,
      ofLines_more c n rest hline, hcount, List.append_assoc, Nat.add_assoc n 1,
      Nat.add_comm 1]

end Directive

theorem ordersOf_joined (c : Config) (upper lower above below : String) :
    ordersOf c upper (above ++ "\n" ++ below) = ordersOf c upper above ++
      relocated (.within upper (above.toList.count '\n' + 1)) (ordersOf c lower below) := by
  have hchars : (above ++ "\n" ++ below).toList = above.toList ++ '\n' :: below.toList := by
    simp
  simp only [ordersOf, Directive.ofSource, hchars, Directive.ofLines_joined,
    Directive.ofLines_numbered_add, List.map_append, List.map_map, relocated]
  rfl

def Closed (text : String) : Prop := text = "" ∨ ∃ above, text = above ++ "\n"

theorem ordersOf_closed (c : Config) (origin head rest : String) (h : Closed head) :
    ordersOf c origin (head ++ rest) = ordersOf c origin head ++
      relocated (.down (head.toList.count '\n')) (ordersOf c origin rest) := by
  rcases h with rfl | ⟨above, rfl⟩
  · rw [String.empty_append]
    exact (relocated_id _).symm
  · have hnone : ordersOf c origin "" = [] := rfl
    have habove := ordersOf_joined c origin origin above ""
    rw [String.append_empty, hnone] at habove
    have hcount : (above ++ "\n").toList.count '\n' = above.toList.count '\n' + 1 := by simp
    rw [ordersOf_joined c origin origin, habove, hcount]
    simp [relocated, ordersOf, Location.within, Location.down]

theorem ordersOf_unmarked (c : Config) (origin line : String) (h : '\n' ∉ line.toList)
    (hnone : Directive.ofLine? c line = none) : ordersOf c origin line = [] := by
  rw [Directive.ofLine?] at hnone
  rw [ordersOf, Directive.ofSource, Directive.ofLines_last c 1 h, hnone]
  rfl

theorem ordersOf_passed (c : Config) (origin line rest : String) (h : '\n' ∉ line.toList)
    (hnone : Directive.ofLine? c line = none) :
    ordersOf c origin (line ++ "\n" ++ rest) = relocated (.down 1) (ordersOf c origin rest) := by
  rw [ordersOf_joined c origin origin, ordersOf_unmarked c origin line h hnone,
    List.count_eq_zero.mpr h]
  simp [relocated, ordersOf, Location.within, Location.down]

inductive Diagnostic.Moved (g : Location → Location) (seen seen' : List (String × Location)) :
    Diagnostic → Diagnostic → Prop where
  | fault (l : Location) (f : Fault) :
    Moved g seen seen' (ofFault l f) (ofFault (g l) f)
  | duplicate (l : Location) (name : String) (first first' : Location)
    (remembered : seen.lookup name = some first) (remembered' : seen'.lookup name = some first') :
    Moved g seen seen' (Diagnostic.duplicate l name first)
      (Diagnostic.duplicate (g l) name first')

theorem Diagnostic.Moved.append {g : Location → Location} {seen seen' : List (String × Location)}
    {d e : Diagnostic} (h : Moved g seen seen' d e) (met met' : List (String × Location)) :
    Moved g (seen ++ met) (seen' ++ met') d e := by
  cases h with
  | fault l f => exact .fault l f
  | duplicate l name first first' hfirst hfirst' =>
    refine .duplicate l name first first' ?_ ?_
    · rw [List.lookup_append, hfirst]
      rfl
    · rw [List.lookup_append, hfirst']
      rfl

def Failure.moved (g : Location → Location) : Failure → Failure
  | .directive l f => .directive (g l) f
  | f => f

namespace Run

structure Twin (r q : Run) : Prop where
  wrappers : q.wrappers = r.wrappers
  registration : q.registration = r.registration
  names : q.firstSeen.map Prod.fst = r.firstSeen.map Prod.fst
  aborted : q.aborted = r.aborted

structure Alongside (g : Location → Location) (r q r' q' : Run) : Prop where
  twin : Twin r' q'
  seen : ∃ met, r'.firstSeen = r.firstSeen ++ met ∧
    q'.firstSeen = q.firstSeen ++ met.map fun p => (p.1, g p.2)
  report : ∃ ds es, r'.report = r.report ++ ds ∧ q'.report = q.report ++ es ∧
    List.Forall₂ (Diagnostic.Moved g r'.firstSeen q'.firstSeen) ds es

namespace Twin

theorem refl (r : Run) : Twin r r := ⟨rfl, rfl, rfl, rfl⟩

theorem lookup_eq_none {r q : Run} (h : Twin r q) {name : String}
    (hr : r.firstSeen.lookup name = none) : q.firstSeen.lookup name = none := by
  have hnames : ∀ seen : List (String × Location),
      seen.lookup name = none ↔ name ∉ seen.map Prod.fst := by
    intro seen
    simp only [List.lookup_eq_none_iff, List.mem_map, bne_iff_ne]
    constructor
    · rintro h ⟨p, hp, rfl⟩
      exact h p hp rfl
    · rintro h p hp rfl
      exact h ⟨p, hp, rfl⟩
  rw [hnames, h.names, ← hnames, hr]

theorem lookup_eq_some {r q : Run} (h : Twin r q) {name : String} {first : Location}
    (hr : r.firstSeen.lookup name = some first) : ∃ first', q.firstSeen.lookup name = some first' := by
  cases hq : q.firstSeen.lookup name with
  | some first' => exact ⟨first', rfl⟩
  | none =>
    have hback : Twin q r := ⟨h.wrappers.symm, h.registration.symm, h.names.symm, h.aborted.symm⟩
    rw [hback.lookup_eq_none hq] at hr
    cases hr

theorem finish {r q : Run} (h : Twin r q) (c : Config) : (q.finish c).1 = (r.finish c).1 := by
  rw [Run.finish, Run.finish, h.aborted, bundle, bundle, h.wrappers, h.registration]
  split <;> rfl

end Twin

namespace Alongside
variable {g : Location → Location} {r q : Run}

theorem stay (h : Twin r q) : Alongside g r q r q :=
  ⟨h, ⟨[], by simp, by simp⟩, [], [], by simp, by simp, .nil⟩

theorem trans {r' q' r'' q'' : Run} (h : Alongside g r q r' q')
    (next : Alongside g r' q' r'' q'') : Alongside g r q r'' q'' := by
  obtain ⟨-, ⟨met, hr, hq⟩, ds, es, hds, hes, hmoved⟩ := h
  obtain ⟨htwin, ⟨more, hr', hq'⟩, ds', es', hds', hes', hmoved'⟩ := next
  refine ⟨htwin, ⟨met ++ more, ?_, ?_⟩, ds ++ ds', es ++ es', ?_, ?_, ?_⟩
  · rw [hr', hr, List.append_assoc]
  · rw [hq', hq, List.map_append, List.append_assoc]
  · rw [hds', hds, List.append_assoc]
  · rw [hes', hes, List.append_assoc]
  · refine List.rel_append ?_ hmoved'
    rw [hr', hq']
    exact hmoved.imp fun d e hde => hde.append more _

theorem skip (h : Twin r q) (l : Location) (f : Fault) :
    Alongside g r q (r.skip l f) (q.skip (g l) f) :=
  ⟨⟨h.wrappers, h.registration, h.names, h.aborted⟩, ⟨[], by simp [Run.skip, note], by
    simp [Run.skip, note]⟩, [_], [_], rfl, rfl, .cons (.fault l f) .nil⟩

theorem see (h : Twin r q) (l : Location) (name : String) :
    Alongside g r q (r.see l name) (q.see (g l) name) := by
  cases hr : r.firstSeen.lookup name with
  | none =>
    rw [Run.see, Run.see, hr, h.lookup_eq_none hr]
    refine ⟨⟨h.wrappers, h.registration, ?_, h.aborted⟩, ⟨[(name, l)], rfl, rfl⟩, [], [], ?_, ?_, .nil⟩
    · simp [h.names]
    · simp
    · simp
  | some first =>
    obtain ⟨first', hq⟩ := h.lookup_eq_some hr
    rw [Run.see, Run.see, hr, hq]
    refine ⟨⟨h.wrappers, h.registration, h.names, h.aborted⟩, ⟨[], ?_, ?_⟩, [_], [_], rfl, rfl, ?_⟩
    · simp [note]
    · simp [note]
    · exact .cons (.duplicate l name first first' hr hq) .nil

theorem apply (c : Config) (h : Twin r q) (l : Location) (o : Order) :
    Alongside g r q (r.apply c l o) (q.apply c (g l) o) := by
  cases o with
  | openSpace name =>
    refine ⟨⟨h.wrappers, ?_, h.names, h.aborted⟩, ⟨[], ?_, ?_⟩, [], [], ?_, ?_, .nil⟩
    · simp [Run.apply, openSpace, note, h.registration]
    all_goals simp [Run.apply, openSpace, note]
  | declare d =>
    have hnote : Twin (r.note (.declared l d r.registration.active))
        (q.note (.declared (g l) d q.registration.active)) :=
      ⟨h.wrappers, h.registration, h.names, h.aborted⟩
    obtain ⟨htwin, hseen, hreport⟩ := see (g := g) hnote l d.name
    refine ⟨⟨?_, ?_, htwin.names, htwin.aborted⟩, hseen, hreport⟩
    · exact congrArg (· ++ [Wrapper.ofDeclaration c d]) htwin.wrappers
    · exact congrArg (·.addWrapper (Wrapper.ofDeclaration c d)) htwin.registration

theorem abort (h : Twin r q) : Alongside g r q r.abort q.abort :=
  ⟨⟨h.wrappers, h.registration, h.names, rfl⟩, ⟨[], by simp [Run.abort], by simp [Run.abort]⟩,
    [], [], by simp [Run.abort], by simp [Run.abort], .nil⟩

theorem carryOut (c : Config) (h : Twin r q) (os : List (Location × Except Fault Order)) :
    Alongside g r q (r.carryOut c os).1 (q.carryOut c (relocated g os)).1 ∧
      (q.carryOut c (relocated g os)).2 = (r.carryOut c os).2.map (Failure.moved g) := by
  induction os generalizing r q with
  | nil => exact ⟨stay h, rfl⟩
  | cons p os ih =>
    obtain ⟨l, e⟩ := p
    rw [relocated, List.map_cons]
    cases e with
    | ok o =>
      have happly := apply (g := g) c h l o
      obtain ⟨hrest, hfailure⟩ := ih happly.twin
      exact ⟨happly.trans hrest, hfailure⟩
    | error f =>
      rw [Run.carryOut, Run.carryOut]
      cases c.onError with
      | abort => exact ⟨abort h, rfl⟩
      | skip =>
        have hskip := skip (g := g) h l f
        obtain ⟨hrest, hfailure⟩ := ih hskip.twin
        exact ⟨hskip.trans hrest, hfailure⟩

theorem moved_id (f : Option Failure) : f.map (Failure.moved id) = f := by
  cases f with
  | none => rfl
  | some f => cases f <;> rfl

theorem scan (c : Config) (read : ReadText) (h : Twin r q) (s : Source) :
    Alongside id r q (r.scan c read s).1 (q.scan c read s).1 ∧
      (q.scan c read s).2 = (r.scan c read s).2 := by
  cases hr : r.aborted with
  | true =>
    rw [scan_stopped c read r s hr, scan_stopped c read q s (h.aborted.trans hr)]
    exact ⟨stay h, rfl⟩
  | false =>
    have hq := h.aborted.trans hr
    have hnote : ∀ e, Twin (r.note e) (q.note e) := fun e =>
      ⟨h.wrappers, h.registration, h.names, h.aborted⟩
    have htext : ∀ origin content,
        Alongside id r q (r.scanText c origin content).1 (q.scanText c origin content).1 ∧
          (q.scanText c origin content).2 = (r.scanText c origin content).2 := by
      intro origin content
      obtain ⟨hside, hfailure⟩ :=
        carryOut (g := id) c (hnote (.scanning origin)) (ordersOf c origin content)
      rw [relocated_id, moved_id] at hfailure
      rw [relocated_id] at hside
      simp only [scanText, hr, hq, Bool.false_eq_true, if_false]
      exact ⟨⟨hside.twin, hside.seen, hside.report⟩, hfailure⟩
    cases s with
    | text origin content => exact htext origin content
    | file path =>
      rw [Run.scan, Run.scan, scanFile, scanFile, hr, hq]
      cases read path with
      | error fault => exact ⟨abort h, rfl⟩
      | ok content => exact htext path content

theorem scanAll (c : Config) (read : ReadText) (h : Twin r q) (ss : List Source) :
    Alongside id r q (r.scanAll c read ss).1 (q.scanAll c read ss).1 ∧
      (q.scanAll c read ss).2 = (r.scanAll c read ss).2 := by
  induction ss generalizing r q with
  | nil => exact ⟨stay h, rfl⟩
  | cons s ss ih =>
    obtain ⟨hscan, hfailure⟩ := scan c read h s
    obtain ⟨hrest, hfailures⟩ := ih hscan.twin
    rw [scanAll_step, scanAll_step, hfailure, hfailures]
    exact ⟨hscan.trans hrest, rfl⟩

end Alongside

/-- Two ways to go on from a scan, the second at the locations `g` of the first: both
fail alike, remember and report the same but for the locations, and after any further
sources come to the same bundle. -/
structure SameButLines (c : Config) (read : ReadText) (g : Location → Location)
    (shared first second : Run × Option Failure) : Prop where
  failure : second.2 = shared.2.or (first.2.map (Failure.moved g))
  alongside : Alongside g shared.1 shared.1 first.1 second.1
  later : ∀ sources,
    let done := first.1.scanAll c read sources
    let done' := second.1.scanAll c read sources
    done'.2 = done.2 ∧ (done'.1.finish c).1 = (done.1.finish c).1 ∧
      Alongside id first.1 second.1 done.1 done'.1

namespace SameButLines
variable {c : Config} {read : ReadText} {g : Location → Location}
  {shared first second : Run × Option Failure}

theorem intro (failure : second.2 = shared.2.or (first.2.map (Failure.moved g)))
    (alongside : Alongside g shared.1 shared.1 first.1 second.1) :
    SameButLines c read g shared first second := by
  refine ⟨failure, alongside, ?_⟩
  intro sources
  obtain ⟨hlater, hfailures⟩ := Alongside.scanAll c read alongside.twin sources
  exact ⟨hfailures, hlater.twin.finish c, hlater⟩

theorem of_failed {f : Failure} (hshared : shared.2 = some f) (hfirst : first.1 = shared.1)
    (hsecond : second = shared) : SameButLines c read g shared first second := by
  refine intro ?_ ?_
  · rw [hsecond, hshared]
    rfl
  · rw [hsecond, hfirst]
    exact Alongside.stay (Twin.refl _)

end SameButLines

/-- Orders carried out one after another by two runs, and by one run at other locations. -/
theorem sameButLines_carryOut (c : Config) (read : ReadText) (g : Location → Location)
    (r : Run) (os rest : List (Location × Except Fault Order)) :
    SameButLines c read g (r.carryOut c os) (r.carryOut c (os ++ rest))
      (r.carryOut c (os ++ relocated g rest)) := by
  rw [carryOut_append, carryOut_append]
  obtain ⟨done, result⟩ := r.carryOut c os
  cases result with
  | some f => exact .of_failed rfl rfl rfl
  | none =>
    obtain ⟨hside, hfailure⟩ := Alongside.carryOut (g := g) c (Twin.refl done) rest
    exact .intro hfailure hside

/-- The same, where the one run takes the further orders from a source of their own. -/
theorem sameButLines_scan (c : Config) (read : ReadText) (g : Location → Location) (r : Run)
    (os : List (Location × Except Fault Order)) (origin content : String)
    (hr : r.aborted = false) :
    SameButLines c read g (r.carryOut c os)
      ((r.carryOut c os).1.scan c read (.text origin content))
      (r.carryOut c (os ++ relocated g (ordersOf c origin content))) := by
  have haborted : (r.carryOut c os).1.aborted = (r.carryOut c os).2.isSome := by
    rw [carryOut_aborted, hr, Bool.false_or]
  rw [carryOut_append]
  generalize r.carryOut c os = shared at haborted ⊢
  obtain ⟨done, result⟩ := shared
  cases result with
  | some f =>
    simp only [scan_stopped c read done _ haborted]
    exact .of_failed rfl rfl rfl
  | none =>
    simp only [scan_text c read done _ _ haborted]
    have htwin : Twin (done.takeUp (.text origin content)) done := ⟨rfl, rfl, rfl, rfl⟩
    obtain ⟨hside, hfailure⟩ := Alongside.carryOut (g := g) c htwin (ordersOf c origin content)
    exact .intro hfailure ⟨hside.twin, hside.seen, hside.report⟩

/-- It makes no difference whether a text is scanned in two parts or as the whole, nor
whether a line without a directive stands before others, but for the numbers of the
lines below. -/
theorem joined_sources_alike (c : Config) (read : ReadText) (r : Run) :
    (∀ upper lower above below : String,
      let shared := r.scan c read (.text upper above)
      SameButLines c read (.within upper (above.toList.count '\n' + 1)) shared
        (shared.1.scan c read (.text lower below))
        (r.scan c read (.text upper (above ++ "\n" ++ below)))) ∧
    ∀ origin head line rest : String, Closed head → '\n' ∉ line.toList →
      Directive.ofLine? c line = none →
      SameButLines c read (.down 1) (r.scan c read (.text origin head))
        (r.scan c read (.text origin (head ++ rest)))
        (r.scan c read (.text origin (head ++ line ++ "\n" ++ rest))) := by
  cases hr : r.aborted with
  | true =>
    simp only [scan_stopped c read r _ hr]
    exact ⟨fun _ _ _ _ => .of_failed rfl rfl rfl, fun _ _ _ _ _ _ _ => .of_failed rfl rfl rfl⟩
  | false =>
    simp only [scan_text c read r _ _ hr]
    constructor
    · intro upper lower above below
      rw [ordersOf_joined c upper lower above below]
      exact sameButLines_scan c read _ (r.takeUp (.text upper above)) _ lower below hr
    · intro origin head line rest hhead hline hnone
      have hlower := ordersOf_closed c origin head (line ++ "\n" ++ rest) hhead
      rw [ordersOf_passed c origin line rest hline hnone, relocated_down_comm] at hlower
      have htext : head ++ line ++ "\n" ++ rest = head ++ (line ++ "\n" ++ rest) := by
        simp only [String.append_assoc]
      rw [ordersOf_closed c origin head rest hhead, htext, hlower]
      exact sameButLines_carryOut c read _ (r.takeUp (.text origin head)) _ _

theorem joined_sources_alike_around_comment :
    let c : Config := {}
    let read : ReadText := fun _ => .error .notFound
    let r := (start.scan c read (.text "a.cpp" "DFUNC void go();")).1
    let head := "DFUNC void f();\r\n"
    let comment := "// DFUNC void g();"
    let rest := "DFUNC void f();\nDFUNC void go();\nDFUNC float half(int x);"
    let whole := r.scan c read (.text "b.cpp" (head ++ comment ++ "\n" ++ rest))
    Closed head ∧ '\n' ∉ comment.toList ∧ Directive.ofLine? c comment = none ∧
    SameButLines c read (.down 1) (r.scan c read (.text "b.cpp" head))
      (r.scan c read (.text "b.cpp" (head ++ rest))) whole ∧
    whole.2 = some (.directive ⟨"b.cpp", 5⟩ (.unknownReturnType "float")) ∧
    whole.1.report = [Diagnostic.duplicate ⟨"b.cpp", 3⟩ "f" ⟨"b.cpp", 1⟩,
      Diagnostic.duplicate ⟨"b.cpp", 4⟩ "go" ⟨"a.cpp", 1⟩] := by
  intro c read r head comment rest whole
  have hhead : Closed head := .inr ⟨"DFUNC void f();\r", rfl⟩
  have hcomment : '\n' ∉ comment.toList := by decide
  have hnone : Directive.ofLine? c comment = none := by decide +kernel
  have halike := (joined_sources_alike c read r).2 "b.cpp" head comment rest hhead hcomment hnone
  exact ⟨hhead, hcomment, hnone, halike, by decide +kernel, by decide +kernel⟩

end Run
end Bindery
