import Bindery.Format
import Bindery.Proofs.MarkedLines
import Bindery.Proofs.RespelledNames

/-!
# Names of parameters

Whatever a run hands over is made from the types of parameters and not from their names. Only a
namespace marker that reaches into a declaration can tell names apart, since it is looked for
before anything is read.
-/

set_option autoImplicit false

namespace Bindery
open Bindery.Text

namespace Text

theorem trim_cons_blank {c : Char} (h : isBlank c = true) (cs : List Char) :
    trim (c :: cs) = trim cs := by
  rw [trim, trim, dropBlank_cons_blank h]

theorem trim_blanks {lead trail : List Char} (hlead : ∀ b ∈ lead, isBlank b = true)
    (htrail : ∀ b ∈ trail, isBlank b = true) (cs : List Char) :
    trim (lead ++ cs ++ trail) = trim cs := by
  induction lead with
  | nil =>
    rw [List.nil_append]
    induction trail generalizing cs with
    | nil => rw [List.append_nil]
    | cons b trail ih =>
      obtain ⟨hb, htrail⟩ := List.forall_mem_cons.mp htrail
      rw [List.append_cons, ih htrail, trim_append_blank hb]
  | cons b lead ih =>
    obtain ⟨hb, hlead⟩ := List.forall_mem_cons.mp hlead
    rw [List.cons_append, List.cons_append, trim_cons_blank hb, ih hlead]

theorem trim_ends (cs : List Char) :
    (trim cs).head?.any isBlank = false ∧ (trim cs).getLast?.any isBlank = false := by
  rw [trim, List.head?_reverse, List.getLast?_reverse]
  refine ⟨?_, Token.head?_dropWhile_any isBlank _⟩
  obtain ⟨front, hfront⟩ : dropBlank (dropBlank cs).reverse <:+ (dropBlank cs).reverse :=
    List.dropWhile_suffix isBlank
  have hlast : (dropBlank cs).reverse.getLast?.any isBlank = false := by
    rw [List.getLast?_reverse]
    exact Token.head?_dropWhile_any isBlank cs
  rw [← hfront, List.getLast?_append] at hlast
  cases h : (dropBlank (dropBlank cs).reverse).getLast? with
  | none => rfl
  | some c => simpa [h] using hlast

end Text

def Order.unnamed : Order → Order
  | .openSpace name => .openSpace name
  | .declare d => .declare d.unnamed

def unnamedOrders (os : List (Location × Except Fault Order)) :
    List (Location × Except Fault Order) := os.map fun p => (p.1, p.2.map Order.unnamed)

namespace Directive

inductive Renamed (c : Config) : List Char → List Char → Prop where
  | same {line : List Char} : Renamed c line line
  | names {lead trail : List Char} {body body' : String} {d : Declaration} :
      (∀ b ∈ lead, isBlank b = true) → (∀ b ∈ trail, isBlank b = true) →
      ofChars? c (lead ++ (c.functionMarker.toList ++ body.toList) ++ trail) =
        some (.function body) →
      Declaration.ofText body = .ok d →
      Token.Respelled (Declaration.paramNames (Token.ofText body)) 0 body.toList body'.toList →
      Renamed c (lead ++ (c.functionMarker.toList ++ body.toList) ++ trail)
        (lead ++ (c.functionMarker.toList ++ body'.toList) ++ trail)

theorem ofChars?_eq_function_iff (c : Config) (line : List Char) (rest : String) :
    ofChars? c line = some (.function rest) ↔
      (¬ ∃ other, Marks c.namespaceMarker (trim line) other) ∧
        Marks c.functionMarker (trim line) rest := by
  have h := ofLine?_eq_function_iff c (String.ofList line) rest
  rwa [ofLine?, String.toList_ofList] at h

theorem marks_respelled {marker body body' : String} {names : List Token}
    (hwords : ∀ t ∈ names, Token.IsWord t.lexeme.toList)
    (h : Token.Respelled names 0 body.toList body'.toList) {lead trail : List Char}
    (hlead : ∀ b ∈ lead, isBlank b = true) (htrail : ∀ b ∈ trail, isBlank b = true)
    (hmarks : Marks marker (trim (lead ++ (marker.toList ++ body.toList) ++ trail)) body) :
    Marks marker (trim (lead ++ (marker.toList ++ body'.toList) ++ trail)) body' := by
  rw [marks_iff, afterMarker?_eq_some_iff, trim_blanks hlead htrail] at hmarks ⊢
  obtain ⟨hmarker, htrim, hword⟩ := hmarks
  obtain ⟨hfirst, hlast⟩ := trim_ends (marker.toList ++ body.toList)
  rw [htrim] at hfirst hlast
  refine ⟨hmarker, trim_eq_self ?_ ?_, ?_⟩
  · rw [List.head?_append_of_ne_nil _ hmarker] at hfirst ⊢
    exact hfirst
  · rwa [← (h.endsLike hwords ⟨rfl, rfl, rfl⟩).blank]
  · rwa [runsOn, ← (h.startsLike hwords).word]

/-- Other names for parameters leave the order of a line, unless the line becomes a namespace
directive by them. -/
theorem Renamed.same_order {c : Config} {line line' : List Char} (h : Renamed c line line')
    (hspace : (∃ rest, Marks c.namespaceMarker (trim line') rest) →
      ∃ rest, Marks c.namespaceMarker (trim line) rest) :
    (ofChars? c line).map (fun d => d.order.map Order.unnamed) =
      (ofChars? c line').map fun d => d.order.map Order.unnamed := by
  cases h with
  | same => rfl
  | names hlead htrail hline hd hbody =>
    obtain ⟨hnone, hmarks⟩ := (ofChars?_eq_function_iff _ _ _).mp hline
    have hwords := fun t ht => (Declaration.words_of_paramNames hd t ht).2
    have hline' := (ofChars?_eq_function_iff _ _ _).mpr
      ⟨fun h => hnone (hspace h), marks_respelled hwords hbody hlead htrail hmarks⟩
    obtain ⟨e, he, hed⟩ := Declaration.ofText_respelled hd hbody
    rw [hline, hline']
    simp [order, hd, he, Except.map, Order.unnamed, hed]

def NoNewSpace (c : Config) (line line' : List Char) : Prop :=
  (∃ rest, Marks c.namespaceMarker (trim line') rest) →
    ∃ rest, Marks c.namespaceMarker (trim line) rest

theorem ofLines_renamed {c : Config} {ls ms : List (List Char)}
    (h : List.Forall₂ (Renamed c) ls ms) (hspace : List.Forall₂ (NoNewSpace c) ls ms) (n : Nat) :
    (ofLines c (numbered n ls)).map (fun p => (p.1, p.2.order.map Order.unnamed)) =
      (ofLines c (numbered n ms)).map fun p => (p.1, p.2.order.map Order.unnamed) := by
  induction h generalizing n with
  | nil => rfl
  | @cons line line' ls ms hline _ ih =>
    obtain ⟨hfirst, hrest⟩ := List.forall₂_cons.mp hspace
    have hone : ∀ o : Option Directive, ((o.map fun d => (n, d)).toList.map fun p =>
        (p.1, p.2.order.map Order.unnamed)) =
          ((o.map fun d => d.order.map Order.unnamed).map fun e => (n, e)).toList := by
      intro o
      cases o <;> rfl
    rw [numbered, numbered, ofLines_cons, ofLines_cons, List.map_append, List.map_append,
      ih hrest, hone, hone, hline.same_order hfirst]

end Directive

def RenamedText (c : Config) (text text' : String) : Prop :=
  List.Forall₂ (Directive.Renamed c) (text.toList.splitOn '\n') (text'.toList.splitOn '\n')

def NoNewSpaces (c : Config) (text text' : String) : Prop :=
  List.Forall₂ (Directive.NoNewSpace c) (text.toList.splitOn '\n') (text'.toList.splitOn '\n')

theorem ordersOf_renamed {c : Config} {text text' : String} (h : RenamedText c text text')
    (hspace : NoNewSpaces c text text') (origin : String) :
    unnamedOrders (ordersOf c origin text) = unnamedOrders (ordersOf c origin text') := by
  have hlines := congrArg (List.map fun p => ((⟨origin, p.1⟩ : Location), p.2))
    (Directive.ofLines_renamed h hspace 1)
  rw [← Directive.ofLines_splitOn, ← Directive.ofLines_splitOn, List.map_map, List.map_map]
    at hlines
  simp only [unnamedOrders, ordersOf, Directive.ofSource, List.map_map]
  exact hlines

def Event.unnamed : Event → Event
  | .declared l d target => .declared l d.unnamed target
  | e => e

theorem Event.unnamed_message (e : Event) : e.unnamed.message = e.message := by
  cases e with
  | declared l d target =>
    rw [unnamed]
    unfold message
    simp only [Declaration.unnamed_arity, Declaration.unnamed_name, Declaration.unnamed_returnType]
  | _ => rfl

theorem Event.unnamed_text (e : Event) : e.unnamed.text = e.text := by
  have hlevel : e.unnamed.level = e.level := by cases e <;> rfl
  rw [text, text, hlevel, unnamed_message]

theorem Wrapper.ofDeclaration_unnamed (c : Config) (d : Declaration) :
    ofDeclaration c d.unnamed = ofDeclaration c d := by
  have htypes : ∀ (slot : Nat) (ps : List Param),
      extractionsFrom slot (ps.map Param.unnamed) = extractionsFrom slot ps := by
    intro slot ps
    induction ps generalizing slot with
    | nil => rfl
    | cons p ps ih => rw [List.map_cons, extractionsFrom, extractionsFrom, ih]; rfl
  simp [ofDeclaration, Declaration.unnamed, htypes]

namespace Run

def unnamed (r : Run) : Run := { r with log := r.log.map Event.unnamed }

theorem unnamed_note (r : Run) (e : Event) : (r.note e).unnamed = r.unnamed.note e.unnamed := by
  simp [unnamed, note]

theorem unnamed_skip (r : Run) (l : Location) (f : Fault) :
    (r.skip l f).unnamed = r.unnamed.skip l f := by
  simp [unnamed, skip, note, Event.unnamed]

theorem unnamed_apply (c : Config) (r : Run) (l : Location) (o : Order) :
    (r.apply c l o).unnamed = r.unnamed.apply c l o.unnamed := by
  cases o with
  | openSpace name => simp [apply, openSpace, note, unnamed, Order.unnamed, Event.unnamed]
  | declare d =>
    simp only [apply, declare, see, note, unnamed, Order.unnamed, Declaration.unnamed_name,
      Wrapper.ofDeclaration_unnamed]
    cases r.firstSeen.lookup d.name <;> simp [addWrapper, Event.unnamed]

theorem unnamed_carryOut (c : Config) (r : Run) (os : List (Location × Except Fault Order)) :
    r.unnamed.carryOut c (unnamedOrders os) =
      ((r.carryOut c os).1.unnamed, (r.carryOut c os).2) := by
  induction os generalizing r with
  | nil => rfl
  | cons p os ih =>
    obtain ⟨l, e⟩ := p
    cases e with
    | ok o =>
      have hnext := ih (r.apply c l o)
      rwa [unnamed_apply] at hnext
    | error f =>
      have hskip := ih (r.skip l f)
      rw [unnamed_skip] at hskip
      simp only [unnamedOrders, List.map_cons, Except.map, carryOut] at hskip ⊢
      cases c.onError with
      | abort => rfl
      | skip => exact hskip

theorem unnamed_scan (c : Config) (read : ReadText) {r q : Run} (h : r.unnamed = q.unnamed)
    (origin : String) {text text' : String}
    (horders : unnamedOrders (ordersOf c origin text) = unnamedOrders (ordersOf c origin text')) :
    (r.scan c read (.text origin text)).1.unnamed =
        (q.scan c read (.text origin text')).1.unnamed ∧
      (r.scan c read (.text origin text)).2 = (q.scan c read (.text origin text')).2 := by
  have haborted : r.unnamed.aborted = q.unnamed.aborted := congrArg aborted h
  cases hr : r.aborted with
  | true =>
    rw [scan_stopped c read r _ hr, scan_stopped c read q _ (haborted.symm.trans hr)]
    exact ⟨h, rfl⟩
  | false =>
    rw [scan_text c read r _ _ hr, scan_text c read q _ _ (haborted.symm.trans hr)]
    have hstart : (r.takeUp (.text origin text)).unnamed =
        (q.takeUp (.text origin text')).unnamed := by
      rw [takeUp, takeUp, unnamed_note, unnamed_note, h]
      rfl
    have hleft := unnamed_carryOut c (r.takeUp (.text origin text)) (ordersOf c origin text)
    have hright := unnamed_carryOut c (q.takeUp (.text origin text')) (ordersOf c origin text')
    rw [hstart, horders, hright] at hleft
    obtain ⟨hrun, hresult⟩ := Prod.mk.inj hleft
    exact ⟨hrun.symm, hresult.symm⟩

/-- Two runs that differ in names of parameters alone do so to the end. -/
theorem unnamed_scanAll (c : Config) (read : ReadText) {r q : Run} (h : r.unnamed = q.unnamed)
    {ts ts' : List (String × String)}
    (hts : List.Forall₂ (fun t t' => t.1 = t'.1 ∧
      unnamedOrders (ordersOf c t.1 t.2) = unnamedOrders (ordersOf c t'.1 t'.2)) ts ts') :
    (r.scanAll c read (Source.texts ts)).1.unnamed =
        (q.scanAll c read (Source.texts ts')).1.unnamed ∧
      (r.scanAll c read (Source.texts ts)).2 = (q.scanAll c read (Source.texts ts')).2 := by
  induction hts generalizing r q with
  | nil => exact ⟨h, rfl⟩
  | @cons t t' ts ts' ht _ ih =>
    obtain ⟨origin, text⟩ := t
    obtain ⟨origin', text'⟩ := t'
    obtain ⟨rfl, horders⟩ := ht
    obtain ⟨hnext, hresult⟩ := unnamed_scan c read h origin horders
    obtain ⟨hlast, hresults⟩ := ih hnext
    exact ⟨hlast, congrArg₂ List.cons hresult hresults⟩

/-- What a run hands over is not told the names of parameters, and its log does not tell them. -/
theorem unnamed_finish (c : Config) (r : Run) :
    (r.unnamed.finish c).1 = (r.finish c).1 ∧
      (r.unnamed.finish c).2.map Event.text = (r.finish c).2.map Event.text := by
  have hlog : r.unnamed.log.map Event.text = r.log.map Event.text := by
    simp [unnamed, Event.unnamed_text]
  rw [finish, finish]
  have haborted : r.unnamed.aborted = r.aborted := rfl
  rw [haborted]
  split
  · exact ⟨rfl, hlog⟩
  · refine ⟨rfl, ?_⟩
    simp only [List.map_append, hlog]
    rfl

/-- How parameters are called is seen in nothing that a run hands over, as long as no line is a
namespace directive by it: the same directives are accepted and refused at the same places, every
scan ends alike, and the report, the bundle, the texts written from it and the texts of the log are
the same. -/
theorem parameter_names_unused (c : Config) (read : ReadText) (ts ts' : List (String × String))
    (h : List.Forall₂ (fun t t' => t.1 = t'.1 ∧ RenamedText c t.2 t'.2) ts ts')
    (hspace : List.Forall₂ (fun t t' => NoNewSpaces c t.2 t'.2) ts ts') :
    let left := start.scanAll c read (Source.texts ts)
    let right := start.scanAll c read (Source.texts ts')
    (ts.map fun t => unnamedOrders (ordersOf c t.1 t.2)) =
      (ts'.map fun t => unnamedOrders (ordersOf c t.1 t.2)) ∧
    left.2 = right.2 ∧ left.1.report = right.1.report ∧
    (left.1.finish c).1 = (right.1.finish c).1 ∧
    (left.1.finish c).2.map Event.text = (right.1.finish c).2.map Event.text ∧
    ∀ f : Format, (left.1.finish c).1.map (f.render c) = (right.1.finish c).1.map (f.render c) := by
  intro left right
  have horders : List.Forall₂ (fun t t' => t.1 = t'.1 ∧
      unnamedOrders (ordersOf c t.1 t.2) = unnamedOrders (ordersOf c t'.1 t'.2)) ts ts' := by
    induction h with
    | nil => exact .nil
    | cons ht _ ih =>
      obtain ⟨hfirst, hrest⟩ := List.forall₂_cons.mp hspace
      refine .cons ⟨ht.1, ?_⟩ (ih hrest)
      rw [ht.1]
      exact ordersOf_renamed ht.2 hfirst _
  obtain ⟨hrun, hresults⟩ := unnamed_scanAll c read (r := start) rfl horders
  have hreport : left.1.unnamed.report = right.1.unnamed.report := congrArg report hrun
  have hbundle : (left.1.finish c).1 = (right.1.finish c).1 := by
    rw [← (unnamed_finish c left.1).1, ← (unnamed_finish c right.1).1, hrun]
  refine ⟨?_, hresults, hreport, hbundle, ?_, fun f => by rw [hbundle]⟩
  · rw [← List.forall₂_eq_eq_eq, List.forall₂_map_left_iff, List.forall₂_map_right_iff]
    exact horders.imp fun _ _ ht => ht.2
  · rw [← (unnamed_finish c left.1).2, ← (unnamed_finish c right.1).2, hrun]

theorem parameter_names_unused_as_type_words :
    let c : Config := {}
    let read : ReadText := fun _ => .error .notFound
    let ts := [("a.hpp", "DFUNC int add(int a, const char *b); // a")]
    let ts' := [("a.hpp", "DFUNC int add(int void, const char *char); // a")]
    let left := start.scanAll c read (Source.texts ts)
    let right := start.scanAll c read (Source.texts ts')
    List.Forall₂ (fun t t' => t.1 = t'.1 ∧ RenamedText c t.2 t'.2) ts ts' ∧
    List.Forall₂ (fun t t' => NoNewSpaces c t.2 t'.2) ts ts' ∧
    (ts.map fun t => unnamedOrders (ordersOf c t.1 t.2)) =
      (ts'.map fun t => unnamedOrders (ordersOf c t.1 t.2)) ∧
    left.2 = right.2 ∧ left.1.report = right.1.report ∧
    (left.1.finish c).1 = (right.1.finish c).1 ∧
    (left.1.finish c).2.map Event.text = (right.1.finish c).2.map Event.text ∧
    ∀ f : Format, (left.1.finish c).1.map (f.render c) = (right.1.finish c).1.map (f.render c) := by
  intro c read ts ts' left right
  let body := " int add(int a, const char *b); // a"
  let body' := " int add(int void, const char *char); // a"
  let a : Token := ⟨.ident, "a", 13⟩
  let b : Token := ⟨.ident, "b", 28⟩
  have hnames : Declaration.paramNames (Token.ofText body) = [a, b] := by decide +kernel
  have hbody : body.toList = " int add(int ".toList ++ (a.lexeme.toList ++
      (", const char *".toList ++ (b.lexeme.toList ++ "); // a".toList))) := by decide +kernel
  have hbody' : body'.toList = " int add(int ".toList ++ ("void".toList ++
      (", const char *".toList ++ ("char".toList ++ "); // a".toList))) := by decide +kernel
  have hrespelled :
      Token.Respelled (Declaration.paramNames (Token.ofText body)) 0 body.toList body'.toList := by
    rw [hnames, hbody, hbody']
    refine .behind _ (t := a) (by simp) (by decide +kernel) (by decide +kernel) ?_
    refine .behind _ (t := b) (by simp) (by decide +kernel) (by decide +kernel) ?_
    exact Token.respelled_self ..
  have hlines : "DFUNC int add(int a, const char *b); // a".toList.splitOn '\n' =
      [[] ++ (c.functionMarker.toList ++ body.toList) ++ []] := by decide +kernel
  have hlines' : "DFUNC int add(int void, const char *char); // a".toList.splitOn '\n' =
      [[] ++ (c.functionMarker.toList ++ body'.toList) ++ []] := by decide +kernel
  have htexts : List.Forall₂ (fun t t' => t.1 = t'.1 ∧ RenamedText c t.2 t'.2) ts ts' := by
    refine .cons ⟨rfl, ?_⟩ .nil
    rw [RenamedText, hlines, hlines']
    have hd : Declaration.ofText body = .ok ⟨.int, "add", [⟨.int, "a"⟩, ⟨.text, "b"⟩]⟩ := by
      decide +kernel
    exact .cons (.names (by simp) (by simp) (by decide +kernel) hd hrespelled) .nil
  have hspace : List.Forall₂ (fun t t' => NoNewSpaces c t.2 t'.2) ts ts' := by
    refine .cons ?_ .nil
    rw [NoNewSpaces, hlines, hlines']
    exact .cons (fun h => absurd h (not_marks_iff.mpr (by decide +kernel))) .nil
  exact ⟨htexts, hspace, parameter_names_unused c read ts ts' htexts hspace⟩

/-- A namespace marker may reach into the names of parameters. It is looked for first, so the
declaration that it cuts is taken for a namespace directive. -/
theorem parameter_name_within_marker :
    let c : Config := { namespaceMarker := "DFUNC void f(int b" }
    let read : ReadText := fun _ => .error .notFound
    let ts := [("a.hpp", "DFUNC void f(int a)")]
    let ts' := [("a.hpp", "DFUNC void f(int b)")]
    let left := start.scanAll c read (Source.texts ts)
    let right := start.scanAll c read (Source.texts ts')
    List.Forall₂ (fun t t' => t.1 = t'.1 ∧ RenamedText c t.2 t'.2) ts ts' ∧
    left.2 = [none] ∧ left.1.wrappers.map Wrapper.symbol = ["wrapper_f"] ∧
    right.2 = [some (.directive ⟨"a.hpp", 1⟩
      (.malformedNamespace "`)` is not a valid identifier"))] ∧
    (right.1.finish c).1 = .error .aborted := by
  intro c read ts ts' left right
  let body := " void f(int a)"
  let body' := " void f(int b)"
  let a : Token := ⟨.ident, "a", 12⟩
  have hnames : Declaration.paramNames (Token.ofText body) = [a] := by decide +kernel
  have hbody : body.toList = " void f(int ".toList ++ (a.lexeme.toList ++ ")".toList) := by
    decide +kernel
  have hbody' : body'.toList = " void f(int ".toList ++ ("b".toList ++ ")".toList) := by
    decide +kernel
  have hrespelled :
      Token.Respelled (Declaration.paramNames (Token.ofText body)) 0 body.toList body'.toList := by
    rw [hnames, hbody, hbody']
    refine .behind _ (t := a) (by simp) (by decide +kernel) (by decide +kernel) ?_
    exact Token.respelled_self ..
  have hlines : "DFUNC void f(int a)".toList.splitOn '\n' =
      [[] ++ (c.functionMarker.toList ++ body.toList) ++ []] := by decide +kernel
  have hlines' : "DFUNC void f(int b)".toList.splitOn '\n' =
      [[] ++ (c.functionMarker.toList ++ body'.toList) ++ []] := by decide +kernel
  refine ⟨.cons ⟨rfl, ?_⟩ .nil, by decide +kernel, by decide +kernel, by decide +kernel,
    by decide +kernel⟩
  rw [RenamedText, hlines, hlines']
  have hd : Declaration.ofText body = .ok ⟨.void, "f", [⟨.int, "a"⟩]⟩ := by decide +kernel
  exact .cons (.names (by simp) (by simp) (by decide +kernel) hd hrespelled) .nil

end Run
end Bindery
