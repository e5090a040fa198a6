import Bindery.Proofs.RegisteredWrappers
import Bindery.Proofs.RunHistory
import Mathlib.Data.Finset.Card
import Mathlib.Data.List.Forall2

/-!
# Warnings of duplicates

A run remembers where each name was declared first, and warns at every later declaration. The
table it keeps for that only grows at names that are new to it, so it always holds the names of the
accepted declarations with their first places. From this it follows which declarations are
warned of, and how many.
-/

set_option autoImplicit false

namespace Bindery

def declaredAt (past : List (Location × Order)) : List (Location × Declaration) :=
  past.filterMap fun p => p.2.declaration?.map fun d => (p.1, d)

def Report.repetitions (r : Report) : Report := r.filter fun d => d.code == some "W010"

def Repeats (ds : List (Location × Declaration)) (i : Nat) : Prop :=
  ∃ p q j, ds[i]? = some p ∧ j < i ∧ ds[j]? = some q ∧ q.2.name = p.2.name

def Repetition (ds : List (Location × Declaration)) (i : Nat) (w : Diagnostic) : Prop :=
  ∃ l d j first e, ds[i]? = some (l, d) ∧ j < i ∧ ds[j]? = some (first, e) ∧ e.name = d.name ∧
    (∀ k q, k < j → ds[k]? = some q → q.2.name ≠ d.name) ∧
    w = ⟨.warning, "duplicate declaration of `" ++ d.name ++ "` (first declared at " ++
      first.text ++ ")", some l, some "W010"⟩

def RepetitionsOf (ds : List (Location × Declaration)) (ws : Report) : Prop :=
  ∃ places : List Nat, places.Pairwise (· < ·) ∧ (∀ i, i ∈ places ↔ Repeats ds i) ∧
    List.Forall₂ (Repetition ds) places ws

def distinctNames (ds : List (Location × Declaration)) : Finset String :=
  (ds.map fun p => p.2.name).toFinset

section
variable {ds : List (Location × Declaration)}

theorem Repeats.lt {i : Nat} (h : Repeats ds i) : i < ds.length := by
  obtain ⟨p, -, -, hp, -⟩ := h
  exact (List.getElem?_eq_some_iff.mp hp).1

theorem repeats_append_iff (p : Location × Declaration) {i : Nat} (hi : i < ds.length) :
    Repeats (ds ++ [p]) i ↔ Repeats ds i := by
  constructor
  · rintro ⟨q, q', j, hq, hj, hq', hname⟩
    rw [List.getElem?_append_left hi] at hq
    rw [List.getElem?_append_left (hj.trans hi)] at hq'
    exact ⟨q, q', j, hq, hj, hq', hname⟩
  · rintro ⟨q, q', j, hq, hj, hq', hname⟩
    rw [← List.getElem?_append_left hi] at hq
    rw [← List.getElem?_append_left (hj.trans hi)] at hq'
    exact ⟨q, q', j, hq, hj, hq', hname⟩

theorem repeats_last_iff (p : Location × Declaration) :
    Repeats (ds ++ [p]) ds.length ↔ ∃ q ∈ ds, q.2.name = p.2.name := by
  have hlast : (ds ++ [p])[ds.length]? = some p := by simp
  constructor
  · rintro ⟨p', q, j, hp', hj, hq, hname⟩
    obtain rfl := Option.some.inj (hlast.symm.trans hp')
    rw [List.getElem?_append_left hj] at hq
    exact ⟨q, List.mem_of_getElem? hq, hname⟩
  · rintro ⟨q, hmem, hname⟩
    obtain ⟨j, hj, hq⟩ := List.getElem_of_mem hmem
    refine ⟨p, q, j, hlast, hj, ?_, hname⟩
    rw [List.getElem?_append_left hj, List.getElem?_eq_getElem hj, hq]

theorem Repetition.append {i : Nat} {w : Diagnostic} (h : Repetition ds i w)
    (p : Location × Declaration) : Repetition (ds ++ [p]) i w := by
  obtain ⟨l, d, j, first, e, hd, hj, he, hname, hfirst, hw⟩ := h
  have hi : i < ds.length := (List.getElem?_eq_some_iff.mp hd).1
  refine ⟨l, d, j, first, e, ?_, hj, ?_, hname, ?_, hw⟩
  · rwa [List.getElem?_append_left hi]
  · rwa [List.getElem?_append_left (hj.trans hi)]
  · intro k q hk hq
    rw [List.getElem?_append_left ((hk.trans hj).trans hi)] at hq
    exact hfirst k q hk hq

/-- The declaration that the table gives for a name is the first one of that name. -/
theorem repetition_last {l first : Location} {d e : Declaration}
    (h : ds.find? (fun p => p.2.name == d.name) = some (first, e)) :
    Repetition (ds ++ [(l, d)]) ds.length (Diagnostic.duplicate l d.name first) := by
  obtain ⟨hname, j, hj, he, hfirst⟩ := List.find?_eq_some_iff_getElem.mp h
  refine ⟨l, d, j, first, e, by simp, hj, ?_, by simpa using hname, ?_, rfl⟩
  · rw [List.getElem?_append_left hj, List.getElem?_eq_getElem hj, he]
  · intro k q hk hq
    rw [List.getElem?_append_left (hk.trans hj), List.getElem?_eq_getElem (hk.trans hj)] at hq
    have hne := hfirst k hk
    rw [Option.some.inj hq] at hne
    simpa using hne

theorem RepetitionsOf.new {ws : Report} (h : RepetitionsOf ds ws) {p : Location × Declaration}
    (hnew : ∀ q ∈ ds, q.2.name ≠ p.2.name) : RepetitionsOf (ds ++ [p]) ws := by
  obtain ⟨places, hplaces, hmem, hws⟩ := h
  refine ⟨places, hplaces, ?_, hws.imp fun i w hw => hw.append p⟩
  intro i
  rw [hmem]
  constructor
  · intro hi
    exact (repeats_append_iff p hi.lt).mpr hi
  · intro hi
    have hlength := hi.lt
    rw [List.length_append, List.length_singleton, Nat.lt_succ_iff_lt_or_eq] at hlength
    rcases hlength with hlt | rfl
    · exact (repeats_append_iff p hlt).mp hi
    · obtain ⟨q, hq, hname⟩ := (repeats_last_iff p).mp hi
      exact absurd hname (hnew q hq)

theorem RepetitionsOf.again {ws : Report} (h : RepetitionsOf ds ws)
    {p : Location × Declaration} {w : Diagnostic}
    (hw : Repetition (ds ++ [p]) ds.length w) (hold : ∃ q ∈ ds, q.2.name = p.2.name) :
    RepetitionsOf (ds ++ [p]) (ws ++ [w]) := by
  obtain ⟨places, hplaces, hmem, hws⟩ := h
  refine ⟨places ++ [ds.length], ?_, ?_, ?_⟩
  · refine List.pairwise_append.mpr ⟨hplaces, List.pairwise_singleton _ _, ?_⟩
    intro i hi j hj
    rw [List.mem_singleton.mp hj]
    exact ((hmem i).mp hi).lt
  · intro i
    rw [List.mem_append, List.mem_singleton, hmem]
    constructor
    · rintro (hi | rfl)
      · exact (repeats_append_iff p hi.lt).mpr hi
      · exact (repeats_last_iff p).mpr hold
    · intro hi
      have hlength := hi.lt
      rw [List.length_append, List.length_singleton, Nat.lt_succ_iff_lt_or_eq] at hlength
      exact hlength.imp_left fun hlt => (repeats_append_iff p hlt).mp hi
  · exact List.rel_append (hws.imp fun i v hv => hv.append p) (.cons hw .nil)

theorem mem_distinctNames {name : String} :
    name ∈ distinctNames ds ↔ ∃ q ∈ ds, q.2.name = name := by
  simp [distinctNames]

theorem distinctNames_append (p : Location × Declaration) :
    distinctNames (ds ++ [p]) = insert p.2.name (distinctNames ds) := by
  ext name
  simp [distinctNames]

theorem card_distinctNames_eq_iff :
    (distinctNames ds).card = ds.length ↔ (ds.map fun p => p.2.name).Nodup := by
  have hcard := Multiset.toFinset_card_eq_card_iff_nodup
    (m := ((ds.map fun p => p.2.name : List String) : Multiset String))
  rw [Multiset.coe_card, List.length_map, Multiset.coe_nodup] at hcard
  exact hcard

end

structure Run.WarnedOf (c : Config) (ds : List (Location × Declaration)) (r : Run) : Prop where
  wrappers : r.wrappers = ds.map fun p => Wrapper.ofDeclaration c p.2
  repetitions : RepetitionsOf ds r.report.repetitions
  count : r.report.repetitions.length + (distinctNames ds).card = ds.length
  symbols : (r.wrappers.map Wrapper.symbol).Nodup ↔ ∀ d ∈ r.report, d.code ≠ some "W010"

namespace Run

structure Remembers (c : Config) (ds : List (Location × Declaration)) (r : Run) : Prop where
  wrappers : r.wrappers = ds.map fun p => Wrapper.ofDeclaration c p.2
  seen : ∀ name, r.firstSeen.lookup name =
    (ds.find? fun p => p.2.name == name).map Prod.fst
  repetitions : RepetitionsOf ds r.report.repetitions
  count : r.report.repetitions.length + (distinctNames ds).card = ds.length

namespace Remembers
variable {c : Config} {ds : List (Location × Declaration)} {r : Run}

theorem start (c : Config) : Remembers c [] start where
  wrappers := rfl
  seen _ := rfl
  repetitions := ⟨[], .nil, by simp [Repeats], .nil⟩
  count := rfl

theorem declare_wrappers (h : Remembers c ds r) (l : Location) (d : Declaration) :
    (r.declare c l d).wrappers = (ds ++ [(l, d)]).map fun p => Wrapper.ofDeclaration c p.2 := by
  have hlast : (r.declare c l d).wrappers = r.wrappers ++ [Wrapper.ofDeclaration c d] := by
    simp only [Run.declare, addWrapper, see]
    split <;> rfl
  rw [hlast, h.wrappers, List.map_append]
  rfl

theorem declare_new (h : Remembers c ds r) (l : Location) (d : Declaration)
    (hfind : ds.find? (fun p => p.2.name == d.name) = none) :
    Remembers c (ds ++ [(l, d)]) (r.declare c l d) := by
  have hlookup : r.firstSeen.lookup d.name = none := by
    rw [h.seen, hfind]
    rfl
  have hnew : ∀ q ∈ ds, q.2.name ≠ d.name := by
    intro q hq
    simpa using List.find?_eq_none.mp hfind q hq
  have hreport : (r.declare c l d).report = r.report := by
    simp [Run.declare, see, note, addWrapper, hlookup]
  have htable : (r.declare c l d).firstSeen = r.firstSeen ++ [(d.name, l)] := by
    simp [Run.declare, see, note, addWrapper, hlookup]
  refine ⟨declare_wrappers h l d, ?_, ?_, ?_⟩
  · intro name
    rw [htable, List.lookup_append, h.seen, List.find?_append]
    cases ds.find? fun p => p.2.name == name with
    | some p => rfl
    | none =>
      by_cases hname : d.name = name
      · simp [hname]
      · have hbeq : (name == d.name) = false := beq_eq_false_iff_ne.mpr (Ne.symm hname)
        simp [List.lookup_cons, hbeq, hname]
  · rw [hreport]
    exact h.repetitions.new hnew
  · have hnot : d.name ∉ distinctNames ds := by
      rw [mem_distinctNames]
      rintro ⟨q, hq, hname⟩
      exact hnew q hq hname
    rw [hreport, distinctNames_append, Finset.card_insert_of_notMem hnot, ← Nat.add_assoc,
      h.count, List.length_append]
    rfl

theorem declare_again (h : Remembers c ds r) (l : Location) (d : Declaration)
    {first : Location} {e : Declaration}
    (hfind : ds.find? (fun p => p.2.name == d.name) = some (first, e)) :
    Remembers c (ds ++ [(l, d)]) (r.declare c l d) := by
  have hlookup : r.firstSeen.lookup d.name = some first := by
    rw [h.seen, hfind]
    rfl
  have hold : ∃ q ∈ ds, q.2.name = d.name :=
    ⟨(first, e), List.mem_of_find?_eq_some hfind, by simpa using List.find?_some hfind⟩
  have hreport : (r.declare c l d).report.repetitions =
      r.report.repetitions ++ [Diagnostic.duplicate l d.name first] := by
    have hadd : (r.declare c l d).report = r.report ++ [Diagnostic.duplicate l d.name first] := by
      simp [Run.declare, see, note, addWrapper, hlookup]
    rw [hadd]
    exact List.filter_append _ _
  have htable : (r.declare c l d).firstSeen = r.firstSeen := by
    simp [Run.declare, see, note, addWrapper, hlookup]
  refine ⟨declare_wrappers h l d, ?_, ?_, ?_⟩
  · intro name
    rw [htable, h.seen, List.find?_append]
    cases hname : ds.find? fun p => p.2.name == name with
    | some p => rfl
    | none =>
      have hne : d.name ≠ name := by
        rintro rfl
        rw [hfind] at hname
        cases hname
      simp [hne]
  · rw [hreport]
    exact h.repetitions.again (repetition_last hfind) hold
  · have hmem : d.name ∈ distinctNames ds := mem_distinctNames.mpr hold
    rw [hreport, distinctNames_append, Finset.insert_eq_of_mem hmem, List.length_append,
      Nat.add_right_comm, h.count, List.length_append]
    rfl

theorem declare (h : Remembers c ds r) (l : Location) (d : Declaration) :
    Remembers c (ds ++ [(l, d)]) (r.declare c l d) := by
  cases hfind : ds.find? fun p => p.2.name == d.name with
  | none => exact h.declare_new l d hfind
  | some p => exact h.declare_again l d hfind

theorem skip (h : Remembers c ds r) (l : Location) (f : Fault) : Remembers c ds (r.skip l f) := by
  have hreport : (r.skip l f).report.repetitions = r.report.repetitions := by
    have hcode : (Diagnostic.ofFault l f).code ≠ some "W010" := by
      cases f <;> simp [Diagnostic.ofFault, Fault.code]
    simp [Run.skip, note, Report.repetitions, List.filter_append, hcode]
  exact ⟨h.wrappers, h.seen, hreport ▸ h.repetitions, hreport ▸ h.count⟩

theorem progress (c : Config) : Progress c fun past r => Remembers c (declaredAt past) r where
  apply past r l o h := by
    cases o with
    | openSpace name =>
      have hpast : declaredAt (past ++ [(l, .openSpace name)]) = declaredAt past := by
        simp [declaredAt, Order.declaration?]
      rw [hpast]
      exact ⟨h.wrappers, h.seen, h.repetitions, h.count⟩
    | declare d =>
      have hpast : declaredAt (past ++ [(l, .declare d)]) = declaredAt past ++ [(l, d)] := by
        simp [declaredAt, Order.declaration?]
      rw [hpast]
      exact h.declare l d
  skip past r l f h := h.skip l f
  takeUp past r s h := ⟨h.wrappers, h.seen, h.repetitions, h.count⟩
  abort past r h := ⟨h.wrappers, h.seen, h.repetitions, h.count⟩

theorem warnedOf (h : Remembers c ds r) : WarnedOf c ds r := by
  refine ⟨h.wrappers, h.repetitions, h.count, ?_⟩
  have hsymbols : r.wrappers.map Wrapper.symbol =
      (ds.map fun p => p.2.name).map c.wrapperSymbol := by
    rw [h.wrappers, List.map_map, List.map_map]
    rfl
  have hnone : (∀ d ∈ r.report, d.code ≠ some "W010") ↔ r.report.repetitions.length = 0 := by
    rw [List.length_eq_zero_iff, Report.repetitions, List.filter_eq_nil_iff]
    simp
  rw [hsymbols, List.nodup_map_iff fun _ _ => Config.wrapperSymbol_injective, hnone,
    ← card_distinctNames_eq_iff, ← h.count]
  omega

end Remembers

/-- After any scans, and anywhere in the next source, a run has warned of exactly those accepted
declarations whose names were declared before, each time with the first place of the name. -/
theorem repetitions_warned_of (c : Config) (calls : List (ReadText × Source)) :
    let r := (start.scanEach c calls).1
    WarnedOf c (declaredAt (history c calls)) r ∧
    ∀ read s os rest, Source.orders c read s = os ++ rest → r.aborted = false →
      WarnedOf c (declaredAt (history c calls ++ obeyed c os)) ((r.takeUp s).carryOut c os).1 := by
  intro r
  have kept := Remembers.progress c
  have hstart : Remembers c (declaredAt []) start := Remembers.start c
  have hcalls : Remembers c (declaredAt (history c calls)) r := kept.scanEach hstart rfl calls
  refine ⟨hcalls.warnedOf, ?_⟩
  intro read s os rest _ _
  exact (kept.carryOut (kept.takeUp _ _ s hcalls) os).warnedOf

/-- One name declared in two sources, with a refused declaration of it in between. -/
theorem repetitions_warned_of_within_source :
    let c : Config := { onError := .skip }
    let read : ReadText := fun _ => .error .notFound
    let first : Source := .text "a.cpp" "DFUNC void go();\nDFUNC float go(int x);\n"
    let second : Source :=
      .text "b.cpp" "// DUKTAPE_NAMESPACE app\nDFUNC int go();\nDFUNC void go();\n"
    let os := (second.orders c read).take 2
    let before := (start.scanEach c [(read, first)]).1
    let r := ((before.takeUp second).carryOut c os).1
    second.orders c read = os ++ (second.orders c read).drop 2 ∧ before.aborted = false ∧
    WarnedOf c [(⟨"a.cpp", 1⟩, ⟨.void, "go", []⟩), (⟨"b.cpp", 2⟩, ⟨.int, "go", []⟩)] r ∧
    r.report.repetitions.length = 1 := by
  intro c read first second os before r
  have hsplit : second.orders c read = os ++ (second.orders c read).drop 2 :=
    (List.take_append_drop 2 _).symm
  have hrunning : before.aborted = false := by decide +kernel
  have hwarned :=
    (repetitions_warned_of c [(read, first)]).2 read second os _ hsplit hrunning
  have hpast : declaredAt (history c [(read, first)] ++ obeyed c os) =
      [(⟨"a.cpp", 1⟩, ⟨.void, "go", []⟩), (⟨"b.cpp", 2⟩, ⟨.int, "go", []⟩)] := by decide +kernel
  rw [hpast] at hwarned
  refine ⟨hsplit, hrunning, hwarned, ?_⟩
  have hcount := hwarned.count
  have hnames : (distinctNames [((⟨"a.cpp", 1⟩ : Location), ⟨.void, "go", []⟩),
      (⟨"b.cpp", 2⟩, ⟨.int, "go", []⟩)]).card = 1 := by decide +kernel
  rw [hnames] at hcount
  exact Nat.add_right_cancel hcount

end Run
end Bindery
