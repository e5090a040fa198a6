import Bindery.Proofs.ReplayTargets
import Mathlib.Logic.ExistsUnique

/-!
# Registered wrappers

A run grows two lists that it keeps apart, its wrappers and its setup
statements. After every order the statements install exactly the wrappers:
each is registered with its arity and stored at once under its bound name, in
the order of the wrappers, and what stands in between only moves the active
object.
-/

set_option autoImplicit false

namespace Bindery

namespace Statement

def isRegister : Statement → Bool
  | .register _ _ => true
  | _ => false

def isBind : Statement → Bool
  | .bind _ => true
  | _ => false

end Statement

/-- Two places of a list at which equally many elements of a kind came before
are one place, when elements of that kind stand there. -/
theorem before_unique {α : Type} {p : α → Bool} {xs ys xs' ys' : List α} {x y : α}
    (h : xs ++ x :: xs' = ys ++ y :: ys') (hx : p x = true) (hy : p y = true)
    (hcount : xs.countP p = ys.countP p) : xs = ys := by
  rcases List.append_eq_append_iff.mp h with ⟨as, rfl, has⟩ | ⟨as, rfl, has⟩
  · cases as with
    | nil => simp
    | cons a as =>
      obtain ⟨rfl, -⟩ := List.cons.inj has
      simp [hx] at hcount
  · cases as with
    | nil => simp
    | cons a as =>
      obtain ⟨rfl, -⟩ := List.cons.inj has
      simp [hy] at hcount

inductive Installs : List Statement → List Wrapper → Prop
  | nil : Installs [] []
  | move {s : Statement} {ss : List Statement} {ws : List Wrapper}
      (hregister : s.isRegister = false) (hbind : s.isBind = false) (h : Installs ss ws) :
      Installs (s :: ss) ws
  | wrapper (w : Wrapper) {ss : List Statement} {ws : List Wrapper} (h : Installs ss ws) :
      Installs (.register w.symbol w.arity :: .bind w.boundName :: ss) (w :: ws)

namespace Installs
variable {ss ts : List Statement} {ws us : List Wrapper}

theorem append (h : Installs ss ws) (ht : Installs ts us) : Installs (ss ++ ts) (ws ++ us) := by
  induction h with
  | nil => exact ht
  | move hregister hbind _ ih => exact .move hregister hbind ih
  | wrapper w _ ih => exact .wrapper w ih

theorem openingSpace (name : String) : Installs (Registration.openingSpace name) [] :=
  .move rfl rfl (.move rfl rfl (.move rfl rfl (.move rfl rfl (.move rfl rfl .nil))))

theorem binding (w : Wrapper) :
    Installs (Registration.binding w.symbol w.boundName w.arity) [w] :=
  .wrapper w .nil

theorem enclosing (h : Installs ss ws) (name : String) :
    Installs (Routine.enclosing name ss).statements ws := by
  have hlast : Installs [.deactivate] [] := .move rfl rfl .nil
  have happend := append h hlast
  rw [List.append_nil] at happend
  exact .move rfl rfl happend

theorem countP_isRegister (h : Installs ss ws) :
    ss.countP Statement.isRegister = ws.length := by
  induction h with
  | nil => rfl
  | move hregister _ _ ih => simpa [hregister] using ih
  | wrapper w _ ih => simp [List.countP_cons, Statement.isRegister, ih]

theorem countP_isBind (h : Installs ss ws) : ss.countP Statement.isBind = ws.length := by
  induction h with
  | nil => rfl
  | move _ hbind _ ih => simpa [hbind] using ih
  | wrapper w _ ih => simp [List.countP_cons, Statement.isBind, ih]

/-- A registration belongs to one of the wrappers, and its binding follows it. -/
theorem at_register (h : Installs ss ws) {before after : List Statement} {symbol : String}
    {arity : Nat} (hs : ss = before ++ .register symbol arity :: after) :
    ∃ earlier w later rest, ws = earlier ++ w :: later ∧ Installs before earlier ∧
      symbol = w.symbol ∧ arity = w.arity ∧ after = .bind w.boundName :: rest := by
  induction h generalizing before with
  | nil => simp at hs
  | @move s ss ws hregister hbind _ ih =>
    cases before with
    | nil =>
      obtain ⟨rfl, -⟩ := List.cons.inj hs
      simp [Statement.isRegister] at hregister
    | cons t before =>
      obtain ⟨rfl, hss⟩ := List.cons.inj hs
      obtain ⟨earlier, w, later, rest, hws, hbefore, hat⟩ := ih hss
      exact ⟨earlier, w, later, rest, hws, .move hregister hbind hbefore, hat⟩
  | @wrapper w ss ws _ ih =>
    match before with
    | [] =>
      simp only [List.nil_append, List.cons.injEq, Statement.register.injEq] at hs
      exact ⟨[], w, ws, ss, rfl, .nil, hs.1.1.symm, hs.1.2.symm, hs.2.symm⟩
    | [t] => simp at hs
    | t :: u :: before =>
      simp only [List.cons_append, List.cons.injEq] at hs
      obtain ⟨rfl, rfl, hss⟩ := hs
      obtain ⟨earlier, v, later, rest, hws, hbefore, hat⟩ := ih hss
      exact ⟨w :: earlier, v, later, rest, by rw [hws]; rfl, .wrapper w hbefore, hat⟩

theorem at_bind (h : Installs ss ws) {before after : List Statement} {name : String}
    (hs : ss = before ++ .bind name :: after) :
    ∃ earlier symbol arity, before = earlier ++ [.register symbol arity] := by
  induction h generalizing before with
  | nil => simp at hs
  | @move s ss ws hregister hbind _ ih =>
    cases before with
    | nil =>
      obtain ⟨rfl, -⟩ := List.cons.inj hs
      simp [Statement.isBind] at hbind
    | cons t before =>
      obtain ⟨rfl, hss⟩ := List.cons.inj hs
      obtain ⟨earlier, symbol, arity, rfl⟩ := ih hss
      exact ⟨s :: earlier, symbol, arity, rfl⟩
  | @wrapper w ss ws _ ih =>
    match before with
    | [] => simp at hs
    | [t] =>
      obtain ⟨rfl, -⟩ := List.cons.inj hs
      exact ⟨[], w.symbol, w.arity, rfl⟩
    | t :: u :: before =>
      simp only [List.cons_append, List.cons.injEq] at hs
      obtain ⟨rfl, rfl, hss⟩ := hs
      obtain ⟨earlier, symbol, arity, rfl⟩ := ih hss
      exact ⟨_ :: _ :: earlier, symbol, arity, rfl⟩

/-- Every wrapper has its place, behind the registrations of those before it. -/
theorem at_wrapper (h : Installs ss ws) {i : Nat} {w : Wrapper} (hw : ws[i]? = some w) :
    ∃ before after, before.countP Statement.isRegister = i ∧
      ss = before ++ .register w.symbol w.arity :: .bind w.boundName :: after := by
  induction h generalizing i with
  | nil => simp at hw
  | @move s ss ws hregister _ _ ih =>
    obtain ⟨before, after, hcount, hss⟩ := ih hw
    exact ⟨s :: before, after, by simpa [hregister] using hcount, by rw [hss]; rfl⟩
  | @wrapper v ss ws _ ih =>
    cases i with
    | zero =>
      obtain rfl : v = w := by simpa using hw
      exact ⟨[], ss, rfl, rfl⟩
    | succ i =>
      obtain ⟨before, after, hcount, hss⟩ := ih (by simpa using hw)
      refine ⟨.register v.symbol v.arity :: .bind v.boundName :: before, after, ?_, ?_⟩
      · simp [List.countP_cons, Statement.isRegister, hcount]
      · rw [hss]
        rfl

end Installs

/-- Every order installs the wrappers that it adds. -/
theorem Registration.foldl_obey_installs (c : Config) (os : List Order) (r : Registration)
    (ws : List Wrapper) (h : Installs r.statements ws) :
    Installs (os.foldl (obey c) r).statements
      (ws ++ (declared os).map (Wrapper.ofDeclaration c)) := by
  induction os generalizing r ws with
  | nil => simpa [declared] using h
  | cons o os ih =>
    rw [List.foldl_cons]
    cases o with
    | openSpace name =>
      have hopen := h.append (.openingSpace name)
      rw [List.append_nil] at hopen
      exact ih _ _ hopen
    | declare d =>
      have hbind := ih (r.obey c (.declare d)) _ (h.append (.binding (Wrapper.ofDeclaration c d)))
      rwa [List.append_assoc] at hbind

def View.wrappers (c : Config) : View c (List Wrapper) where
  of := Run.wrappers
  obey ws o := ws ++ o.declaration?.toList.map (Wrapper.ofDeclaration c)
  of_apply r l o := by
    cases o with
    | openSpace name => exact (List.append_nil _).symm
    | declare d =>
      simp only [Run.apply, Run.declare, Run.addWrapper, Run.see]
      split <;> rfl
  of_skip _ _ _ := rfl
  of_note _ _ := rfl
  of_abort _ := rfl

theorem View.foldl_wrappers (c : Config) (os : List Order) (ws : List Wrapper) :
    os.foldl (View.wrappers c).obey ws = ws ++ (declared os).map (Wrapper.ofDeclaration c) := by
  induction os generalizing ws with
  | nil => exact (List.append_nil ws).symm
  | cons o os ih =>
    rw [List.foldl_cons, ih]
    cases o with
    | openSpace name => simp [wrappers, declared, List.filterMap_cons, Order.declaration?]
    | declare d => simp [wrappers, declared, Order.declaration?]

theorem Config.boundName_cases (c : Config) (name : String) :
    if c.boundPrefix.toList <+: name.toList then name = c.boundPrefix ++ c.boundName name
    else c.boundName name = name := by
  cases hd : dropStart? c.boundPrefix.toList name.toList with
  | some rest =>
    have hname := dropStart?_eq_some_iff.mp hd
    rw [if_pos ⟨rest, hname.symm⟩]
    apply String.toList_injective
    rw [String.toList_append, boundName, hd, hname, String.toList_ofList]
  | none =>
    have hnot : ¬c.boundPrefix.toList <+: name.toList := by
      rintro ⟨rest, hrest⟩
      rw [dropStart?_eq_some_iff.mpr hrest.symm] at hd
      cases hd
    rw [if_neg hnot]
    simp [boundName, hd]

theorem Config.wrapperSymbol_injective {c : Config} {a b : String}
    (h : c.wrapperSymbol a = c.wrapperSymbol b) : a = b := by
  have hchars := congrArg String.toList h
  rw [wrapperSymbol_chars, wrapperSymbol_chars] at hchars
  exact String.toList_injective (List.append_cancel_left hchars)

theorem Wrapper.extractionsFrom_eq_mapIdx (slot : Nat) (ps : List Param) :
    extractionsFrom slot ps = ps.mapIdx fun i p => ⟨slot + i, p.type⟩ := by
  induction ps generalizing slot with
  | nil => rfl
  | cons p ps ih =>
    rw [extractionsFrom, ih, List.mapIdx_cons]
    simp [Nat.add_assoc, Nat.add_comm 1]

namespace Run

theorem finish_wrappers (c : Config) (read : ReadText) (ss : List Source) (b : Bundle)
    (h : ((start.scanAll c read ss).1.finish c).1 = .ok b) :
    b.wrappers = (declared (acceptedOf c read ss)).map (Wrapper.ofDeclaration c) := by
  obtain ⟨ha, hb⟩ := (finish_eq_ok_iff c _ b).mp h
  have hw := (View.wrappers c).of_scanAll read start ss ha
  rw [View.foldl_wrappers] at hw
  rw [← hb]
  exact hw

theorem finish_installs (c : Config) (read : ReadText) (ss : List Source) (b : Bundle)
    (h : ((start.scanAll c read ss).1.finish c).1 = .ok b) :
    Installs b.routine.statements b.wrappers := by
  rw [finish_registration c read ss b h, finish_wrappers c read ss b h]
  exact (Registration.foldl_obey_installs c _ .empty [] .nil).enclosing c.initFunction

/-- The routine of a finished run registers its wrappers one by one, each with its
own symbol and arity, and binds each at once under its name; there is no other
registration and no other binding. The wrappers are those of the accepted
declarations, in the order in which these were met. -/
theorem wrappers_registered_in_order (c : Config) (read : ReadText) (ss : List Source) (b : Bundle)
    (h : ((start.scanAll c read ss).1.finish c).1 = .ok b) :
    let statements := b.routine.statements
    let ds := declared (acceptedOf c read ss)
    statements.countP Statement.isRegister = b.wrappers.length ∧
    statements.countP Statement.isBind = b.wrappers.length ∧
    (∀ before symbol arity after, statements = before ++ .register symbol arity :: after →
      ∃ w rest, b.wrappers[before.countP Statement.isRegister]? = some w ∧
        symbol = w.symbol ∧ arity = w.extractions.length ∧ after = .bind w.boundName :: rest) ∧
    (∀ before name after, statements = before ++ .bind name :: after →
      ∃ earlier symbol arity, before = earlier ++ [.register symbol arity]) ∧
    (∀ (i : Nat) (w : Wrapper), b.wrappers[i]? = some w →
      ∃! before, before.countP Statement.isRegister = i ∧ ∃ after, statements =
        before ++ .register w.symbol w.extractions.length :: .bind w.boundName :: after) ∧
    b.wrappers.length = ds.length ∧
    ∀ (i : Nat) (w : Wrapper) (d : Declaration), b.wrappers[i]? = some w → ds[i]? = some d →
      w.symbol = c.wrapperPrefix ++ d.name ∧ w.callee = d.name ∧
      (if c.boundPrefix.toList <+: d.name.toList then d.name = c.boundPrefix ++ w.boundName
        else w.boundName = d.name) ∧
      w.extractions = d.params.mapIdx (fun slot p => ⟨slot, p.type⟩) ∧
      w.returns = d.returnType := by
  intro statements ds
  have hinstalls : Installs statements b.wrappers := finish_installs c read ss b h
  have hwrappers : b.wrappers = ds.map (Wrapper.ofDeclaration c) := finish_wrappers c read ss b h
  refine ⟨hinstalls.countP_isRegister, hinstalls.countP_isBind, ?_, ?_, ?_, ?_, ?_⟩
  · intro before symbol arity after hs
    obtain ⟨earlier, w, later, rest, hws, hbefore, hat⟩ := hinstalls.at_register hs
    refine ⟨w, rest, ?_, hat⟩
    rw [hbefore.countP_isRegister, hws]
    simp
  · intro before name after hs
    exact hinstalls.at_bind hs
  · intro i w hw
    obtain ⟨before, after, hcount, hs⟩ := hinstalls.at_wrapper hw
    refine ⟨before, ⟨hcount, after, hs⟩, ?_⟩
    rintro other ⟨hother, rest, hrest⟩
    exact before_unique (p := Statement.isRegister) (hrest.symm.trans hs) rfl rfl
      (hother.trans hcount.symm)
  · rw [hwrappers, List.length_map]
  · intro i w d hw hd
    rw [hwrappers, List.getElem?_map, hd] at hw
    obtain rfl := Option.some.inj hw
    have hslots := Wrapper.extractionsFrom_eq_mapIdx 0 d.params
    simp only [Nat.zero_add] at hslots
    exact ⟨rfl, rfl, Config.boundName_cases c d.name, hslots, rfl⟩

/-- One name declared in two sources, the second time into a namespace. -/
theorem wrappers_registered_in_order_redeclared :
    let c : Config := { onError := .skip }
    let read : ReadText := fun _ => .error .notFound
    let first : Source := .text "a.cpp" "DFUNC int duk_f(int a, bool b);\nDFUNC float g();\n"
    let second : Source :=
      .text "b.cpp" "// DUKTAPE_NAMESPACE app\nDFUNC int duk_f(int a, bool b);\n"
    ∃ b, ((start.scanAll c read [first, second]).1.finish c).1 = .ok b ∧
      b.wrappers.length = 2 ∧ b.routine.statements.countP Statement.isRegister = 2 ∧
      ∃! before, before.countP Statement.isRegister = 1 ∧
        ∃ after, b.routine.statements =
          before ++ .register "wrapper_duk_f" 2 :: .bind "f" :: after := by
  intro c read first second
  have hok : (start.scanAll c read [first, second]).1.aborted = false := by decide +kernel
  have hb := (finish_eq_ok_iff c _ _).mpr ⟨hok, rfl⟩
  obtain ⟨hcount, -, -, -, hplace, hlength, -⟩ :=
    wrappers_registered_in_order c read [first, second] _ hb
  have hdeclared : (declared (acceptedOf c read [first, second])).length = 2 := by decide +kernel
  have hw : ((start.scanAll c read [first, second]).1.bundle c).wrappers[1]? =
      some (Wrapper.ofDeclaration c ⟨.int, "duk_f", [⟨.int, "a"⟩, ⟨.bool, "b"⟩]⟩) := by
    decide +kernel
  have hsymbol : c.wrapperSymbol "duk_f" = "wrapper_duk_f" := by decide +kernel
  have hname : c.boundName "duk_f" = "f" := by decide +kernel
  rw [hdeclared] at hlength
  refine ⟨_, hb, hlength, hcount.trans hlength, ?_⟩
  have hat := hplace 1 _ hw
  simp only [Wrapper.ofDeclaration, hsymbol, hname] at hat
  exact hat

end Run
end Bindery
