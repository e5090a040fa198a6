import Bindery.Proofs.Grammar

/-!
# Faults of declarations

Several things may be wrong with a declaration, and one of them is reported. The tokens are cut
at the parentheses, the return type is read, the parameters are taken from left to right, and only
then is the return type looked up. So which fault is reported is told by the place of each flaw:
an unsupported type is named only where nothing that is looked at before it is amiss.
-/

set_option autoImplicit false

namespace Bindery

def Param.Unsupported (ts : List Token) (spelling name : String) : Prop :=
  ∃ type t e, ts = type ++ [t] ∧ t.IsName ∧ TypeExpr.ofTokens type = .ok e ∧
    ParamType.ofTypeExpr? e = none ∧ e.canonical = spelling ∧ t.lexeme = name

namespace Declaration

/-- A return type that reads as `e`, supported or not, then a name, and `inner` between the first
parentheses; anything may follow. -/
def Framed (ts : List Token) (e : TypeExpr) (inner : List Token) : Prop :=
  ∃ type name opening closing rest,
    ts = type ++ name :: opening :: (inner ++ closing :: rest) ∧
      name.IsName ∧ opening.kind = .lparen ∧ closing.kind = .rparen ∧
      (∀ t ∈ type, t.kind ≠ .lparen) ∧ (∀ t ∈ inner, t.kind ≠ .rparen) ∧
      TypeExpr.ofTokens type = .ok e

def UnsupportedReturn (ts : List Token) (spelling : String) : Prop :=
  ∃ e inner ps, Framed ts e inner ∧ Param.Enclosed inner ps ∧
    ReturnType.ofTypeExpr? e = none ∧ e.canonical = spelling

def UnsupportedParam (ts : List Token) (spelling name : String) : Prop :=
  ∃ e inner before part after, Framed ts e inner ∧
    inner.splitOnP (fun t => t.kind == .comma) = before ++ part :: after ∧
    (∀ left ∈ before, ∃ p : Param, p.Written left) ∧ Param.Unsupported part spelling name

theorem parts_eq_splitOnP (ts : List Token) :
    parts ts = ts.splitOnP fun t => t.kind == .comma := by
  induction ts with
  | nil => rw [parts, List.splitOnP_nil]
  | cons t ts ih =>
    rw [parts, List.splitOnP_cons_eq_if_modifyHead, ih]
    by_cases hk : t.kind = .comma
    · simp [hk]
    · obtain ⟨part, rest, hparts⟩ :=
        List.exists_cons_of_ne_nil (List.splitOnP_ne_nil (fun t : Token => t.kind == .comma) ts)
      simp [hk, hparts]

theorem framed_iff {ts : List Token} (hf : ∀ t ∈ ts, t.Formed) (e : TypeExpr)
    (inner : List Token) :
    Framed ts e inner ↔ ∃ head tail name rest, cutAt .lparen ts = some (head, tail) ∧
      readHead head = .ok (e, name) ∧ cutAt .rparen tail = some (inner, rest) := by
  constructor
  · rintro ⟨type, name, opening, closing, rest, rfl, hn, hok, hck, htype, hinner, he⟩
    have hid : name.isIdentifier = true := (name.isIdentifier_iff (hf name (by simp))).mpr hn
    have hhead : ∀ t ∈ type ++ [name], t.kind ≠ .lparen := by
      intro t ht
      rcases List.mem_append.mp ht with ht | ht
      · exact htype t ht
      · simp [List.mem_singleton.mp ht, hn.1]
    refine ⟨type ++ [name], inner ++ closing :: rest, name.lexeme, rest, ?_, ?_, ?_⟩
    · exact (cutAt_eq_some_iff _ _ _ _).mpr ⟨opening, by simp, hok, hhead⟩
    · exact (readHead_eq_ok_iff _ _ _).mpr ⟨type, name, rfl, hid, he, rfl⟩
    · exact (cutAt_eq_some_iff _ _ _ _).mpr ⟨closing, rfl, hck, hinner⟩
  · rintro ⟨head, tail, name, rest, hopen, hhead, hclose⟩
    obtain ⟨opening, rfl, hok, hbefore⟩ := (cutAt_eq_some_iff _ _ _ _).mp hopen
    obtain ⟨closing, rfl, hck, hinner⟩ := (cutAt_eq_some_iff _ _ _ _).mp hclose
    obtain ⟨type, t, rfl, hid, he, -⟩ := (readHead_eq_ok_iff _ _ _).mp hhead
    have hn : t.IsName := (t.isIdentifier_iff (hf t (by simp))).mp hid
    have htype : ∀ u ∈ type, u.kind ≠ .lparen := fun u hu => hbefore u (by simp [hu])
    exact ⟨type, t, opening, closing, rest, by simp, hn, hok, hck, htype, hinner, he⟩

theorem readType_malformed {ts : List Token} {f : Fault} (h : readType ts = .error f) :
    ∃ detail, f = .malformedDeclaration detail := by
  rw [readType] at h
  split at h
  · cases h
  · next flaw _ =>
    cases h
    exact ⟨_, rfl⟩

theorem readHead_malformed {ts : List Token} {f : Fault} (h : readHead ts = .error f) :
    ∃ detail, f = .malformedDeclaration detail := by
  rw [readHead] at h
  split at h
  · cases h
    exact ⟨_, rfl⟩
  · split at h
    · cases h
      exact ⟨_, rfl⟩
    · split at h
      · cases h
        exact ⟨_, rfl⟩
      · rcases (bind_eq_error_iff _ _ _).mp h with h | ⟨e, -, h⟩
        · exact readType_malformed h
        · cases h

section
variable {f : Fault} (hm : ∀ detail, f ≠ .malformedDeclaration detail)
include hm

/-- What a parameter is refused for, unless it does not have the shape of one. -/
theorem readParam_eq_error_iff (position : Nat) {ts : List Token} (hf : ∀ t ∈ ts, t.Formed) :
    readParam position ts = .error f ↔
      ∃ spelling name, f = .unknownParameterType spelling name ∧
        Param.Unsupported ts spelling name := by
  have hflaw : ∀ flaw : Flaw, (flawed flaw : Except Fault Param) ≠ .error f := by
    intro flaw h
    exact hm _ (Except.error.inj h).symm
  rw [readParam]
  cases hs : splitLast ts with
  | none =>
    refine iff_of_false (hflaw _) ?_
    rintro ⟨spelling, name, -, type, t, e, hts, -⟩
    rw [(splitLast_eq_some_iff ts type t).mpr hts] at hs
    cases hs
  | some cut =>
    obtain ⟨type, t⟩ := cut
    obtain rfl := (splitLast_eq_some_iff ts type t).mp hs
    have hname := t.isIdentifier_iff (hf t (by simp))
    dsimp only
    constructor
    · intro h
      split at h
      · exact absurd h (hflaw _)
      · next hgood =>
        simp only [not_or, Bool.not_eq_false] at hgood
        rcases (bind_eq_error_iff _ _ _).mp h with h | ⟨e, he, h⟩
        · obtain ⟨detail, hdetail⟩ := readType_malformed h
          exact absurd hdetail (hm detail)
        · split at h
          · cases h
          · next hnone =>
            cases h
            exact ⟨_, _, rfl, type, t, e, rfl, hname.mp hgood.1, (readType_eq_ok_iff type e).mp he,
              hnone, rfl, rfl⟩
    · rintro ⟨spelling, name, rfl, type', t', e, hts, hn, he, hnone, rfl, rfl⟩
      obtain ⟨rfl, ht⟩ := List.append_inj' hts rfl
      obtain rfl := List.singleton_inj.mp ht
      have hne : type ≠ [] := by
        rintro rfl
        cases he
      rw [if_neg (by simp [hname.mpr hn, hne]), bind_eq_error_iff]
      refine .inr ⟨e, (readType_eq_ok_iff type e).mpr he, ?_⟩
      rw [hnone]

/-- The first parameter that is refused gives the fault. -/
theorem readParts_eq_error_iff (position : Nat) {ps : List (List Token)}
    (hf : ∀ part ∈ ps, ∀ t ∈ part, t.Formed) :
    readParts position ps = .error f ↔
      ∃ spelling name before part after, f = .unknownParameterType spelling name ∧
        ps = before ++ part :: after ∧ (∀ left ∈ before, ∃ p : Param, p.Written left) ∧
        Param.Unsupported part spelling name := by
  induction ps generalizing position with
  | nil => simp [readParts]
  | cons first ps ih =>
    obtain ⟨hfirst, hps⟩ := List.forall_mem_cons.mp hf
    have herror := readParam_eq_error_iff hm position hfirst
    have hok := fun p => readParam_eq_ok_iff position first p hfirst
    rw [readParts, bind_eq_error_iff, herror]
    constructor
    · rintro (⟨spelling, name, hfault, hbad⟩ | ⟨p, hp, h⟩)
      · exact ⟨spelling, name, [], first, ps, hfault, rfl, by simp, hbad⟩
      · rcases (bind_eq_error_iff _ _ _).mp h with h | ⟨qs, -, h⟩
        · obtain ⟨spelling, name, before, part, after, hfault, rfl, hleft, hbad⟩ :=
            (ih (position + 1) hps).mp h
          exact ⟨spelling, name, first :: before, part, after, hfault, rfl,
            List.forall_mem_cons.mpr ⟨⟨p, (hok p).mp hp⟩, hleft⟩, hbad⟩
        · cases h
    · rintro ⟨spelling, name, before, part, after, hfault, hsplit, hleft, hbad⟩
      cases before with
      | nil =>
        obtain ⟨rfl, -⟩ := List.cons.inj hsplit
        exact .inl ⟨spelling, name, hfault, hbad⟩
      | cons left before =>
        obtain ⟨rfl, rfl⟩ := List.cons.inj hsplit
        obtain ⟨⟨p, hp⟩, hleft⟩ := List.forall_mem_cons.mp hleft
        refine .inr ⟨p, (hok p).mpr hp, (bind_eq_error_iff _ _ _).mpr (.inl ?_)⟩
        exact (ih (position + 1) hps).mpr
          ⟨spelling, name, before, part, after, hfault, rfl, hleft, hbad⟩

theorem readParams_eq_error_iff {ts : List Token} (hf : ∀ t ∈ ts, t.Formed) :
    readParams ts = .error f ↔
      ∃ spelling name before part after, f = .unknownParameterType spelling name ∧
        ts.splitOnP (fun t => t.kind == .comma) = before ++ part :: after ∧
        (∀ left ∈ before, ∃ p : Param, p.Written left) ∧ Param.Unsupported part spelling name := by
  have hparts : ∀ part ∈ parts ts, ∀ t ∈ part, t.Formed :=
    fun part hp t ht => hf t (mem_of_mem_parts hp ht)
  rw [readParams]
  split
  · next hvoid =>
    -- an empty list and a lone `void` have one part, in which no type stands before a name
    refine iff_of_false (by simp) ?_
    rintro ⟨spelling, name, before, part, after, -, hsplit, -, type, t, e, rfl, -, he, -⟩
    have hsingle : ∃ only, parts ts = [only] ∧ only.length ≤ 1 := by
      rcases (isVoidList_iff ts).mp hvoid with rfl | ⟨u, rfl, hu⟩
      · exact ⟨[], rfl, by simp⟩
      · have hk : u.kind = .ident := congrArg Prod.fst hu
        exact ⟨[u], parts_single [u] (by simp [hk]), by simp⟩
    obtain ⟨only, honly, hlength⟩ := hsingle
    rw [← parts_eq_splitOnP, honly] at hsplit
    have hmem : type ++ [t] ∈ [only] := by simp [hsplit]
    rw [← List.mem_singleton.mp hmem] at hlength
    have hnil : type = [] := by simpa using hlength
    rw [hnil] at he
    cases he
  · rw [← parts_eq_splitOnP]
    exact readParts_eq_error_iff hm 1 hparts

theorem ofTokens_eq_error_iff {ts : List Token} (hf : ∀ t ∈ ts, t.Formed) :
    ofTokens ts = .error f ↔ ∃ e inner, Framed ts e inner ∧
      (readParams inner = .error f ∨ ∃ ps, readParams inner = .ok ps ∧
        ReturnType.ofTypeExpr? e = none ∧ f = .unknownReturnType e.canonical) := by
  have hflaw : ∀ flaw : Flaw, (flawed flaw : Except Fault Declaration) ≠ .error f := by
    intro flaw h
    exact hm _ (Except.error.inj h).symm
  rw [ofTokens]
  constructor
  · intro h
    split at h
    · exact absurd h (hflaw _)
    next head tail hopen =>
    rcases (bind_eq_error_iff _ _ _).mp h with h | ⟨⟨e, name⟩, hhead, h⟩
    · obtain ⟨detail, hdetail⟩ := readHead_malformed h
      exact absurd hdetail (hm detail)
    dsimp only at h
    split at h
    · exact absurd h (hflaw _)
    next inner rest hclose =>
    refine ⟨e, inner, (framed_iff hf e inner).mpr ⟨head, tail, name, rest, hopen, hhead, hclose⟩, ?_⟩
    rcases (bind_eq_error_iff _ _ _).mp h with h | ⟨ps, hparams, h⟩
    · exact .inl h
    split at h
    · next hnone =>
      cases h
      exact .inr ⟨ps, hparams, hnone, rfl⟩
    · cases h
  · rintro ⟨e, inner, hframed, h⟩
    obtain ⟨head, tail, name, rest, hopen, hhead, hclose⟩ := (framed_iff hf e inner).mp hframed
    rw [hopen]
    refine (bind_eq_error_iff _ _ _).mpr (.inr ⟨(e, name), hhead, ?_⟩)
    dsimp only
    rw [hclose]
    refine (bind_eq_error_iff _ _ _).mpr ?_
    rcases h with h | ⟨ps, hparams, hnone, rfl⟩
    · exact .inl h
    · exact .inr ⟨ps, hparams, by rw [hnone]⟩

end

theorem Framed.inner_formed {ts inner : List Token} {e : TypeExpr} (h : Framed ts e inner)
    (hf : ∀ t ∈ ts, t.Formed) : ∀ t ∈ inner, t.Formed := by
  obtain ⟨type, name, opening, closing, rest, rfl, -⟩ := h
  exact fun t ht => hf t (by simp [ht])

theorem unknownReturnType_iff {ts : List Token} (hf : ∀ t ∈ ts, t.Formed) (spelling : String) :
    ofTokens ts = .error (.unknownReturnType spelling) ↔ UnsupportedReturn ts spelling := by
  have hm : ∀ detail, Fault.unknownReturnType spelling ≠ .malformedDeclaration detail := by simp
  rw [ofTokens_eq_error_iff hm hf]
  constructor
  · rintro ⟨e, inner, hframed, h⟩
    have hinner := hframed.inner_formed hf
    rcases h with h | ⟨ps, hparams, hnone, hspelling⟩
    · obtain ⟨_, _, _, _, _, hfault, -⟩ := (readParams_eq_error_iff hm hinner).mp h
      cases hfault
    · exact ⟨e, inner, ps, hframed, (readParams_eq_ok_iff inner ps hinner).mp hparams, hnone,
        (Fault.unknownReturnType.inj hspelling).symm⟩
  · rintro ⟨e, inner, ps, hframed, henclosed, hnone, rfl⟩
    have hinner := hframed.inner_formed hf
    exact ⟨e, inner, hframed,
      .inr ⟨ps, (readParams_eq_ok_iff inner ps hinner).mpr henclosed, hnone, rfl⟩⟩

theorem unknownParameterType_iff {ts : List Token} (hf : ∀ t ∈ ts, t.Formed)
    (spelling name : String) :
    ofTokens ts = .error (.unknownParameterType spelling name) ↔
      UnsupportedParam ts spelling name := by
  have hm : ∀ detail, Fault.unknownParameterType spelling name ≠ .malformedDeclaration detail := by
    simp
  rw [ofTokens_eq_error_iff hm hf]
  constructor
  · rintro ⟨e, inner, hframed, h⟩
    rcases h with h | ⟨_, _, _, hfault⟩
    · obtain ⟨_, _, before, part, after, hfault, hsplit, hleft, hbad⟩ :=
        (readParams_eq_error_iff hm (hframed.inner_formed hf)).mp h
      cases hfault
      exact ⟨e, inner, before, part, after, hframed, hsplit, hleft, hbad⟩
    · cases hfault
  · rintro ⟨e, inner, before, part, after, hframed, hsplit, hleft, hbad⟩
    refine ⟨e, inner, hframed, .inl ?_⟩
    exact (readParams_eq_error_iff hm (hframed.inner_formed hf)).mpr
      ⟨spelling, name, before, part, after, rfl, hsplit, hleft, hbad⟩

/-- A return type is reported as not supported where it is all that is amiss, and a parameter
type where it is the first thing amiss after the parentheses were found and the return type was
read. Whatever else is not a declaration is malformed, and no text is refused as a namespace. -/
theorem faults_told_by_tokens (body : String) :
    (∀ spelling, ofText body = .error (.unknownReturnType spelling) ↔
      UnsupportedReturn (Token.ofText body) spelling) ∧
    (∀ spelling name, ofText body = .error (.unknownParameterType spelling name) ↔
      UnsupportedParam (Token.ofText body) spelling name) ∧
    ((∃ detail, ofText body = .error (.malformedDeclaration detail)) ↔
      (∀ d, ofText body ≠ .ok d) ∧ (¬∃ spelling, UnsupportedReturn (Token.ofText body) spelling) ∧
        ¬∃ spelling name, UnsupportedParam (Token.ofText body) spelling name) ∧
    ∀ detail, ofText body ≠ .error (.malformedNamespace detail) := by
  have hf := Token.ofText_formed body
  have hreturn := fun spelling => unknownReturnType_iff hf spelling
  have hparam := fun spelling name => unknownParameterType_iff hf spelling name
  have hspace : ∀ detail, ofText body ≠ .error (.malformedNamespace detail) := by
    intro detail h
    obtain ⟨e, inner, hframed, h⟩ := (ofTokens_eq_error_iff (by simp) hf).mp h
    rcases h with h | ⟨_, _, _, hfault⟩
    · obtain ⟨_, _, _, _, _, hfault, -⟩ :=
        (readParams_eq_error_iff (by simp) (hframed.inner_formed hf)).mp h
      cases hfault
    · cases hfault
  refine ⟨hreturn, hparam, ?_, hspace⟩
  simp only [← hreturn, ← hparam]
  rw [← ofText]
  cases hbody : ofText body with
  | ok d => simp
  | error f =>
    cases f with
    | malformedNamespace detail => exact absurd hbody (hspace detail)
    | _ => simp

example : ofText " float half(long x, int)" = .error (.unknownParameterType "long" "x") := by
  decide +kernel

end Declaration
end Bindery
