import Bindery.Proofs.TokenForm
import Bindery.TypeExpr

/-!
# Reading of types

Which tokens form a type, and what is kept of them. A reading goes on as long
as it meets kinds that belong to a type and no word after a `*` or `&`; what
it has gathered then does not depend on where it might have stopped. The
canonical spelling holds the tokens of the type once more, in sorted order:
one `const` if there was any, the words and colons, and the pointer marks.
-/

set_option autoImplicit false

namespace Bindery
open Bindery.Text

namespace Kind

def inWord : Kind → Bool
  | .ident | .pathSep => true
  | _ => false

def isPointer : Kind → Bool
  | .star | .amp => true
  | _ => false

def inType (k : Kind) : Bool := k == .const || k.inWord || k.isPointer

theorem inWord_alone {k : Kind} (h : k.inWord = true) : k.isPointer = false ∧ k ≠ .const := by
  cases k <;> simp_all [inWord, isPointer]

end Kind

theorem bind_eq_ok_iff {ε α β : Type} (x : Except ε α) (f : α → Except ε β) (b : β) :
    x >>= f = .ok b ↔ ∃ a, x = .ok a ∧ f a = .ok b := by
  cases x <;> simp [bind, Except.bind]

theorem bind_eq_error_iff {ε α β : Type} (x : Except ε α) (f : α → Except ε β) (e : ε) :
    x >>= f = .error e ↔ x = .error e ∨ ∃ a, x = .ok a ∧ f a = .error e := by
  cases x <;> simp [bind, Except.bind]

theorem forall_mem_intercalate {α : Type} {P : α → Prop} {sep : List α} {ws : List (List α)}
    (hsep : ∀ a ∈ sep, P a) (h : ∀ w ∈ ws, ∀ a ∈ w, P a) : ∀ a ∈ sep.intercalate ws, P a := by
  induction ws with
  | nil => simp
  | cons w ws ih =>
    obtain ⟨hw, hws⟩ := List.forall_mem_cons.mp h
    cases ws with
    | nil => simpa using hw
    | cons v ws =>
      rw [List.intercalate_cons_cons]
      exact List.forall_mem_append.mpr ⟨List.forall_mem_append.mpr ⟨hw, hsep⟩, ih hws⟩

namespace TypeExpr

def Legible (ts : List Token) : Prop :=
  (∀ t ∈ ts, t.kind.inType = true) ∧
    ts.Pairwise fun t u => t.kind.isPointer = true → u.kind ≠ .ident

theorem legible_iff (ts : List Token) :
    Legible ts ↔ (∀ k ∈ ts.map Token.kind, k.inType = true) ∧
      (ts.map Token.kind).Pairwise fun j k => j.isPointer = true → k ≠ .ident := by
  rw [Legible, List.forall_mem_map, List.pairwise_map]

theorem legible_shapes_iff (ts : List Token) :
    Legible ts ↔ (∀ s ∈ ts.map Token.shape, s.1.inType = true) ∧
      (ts.map Token.shape).Pairwise fun s u => s.1.isPointer = true → u.1 ≠ .ident := by
  rw [Legible, List.forall_mem_map, List.pairwise_map]
  rfl

namespace Reading

def next (r : Reading) (t : Token) : Reading :=
  ⟨match t.kind with
    | .const => { r.expr with isConst := true }
    | .ident => joined r.expr (r.last == some .pathSep) t.lexeme
    | .pathSep => joined r.expr (r.last == some .ident) "::"
    | .star => { r.expr with indirection := r.expr.indirection.push '*' }
    | .amp => { r.expr with indirection := r.expr.indirection.push '&' }
    | _ => r.expr, some t.kind⟩

theorem step_eq_ok_iff (r s : Reading) (t : Token) :
    r.step t = .ok s ↔ t.kind.inType = true ∧
      (t.kind = .ident → r.expr.indirection = "") ∧ r.next t = s := by
  cases hk : t.kind <;> simp [step, next, hk, Kind.inType, Kind.inWord, Kind.isPointer]
  by_cases hi : r.expr.indirection = "" <;> simp [hi]

theorem next_indirection (r : Reading) (t : Token) :
    (r.next t).expr.indirection = "" ↔
      r.expr.indirection = "" ∧ t.kind.isPointer = false := by
  cases hk : t.kind <;> simp [next, hk, Kind.isPointer, joined]

theorem run_cons_eq_ok_iff (r s : Reading) (t : Token) (ts : List Token) :
    r.run (t :: ts) = .ok s ↔ t.kind.inType = true ∧
      (t.kind = .ident → r.expr.indirection = "") ∧ (r.next t).run ts = .ok s := by
  rw [run, bind_eq_ok_iff]
  constructor
  · rintro ⟨q, hq, h⟩
    obtain ⟨hk, hi, rfl⟩ := (step_eq_ok_iff r q t).1 hq
    exact ⟨hk, hi, h⟩
  · rintro ⟨hk, hi, h⟩
    exact ⟨_, (step_eq_ok_iff r _ t).2 ⟨hk, hi, rfl⟩, h⟩

/-- A reading succeeds on legible tokens, and words may still follow only while
no pointer mark has been met. -/
theorem run_eq_ok_iff (ts : List Token) (r s : Reading) :
    r.run ts = .ok s ↔ Legible ts ∧
      (r.expr.indirection = "" ∨ ∀ t ∈ ts, t.kind ≠ .ident) ∧ ts.foldl next r = s := by
  induction ts generalizing r with
  | nil => simp [run, Legible]
  | cons t ts ih =>
    simp only [run_cons_eq_ok_iff, ih, next_indirection, Legible, List.forall_mem_cons,
      List.pairwise_cons, List.foldl_cons]
    constructor
    · rintro ⟨hk, hi, ⟨hts, hp⟩, ho, hs⟩
      refine ⟨⟨⟨hk, hts⟩, fun u hu hptr => ?_, hp⟩, ?_, hs⟩
      · rcases ho with ⟨-, hn⟩ | ho
        · simp [hn] at hptr
        · exact ho u hu
      · by_cases hid : t.kind = .ident
        · exact .inl (hi hid)
        · exact ho.imp And.left fun h => ⟨hid, h⟩
    · rintro ⟨⟨⟨hk, hts⟩, hfirst, hp⟩, ho, hs⟩
      refine ⟨hk, fun hid => ho.resolve_right fun h => h.1 hid, ⟨hts, hp⟩, ?_, hs⟩
      cases hptr : t.kind.isPointer with
      | true => exact .inr fun u hu => hfirst u hu hptr
      | false => exact ho.imp (fun h => ⟨h, rfl⟩) And.right

theorem foldl_isConst (ts : List Token) (r : Reading) :
    (ts.foldl next r).expr.isConst = (r.expr.isConst || ts.any fun t => t.kind == .const) := by
  induction ts generalizing r with
  | nil => simp
  | cons t ts ih =>
    rw [List.foldl_cons, ih, List.any_cons, ← Bool.or_assoc]
    congr 1
    cases hk : t.kind <;> simp [next, hk, joined]

theorem foldl_indirection (ts : List Token) (r : Reading) (hf : ∀ t ∈ ts, t.Formed) :
    (ts.foldl next r).expr.indirection.toList = r.expr.indirection.toList ++
      (ts.filter fun t => t.kind.isPointer).flatMap fun t => t.lexeme.toList := by
  induction ts generalizing r with
  | nil => simp
  | cons t ts ih =>
    have ht : t.Formed := hf t (by simp)
    rw [List.foldl_cons, ih _ fun u hu => hf u (by simp [hu])]
    cases hk : t.kind <;> simp [Token.Formed, hk] at ht <;>
      simp [next, hk, joined, Kind.isPointer, ht]

theorem foldl_base (ts : List Token) (r : Reading) (hr : r.last ≠ some .pathSep)
    (hts : ∀ t ∈ ts, t.kind ≠ .pathSep) : (ts.foldl next r).expr.base =
      r.expr.base ++ (ts.filter fun t => t.kind == .ident).map Token.lexeme := by
  induction ts generalizing r with
  | nil => simp
  | cons t ts ih =>
    have ht := hts t (by simp)
    rw [List.foldl_cons, ih _ (by simpa [next] using ht) fun u hu => hts u (by simp [hu])]
    cases hk : t.kind <;> simp_all [next, joined]

def Ends (r : Reading) : Prop :=
  match r.last with
  | some .ident => ∃ ws w c, r.expr.base = ws ++ [w] ∧ w.toList.getLast? = some c ∧ c ≠ ':'
  | some .pathSep => ∃ ws w, r.expr.base = ws ++ [w] ∧ w.toList.getLast? = some ':'
  | _ => True

theorem extendLast_append (text w : String) (ws : List String) :
    extendLast text (ws ++ [w]) = ws ++ [w ++ text] := by
  induction ws with
  | nil => rfl
  | cons v ws ih =>
    cases ws with
    | nil => rfl
    | cons u ws => exact congrArg (v :: ·) ih

theorem joined_cases (e : TypeExpr) (join : Bool) (text : String) :
    ((join = true → e.base = []) ∧ (joined e join text).base = e.base ++ [text]) ∨
      (join = true ∧ ∃ ws w, e.base = ws ++ [w] ∧
        (joined e join text).base = ws ++ [w ++ text]) := by
  cases join with
  | false => exact .inl ⟨fun h => absurd h Bool.false_ne_true, rfl⟩
  | true =>
    rcases List.eq_nil_or_concat e.base with hb | ⟨ws, w, hb⟩
    · exact .inl ⟨fun _ => hb, by simp [joined, hb, extendLast]⟩
    · exact .inr ⟨rfl, ws, w, by simpa using hb, by simp [joined, hb, extendLast_append]⟩

def wordShapes (ws : List String) : List (Kind × String) :=
  ws.flatMap fun w => Token.shapes w.toList

theorem joined_last (e : TypeExpr) (join : Bool) (text : String) (ht : text.toList ≠ []) :
    ∃ ws w, (joined e join text).base = ws ++ [w] ∧
      w.toList.getLast? = text.toList.getLast? := by
  rcases joined_cases e join text with ⟨-, hbase⟩ | ⟨-, ws, w, -, hbase⟩
  · exact ⟨e.base, text, hbase, rfl⟩
  · refine ⟨ws, w ++ text, hbase, ?_⟩
    rw [String.toList_append, List.getLast?_append, List.getLast?_eq_some_getLast ht,
      Option.some_or]

theorem joined_words (e : TypeExpr) (join : Bool) (t : Token) (ht : t.Formed)
    (h : join = true → ∃ ws w, e.base = ws ++ [w] ∧ Token.Seam w.toList t.lexeme.toList) :
    wordShapes (joined e join t.lexeme).base = wordShapes e.base ++ [t.shape] := by
  cases join with
  | false => simp [joined, wordShapes, ht.shapes_lexeme]
  | true =>
    obtain ⟨ws, w, hb, hs⟩ := h rfl
    simp [joined, hb, extendLast_append, wordShapes, Token.shapes_append _ _ hs,
      ht.shapes_lexeme]

theorem next_words (r : Reading) (t : Token) (ht : t.Formed) (hr : Ends r) :
    wordShapes (r.next t).expr.base =
      wordShapes r.expr.base ++ (if t.kind.inWord then [t.shape] else []) ∧ Ends (r.next t) := by
  cases hk : t.kind with
  | ident =>
    have hw : Token.IsWord t.lexeme.toList := by
      simp only [Token.Formed, hk] at ht
      exact ht.1
    have hjoin : (r.last == some .pathSep) = true →
        ∃ ws w, r.expr.base = ws ++ [w] ∧ Token.Seam w.toList t.lexeme.toList := by
      intro hl
      simp only [Ends, beq_iff_eq.1 hl] at hr
      obtain ⟨ws, w, hb, hw'⟩ := hr
      refine ⟨ws, w, hb, by simp [hw', isWordChar], fun hc => ?_⟩
      have hm := hw.2 ':' (List.mem_of_head? hc.2)
      simp [isWordChar] at hm
    have hlast : t.lexeme.toList.getLast? = some (t.lexeme.toList.getLast hw.1) :=
      List.getLast?_eq_some_getLast hw.1
    obtain ⟨ws, w, hb, hl⟩ := joined_last r.expr (r.last == some .pathSep) t.lexeme hw.1
    have hc : t.lexeme.toList.getLast hw.1 ≠ ':' := by
      intro hc
      have hm := hw.2 ':' (hc ▸ List.getLast_mem hw.1)
      simp [isWordChar] at hm
    refine ⟨by simpa [next, hk, Kind.inWord] using joined_words r.expr _ t ht hjoin, ?_⟩
    simp only [Ends, next, hk]
    exact ⟨ws, w, _, hb, hl.trans hlast, hc⟩
  | pathSep =>
    have hl : t.lexeme = "::" := by simpa [Token.Formed, hk] using ht
    have hjoin : (r.last == some .ident) = true →
        ∃ ws w, r.expr.base = ws ++ [w] ∧ Token.Seam w.toList t.lexeme.toList := by
      intro hl'
      simp only [Ends, beq_iff_eq.1 hl'] at hr
      obtain ⟨ws, w, c, hb, hw, hc⟩ := hr
      exact ⟨ws, w, hb, by simp [hl, isWordChar], by simp [hw, hc]⟩
    obtain ⟨ws, w, hb, hlast⟩ := joined_last r.expr (r.last == some .ident) "::" (by simp)
    constructor
    · simpa [next, hk, Kind.inWord, hl] using joined_words r.expr _ t ht hjoin
    · simp only [Ends, next, hk]
      exact ⟨ws, w, hb, by simpa using hlast⟩
  | _ => simp [next, hk, Kind.inWord, Ends]

theorem foldl_words (ts : List Token) (r : Reading) (hf : ∀ t ∈ ts, t.Formed) (hr : Ends r) :
    wordShapes (ts.foldl next r).expr.base =
      wordShapes r.expr.base ++ (ts.filter fun t => t.kind.inWord).map Token.shape := by
  induction ts generalizing r with
  | nil => simp
  | cons t ts ih =>
    obtain ⟨hw, hn⟩ := next_words r t (hf t (by simp)) hr
    rw [List.foldl_cons, ih _ (fun u hu => hf u (by simp [hu])) hn, hw, List.append_assoc]
    cases hk : t.kind.inWord <;> simp [hk]

end Reading

def gathered (ts : List Token) : TypeExpr := (ts.foldl Reading.next Reading.start).expr

theorem gathered_isConst (ts : List Token) :
    (gathered ts).isConst = (ts.map Token.shape).any fun s => s.1 == .const := by
  rw [gathered, Reading.foldl_isConst, List.any_map]
  rfl

theorem gathered_indirection {ts : List Token} (hf : ∀ t ∈ ts, t.Formed) :
    (gathered ts).indirection.toList =
      ((ts.map Token.shape).filter fun s => s.1.isPointer).flatMap fun s => s.2.toList := by
  rw [gathered, Reading.foldl_indirection ts _ hf, List.filter_map, List.flatMap_map]
  rfl

theorem gathered_base_idents {ts : List Token} (h : ∀ t ∈ ts, t.kind ≠ .pathSep) :
    (gathered ts).base =
      ((ts.map Token.shape).filter fun s => s.1 == .ident).map Prod.snd := by
  rw [gathered, Reading.foldl_base ts _ (by simp [Reading.start]) h, List.filter_map, List.map_map]
  rfl

theorem ofTokens_eq_ok_iff (ts : List Token) (e : TypeExpr) :
    ofTokens ts = .ok e ↔ Legible ts ∧ gathered ts = e ∧ e.base ≠ [] := by
  rw [ofTokens, bind_eq_ok_iff]
  constructor
  · rintro ⟨r, hr, he⟩
    obtain ⟨hl, -, rfl⟩ := (Reading.run_eq_ok_iff ts Reading.start r).1 hr
    rw [Reading.finish] at he
    split at he
    · cases he
    · next hb =>
      cases he
      exact ⟨hl, rfl, hb⟩
  · rintro ⟨hl, rfl, hb⟩
    exact ⟨_, (Reading.run_eq_ok_iff ts Reading.start _).2 ⟨hl, .inl rfl, rfl⟩, if_neg hb⟩

theorem shapes_intercalate (ws : List (List Char)) :
    Token.shapes ([' '].intercalate ws) = ws.flatMap Token.shapes := by
  induction ws with
  | nil => simp [Token.shapes, Token.scan]
  | cons w ws ih =>
    cases ws with
    | nil => simp
    | cons v ws =>
      have hs : Token.Seam w ([' '] ++ [' '].intercalate (v :: ws)) :=
        Token.Seam.of_head (by decide) (by decide)
      rw [List.intercalate_cons_cons, List.append_assoc, Token.shapes_append _ _ hs,
        List.cons_append, Token.shapes_blank (by decide), List.nil_append, ih,
        List.flatMap_cons (x := w)]

theorem seam_pointers (u : List Char) (ts : List Token) (hf : ∀ t ∈ ts, t.Formed)
    (hp : ∀ t ∈ ts, t.kind.isPointer = true) :
    Token.Seam u (ts.flatMap fun t => t.lexeme.toList) := by
  cases ts with
  | nil => simp [Token.Seam]
  | cons t ts =>
    have ht : t.Formed := hf t (by simp)
    have hk := hp t (by simp)
    have hl : t.lexeme.toList = ['*'] ∨ t.lexeme.toList = ['&'] := by
      cases hkind : t.kind <;> simp_all [Kind.isPointer, Token.Formed]
    rcases hl with hl | hl <;> rw [List.flatMap_cons, hl] <;>
      exact Token.Seam.of_head (by decide) (by decide)

theorem shapes_pointers (ts : List Token) (hf : ∀ t ∈ ts, t.Formed)
    (hp : ∀ t ∈ ts, t.kind.isPointer = true) :
    Token.shapes (ts.flatMap fun t => t.lexeme.toList) = ts.map Token.shape := by
  induction ts with
  | nil => simp [Token.shapes, Token.scan]
  | cons t ts ih =>
    have hf' : ∀ u ∈ ts, u.Formed := fun u hu => hf u (by simp [hu])
    have hp' : ∀ u ∈ ts, u.kind.isPointer = true := fun u hu => hp u (by simp [hu])
    rw [List.flatMap_cons, Token.shapes_append _ _ (seam_pointers _ ts hf' hp'),
      (hf t (by simp)).shapes_lexeme, ih hf' hp']
    rfl

theorem gathered_words {ts : List Token} (hf : ∀ t ∈ ts, t.Formed) :
    Reading.wordShapes (gathered ts).base =
      (ts.map Token.shape).filter fun s => s.1.inWord := by
  rw [List.filter_map]
  exact Reading.foldl_words ts Reading.start hf (by simp [Reading.Ends, Reading.start])

theorem shapes_without_const {ts : List Token} (hf : ∀ t ∈ ts, t.Formed) :
    Token.shapes ((" ".intercalate (gathered ts).base).toList ++
      (gathered ts).indirection.toList) =
      (ts.map Token.shape).filter (fun s => s.1.inWord) ++
        (ts.map Token.shape).filter (fun s => s.1.isPointer) := by
  have hmarks : ∀ t ∈ ts.filter fun t => t.kind.isPointer, t.Formed ∧ t.kind.isPointer = true :=
    fun t ht => ⟨hf t (List.mem_filter.1 ht).1, (List.mem_filter.1 ht).2⟩
  have hbody : Token.shapes (" ".intercalate (gathered ts).base).toList =
      Reading.wordShapes (gathered ts).base := by
    rw [String.toList_intercalate]
    exact (shapes_intercalate _).trans (List.flatMap_map ..)
  have hind : (gathered ts).indirection.toList =
      (ts.filter fun t => t.kind.isPointer).flatMap fun t => t.lexeme.toList := by
    rw [gathered_indirection hf, List.filter_map, List.flatMap_map]
    rfl
  rw [hind, Token.shapes_append _ _ (seam_pointers _ _ (fun t ht => (hmarks t ht).1)
    fun t ht => (hmarks t ht).2), hbody, gathered_words hf,
    shapes_pointers _ (fun t ht => (hmarks t ht).1) fun t ht => (hmarks t ht).2,
    List.filter_map (f := Token.shape) (p := fun s => s.1.isPointer)]
  rfl

/-- The canonical spelling of a type is made of its tokens. -/
theorem canonical_shapes (ts : List Token) (hf : ∀ t ∈ ts, t.Formed) :
    Token.shapes (gathered ts).canonical.toList =
      (if ts.any (fun t => t.kind == .const) then [(.const, "const")] else []) ++
        (ts.map Token.shape).filter (fun s => s.1.inWord) ++
        (ts.map Token.shape).filter (fun s => s.1.isPointer) := by
  have hconst : (gathered ts).isConst = ts.any fun t => t.kind == .const := by
    rw [gathered_isConst, List.any_map]
    rfl
  have hrest := shapes_without_const hf
  rw [← hconst, canonical, String.toList_append, String.toList_append, List.append_assoc,
    List.append_assoc]
  cases (gathered ts).isConst with
  | false => simpa using hrest
  | true =>
    have hs : Token.Seam (['c', 'o', 'n', 's', 't'] ++ [' '])
        ((" ".intercalate (gathered ts).base).toList ++ (gathered ts).indirection.toList) :=
      Token.Seam.of_last (by decide) (by decide)
    have hc : Token.shapes (['c', 'o', 'n', 's', 't'] ++ [' ']) = [(.const, "const")] := by
      simp [Token.shapes, Token.scan, isBlank, isWordChar, Token.word, Token.shape]
    have h := Token.shapes_append _ _ hs
    rw [hc, hrest] at h
    simpa using h

theorem canonical_parts (ts : List Token) (hf : ∀ t ∈ ts, t.Formed)
    {ss : List (Kind × String)} (h : Token.shapes (gathered ts).canonical.toList = ss) :
    (ts.map Token.shape).filter (fun s => s.1.inWord) = ss.filter (fun s => s.1.inWord) ∧
      (ts.map Token.shape).filter (fun s => s.1.isPointer) =
        ss.filter (fun s => s.1.isPointer) ∧
      (ts.any fun t => t.kind == .const) = ss.any fun s => s.1 == .const := by
  have hwp : (fun s : Kind × String => s.1.inWord && s.1.isPointer) = fun _ => false := by
    funext ⟨k, l⟩; cases k <;> rfl
  have hpw : (fun s : Kind × String => s.1.isPointer && s.1.inWord) = fun _ => false := by
    funext ⟨k, l⟩; cases k <;> rfl
  have hwc : (fun s : Kind × String => s.1.inWord && s.1 == .const) = fun _ => false := by
    funext ⟨k, l⟩; cases k <;> rfl
  have hpc : (fun s : Kind × String => s.1.isPointer && s.1 == .const) = fun _ => false := by
    funext ⟨k, l⟩; cases k <;> rfl
  have hcw : Kind.inWord .const = false := rfl
  have hcp : Kind.isPointer .const = false := rfl
  rw [← h, canonical_shapes ts hf]
  cases ts.any fun t => t.kind == .const <;>
    simp [List.filter_append, List.filter_filter, List.any_filter, hwp, hpw, hwc, hpc, hcw, hcp]

/-- The type that is read depends on kinds and lexemes only. -/
theorem gathered_congr {ts us : List Token} (h : ts.map Token.shape = us.map Token.shape) :
    gathered ts = gathered us := by
  have key : ∀ (ts us : List Token) (r : Reading), ts.map Token.shape = us.map Token.shape →
      ts.foldl Reading.next r = us.foldl Reading.next r := by
    intro ts
    induction ts with
    | nil => intro us r h; rw [List.map_eq_nil_iff.1 h.symm]
    | cons t ts ih =>
      intro us r h
      obtain ⟨u, us, rfl, hu, hus⟩ := List.map_eq_cons_iff.1 h.symm
      have hk : u.kind = t.kind := congrArg Prod.fst hu
      have hl : u.lexeme = t.lexeme := congrArg Prod.snd hu
      have hn : r.next u = r.next t := by simp [Reading.next, hk, hl]
      rw [List.foldl_cons, List.foldl_cons, hn]
      exact ih us _ hus.symm
  exact congrArg Reading.expr (key ts us _ h)

end TypeExpr
end Bindery
