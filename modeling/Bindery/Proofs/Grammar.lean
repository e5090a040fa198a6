import Bindery.Declaration
import Bindery.Proofs.TypeReading

/-!
# The grammar of declarations

A declaration is written as the tokens of a return type, a name, an opening
parenthesis, parameters and the first closing parenthesis; anything may
follow. The reader never states this language: it cuts, folds and compares
spellings. Here the written forms are given on their own, and the reader is
shown to accept these forms and no others, with the declaration they write.
-/

set_option autoImplicit false

namespace Bindery
open Bindery.Text

def Token.IsName (t : Token) : Prop :=
  t.kind = .ident ∧ ∀ c ∈ t.lexeme.toList.head?, c.isDigit = false

def constShape : Kind × String := (.const, "const")

def charShape : Kind × String := (.ident, "char")

def starShape : Kind × String := (.star, "*")

structure WritesText (ss : List (Kind × String)) : Prop where
  only : ∀ s ∈ ss, s = constShape ∨ s = charShape ∨ s = starShape
  some_const : constShape ∈ ss
  one_char : ss.count charShape = 1
  one_star : ss.count starShape = 1
  char_first : ss.Pairwise fun s t => s = starShape → t ≠ charShape

def ParamType.Writes : ParamType → List (Kind × String) → Prop
  | .int, ss => ss = [(.ident, "int")]
  | .bool, ss => ss = [(.ident, "bool")]
  | .text, ss => WritesText ss

def ReturnType.Writes : ReturnType → List (Kind × String) → Prop
  | .int, ss => ss = [(.ident, "int")]
  | .void, ss => ss = [(.ident, "void")]
  | .text, ss => ss = [(.ident, "std"), (.pathSep, "::"), (.ident, "string")]

def Param.Written (ts : List Token) (p : Param) : Prop :=
  ∃ type name, ts = type ++ [name] ∧ name.IsName ∧ p.type.Writes (type.map Token.shape) ∧
    p.name = name.lexeme

inductive Param.Listed : List Token → List Param → Prop where
  | last {ts : List Token} {p : Param} : p.Written ts → Listed ts [p]
  | cons {ts rest : List Token} {comma : Token} {p : Param} {ps : List Param} :
      p.Written ts → comma.kind = .comma → Listed rest ps → Listed (ts ++ comma :: rest) (p :: ps)

inductive Param.Enclosed : List Token → List Param → Prop where
  | empty : Enclosed [] []
  | void {t : Token} : t.shape = (.ident, "void") → Enclosed [t] []
  | listed {ts : List Token} {ps : List Param} : Listed ts ps → Enclosed ts ps

def Declaration.Written (ts : List Token) (d : Declaration) : Prop :=
  ∃ type name opening inner closing rest,
    ts = type ++ name :: opening :: (inner ++ closing :: rest) ∧
      name.IsName ∧ opening.kind = .lparen ∧ closing.kind = .rparen ∧
      (∀ t ∈ inner, t.kind ≠ .lparen ∧ t.kind ≠ .rparen) ∧
      d.returnType.Writes (type.map Token.shape) ∧ d.name = name.lexeme ∧
      Param.Enclosed inner d.params

theorem Token.isIdentifier_iff (t : Token) (hf : t.Formed) :
    t.isIdentifier = true ↔ t.IsName := by
  cases hk : t.kind with
  | ident =>
    simp only [Token.Formed, hk] at hf
    obtain ⟨c, cs, hl⟩ := List.exists_cons_of_ne_nil hf.1.1
    have hc : isWordChar c = true := hf.1.2 c (by simp [hl])
    rw [isWordChar_iff] at hc
    simp only [isIdentifier, IsName, hk, hl, beq_self_eq_true, Bool.true_and, Bool.or_eq_true,
      beq_iff_eq, true_and, List.head?_cons, Option.mem_def, Option.some.injEq, forall_eq']
    constructor
    · rintro (h | rfl)
      · exact isDigit_of_isAlpha h
      · decide
    · intro h
      simpa [h] using hc
  | _ => simp [isIdentifier, IsName, hk]

namespace TypeExpr

/-- A spelling of words alone is written by its own tokens only. -/
theorem plain_reads_iff (ts : List Token) (hf : ∀ t ∈ ts, t.Formed) (text : String)
    (ss : List (Kind × String)) (hss : Token.shapes text.toList = ss)
    (hw : ∀ s ∈ ss, s.1.inWord = true) (hc : (gathered (Token.ofText text)).canonical = text)
    (hb : (gathered (Token.ofText text)).base ≠ []) :
    (∃ e, ofTokens ts = .ok e ∧ e.canonical = text) ↔ ts.map Token.shape = ss := by
  subst hss
  constructor
  · rintro ⟨e, he, hcanon⟩
    obtain ⟨hl, rfl, -⟩ := (ofTokens_eq_ok_iff ts e).1 he
    obtain ⟨hwords, hptrs, hconst⟩ := canonical_parts ts hf (congrArg _ (congrArg _ hcanon))
    have hnc : ∀ t ∈ ts, t.kind ≠ .const := by
      have h : (Token.shapes text.toList).any (fun s => s.1 == .const) = false :=
        List.any_eq_false.2 fun s hs => by simp [(Kind.inWord_alone (hw s hs)).2]
      rw [h, List.any_eq_false] at hconst
      exact fun t ht => by simpa using hconst t ht
    have hnp : ∀ t ∈ ts, t.kind.isPointer = false := by
      have h : (Token.shapes text.toList).filter (fun s => s.1.isPointer) = [] :=
        List.filter_eq_nil_iff.2 fun s hs => by simp [(Kind.inWord_alone (hw s hs)).1]
      rw [h, List.filter_eq_nil_iff] at hptrs
      exact fun t ht => by simpa using hptrs _ (List.mem_map_of_mem ht)
    have hall : ∀ s ∈ ts.map Token.shape, s.1.inWord = true := by
      intro s hs
      obtain ⟨t, ht, rfl⟩ := List.mem_map.1 hs
      have hk : (t.kind == .const || t.kind.inWord || t.kind.isPointer) = true := hl.1 t ht
      simpa [hnc t ht, hnp t ht] using hk
    rw [← List.filter_eq_self.2 hall, hwords, List.filter_eq_self.2 hw]
  · intro h
    have hk : ∀ t ∈ ts, t.kind.inWord = true := fun t ht =>
      hw _ (h ▸ List.mem_map_of_mem ht)
    have hl : Legible ts := by
      refine ⟨fun t ht => by simp [Kind.inType, hk t ht], ?_⟩
      refine List.pairwise_of_forall_mem_list fun t ht u hu hp => ?_
      simp [(Kind.inWord_alone (hk t ht)).1] at hp
    have hg : gathered ts = gathered (Token.ofText text) := gathered_congr h
    exact ⟨_, (ofTokens_eq_ok_iff ts _).2 ⟨hl, hg, hb⟩, hc⟩

theorem filter_eq_singleton {ss : List (Kind × String)} {p : Kind × String → Bool}
    {a : Kind × String} (hp : p a = true) (h : ∀ s ∈ ss, p s = true → s = a)
    (hc : ss.count a = 1) : ss.filter p = [a] := by
  have hall : ∀ s ∈ ss.filter p, a = s := fun s hs =>
    (h s (List.mem_filter.1 hs).1 (List.mem_filter.1 hs).2).symm
  have hlen : (ss.filter p).length = 1 := by
    rw [← List.count_eq_length.2 hall, List.count_filter hp, hc]
  exact List.eq_replicate_iff.2 ⟨hlen, fun s hs => (hall s hs).symm⟩

end TypeExpr

theorem Token.Formed.const_shape {t : Token} (hf : t.Formed) (hk : t.kind = .const) :
    t.shape = constShape := by
  simp only [Formed, hk] at hf
  simp [shape, hk, hf, constShape]

namespace WritesText
variable {ss : List (Kind × String)}

theorem of_parts (hin : ∀ s ∈ ss, s.1.inType = true)
    (hconst : ∀ s ∈ ss, s.1 = .const → s = constShape) (hsome : ∃ s ∈ ss, s.1 = .const)
    (hwords : ss.filter (fun s => s.1.inWord) = [charShape])
    (hmarks : ss.filter (fun s => s.1.isPointer) = [starShape])
    (horder : ss.Pairwise fun s t => s.1.isPointer = true → t.1 ≠ .ident) : WritesText ss where
  only s hs := by
    have hk : (s.1 = .const ∨ s.1.inWord = true) ∨ s.1.isPointer = true := by
      simpa [Kind.inType] using hin s hs
    rcases hk with (hk | hk) | hk
    · exact .inl (hconst s hs hk)
    · exact .inr (.inl (List.mem_singleton.1 (hwords ▸ List.mem_filter.2 ⟨hs, hk⟩)))
    · exact .inr (.inr (List.mem_singleton.1 (hmarks ▸ List.mem_filter.2 ⟨hs, hk⟩)))
  some_const := by
    obtain ⟨s, hs, hk⟩ := hsome
    exact hconst s hs hk ▸ hs
  one_char := by
    rw [← List.count_filter (p := fun s => s.1.inWord) (by rfl), hwords]
    decide
  one_star := by
    rw [← List.count_filter (p := fun s => s.1.isPointer) (by rfl), hmarks]
    decide
  char_first := horder.imp fun h hstar hchar => h (by rw [hstar]; rfl) (by rw [hchar]; rfl)

theorem eq_char (h : WritesText ss) {s : Kind × String} (hs : s ∈ ss) (hk : s.1 = .ident) :
    s = charShape := by
  rcases h.only s hs with rfl | rfl | rfl
  · cases hk
  · rfl
  · cases hk

theorem eq_star (h : WritesText ss) {s : Kind × String} (hs : s ∈ ss)
    (hk : s.1.isPointer = true) : s = starShape := by
  rcases h.only s hs with rfl | rfl | rfl
  · cases hk
  · cases hk
  · rfl

theorem filter_ident (h : WritesText ss) : ss.filter (fun s => s.1 == .ident) = [charShape] :=
  TypeExpr.filter_eq_singleton rfl (fun _ hs hk => h.eq_char hs (beq_iff_eq.1 hk)) h.one_char

theorem filter_marks (h : WritesText ss) : ss.filter (fun s => s.1.isPointer) = [starShape] :=
  TypeExpr.filter_eq_singleton rfl (fun _ hs hk => h.eq_star hs hk) h.one_star

variable {ts : List Token}

theorem legible (h : WritesText (ts.map Token.shape)) : TypeExpr.Legible ts := by
  rw [TypeExpr.legible_shapes_iff]
  refine ⟨fun s hs => ?_, h.char_first.imp_of_mem fun hs ht hfirst hmark hident => ?_⟩
  · rcases h.only s hs with rfl | rfl | rfl <;> rfl
  · exact hfirst (h.eq_star hs hmark) (h.eq_char ht hident)

theorem gathered (h : WritesText (ts.map Token.shape)) (hf : ∀ t ∈ ts, t.Formed) :
    TypeExpr.gathered ts = ⟨true, ["char"], "*"⟩ := by
  have hconst : (TypeExpr.gathered ts).isConst = true := by
    rw [TypeExpr.gathered_isConst]
    exact List.any_eq_true.2 ⟨_, h.some_const, rfl⟩
  have hpath : ∀ t ∈ ts, t.kind ≠ .pathSep := by
    intro t ht hk
    rw [← Token.shape_fst] at hk
    rcases h.only _ (List.mem_map_of_mem ht) with hs | hs | hs <;> rw [hs] at hk <;> cases hk
  have hbase : (TypeExpr.gathered ts).base = ["char"] := by
    rw [TypeExpr.gathered_base_idents hpath, h.filter_ident]
    rfl
  have hmarks : (TypeExpr.gathered ts).indirection = "*" := by
    apply String.toList_injective
    rw [TypeExpr.gathered_indirection hf, h.filter_marks]
    rfl
  rw [← hconst, ← hbase, ← hmarks]

end WritesText

namespace TypeExpr

theorem writesText_of_canonical {ts : List Token} (hf : ∀ t ∈ ts, t.Formed) (hl : Legible ts)
    (h : (gathered ts).canonical = "const char*") : WritesText (ts.map Token.shape) := by
  have hss : Token.shapes "const char*".toList = [constShape, charShape, starShape] := by
    decide +kernel
  obtain ⟨hwords, hmarks, hconst⟩ := canonical_parts ts hf (h ▸ hss)
  obtain ⟨hin, horder⟩ := (legible_shapes_iff ts).1 hl
  refine .of_parts hin ?_ ?_ hwords hmarks horder
  · rw [List.forall_mem_map]
    exact fun t ht hk => (hf t ht).const_shape hk
  · obtain ⟨t, ht, hk⟩ := List.any_eq_true.1 hconst
    exact ⟨t.shape, List.mem_map_of_mem ht, beq_iff_eq.1 hk⟩

theorem text_reads_iff (ts : List Token) (hf : ∀ t ∈ ts, t.Formed) :
    (∃ e, ofTokens ts = .ok e ∧ e.canonical = "const char*") ↔
      WritesText (ts.map Token.shape) := by
  constructor
  · rintro ⟨e, he, hcanon⟩
    obtain ⟨hl, rfl, -⟩ := (ofTokens_eq_ok_iff ts e).1 he
    exact writesText_of_canonical hf hl hcanon
  · intro h
    exact ⟨_, (ofTokens_eq_ok_iff ts _).2 ⟨h.legible, h.gathered hf, by simp⟩, by decide⟩

end TypeExpr

theorem ParamType.writes_iff (p : ParamType) (ts : List Token) (hf : ∀ t ∈ ts, t.Formed) :
    (∃ e, TypeExpr.ofTokens ts = .ok e ∧ ofTypeExpr? e = some p) ↔
      p.Writes (ts.map Token.shape) := by
  simp only [ofTypeExpr?_eq_some_iff]
  cases p with
  | int =>
    exact TypeExpr.plain_reads_iff ts hf "int" _ (by decide +kernel) (by decide)
      (by decide +kernel) (by decide +kernel)
  | text => exact TypeExpr.text_reads_iff ts hf
  | bool =>
    exact TypeExpr.plain_reads_iff ts hf "bool" _ (by decide +kernel) (by decide)
      (by decide +kernel) (by decide +kernel)

theorem ReturnType.writes_iff (r : ReturnType) (ts : List Token) (hf : ∀ t ∈ ts, t.Formed) :
    (∃ e, TypeExpr.ofTokens ts = .ok e ∧ ofTypeExpr? e = some r) ↔
      r.Writes (ts.map Token.shape) := by
  simp only [ofTypeExpr?_eq_some_iff]
  cases r with
  | int =>
    exact TypeExpr.plain_reads_iff ts hf "int" _ (by decide +kernel) (by decide)
      (by decide +kernel) (by decide +kernel)
  | text =>
    exact TypeExpr.plain_reads_iff ts hf "std::string" _ (by decide +kernel) (by decide)
      (by decide +kernel) (by decide +kernel)
  | void =>
    exact TypeExpr.plain_reads_iff ts hf "void" _ (by decide +kernel) (by decide)
      (by decide +kernel) (by decide +kernel)

theorem ParamType.Writes.inType {p : ParamType} {ss : List (Kind × String)} (h : p.Writes ss) :
    ∀ s ∈ ss, s.1.inType = true := by
  cases p with
  | int =>
    obtain rfl : ss = [(.ident, "int")] := h
    decide
  | text =>
    intro s hs
    rcases WritesText.only h s hs with rfl | rfl | rfl <;> rfl
  | bool =>
    obtain rfl : ss = [(.ident, "bool")] := h
    decide

theorem Param.Written.inType {ts : List Token} {p : Param} (h : p.Written ts) :
    ∀ t ∈ ts, t.kind.inType = true := by
  obtain ⟨type, name, rfl, hn, hw, -⟩ := h
  intro t ht
  rcases List.mem_append.1 ht with ht | ht
  · exact hw.inType t.shape (List.mem_map_of_mem ht)
  · rw [List.mem_singleton.1 ht, hn.1]
    rfl

theorem Param.Written.no_comma {ts : List Token} {p : Param} (h : p.Written ts) :
    ∀ t ∈ ts, t.kind ≠ .comma := by
  intro t ht hk
  have hi := h.inType t ht
  simp [hk, Kind.inType, Kind.inWord, Kind.isPointer] at hi

theorem ReturnType.Writes.inWord {r : ReturnType} {ss : List (Kind × String)}
    (h : r.Writes ss) : ∀ s ∈ ss, s.1.inWord = true := by
  cases r with
  | int =>
    obtain rfl : ss = [(.ident, "int")] := h
    decide
  | text =>
    obtain rfl : ss = [(.ident, "std"), (.pathSep, "::"), (.ident, "string")] := h
    decide
  | void =>
    obtain rfl : ss = [(.ident, "void")] := h
    decide

theorem ReturnType.Writes.no_opening {r : ReturnType} {type : List Token} {name : Token}
    (h : r.Writes (type.map Token.shape)) (hn : name.IsName) :
    ∀ t ∈ type ++ [name], t.kind ≠ .lparen := by
  intro t ht hk
  rcases List.mem_append.1 ht with ht | ht
  · have hi := h.inWord t.shape (List.mem_map_of_mem ht)
    simp [hk, Kind.inWord] at hi
  · simp [List.mem_singleton.1 ht, hn.1] at hk

theorem Param.Written.two_le_length {ts : List Token} {p : Param} (h : p.Written ts) :
    2 ≤ ts.length := by
  obtain ⟨type, name, rfl, -, hw, -⟩ := h
  have hne : type ≠ [] := by
    rintro rfl
    cases hp : p.type with
    | text => exact absurd (WritesText.some_const (hp ▸ hw)) (by simp)
    | _ => simp [hp, ParamType.Writes] at hw
  have hpos := List.length_pos_iff.2 hne
  simp only [List.length_append, List.length_singleton]
  omega

theorem Param.Listed.two_le_length {ts : List Token} {ps : List Param} (h : Listed ts ps) :
    2 ≤ ts.length := by
  cases h with
  | last hw => exact hw.two_le_length
  | cons hw _ _ =>
    have hlen := hw.two_le_length
    simp only [List.length_append]
    omega

theorem Param.Listed.inType {ts : List Token} {ps : List Param} (h : Listed ts ps) :
    ∀ t ∈ ts, t.kind.inType = true ∨ t.kind = .comma := by
  induction h with
  | last hw => exact fun t ht => .inl (hw.inType t ht)
  | cons hw hc _ ih =>
    intro t ht
    rcases List.mem_append.1 ht with ht | ht
    · exact .inl (hw.inType t ht)
    rcases List.mem_cons.1 ht with rfl | ht
    · exact .inr hc
    · exact ih t ht

theorem Param.Enclosed.no_paren {ts : List Token} {ps : List Param} (h : Enclosed ts ps) :
    ∀ t ∈ ts, t.kind ≠ .lparen ∧ t.kind ≠ .rparen := by
  cases h with
  | empty => simp
  | void h =>
    intro t ht
    rw [List.mem_singleton.1 ht, ← Token.shape_fst, h]
    simp
  | listed h =>
    intro t ht
    rcases h.inType t ht with hk | hk
    · constructor <;> intro hp <;> simp [hp, Kind.inType, Kind.inWord, Kind.isPointer] at hk
    · simp [hk]

namespace Declaration

theorem readType_eq_ok_iff (ts : List Token) (e : TypeExpr) :
    readType ts = .ok e ↔ TypeExpr.ofTokens ts = .ok e := by
  rw [readType]
  cases TypeExpr.ofTokens ts with
  | error f => simp [flawed]
  | ok e' => simp

theorem splitLast_eq_some_iff (ts type : List Token) (name : Token) :
    splitLast ts = some (type, name) ↔ ts = type ++ [name] := by
  fun_induction splitLast ts generalizing type with
  | case1 => simp
  | case2 t => cases type <;> simp
  | case3 t ts hne ih =>
    rw [Option.map_eq_some_iff]
    constructor
    · rintro ⟨⟨type', name'⟩, h, he⟩
      cases he
      simp [(ih type').1 h]
    · intro h
      cases type with
      | nil => exact (hne (List.cons.inj h).2).elim
      | cons u type =>
        obtain ⟨rfl, hts⟩ := List.cons.inj h
        exact ⟨(type, name), (ih type).2 hts, rfl⟩

theorem cutAt_eq_some_iff (k : Kind) (ts before after : List Token) :
    cutAt k ts = some (before, after) ↔ ∃ t, ts = before ++ t :: after ∧ t.kind = k ∧
      ∀ u ∈ before, u.kind ≠ k := by
  induction ts generalizing before with
  | nil => simp [cutAt]
  | cons t ts ih =>
    rw [cutAt]
    by_cases hk : t.kind = k
    · rw [if_pos hk]
      constructor
      · intro h
        cases h
        exact ⟨t, rfl, hk, by simp⟩
      · rintro ⟨u, h, -, hb⟩
        cases before with
        | nil => exact congrArg (fun us => some ([], us)) (List.cons.inj h).2
        | cons v before => exact (hb t (by simp [(List.cons.inj h).1]) hk).elim
    · rw [if_neg hk, Option.map_eq_some_iff]
      constructor
      · rintro ⟨⟨before', after'⟩, h, he⟩
        cases he
        obtain ⟨u, rfl, hu, hb⟩ := (ih before').1 h
        exact ⟨u, rfl, hu, List.forall_mem_cons.2 ⟨hk, hb⟩⟩
      · rintro ⟨u, h, hu, hb⟩
        cases before with
        | nil => exact (hk ((List.cons.inj h).1 ▸ hu)).elim
        | cons v before =>
          obtain ⟨rfl, hts⟩ := List.cons.inj h
          have hb' : ∀ w ∈ before, w.kind ≠ k := fun w hw => hb w (by simp [hw])
          exact ⟨(before, after), (ih before).2 ⟨u, hts, hu, hb'⟩, rfl⟩

theorem readParam_eq_ok_iff (position : Nat) (ts : List Token) (p : Param)
    (hf : ∀ t ∈ ts, t.Formed) : readParam position ts = .ok p ↔ p.Written ts := by
  rw [readParam]
  cases hs : splitLast ts with
  | none =>
    refine ⟨by simp [flawed], ?_⟩
    rintro ⟨type, name, hts, -⟩
    simp [(splitLast_eq_some_iff ts type name).2 hts] at hs
  | some parts =>
    obtain ⟨type, name⟩ := parts
    obtain rfl := (splitLast_eq_some_iff ts type name).1 hs
    have hname := name.isIdentifier_iff (hf name (by simp))
    have htype := fun p : ParamType => p.writes_iff type fun t ht => hf t (by simp [ht])
    constructor
    · intro h
      dsimp only at h
      split at h
      · simp [flawed] at h
      · next hbad =>
        simp only [not_or, Bool.not_eq_false] at hbad
        obtain ⟨e, he, h⟩ := (bind_eq_ok_iff _ _ _).1 h
        rw [readType_eq_ok_iff] at he
        split at h
        · next q hq =>
          cases h
          exact ⟨type, name, rfl, hname.1 hbad.1, (htype q).1 ⟨e, he, hq⟩, rfl⟩
        · cases h
    · rintro ⟨type', name', hts, hn, hw, hl⟩
      obtain ⟨rfl, hn'⟩ := List.append_inj' hts rfl
      obtain rfl := List.singleton_inj.1 hn'
      obtain ⟨e, he, hp⟩ := (htype p.type).2 hw
      have hne : type ≠ [] := by
        rintro rfl
        cases he
      have hgood : ¬(name.isIdentifier = false ∨ type = []) := by
        simp [hname.2 hn, hne]
      dsimp only
      rw [if_neg hgood, bind_eq_ok_iff]
      refine ⟨e, (readType_eq_ok_iff type e).2 he, ?_⟩
      rw [hp, ← hl]

theorem readHead_eq_ok_iff (ts : List Token) (e : TypeExpr) (name : String) :
    readHead ts = .ok (e, name) ↔ ∃ type t, ts = type ++ [t] ∧ t.isIdentifier = true ∧
      TypeExpr.ofTokens type = .ok e ∧ t.lexeme = name := by
  rw [readHead]
  cases hs : splitLast ts with
  | none =>
    refine ⟨by simp [flawed], ?_⟩
    rintro ⟨type, t, hts, -⟩
    simp [(splitLast_eq_some_iff ts type t).2 hts] at hs
  | some parts =>
    obtain ⟨type, t⟩ := parts
    obtain rfl := (splitLast_eq_some_iff ts type t).1 hs
    dsimp only
    constructor
    · intro h
      split at h
      · cases h
      split at h
      · cases h
      · next hid hne =>
        obtain ⟨e', he, h⟩ := (bind_eq_ok_iff _ _ _).1 h
        cases h
        exact ⟨type, t, rfl, by simpa using hid, (readType_eq_ok_iff type e).1 he, rfl⟩
    · rintro ⟨type', t', hts, hid, he, rfl⟩
      obtain ⟨rfl, ht⟩ := List.append_inj' hts rfl
      obtain rfl := List.singleton_inj.1 ht
      have hne : type ≠ [] := by
        rintro rfl
        cases he
      rw [if_neg (by simp [hid]), if_neg hne, bind_eq_ok_iff]
      exact ⟨e, (readType_eq_ok_iff type e).2 he, rfl⟩

theorem parts_single (ts : List Token) (h : ∀ t ∈ ts, t.kind ≠ .comma) : parts ts = [ts] := by
  induction ts with
  | nil => rfl
  | cons t ts ih =>
    rw [parts, if_neg (h t (by simp)), ih fun u hu => h u (by simp [hu])]

theorem parts_append (ts rest : List Token) (comma : Token) (h : ∀ t ∈ ts, t.kind ≠ .comma)
    (hc : comma.kind = .comma) : parts (ts ++ comma :: rest) = ts :: parts rest := by
  induction ts with
  | nil => simp [parts, hc]
  | cons t ts ih =>
    rw [List.cons_append, parts, if_neg (h t (by simp)), ih fun u hu => h u (by simp [hu])]

theorem parts_cases (ts : List Token) : parts ts = [ts] ∨
    ∃ first comma rest, ts = first ++ comma :: rest ∧ comma.kind = .comma ∧
      parts ts = first :: parts rest := by
  induction ts with
  | nil => exact .inl rfl
  | cons t ts ih =>
    by_cases ht : t.kind = .comma
    · exact .inr ⟨[], t, ts, rfl, ht, by rw [parts, if_pos ht]⟩
    · rcases ih with h | ⟨first, comma, rest, hts, hc, h⟩
      · exact .inl (by rw [parts, if_neg ht, h])
      · exact .inr ⟨t :: first, comma, rest, by rw [hts]; rfl, hc,
          by rw [parts, if_neg ht, h]⟩

theorem mem_of_mem_parts {ts p : List Token} (hp : p ∈ parts ts) {t : Token} (ht : t ∈ p) :
    t ∈ ts := by
  induction ts generalizing p with
  | nil =>
    rw [List.mem_singleton.mp hp] at ht
    exact ht
  | cons u us ih =>
    rw [parts] at hp
    split at hp
    · rcases List.mem_cons.mp hp with rfl | hp
      · exact absurd ht List.not_mem_nil
      · exact List.mem_cons_of_mem _ (ih hp ht)
    · split at hp
      · rw [List.mem_singleton.mp hp] at ht
        exact List.mem_cons.mpr (.inl (List.mem_singleton.mp ht))
      case h_2 q qs hparts =>
        rw [hparts] at ih
        rcases List.mem_cons.mp hp with rfl | hp
        · rcases List.mem_cons.mp ht with rfl | ht
          · exact List.mem_cons_self
          · exact List.mem_cons_of_mem _ (ih List.mem_cons_self ht)
        · exact List.mem_cons_of_mem _ (ih (List.mem_cons_of_mem _ hp) ht)

theorem readParts_eq_ok {ts : List Token} {ps : List Param} (h : Param.Listed ts ps)
    (hf : ∀ t ∈ ts, t.Formed) (position : Nat) : readParts position (parts ts) = .ok ps := by
  induction h generalizing position with
  | @last ts p hw =>
    rw [parts_single ts hw.no_comma, readParts, (readParam_eq_ok_iff position ts p hf).2 hw]
    rfl
  | @cons ts rest comma p ps hw hc _ ih =>
    have hp := (readParam_eq_ok_iff position ts p fun t ht => hf t (by simp [ht])).2 hw
    rw [parts_append ts rest comma hw.no_comma hc, readParts, hp,
      ih (fun t ht => hf t (by simp [ht])) (position + 1)]
    rfl

theorem listed_of_readParts (ts : List Token) (hf : ∀ t ∈ ts, t.Formed) (position : Nat)
    (ps : List Param) (h : readParts position (parts ts) = .ok ps) : Param.Listed ts ps := by
  rcases parts_cases ts with hp | ⟨first, comma, rest, hts, hc, hp⟩
  · rw [hp, readParts, bind_eq_ok_iff] at h
    obtain ⟨p, hread, h⟩ := h
    cases h
    exact .last ((readParam_eq_ok_iff position ts p hf).1 hread)
  · rw [hp, readParts, bind_eq_ok_iff] at h
    obtain ⟨p, hread, h⟩ := h
    obtain ⟨qs, hrest, h⟩ := (bind_eq_ok_iff _ _ _).1 h
    cases h
    have hfirst : ∀ t ∈ first, t.Formed := fun t ht => hf t (by simp [hts, ht])
    have hfrest : ∀ t ∈ rest, t.Formed := fun t ht => hf t (by simp [hts, ht])
    rw [hts]
    exact .cons ((readParam_eq_ok_iff position first p hfirst).1 hread) hc
      (listed_of_readParts rest hfrest (position + 1) qs hrest)
termination_by ts.length
decreasing_by
  simp only [hts, List.length_append, List.length_cons]
  omega

theorem isVoidList_iff (ts : List Token) :
    isVoidList ts = true ↔ ts = [] ∨ ∃ t, ts = [t] ∧ t.shape = (.ident, "void") := by
  match ts with
  | [] => simp [isVoidList]
  | [t] => simp [isVoidList, Token.isNamed, Token.shape]
  | t :: u :: ts => simp [isVoidList]

theorem listed_not_void {ts : List Token} {ps : List Param} (h : Param.Listed ts ps) :
    isVoidList ts = false := by
  have hlen := h.two_le_length
  rw [← Bool.not_eq_true, isVoidList_iff]
  rintro (rfl | ⟨t, rfl, -⟩) <;> simp at hlen

theorem readParams_eq_ok_iff (ts : List Token) (ps : List Param) (hf : ∀ t ∈ ts, t.Formed) :
    readParams ts = .ok ps ↔ Param.Enclosed ts ps := by
  rw [readParams]
  constructor
  · intro h
    split at h
    · next hv =>
      cases h
      rcases (isVoidList_iff ts).1 hv with rfl | ⟨t, rfl, ht⟩
      · exact .empty
      · exact .void ht
    · exact .listed (listed_of_readParts ts hf 1 ps h)
  · intro h
    cases h with
    | empty => rfl
    | void ht => exact if_pos ((isVoidList_iff _).2 (.inr ⟨_, rfl, ht⟩))
    | listed hl =>
      rw [if_neg (by simp [listed_not_void hl]), readParts_eq_ok hl hf]

theorem ofTokens_eq_ok_iff (ts : List Token) (d : Declaration) :
    ofTokens ts = .ok d ↔ ∃ head tail inner rest e,
      cutAt .lparen ts = some (head, tail) ∧ readHead head = .ok (e, d.name) ∧
        cutAt .rparen tail = some (inner, rest) ∧ readParams inner = .ok d.params ∧
        ReturnType.ofTypeExpr? e = some d.returnType := by
  rw [ofTokens]
  constructor
  · intro h
    split at h
    · cases h
    next head tail hopen =>
    obtain ⟨⟨e, name⟩, hhead, h⟩ := (bind_eq_ok_iff _ _ _).1 h
    dsimp only at h
    split at h
    · cases h
    next inner rest hclose =>
    obtain ⟨params, hparams, h⟩ := (bind_eq_ok_iff _ _ _).1 h
    split at h
    · cases h
    next r hr =>
    cases h
    exact ⟨head, tail, inner, rest, e, hopen, hhead, hclose, hparams, hr⟩
  · rintro ⟨head, tail, inner, rest, e, hopen, hhead, hclose, hparams, hr⟩
    rw [hopen]
    refine (bind_eq_ok_iff _ _ _).2 ⟨(e, d.name), hhead, ?_⟩
    dsimp only
    rw [hclose]
    refine (bind_eq_ok_iff _ _ _).2 ⟨d.params, hparams, ?_⟩
    rw [hr]

/-- The reader accepts the written forms of a declaration and nothing else. -/
theorem ofText_eq_ok_iff_written (body : String) (d : Declaration) :
    ofText body = .ok d ↔ Written (Token.ofText body) d := by
  have hf := Token.ofText_formed body
  rw [ofText]
  generalize Token.ofText body = ts at hf
  rw [ofTokens_eq_ok_iff]
  constructor
  · rintro ⟨head, tail, inner, rest, e, hopen, hhead, hclose, hparams, hr⟩
    obtain ⟨opening, rfl, hok, -⟩ := (cutAt_eq_some_iff _ _ _ _).1 hopen
    obtain ⟨closing, rfl, hck, -⟩ := (cutAt_eq_some_iff _ _ _ _).1 hclose
    obtain ⟨type, name, rfl, hid, he, hname⟩ := (readHead_eq_ok_iff _ _ _).1 hhead
    have hftype : ∀ u ∈ type, u.Formed := fun u hu => hf u (by simp [hu])
    have hinner := (readParams_eq_ok_iff inner d.params fun u hu => hf u (by simp [hu])).1 hparams
    exact ⟨type, name, opening, inner, closing, rest, by simp,
      (name.isIdentifier_iff (hf name (by simp))).1 hid, hok, hck, hinner.no_paren,
      (d.returnType.writes_iff type hftype).1 ⟨e, he, hr⟩, hname.symm, hinner⟩
  · rintro ⟨type, name, opening, inner, closing, rest, rfl, hn, hok, hck, hparen, hw, hname, henc⟩
    have hftype : ∀ u ∈ type, u.Formed := fun u hu => hf u (by simp [hu])
    obtain ⟨e, he, hr⟩ := (d.returnType.writes_iff type hftype).2 hw
    have hid : name.isIdentifier = true := (name.isIdentifier_iff (hf name (by simp))).2 hn
    have hhead := hw.no_opening hn
    refine ⟨type ++ [name], inner ++ closing :: rest, inner, rest, e, ?_, ?_, ?_, ?_, hr⟩
    · exact (cutAt_eq_some_iff _ _ _ _).2 ⟨opening, by simp, hok, hhead⟩
    · exact (readHead_eq_ok_iff _ _ _).2 ⟨type, name, rfl, hid, he, hname.symm⟩
    · exact (cutAt_eq_some_iff _ _ _ _).2 ⟨closing, rfl, hck, fun u hu => (hparen u hu).2⟩
    · exact (readParams_eq_ok_iff inner d.params fun u hu => hf u (by simp [hu])).2 henc

end Declaration
end Bindery
