import Bindery.Proofs.CanonicalSpelling

/-!
# Words of a type

A type keeps what its tokens say: whether there is a `const`, the marks, and the characters of the
words. No word can be taken for anything else in a spelling, since it holds no blank and no mark and
is not `const`. So a canonical spelling can be taken apart again, and two types that are read from
texts have one spelling only if they are one type.
-/

set_option autoImplicit false

namespace Bindery
open Bindery.Text

namespace Kind

theorem inType_iff (k : Kind) :
    k.inType = true ↔ k ∈ [Kind.const, .ident, .pathSep, .star, .amp] := by
  cases k <;> decide

theorem inWord_eq (k : Kind) : k.inWord = decide (k = .ident ∨ k = .pathSep) := by
  cases k <;> rfl

theorem isPointer_eq (k : Kind) : k.isPointer = decide (k = .star ∨ k = .amp) := by
  cases k <;> rfl

end Kind

namespace TypeExpr

def isPathChar (c : Char) : Bool := isWordChar c || c == ':'

def isMark (c : Char) : Bool := c == '*' || c == '&'

structure IsPath (w : String) : Prop where
  ne_empty : w ≠ ""
  ne_const : w ≠ "const"
  chars : ∀ c ∈ w.toList, isPathChar c = true

structure Legal (e : TypeExpr) : Prop where
  words : e.base ≠ []
  paths : ∀ w ∈ e.base, IsPath w
  marks : ∀ c ∈ e.indirection.toList, isMark c = true

theorem not_pathChar_of_mark {c : Char} (h : isMark c = true) : isPathChar c = false := by
  simp only [isMark, Bool.or_eq_true, beq_iff_eq] at h
  rcases h with rfl | rfl <;> decide

theorem pathChar_plain {c : Char} (h : isPathChar c = true) :
    isBlank c = false ∧ c ≠ '*' ∧ c ≠ '&' := by
  refine ⟨?_, ?_, ?_⟩
  · simp only [isPathChar, Bool.or_eq_true, beq_iff_eq] at h
    rcases h with h | rfl
    · exact Token.wordChar_solid h
    · decide
  · rintro rfl
    exact absurd h (by decide)
  · rintro rfl
    exact absurd h (by decide)

theorem lexeme_path {t : Token} (ht : t.Formed) (hk : t.kind.inWord = true) :
    t.lexeme ≠ "" ∧ ∀ c ∈ t.lexeme.toList, isPathChar c = true := by
  cases hkind : t.kind with
  | ident =>
    simp only [Token.Formed, hkind] at ht
    refine ⟨?_, fun c hc => ?_⟩
    · intro hempty
      exact ht.1.1 (congrArg String.toList hempty)
    · simp [isPathChar, ht.1.2 c hc]
  | pathSep =>
    simp only [Token.Formed, hkind] at ht
    rw [ht]
    exact ⟨by decide, List.all_eq_true.mp (by decide)⟩
  | _ => simp [hkind, Kind.inWord] at hk

namespace Reading

theorem joined_ne_empty {e : TypeExpr} {join : Bool} {text : String}
    (h : ∀ w ∈ e.base, w ≠ "") (htext : text ≠ "") :
    ∀ w ∈ (joined e join text).base, w ≠ "" := by
  rcases joined_cases e join text with ⟨-, hbase⟩ | ⟨-, ws, w, hwords, hbase⟩
  · rw [hbase]
    exact List.forall_mem_append.mpr ⟨h, by simpa using htext⟩
  · rw [hwords] at h
    rw [hbase]
    refine List.forall_mem_append.mpr ⟨(List.forall_mem_append.mp h).1, ?_⟩
    simp [htext]

theorem foldl_ne_empty (ts : List Token) (r : Reading) (hf : ∀ t ∈ ts, t.Formed)
    (h : ∀ w ∈ r.expr.base, w ≠ "") : ∀ w ∈ (ts.foldl next r).expr.base, w ≠ "" := by
  induction ts generalizing r with
  | nil => exact h
  | cons t ts ih =>
    obtain ⟨ht, hts⟩ := List.forall_mem_cons.mp hf
    apply ih _ hts
    cases hk : t.kind.inWord with
    | false =>
      rw [next_base_idle hk]
      exact h
    | true =>
      rw [next_base ht hk]
      exact joined_ne_empty h (lexeme_path ht hk).1

end Reading

theorem gathered_paths {ts : List Token} (hf : ∀ t ∈ ts, t.Formed) :
    ∀ w ∈ (gathered ts).base, IsPath w := by
  intro w hw
  refine ⟨?_, ?_, ?_⟩
  · exact Reading.foldl_ne_empty ts _ hf (fun _ hmem => absurd hmem List.not_mem_nil) w hw
  · rintro rfl
    -- the tokens of the words are words and colons, and `const` is a token of its own
    have hshapes := Reading.foldl_words ts Reading.start hf trivial
    have hconst : (Kind.const, "const") ∈ Reading.wordShapes (gathered ts).base :=
      List.mem_flatMap.mpr ⟨"const", hw, by decide +kernel⟩
    rw [gathered, hshapes] at hconst
    obtain ⟨t, ht, hshape⟩ := List.mem_map.mp ((List.mem_append.mp hconst).resolve_left
      List.not_mem_nil)
    have hk := (List.mem_filter.mp ht).2
    rw [show t.kind = .const from congrArg Prod.fst hshape] at hk
    cases hk
  · intro c hc
    have htext := congrArg String.toList (gathered_text hf)
    rw [String.toList_join, String.toList_join] at htext
    have hmem := List.mem_flatMap_of_mem hw hc
    rw [htext, List.filter_map, List.map_map] at hmem
    obtain ⟨lexeme, hlexeme, hchar⟩ := List.mem_flatMap.mp hmem
    obtain ⟨t, ht, rfl⟩ := List.mem_map.mp hlexeme
    obtain ⟨hts, hk⟩ := List.mem_filter.mp ht
    exact (lexeme_path (hf t hts) hk).2 c hchar

theorem gathered_marks {ts : List Token} (hf : ∀ t ∈ ts, t.Formed) :
    (gathered ts).indirection =
      String.join ((ts.filter fun t => t.kind.isPointer).map Token.lexeme) ∧
    ∀ c ∈ (gathered ts).indirection.toList, isMark c = true := by
  have hchars := Reading.foldl_indirection ts Reading.start hf
  constructor
  · apply String.toList_injective
    rw [gathered, hchars, String.toList_join, List.flatMap_map]
    rfl
  · intro c hc
    rw [gathered, hchars] at hc
    obtain ⟨t, ht, hmem⟩ := List.mem_flatMap.mp ((List.mem_append.mp hc).resolve_left
      List.not_mem_nil)
    obtain ⟨hts, hk⟩ := List.mem_filter.mp ht
    have hformed := hf t hts
    cases hkind : t.kind <;> simp_all [Token.Formed, Kind.isPointer, isMark]

theorem legal_of_ofTokens {ts : List Token} {e : TypeExpr} (hf : ∀ t ∈ ts, t.Formed)
    (h : ofTokens ts = .ok e) : e.Legal := by
  obtain ⟨-, rfl, hbase⟩ := (ofTokens_eq_ok_iff ts e).mp h
  exact ⟨hbase, gathered_paths hf, (gathered_marks hf).2⟩

theorem ofTokens_ok_iff {ts : List Token} (hf : ∀ t ∈ ts, t.Formed) :
    (∃ e, ofTokens ts = .ok e) ↔ Legible ts ∧ ∃ t ∈ ts, t.kind.inWord = true := by
  have hword : (gathered ts).base ≠ [] ↔ ∃ t ∈ ts, t.kind.inWord = true := by
    rw [gathered_ne_nil_iff hf]
    simp [lastInWord]
  constructor
  · rintro ⟨e, he⟩
    obtain ⟨hlegible, rfl, hbase⟩ := (ofTokens_eq_ok_iff ts e).mp he
    exact ⟨hlegible, hword.mp hbase⟩
  · rintro ⟨hlegible, hsome⟩
    exact ⟨_, (ofTokens_eq_ok_iff ts _).mpr ⟨hlegible, rfl, hword.mpr hsome⟩⟩

/-- The tokens of a text are read as a type exactly when they are words, colons, marks and `const`,
with at least one word or `::` and no word behind a mark. The type has lost none of them, and no
word of it looks like anything but a word. -/
theorem ofTokens_exact (text : String) :
    let ts := Token.ofText text
    ((∃ e, ofTokens ts = .ok e) ↔
      (∀ t ∈ ts, t.kind ∈ [Kind.const, .ident, .pathSep, .star, .amp]) ∧
      (∃ t ∈ ts, t.kind = .ident ∨ t.kind = .pathSep) ∧
      ts.Pairwise fun t u => t.kind = .star ∨ t.kind = .amp → u.kind ≠ .ident) ∧
    ∀ e, ofTokens ts = .ok e →
      (e.isConst = true ↔ ∃ t ∈ ts, t.kind = .const) ∧
      e.indirection =
        String.join ((ts.filter fun t => t.kind = .star ∨ t.kind = .amp).map Token.lexeme) ∧
      String.join e.base =
        String.join ((ts.filter fun t => t.kind = .ident ∨ t.kind = .pathSep).map Token.lexeme) ∧
      ∀ w ∈ e.base, w ≠ "" ∧ w ≠ "const" ∧
        ∀ c ∈ w.toList, isBlank c = false ∧ c ≠ '*' ∧ c ≠ '&' := by
  intro ts
  have hf : ∀ t ∈ ts, t.Formed := Token.ofText_formed text
  constructor
  · rw [ofTokens_ok_iff hf, Legible]
    simp only [Kind.inType_iff, Kind.inWord_eq, Kind.isPointer_eq, decide_eq_true_eq]
    constructor
    · rintro ⟨⟨hkinds, horder⟩, hsome⟩
      exact ⟨hkinds, hsome, horder⟩
    · rintro ⟨hkinds, hsome, horder⟩
      exact ⟨⟨hkinds, horder⟩, hsome⟩
  · intro e he
    have hlegal := legal_of_ofTokens hf he
    obtain ⟨-, rfl, -⟩ := (ofTokens_eq_ok_iff ts e).mp he
    refine ⟨?_, ?_, ?_, ?_⟩
    · rw [gathered_isConst, List.any_map]
      simp
    · simpa only [Kind.isPointer_eq] using (gathered_marks hf).1
    · have htext := gathered_text hf
      rw [List.filter_map, List.map_map] at htext
      simp only [Kind.inWord_eq] at htext
      exact htext
    · intro w hw
      have hpath := hlegal.paths w hw
      exact ⟨hpath.ne_empty, hpath.ne_const, fun c hc => pathChar_plain (hpath.chars c hc)⟩

/-- A path whose parts are kept apart, with a second `const` and a `::` behind a mark. -/
theorem ofTokens_exact_const_path :
    let ts := Token.ofText "std const::\tx * const&::"
    ∃ e, ofTokens ts = .ok e ∧ e.isConst = true ∧ e.indirection = "*&" ∧
      String.join e.base = "std::x::" ∧ "const" ∉ e.base := by
  intro ts
  obtain ⟨hiff, hkept⟩ := ofTokens_exact "std const::\tx * const&::"
  obtain ⟨e, he⟩ := hiff.mpr (by decide +kernel)
  obtain ⟨hconst, hmarks, htext, hwords⟩ := hkept e he
  refine ⟨e, he, hconst.mpr (by decide +kernel), ?_, ?_, fun hmem => (hwords _ hmem).2.1 rfl⟩
  · rw [hmarks]
    decide +kernel
  · rw [htext]
    decide +kernel

def behindWord (ws : List (List Char)) (marks : List Char) : List Char :=
  match ws with
  | [] => marks
  | w :: ws => ' ' :: ([' '].intercalate (w :: ws) ++ marks)

theorem intercalate_behindWord (w : List Char) (ws : List (List Char)) (marks : List Char) :
    [' '].intercalate (w :: ws) ++ marks = w ++ behindWord ws marks := by
  cases ws with
  | nil => simp [behindWord]
  | cons v ws => simp [behindWord, List.intercalate_cons_cons]

theorem behindWord_head (ws : List (List Char)) {marks : List Char}
    (hmarks : ∀ c ∈ marks, isMark c = true) :
    ∀ c ∈ (behindWord ws marks).head?, isPathChar c = false := by
  cases ws with
  | nil => exact fun c hc => not_pathChar_of_mark (hmarks c (List.mem_of_head? hc))
  | cons w ws =>
    rintro c ⟨⟩
    decide

theorem mark_ne_blank {x marks : List Char} (hmarks : ∀ c ∈ marks, isMark c = true) :
    marks ≠ ' ' :: x := by
  rintro rfl
  exact absurd (hmarks ' ' List.mem_cons_self) (by decide)

/-- Words and the marks behind them are known from the text that they make. -/
theorem words_cancel {ws vs : List (List Char)} {m n : List Char} (hw : ws ≠ []) (hv : vs ≠ [])
    (hws : ∀ w ∈ ws, ∀ c ∈ w, isPathChar c = true) (hvs : ∀ v ∈ vs, ∀ c ∈ v, isPathChar c = true)
    (hm : ∀ c ∈ m, isMark c = true) (hn : ∀ c ∈ n, isMark c = true)
    (h : [' '].intercalate ws ++ m = [' '].intercalate vs ++ n) : ws = vs ∧ m = n := by
  induction ws generalizing vs with
  | nil => exact absurd rfl hw
  | cons w ws ih =>
    cases vs with
    | nil => exact absurd rfl hv
    | cons v vs =>
      obtain ⟨hfirst, hmore⟩ := List.forall_mem_cons.mp hws
      obtain ⟨hfirst', hmore'⟩ := List.forall_mem_cons.mp hvs
      rw [intercalate_behindWord, intercalate_behindWord] at h
      obtain ⟨rfl, hrest⟩ := longest_cancel hfirst hfirst' (behindWord_head ws hm)
        (behindWord_head vs hn) h
      -- a blank is no mark, so either both texts have a further word or neither has
      cases ws with
      | nil =>
        cases vs with
        | nil => exact ⟨rfl, hrest⟩
        | cons v' vs => exact absurd hrest (mark_ne_blank hm)
      | cons w' ws =>
        cases vs with
        | nil => exact absurd hrest.symm (mark_ne_blank hn)
        | cons v' vs =>
          obtain ⟨hwords, hmarks⟩ := ih (List.cons_ne_nil w' ws) (List.cons_ne_nil v' vs) hmore
            hmore' (List.cons.inj hrest).2
          exact ⟨congrArg (w :: ·) hwords, hmarks⟩

theorem canonical_chars (e : TypeExpr) : e.canonical.toList =
    (if e.isConst then "const".toList ++ [' '] else []) ++
      ([' '].intercalate (e.base.map String.toList) ++ e.indirection.toList) := by
  cases hconst : e.isConst <;> simp [canonical, hconst, String.toList_intercalate]

namespace Legal
variable {d e : TypeExpr}

theorem wordChars (h : e.Legal) :
    ∀ w ∈ e.base.map String.toList, ∀ c ∈ w, isPathChar c = true := by
  intro w hw
  obtain ⟨v, hv, rfl⟩ := List.mem_map.mp hw
  exact (h.paths v hv).chars

theorem not_const (h : e.Legal) (x : List Char) :
    [' '].intercalate (e.base.map String.toList) ++ e.indirection.toList ≠
      "const".toList ++ ' ' :: x := by
  intro heq
  obtain ⟨w, ws, hbase⟩ := List.exists_cons_of_ne_nil h.words
  have hw := h.paths w (hbase ▸ List.mem_cons_self)
  rw [hbase, List.map_cons, intercalate_behindWord] at heq
  obtain ⟨hconst, -⟩ := longest_cancel hw.chars (List.all_eq_true.mp (by decide))
    (behindWord_head _ h.marks) (by rintro c ⟨⟩; decide) heq
  exact hw.ne_const (String.toList_injective hconst)

theorem isConst_eq (hd : d.Legal) (he : e.Legal) (h : d.canonical = e.canonical) :
    d.isConst = e.isConst := by
  have hchars := congrArg String.toList h
  rw [canonical_chars, canonical_chars] at hchars
  cases hdc : d.isConst <;> cases hec : e.isConst <;> simp only [hdc, hec] at hchars
  · rfl
  · exact absurd (by simpa using hchars) (hd.not_const _)
  · exact absurd (by simpa using hchars.symm) (he.not_const _)
  · rfl

end Legal

/-- Types that are read from texts and have one canonical spelling are one type. -/
theorem canonical_identifies (s t : String) (d e : TypeExpr) (hd : ofText s = .ok d)
    (he : ofText t = .ok e) (h : d.canonical = e.canonical) : d = e := by
  have hd' := legal_of_ofTokens (Token.ofText_formed s) hd
  have he' := legal_of_ofTokens (Token.ofText_formed t) he
  have hconst := hd'.isConst_eq he' h
  have hchars := congrArg String.toList h
  rw [canonical_chars, canonical_chars, hconst] at hchars
  have hne : ∀ {f : TypeExpr}, f.Legal → f.base.map String.toList ≠ [] :=
    fun hf hnil => hf.words (List.map_eq_nil_iff.mp hnil)
  obtain ⟨hwords, hmarks⟩ := words_cancel (hne hd') (hne he') hd'.wordChars he'.wordChars
    hd'.marks he'.marks (List.append_cancel_left hchars)
  have hbase := (List.map_inj_right fun _ _ => String.toList_injective).mp hwords
  rw [TypeExpr.mk.injEq]
  exact ⟨hconst, hbase, String.toList_injective hmarks⟩

/-- Texts with the keyword in other places, and a path next to a word. -/
theorem canonical_identifies_respelled :
    ∃ d e, ofText "unsigned const a :: b*" = .ok d ∧ ofText "const unsigned a:: b const *" = .ok e ∧
      d.canonical = e.canonical ∧ d = e := by
  have hd : ofText "unsigned const a :: b*" = .ok ⟨true, ["unsigned", "a::b"], "*"⟩ := by
    decide +kernel
  have he : ofText "const unsigned a:: b const *" = .ok ⟨true, ["unsigned", "a::b"], "*"⟩ := by
    decide +kernel
  exact ⟨_, _, hd, he, rfl, canonical_identifies _ _ _ _ hd he rfl⟩

end TypeExpr
end Bindery
