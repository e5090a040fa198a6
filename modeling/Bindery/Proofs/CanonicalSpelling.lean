import Bindery.Proofs.TypeReading
import Mathlib.Data.List.Induction

/-!
# Reading a canonical spelling

The canonical spelling puts `const` first and the `*` and `&` marks last. A word
and a `::` that one of these parted in the text stand side by side in the
spelling, and are read there as one path. Apart from that a spelling is read as
the type that it spells, and what it is read as is read again from its own
spelling.
-/

set_option autoImplicit false

namespace Bindery
namespace TypeExpr

/-- A `const`, `*` or `&` stands between a word and a `::`, in either order, with no
other word and no other `::` between the two. -/
def Parted (ks : List Kind) : Prop :=
  ∃ before left gap right after, ks = before ++ left :: (gap ++ right :: after) ∧ gap ≠ [] ∧
    (∀ k ∈ gap, k.inWord = false) ∧ left.inWord = true ∧ right.inWord = true ∧ left ≠ right

def lastInWord (ks : List Kind) : Option Kind := (ks.filter Kind.inWord).getLast?

theorem lastInWord_inWord {ks : List Kind} {k : Kind} (h : lastInWord ks = some k) :
    k.inWord = true :=
  (List.mem_filter.mp (List.mem_of_getLast? h)).2

theorem lastInWord_of_getLast? {ks : List Kind} {k : Kind} (hk : k.inWord = true)
    (h : ks.getLast? = some k) : lastInWord ks = some k := by
  obtain ⟨before, rfl⟩ := List.getLast?_eq_some_iff.mp h
  simp [lastInWord, List.filter_append, hk]

theorem lastInWord_behind_iff {ks : List Kind} {left : Kind} :
    lastInWord ks = some left ∧ ks.getLast? ≠ some left ↔
      ∃ before gap, ks = before ++ left :: gap ∧ gap ≠ [] ∧ (∀ k ∈ gap, k.inWord = false) ∧
        left.inWord = true := by
  constructor
  · rintro ⟨hword, hlast⟩
    obtain ⟨words, hwords⟩ := List.getLast?_eq_some_iff.mp hword
    obtain ⟨front, back, rfl, -, hback⟩ := List.filter_eq_append_iff.mp hwords
    obtain ⟨idle, gap, rfl, -, hleft, hgap⟩ := List.filter_eq_cons_iff.mp hback
    refine ⟨front ++ idle, gap, by simp, ?_, ?_, hleft⟩
    · rintro rfl
      exact hlast (by simp)
    · simpa using hgap
  · rintro ⟨before, gap, rfl, hne, hgap, hleft⟩
    have hnone : gap.filter Kind.inWord = [] := by simpa using hgap
    refine ⟨by simp [lastInWord, List.filter_append, hleft, hnone], fun hlast => ?_⟩
    rw [List.getLast?_append, List.getLast?_cons, List.getLast?_eq_some_getLast hne] at hlast
    have hmem := hgap _ (List.getLast_mem hne)
    simp at hlast
    rw [hlast, hleft] at hmem
    cases hmem

/-- A list of kinds becomes parted by a word or `::` that meets another kind across a gap. -/
theorem parted_concat_iff {ks : List Kind} {k : Kind} :
    Parted (ks ++ [k]) ↔ Parted ks ∨ k.inWord = true ∧
      ∃ left, lastInWord ks = some left ∧ ks.getLast? ≠ some left ∧ left ≠ k := by
  constructor
  · rintro ⟨before, left, gap, right, after, hks, hne, hgap, hleft, hright, hdiff⟩
    rcases List.eq_nil_or_concat after with rfl | ⟨after, last, rfl⟩
    · have hsplit : ks ++ [k] = (before ++ left :: gap) ++ [right] := by simpa using hks
      obtain ⟨hbefore, hk⟩ := List.append_inj' hsplit rfl
      obtain rfl := List.singleton_inj.mp hk
      obtain ⟨hword, hlast⟩ := lastInWord_behind_iff.mpr ⟨before, gap, hbefore, hne, hgap, hleft⟩
      exact .inr ⟨hright, left, hword, hlast, hdiff⟩
    · have hsplit : ks ++ [k] = (before ++ left :: (gap ++ right :: after)) ++ [last] := by
        simpa using hks
      obtain ⟨hbefore, -⟩ := List.append_inj' hsplit rfl
      exact .inl ⟨before, left, gap, right, after, hbefore, hne, hgap, hleft, hright, hdiff⟩
  · rintro (⟨before, left, gap, right, after, rfl, hgap⟩ | ⟨hk, left, hword, hlast, hdiff⟩)
    · exact ⟨before, left, gap, right, after ++ [k], by simp, hgap⟩
    · obtain ⟨before, gap, rfl, hne, hgap, hleft⟩ := lastInWord_behind_iff.mp ⟨hword, hlast⟩
      exact ⟨before, left, gap, k, [], by simp, hne, hgap, hleft, hk, hdiff⟩

theorem parted_append_idle {ks marks : List Kind} (h : ∀ k ∈ marks, k.inWord = false) :
    Parted (ks ++ marks) ↔ Parted ks := by
  induction marks using List.reverseRecOn with
  | nil => rw [List.append_nil]
  | append_singleton marks k ih =>
    obtain ⟨hmarks, hk⟩ := List.forall_mem_append.mp h
    rw [← List.append_assoc, parted_concat_iff, ih hmarks, hk k (List.mem_singleton_self k)]
    simp

theorem not_parted_plain {ks : List Kind} (h : .pathSep ∉ ks) : ¬Parted ks := by
  have hident : ∀ k ∈ ks, k.inWord = true → k = .ident := by
    intro k hk hword
    cases k with
    | ident => rfl
    | pathSep => exact absurd hk h
    | _ => cases hword
  rintro ⟨before, left, gap, right, after, rfl, -, -, hleft, hright, hdiff⟩
  exact hdiff ((hident left (by simp) hleft).trans (hident right (by simp) hright).symm)

theorem not_parted_sorted {first words marks : List Kind} (hfirst : ∀ k ∈ first, k.inWord = false)
    (hwords : ∀ k ∈ words, k.inWord = true) (hmarks : ∀ k ∈ marks, k.inWord = false) :
    ¬Parted (first ++ words ++ marks) := by
  rw [parted_append_idle hmarks]
  clear hmarks
  induction words using List.reverseRecOn with
  | nil =>
    rw [List.append_nil]
    exact not_parted_plain fun hpath => Bool.false_ne_true (hfirst _ hpath).symm
  | append_singleton words k ih =>
    obtain ⟨hwords, -⟩ := List.forall_mem_append.mp hwords
    rw [← List.append_assoc, parted_concat_iff]
    rintro (hparted | ⟨-, left, hleft, hlast, -⟩)
    · exact ih hwords hparted
    · -- the word that was read last stands right before
      rcases List.eq_nil_or_concat words with rfl | ⟨words, word, rfl⟩
      · have hmem := List.mem_filter.mp (List.mem_of_getLast? hleft)
        simp [hfirst left (by simpa using hmem.1)] at hmem
      · have hword : (first ++ words.concat word).getLast? = some word := by simp
        rw [lastInWord_of_getLast? (hwords word (by simp)) hword] at hleft
        exact hlast (hword.trans hleft)

namespace Reading

def joins (last : Option Kind) (k : Kind) : Bool := last.any fun j => j.inWord && j != k

theorem joins_getLast? {ks : List Kind} {k : Kind} (h : joins ks.getLast? k = true) :
    ks.getLast? = lastInWord ks := by
  cases hlast : ks.getLast? with
  | none => simp [joins, hlast] at h
  | some j =>
    simp only [joins, hlast, Option.any_some, Bool.and_eq_true] at h
    exact (lastInWord_of_getLast? h.1 hlast).symm

/-- What is joined to the token right before it is joined as well when all that stands
between words is left out; the converse fails across a gap. -/
theorem joins_lastInWord_iff {ks : List Kind} {k : Kind} :
    joins (lastInWord ks) k = true ↔ joins ks.getLast? k = true ∨
      ∃ left, lastInWord ks = some left ∧ ks.getLast? ≠ some left ∧ left ≠ k := by
  constructor
  · intro h
    by_cases hlast : ks.getLast? = lastInWord ks
    · exact .inl (hlast ▸ h)
    · cases hword : lastInWord ks with
      | none => simp [joins, hword] at h
      | some left =>
        simp only [joins, hword, Option.any_some, Bool.and_eq_true, bne_iff_ne] at h
        exact .inr ⟨left, rfl, hword ▸ hlast, h.2⟩
  · rintro (h | ⟨left, hword, -, hdiff⟩)
    · exact joins_getLast? h ▸ h
    · simp [joins, hword, lastInWord_inWord hword, hdiff]

theorem next_base {r : Reading} {t : Token} (ht : t.Formed) (hk : t.kind.inWord = true) :
    (r.next t).expr.base = (joined r.expr (joins r.last t.kind) t.lexeme).base := by
  cases hkind : t.kind with
  | ident =>
    have hjoin : (r.last == some .pathSep) = joins r.last .ident := by
      rcases r.last with _ | k
      · rfl
      · cases k <;> rfl
    simp only [next, hkind, hjoin]
  | pathSep =>
    have hlexeme : t.lexeme = "::" := by simpa [Token.Formed, hkind] using ht
    have hjoin : (r.last == some .ident) = joins r.last .pathSep := by
      rcases r.last with _ | k
      · rfl
      · cases k <;> rfl
    simp only [next, hkind, hjoin, hlexeme]
  | _ => simp [hkind, Kind.inWord] at hk

theorem next_base_idle {r : Reading} {t : Token} (hk : t.kind.inWord = false) :
    (r.next t).expr.base = r.expr.base := by
  cases hkind : t.kind <;> simp_all [next, Kind.inWord]

theorem joined_ne_nil (e : TypeExpr) (join : Bool) (text : String) :
    (joined e join text).base ≠ [] := by
  rcases joined_cases e join text with ⟨-, hbase⟩ | ⟨-, ws, w, -, hbase⟩ <;> simp [hbase]

theorem joined_length {e : TypeExpr} {join : Bool} (text : String)
    (h : join = true → e.base ≠ []) :
    (joined e join text).base.length = e.base.length + if join then 0 else 1 := by
  rcases joined_cases e join text with ⟨hfirst, hbase⟩ | ⟨rfl, ws, w, hwords, hbase⟩
  · have hjoin : ¬join = true := fun hj => h hj (hfirst hj)
    rw [hbase, if_neg hjoin, List.length_append]
    rfl
  · simp [hbase, hwords]

/-- Two readings of the same words, the second without the tokens that stand between
them: its words are joined as often, and more often where they were parted. -/
structure Closes (ks : List Kind) (r q : Reading) : Prop where
  last : r.last = ks.getLast?
  word : q.last = lastInWord ks
  some_word : lastInWord ks ≠ none → r.expr.base ≠ [] ∧ q.expr.base ≠ []
  same : ¬Parted ks → r.expr.base = q.expr.base
  fewer : Parted ks → q.expr.base.length < r.expr.base.length

namespace Closes
variable {ks : List Kind} {r q : Reading}

theorem length_le (h : Closes ks r q) : q.expr.base.length ≤ r.expr.base.length := by
  by_cases hparted : Parted ks
  · exact (h.fewer hparted).le
  · rw [h.same hparted]

theorem idle (h : Closes ks r q) {t : Token} (hk : t.kind.inWord = false) :
    Closes (ks ++ [t.kind]) (r.next t) q := by
  have hword : lastInWord (ks ++ [t.kind]) = lastInWord ks := by
    simp [lastInWord, List.filter_append, hk]
  have hparted : Parted (ks ++ [t.kind]) ↔ Parted ks := parted_append_idle (by simpa using hk)
  refine ⟨by simp [next], h.word.trans hword.symm, ?_, ?_, ?_⟩
  · rw [hword, next_base_idle hk]
    exact h.some_word
  · rw [hparted, next_base_idle hk]
    exact h.same
  · rw [hparted, next_base_idle hk]
    exact h.fewer

theorem next_same (h : Closes ks r q) {k : Kind} (hk : k.inWord = true) (text : String)
    (hparted : ¬Parted (ks ++ [k])) :
    (joined r.expr (joins ks.getLast? k) text).base =
      (joined q.expr (joins (lastInWord ks) k) text).base := by
  rw [parted_concat_iff, not_or] at hparted
  have hsame : joins ks.getLast? k = joins (lastInWord ks) k := by
    rw [Bool.eq_iff_iff, joins_lastInWord_iff]
    exact (or_iff_left fun hgap => hparted.2 ⟨hk, hgap⟩).symm
  rw [hsame, joined, joined, h.same hparted.1]

theorem next_fewer (h : Closes ks r q) {k : Kind} (text : String) (hparted : Parted (ks ++ [k])) :
    (joined q.expr (joins (lastInWord ks) k) text).base.length <
      (joined r.expr (joins ks.getLast? k) text).base.length := by
  have hjoins : joins (lastInWord ks) k = true → lastInWord ks ≠ none := by
    intro hjoins hnone
    rw [hnone] at hjoins
    cases hjoins
  rw [joined_length text fun hj => (h.some_word (hjoins hj)).2,
    joined_length text fun hj => (h.some_word (hjoins (joins_lastInWord_iff.mpr (.inl hj)))).1]
  rcases parted_concat_iff.mp hparted with hparted | ⟨-, left, hleft, hne, hdiff⟩
  · have hfewer := h.fewer hparted
    cases hlast : joins ks.getLast? k with
    | true =>
      rw [joins_lastInWord_iff.mpr (.inl hlast)]
      simpa using hfewer
    | false =>
      simp only [Bool.false_eq_true, if_false]
      split <;> omega
  · -- across the gap only the second reading joins
    have hle := h.length_le
    have hnot : joins ks.getLast? k = false := by
      rw [← Bool.not_eq_true]
      intro hj
      exact hne ((joins_getLast? hj).trans hleft)
    rw [hnot, joins_lastInWord_iff.mpr (.inr ⟨left, hleft, hne, hdiff⟩)]
    simp only [if_true, Bool.false_eq_true, if_false]
    omega

theorem next (h : Closes ks r q) {t : Token} (ht : t.Formed) (hk : t.kind.inWord = true) :
    Closes (ks ++ [t.kind]) (r.next t) (q.next t) := by
  have hword : lastInWord (ks ++ [t.kind]) = some t.kind :=
    lastInWord_of_getLast? hk (by simp)
  have hr := next_base (r := r) ht hk
  have hq := next_base (r := q) ht hk
  rw [h.last] at hr
  rw [h.word] at hq
  refine ⟨by simp [Reading.next], by simp [Reading.next, hword], fun _ => ?_, ?_, ?_⟩
  · rw [hr, hq]
    exact ⟨joined_ne_nil _ _ _, joined_ne_nil _ _ _⟩
  · rw [hr, hq]
    exact h.next_same hk t.lexeme
  · rw [hr, hq]
    exact h.next_fewer t.lexeme

theorem run (h : Closes ks r q) (ts : List Token) (hf : ∀ t ∈ ts, t.Formed) :
    Closes (ks ++ ts.map Token.kind) (ts.foldl Reading.next r)
      ((ts.filter fun t => t.kind.inWord).foldl Reading.next q) := by
  induction ts generalizing ks r q with
  | nil => simpa using h
  | cons t ts ih =>
    obtain ⟨ht, hts⟩ := List.forall_mem_cons.mp hf
    rw [List.map_cons, List.foldl_cons, List.append_cons]
    cases hk : t.kind.inWord with
    | false =>
      rw [List.filter_cons_of_neg (by simp [hk])]
      exact ih (h.idle hk) hts
    | true =>
      rw [List.filter_cons_of_pos (by simp [hk]), List.foldl_cons]
      exact ih (h.next ht hk) hts

end Closes

theorem start_closes : Closes [] start start := by
  have hnot : ¬Parted [] := not_parted_plain List.not_mem_nil
  exact ⟨rfl, rfl, fun h => absurd rfl h, fun _ => rfl, fun h => absurd h hnot⟩

end Reading

/-- The words of a type break where they break without all that stands between them, and
elsewhere too when the tokens are parted. -/
theorem gathered_base {ts : List Token} (hf : ∀ t ∈ ts, t.Formed) :
    (¬Parted (ts.map Token.kind) →
      (gathered ts).base = (gathered (ts.filter fun t => t.kind.inWord)).base) ∧
    (Parted (ts.map Token.kind) →
      (gathered (ts.filter fun t => t.kind.inWord)).base.length < (gathered ts).base.length) :=
  have hcloses := Reading.start_closes.run ts hf
  ⟨hcloses.same, hcloses.fewer⟩

namespace Reading

theorem joined_text (e : TypeExpr) (join : Bool) (text : String) :
    String.join (joined e join text).base = String.join e.base ++ text := by
  apply String.toList_injective
  rcases joined_cases e join text with ⟨-, hbase⟩ | ⟨-, ws, w, hwords, hbase⟩
  · simp [hbase]
  · simp [hbase, hwords]

theorem foldl_text (ts : List Token) (r : Reading) (hf : ∀ t ∈ ts, t.Formed) :
    String.join (ts.foldl next r).expr.base = String.join r.expr.base ++
      String.join ((ts.filter fun t => t.kind.inWord).map Token.lexeme) := by
  induction ts generalizing r with
  | nil => simp
  | cons t ts ih =>
    obtain ⟨ht, hts⟩ := List.forall_mem_cons.mp hf
    rw [List.foldl_cons, ih _ hts]
    cases hk : t.kind.inWord with
    | false => rw [next_base_idle hk, List.filter_cons_of_neg (by simp [hk])]
    | true =>
      rw [next_base ht hk, joined_text, List.filter_cons_of_pos (by simp [hk]), List.map_cons,
        String.join_cons, String.append_assoc]

end Reading

theorem gathered_text {ts : List Token} (hf : ∀ t ∈ ts, t.Formed) :
    String.join (gathered ts).base =
      String.join (((ts.map Token.shape).filter fun s => s.1.inWord).map Prod.snd) := by
  rw [gathered, Reading.foldl_text ts _ hf, List.filter_map, List.map_map]
  exact String.empty_append

theorem canonical_kinds {ts : List Token} (hf : ∀ t ∈ ts, t.Formed) :
    ∃ first, (∀ k ∈ first, k = .const) ∧
      (Token.ofText (gathered ts).canonical).map Token.kind =
        first ++ (ts.map Token.kind).filter Kind.inWord ++
          (ts.map Token.kind).filter Kind.isPointer := by
  have hshapes := congrArg (List.map Prod.fst) (canonical_shapes ts hf)
  rw [List.map_append, List.map_append] at hshapes
  refine ⟨(if ts.any fun t => t.kind == .const then [(Kind.const, "const")] else []).map Prod.fst,
    ?_, ?_⟩
  · intro k hk
    split at hk
    · simpa using hk
    · cases hk
  · simpa [Token.ofText, Token.shapes, List.filter_map, Function.comp_def, Token.shape]
      using hshapes

theorem canonical_not_parted {ts : List Token} (hf : ∀ t ∈ ts, t.Formed) :
    ¬Parted ((Token.ofText (gathered ts).canonical).map Token.kind) := by
  obtain ⟨first, hfirst, hkinds⟩ := canonical_kinds hf
  rw [hkinds]
  refine not_parted_sorted ?_ ?_ ?_
  · intro k hk
    rw [hfirst k hk]
    rfl
  · intro k hk
    exact (List.mem_filter.mp hk).2
  · intro k hk
    have hpointer := (List.mem_filter.mp hk).2
    cases k <;> simp_all [Kind.isPointer, Kind.inWord]

theorem canonical_legible {ts : List Token} (hf : ∀ t ∈ ts, t.Formed) :
    Legible (Token.ofText (gathered ts).canonical) := by
  obtain ⟨first, hfirst, hkinds⟩ := canonical_kinds hf
  rw [legible_iff, hkinds]
  have hwords : ∀ k ∈ (ts.map Token.kind).filter Kind.inWord, k.inWord = true :=
    fun k hk => (List.mem_filter.mp hk).2
  have hmarks : ∀ k ∈ (ts.map Token.kind).filter Kind.isPointer, k.isPointer = true :=
    fun k hk => (List.mem_filter.mp hk).2
  have hnot : ∀ k ∈ first ++ (ts.map Token.kind).filter Kind.inWord, k.isPointer = false := by
    intro k hk
    rcases List.mem_append.mp hk with hk | hk
    · rw [hfirst k hk]
      rfl
    · exact (Kind.inWord_alone (hwords k hk)).1
  constructor
  · intro k hk
    rcases List.mem_append.mp hk with hk | hk
    · rcases List.mem_append.mp hk with hk | hk
      · simp [hfirst k hk, Kind.inType]
      · simp [Kind.inType, hwords k hk]
    · simp [Kind.inType, hmarks k hk]
  · -- marks stand last, and no mark is a word
    have hident : ∀ k ∈ (ts.map Token.kind).filter Kind.isPointer, k ≠ .ident := by
      rintro k hk rfl
      exact Bool.false_ne_true (hmarks _ hk)
    rw [List.pairwise_append]
    refine ⟨List.pairwise_of_forall_mem_list fun j hj k _ hpointer => ?_,
      List.pairwise_of_forall_mem_list fun j _ k hk _ => hident k hk,
      fun j _ k hk _ => hident k hk⟩
    rw [hnot j hj] at hpointer
    cases hpointer

theorem gathered_ne_nil_iff {ts : List Token} (hf : ∀ t ∈ ts, t.Formed) :
    (gathered ts).base ≠ [] ↔ lastInWord (ts.map Token.kind) ≠ none := by
  constructor
  · intro hbase hnone
    have hidle : ∀ k ∈ ts.map Token.kind, k.inWord = false := by
      simpa [lastInWord] using hnone
    have hwords : (ts.filter fun t => t.kind.inWord) = [] := by simpa using hidle
    have hnot : ¬Parted (ts.map Token.kind) :=
      not_parted_plain fun hpath => Bool.false_ne_true (hidle _ hpath).symm
    rw [(gathered_base hf).1 hnot, hwords] at hbase
    exact hbase rfl
  · intro hword
    have hcloses := Reading.start_closes.run ts hf
    exact (hcloses.some_word hword).1

theorem length_intercalate (ws : List String) (h : ws ≠ []) :
    (" ".intercalate ws).length + 1 = (String.join ws).length + ws.length := by
  induction ws with
  | nil => exact absurd rfl h
  | cons w ws ih =>
    cases ws with
    | nil => simp
    | cons v ws =>
      have htail := ih (List.cons_ne_nil v ws)
      rw [String.intercalate_cons_cons, String.length_append, String.length_append,
        String.join_cons, String.length_append, List.length_cons]
      have hblank : " ".length = 1 := rfl
      omega

/-- Fewer words that spell the same make a shorter spelling. -/
theorem canonical_ne {r e : TypeExpr} (hconst : r.isConst = e.isConst)
    (htext : String.join r.base = String.join e.base) (hmarks : r.indirection = e.indirection)
    (hbase : r.base ≠ []) (hfewer : r.base.length < e.base.length) :
    r.canonical ≠ e.canonical := by
  intro hcanonical
  have hr := length_intercalate r.base hbase
  have he := length_intercalate e.base (List.ne_nil_of_length_pos (Nat.zero_lt_of_lt hfewer))
  have hlength := congrArg String.length hcanonical
  simp only [canonical, String.length_append, hconst, hmarks] at hlength
  rw [htext] at hr
  omega

/-- A canonical spelling is read with the same `const`, the same marks and the same
characters in its words. Only where the words break may be lost. -/
theorem canonical_gathered {ts us : List Token} (hf : ∀ t ∈ ts, t.Formed)
    (hbase : (gathered ts).base ≠ []) (hus : Token.ofText (gathered ts).canonical = us) :
    ofTokens us = .ok (gathered us) ∧ ¬Parted (us.map Token.kind) ∧
      (gathered us).isConst = (gathered ts).isConst ∧
      String.join (gathered us).base = String.join (gathered ts).base ∧
      (gathered us).indirection = (gathered ts).indirection ∧
      (gathered us).base = (gathered (ts.filter fun t => t.kind.inWord)).base := by
  have hfus : ∀ t ∈ us, t.Formed := hus ▸ Token.ofText_formed _
  have hsorted : ¬Parted (us.map Token.kind) := hus ▸ canonical_not_parted hf
  have hshapes : Token.shapes (gathered ts).canonical.toList = us.map Token.shape := by
    rw [← hus]
    rfl
  obtain ⟨hwords, hmarks, hconst⟩ := canonical_parts ts hf hshapes
  refine ⟨?_, hsorted, ?_, ?_, ?_, ?_⟩
  · rw [ofTokens_eq_ok_iff]
    refine ⟨hus ▸ canonical_legible hf, rfl, ?_⟩
    rw [gathered_ne_nil_iff hf] at hbase
    rw [gathered_ne_nil_iff hfus]
    have hkinds := congrArg (List.map Prod.fst) hwords
    rw [List.filter_map, List.filter_map, List.map_map, List.map_map] at hkinds
    rw [lastInWord, List.filter_map] at hbase ⊢
    exact fun hnone => hbase ((congrArg List.getLast? hkinds).trans hnone)
  · rw [gathered_isConst, gathered_isConst, ← hconst, List.any_map]
    rfl
  · rw [gathered_text hfus, gathered_text hf, hwords]
  · apply String.toList_injective
    rw [gathered_indirection hfus, gathered_indirection hf, hmarks]
  · rw [(gathered_base hfus).1 hsorted]
    refine congrArg TypeExpr.base (gathered_congr ?_)
    rw [List.filter_map, List.filter_map] at hwords
    exact hwords.symm

theorem canonical_kept {ts : List Token} (hf : ∀ t ∈ ts, t.Formed)
    (hbase : (gathered ts).base ≠ []) (hnot : ¬Parted (ts.map Token.kind)) :
    gathered (Token.ofText (gathered ts).canonical) = gathered ts := by
  obtain ⟨-, -, hconst, -, hmarks, hclosed⟩ := canonical_gathered hf hbase rfl
  rw [← (gathered_base hf).1 hnot] at hclosed
  rw [TypeExpr.mk.injEq]
  exact ⟨hconst, hclosed, hmarks⟩

/-- The canonical spelling of a type can be read again, with the same `const`, the
same `*` and `&` and the same characters of words, as a type that keeps its own
spelling. It is read as the type itself exactly when nothing parted a word from a
`::` in the text, and otherwise has another spelling. -/
theorem canonical_read_again (text : String) (e : TypeExpr) (h : ofText text = .ok e) :
    ∃ r, ofText e.canonical = .ok r ∧ r.isConst = e.isConst ∧
      String.join r.base = String.join e.base ∧ r.indirection = e.indirection ∧
      ofText r.canonical = .ok r ∧
      (r = e ↔ ¬Parted ((Token.ofText text).map Token.kind)) ∧
      (r.canonical = e.canonical ↔ ¬Parted ((Token.ofText text).map Token.kind)) := by
  obtain ⟨-, rfl, hbase⟩ := (ofTokens_eq_ok_iff _ e).mp h
  have hf := Token.ofText_formed text
  generalize Token.ofText text = ts at hf hbase ⊢
  generalize hus : Token.ofText (gathered ts).canonical = us
  obtain ⟨hread, hsorted, hconst, htext, hmarks, hclosed⟩ := canonical_gathered hf hbase hus
  have hfus : ∀ t ∈ us, t.Formed := hus ▸ Token.ofText_formed _
  obtain ⟨-, -, hread_base⟩ := (ofTokens_eq_ok_iff _ _).mp hread
  have hsame : ¬Parted (ts.map Token.kind) → gathered us = gathered ts :=
    fun hnot => hus ▸ canonical_kept hf hbase hnot
  have hother : (gathered us).canonical = (gathered ts).canonical →
      ¬Parted (ts.map Token.kind) := by
    intro hcanonical hparted
    have hfewer := (gathered_base hf).2 hparted
    rw [← hclosed] at hfewer
    exact canonical_ne hconst htext hmarks hread_base hfewer hcanonical
  refine ⟨gathered us, by rw [ofText, hus, hread], hconst, htext, hmarks, ?_,
    ⟨fun hre => hother (hre ▸ rfl), hsame⟩, ⟨hother, fun hnot => hsame hnot ▸ rfl⟩⟩
  have hagain := (canonical_gathered hfus hread_base rfl).1
  rw [ofText, hagain, canonical_kept hfus hread_base hsorted]

/-- A `const` within a path, and one between whole words. -/
theorem canonical_read_again_const :
    (∃ r, ofText "const std:: vector&" = .ok r ∧ r ≠ ⟨true, ["std::", "vector"], "&"⟩) ∧
      ofText "const unsigned int*" = .ok ⟨true, ["unsigned", "int"], "*"⟩ := by
  constructor
  · have htext : ofText "std:: const vector &" = .ok ⟨true, ["std::", "vector"], "&"⟩ := by
      decide +kernel
    have hparted : Parted ((Token.ofText "std:: const vector &").map Token.kind) :=
      ⟨[.ident], .pathSep, [.const], .ident, [.amp], by decide +kernel, by decide, by decide,
        rfl, rfl, by decide⟩
    obtain ⟨r, hread, -, -, -, -, hsame, -⟩ := canonical_read_again _ _ htext
    exact ⟨r, hread, fun hr => hsame.mp hr hparted⟩
  · have htext : ofText "unsigned const int *" = .ok ⟨true, ["unsigned", "int"], "*"⟩ := by
      decide +kernel
    obtain ⟨r, hread, -, -, -, -, hsame, -⟩ := canonical_read_again _ _ htext
    rw [hsame.mpr (not_parted_plain (by decide +kernel))] at hread
    exact hread

/-- `a::` and `b` stand around a `const`. The spelling holds them side by side, and is read
as the path `a::b`. -/
theorem canonical_misread : ¬∀ text e, ofText text = .ok e → ofText e.canonical = .ok e := by
  intro hall
  have htext : ofText "a:: const b" = .ok ⟨true, ["a::", "b"], ""⟩ := by decide +kernel
  have hread : ofText "const a:: b" = .ok ⟨true, ["a::b"], ""⟩ := by decide +kernel
  have hagain := hall _ _ htext
  rw [show canonical ⟨true, ["a::", "b"], ""⟩ = "const a:: b" by decide +kernel, hread] at hagain
  simp at hagain

end TypeExpr
end Bindery
