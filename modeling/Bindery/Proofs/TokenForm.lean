import Bindery.Token
import Mathlib.Data.List.TakeWhile

/-!
# The form of tokens

The kind of a token says what its lexeme looks like: words are runs of word
characters other than `const`, and every mark has one spelling. A text may be
read in two parts wherever no token runs over the seam, and then the tokens
of the whole are those of the parts.
-/

set_option autoImplicit false

namespace Bindery
open Bindery.Text

theorem longest_cancel {p : Char → Bool} {u v x y : List Char}
    (hu : ∀ a ∈ u, p a = true) (hv : ∀ a ∈ v, p a = true) (hx : ∀ c ∈ x.head?, p c = false)
    (hy : ∀ c ∈ y.head?, p c = false) (h : u ++ x = v ++ y) : u = v ∧ x = y := by
  have hnone : ∀ z : List Char, (∀ c ∈ z.head?, p c = false) → z.takeWhile p = [] := by
    intro z hz
    cases z with
    | nil => rfl
    | cons c z => simp [hz c rfl]
  have hruns := congrArg (List.takeWhile p) h
  rw [List.takeWhile_append_of_pos hu, List.takeWhile_append_of_pos hv, hnone x hx, hnone y hy,
    List.append_nil, List.append_nil] at hruns
  subst hruns
  exact ⟨rfl, List.append_cancel_left h⟩

/-- An element of two joined lists stands in the first or in the second. -/
theorem append_eq_append_cons {α : Type} {u v before after : List α} {c : α}
    (h : u ++ v = before ++ c :: after) :
    (∃ rest, u = before ++ c :: rest ∧ after = rest ++ v) ∨
      ∃ mid, before = u ++ mid ∧ v = mid ++ c :: after := by
  rcases List.append_eq_append_iff.mp h with ⟨mid, hbefore, hv⟩ | ⟨rest, hu, hrest⟩
  · exact .inr ⟨mid, hbefore, hv⟩
  · cases rest with
    | nil => exact .inr ⟨[], by simpa using hu.symm, hrest.symm⟩
    | cons d rest =>
      obtain ⟨rfl, hafter⟩ := List.cons.inj hrest
      exact .inl ⟨rest, hu, hafter⟩

theorem takeWhile_stop {p : Char → Bool} {cs rest : List Char} {c : Char}
    (hcs : ∀ a ∈ cs, p a = true) (hc : p c = false) : (cs ++ c :: rest).takeWhile p = cs := by
  rw [List.takeWhile_append_of_pos hcs, List.takeWhile_cons_of_neg (by simp [hc]), List.append_nil]

theorem dropWhile_stop {p : Char → Bool} {cs rest : List Char} {c : Char}
    (hcs : ∀ a ∈ cs, p a = true) (hc : p c = false) :
    (cs ++ c :: rest).dropWhile p = c :: rest := by
  rw [List.dropWhile_append_of_pos hcs, List.dropWhile_cons_of_neg (by simp [hc])]

namespace Token

def IsWord (cs : List Char) : Prop := cs ≠ [] ∧ ∀ c ∈ cs, isWordChar c = true

def Formed (t : Token) : Prop :=
  match t.kind with
  | .ident => IsWord t.lexeme.toList ∧ t.lexeme ≠ "const"
  | .const => t.lexeme = "const"
  | .star => t.lexeme = "*"
  | .amp => t.lexeme = "&"
  | .pathSep => t.lexeme = "::"
  | .lparen => t.lexeme = "("
  | .rparen => t.lexeme = ")"
  | .comma => t.lexeme = ","
  | .other => ∃ c, t.lexeme = String.ofList [c] ∧ Kind.ofMark c = .other ∧
      isBlank c = false ∧ isWordChar c = false

def shape (t : Token) : Kind × String := (t.kind, t.lexeme)

@[simp] theorem shape_fst (t : Token) : t.shape.1 = t.kind := rfl

@[simp] theorem shape_snd (t : Token) : t.shape.2 = t.lexeme := rfl

theorem word_formed (cs : List Char) (pos : Nat) (h : IsWord cs) : (word cs pos).Formed := by
  by_cases hc : String.ofList cs = "const"
  · simp [word, Formed, hc]
  · simp [word, Formed, hc, h]

theorem mark_formed (c : Char) (pos : Nat) (hb : isBlank c = false) (hw : isWordChar c = false) :
    (mark c pos).Formed := by
  cases hk : Kind.ofMark c with
  | other => simpa [mark, Formed, hk] using ⟨hb, hw⟩
  | _ =>
    unfold Kind.ofMark at hk
    split at hk <;> simp_all [mark, Formed, Kind.ofMark]

theorem takeWhile_isWord (c : Char) (cs : List Char) (hc : isWordChar c = true) :
    IsWord (c :: cs.takeWhile isWordChar) := by
  refine ⟨by simp, fun d hd => ?_⟩
  rcases List.mem_cons.1 hd with rfl | hd
  · exact hc
  · exact List.all_eq_true.1 List.all_takeWhile d hd

theorem scan_formed (pos : Nat) (cs : List Char) : ∀ t ∈ scan pos cs, t.Formed := by
  fun_induction scan pos cs with
  | case1 pos => simp
  | case2 pos c cs hb ih => exact ih
  | case3 pos c cs hb hw ih =>
    intro t ht
    rcases List.mem_cons.1 ht with rfl | ht
    · exact word_formed _ _ (takeWhile_isWord c cs hw)
    · exact ih t ht
  | case4 pos c cs hb hw hp ih =>
    intro t ht
    rcases List.mem_cons.1 ht with rfl | ht
    · simp [Formed]
    · exact ih t ht
  | case5 pos c cs hb hw hp ih =>
    intro t ht
    rcases List.mem_cons.1 ht with rfl | ht
    · exact mark_formed c pos (by simpa using hb) (by simpa using hw)
    · exact ih t ht

theorem ofText_formed (text : String) : ∀ t ∈ ofText text, t.Formed :=
  scan_formed 0 text.toList

def Seam (u v : List Char) : Prop :=
  ¬ (u.getLast?.any isWordChar ∧ v.head?.any isWordChar) ∧
    ¬ (u.getLast? = some ':' ∧ v.head? = some ':')

def bytes : List Char → Nat
  | [] => 0
  | c :: cs => c.utf8Size + bytes cs

theorem Seam.of_head {u : List Char} {c : Char} {v : List Char}
    (hw : isWordChar c = false) (hc : c ≠ ':') : Seam u (c :: v) := by
  simp [Seam, hw, hc]

theorem Seam.of_last {u v : List Char} {c : Char}
    (hw : isWordChar c = false) (hc : c ≠ ':') : Seam (u ++ [c]) v := by
  simp [Seam, hw, hc]

theorem Seam.suffix {u v w : List Char} (h : Seam (u ++ v) w) : Seam v w := by
  rcases List.eq_nil_or_concat v with rfl | ⟨v, c, rfl⟩
  · simp [Seam]
  · simpa [Seam, ← List.append_assoc] using h

theorem isAlpha_iff (c : Char) :
    c.isAlpha = true ↔ 65 ≤ c.toNat ∧ c.toNat ≤ 90 ∨ 97 ≤ c.toNat ∧ c.toNat ≤ 122 := by
  show (decide (65 ≤ c.toNat ∧ c.toNat ≤ 90) ||
    (decide (97 ≤ c.toNat) && decide (c.toNat ≤ 122))) = true ↔ _
  simp only [Bool.or_eq_true, Bool.and_eq_true, decide_eq_true_iff]

theorem isDigit_of_isAlpha {c : Char} (h : c.isAlpha = true) : c.isDigit = false := by
  rw [isAlpha_iff] at h
  rw [← Bool.not_eq_true, Char.isDigit_iff_toNat]
  show ¬(48 ≤ c.toNat ∧ c.toNat ≤ 57)
  omega

theorem isWordChar_iff (c : Char) :
    isWordChar c = true ↔ c.isAlpha = true ∨ c.isDigit = true ∨ c = '_' := by
  show ((c.isAlpha || c.isDigit) || c == '_') = true ↔ _
  rw [Bool.or_eq_true, Bool.or_eq_true, beq_iff_eq, or_assoc]

theorem wordChar_range {c : Char} (h : isWordChar c = true) :
    65 ≤ c.toNat ∧ c.toNat ≤ 90 ∨ 97 ≤ c.toNat ∧ c.toNat ≤ 122 ∨
      48 ≤ c.toNat ∧ c.toNat ≤ 57 ∨ c.toNat = 95 := by
  rw [isWordChar_iff, isAlpha_iff, or_assoc] at h
  rcases h with h | h | h | rfl
  · exact .inl h
  · exact .inr (.inl h)
  · exact .inr (.inr (.inl (Char.isDigit_iff_toNat.mp h)))
  · exact .inr (.inr (.inr rfl))

theorem wordChar_utf8Size {c : Char} (h : isWordChar c = true) : c.utf8Size = 1 := by
  have hc : c.toNat ≤ 127 := by
    have hr := wordChar_range h
    omega
  exact Char.utf8Size_eq_one_iff.2 (UInt32.le_iff_toNat_le.2 hc)

theorem wordChar_solid {c : Char} (h : isWordChar c = true) : isBlank c = false := by
  have hr := wordChar_range h
  simp only [isBlank, Bool.or_eq_false_iff, Bool.and_eq_false_iff, decide_eq_false_iff_not,
    beq_eq_false_iff_ne]
  omega

theorem words_bytes {cs : List Char} (h : ∀ c ∈ cs, isWordChar c = true) :
    bytes cs = cs.length := by
  induction cs with
  | nil => rfl
  | cons c cs ih =>
    have hc := wordChar_utf8Size (h c (by simp))
    have hcs := ih (fun d hd => h d (by simp [hd]))
    rw [bytes, hc, hcs, List.length_cons, Nat.add_comm]

theorem bytes_append (u v : List Char) : bytes (u ++ v) = bytes u + bytes v := by
  induction u with
  | nil => simp [bytes]
  | cons c u ih => rw [List.cons_append, bytes, bytes, ih, Nat.add_assoc]

theorem Seam.takeWhile {c : Char} {cs v : List Char} (hc : isWordChar c = true)
    (h : Seam (c :: cs) v) : (cs ++ v).takeWhile isWordChar = cs.takeWhile isWordChar ∧
      (cs ++ v).dropWhile isWordChar = cs.dropWhile isWordChar ++ v := by
  induction cs generalizing c with
  | nil =>
    have hv : v.head?.any isWordChar = false := by simpa [Seam, hc] using h.1
    cases v with
    | nil => simp
    | cons d v => simp_all
  | cons d cs ih =>
    by_cases hd : isWordChar d = true
    · have hs := ih hd (Seam.suffix (u := [c]) h)
      simp [hd, hs]
    · simp [hd]

/-- Reading in two parts. The second part is read from where the first one ends. -/
theorem scan_append (pos : Nat) (u v : List Char) (h : Seam u v) :
    scan pos (u ++ v) = scan pos u ++ scan (pos + bytes u) v := by
  fun_induction scan pos u with
  | case1 pos => rfl
  | case2 pos c cs hb ih =>
    rw [List.cons_append, scan, if_pos hb, ih (Seam.suffix (u := [c]) h)]
    simp [bytes, Nat.add_assoc]
  | case3 pos c cs hb hw ih =>
    obtain ⟨ht, hd⟩ := Seam.takeWhile hw h
    have hs : Seam (cs.dropWhile isWordChar) v := by
      apply Seam.suffix (u := c :: cs.takeWhile isWordChar)
      simpa using h
    have hn : bytes (c :: cs) = 1 + (cs.takeWhile isWordChar).length +
        bytes (cs.dropWhile isWordChar) := by
      rw [← words_bytes (List.all_eq_true.1 List.all_takeWhile), Nat.add_assoc, ← bytes_append,
        List.takeWhile_append_dropWhile]
      simp [bytes, wordChar_utf8Size hw]
    rw [List.cons_append, scan, if_neg hb, if_pos hw, ht, hd, ih hs, hn]
    simp [Nat.add_assoc]
  | case4 pos c cs hb hw hp ih =>
    obtain ⟨rfl, hp⟩ := hp
    obtain ⟨cs, rfl⟩ := List.head?_eq_some_iff.1 hp
    rw [List.cons_append, scan, if_neg hb, if_neg hw, if_pos ⟨rfl, rfl⟩]
    have hn : bytes (':' :: ':' :: cs) = 2 + bytes cs := by
      simp only [bytes, show ':'.utf8Size = 1 by decide]
      omega
    simp only [List.cons_append, List.tail_cons] at ih ⊢
    rw [ih (Seam.suffix (u := [':', ':']) h), hn, Nat.add_assoc]
  | case5 pos c cs hb hw hp ih =>
    have hn : ¬(c = ':' ∧ (cs ++ v).head? = some ':') := by
      rintro ⟨rfl, hv⟩
      cases cs with
      | nil => exact h.2 ⟨rfl, by simpa using hv⟩
      | cons d cs => exact hp ⟨rfl, by simpa using hv⟩
    rw [List.cons_append, scan, if_neg hb, if_neg hw, if_neg hn,
      ih (Seam.suffix (u := [c]) h)]
    simp [bytes, Nat.add_assoc]

def shapes (cs : List Char) : List (Kind × String) := (scan 0 cs).map shape

theorem scan_shapes (pos : Nat) (cs : List Char) : (scan pos cs).map shape = shapes cs := by
  have key : ∀ n m : Nat, (scan n cs).map shape = (scan m cs).map shape := by
    intro n m
    fun_induction scan n cs generalizing m with
    | case1 n => simp [scan]
    | case2 n c cs hb ih =>
      rw [ih (m + c.utf8Size), scan, if_pos hb]
    | case3 n c cs hb hw ih =>
      rw [scan, if_neg hb, if_pos hw, List.map_cons, List.map_cons, ih]
      rfl
    | case4 n c cs hb hw hp ih =>
      rw [scan, if_neg hb, if_neg hw, if_pos hp, List.map_cons, List.map_cons, ih]
      rfl
    | case5 n c cs hb hw hp ih =>
      rw [scan, if_neg hb, if_neg hw, if_neg hp, List.map_cons, List.map_cons, ih]
      rfl
  exact key pos 0

theorem shapes_append (u v : List Char) (h : Seam u v) :
    shapes (u ++ v) = shapes u ++ shapes v := by
  rw [shapes, scan_append 0 u v h, List.map_append, scan_shapes, scan_shapes]

theorem shapes_blank {c : Char} (h : isBlank c = true) (cs : List Char) :
    shapes (c :: cs) = shapes cs := by
  rw [shapes, scan, if_pos h, scan_shapes]

theorem shapes_word {cs : List Char} (h : IsWord cs) : shapes cs = [(word cs 0).shape] := by
  obtain ⟨c, cs, rfl⟩ := List.exists_cons_of_ne_nil h.1
  have hc : isWordChar c = true := h.2 c (by simp)
  have hcs : ∀ d ∈ cs, isWordChar d = true := fun d hd => h.2 d (by simp [hd])
  rw [shapes, scan, if_neg (by simp [wordChar_solid hc]), if_pos hc,
    List.takeWhile_eq_self_iff.2 hcs, List.dropWhile_eq_nil_iff.2 hcs, scan]
  rfl

theorem Formed.shapes_lexeme {t : Token} (h : t.Formed) : shapes t.lexeme.toList = [t.shape] := by
  obtain ⟨k, lexeme, pos⟩ := t
  cases k with
  | ident =>
    obtain ⟨hw, hc⟩ := h
    rw [shapes_word hw]
    simp_all [word, shape]
  | other =>
    obtain ⟨c, rfl, hk, hb, hw⟩ := h
    simp [shapes, scan, hb, hw, mark, hk, shape]
  | _ =>
    obtain rfl := h
    simp [shapes, scan, shape, word, mark, isBlank, isWordChar, Kind.ofMark]

end Token
end Bindery
