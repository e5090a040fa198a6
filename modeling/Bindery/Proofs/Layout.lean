import Bindery.Proofs.Grammar
import Bindery.Proofs.TokenPlaces

/-!
# Layout of a declaration

Blanks put in where no token is cut in two move the tokens behind them and do nothing else, and a
declaration is read from kinds and lexemes alone, wherever they stand. What follows the closing
parenthesis may run into no token before it, so it is never looked at, whether the declaration can
be read or not.
-/

set_option autoImplicit false

namespace Bindery
open Bindery.Text

namespace Token

def moved (k : Nat) (t : Token) : Token := { t with pos := t.pos + k }

def movedFrom (n k : Nat) (t : Token) : Token := if t.pos < n then t else t.moved k

def Spans (t : Token) (n : Nat) : Prop := t.pos < n ∧ n < t.stop

theorem movedFrom_shape (n k : Nat) (t : Token) : (t.movedFrom n k).shape = t.shape := by
  rw [movedFrom]
  split <;> rfl

theorem scan_moved (pos k : Nat) (cs : List Char) :
    scan (pos + k) cs = (scan pos cs).map (moved k) := by
  fun_induction scan pos cs with
  | case1 pos => simp [scan]
  | case2 pos c cs hb ih => rw [scan, if_pos hb, Nat.add_right_comm, ih]
  | case3 pos c cs hb hw ih =>
    rw [scan, if_neg hb, if_pos hw, List.map_cons, ← ih]
    congr 2
    omega
  | case4 pos c cs hb hw hp ih =>
    rw [scan, if_neg hb, if_neg hw, if_pos hp, List.map_cons, ← ih, Nat.add_right_comm]
    rfl
  | case5 pos c cs hb hw hp ih =>
    rw [scan, if_neg hb, if_neg hw, if_neg hp, List.map_cons, ← ih, Nat.add_right_comm]
    rfl

theorem le_pos_of_mem_scan {pos : Nat} {cs : List Char} {t : Token} (h : t ∈ scan pos cs) :
    pos ≤ t.pos := by
  rw [← Nat.zero_add pos, scan_moved] at h
  obtain ⟨u, -, rfl⟩ := List.mem_map.mp h
  exact Nat.le_add_left ..

theorem Placed.stop_le {line : List Char} {t : Token} (h : t.Placed line) :
    t.stop ≤ bytes line := by
  obtain ⟨before, after, hline, hpos, -, -⟩ := h
  rw [stop_eq, hline, hpos, bytes_append, bytes_append]
  omega

theorem scan_blanks (pos : Nat) {w : List Char} (hw : ∀ c ∈ w, isBlank c = true)
    (cs : List Char) : scan pos (w ++ cs) = scan (pos + bytes w) cs := by
  induction w generalizing pos with
  | nil => rfl
  | cons c w ih =>
    obtain ⟨hc, hw⟩ := List.forall_mem_cons.mp hw
    rw [List.cons_append, scan, if_pos hc, ih _ hw, bytes, Nat.add_assoc]

theorem takeWhile_append_stopped {p : Char → Bool} {cs v : List Char}
    (h : (∀ d ∈ cs, p d = true) → v.takeWhile p = []) :
    (cs ++ v).takeWhile p = cs.takeWhile p ∧
      (cs ++ v).dropWhile p = cs.dropWhile p ++ v := by
  rw [List.takeWhile_append, List.dropWhile_append]
  by_cases hall : ∀ d ∈ cs, p d = true
  · have hdrop := List.takeWhile_append_dropWhile (p := p) (l := v)
    rw [h hall, List.nil_append] at hdrop
    simp [List.takeWhile_eq_self_iff.mpr hall, List.dropWhile_eq_nil_iff.mpr hall, h hall, hdrop]
  · have hrest : cs.dropWhile p ≠ [] := fun hnil => hall (List.dropWhile_eq_nil_iff.mp hnil)
    have hlen : (cs.takeWhile p).length ≠ cs.length := fun hlen =>
      hall (List.takeWhile_eq_self_iff.mp ((List.takeWhile_prefix _).eq_of_length hlen))
    simp [hrest, hlen]

/-- A word that goes on in a second text spans the seam. -/
theorem word_stopped {c : Char} {cs v : List Char} {pos : Nat} (hw : isWordChar c = true)
    (h : ¬(word (c :: (cs ++ v).takeWhile isWordChar) pos).Spans (pos + bytes (c :: cs)))
    (hall : ∀ d ∈ cs, isWordChar d = true) : v.takeWhile isWordChar = [] := by
  have hsize := words_bytes (takeWhile_isWord c (cs ++ v) hw).2
  have hcs := words_bytes (List.forall_mem_cons.mpr ⟨hw, hall⟩)
  by_contra hne
  have hlen := List.length_pos_iff.mpr hne
  rw [List.takeWhile_append_of_pos hall] at hsize h
  refine h ⟨?_, ?_⟩
  · simp only [word, hcs, List.length_cons]
    omega
  · rw [stop_eq, hcs]
    simp only [word, String.toList_ofList, hsize, List.length_cons, List.length_append]
    omega

theorem bytes_word {c : Char} (hw : isWordChar c = true) (cs : List Char) : bytes (c :: cs) =
    1 + (cs.takeWhile isWordChar).length + bytes (cs.dropWhile isWordChar) := by
  rw [← words_bytes (List.all_eq_true.1 List.all_takeWhile), Nat.add_assoc, ← bytes_append,
    List.takeWhile_append_dropWhile, bytes, wordChar_utf8Size hw]

theorem bytes_pair (cs : List Char) : bytes (':' :: ':' :: cs) = 2 + bytes cs := by
  simp only [bytes, show ':'.utf8Size = 1 by decide]
  omega

theorem pair_stopped {c : Char} {cs v : List Char} {pos : Nat} (hb : ¬isBlank c = true)
    (hw : ¬isWordChar c = true) (hp : ¬(c = ':' ∧ cs.head? = some ':'))
    (h : ∀ t ∈ scan pos (c :: (cs ++ v)), ¬t.Spans (pos + bytes (c :: cs))) :
    ¬(c = ':' ∧ (cs ++ v).head? = some ':') := by
  rintro ⟨rfl, hv⟩
  cases cs with
  | cons d cs => exact hp ⟨rfl, by simpa using hv⟩
  | nil =>
    rw [scan, if_neg hb, if_neg hw, if_pos ⟨rfl, hv⟩] at h
    refine h _ List.mem_cons_self ⟨?_, ?_⟩
    · simp [bytes, show ':'.utf8Size = 1 by decide]
    · simp [stop_eq, bytes, show ':'.utf8Size = 1 by decide]

/-- Reading in two parts, wherever the whole has no token that the seam would cut. -/
theorem scan_append_of_not_spans (pos : Nat) (u v : List Char)
    (h : ∀ t ∈ scan pos (u ++ v), ¬t.Spans (pos + bytes u)) :
    scan pos (u ++ v) = scan pos u ++ scan (pos + bytes u) v := by
  fun_induction scan pos u with
  | case1 pos => rfl
  | case2 pos c cs hb ih =>
    rw [List.cons_append, scan, if_pos hb] at h ⊢
    rw [bytes, ← Nat.add_assoc] at h ⊢
    exact ih h
  | case3 pos c cs hb hw ih =>
    rw [List.cons_append, scan, if_neg hb, if_pos hw] at h ⊢
    have hcut := takeWhile_append_stopped (word_stopped hw (h _ List.mem_cons_self))
    rw [hcut.1, hcut.2, bytes_word hw, ← Nat.add_assoc, ← Nat.add_assoc] at h ⊢
    rw [ih (List.forall_mem_cons.mp h).2, List.cons_append]
  | case4 pos c cs hb hw hp ih =>
    obtain ⟨rfl, hp⟩ := hp
    obtain ⟨cs, rfl⟩ := List.head?_eq_some_iff.mp hp
    rw [List.cons_append, scan, if_neg hb, if_neg hw, if_pos ⟨rfl, rfl⟩, bytes_pair,
      ← Nat.add_assoc, List.cons_append, List.tail_cons] at h ⊢
    rw [List.tail_cons] at ih
    rw [ih (List.forall_mem_cons.mp h).2, List.tail_cons, List.cons_append]
  | case5 pos c cs hb hw hp ih =>
    have hnext := pair_stopped hb hw hp h
    rw [List.cons_append, scan, if_neg hb, if_neg hw, if_neg hnext, bytes, ← Nat.add_assoc] at h ⊢
    rw [ih (List.forall_mem_cons.mp h).2, List.cons_append]

/-- Blanks that cut no token move the tokens behind them. -/
theorem scan_append_blanks {u w v : List Char} (hw : ∀ c ∈ w, isBlank c = true)
    (h : ∀ t ∈ scan 0 (u ++ v), ¬t.Spans (bytes u)) :
    scan 0 (u ++ w ++ v) = (scan 0 (u ++ v)).map (movedFrom (bytes u) (bytes w)) := by
  have hwhole := scan_append_of_not_spans 0 u v (by simpa using h)
  rw [Nat.zero_add] at hwhole
  have hsplit : scan 0 (u ++ w ++ v) = scan 0 u ++ scan (bytes u + bytes w) v := by
    cases w with
    | nil => rw [List.append_nil, hwhole, bytes, Nat.add_zero]
    | cons c w =>
      have hc : isBlank c = true := hw c (by simp)
      have hword : isWordChar c = false := by
        by_contra hword
        simp [wordChar_solid (by simpa using hword)] at hc
      have hcolon : c ≠ ':' := by
        rintro rfl
        simp [isBlank] at hc
      rw [List.append_assoc, List.cons_append, scan_append 0 u _ (.of_head hword hcolon),
        ← List.cons_append, scan_blanks _ hw, Nat.zero_add]
  have hbefore : ∀ t ∈ scan 0 u, t.movedFrom (bytes u) (bytes w) = t := by
    intro t ht
    have hplaced := (tokenization_ofText (String.ofList u)).placed t (by simpa [ofText] using ht)
    rw [String.toList_ofList] at hplaced
    have hlt := hplaced.pos_lt_stop
    have hle := hplaced.stop_le
    rw [movedFrom, if_pos (by omega)]
  have hbehind : ∀ t ∈ scan (bytes u) v, t.movedFrom (bytes u) (bytes w) = t.moved (bytes w) := by
    intro t ht
    have hle := le_pos_of_mem_scan ht
    rw [movedFrom, if_neg (by omega)]
  rw [hsplit, hwhole, List.map_append, scan_moved, List.map_congr_left hbehind,
    List.map_congr_left hbefore, List.map_id']

end Token

section
variable {f : Token → Token} (hf : ∀ t, (f t).shape = t.shape)
include hf

theorem TypeExpr.Reading.run_map (r : Reading) (ts : List Token) : r.run (ts.map f) = r.run ts := by
  induction ts generalizing r with
  | nil => rfl
  | cons t ts ih =>
    have hkind : (f t).kind = t.kind := congrArg Prod.fst (hf t)
    have hlexeme : (f t).lexeme = t.lexeme := congrArg Prod.snd (hf t)
    have hstep : r.step (f t) = r.step t := by rw [step, step, hkind, hlexeme]
    rw [List.map_cons, run, run, hstep]
    cases r.step t with
    | error flaw => rfl
    | ok next => exact ih next

namespace Declaration

theorem readType_map (ts : List Token) : readType (ts.map f) = readType ts := by
  rw [readType, readType, TypeExpr.ofTokens, TypeExpr.ofTokens, TypeExpr.Reading.run_map hf]

theorem cutAt_map (k : Kind) (ts : List Token) :
    cutAt k (ts.map f) = (cutAt k ts).map fun p => (p.1.map f, p.2.map f) := by
  induction ts with
  | nil => rfl
  | cons t ts ih =>
    have hkind : (f t).kind = t.kind := congrArg Prod.fst (hf t)
    rw [List.map_cons, cutAt, cutAt, hkind, ih]
    split
    · rfl
    · cases cutAt k ts <;> rfl

theorem parts_map (ts : List Token) : parts (ts.map f) = (parts ts).map (List.map f) := by
  induction ts with
  | nil => rfl
  | cons t ts ih =>
    have hkind : (f t).kind = t.kind := congrArg Prod.fst (hf t)
    rw [List.map_cons, parts, parts, hkind, ih]
    split
    · rfl
    · cases parts ts <;> rfl

omit hf in
theorem splitLast_map (ts : List Token) :
    splitLast (ts.map f) = (splitLast ts).map fun p => (p.1.map f, f p.2) := by
  fun_induction splitLast ts with
  | case1 => rfl
  | case2 t => rfl
  | case3 t ts hne ih =>
    obtain ⟨u, us, rfl⟩ := List.exists_cons_of_ne_nil hne
    rw [List.map_cons] at ih
    rw [List.map_cons, List.map_cons, splitLast, ih]
    · cases splitLast (u :: us) <;> rfl
    · simp

theorem isIdentifier_map (t : Token) : (f t).isIdentifier = t.isIdentifier := by
  have hkind : (f t).kind = t.kind := congrArg Prod.fst (hf t)
  have hlexeme : (f t).lexeme = t.lexeme := congrArg Prod.snd (hf t)
  rw [Token.isIdentifier, Token.isIdentifier, hkind, hlexeme]

theorem isVoidList_map (ts : List Token) : isVoidList (ts.map f) = isVoidList ts := by
  match ts with
  | [] => rfl
  | [t] =>
    have hkind : (f t).kind = t.kind := congrArg Prod.fst (hf t)
    have hlexeme : (f t).lexeme = t.lexeme := congrArg Prod.snd (hf t)
    simp [isVoidList, Token.isNamed, hkind, hlexeme]
  | _ :: _ :: _ => rfl

theorem readParam_map (position : Nat) (ts : List Token) :
    readParam position (ts.map f) = readParam position ts := by
  rw [readParam, readParam, splitLast_map]
  cases splitLast ts with
  | none => rfl
  | some cut =>
    have hlexeme : (f cut.2).lexeme = cut.2.lexeme := congrArg Prod.snd (hf cut.2)
    simp only [Option.map_some, isIdentifier_map hf, readType_map hf, hlexeme, List.map_eq_nil_iff]

theorem readParts_map (position : Nat) (ps : List (List Token)) :
    readParts position (ps.map (List.map f)) = readParts position ps := by
  induction ps generalizing position with
  | nil => rfl
  | cons p ps ih => rw [List.map_cons, readParts, readParts, readParam_map hf, ih]

theorem readParams_map (ts : List Token) : readParams (ts.map f) = readParams ts := by
  rw [readParams, readParams, isVoidList_map hf, parts_map hf, readParts_map hf]

theorem readHead_map (ts : List Token) : readHead (ts.map f) = readHead ts := by
  rw [readHead, readHead, splitLast_map]
  cases splitLast ts with
  | none => rfl
  | some cut =>
    have hlexeme : (f cut.2).lexeme = cut.2.lexeme := congrArg Prod.snd (hf cut.2)
    simp only [Option.map_some, isIdentifier_map hf, readType_map hf, hlexeme, List.map_eq_nil_iff]

/-- A declaration is read without a look at where its tokens stand. -/
theorem ofTokens_map (ts : List Token) : ofTokens (ts.map f) = ofTokens ts := by
  rw [ofTokens, ofTokens, cutAt_map hf]
  cases cutAt .lparen ts with
  | none => rfl
  | some outer =>
    simp only [Option.map_some, readHead_map hf, cutAt_map hf]
    cases cutAt .rparen outer.2 with
    | none => rfl
    | some inner => simp only [Option.map_some, readParams_map hf]

end Declaration
end

namespace Declaration

/-- Blanks may stand between any two tokens, as many as one likes: they move the tokens behind
them, and a declaration is read or refused as if they were not there. -/
theorem blanks_between_tokens (u w v : String) (hw : ∀ c ∈ w.toList, isBlank c = true)
    (hcut : ∀ t ∈ Token.ofText (u ++ v), ¬(t.pos < u.utf8ByteSize ∧ u.utf8ByteSize < t.stop)) :
    Token.ofText (u ++ w ++ v) = (Token.ofText (u ++ v)).map (fun t =>
      if t.pos < u.utf8ByteSize then t else { t with pos := t.pos + w.utf8ByteSize }) ∧
    ofText (u ++ w ++ v) = ofText (u ++ v) := by
  have hcut' : ∀ t ∈ Token.scan 0 (u.toList ++ v.toList), ¬t.Spans (Token.bytes u.toList) := by
    rw [Token.bytes_toList]
    exact fun t ht => hcut t (by simpa [Token.ofText] using ht)
  have htokens : Token.ofText (u ++ w ++ v) =
      (Token.ofText (u ++ v)).map (Token.movedFrom u.utf8ByteSize w.utf8ByteSize) := by
    have hscan := Token.scan_append_blanks hw hcut'
    rw [Token.bytes_toList, Token.bytes_toList] at hscan
    simpa [Token.ofText] using hscan
  refine ⟨htokens, ?_⟩
  rw [ofText, htokens, ofTokens_map (Token.movedFrom_shape _ _), ofText]

theorem blanks_between_tokens_of_path :
    let u := "std::"
    let w := "\t\u3000"
    let v := "string f(const char*s)"
    (∀ c ∈ w.toList, isBlank c = true) ∧
    (∀ t ∈ Token.ofText (u ++ v), ¬(t.pos < u.utf8ByteSize ∧ u.utf8ByteSize < t.stop)) ∧
    (Token.ofText (u ++ w ++ v) = (Token.ofText (u ++ v)).map (fun t =>
      if t.pos < u.utf8ByteSize then t else { t with pos := t.pos + w.utf8ByteSize }) ∧
    ofText (u ++ w ++ v) = ofText (u ++ v)) ∧
    ofText (u ++ v) = .ok ⟨.text, "f", [⟨.text, "s"⟩]⟩ := by
  intro u w v
  have hblank : w.toList.all isBlank = true := by decide +kernel
  have hw : ∀ c ∈ w.toList, isBlank c = true := List.all_eq_true.mp hblank
  have hcut : ∀ t ∈ Token.ofText (u ++ v),
      ¬(t.pos < u.utf8ByteSize ∧ u.utf8ByteSize < t.stop) := by
    decide +kernel
  exact ⟨hw, hcut, blanks_between_tokens u w v hw hcut, by decide +kernel⟩

theorem cutAt_append {k : Kind} {ts before after : List Token}
    (h : cutAt k ts = some (before, after)) (rest : List Token) :
    cutAt k (ts ++ rest) = some (before, after ++ rest) := by
  obtain ⟨t, rfl, hk, hbefore⟩ := (cutAt_eq_some_iff _ _ _ _).mp h
  exact (cutAt_eq_some_iff _ _ _ _).mpr ⟨t, by simp, hk, hbefore⟩

theorem cutAt_of_mem {ts : List Token} {t : Token} (ht : t ∈ ts) :
    ∃ before after, cutAt t.kind ts = some (before, after) := by
  induction ts with
  | nil => exact absurd ht List.not_mem_nil
  | cons u us ih =>
    rw [cutAt]
    by_cases hu : u.kind = t.kind
    · exact ⟨[], us, if_pos hu⟩
    · have hus : t ∈ us := by
        rcases List.mem_cons.mp ht with rfl | hus
        · exact absurd rfl hu
        · exact hus
      obtain ⟨before, after, hcut⟩ := ih hus
      exact ⟨u :: before, after, by rw [if_neg hu, hcut]; rfl⟩

def Parenthesized (ts : List Token) : Prop :=
  ∃ before opening inner closing rest, ts = before ++ opening :: (inner ++ closing :: rest) ∧
    opening.kind = .lparen ∧ closing.kind = .rparen

theorem ofTokens_append {ts : List Token} (h : Parenthesized ts) (rest : List Token) :
    ofTokens (ts ++ rest) = ofTokens ts := by
  obtain ⟨before, opening, inner, closing, last, rfl, hopening, hclosing⟩ := h
  have hopened : opening ∈ before ++ [opening] := by simp
  obtain ⟨head, tail, hopen⟩ := cutAt_of_mem hopened
  have hopen' := cutAt_append hopen (inner ++ closing :: last)
  rw [hopening, List.append_assoc, List.singleton_append] at hopen'
  have hclosed : closing ∈ tail ++ (inner ++ closing :: last) := by simp
  obtain ⟨params, after, hclose⟩ := cutAt_of_mem hclosed
  rw [hclosing] at hclose
  rw [ofTokens, ofTokens, cutAt_append hopen' rest, hopen']
  simp only [cutAt_append hclose rest, hclose]

theorem parenthesized_text {p : String} (h : Parenthesized (Token.ofText p)) :
    ∃ x y, p.toList = x ++ [')'] ++ y ∧ Parenthesized (Token.scan 0 (x ++ [')'])) := by
  obtain ⟨before, opening, inner, closing, rest, htokens, hopening, hclosing⟩ := h
  have hread := Token.tokenization_ofText p
  obtain ⟨x, y, hline, hpos, hf, -⟩ := hread.placed closing (by simp [htokens])
  have hlex : closing.lexeme = ")" := by simpa [Token.Formed, hclosing] using hf
  have hchars : p.toList = x ++ [')'] ++ y := by simpa [hlex] using hline
  have hmark : Token.scan 0 (x ++ [')']) = Token.scan 0 x ++ [Token.mark ')' (Token.bytes x)] := by
    rw [Token.scan_append 0 x [')'] (.of_head (by decide) (by decide)), Nat.zero_add]
    simp [Token.scan, isBlank, isWordChar]
  have hparts : Token.ofText p = Token.scan 0 (x ++ [')']) ++
      Token.scan (0 + Token.bytes (x ++ [')'])) y := by
    rw [Token.ofText, hchars, Token.scan_append 0 _ y (.of_last (by decide) (by decide))]
  have hmem : opening ∈ Token.scan 0 x := by
    -- the opening parenthesis ends before the closing one begins
    have happart := hread.apart
    rw [htokens] at happart
    have hle : opening.stop ≤ closing.pos :=
      (List.pairwise_cons.mp (List.pairwise_append.mp happart).2.1).1 closing (by simp)
    have hopen : opening ∈ Token.ofText p := by simp [htokens]
    have hlt := (hread.placed opening hopen).pos_lt_stop
    rw [hparts, hmark] at hopen
    rcases List.mem_append.mp hopen with hopen | hopen
    · rcases List.mem_append.mp hopen with hopen | hopen
      · exact hopen
      · rw [List.mem_singleton.mp hopen] at hopening
        cases hopening
    · have hbehind := Token.le_pos_of_mem_scan hopen
      rw [Token.bytes_append] at hbehind
      omega
  obtain ⟨before', inner', hsplit⟩ := List.append_of_mem hmem
  exact ⟨x, y, hchars, before', opening, inner', Token.mark ')' (Token.bytes x), [],
    by rw [hmark, hsplit]; simp, hopening, rfl⟩

/-- What follows a closed parameter list is not looked at, in a declaration and in a text that is
refused alike. -/
theorem ofText_past_closing (p t : String) (h : ∃ before opening inner closing rest,
      Token.ofText p = before ++ opening :: (inner ++ closing :: rest) ∧
        opening.kind = .lparen ∧ closing.kind = .rparen) :
    ofText (p ++ t) = ofText p := by
  obtain ⟨x, y, hchars, hclosed⟩ := parenthesized_text h
  have hread : ∀ rest : List Char, ofTokens (Token.scan 0 (x ++ [')'] ++ rest)) =
      ofTokens (Token.scan 0 (x ++ [')'])) := by
    intro rest
    rw [Token.scan_append 0 _ rest (.of_last (by decide) (by decide)), ofTokens_append hclosed]
  rw [ofText, ofText, Token.ofText, Token.ofText, String.toList_append, hchars, List.append_assoc,
    hread, hread]

theorem ofText_past_closing_of_refused :
    let p := " float half(int x):"
    let t := ": y(2) { return x; } // (int"
    (∃ before opening inner closing rest,
      Token.ofText p = before ++ opening :: (inner ++ closing :: rest) ∧
        opening.kind = .lparen ∧ closing.kind = .rparen) ∧
    ofText (p ++ t) = ofText p ∧ ofText p = .error (.unknownReturnType "float") := by
  intro p t
  have h : ∃ before opening inner closing rest,
      Token.ofText p = before ++ opening :: (inner ++ closing :: rest) ∧
        opening.kind = .lparen ∧ closing.kind = .rparen :=
    ⟨[⟨.ident, "float", 1⟩, ⟨.ident, "half", 7⟩], ⟨.lparen, "(", 11⟩,
      [⟨.ident, "int", 12⟩, ⟨.ident, "x", 16⟩], ⟨.rparen, ")", 17⟩, [⟨.other, ":", 18⟩],
      by decide +kernel, rfl, rfl⟩
  exact ⟨h, ofText_past_closing p t h, by decide +kernel⟩

end Declaration
end Bindery
