import Bindery.Proofs.TokenForm
import Mathlib.Data.List.DropRight
import Mathlib.Data.String.Basic

/-!
# Places of tokens

A text determines its tokens. What makes a token is seen from its own characters and from those
that touch it: a word that no further word character touches, two colons with an even number of
colons before them, or any other character alone. A text has one list of such tokens that follow
each other and leave nothing but blanks between them, and it is the list that is read.
-/

set_option autoImplicit false

namespace Bindery
open Bindery.Text

namespace Token

def stop (t : Token) : Nat := t.pos + t.lexeme.utf8ByteSize

def trailingColons (cs : List Char) : Nat := (cs.rtakeWhile (· == ':')).length

/-- The characters of one token between what stands before and after them. Colons are paired off
from the first one of a run, so only the last one can be left over. -/
inductive Piece (before after : List Char) : List Char → Prop where
  | word {cs : List Char} : IsWord cs → before.getLast?.any isWordChar = false →
      after.head?.any isWordChar = false → Piece before after cs
  | pair : 2 ∣ trailingColons before → Piece before after [':', ':']
  | mark {c : Char} : isBlank c = false → isWordChar c = false →
      (c = ':' → 2 ∣ trailingColons before ∧ after.head? ≠ some ':') → Piece before after [c]

def Placed (line : List Char) (t : Token) : Prop :=
  ∃ before after, line = before ++ t.lexeme.toList ++ after ∧ t.pos = bytes before ∧ t.Formed ∧
    Piece before after t.lexeme.toList

structure Tokenization (line : List Char) (ts : List Token) : Prop where
  apart : ts.Pairwise fun t u => t.stop ≤ u.pos
  placed : ∀ t ∈ ts, t.Placed line
  covered : ∀ before c after, line = before ++ c :: after →
    (isBlank c = false ↔ ∃ t ∈ ts, t.pos ≤ bytes before ∧ bytes before < t.stop)

theorem bytes_eq_utf8Len (cs : List Char) : bytes cs = String.utf8Len cs := by
  induction cs with
  | nil => rfl
  | cons c cs ih => rw [bytes, ih, String.utf8Len_cons, Nat.add_comm]

theorem bytes_toList (text : String) : bytes text.toList = text.utf8ByteSize := by
  rw [bytes_eq_utf8Len, String.utf8Len_toList]

theorem bytes_pos {cs : List Char} (h : cs ≠ []) : 0 < bytes cs := by
  obtain ⟨c, cs, rfl⟩ := List.exists_cons_of_ne_nil h
  have hc := c.utf8Size_pos
  rw [bytes]
  omega

theorem stop_eq (t : Token) : t.stop = t.pos + bytes t.lexeme.toList := by
  rw [stop, bytes_toList]

theorem trailingColons_solid {c : Char} (h : c ≠ ':') (cs : List Char) :
    trailingColons (cs ++ [c]) = 0 := by
  rw [trailingColons, List.rtakeWhile_concat_neg _ _ _ (by simpa using h), List.length_nil]

theorem trailingColons_colon (cs : List Char) :
    trailingColons (cs ++ [':']) = trailingColons cs + 1 := by
  rw [trailingColons, List.rtakeWhile_concat_pos _ _ _ (by simp), List.length_append,
    List.length_singleton, trailingColons]

theorem Piece.ne_nil {before after cs : List Char} (h : Piece before after cs) : cs ≠ [] := by
  cases h with
  | word hw => exact hw.1
  | pair => simp
  | mark => simp

theorem Piece.solid {before after cs : List Char} (h : Piece before after cs) :
    ∀ c ∈ cs, isBlank c = false := by
  cases h with
  | word hw => exact fun c hc => wordChar_solid (hw.2 c hc)
  | pair => simp [isBlank]
  | mark hb => simpa using hb

inductive Reads : List Char → List Char → List Token → Prop where
  | done {before : List Char} : Reads before [] []
  | blank {before cs : List Char} {c : Char} {ts : List Token} : isBlank c = true →
      Reads (before ++ [c]) cs ts → Reads before (c :: cs) ts
  | token {before cs rest : List Char} {t : Token} {ts : List Token} :
      cs = t.lexeme.toList ++ rest → t.pos = bytes before → t.Formed →
      Piece before rest t.lexeme.toList → Reads (before ++ t.lexeme.toList) rest ts →
      Reads before cs (t :: ts)

def Resumes (before cs : List Char) : Prop :=
  (before.getLast?.any isWordChar = true → cs.head?.any isWordChar = false) ∧
    (cs.head? = some ':' → 2 ∣ trailingColons before)

theorem resumes_solid {c : Char} (hc : c ≠ ':') (before cs : List Char)
    (hw : isWordChar c = true → cs.head?.any isWordChar = false) : Resumes (before ++ [c]) cs := by
  refine ⟨by simpa using hw, fun _ => ?_⟩
  rw [trailingColons_solid hc]
  exact Nat.dvd_zero 2

theorem head?_dropWhile_any (p : Char → Bool) (cs : List Char) :
    (cs.dropWhile p).head?.any p = false := by
  have h := List.head?_dropWhile_not p cs
  cases hd : (cs.dropWhile p).head? with
  | none => rfl
  | some c => simpa [hd] using h

theorem wordChar_ne_colon {c : Char} (h : isWordChar c = true) : c ≠ ':' := by
  rintro rfl
  simp [isWordChar] at h

theorem IsWord.exists_last {cs : List Char} (h : IsWord cs) :
    ∃ init c, cs = init ++ [c] ∧ isWordChar c = true := by
  rcases List.eq_nil_or_concat cs with rfl | ⟨init, c, rfl⟩
  · exact absurd rfl h.1
  · exact ⟨init, c, List.concat_eq_append, h.2 c (by simp)⟩

theorem resumes_word {cs : List Char} (hw : IsWord cs) (before rest : List Char)
    (hrest : rest.head?.any isWordChar = false) : Resumes (before ++ cs) rest := by
  obtain ⟨init, c, rfl, hc⟩ := hw.exists_last
  rw [← List.append_assoc]
  exact resumes_solid (wordChar_ne_colon hc) _ _ fun _ => hrest

theorem resumes_pair {before : List Char} (h : 2 ∣ trailingColons before) (rest : List Char) :
    Resumes (before ++ [':', ':']) rest := by
  refine ⟨by simp [isWordChar], fun _ => ?_⟩
  have hsplit : before ++ [':', ':'] = before ++ [':'] ++ [':'] := by simp
  rw [hsplit, trailingColons_colon, trailingColons_colon]
  omega

theorem resumes_mark {c : Char} {rest : List Char} (hw : isWordChar c = false)
    (hp : ¬(c = ':' ∧ rest.head? = some ':')) (before : List Char) :
    Resumes (before ++ [c]) rest := by
  refine ⟨by simp [hw], fun hrest => ?_⟩
  rw [trailingColons_solid fun hc => hp ⟨hc, hrest⟩]
  exact Nat.dvd_zero 2

namespace Resumes
variable {before rest : List Char} {c : Char}

theorem piece_word (h : Resumes before (c :: rest)) (hw : isWordChar c = true) :
    Piece before (rest.dropWhile isWordChar) (c :: rest.takeWhile isWordChar) := by
  refine .word (takeWhile_isWord c rest hw) ?_ (head?_dropWhile_any isWordChar rest)
  by_contra hlast
  simpa [hw] using h.1 (by simpa using hlast)

theorem piece_mark (h : Resumes before (c :: rest)) (hb : isBlank c = false)
    (hw : isWordChar c = false) (hp : ¬(c = ':' ∧ rest.head? = some ':')) :
    Piece before rest [c] :=
  .mark hb hw fun hc => ⟨h.2 (by simp [hc]), fun hrest => hp ⟨hc, hrest⟩⟩

end Resumes

theorem scan_reads {before cs : List Char} (h : Resumes before cs) :
    Reads before cs (scan (bytes before) cs) := by
  generalize hpos : bytes before = pos
  fun_induction scan pos cs generalizing before with
  | case1 pos => exact .done
  | case2 pos c cs hb ih =>
    have hw : isWordChar c = false := by
      by_contra hw
      simp [wordChar_solid (by simpa using hw)] at hb
    have hc : c ≠ ':' := by
      rintro rfl
      simp [isBlank] at hb
    refine .blank hb (ih (resumes_solid hc before cs fun h => by simp [hw] at h) ?_)
    simp [bytes_append, bytes, hpos]
  | case3 pos c cs hb hw ih =>
    have hword := takeWhile_isWord c cs hw
    have hsize := words_bytes hword.2
    have hcs : c :: cs =
        (word (c :: cs.takeWhile isWordChar) pos).lexeme.toList ++ cs.dropWhile isWordChar := by
      simp [word]
    refine .token hcs (by simp [word, hpos]) (word_formed _ _ hword) ?_ (ih ?_ ?_)
    · simpa [word] using h.piece_word hw
    · simpa [word] using resumes_word hword before _ (head?_dropWhile_any isWordChar cs)
    · simp only [word, String.toList_ofList, bytes_append, hpos, hsize, List.length_cons]
      omega
  | case4 pos c cs hb hw hp ih =>
    obtain ⟨rfl, hp⟩ := hp
    obtain ⟨cs, rfl⟩ := List.head?_eq_some_iff.mp hp
    have heven := h.2 rfl
    have htwo : "::".toList = [':', ':'] := by simp
    have hcs : ':' :: ':' :: cs = "::".toList ++ cs := by simp
    refine .token hcs hpos.symm (by simp [Formed]) (htwo ▸ .pair heven) (ih ?_ ?_)
    · exact htwo ▸ resumes_pair heven cs
    · simp [bytes_append, bytes, hpos, show ':'.utf8Size = 1 by decide]
  | case5 pos c cs hb hw hp ih =>
    have hb' : isBlank c = false := by simpa using hb
    have hw' : isWordChar c = false := by simpa using hw
    have hcs : c :: cs = (mark c pos).lexeme.toList ++ cs := by simp [mark]
    refine .token hcs (by simp [mark, hpos]) (mark_formed c pos hb' hw') ?_ (ih ?_ ?_)
    · simpa [mark] using h.piece_mark hb' hw' hp
    · simpa [mark] using resumes_mark hw' hp before
    · simp [mark, bytes_append, bytes, hpos]

theorem Reads.placed {before cs : List Char} {ts : List Token} (h : Reads before cs ts) :
    ∀ t ∈ ts, t.Placed (before ++ cs) ∧ bytes before ≤ t.pos := by
  induction h with
  | done => simp
  | blank _ _ ih =>
    intro t ht
    obtain ⟨hplaced, hpos⟩ := ih t ht
    rw [bytes_append] at hpos
    exact ⟨by simpa using hplaced, by omega⟩
  | @token before cs rest u us hcs hpos hf hp _ ih =>
    rw [hcs, ← List.append_assoc]
    refine List.forall_mem_cons.mpr ⟨⟨⟨before, rest, rfl, hpos, hf, hp⟩, hpos.ge⟩, ?_⟩
    intro t ht
    obtain ⟨hplaced, hle⟩ := ih t ht
    rw [bytes_append] at hle
    exact ⟨hplaced, by omega⟩

theorem Reads.apart {before cs : List Char} {ts : List Token} (h : Reads before cs ts) :
    ts.Pairwise fun t u => t.stop ≤ u.pos := by
  induction h with
  | done => exact .nil
  | blank _ _ ih => exact ih
  | @token before cs rest t ts _ hpos _ _ hreads ih =>
    refine .cons (fun u hu => ?_) ih
    have hle := (hreads.placed u hu).2
    rw [bytes_append] at hle
    rw [stop_eq, hpos]
    exact hle

theorem Reads.covered {before cs : List Char} {ts : List Token} (h : Reads before cs ts) :
    ∀ mid c after, cs = mid ++ c :: after → (isBlank c = false ↔
      ∃ t ∈ ts, t.pos ≤ bytes (before ++ mid) ∧ bytes (before ++ mid) < t.stop) := by
  induction h with
  | done => simp
  | @blank before cs b ts hb hreads ih =>
    intro mid c after hcs
    cases mid with
    | nil =>
      obtain ⟨rfl, rfl⟩ := List.cons.inj hcs
      refine iff_of_false (by simp [hb]) ?_
      rintro ⟨t, ht, hle, -⟩
      have hpos := (hreads.placed t ht).2
      have hb' := bytes_pos (List.cons_ne_nil b [])
      rw [bytes_append] at hpos
      rw [List.append_nil] at hle
      omega
    | cons m mid =>
      obtain ⟨rfl, rfl⟩ := List.cons.inj hcs
      simpa using ih mid c after rfl
  | @token before cs rest u us hcs hpos hf hp hreads ih =>
    intro mid c after hmid
    rw [hcs] at hmid
    have hstop : u.stop = bytes (before ++ u.lexeme.toList) := by
      rw [stop_eq, hpos, bytes_append]
    rcases append_eq_append_cons hmid with ⟨more, hlex, -⟩ | ⟨more, rfl, hrest⟩
    · refine iff_of_true (hp.solid c (by simp [hlex])) ⟨u, by simp, ?_, ?_⟩
      · rw [hpos, bytes_append]
        omega
      · have hc := bytes_pos (List.cons_ne_nil c more)
        rw [hstop, hlex, bytes_append, bytes_append, bytes_append]
        omega
    · -- the character stands behind the token
      rw [ih more c after hrest, ← List.append_assoc, List.exists_mem_cons_iff]
      refine (or_iff_right ?_).symm
      rintro ⟨-, hlt⟩
      rw [hstop, bytes_append _ more] at hlt
      omega

theorem reads_ofText (line : String) : Reads [] line.toList (ofText line) :=
  scan_reads ⟨by simp, fun _ => by simp [trailingColons]⟩

theorem Reads.tokenization {cs : List Char} {ts : List Token} (h : Reads [] cs ts) :
    Tokenization cs ts where
  apart := h.apart
  placed := fun t ht => (h.placed t ht).1
  covered := fun before c after hcs => h.covered before c after hcs

theorem tokenization_ofText (line : String) : Tokenization line.toList (ofText line) :=
  (reads_ofText line).tokenization

theorem append_inj_of_bytes {u v x y : List Char} (h : u ++ x = v ++ y) (hb : bytes u = bytes v) :
    u = v ∧ x = y := by
  have hnil : ∀ cs, bytes cs = 0 → cs = [] := fun cs hcs => by
    by_contra hne
    have hpos := bytes_pos hne
    omega
  rcases List.append_eq_append_iff.mp h with ⟨more, rfl, rfl⟩ | ⟨more, rfl, rfl⟩ <;>
    rw [bytes_append] at hb <;> simp [hnil more (by omega)]

theorem takeWhile_word {cs : List Char} (hw : IsWord cs) {rest : List Char}
    (hrest : rest.head?.any isWordChar = false) : (cs ++ rest).takeWhile isWordChar = cs := by
  have hstop : rest.takeWhile isWordChar = [] := by
    cases rest with
    | nil => rfl
    | cons c rest => simpa using hrest
  rw [List.takeWhile_append_of_pos hw.2, hstop, List.append_nil]

theorem not_isWord_colon {cs : List Char} : ¬IsWord (':' :: cs) := fun hw =>
  wordChar_ne_colon (hw.2 ':' (by simp)) rfl

namespace Piece
variable {before after cs after' mid more : List Char} {c : Char}

theorem eq_of_within_word {before' : List Char} (hcs : Piece (before' ++ mid) after (c :: cs))
    (hw : IsWord (mid ++ c :: more)) (hafter' : after'.head?.any isWordChar = false)
    (h : cs ++ after = more ++ after') : mid = [] ∧ cs = more := by
  have hc : isWordChar c = true := hw.2 c (by simp)
  cases hcs with
  | word hw' hlast hafter =>
    have hmid : mid = [] := by
      rcases List.eq_nil_or_concat mid with hmid | ⟨init, m, rfl⟩
      · exact hmid
      · have hm : isWordChar m = true := hw.2 m (by simp)
        simp [hm] at hlast
    subst hmid
    have hline : c :: cs ++ after = c :: more ++ after' := congrArg (c :: ·) h
    have hwords : c :: cs = c :: more := by
      rw [← takeWhile_word hw' hafter, hline]
      exact takeWhile_word hw hafter'
    exact ⟨rfl, (List.cons.inj hwords).2⟩
  | pair => simp [isWordChar] at hc
  | mark _ hnot => simp [hc] at hnot

theorem eq_of_within_pair {before' : List Char} (hcs : Piece (before' ++ mid) after (c :: cs))
    (heven : 2 ∣ trailingColons before') (hpair : mid ++ c :: more = [':', ':'])
    (h : cs ++ after = more ++ after') : mid = [] ∧ cs = more := by
  have hmid : c = ':' ∧ (mid = [] ∧ more = [':'] ∨ mid = [':'] ∧ more = []) := by
    rcases mid with - | ⟨m, - | ⟨n, mid⟩⟩ <;> simp_all
  obtain ⟨rfl, hmid⟩ := hmid
  have hodd : 2 ∣ trailingColons (before' ++ mid) → mid = [] ∧ more = [':'] := by
    intro hbefore
    rcases hmid with hmid | ⟨rfl, -⟩
    · exact hmid
    · rw [trailingColons_colon] at hbefore
      omega
  cases hcs with
  | word hw => exact absurd hw not_isWord_colon
  | pair heven' =>
    obtain ⟨rfl, rfl⟩ := hodd heven'
    exact ⟨rfl, rfl⟩
  | mark _ _ hcolon =>
    obtain ⟨heven', hnext⟩ := hcolon rfl
    obtain ⟨rfl, rfl⟩ := hodd heven'
    simp [show after = ':' :: after' from h] at hnext

/-- Two pieces of one text of which the one begins within the other are the same piece. -/
theorem eq_of_within {before' : List Char} (hcs : Piece before after cs)
    (hds : Piece before' after' (mid ++ more)) (hbefore : before = before' ++ mid)
    (hmore : more ≠ []) (h : cs ++ after = more ++ after') : mid = [] ∧ cs = more := by
  obtain ⟨d, more, rfl⟩ := List.exists_cons_of_ne_nil hmore
  obtain ⟨c, cs, rfl⟩ := List.exists_cons_of_ne_nil hcs.ne_nil
  obtain ⟨rfl, htail⟩ := List.cons.inj h
  subst hbefore
  generalize hpiece : mid ++ c :: more = ds at hds
  cases hds with
  | word hw _ hafter' =>
    obtain ⟨hmid, hmore⟩ := hcs.eq_of_within_word (hpiece ▸ hw) hafter' htail
    exact ⟨hmid, by rw [hmore]⟩
  | pair heven =>
    obtain ⟨hmid, hmore⟩ := hcs.eq_of_within_pair heven hpiece htail
    exact ⟨hmid, by rw [hmore]⟩
  | @mark d hblank hnot hcolon =>
    obtain ⟨rfl, rfl, rfl⟩ : mid = [] ∧ c = d ∧ more = [] := by
      rcases mid with - | ⟨m, mid⟩ <;> simp_all
    cases hcs with
    | word hw => simp [hw.2 c (by simp)] at hnot
    | pair =>
      obtain ⟨-, hnext⟩ := hcolon rfl
      simp [show after' = ':' :: after from htail.symm] at hnext
    | mark => exact ⟨rfl, rfl⟩

end Piece

theorem Formed.kind_eq {t u : Token} (ht : t.Formed) (hu : u.Formed) (h : t.lexeme = u.lexeme) :
    t.kind = u.kind := by
  have hshapes := ht.shapes_lexeme
  rw [h, hu.shapes_lexeme] at hshapes
  exact (congrArg Prod.fst (List.singleton_inj.mp hshapes)).symm

theorem Placed.ne_nil {line : List Char} {t : Token} (h : t.Placed line) :
    t.lexeme.toList ≠ [] := by
  obtain ⟨_, _, -, -, -, hp⟩ := h
  exact hp.ne_nil

theorem Placed.pos_lt_stop {line : List Char} {t : Token} (h : t.Placed line) : t.pos < t.stop := by
  have hpos := bytes_pos h.ne_nil
  rw [stop_eq]
  omega

/-- Two tokens that stand in a text and overlap are the same. -/
theorem Placed.eq_of_covers {line : List Char} {t u : Token} (ht : t.Placed line)
    (hu : u.Placed line) (hle : u.pos ≤ t.pos) (hlt : t.pos < u.stop) : t = u := by
  obtain ⟨before, after, hline, hpos, hf, hp⟩ := ht
  obtain ⟨before', after', hline', hpos', hf', hp'⟩ := hu
  rw [stop_eq] at hlt
  obtain ⟨mid, more, hbefore, hlex, hmore, hrest⟩ : ∃ mid more, before = before' ++ mid ∧
      u.lexeme.toList = mid ++ more ∧ more ≠ [] ∧
        t.lexeme.toList ++ after = more ++ after' := by
    rw [hline, List.append_assoc, List.append_assoc] at hline'
    rcases List.append_eq_append_iff.mp hline' with ⟨mid, hmid, hrest⟩ | ⟨mid, hmid, hrest⟩
    · have hsame := append_inj_of_bytes hline' (by
        rw [hmid, bytes_append] at hpos'
        rw [hmid, bytes_append]
        omega)
      exact ⟨[], u.lexeme.toList, by simp [hsame.1], by simp, hp'.ne_nil, hsame.2⟩
    · rcases List.append_eq_append_iff.mp hrest with ⟨more, hmore, htail⟩ | ⟨more, hmore, htail⟩
      · rw [hpos, hmid, hpos', hmore, bytes_append, bytes_append] at hlt
        omega
      · refine ⟨mid, more, hmid, hmore, ?_, htail⟩
        rintro rfl
        rw [hpos, hmid, hpos', hmore, bytes_append, bytes_append] at hlt
        simp [bytes] at hlt
  rw [hlex] at hp'
  obtain ⟨rfl, hsame⟩ := hp.eq_of_within hp' hbefore hmore hrest
  have hlexeme : t.lexeme = u.lexeme := String.toList_inj.mp (by rw [hsame, hlex, List.nil_append])
  have hkind := hf.kind_eq hf' hlexeme
  have hplace : t.pos = u.pos := by rw [hpos, hbefore, List.append_nil, hpos']
  cases t
  cases u
  simp_all

/-- Which tokens belong to a text is told place by place. -/
theorem Tokenization.mem_iff {line : List Char} {ts : List Token} (h : Tokenization line ts)
    (t : Token) : t ∈ ts ↔ t.Placed line := by
  refine ⟨h.placed t, fun ht => ?_⟩
  obtain ⟨before, after, hline, hpos, -, hp⟩ := id ht
  obtain ⟨c, cs, hlex⟩ := List.exists_cons_of_ne_nil hp.ne_nil
  have hsolid := hp.solid c (by simp [hlex])
  obtain ⟨u, hu, hle, hlt⟩ := (h.covered before c (cs ++ after) (by simp [hline, hlex])).mp hsolid
  rw [← hpos] at hle hlt
  exact ht.eq_of_covers (h.placed u hu) hle hlt ▸ hu

theorem Tokenization.nodup {line : List Char} {ts : List Token} (h : Tokenization line ts) :
    ts.Nodup := by
  refine h.apart.imp_of_mem fun {t u} ht _ hle => ?_
  rintro rfl
  have hlt := (h.placed t ht).pos_lt_stop
  omega

theorem Tokenization.unique {line : List Char} {ts us : List Token} (h : Tokenization line ts)
    (k : Tokenization line us) : ts = us := by
  refine List.Perm.eq_of_pairwise ?_ h.apart k.apart ?_
  · intro t u ht hu htu hut
    have hlt := (h.placed t ht).pos_lt_stop
    have hlt' := (k.placed u hu).pos_lt_stop
    omega
  · rw [List.perm_ext_iff_of_nodup h.nodup k.nodup]
    intro t
    rw [h.mem_iff, k.mem_iff]

theorem Placed.valid {line : String} {t : Token} (h : t.Placed line.toList) :
    String.Pos.Raw.IsValid line ⟨t.pos⟩ ∧ String.Pos.Raw.IsValid line ⟨t.stop⟩ ∧
      String.Pos.Raw.extract line ⟨t.pos⟩ ⟨t.stop⟩ = t.lexeme := by
  obtain ⟨before, after, hline, hpos, -, -⟩ := h
  have htext : line = String.ofList before ++ t.lexeme ++ String.ofList after :=
    String.toList_inj.mp (by simpa using hline)
  have hstart : (⟨t.pos⟩ : String.Pos.Raw) = (String.ofList before).rawEndPos := by
    rw [hpos, bytes_eq_utf8Len, String.rawEndPos_ofList]
  have hstop : (⟨t.stop⟩ : String.Pos.Raw) = (String.ofList before ++ t.lexeme).rawEndPos := by
    rw [stop, hpos, bytes_eq_utf8Len, ← String.utf8ByteSize_ofList, ← String.utf8ByteSize_append]
    rfl
  refine ⟨?_, ?_, ?_⟩
  · exact String.Pos.Raw.isValid_iff_exists_append.mpr
      ⟨_, t.lexeme ++ String.ofList after, by rw [htext, String.append_assoc], hstart⟩
  · exact String.Pos.Raw.isValid_iff_exists_append.mpr ⟨_, String.ofList after, htext, hstop⟩
  · have hcut := String.extract_of_valid before t.lexeme.toList after
    rw [← hline, String.ofList_toList, String.ofList_toList] at hcut
    rw [stop_eq, hpos, bytes_eq_utf8Len, bytes_eq_utf8Len]
    exact hcut

/-- Two colons that touch are never both left single. -/
theorem Placed.colons_apart {line : List Char} {t u : Token} (ht : t.Placed line)
    (hu : u.Placed line) (hlt : t.lexeme = ":") (hlu : u.lexeme = ":") : t.stop ≠ u.pos := by
  obtain ⟨before, after, hline, hpos, -, hp⟩ := ht
  obtain ⟨before', after', hline', hpos', -, -⟩ := hu
  have hcolon : ":".toList = [':'] := by simp
  rw [hlt, hcolon] at hline hp
  rw [hlu, hcolon] at hline'
  intro htouch
  rw [stop_eq, hlt, hcolon, hpos, hpos', ← bytes_append] at htouch
  have hsame := hline.symm.trans hline'
  rw [List.append_assoc before'] at hsame
  have hafter := (append_inj_of_bytes hsame htouch).2
  generalize hcs : [':'] = cs at hp
  cases hp with
  | word hw => exact absurd (hcs ▸ hw) not_isWord_colon
  | pair => simp at hcs
  | mark _ _ hnext =>
    obtain ⟨rfl, -⟩ := List.cons.inj hcs
    simp [hafter] at hnext

/-- The tokens that are read from a text are the one list of tokens that stand in it one after
the other and cover every character but the blanks. Each one begins and ends between two
characters and is the text between them, and no two colons that touch are left single. -/
theorem ofText_exact (line : String) :
    (∀ ts, Tokenization line.toList ts ↔ ts = ofText line) ∧
    (∀ t ∈ ofText line, String.Pos.Raw.IsValid line ⟨t.pos⟩ ∧
      String.Pos.Raw.IsValid line ⟨t.stop⟩ ∧
      String.Pos.Raw.extract line ⟨t.pos⟩ ⟨t.stop⟩ = t.lexeme) ∧
    ∀ t ∈ ofText line, ∀ u ∈ ofText line, t.lexeme = ":" → u.lexeme = ":" → t.kind = .other →
      u.kind = .other → t.stop ≠ u.pos := by
  have hread := tokenization_ofText line
  refine ⟨fun ts => ⟨fun h => h.unique hread, ?_⟩, fun t ht => (hread.placed t ht).valid, ?_⟩
  · rintro rfl
    exact hread
  · intro t ht u hu hlt hlu _ _
    exact (hread.placed t ht).colons_apart (hread.placed u hu) hlt hlu

example : (ofText "a:::b é*").map shown = ["Ident(\"a\" @ 0)", "PathSep(\"::\" @ 1)",
    "Other(\":\" @ 3)", "Ident(\"b\" @ 4)", "Other(\"é\" @ 6)", "Star(\"*\" @ 8)"] := by
  decide +kernel

end Token
end Bindery
