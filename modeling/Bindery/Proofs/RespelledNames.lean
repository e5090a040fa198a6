import Bindery.Proofs.TokenPlaces
import Bindery.Proofs.WrittenSources
import Mathlib.Data.List.Forall2

/-!
# Respelled names

The name of a parameter is found by its place, so another name may stand there, one that spells a
type elsewhere included. The tokens around it stay the same, however far they move, and so do the
types of the declaration.
-/

set_option autoImplicit false

namespace Bindery
open Bindery.Text

namespace Token

/-- Two texts that are the same but for some tokens, each of which is replaced by a name. Places
are those of the first text. -/
inductive Respelled (names : List Token) : Nat → List Char → List Char → Prop where
  | done {pos : Nat} : Respelled names pos [] []
  | keep {pos : Nat} {c : Char} {cs ds : List Char} :
      Respelled names (pos + c.utf8Size) cs ds → Respelled names pos (c :: cs) (c :: ds)
  | name {t : Token} {name : String} {cs ds : List Char} : t ∈ names → isNativeName name = true →
      Respelled names t.stop cs ds →
      Respelled names t.pos (t.lexeme.toList ++ cs) (name.toList ++ ds)

def Alike (names : List Token) (t u : Token) : Prop := u.shape = t.shape ∨ t ∈ names ∧ u.IsName

structure EndsLike (u v : List Char) : Prop where
  word : u.getLast?.any isWordChar = v.getLast?.any isWordChar
  blank : u.getLast?.any isBlank = v.getLast?.any isBlank
  colons : trailingColons u = trailingColons v

structure StartsLike (u v : List Char) : Prop where
  word : u.head?.any isWordChar = v.head?.any isWordChar
  colon : u.head? = some ':' ↔ v.head? = some ':'

theorem EndsLike.append {u v : List Char} (h : EndsLike u v) (cs : List Char) :
    EndsLike (u ++ cs) (v ++ cs) := by
  induction cs generalizing u v with
  | nil => simpa using h
  | cons c cs ih =>
    have hnext : EndsLike (u ++ [c]) (v ++ [c]) := by
      refine ⟨by simp, by simp, ?_⟩
      by_cases hc : c = ':'
      · rw [hc, trailingColons_colon, trailingColons_colon, h.colons]
      · rw [trailingColons_solid hc, trailingColons_solid hc]
    simpa using ih hnext

theorem endsLike_words {cs ds : List Char} (hcs : IsWord cs) (hds : IsWord ds) (u v : List Char) :
    EndsLike (u ++ cs) (v ++ ds) := by
  obtain ⟨cs, c, rfl, hc⟩ := hcs.exists_last
  obtain ⟨ds, d, rfl, hd⟩ := hds.exists_last
  rw [← List.append_assoc, ← List.append_assoc]
  refine ⟨by simp [hc, hd], by simp [wordChar_solid hc, wordChar_solid hd], ?_⟩
  rw [trailingColons_solid (wordChar_ne_colon hc), trailingColons_solid (wordChar_ne_colon hd)]

theorem startsLike_words {cs ds : List Char} (hcs : IsWord cs) (hds : IsWord ds) (u v : List Char) :
    StartsLike (cs ++ u) (ds ++ v) := by
  obtain ⟨c, cs, rfl⟩ := List.exists_cons_of_ne_nil hcs.1
  obtain ⟨d, ds, rfl⟩ := List.exists_cons_of_ne_nil hds.1
  have hc : isWordChar c = true := hcs.2 c (by simp)
  have hd : isWordChar d = true := hds.2 d (by simp)
  exact ⟨by simp [hc, hd], by simp [wordChar_ne_colon hc, wordChar_ne_colon hd]⟩

theorem Piece.alike {before before' after after' cs : List Char} (h : Piece before after cs)
    (hends : EndsLike before before') (hstarts : StartsLike after after') :
    Piece before' after' cs := by
  cases h with
  | word hw hlast hfirst =>
    exact .word hw (hends.word ▸ hlast) (hstarts.word ▸ hfirst)
  | pair heven => exact .pair (hends.colons ▸ heven)
  | mark hb hw hcolon =>
    refine .mark hb hw fun hc => ?_
    obtain ⟨heven, hnext⟩ := hcolon hc
    exact ⟨hends.colons ▸ heven, fun h => hnext (hstarts.colon.mpr h)⟩

theorem Piece.of_word {before after cs : List Char} (h : Piece before after cs) (hw : IsWord cs) :
    before.getLast?.any isWordChar = false ∧ after.head?.any isWordChar = false := by
  cases h with
  | word _ hlast hfirst => exact ⟨hlast, hfirst⟩
  | pair => exact absurd hw not_isWord_colon
  | @mark c _ hnot => simp [hw.2 c (by simp)] at hnot

variable {names : List Token}

theorem Respelled.cases_cons {pos : Nat} {c : Char} {cs ds : List Char}
    (h : Respelled names pos (c :: cs) ds) :
    (∃ es, ds = c :: es ∧ Respelled names (pos + c.utf8Size) cs es) ∨
      ∃ t ∈ names, ∃ (name : String) (rest es : List Char), t.pos = pos ∧
        isNativeName name = true ∧ c :: cs = t.lexeme.toList ++ rest ∧
        ds = name.toList ++ es ∧ Respelled names t.stop rest es := by
  generalize hcs : c :: cs = text at h
  cases h with
  | done => cases hcs
  | keep h =>
    obtain ⟨rfl, rfl⟩ := List.cons.inj hcs
    exact .inl ⟨_, rfl, h⟩
  | name ht hname h => exact .inr ⟨_, ht, _, _, _, rfl, hname, rfl, rfl, h⟩

/-- A stretch of a text in which no replaced token starts stays as it is. -/
theorem Respelled.kept {pos : Nat} {kept cs ds : List Char}
    (h : Respelled names pos (kept ++ cs) ds)
    (hnone : ∀ t ∈ names, pos ≤ t.pos → pos + bytes kept ≤ t.pos) :
    ∃ es, ds = kept ++ es ∧ Respelled names (pos + bytes kept) cs es := by
  induction kept generalizing pos ds with
  | nil => exact ⟨ds, rfl, h⟩
  | cons c kept ih =>
    have hc := c.utf8Size_pos
    rw [bytes, ← Nat.add_assoc] at hnone ⊢
    rcases h.cases_cons with ⟨es, rfl, hnext⟩ | ⟨t, ht, -, -, -, hpos, -⟩
    · obtain ⟨es, rfl, hrest⟩ := ih hnext fun t ht hle => hnone t ht (by omega)
      exact ⟨es, rfl, hrest⟩
    · have hlate := hnone t ht hpos.ge
      omega

theorem respelled_self (names : List Token) (pos : Nat) (cs : List Char) :
    Respelled names pos cs cs := by
  induction cs generalizing pos with
  | nil => exact .done
  | cons c cs ih => exact .keep (ih _)

/-- One token more, behind a stretch that stays. -/
theorem Respelled.behind (kept : List Char) {t : Token} (ht : t ∈ names) {name : String}
    (hname : isNativeName name = true) {pos : Nat} (hpos : pos + bytes kept = t.pos)
    {cs ds : List Char} (h : Respelled names t.stop cs ds) :
    Respelled names pos (kept ++ (t.lexeme.toList ++ cs)) (kept ++ (name.toList ++ ds)) := by
  induction kept generalizing pos with
  | nil =>
    obtain rfl : pos = t.pos := hpos
    exact .name ht hname h
  | cons c kept ih =>
    rw [bytes, ← Nat.add_assoc] at hpos
    exact .keep (ih hpos)

section Words
variable (hwords : ∀ t ∈ names, IsWord t.lexeme.toList)
include hwords

theorem Respelled.startsLike {pos : Nat} {cs ds : List Char} (h : Respelled names pos cs ds) :
    StartsLike cs ds := by
  cases h with
  | done => exact ⟨rfl, .rfl⟩
  | keep => exact ⟨rfl, .rfl⟩
  | name ht hname => exact startsLike_words (hwords _ ht) (isWord_of_native hname).1 _ _

theorem Respelled.endsLike {pos : Nat} {cs ds u v : List Char} (h : Respelled names pos cs ds)
    (hends : EndsLike u v) : EndsLike (u ++ cs) (v ++ ds) := by
  induction h generalizing u v with
  | done => simpa using hends
  | @keep pos c cs ds _ ih => simpa using ih (hends.append [c])
  | name ht hname _ ih =>
    simpa using ih (endsLike_words (hwords _ ht) (isWord_of_native hname).1 u v)

theorem Respelled.eq_nil {pos : Nat} {ds : List Char} (h : Respelled names pos [] ds) :
    ds = [] := by
  generalize hcs : [] = cs at h
  cases h with
  | done => rfl
  | keep => cases hcs
  | name ht => exact absurd (List.append_eq_nil_iff.mp hcs.symm).1 (hwords _ ht).1

end Words

theorem Respelled.at_token {line : List Char} (hnames : ∀ t ∈ names, t.Placed line) {t : Token}
    (ht : t.Placed line) {cs ds : List Char}
    (h : Respelled names t.pos (t.lexeme.toList ++ cs) ds) :
    (∃ es, ds = t.lexeme.toList ++ es ∧ Respelled names t.stop cs es) ∨
      t ∈ names ∧ ∃ (name : String) (es : List Char), isNativeName name = true ∧
        ds = name.toList ++ es ∧ Respelled names t.stop cs es := by
  have hsame : ∀ u ∈ names, t.pos ≤ u.pos → u.pos < t.stop → u = t := fun u hu hle hlt =>
    (hnames u hu).eq_of_covers ht hle hlt
  have hstop := ht.pos_lt_stop
  have hlexeme := stop_eq t
  obtain ⟨c, lexeme, hlex⟩ := List.exists_cons_of_ne_nil ht.ne_nil
  rw [hlex, List.cons_append] at h
  rw [hlex, bytes, ← Nat.add_assoc] at hlexeme
  rcases h.cases_cons with ⟨es, rfl, hnext⟩ | ⟨u, hu, name, rest, es, hpos, hname, hcs, rfl, hrest⟩
  · -- a token that is replaced further on in this one would be this one, and start at its start
    have hnone : ∀ u ∈ names, t.pos + c.utf8Size ≤ u.pos →
        t.pos + c.utf8Size + bytes lexeme ≤ u.pos := by
      intro u hu hle
      by_contra hlt
      have hc := c.utf8Size_pos
      have hut := hsame u hu (by omega) (by omega)
      rw [hut] at hle
      omega
    obtain ⟨es, rfl, hrest⟩ := hnext.kept hnone
    exact .inl ⟨es, by rw [hlex, List.cons_append], hlexeme ▸ hrest⟩
  · obtain rfl := hsame u hu hpos.ge (by omega)
    rw [hlex, List.cons_append] at hcs
    obtain rfl := List.append_cancel_left (List.cons.inj hcs).2
    exact .inr ⟨hu, name, es, hname, rfl, hrest⟩

/-- Reading goes on alike where a token is replaced by a name. -/
theorem Reads.respelled {line : List Char} (hnames : ∀ t ∈ names, t.Placed line)
    (hwords : ∀ t ∈ names, IsWord t.lexeme.toList) {before before' cs ds : List Char}
    {ts : List Token} (h : Reads before cs ts) (hline : line = before ++ cs)
    (hends : EndsLike before before') (hr : Respelled names (bytes before) cs ds) :
    ∃ us, Reads before' ds us ∧ List.Forall₂ (Alike names) ts us := by
  induction h generalizing before' ds with
  | done =>
    obtain rfl := hr.eq_nil hwords
    exact ⟨[], .done, .nil⟩
  | @blank before cs c ts hb _ ih =>
    rcases hr.cases_cons with ⟨es, rfl, hnext⟩ | ⟨t, ht, -, rest, -, -, -, hcs, -⟩
    · have hpos : bytes (before ++ [c]) = bytes before + c.utf8Size := by
        rw [bytes_append, bytes, bytes, Nat.add_zero]
      rw [← hpos] at hnext
      obtain ⟨us, hreads, halike⟩ := ih (by simp [hline]) (hends.append [c]) hnext
      exact ⟨us, .blank hb hreads, halike⟩
    · obtain ⟨d, lexeme, hlex⟩ := List.exists_cons_of_ne_nil (hwords t ht).1
      have hd : isWordChar d = true := (hwords t ht).2 d (by simp [hlex])
      rw [hlex] at hcs
      obtain ⟨rfl, -⟩ := List.cons.inj hcs
      simp [wordChar_solid hd] at hb
  | @token before cs rest t ts hcs hpos hf hp _ ih =>
    have hnext : line = before ++ t.lexeme.toList ++ rest := by
      rw [hline, hcs, List.append_assoc]
    have hstop : bytes (before ++ t.lexeme.toList) = t.stop := by
      rw [stop_eq, hpos, bytes_append]
    rw [hcs, ← hpos] at hr
    rcases hr.at_token hnames ⟨before, rest, hnext, hpos, hf, hp⟩ with
      ⟨es, rfl, hrest⟩ | ⟨ht, name, es, hname, rfl, hrest⟩
    · have hstarts := hrest.startsLike hwords
      rw [← hstop] at hrest
      obtain ⟨us, hreads, halike⟩ := ih hnext (hends.append _) hrest
      let u : Token := ⟨t.kind, t.lexeme, bytes before'⟩
      have hread : Reads before' (t.lexeme.toList ++ es) (u :: us) :=
        .token rfl rfl hf (hp.alike hends hstarts) hreads
      exact ⟨u :: us, hread, .cons (.inl rfl) halike⟩
    · have hword := (isWord_of_native hname).1
      obtain ⟨hlast, hfirst⟩ := hp.of_word (hwords t ht)
      have hstarts := hrest.startsLike hwords
      rw [← hstop] at hrest
      obtain ⟨us, hreads, halike⟩ := ih hnext (endsLike_words (hwords t ht) hword _ _) hrest
      let u : Token := ⟨.ident, name, bytes before'⟩
      have hf' : u.Formed := isWord_of_native hname
      have hread : Reads before' (name.toList ++ es) (u :: us) :=
        .token rfl rfl hf' (.word hword (hends.word ▸ hlast) (hstarts.word ▸ hfirst)) hreads
      exact ⟨u :: us, hread, .cons (.inr ⟨ht, (isName_of_native rfl hf' hname).1⟩) halike⟩

theorem ofText_respelled {body body' : String} (hnames : ∀ t ∈ names, t ∈ ofText body)
    (hwords : ∀ t ∈ names, IsWord t.lexeme.toList)
    (h : Respelled names 0 body.toList body'.toList) :
    List.Forall₂ (Alike names) (ofText body) (ofText body') := by
  have hplaced : ∀ t ∈ names, t.Placed body.toList := fun t ht =>
    (tokenization_ofText body).placed t (hnames t ht)
  obtain ⟨us, hreads, halike⟩ :=
    (reads_ofText body).respelled hplaced hwords rfl ⟨rfl, rfl, rfl⟩ h
  rwa [hreads.tokenization.unique (tokenization_ofText body')] at halike

theorem Alike.isName {t u : Token} (h : Alike names t u) (ht : t.IsName) : u.IsName := by
  rcases h with h | ⟨-, h⟩
  · obtain ⟨hkind, hlexeme⟩ := Prod.mk.inj h
    rwa [IsName, hkind, hlexeme]
  · exact h

theorem shapes_of_alike {ts us : List Token} (h : List.Forall₂ (Alike names) ts us)
    (hnone : ∀ t ∈ ts, t ∉ names) : us.map shape = ts.map shape := by
  induction h with
  | nil => rfl
  | @cons t u ts us htu _ ih =>
    obtain ⟨ht, hts⟩ := List.forall_mem_cons.mp hnone
    have hshape : u.shape = t.shape := htu.resolve_right fun hmem => ht hmem.1
    rw [List.map_cons, List.map_cons, hshape, ih hts]

end Token

theorem forall₂_append_left {α β : Type} {R : α → β → Prop} {as bs : List α} {cs : List β}
    (h : List.Forall₂ R (as ++ bs) cs) :
    ∃ as' bs', cs = as' ++ bs' ∧ List.Forall₂ R as as' ∧ List.Forall₂ R bs bs' :=
  ⟨cs.take as.length, cs.drop as.length, (List.take_append_drop _ _).symm,
    (List.forall₂_take_append _ _ _ h.flip).flip, (List.forall₂_drop_append _ _ _ h.flip).flip⟩

def Param.unnamed (p : Param) : Param := { p with name := "" }

def Declaration.unnamed (d : Declaration) : Declaration :=
  { d with params := d.params.map Param.unnamed }

namespace Declaration

@[simp] theorem unnamed_name (d : Declaration) : d.unnamed.name = d.name := rfl

@[simp] theorem unnamed_returnType (d : Declaration) : d.unnamed.returnType = d.returnType := rfl

@[simp] theorem unnamed_arity (d : Declaration) : d.unnamed.arity = d.arity := by
  simp [arity, unnamed]

def listedNames (inner : List Token) : List Token := (parts inner).filterMap List.getLast?

def paramNames (ts : List Token) : List Token :=
  match cutAt .lparen ts with
  | none => []
  | some (_, tail) =>
    match cutAt .rparen tail with
    | none => []
    | some (inner, _) => if isVoidList inner then [] else listedNames inner

theorem mem_of_mem_listedNames {t : Token} {inner : List Token} (h : t ∈ listedNames inner) :
    t ∈ inner := by
  obtain ⟨p, hp, hlast⟩ := List.mem_filterMap.mp h
  exact mem_of_mem_parts hp (List.mem_of_getLast? hlast)

theorem listedNames_last {type : List Token} {name : Token}
    (h : ∀ t ∈ type ++ [name], t.kind ≠ .comma) : listedNames (type ++ [name]) = [name] := by
  rw [listedNames, parts_single _ h]
  simp

theorem listedNames_more {type rest : List Token} {name comma : Token}
    (h : ∀ t ∈ type ++ [name], t.kind ≠ .comma) (hc : comma.kind = .comma) :
    listedNames (type ++ [name] ++ comma :: rest) = name :: listedNames rest := by
  rw [listedNames, parts_append _ rest comma h hc, List.filterMap_cons_some List.getLast?_concat]
  rfl

/-- If only the names of a list are among some tokens, its first type and the comma behind it are
not among them. -/
theorem listedNames_apart {names type rest : List Token} {name comma : Token}
    (hcomma : ∀ t ∈ type ++ [name], t.kind ≠ .comma) (hc : comma.kind = .comma)
    (hnodup : (type ++ [name] ++ comma :: rest).Nodup)
    (hnames : ∀ t ∈ type ++ [name] ++ comma :: rest, t ∈ names →
      t ∈ listedNames (type ++ [name] ++ comma :: rest)) :
    (∀ t ∈ type, t ∉ names) ∧ comma ∉ names ∧ ∀ t ∈ rest, t ∈ names → t ∈ listedNames rest := by
  rw [listedNames_more hcomma hc] at hnames
  obtain ⟨hfirst, hbehind, hapart⟩ := List.nodup_append.mp hnodup
  refine ⟨fun t ht hmem => ?_, fun hmem => ?_, fun t ht hmem => ?_⟩
  · rcases List.mem_cons.mp (hnames t (by simp [ht]) hmem) with rfl | hlate
    · exact (List.nodup_append.mp hfirst).2.2 t ht t (by simp) rfl
    · exact hapart t (by simp [ht]) t (by simp [mem_of_mem_listedNames hlate]) rfl
  · rcases List.mem_cons.mp (hnames comma (by simp) hmem) with rfl | hlate
    · exact hcomma comma (by simp) hc
    · exact (List.nodup_cons.mp hbehind).1 (mem_of_mem_listedNames hlate)
  · rcases List.mem_cons.mp (hnames t (by simp [ht]) hmem) with rfl | hlate
    · exact absurd rfl (hapart t (by simp) t (by simp [ht]))
    · exact hlate

end Declaration

open Declaration

/-- The names found in a list of parameters are those of the parameters. -/
theorem Param.Listed.names {ts : List Token} {ps : List Param} (h : Param.Listed ts ps) :
    (∀ t ∈ listedNames ts, t ∈ ts ∧ t.IsName) ∧
      (listedNames ts).map Token.lexeme = ps.map Param.name := by
  induction h with
  | last hw =>
    have hcomma := hw.no_comma
    obtain ⟨type, name, rfl, hn, -, hname⟩ := hw
    rw [listedNames_last hcomma]
    simp [hn, hname]
  | cons hw hc _ ih =>
    have hcomma := hw.no_comma
    obtain ⟨type, name, rfl, hn, -, hname⟩ := hw
    obtain ⟨hmem, hlexemes⟩ := ih
    rw [listedNames_more hcomma hc]
    refine ⟨List.forall_mem_cons.mpr ⟨⟨by simp, hn⟩, fun t ht => ?_⟩, by simp [hname, hlexemes]⟩
    obtain ⟨hrest, hnt⟩ := hmem t ht
    exact ⟨by simp [hrest], hnt⟩

theorem Param.Written.respelled {names type us : List Token} {name : Token} {p : Param}
    (h : p.Written (type ++ [name])) (hus : List.Forall₂ (Token.Alike names) (type ++ [name]) us)
    (htype : ∀ t ∈ type, t ∉ names) : ∃ q : Param, q.Written us ∧ q.unnamed = p.unnamed := by
  obtain ⟨type', name', heq, hn, hw, -⟩ := h
  obtain ⟨rfl, hlast⟩ := List.append_inj' heq rfl
  obtain rfl := List.singleton_inj.mp hlast
  obtain ⟨vs, ws, rfl, hvs, hws⟩ := forall₂_append_left hus
  obtain ⟨u, us, hu, hnil, rfl⟩ := List.forall₂_cons_left_iff.mp hws
  obtain rfl := List.forall₂_nil_left_iff.mp hnil
  rw [← Token.shapes_of_alike hvs htype] at hw
  exact ⟨⟨p.type, u.lexeme⟩, ⟨vs, u, rfl, hu.isName hn, hw, rfl⟩, rfl⟩

/-- Other names for parameters leave a list of parameters. -/
theorem Param.Listed.respelled {names ts us : List Token} {ps : List Param}
    (h : Param.Listed ts ps) (hus : List.Forall₂ (Token.Alike names) ts us) (hnodup : ts.Nodup)
    (hnames : ∀ t ∈ ts, t ∈ names → t ∈ listedNames ts) :
    ∃ qs, Param.Listed us qs ∧ qs.map Param.unnamed = ps.map Param.unnamed := by
  induction h generalizing us with
  | last hw =>
    have hcomma := hw.no_comma
    obtain ⟨type, name, rfl, -⟩ := id hw
    rw [listedNames_last hcomma] at hnames
    have htype : ∀ t ∈ type, t ∉ names := by
      intro t ht hmem
      obtain rfl := List.mem_singleton.mp (hnames t (by simp [ht]) hmem)
      exact (List.nodup_append.mp hnodup).2.2 t ht t (by simp) rfl
    obtain ⟨q, hq, hpq⟩ := hw.respelled hus htype
    exact ⟨[q], .last hq, by simp [hpq]⟩
  | @cons ts rest comma p ps hw hc _ ih =>
    have hcomma := hw.no_comma
    obtain ⟨type, name, rfl, -⟩ := id hw
    obtain ⟨htype, hcommaNames, hrestNames⟩ := listedNames_apart hcomma hc hnodup hnames
    have hrestNodup := (List.nodup_cons.mp (List.nodup_append.mp hnodup).2.1).2
    obtain ⟨vs, ws, rfl, hvs, hws⟩ := forall₂_append_left hus
    obtain ⟨comma', tail, hcomma', htail, rfl⟩ := List.forall₂_cons_left_iff.mp hws
    obtain ⟨q, hq, hpq⟩ := hw.respelled hvs htype
    obtain ⟨qs, hqs, hpqs⟩ := ih htail hrestNodup hrestNames
    have hshape : comma'.shape = comma.shape := hcomma'.resolve_right fun h => hcommaNames h.1
    have hkind : comma'.kind = .comma := (congrArg Prod.fst hshape).trans hc
    exact ⟨q :: qs, .cons hq hkind hqs, by simp [hpq, hpqs]⟩

theorem Param.Enclosed.respelled {names ts us : List Token} {ps : List Param}
    (h : Param.Enclosed ts ps) (hus : List.Forall₂ (Token.Alike names) ts us) (hnodup : ts.Nodup)
    (hnames : ∀ t ∈ ts, t ∈ names → isVoidList ts = false ∧ t ∈ listedNames ts) :
    ∃ qs, Param.Enclosed us qs ∧ qs.map Param.unnamed = ps.map Param.unnamed := by
  cases h with
  | empty =>
    obtain rfl := List.forall₂_nil_left_iff.mp hus
    exact ⟨[], .empty, rfl⟩
  | @void t ht =>
    have hvoid : isVoidList [t] = true := (isVoidList_iff _).mpr (.inr ⟨t, rfl, ht⟩)
    have hnone : ∀ u ∈ [t], u ∉ names := by
      intro u hu hmem
      have hlisted := (hnames u hu hmem).1
      rw [hvoid] at hlisted
      cases hlisted
    have hshapes := Token.shapes_of_alike hus hnone
    obtain ⟨u, hnil, hu, htail, rfl⟩ := List.forall₂_cons_left_iff.mp hus
    obtain rfl := List.forall₂_nil_left_iff.mp htail
    exact ⟨[], .void ((List.singleton_inj.mp hshapes).trans ht), rfl⟩
  | listed hl =>
    obtain ⟨qs, hqs, hpqs⟩ := hl.respelled hus hnodup fun t ht hmem => (hnames t ht hmem).2
    exact ⟨qs, .listed hqs, hpqs⟩

namespace Declaration

theorem paramNames_eq {head inner rest : List Token} {opening closing : Token}
    (hopening : opening.kind = .lparen) (hhead : ∀ t ∈ head, t.kind ≠ .lparen)
    (hclosing : closing.kind = .rparen) (hinner : ∀ t ∈ inner, t.kind ≠ .rparen) :
    paramNames (head ++ opening :: (inner ++ closing :: rest)) =
      if isVoidList inner then [] else listedNames inner := by
  have hopen : cutAt .lparen (head ++ opening :: (inner ++ closing :: rest)) =
      some (head, inner ++ closing :: rest) :=
    (cutAt_eq_some_iff _ _ _ _).mpr ⟨opening, rfl, hopening, hhead⟩
  have hclose : cutAt .rparen (inner ++ closing :: rest) = some (inner, rest) :=
    (cutAt_eq_some_iff _ _ _ _).mpr ⟨closing, rfl, hclosing, hinner⟩
  simp only [paramNames, hopen, hclose]

/-- The tokens that name the parameters of a declaration have their names for lexemes. -/
theorem Written.paramNames {ts : List Token} {d : Declaration} (h : Written ts d) :
    (∀ t ∈ paramNames ts, t ∈ ts ∧ t.IsName) ∧
      (Declaration.paramNames ts).map Token.lexeme = d.params.map Param.name := by
  obtain ⟨type, name, opening, inner, closing, rest, rfl, hn, hopening, hclosing, hparen, hw, -,
    henclosed⟩ := h
  rw [List.append_cons, paramNames_eq hopening (hw.no_opening hn) hclosing
    fun t ht => (hparen t ht).2]
  generalize d.params = ps at henclosed
  cases henclosed with
  | empty => simp [isVoidList]
  | void ht => simp [(isVoidList_iff _).mpr (.inr ⟨_, rfl, ht⟩)]
  | listed hl =>
    obtain ⟨hmem, hlexemes⟩ := hl.names
    rw [if_neg (by simp [listed_not_void hl])]
    exact ⟨fun t ht => ⟨by simp [(hmem t ht).1], (hmem t ht).2⟩, hlexemes⟩

/-- Around the parameters of a declaration only shapes count. -/
theorem written_of_shapes {r : ReturnType} {type front inner rest : List Token}
    {name opening closing : Token} {ps : List Param} (hw : r.Writes (type.map Token.shape))
    (hn : name.IsName) (hopening : opening.kind = .lparen)
    (hfront : front.map Token.shape = (type ++ [name] ++ [opening]).map Token.shape)
    (henclosed : Param.Enclosed inner ps) (hclosing : closing.kind = .rparen) :
    Written (front ++ (inner ++ closing :: rest)) ⟨r, name.lexeme, ps⟩ := by
  rw [List.map_append, List.map_append] at hfront
  obtain ⟨head, last, rfl, hhead, hlast⟩ := List.map_eq_append_iff.mp hfront
  obtain ⟨opening', rfl, hopening'⟩ := List.map_eq_singleton_iff.mp hlast
  obtain ⟨type', last', rfl, htype', hlast'⟩ := List.map_eq_append_iff.mp hhead
  obtain ⟨name', rfl, hname'⟩ := List.map_eq_singleton_iff.mp hlast'
  obtain ⟨hkind, hlexeme⟩ := Prod.mk.inj hname'
  refine ⟨type', name', opening', inner, closing, rest, by simp, ?_, ?_, hclosing,
    henclosed.no_paren, htype' ▸ hw, hlexeme.symm, henclosed⟩
  · rwa [Token.IsName, hkind, hlexeme]
  · exact (congrArg Prod.fst hopening').trans hopening

/-- Other names for its parameters leave a declaration with the same types. -/
theorem Written.respelled {ts us : List Token} {d : Declaration} (h : Written ts d)
    (hus : List.Forall₂ (Token.Alike (Declaration.paramNames ts)) ts us) (hnodup : ts.Nodup) :
    ∃ e : Declaration, Written us e ∧ e.unnamed = d.unnamed := by
  obtain ⟨type, name, opening, inner, closing, rest, rfl, hn, hopening, hclosing, hparen, hw,
    hname, henclosed⟩ := h
  rw [List.append_cons, paramNames_eq hopening (hw.no_opening hn) hclosing
    fun t ht => (hparen t ht).2] at hus
  rw [List.append_cons, List.append_cons] at hnodup
  rw [List.append_cons (type ++ [name])] at hus
  generalize hnames : (if isVoidList inner then [] else listedNames inner) = names at hus
  have hlisted : ∀ t ∈ names, isVoidList inner = false ∧ t ∈ listedNames inner := by
    intro t ht
    rw [← hnames] at ht
    split at ht
    · exact absurd ht List.not_mem_nil
    · next hvoid => exact ⟨by simpa using hvoid, ht⟩
  have hinside : ∀ t ∈ names, t ∈ inner := fun t ht => mem_of_mem_listedNames (hlisted t ht).2
  -- no token outside the parentheses is replaced
  obtain ⟨-, hbehind, hbefore⟩ := List.nodup_append.mp hnodup
  obtain ⟨hinnerNodup, -, hafter⟩ := List.nodup_append.mp hbehind
  have hfront : ∀ t ∈ type ++ [name] ++ [opening], t ∉ names := fun t ht hmem =>
    hbefore t ht t (by simp [hinside t hmem]) rfl
  have hback : closing ∉ names := fun hmem => hafter closing (hinside _ hmem) closing (by simp) rfl
  obtain ⟨front', back', rfl, hfront', hback'⟩ := forall₂_append_left hus
  obtain ⟨inner', last', rfl, hinner', hlast'⟩ := forall₂_append_left hback'
  obtain ⟨closing', rest', hc, -, rfl⟩ := List.forall₂_cons_left_iff.mp hlast'
  have hclosing' : closing'.shape = closing.shape := hc.resolve_right fun h => hback h.1
  obtain ⟨qs, henclosed', hqs⟩ := henclosed.respelled hinner' hinnerNodup
    fun t _ hmem => hlisted t hmem
  refine ⟨⟨d.returnType, name.lexeme, qs⟩, ?_, by simp [unnamed, hqs, hname]⟩
  exact written_of_shapes hw hn hopening (Token.shapes_of_alike hfront' hfront) henclosed'
    ((congrArg Prod.fst hclosing').trans hclosing)

theorem words_of_paramNames {body : String} {d : Declaration} (h : ofText body = .ok d) :
    ∀ t ∈ paramNames (Token.ofText body), t ∈ Token.ofText body ∧ Token.IsWord t.lexeme.toList := by
  intro t ht
  obtain ⟨hmem, hkind, -⟩ := ((ofText_eq_ok_iff_written body d).mp h).paramNames.1 t ht
  have hf := Token.ofText_formed body t hmem
  simp only [Token.Formed, hkind] at hf
  exact ⟨hmem, hf.1⟩

/-- A text with other names for parameters is read as the same declaration, apart from them. -/
theorem ofText_respelled {body body' : String} {d : Declaration} (h : ofText body = .ok d)
    (hbody : Token.Respelled (paramNames (Token.ofText body)) 0 body.toList body'.toList) :
    ∃ e : Declaration, ofText body' = .ok e ∧ e.unnamed = d.unnamed := by
  have hnames := words_of_paramNames h
  have halike := Token.ofText_respelled (fun t ht => (hnames t ht).1) (fun t ht => (hnames t ht).2)
    hbody
  have hw := (ofText_eq_ok_iff_written body d).mp h
  obtain ⟨e, he, hed⟩ := hw.respelled halike (Token.tokenization_ofText body).nodup
  exact ⟨e, (ofText_eq_ok_iff_written body' e).mpr he, hed⟩

end Declaration

end Bindery
