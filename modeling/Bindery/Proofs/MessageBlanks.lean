import Bindery.Directive
import Bindery.Proofs.Grammar

/-!
# Blanks in messages

Words, marks and names hold no blanks, whatever the text is that they are read
from. So the only blank in the message about a directive is the space, and the
same holds of the name that a directive is read with.
-/

set_option autoImplicit false

namespace Bindery
open Bindery.Text

def Spaced (text : String) : Prop := ∀ c ∈ text.toList, isBlank c = true → c = ' '

instance (text : String) : Decidable (Spaced text) :=
  List.decidableBAll (fun c => isBlank c = true → c = ' ') text.toList

theorem spaced_append (s t : String) : Spaced (s ++ t) ↔ Spaced s ∧ Spaced t := by
  simp only [Spaced, String.toList_append, List.forall_mem_append]

theorem spaced_number (n : Nat) : Spaced (toString n) := by
  intro c hc hblank
  have hword := (Token.isWordChar_iff c).mpr (.inr (.inl (number_digits n c hc)))
  have hsolid := Token.wordChar_solid hword
  rw [hsolid] at hblank
  cases hblank

theorem spaced_of_solid {cs : List Char} (h : ∀ c ∈ cs, isBlank c = false) :
    Spaced (String.ofList cs) := by
  intro c hc hblank
  rw [String.toList_ofList] at hc
  rw [h c hc] at hblank
  cases hblank

theorem spaced_intercalate {sep : String} (hsep : Spaced sep) {ws : List String}
    (h : ∀ w ∈ ws, Spaced w) : Spaced (sep.intercalate ws) := by
  rw [Spaced, String.toList_intercalate]
  refine forall_mem_intercalate hsep fun w hw => ?_
  obtain ⟨v, hv, rfl⟩ := List.mem_map.mp hw
  exact h v hv

def Gives {ε α : Type} (value : α → Prop) (error : ε → Prop) : Except ε α → Prop
  | .ok a => value a
  | .error e => error e

theorem Gives.bind {ε α β : Type} {value : α → Prop} {value' : β → Prop} {error : ε → Prop}
    {x : Except ε α} {f : α → Except ε β} (hx : Gives value error x)
    (hf : ∀ a, value a → Gives value' error (f a)) : Gives value' error (x >>= f) := by
  cases x with
  | error e => exact hx
  | ok a => exact hf a hx

theorem Gives.map {ε α β : Type} {value : α → Prop} {value' : β → Prop} {error : ε → Prop}
    {x : Except ε α} {f : α → β} (hx : Gives value error x) (hf : ∀ a, value a → value' (f a)) :
    Gives value' error (x.map f) := by
  cases x with
  | error e => exact hx
  | ok a => exact hf a hx

theorem Token.IsWord.spaced {name : String} (h : Token.IsWord name.toList) : Spaced name := by
  have hname := spaced_of_solid fun c hc => Token.wordChar_solid (h.2 c hc)
  rwa [String.ofList_toList] at hname

theorem Token.Formed.spaced {t : Token} (h : t.Formed) : Spaced t.lexeme := by
  rw [Token.Formed] at h
  split at h
  · exact Token.IsWord.spaced h.1
  case h_9 =>
    obtain ⟨c, hlexeme, -, hblank, -⟩ := h
    rw [hlexeme]
    exact spaced_of_solid (by simpa using hblank)
  all_goals
    rw [h]
    decide

namespace TypeExpr

def Clean (e : TypeExpr) : Prop := (∀ w ∈ e.base, Spaced w) ∧ Spaced e.indirection

theorem Clean.canonical {e : TypeExpr} (h : e.Clean) : Spaced e.canonical := by
  have hbase : Spaced (" ".intercalate e.base) := spaced_intercalate (by decide) h.1
  rw [TypeExpr.canonical]
  simp only [spaced_append]
  refine ⟨⟨?_, hbase⟩, h.2⟩
  split <;> decide

def Flaw.Clean : Flaw → Prop
  | .afterIndirection lexeme indirection => Spaced lexeme ∧ Spaced indirection
  | .unexpected lexeme => Spaced lexeme
  | .noName => True

theorem Flaw.Clean.detail {flaw : Flaw} (h : flaw.Clean) : Spaced flaw.detail := by
  cases flaw with
  | noName => exact (by decide : Spaced "missing type name")
  | _ =>
    unfold Flaw.detail
    simp only [Flaw.Clean] at h
    simp only [spaced_append, h, and_true]
    decide

namespace Reading

theorem mem_extendLast {text w : String} {ws : List String} (h : w ∈ extendLast text ws) :
    w = text ∨ w ∈ ws ∨ ∃ v ∈ ws, w = v ++ text := by
  fun_induction extendLast text ws with
  | case1 => simp_all
  | case2 v => simp_all
  | case3 v ws _ ih =>
    rcases List.mem_cons.mp h with rfl | h
    · simp
    · rcases ih h with rfl | h | ⟨u, hu, rfl⟩
      · exact .inl rfl
      · exact .inr (.inl (List.mem_cons_of_mem _ h))
      · exact .inr (.inr ⟨u, List.mem_cons_of_mem _ hu, rfl⟩)

theorem clean_joined {e : TypeExpr} {join : Bool} {text : String} (h : e.Clean)
    (htext : Spaced text) : (joined e join text).Clean := by
  refine ⟨?_, h.2⟩
  intro w hw
  rw [joined] at hw
  split at hw
  · rcases mem_extendLast hw with rfl | hw | ⟨v, hv, rfl⟩
    · exact htext
    · exact h.1 w hw
    · exact (spaced_append _ _).mpr ⟨h.1 v hv, htext⟩
  · rcases List.mem_append.mp hw with hw | hw
    · exact h.1 w hw
    · rw [List.mem_singleton.mp hw]
      exact htext

theorem clean_push {e : TypeExpr} {c : Char} (h : e.Clean)
    (hc : isBlank c = false) : TypeExpr.Clean { e with indirection := e.indirection.push c } := by
  refine ⟨h.1, ?_⟩
  rw [Spaced, String.toList_push, List.forall_mem_append]
  exact ⟨h.2, by simp [hc]⟩

theorem step_clean {r : Reading} {t : Token} (h : r.expr.Clean) (ht : t.Formed) :
    Gives (fun s => s.expr.Clean) Flaw.Clean (r.step t) := by
  have hlexeme := ht.spaced
  cases hkind : t.kind with
  | const =>
    simp only [step, hkind]
    exact h
  | pathSep =>
    simp only [step, hkind]
    exact clean_joined h (by decide)
  | star | amp =>
    simp only [step, hkind]
    exact clean_push h (by decide)
  | ident =>
    by_cases hpointer : r.expr.indirection = ""
    · simp only [step, hkind, hpointer, if_true]
      exact clean_joined h hlexeme
    · simp only [step, hkind, hpointer, if_false]
      exact ⟨hlexeme, h.2⟩
  | lparen | rparen | comma | other =>
    simp only [step, hkind]
    exact hlexeme

theorem run_clean {r : Reading} {ts : List Token} (h : r.expr.Clean) (hf : ∀ t ∈ ts, t.Formed) :
    Gives (fun s => s.expr.Clean) Flaw.Clean (r.run ts) := by
  induction ts generalizing r with
  | nil => exact h
  | cons t ts ih =>
    obtain ⟨ht, hts⟩ := List.forall_mem_cons.mp hf
    exact (step_clean h ht).bind fun s hs => ih hs hts

end Reading

theorem ofTokens_clean {ts : List Token} (hf : ∀ t ∈ ts, t.Formed) :
    Gives Clean Flaw.Clean (ofTokens ts) := by
  have hstart : Reading.start.expr.Clean :=
    ⟨fun w hw => absurd hw List.not_mem_nil, (by decide : Spaced "")⟩
  refine (Reading.run_clean hstart hf).bind fun r hr => ?_
  rw [Reading.finish]
  split
  · trivial
  · exact hr

end TypeExpr

def Fault.Clean : Fault → Prop
  | .unknownParameterType type param => Spaced type ∧ Spaced param
  | .unknownReturnType type => Spaced type
  | .malformedDeclaration detail => Spaced detail
  | .malformedNamespace detail => Spaced detail

theorem Fault.Clean.message {f : Fault} (h : f.Clean) : Spaced f.message := by
  cases f
  -- first the quoted texts, then the sentence around them
  all_goals
    unfold Fault.message
    simp only [Fault.Clean] at h
    simp only [spaced_append, h, and_true]
    decide

namespace Declaration

abbrev GivesClean {α : Type} (value : α → Prop) (x : Except Fault α) : Prop :=
  Gives value Fault.Clean x

def Flaw.Clean : Flaw → Prop
  | .nameExpected text => Spaced text
  | .noReturnType name => Spaced name
  | .noClosing name => Spaced name
  | .badType flaw => flaw.Clean
  | _ => True

theorem Flaw.Clean.detail {flaw : Flaw} (h : flaw.Clean) : Spaced flaw.detail := by
  cases flaw with
  | badType flaw => exact TypeExpr.Flaw.Clean.detail h
  | noOpening | nothingBeforeOpening =>
    unfold Flaw.detail
    decide
  | _ =>
    unfold Flaw.detail
    simp only [Flaw.Clean] at h
    simp only [spaced_append, spaced_number, h, and_true]
    decide

theorem flawed_clean {α : Type} {value : α → Prop} {flaw : Flaw} (h : flaw.Clean) :
    GivesClean value (flawed flaw) := h.detail

theorem readType_clean {ts : List Token} (hf : ∀ t ∈ ts, t.Formed) :
    GivesClean TypeExpr.Clean (readType ts) := by
  have hread := TypeExpr.ofTokens_clean hf
  rw [readType]
  cases hts : TypeExpr.ofTokens ts with
  | ok e =>
    rw [hts] at hread
    exact hread
  | error flaw =>
    rw [hts] at hread
    exact flawed_clean hread

theorem readParam_clean (position : Nat) {ts : List Token} (hf : ∀ t ∈ ts, t.Formed) :
    GivesClean (fun _ => True) (readParam position ts) := by
  rw [readParam]
  cases hlast : splitLast ts with
  | none => exact flawed_clean trivial
  | some cut =>
    obtain ⟨type, name⟩ := cut
    obtain rfl := (splitLast_eq_some_iff ts type name).mp hlast
    obtain ⟨htype, hname⟩ := List.forall_mem_append.mp hf
    simp only
    split
    · exact flawed_clean trivial
    · refine (readType_clean htype).bind fun e he => ?_
      split
      · trivial
      · exact ⟨he.canonical, (hname name (List.mem_singleton_self _)).spaced⟩

theorem readParts_clean (position : Nat) {parts : List (List Token)}
    (hf : ∀ p ∈ parts, ∀ t ∈ p, t.Formed) :
    GivesClean (fun _ => True) (readParts position parts) := by
  induction parts generalizing position with
  | nil => trivial
  | cons p ps ih =>
    obtain ⟨hp, hps⟩ := List.forall_mem_cons.mp hf
    exact (readParam_clean position hp).bind fun _ _ =>
      (ih (position + 1) hps).bind fun _ _ => trivial

theorem readParams_clean {ts : List Token} (hf : ∀ t ∈ ts, t.Formed) :
    GivesClean (fun _ => True) (readParams ts) := by
  rw [readParams]
  split
  · trivial
  · exact readParts_clean 1 fun p hp t ht => hf t (mem_of_mem_parts hp ht)

theorem readHead_clean {ts : List Token} (hf : ∀ t ∈ ts, t.Formed) :
    GivesClean (fun p => p.1.Clean ∧ Spaced p.2) (readHead ts) := by
  rw [readHead]
  cases hlast : splitLast ts with
  | none => exact flawed_clean trivial
  | some cut =>
    obtain ⟨type, name⟩ := cut
    obtain rfl := (splitLast_eq_some_iff ts type name).mp hlast
    obtain ⟨htype, hname⟩ := List.forall_mem_append.mp hf
    have hlexeme := (hname name (List.mem_singleton_self _)).spaced
    simp only
    split
    · exact flawed_clean hlexeme
    · split
      · exact flawed_clean hlexeme
      · exact (readType_clean htype).bind fun e he => ⟨he, hlexeme⟩

theorem ofTokens_clean {ts : List Token} (hf : ∀ t ∈ ts, t.Formed) :
    GivesClean (fun d => Spaced d.name) (ofTokens ts) := by
  rw [ofTokens]
  cases hopen : cutAt .lparen ts with
  | none => exact flawed_clean trivial
  | some cut =>
    obtain ⟨head, tail⟩ := cut
    obtain ⟨opening, rfl, -⟩ := (cutAt_eq_some_iff _ _ _ _).mp hopen
    obtain ⟨hhead, htail⟩ := List.forall_mem_append.mp hf
    refine (readHead_clean hhead).bind fun front hfront => ?_
    obtain ⟨e, name⟩ := front
    obtain ⟨he, hname⟩ := hfront
    cases hclose : cutAt .rparen tail with
    | none => exact flawed_clean hname
    | some cut =>
      obtain ⟨inner, rest⟩ := cut
      obtain ⟨closing, rfl, -⟩ := (cutAt_eq_some_iff _ _ _ _).mp hclose
      have hinner : ∀ t ∈ inner, t.Formed := fun t ht => htail t (by simp [ht])
      refine (readParams_clean hinner).bind fun params _ => ?_
      split
      · exact he.canonical
      · exact hname

end Declaration

theorem readSpaceName_clean (rest : String) :
    Gives Spaced Fault.Clean (readSpaceName rest) := by
  have hname : Spaced (String.ofList (firstWord rest.toList)) :=
    spaced_of_solid fun c hc => by simpa using List.mem_takeWhile_imp hc
  rw [readSpaceName]
  split
  · exact (by decide : Spaced NameFlaw.missing.detail)
  · split
    · exact hname
    · simp only [Gives, Fault.Clean, NameFlaw.detail, spaced_append, hname, and_true]
      decide

def Order.name : Order → String
  | .openSpace name => name
  | .declare d => d.name

theorem Directive.order_clean (d : Directive) :
    Gives (fun o => Spaced o.name) Fault.Clean d.order := by
  cases d with
  | space rest => exact (readSpaceName_clean rest).map fun name hname => hname
  | function rest =>
    exact (Declaration.ofTokens_clean (Token.ofText_formed rest)).map fun d hd => hd

end Bindery
