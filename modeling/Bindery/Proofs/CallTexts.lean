import Bindery.Cpp
import Bindery.Proofs.TokenForm

/-!
# Texts of engine calls

A word ends at the first character that no word holds, a number at the first
that is no digit, a literal at its quote. A call is told from the others by
what stands before its first name or number; a symbol has no quotes around
it, and is cut off from the right, at the last number. So a call is known
from its text, whatever its names hold, and the lines of a routine are those
of one list of calls alone.
-/

set_option autoImplicit false

namespace Bindery
open Bindery.Text

/-! Where a text ends. -/

/-- Texts that show their own end: each is known, and so is what follows it. -/
def Delimited {α : Type} (valid : α → Prop) (text : α → List Char) : Prop :=
  ∀ a b x y, valid a → valid b → text a ++ x = text b ++ y → a = b ∧ x = y

def Apart (u v : List Char) : Prop := ¬u <+: v ∧ ¬v <+: u

instance (u v : List Char) : Decidable (Apart u v) :=
  inferInstanceAs (Decidable (¬u <+: v ∧ ¬v <+: u))

theorem Apart.append_ne {u v : List Char} (h : Apart u v) (x y : List Char) :
    u ++ x ≠ v ++ y := by
  intro heq
  have hu : u <+: v ++ y := ⟨x, heq⟩
  have hv : v <+: v ++ y := ⟨y, rfl⟩
  rcases List.prefix_or_prefix_of_prefix hu hv with hpre | hpre
  · exact h.1 hpre
  · exact h.2 hpre

/-- A longest run of characters of one kind ends where another kind begins. -/
theorem run_cancel {p : Char → Bool} {u v x y : List Char} {c d : Char}
    (hu : ∀ a ∈ u, p a = true) (hv : ∀ a ∈ v, p a = true) (hc : p c = false) (hd : p d = false)
    (h : u ++ c :: x = v ++ d :: y) : u = v ∧ c = d ∧ x = y := by
  obtain ⟨hruns, hrest⟩ := longest_cancel hu hv (by simpa using hc) (by simpa using hd) h
  exact ⟨hruns, List.cons.inj hrest⟩

theorem number_injective {m n : Nat} (h : (toString m).toList = (toString n).toList) : m = n := by
  have hsame := congrArg (Nat.ofDigitChars 10 · 0) h
  simp only [Nat.toString_eq_repr, Nat.toList_repr] at hsame
  rwa [Nat.ofDigitChars_toDigits (by decide) (by decide),
    Nat.ofDigitChars_toDigits (by decide) (by decide)] at hsame

theorem number_cancel {m n : Nat} {x y : List Char} {c d : Char}
    (hc : c.isDigit = false) (hd : d.isDigit = false)
    (h : (toString m).toList ++ c :: x = (toString n).toList ++ d :: y) :
    m = n ∧ c = d ∧ x = y := by
  obtain ⟨hdigits, hrest⟩ := run_cancel (number_digits m) (number_digits n) hc hd h
  exact ⟨number_injective hdigits, hrest⟩

theorem number_cancel_right {m n : Nat} {x y : List Char} {c d : Char}
    (hc : c.isDigit = false) (hd : d.isDigit = false)
    (h : x ++ c :: (toString m).toList = y ++ d :: (toString n).toList) :
    x = y ∧ c = d ∧ m = n := by
  have hdigits : ∀ k : Nat, ∀ a ∈ (toString k).toList.reverse, a.isDigit = true :=
    fun k a ha => number_digits k a (List.mem_reverse.mp ha)
  have hreverse := congrArg List.reverse h
  simp only [List.reverse_append, List.reverse_cons, List.append_assoc,
    List.singleton_append] at hreverse
  obtain ⟨hnumbers, hsep, hrest⟩ := run_cancel (hdigits m) (hdigits n) hc hd hreverse
  exact ⟨List.reverse_inj.mp hrest, hsep, number_injective (List.reverse_inj.mp hnumbers)⟩

namespace Delimited
variable {α : Type} {valid : α → Prop} {text : α → List Char}

theorem of_eq (h : ∀ a b x y, valid a → valid b → text a ++ x = text b ++ y → a = b) :
    Delimited valid text := by
  intro a b x y ha hb heq
  have hsame := h a b x y ha hb heq
  subst hsame
  exact ⟨rfl, List.append_cancel_left heq⟩

theorem flatMap_cancel (h : Delimited valid text) {as bs : List α} {x y : List Char}
    (ha : ∀ a ∈ as, valid a) (hb : ∀ b ∈ bs, valid b)
    (hx : ∀ a, valid a → ∀ z, text a ++ z ≠ x) (hy : ∀ a, valid a → ∀ z, text a ++ z ≠ y)
    (heq : as.flatMap text ++ x = bs.flatMap text ++ y) : as = bs ∧ x = y := by
  induction as generalizing bs with
  | nil =>
    cases bs with
    | nil => exact ⟨rfl, heq⟩
    | cons b bs =>
      rw [List.flatMap_cons, List.append_assoc] at heq
      exact absurd heq.symm (hx b (hb b List.mem_cons_self) _)
  | cons a as ih =>
    cases bs with
    | nil =>
      rw [List.flatMap_cons, List.append_assoc] at heq
      exact absurd heq (hy a (ha a List.mem_cons_self) _)
    | cons b bs =>
      rw [List.flatMap_cons, List.flatMap_cons, List.append_assoc, List.append_assoc] at heq
      have hfirst := h a b _ _ (ha a List.mem_cons_self) (hb b List.mem_cons_self) heq
      have hrest := ih (fun c hc => ha c (List.mem_cons_of_mem _ hc))
        (fun c hc => hb c (List.mem_cons_of_mem _ hc)) hfirst.2
      exact ⟨by rw [hfirst.1, hrest.1], hrest.2⟩

end Delimited

/-! Quoted literals. -/

def literalChar (c : Char) : List Char := if c = '"' ∨ c = '\\' then ['\\', c] else [c]

theorem literalChars_eq (cs : List Char) : literalChars cs = cs.flatMap literalChar := by
  induction cs with
  | nil => rfl
  | cons c cs ih =>
    rw [literalChars, List.flatMap_cons, literalChar, ih]
    split <;> rfl

theorem literalChar_delimited : Delimited (fun _ => True) literalChar := by
  intro c d x y _ _ h
  -- a backslash that is written begins an escape, so the first character tells the two apart
  by_cases hc : c = '"' ∨ c = '\\' <;> by_cases hd : d = '"' ∨ d = '\\'
  · simpa [literalChar, hc, hd] using h
  · rw [literalChar, literalChar, if_pos hc, if_neg hd] at h
    exact absurd (.inr (List.cons.inj h).1.symm) hd
  · rw [literalChar, literalChar, if_neg hc, if_pos hd] at h
    exact absurd (.inr (List.cons.inj h).1) hc
  · simpa [literalChar, hc, hd] using h

theorem literalChar_ne_quote (c : Char) (z x : List Char) : literalChar c ++ z ≠ '"' :: x := by
  intro h
  by_cases hc : c = '"' ∨ c = '\\'
  · rw [literalChar, if_pos hc] at h
    exact absurd (List.cons.inj h).1 (by decide)
  · rw [literalChar, if_neg hc] at h
    exact hc (.inl (List.cons.inj h).1)

theorem literal_delimited : Delimited (fun _ => True) fun text => (literal text).toList := by
  intro s t x y _ _ h
  have hchars : ∀ text z, (literal text).toList ++ z =
      '"' :: (text.toList.flatMap literalChar ++ '"' :: z) := by
    intro text z
    simp [literal, literalChars_eq]
  rw [hchars, hchars] at h
  have hcut := literalChar_delimited.flatMap_cancel (fun _ _ => trivial) (fun _ _ => trivial)
    (fun c _ z => literalChar_ne_quote c z x) (fun c _ z => literalChar_ne_quote c z y)
    (List.cons.inj h).2
  exact ⟨String.toList_injective hcut.1, (List.cons.inj hcut.2).2⟩

/-! Engine calls. -/

namespace Call

def opening : Call → String
  | .pushGlobalObject => "duk_push_global_object(ctx);"
  | .pushString _ => "duk_push_string(ctx, "
  | .pushObject => "duk_push_object(ctx);"
  | .pushFunction _ _ => "duk_push_c_function(ctx, "
  | .getGlobalString _ => "duk_get_global_string(ctx, "
  | .putProp _ => "duk_put_prop(ctx, -"
  | .putPropString _ _ => "duk_put_prop_string(ctx, -"
  | .pop => "duk_pop(ctx);"

def ending : Call → String
  | .pushGlobalObject | .pushObject | .pop => ""
  | .pushString text => literal text ++ ");"
  | .pushFunction symbol arity => symbol ++ ", " ++ toString arity ++ ");"
  | .getGlobalString name => literal name ++ ");"
  | .putProp depth => toString depth ++ ");"
  | .putPropString depth name => toString depth ++ ", " ++ literal name ++ ");"

theorem text_eq (c : Call) : c.text = c.opening ++ c.ending := by
  unfold text opening ending
  cases c <;> simp only [String.append_assoc, String.append_empty]

theorem opening_apart {c d : Call} (h : c.opening ≠ d.opening) :
    Apart c.opening.toList d.opening.toList := by
  cases c <;> cases d <;> dsimp only [opening] at h ⊢ <;> first | decide | exact absurd rfl h

theorem opening_ending {c d : Call} (h : c.text = d.text) :
    c.opening = d.opening ∧ c.ending = d.ending := by
  have hchars := congrArg String.toList h
  rw [text_eq, text_eq, String.toList_append, String.toList_append] at hchars
  have hopening : c.opening = d.opening := by
    by_contra hne
    exact (opening_apart hne).append_ne _ _ hchars
  rw [hopening] at hchars
  exact ⟨hopening, String.toList_injective (List.append_cancel_left hchars)⟩

theorem literal_ending {m n : String} (h : literal m ++ ");" = literal n ++ ");") : m = n := by
  have hchars := congrArg String.toList h
  rw [String.toList_append, String.toList_append] at hchars
  exact (literal_delimited m n _ _ trivial trivial hchars).1

theorem function_ending {s t : String} {m n : Nat}
    (h : s ++ ", " ++ toString m ++ ");" = t ++ ", " ++ toString n ++ ");") : s = t ∧ m = n := by
  have hlast : ∀ (u : String) (k : Nat), u.toList ++ ", ".toList ++ (toString k).toList =
      (u.toList ++ [',']) ++ ' ' :: (toString k).toList := by
    have hcomma : ", ".toList = [',', ' '] := rfl
    intro u k
    simp only [hcomma, List.append_assoc, List.cons_append, List.nil_append]
  have hchars := congrArg String.toList h
  simp only [String.toList_append] at hchars
  have hcall := List.append_cancel_right hchars
  rw [hlast, hlast] at hcall
  obtain ⟨hsymbols, -, harities⟩ := number_cancel_right (by decide) (by decide) hcall
  exact ⟨String.toList_injective (List.append_cancel_right hsymbols), harities⟩

theorem prop_ending {m n : Nat} (h : toString m ++ ");" = toString n ++ ");") : m = n := by
  have hclose : ");".toList = [')', ';'] := rfl
  have hchars := congrArg String.toList h
  rw [String.toList_append, String.toList_append, hclose] at hchars
  exact (number_cancel (by decide) (by decide) hchars).1

theorem propString_ending {s t : String} {m n : Nat}
    (h : toString m ++ ", " ++ literal s ++ ");" = toString n ++ ", " ++ literal t ++ ");") :
    m = n ∧ s = t := by
  have hcomma : ", ".toList = [',', ' '] := rfl
  have hchars := congrArg String.toList h
  simp only [String.toList_append, List.append_assoc, hcomma, List.cons_append,
    List.nil_append] at hchars
  obtain ⟨hdepth, -, hrest⟩ := number_cancel (by decide) (by decide) hchars
  have hliterals := (List.cons.inj hrest).2
  exact ⟨hdepth, (literal_delimited s t _ _ trivial trivial hliterals).1⟩

theorem text_injective : Function.Injective text := by
  intro c d h
  obtain ⟨hopening, hending⟩ := opening_ending h
  cases c with
  | pushGlobalObject =>
    cases d with
    | pushGlobalObject => rfl
    | _ => simp [opening] at hopening
  | pushString s =>
    cases d with
    | pushString t => rw [literal_ending hending]
    | _ => simp [opening] at hopening
  | pushObject =>
    cases d with
    | pushObject => rfl
    | _ => simp [opening] at hopening
  | pushFunction symbol arity =>
    cases d with
    | pushFunction symbol' arity' =>
      obtain ⟨rfl, rfl⟩ := function_ending hending
      rfl
    | _ => simp [opening] at hopening
  | getGlobalString m =>
    cases d with
    | getGlobalString n => rw [literal_ending hending]
    | _ => simp [opening] at hopening
  | putProp depth =>
    cases d with
    | putProp depth' => rw [prop_ending hending]
    | _ => simp [opening] at hopening
  | putPropString depth m =>
    cases d with
    | putPropString depth' n =>
      obtain ⟨rfl, rfl⟩ := propString_ending hending
      rfl
    | _ => simp [opening] at hopening
  | pop =>
    cases d with
    | pop => rfl
    | _ => simp [opening] at hopening

end Call

namespace Routine

def calls (r : Routine) : List Call := r.statements.flatMap Statement.calls

theorem lines_calls (r : Routine) :
    r.statements.flatMap Statement.lines = r.calls.map Call.text :=
  List.map_flatMap.symm

theorem lines_eq_iff (r : Routine) (calls : List Call) :
    r.statements.flatMap Statement.lines = calls.map Call.text ↔ calls = r.calls := by
  rw [lines_calls, List.map_inj_right fun _ _ h => Call.text_injective h, eq_comm]

end Routine
end Bindery
