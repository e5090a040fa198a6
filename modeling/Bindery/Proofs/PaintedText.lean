import Bindery.Diagnostic
import Bindery.Proofs.TokenForm

/-!
# Painted text

A terminal does not show a colour sequence: the escape character, a bracket, digits and the letter
`m`. A text without the escape character holds no part of one, whatever brackets, digits and letters
stand in it or next to it. So what is seen of a painted diagnostic is its plain form, and no colour
is still on where its message begins.
-/

set_option autoImplicit false

namespace Bindery
open Bindery.Text

def Inert (text : String) : Prop := '\x1b' ∉ text.toList

instance (text : String) : Decidable (Inert text) :=
  inferInstanceAs (Decidable ('\x1b' ∉ text.toList))

theorem inert_append (s t : String) : Inert (s ++ t) ↔ Inert s ∧ Inert t := by
  simp [Inert, not_or]

theorem inert_number (n : Nat) : Inert (toString n) := by
  intro hmem
  exact absurd (number_digits n '\x1b' hmem) (by decide)

namespace Terminal

inductive Signal where
  | shown (c : Char)
  | colour (digits : List Char)
  deriving DecidableEq, Repr

namespace Signal

def char? : Signal → Option Char
  | .shown c => some c
  | .colour _ => none

def digits? : Signal → Option (List Char)
  | .shown _ => none
  | .colour digits => some digits

theorem filterMap_char? (cs : List Char) : (cs.map shown).filterMap char? = cs := by
  rw [List.filterMap_map]
  exact congrFun List.filterMap_some_fun cs

theorem filterMap_digits? (cs : List Char) : (cs.map shown).filterMap digits? = [] := by
  rw [List.filterMap_map]
  exact List.filterMap_eq_nil_iff.mpr fun _ _ => rfl

end Signal

def IsNumber (digits : List Char) : Prop := digits ≠ [] ∧ ∀ c ∈ digits, c.isDigit = true

instance (digits : List Char) : Decidable (IsNumber digits) :=
  have : Decidable (∀ c ∈ digits, c.isDigit = true) :=
    List.decidableBAll (fun c => c.isDigit = true) digits
  inferInstanceAs (Decidable (digits ≠ [] ∧ _))

def sequence (digits : List Char) : List Char := '\x1b' :: '[' :: (digits ++ ['m'])

def sequence? : List Char → Option (List Char)
  | '\x1b' :: '[' :: cs =>
    let digits := cs.takeWhile Char.isDigit
    if digits ≠ [] ∧ (cs.dropWhile Char.isDigit).head? = some 'm' then some digits else none
  | _ => none

def signals : List Char → List Signal
  | [] => []
  | c :: cs =>
    match sequence? (c :: cs) with
    | some digits => .colour digits :: signals (cs.drop (digits.length + 2))
    | none => .shown c :: signals cs
termination_by cs => cs.length
decreasing_by
  · simp only [List.length_drop, List.length_cons]; omega
  · simp

def visible (text : String) : String :=
  String.ofList ((signals text.toList).filterMap Signal.char?)

def reset : List Char := ['0']

/-- Behind each colour a return to the default one follows before another colour or the end. -/
def Restored (s : List Signal) : Prop :=
  ∀ before digits after, s = before ++ .colour digits :: after → digits ≠ reset →
    ∃ (cs : List Char) (rest : List Signal), after = cs.map .shown ++ .colour reset :: rest

/-! Reading from the left. -/

theorem sequence?_eq_some_iff {cs digits : List Char} :
    sequence? cs = some digits ↔ IsNumber digits ∧ ∃ rest, cs = sequence digits ++ rest := by
  constructor
  · intro h
    unfold sequence? at h
    split at h
    case h_2 => cases h
    case h_1 cs =>
      obtain ⟨⟨hne, hend⟩, hdigits⟩ := Option.ite_none_right_eq_some.mp h
      obtain rfl := Option.some.inj hdigits
      obtain ⟨rest, hrest⟩ := List.head?_eq_some_iff.mp hend
      refine ⟨⟨hne, fun c hc => List.mem_takeWhile_imp hc⟩, rest, ?_⟩
      have hsplit := List.takeWhile_append_dropWhile (p := Char.isDigit) (l := cs)
      rw [hrest] at hsplit
      simp only [sequence, List.cons_append, List.append_assoc, List.nil_append, hsplit]
  · rintro ⟨⟨hne, hdigits⟩, rest, rfl⟩
    have hm : ('m' : Char).isDigit = false := by decide
    simp only [sequence, sequence?, List.cons_append, List.append_assoc, List.nil_append,
      takeWhile_stop hdigits hm, dropWhile_stop hdigits hm]
    simp [hne]

theorem signals_plain {c : Char} (hc : c ≠ '\x1b') (cs : List Char) :
    signals (c :: cs) = .shown c :: signals cs := by
  have hnone : sequence? (c :: cs) = none := by
    by_contra h
    obtain ⟨digits, hsome⟩ := Option.ne_none_iff_exists'.mp h
    obtain ⟨-, rest, hsplit⟩ := sequence?_eq_some_iff.mp hsome
    exact hc (List.cons.inj hsplit).1
  rw [signals, hnone]

theorem signals_sequence {digits : List Char} (h : IsNumber digits) (rest : List Char) :
    signals (sequence digits ++ rest) = .colour digits :: signals rest := by
  have hsome := sequence?_eq_some_iff.mpr ⟨h, rest, rfl⟩
  have hlength : ('[' :: (digits ++ ['m'])).length = digits.length + 2 := by simp
  rw [sequence, List.cons_append] at hsome ⊢
  rw [signals, hsome]
  simp only [← hlength, List.drop_left]

def Sends (text : String) (s : List Signal) : Prop :=
  ∀ rest, signals (text.toList ++ rest) = s ++ signals rest

theorem Sends.append {t u : String} {r s : List Signal} (ht : Sends t r) (hu : Sends u s) :
    Sends (t ++ u) (r ++ s) := by
  intro rest
  rw [String.toList_append, List.append_assoc, ht, hu, List.append_assoc]

theorem Sends.signals_eq {t : String} {s : List Signal} (h : Sends t s) :
    signals t.toList = s := by
  have hend := h []
  rwa [signals, List.append_nil, List.append_nil] at hend

theorem Sends.sequence {t : String} {digits : List Char} (h : t.toList = sequence digits)
    (hdigits : IsNumber digits) : Sends t [.colour digits] := by
  intro rest
  rw [h, signals_sequence hdigits, List.singleton_append]

theorem signals_inert {cs : List Char} (h : '\x1b' ∉ cs) (rest : List Char) :
    signals (cs ++ rest) = cs.map .shown ++ signals rest := by
  induction cs with
  | nil => rfl
  | cons c cs ih =>
    have hc : c ≠ '\x1b' := fun hesc => h (hesc ▸ List.mem_cons_self)
    rw [List.cons_append, signals_plain hc, ih (fun hmem => h (List.mem_cons_of_mem c hmem)),
      List.map_cons, List.cons_append]

theorem Sends.inert {t : String} (h : Inert t) : Sends t (t.toList.map .shown) :=
  signals_inert h

/-! Colours and the return to the default one. -/

theorem restored_shown (cs : List Char) : Restored (cs.map .shown) := by
  intro before digits after h
  have hmem : Signal.colour digits ∈ cs.map .shown := h ▸ by simp
  simp at hmem

theorem restored_span (digits cs : List Char) :
    Restored (.colour digits :: (cs.map .shown ++ [.colour reset])) := by
  intro before opening after h hopening
  cases before with
  | nil =>
    rw [← (List.cons.inj h).2]
    exact ⟨cs, [], rfl⟩
  | cons b before =>
    -- the only other sequence is the return itself
    have hmem : Signal.colour opening ∈ cs.map .shown ++ [.colour reset] :=
      (List.cons.inj h).2 ▸ by simp
    simp only [List.mem_append, List.mem_map, reduceCtorEq, and_false, exists_false, false_or,
      List.mem_singleton, Signal.colour.injEq] at hmem
    exact absurd hmem hopening

theorem Restored.append {r s : List Signal} (hr : Restored r) (hs : Restored s) :
    Restored (r ++ s) := by
  intro before digits after h hdigits
  -- the colour stands in the first part, with all that takes it back, or in the second
  rcases append_eq_append_cons h with ⟨rest, hw, rfl⟩ | ⟨mid, -, hrest⟩
  · obtain ⟨cs, more, rfl⟩ := hr before digits rest hw hdigits
    exact ⟨cs, more ++ s, by rw [List.append_assoc, List.cons_append]⟩
  · exact hs mid digits after hrest hdigits

def Paints (text seen : String) (colours : List (List Char)) : Prop :=
  ∃ s, Sends text s ∧ s.filterMap Signal.char? = seen.toList ∧
    s.filterMap Signal.digits? = colours ∧ Restored s

namespace Paints
variable {t u seen seen' : String} {colours colours' : List (List Char)}

theorem inert (h : Inert t) : Paints t t [] :=
  ⟨_, .inert h, Signal.filterMap_char? _, Signal.filterMap_digits? _, restored_shown _⟩

theorem append (ht : Paints t seen colours) (hu : Paints u seen' colours') :
    Paints (t ++ u) (seen ++ seen') (colours ++ colours') := by
  obtain ⟨r, hr, hseen, hcolours, hback⟩ := ht
  obtain ⟨s, hs, hseen', hcolours', hback'⟩ := hu
  refine ⟨r ++ s, hr.append hs, ?_, ?_, hback.append hback'⟩
  · rw [List.filterMap_append, hseen, hseen', String.toList_append]
  · rw [List.filterMap_append, hcolours, hcolours']

theorem painted {colour : String} {digits : List Char} (hcolour : colour.toList = sequence digits)
    (hdigits : IsNumber digits) (h : Inert t) :
    Paints (Diagnostic.painted colour t) t [digits, reset] := by
  have hback : Sends "\x1b[0m" [.colour reset] := .sequence rfl (by decide)
  refine ⟨_, ((Sends.sequence hcolour hdigits).append (.inert h)).append hback, ?_, ?_, ?_⟩
  · rw [List.filterMap_append, List.filterMap_append, Signal.filterMap_char?]
    exact List.append_nil _
  · rw [List.filterMap_append, List.filterMap_append, Signal.filterMap_digits?]
    rfl
  · exact restored_span digits t.toList

end Paints
end Terminal

theorem Location.inert_text {l : Location} (h : Inert l.origin) : Inert l.text := by
  rw [Location.text, inert_append, inert_append]
  exact ⟨⟨h, by decide⟩, inert_number l.line⟩

def Severity.digits : Severity → List Char
  | .error => ['3', '1']
  | .warning => ['3', '3']

namespace Diagnostic
open Terminal

def dimDigits : List Char := ['2']

def part {α : Type} (o : Option α) (text : α → String) : String := (o.map text).getD ""

def front (paint : String → String → String) (d : Diagnostic) : String :=
  part d.location (fun l => paint dim l.text ++ ": ") ++
    paint d.severity.colour d.severity.name ++
    part d.code (fun code => paint dim (codeText code)) ++ ": "

theorem text_eq (d : Diagnostic) : d.text = d.front (fun _ text => text) ++ d.message := by
  obtain ⟨severity, message, location, code⟩ := d
  cases location <;> cases code <;> rfl

theorem coloured_eq (d : Diagnostic) : d.coloured = d.front painted ++ d.message := by
  obtain ⟨severity, message, location, code⟩ := d
  cases location <;> cases code <;> rfl

theorem part_paints {α : Type} {o : Option α} {text seen : α → String}
    {colours : List (List Char)} (h : ∀ a ∈ o, Paints (text a) (seen a) colours) :
    Paints (part o text) (part o seen) (if o.isSome then colours else []) := by
  cases o with
  | none => exact .inert (t := "") (by decide)
  | some a => exact h a rfl

theorem location_paints {l : Location} (h : Inert l.origin) :
    Paints (painted dim l.text ++ ": ") (l.text ++ ": ") [dimDigits, reset] :=
  (Paints.painted rfl (by decide) (Location.inert_text h)).append (.inert (by decide))

theorem severity_paints (s : Severity) :
    Paints (painted s.colour s.name) s.name [s.digits, reset] := by
  cases s <;> exact .painted rfl (by decide) (by decide)

theorem code_paints {code : String} (h : Inert code) :
    Paints (painted dim (codeText code)) (codeText code) [dimDigits, reset] := by
  refine .painted rfl (by decide) ?_
  rw [codeText, inert_append, inert_append]
  exact ⟨⟨by decide, h⟩, by decide⟩

theorem front_paints {d : Diagnostic} (hlocation : ∀ l ∈ d.location, Inert l.origin)
    (hcode : ∀ code ∈ d.code, Inert code) :
    Paints (d.front painted) (d.front fun _ text => text)
      ((if d.location.isSome then [dimDigits, reset] else []) ++ [d.severity.digits, reset] ++
        (if d.code.isSome then [dimDigits, reset] else [])) := by
  have hplace := part_paints fun l hl => location_paints (hlocation l hl)
  have hmark := part_paints fun code hc => code_paints (hcode code hc)
  have hcolon : Paints ": " ": " [] := .inert (by decide)
  have hfront := ((hplace.append (severity_paints d.severity)).append hmark).append hcolon
  rwa [List.append_nil] at hfront

/-- Without its colour sequences the painted form of a diagnostic is the plain form. Each colour is
taken back before the next one and before the message begins; the place, the severity and the code
have one each. -/
theorem coloured_shows_text {d : Diagnostic} (hlocation : ∀ l ∈ d.location, Inert l.origin)
    (hcode : ∀ code ∈ d.code, Inert code) (hmessage : Inert d.message) :
    visible d.coloured = d.text ∧
    ∃ front, d.coloured = front ++ d.message ∧
      signals d.coloured.toList = signals front.toList ++ d.message.toList.map .shown ∧
      Restored (signals front.toList) ∧
      (signals front.toList).filterMap Signal.digits? =
        (if d.location.isSome then [dimDigits, reset] else []) ++ [d.severity.digits, reset] ++
          (if d.code.isSome then [dimDigits, reset] else []) := by
  obtain ⟨s, hs, hseen, hcolours, hback⟩ := front_paints hlocation hcode
  have hwhole := hs.append (.inert hmessage)
  rw [← coloured_eq] at hwhole
  refine ⟨?_, _, d.coloured_eq, ?_, ?_, ?_⟩
  · rw [visible, hwhole.signals_eq, List.filterMap_append, hseen, Signal.filterMap_char?,
      ← String.toList_append, String.ofList_toList, text_eq]
  · rw [hwhole.signals_eq, hs.signals_eq]
  · rwa [hs.signals_eq]
  · rw [hs.signals_eq, hcolours]

/-- Texts that hold all of a sequence but the escape character. -/
theorem coloured_shows_text_lookalike :
    let d : Diagnostic := ⟨.warning, "[0m is no colour", some ⟨"m[2m", 31⟩, some "1m["⟩
    d.text = "m[2m:31: warning[1m[]: [0m is no colour" ∧ visible d.coloured = d.text ∧
      ∃ front, d.coloured = front ++ "[0m is no colour" ∧ Restored (signals front.toList) ∧
        (signals front.toList).filterMap Signal.digits? =
          [['2'], ['0'], ['3', '3'], ['0'], ['2'], ['0']] := by
  intro d
  have hlocation : ∀ l ∈ d.location, Inert l.origin := by
    rintro l ⟨⟩
    decide
  have hcode : ∀ code ∈ d.code, Inert code := by
    rintro code ⟨⟩
    decide
  obtain ⟨hshown, front, hfront, -, hback, hcolours⟩ :=
    coloured_shows_text hlocation hcode (by decide)
  exact ⟨by decide +kernel, hshown, front, hfront, hback, hcolours⟩

end Diagnostic
end Bindery
