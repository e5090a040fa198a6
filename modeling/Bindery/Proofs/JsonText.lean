import Bindery.Json.Reader
import Bindery.Json.Writer
import Mathlib.Data.List.TakeWhile

/-!
# Written JSON is read back

The written form of a value is read back as that value, at any depth. Escaped
text gives back its characters and digits give back their number; the marks of
a written value are known without its line breaks, and the machine that takes
them puts the value together again.
-/

set_option autoImplicit false

namespace Bindery.Json
open Bindery.Text

/-! Text between quotes. -/

theorem hexValue?_hexDigit {n : Nat} (h : n < 16) : hexValue? (hexDigit n) = some n := by
  have hall : ∀ n < 16, hexValue? (hexDigit n) = some n := by decide
  exact hall n h

theorem digits?_escape {n : Nat} (h : n < 32) :
    digits? 16 ['0', '0', hexDigit (n / 16), hexDigit (n % 16)] = some n := by
  have hzero : hexValue? '0' = some 0 := by decide
  have hhigh : n / 16 < 16 := by omega
  have hlow : n % 16 < 16 := Nat.mod_lt _ (by decide)
  have hsum : n / 16 * 16 + n % 16 = n := by omega
  simp [digits?, digitsFrom?, hzero, hexValue?_hexDigit hhigh, hexValue?_hexDigit hlow, hhigh, hlow,
    hsum]

theorem readUnits_escapeChar (c : Char) (rest : List Char) :
    readUnits (escapeChar c ++ rest) = consUnit c.toNat (readUnits rest) := by
  -- the escapes with a letter compute; what remains is a number or the character itself
  unfold escapeChar
  split
  · next h => subst h; rfl
  next hquote =>
  split
  · next h => subst h; rfl
  next hslash =>
  split
  · next h => subst h; rfl
  split
  · next h => subst h; rfl
  split
  · next h => subst h; rfl
  split
  · next h => subst h; rfl
  split
  · next h => subst h; rfl
  split
  · next hsmall =>
    simp only [List.cons_append, List.nil_append]
    rw [readUnits, digits?_escape hsmall]
  · next hsmall =>
    rw [List.singleton_append, readUnits]
    · simp [hsmall, hslash]
    · exact hquote
    · intros
      contradiction
    · intros
      contradiction

theorem readUnits_escaped (cs rest : List Char) :
    readUnits (cs.flatMap escapeChar ++ '"' :: rest) = some (cs.map Char.toNat, rest) := by
  induction cs with
  | nil => rfl
  | cons c cs ih =>
    rw [List.flatMap_cons, List.append_assoc, readUnits_escapeChar, ih]
    rfl

theorem scalar?_toNat (c : Char) : scalar? c.toNat = some c := by
  have hvalid : c.toNat < 0xd800 ∨ 0xdfff < c.toNat ∧ c.toNat < 0x110000 := c.valid
  rw [scalar?, if_pos hvalid, Char.ofNat_toNat]

theorem joinUnits_toNat (cs : List Char) : joinUnits (cs.map Char.toNat) = some cs := by
  induction cs with
  | nil => rfl
  | cons c cs ih =>
    cases cs with
    | nil => simp [joinUnits, scalar?_toNat]
    | cons d cs =>
      rw [List.map_cons, List.map_cons] at *
      rw [joinUnits, scalar?_toNat, ih]
      rfl

theorem readText_written (s : String) (rest : List Char) :
    readText (s.toList.flatMap escapeChar ++ '"' :: rest) = some (s, rest) := by
  simp [readText, readUnits_escaped, joinUnits_toNat]

/-! Numbers. -/

theorem digitsFrom?_append (base start : Nat) (cs ds : List Char) :
    digitsFrom? base start (cs ++ ds) =
      (digitsFrom? base start cs).bind fun n => digitsFrom? base n ds := by
  induction cs generalizing start with
  | nil => rfl
  | cons c cs ih =>
    rw [List.cons_append, digitsFrom?, digitsFrom?]
    cases hexValue? c with
    | none => rfl
    | some d => by_cases hd : d < base <;> simp [hd, ih]

theorem digitsFrom?_digitChar {d : Nat} (start : Nat) (h : d < 10) :
    digitsFrom? 10 start [Nat.digitChar d] = some (start * 10 + d) := by
  have hvalue : hexValue? (Nat.digitChar d) = some d :=
    hexValue?_hexDigit (Nat.lt_trans h (by decide))
  simp [digitsFrom?, hvalue, h]

theorem digitsFrom?_toDigits (n : Nat) : digitsFrom? 10 0 (Nat.toDigits 10 n) = some n := by
  induction n using Nat.strongRecOn with
  | ind n ih =>
    rw [Nat.toDigits_eq_if (by decide)]
    split
    · next h => simpa using digitsFrom?_digitChar 0 h
    · next h =>
      have hlow : n % 10 < 10 := Nat.mod_lt _ (by decide)
      rw [digitsFrom?_append, ih (n / 10) (by omega), Option.bind_some,
        digitsFrom?_digitChar _ hlow]
      congr 1
      omega

theorem head?_toDigits {n : Nat} (h : 0 < n) : (Nat.toDigits 10 n).head? ≠ some '0' := by
  induction n using Nat.strongRecOn with
  | ind n ih =>
    rw [Nat.toDigits_eq_if (by decide)]
    split
    · next hsmall =>
      have hall : ∀ d < 10, 0 < d → [Nat.digitChar d].head? ≠ some '0' := by decide
      exact hall n hsmall h
    · next hlarge =>
      have hhigh := ih (n / 10) (by omega) (by omega)
      have hsome : Nat.toDigits 10 (n / 10) ≠ [] := Nat.toDigits_ne_nil
      obtain ⟨c, cs, hcs⟩ := List.exists_cons_of_ne_nil hsome
      rw [hcs] at hhigh ⊢
      exact hhigh

theorem isWhole_toDigits (n : Nat) : isWhole (Nat.toDigits 10 n) = true := by
  have hdigits : ∀ c ∈ Nat.toDigits 10 n, c.isDigit = true := fun c hc =>
    Nat.isDigit_of_mem_toDigits (by decide) (by decide) hc
  rcases Nat.eq_zero_or_pos n with rfl | hn
  · decide
  · have hhead := head?_toDigits hn
    rw [isWhole]
    cases hcs : Nat.toDigits 10 n with
    | nil => exact absurd hcs Nat.toDigits_ne_nil
    | cons c cs =>
      rw [hcs] at hdigits hhead
      have hrest : cs.dropWhile Char.isDigit = [] :=
        List.dropWhile_eq_nil_iff.mpr fun d hd => hdigits d (List.mem_cons_of_mem _ hd)
      rw [dropWhole?]
      · simp [dropDigits1?, hdigits c List.mem_cons_self, hrest]
      · intro rest hzero
        rw [hzero] at hhead
        exact hhead rfl

structure Atomic (cs : List Char) (v : Json) : Prop where
  ne_nil : cs ≠ []
  atomChars : ∀ c ∈ cs, isAtomChar c = true
  reads : atom? cs = some v

theorem atomic_null : Atomic ['n', 'u', 'l', 'l'] .null :=
  ⟨List.cons_ne_nil _ _, List.all_eq_true.mp (by decide), rfl⟩

theorem atomic_true : Atomic ['t', 'r', 'u', 'e'] (.bool true) :=
  ⟨List.cons_ne_nil _ _, List.all_eq_true.mp (by decide), rfl⟩

theorem atomic_false : Atomic ['f', 'a', 'l', 's', 'e'] (.bool false) :=
  ⟨List.cons_ne_nil _ _, List.all_eq_true.mp (by decide), rfl⟩

theorem atomic_toDigits (n : Nat) : Atomic (Nat.toDigits 10 n) (.nat n) where
  ne_nil := Nat.toDigits_ne_nil
  atomChars c hc := by
    have hdigit := Nat.isDigit_of_mem_toDigits (by decide) (by decide) hc
    simp [isAtomChar, Char.isAlphanum, hdigit]
  reads := by
    rw [atom?, if_pos (isWhole_toDigits n), digits?, if_neg Nat.toDigits_ne_nil,
      digitsFrom?_toDigits, Option.map_some]

/-! Marks. -/

mutual

def marksOf : Json → List Mark
  | .text s => [.text s]
  | .array [] => [.openArray, .closeArray]
  | .array (v :: vs) => .openArray :: marksOf v ++ itemMarks vs ++ [.closeArray]
  | .object [] => [.openObject, .closeObject]
  | .object ((k, v) :: fs) =>
    .openObject :: .text k :: .colon :: marksOf v ++ fieldMarks fs ++ [.closeObject]
  | v => [.atom v]

def itemMarks : List Json → List Mark
  | [] => []
  | v :: vs => .comma :: marksOf v ++ itemMarks vs

def fieldMarks : List (String × Json) → List Mark
  | [] => []
  | (k, v) :: fs => .comma :: .text k :: .colon :: marksOf v ++ fieldMarks fs

end

mutual

def Legible : Json → Prop
  | .number written => Atomic written.toList (.number written)
  | .array vs => LegibleItems vs
  | .object fs => LegibleFields fs
  | _ => True

def LegibleItems : List Json → Prop
  | [] => True
  | v :: vs => Legible v ∧ LegibleItems vs

def LegibleFields : List (String × Json) → Prop
  | [] => True
  | (_, v) :: fs => Legible v ∧ LegibleFields fs

end

theorem marks_space {c : Char} (h : isSpace c = true) (rest : List Char) :
    marks (c :: rest) = marks rest := by
  rw [marks, if_pos h]

theorem marks_spaces {cs : List Char} (h : ∀ c ∈ cs, isSpace c = true) (rest : List Char) :
    marks (cs ++ rest) = marks rest := by
  induction cs with
  | nil => rfl
  | cons c cs ih =>
    rw [List.cons_append, marks_space (h c List.mem_cons_self)]
    exact ih fun d hd => h d (List.mem_cons_of_mem _ hd)

theorem marks_lineBreak (depth : Nat) (rest : List Char) :
    marks (lineBreak depth ++ rest) = marks rest := by
  refine marks_spaces (fun c hc => ?_) rest
  rcases List.mem_cons.mp hc with rfl | hc
  · decide
  · rw [List.eq_of_mem_replicate hc]
    decide

theorem marks_punctuation {c : Char} {m : Mark} (h : punctuation? c = some m) (rest : List Char) :
    marks (c :: rest) = (marks rest).map (m :: ·) := by
  have hkinds : isSpace c = false ∧ c ≠ '"' ∧ isAtomChar c = false := by
    unfold punctuation? at h
    split at h <;> first | exact ⟨by decide, by decide, by decide⟩ | cases h
  obtain ⟨hspace, hquote, hatom⟩ := hkinds
  rw [marks, if_neg (by simp [hspace]), if_neg hquote, if_neg (by simp [hatom]), h]
  exact (Option.map_eq_bind ..).symm

theorem marks_text (s : String) (rest : List Char) :
    marks (writeText s ++ rest) = (marks rest).map (.text s :: ·) := by
  have hread := readText_written s rest
  have hchars : writeText s ++ rest = '"' :: (s.toList.flatMap escapeChar ++ '"' :: rest) := by
    simp [writeText]
  rw [hchars, marks, if_neg (by decide), if_pos rfl]
  split
  · next hnone =>
    rw [hread] at hnone
    cases hnone
  · next hsome =>
    rw [hread] at hsome
    cases hsome
    rfl

theorem atomChar_solid {c : Char} (h : isAtomChar c = true) : isSpace c = false ∧ c ≠ '"' := by
  constructor
  · by_contra hspace
    simp only [isSpace, Bool.not_eq_false, Bool.or_eq_true, beq_iff_eq] at hspace
    rcases hspace with ((rfl | rfl) | rfl) | rfl <;> exact absurd h (by decide)
  · rintro rfl
    exact absurd h (by decide)

def Follows (rest : List Char) : Prop := rest.head?.any isAtomChar = false

theorem marks_atom {cs : List Char} {v : Json} (h : Atomic cs v) {rest : List Char}
    (hrest : Follows rest) :
    marks (cs ++ rest) = (marks rest).map (.atom v :: ·) := by
  obtain ⟨c, ds, rfl⟩ := List.exists_cons_of_ne_nil h.ne_nil
  obtain ⟨hspace, hquote⟩ := atomChar_solid (h.atomChars c List.mem_cons_self)
  have hds : ∀ d ∈ ds, isAtomChar d = true := fun d hd => h.atomChars d (List.mem_cons_of_mem _ hd)
  have hstop : rest.takeWhile isAtomChar = [] ∧ rest.dropWhile isAtomChar = rest := by
    cases rest with
    | nil => exact ⟨rfl, rfl⟩
    | cons r rest =>
      have hr : isAtomChar r = false := hrest
      simp [hr]
  rw [List.cons_append, marks, if_neg (by simp [hspace]), if_neg hquote,
    if_pos (h.atomChars c List.mem_cons_self), List.takeWhile_append_of_pos hds,
    List.dropWhile_append_of_pos hds, hstop.1, hstop.2, List.append_nil, h.reads]
  exact (Option.map_eq_bind ..).symm

theorem follows_lineBreak (depth : Nat) (rest : List Char) : Follows (lineBreak depth ++ rest) :=
  rfl

theorem Follows.items {rest : List Char} (h : Follows rest) (depth : Nat) (vs : List Json) :
    Follows (writeItems depth vs ++ rest) := by
  cases vs with
  | nil => exact h
  | cons v vs => rfl

theorem Follows.fields {rest : List Char} (h : Follows rest) (depth : Nat)
    (fs : List (String × Json)) : Follows (writeFields depth fs ++ rest) := by
  cases fs with
  | nil => exact h
  | cons f fs => rfl

mutual

theorem marks_write (depth : Nat) (v : Json) (hv : Legible v) {rest : List Char}
    (hrest : Follows rest) :
    marks (write depth v ++ rest) = (marks rest).map (marksOf v ++ ·) := by
  match v with
  | .null => exact marks_atom atomic_null hrest
  | .bool true => exact marks_atom atomic_true hrest
  | .bool false => exact marks_atom atomic_false hrest
  | .nat n => exact marks_atom (atomic_toDigits n) hrest
  | .number written => exact marks_atom hv hrest
  | .text s => exact marks_text s rest
  | .array [] =>
    simp only [write, List.cons_append, List.nil_append]
    rw [marks_punctuation (m := .openArray) rfl, marks_punctuation (m := .closeArray) rfl,
      Option.map_map]
    rfl
  | .array (w :: vs) =>
    have hclose := follows_lineBreak depth (']' :: rest)
    simp only [write, List.cons_append, List.append_assoc, List.nil_append]
    rw [marks_punctuation (m := .openArray) rfl, marks_lineBreak,
      marks_write (depth + 1) w hv.1 (hclose.items ..),
      marks_writeItems (depth + 1) vs hv.2 hclose, marks_lineBreak,
      marks_punctuation (m := .closeArray) rfl]
    simp [marksOf, Function.comp_def]
  | .object [] =>
    simp only [write, List.cons_append, List.nil_append]
    rw [marks_punctuation (m := .openObject) rfl, marks_punctuation (m := .closeObject) rfl,
      Option.map_map]
    rfl
  | .object ((k, w) :: fs) =>
    have hclose := follows_lineBreak depth ('\x7d' :: rest)
    simp only [write, List.cons_append, List.append_assoc, List.nil_append]
    rw [marks_punctuation (m := .openObject) rfl, marks_lineBreak, marks_text,
      marks_punctuation (m := .colon) rfl, marks_space (by decide),
      marks_write (depth + 1) w hv.1 (hclose.fields ..),
      marks_writeFields (depth + 1) fs hv.2 hclose, marks_lineBreak,
      marks_punctuation (m := .closeObject) rfl]
    simp [marksOf, Function.comp_def]

theorem marks_writeItems (depth : Nat) (vs : List Json) (hvs : LegibleItems vs) {rest : List Char}
    (hrest : Follows rest) :
    marks (writeItems depth vs ++ rest) = (marks rest).map (itemMarks vs ++ ·) := by
  match vs with
  | [] => simp [writeItems, itemMarks]
  | w :: vs =>
    simp only [writeItems, List.cons_append, List.append_assoc]
    rw [marks_punctuation (m := .comma) rfl, marks_lineBreak,
      marks_write depth w hvs.1 (hrest.items ..), marks_writeItems depth vs hvs.2 hrest]
    simp [itemMarks, Function.comp_def]

theorem marks_writeFields (depth : Nat) (fs : List (String × Json)) (hfs : LegibleFields fs)
    {rest : List Char} (hrest : Follows rest) :
    marks (writeFields depth fs ++ rest) = (marks rest).map (fieldMarks fs ++ ·) := by
  match fs with
  | [] => simp [writeFields, fieldMarks]
  | (k, w) :: fs =>
    simp only [writeFields, List.cons_append, List.append_assoc, List.nil_append]
    rw [marks_punctuation (m := .comma) rfl, marks_lineBreak, marks_text,
      marks_punctuation (m := .colon) rfl, marks_space (by decide),
      marks_write depth w hfs.1 (hrest.fields ..), marks_writeFields depth fs hfs.2 hrest]
    simp [fieldMarks, Function.comp_def]

end

/-! The machine. -/

namespace State

theorem run_step {s t : State} {m : Mark} (h : s.step m = some t) (ms : List Mark) :
    s.run (m :: ms) = t.run ms := by
  rw [run, h, Option.bind_some]

mutual

/-- The marks of a value leave it done, on top of what was open before. -/
theorem run_marksOf (v : Json) (opened : List Open) (mayClose : Bool) (rest : List Mark) :
    run (.value opened mayClose) (marksOf v ++ rest) = run (.done opened v) rest := by
  match v with
  | .null => rfl
  | .bool b => rfl
  | .nat n => rfl
  | .number written => rfl
  | .text s => rfl
  | .array [] => rfl
  | .array (w :: vs) =>
    simp only [marksOf, List.cons_append, List.append_assoc, List.nil_append]
    rw [run_step (t := .value (.array [] :: opened) true) rfl, run_marksOf w, run_itemMarks vs,
      List.nil_append]
  | .object [] => rfl
  | .object ((k, w) :: fs) =>
    simp only [marksOf, List.cons_append, List.append_assoc, List.nil_append]
    rw [run_step (t := .key opened [] true) rfl, run_step (t := .colon opened [] k) rfl,
      run_step (t := .value (.object [] k :: opened) false) rfl, run_marksOf w, run_fieldMarks fs,
      List.nil_append]

theorem run_itemMarks (vs : List Json) (opened : List Open) (items : List Json) (v : Json)
    (rest : List Mark) :
    run (.done (.array items :: opened) v) (itemMarks vs ++ .closeArray :: rest) =
      run (.done opened (.array (items ++ v :: vs))) rest := by
  match vs with
  | [] => rfl
  | w :: vs =>
    simp only [itemMarks, List.cons_append, List.append_assoc]
    rw [run_step (t := .value (.array (items ++ [v]) :: opened) false) rfl, run_marksOf w,
      run_itemMarks vs, List.append_assoc, List.singleton_append]

theorem run_fieldMarks (fs : List (String × Json)) (opened : List Open)
    (fields : List (String × Json)) (k : String) (v : Json) (rest : List Mark) :
    run (.done (.object fields k :: opened) v) (fieldMarks fs ++ .closeObject :: rest) =
      run (.done opened (.object (fields ++ (k, v) :: fs))) rest := by
  match fs with
  | [] => rfl
  | (l, w) :: fs =>
    simp only [fieldMarks, List.cons_append, List.append_assoc]
    rw [run_step (t := .key opened (fields ++ [(k, v)]) false) rfl,
      run_step (t := .colon opened (fields ++ [(k, v)]) l) rfl,
      run_step (t := .value (.object (fields ++ [(k, v)]) l :: opened) false) rfl, run_marksOf w,
      run_fieldMarks fs, List.append_assoc, List.singleton_append]

end

end State

/-- The text of a value is read back as the value, also with white space behind. -/
theorem ofText?_pretty {v : Json} (hv : Legible v) (tail : String)
    (htail : ∀ c ∈ tail.toList, isSpace c = true) : ofText? (v.pretty ++ tail) = some v := by
  have hfollows : Follows tail.toList := by
    rw [Follows, Option.any_eq_false]
    intro c hc
    have hspace := htail c (List.mem_of_head? hc)
    by_contra hatom
    rw [(atomChar_solid (by simpa using hatom)).1] at hspace
    cases hspace
  have hblank : marks tail.toList = some [] := by
    rw [← List.append_nil tail.toList, marks_spaces htail, marks]
  have hmarks : marks (v.pretty ++ tail).toList = some (marksOf v) := by
    rw [String.toList_append, pretty, String.toList_ofList, marks_write 0 v hv hfollows,
      hblank, Option.map_some, List.append_nil]
  have hrun : State.start.run (marksOf v) = some (.done [] v) := by
    have hvalue := State.run_marksOf v [] false []
    rwa [List.append_nil] at hvalue
  simp only [ofText?, hmarks, Option.bind_eq_bind, Option.bind_some, hrun, State.result?]

end Bindery.Json
