import Bindery.Directive

/-!
# Lines of a source

A text is a line without a newline, or such a line, a newline and a further
text. The directives of a source are found along this shape. A carriage return
at the end of a line hides none of them, since lines are read without the
blanks around them.
-/

set_option autoImplicit false

namespace Bindery
namespace Text

/-- What holds of a last line, and of a text with one line more, holds of every text. -/
theorem byLine {P : List Char → Prop} (last : ∀ line, '\n' ∉ line → P line)
    (more : ∀ line rest, '\n' ∉ line → P rest → P (line ++ '\n' :: rest)) (cs : List Char) :
    P cs := by
  by_cases h : '\n' ∈ cs
  · obtain ⟨line, rest, hcs, hline⟩ := List.eq_append_cons_of_mem h
    rw [hcs]
    exact more line rest hline (byLine last more rest)
  · exact last cs h
termination_by cs.length
decreasing_by
  rw [hcs, List.length_append, List.length_cons]
  omega

def withoutReturn : List Char → List Char
  | [] => []
  | ['\r'] => []
  | c :: cs => c :: withoutReturn cs

theorem withoutReturn_cases (line : List Char) :
    withoutReturn line = line ∨ line = withoutReturn line ++ ['\r'] := by
  fun_induction withoutReturn line with
  | case1 => exact .inl rfl
  | case2 => exact .inr rfl
  | case3 c cs _ ih =>
    rcases ih with ih | ih
    · exact .inl (congrArg (c :: ·) ih)
    · exact .inr (congrArg (c :: ·) ih)

theorem lines_last {line : List Char} (h : '\n' ∉ line) :
    lines line = if line = [] then [] else [line] := by
  induction line with
  | nil => rfl
  | cons c cs ih =>
    rw [List.mem_cons, not_or] at h
    obtain ⟨hc, hcs⟩ := h
    rw [lines, ih hcs]
    · cases cs <;> simp [consHead]
    · exact fun heq => hc heq.symm
    · rintro rest - rfl
      exact hcs List.mem_cons_self

theorem lines_more {line : List Char} (rest : List Char) (h : '\n' ∉ line) :
    lines (line ++ '\n' :: rest) = withoutReturn line :: lines rest := by
  induction line with
  | nil => rfl
  | cons c cs ih =>
    rw [List.mem_cons, not_or] at h
    obtain ⟨hc, hcs⟩ := h
    by_cases hr : c = '\r' ∧ cs = []
    · obtain ⟨rfl, rfl⟩ := hr
      rfl
    · rw [List.cons_append, lines, ih hcs, consHead, withoutReturn]
      · rintro rfl rfl
        exact hr ⟨rfl, rfl⟩
      · exact fun heq => hc heq.symm
      · rintro tail rfl htail
        cases cs with
        | nil => exact hr ⟨rfl, rfl⟩
        | cons d cs =>
          obtain ⟨rfl, -⟩ := List.cons.inj htail
          exact hcs List.mem_cons_self

theorem trim_append_blank {c : Char} (h : isBlank c = true) (cs : List Char) :
    trim (cs ++ [c]) = trim cs := by
  have hdrop : dropBlank (cs ++ [c]) =
      if (dropBlank cs).isEmpty then [] else dropBlank cs ++ [c] := by
    rw [dropBlank, List.dropWhile_append]
    simp [dropBlank, h]
  rw [trim, trim, hdrop]
  cases hcs : dropBlank cs with
  | nil => rfl
  | cons d ds => simp [dropBlank_cons_blank h]

theorem trim_withoutReturn (line : List Char) : trim (withoutReturn line) = trim line := by
  rcases withoutReturn_cases line with h | h
  · rw [h]
  · have hblank := trim_append_blank (c := '\r') (by decide) (withoutReturn line)
    rw [← h] at hblank
    exact hblank.symm

def mapLines (f : List Char → List Char) (cs : List Char) : List Char :=
  ['\n'].intercalate ((cs.splitOn '\n').map f)

theorem mapLines_last (f : List Char → List Char) {line : List Char} (h : '\n' ∉ line) :
    mapLines f line = f line := by
  rw [mapLines, List.splitOn_eq_singleton h, List.map_singleton, List.intercalate_singleton]

theorem mapLines_more (f : List Char → List Char) {line : List Char} (rest : List Char)
    (h : '\n' ∉ line) : mapLines f (line ++ '\n' :: rest) = f line ++ '\n' :: mapLines f rest := by
  rw [mapLines, List.splitOn_append_cons_self_of_not_mem h, mapLines]
  obtain ⟨first, others, hrest⟩ := List.exists_cons_of_ne_nil (List.splitOn_ne_nil '\n' rest)
  rw [hrest, List.map_cons, List.map_cons, List.intercalate_cons_cons, List.append_assoc]
  rfl

end Text

namespace Directive
open Bindery.Text

theorem ofChars?_withoutReturn (c : Config) (line : List Char) :
    ofChars? c (withoutReturn line) = ofChars? c line := by
  rw [ofChars?, ofChars?, trim_withoutReturn]

theorem ofChars?_nil (c : Config) : ofChars? c [] = none := by
  have hnone : ∀ marker, afterMarker? marker [] = none := by
    intro marker
    cases marker <;> rfl
  have htrim : trim [] = [] := rfl
  rw [ofChars?, htrim, hnone, hnone]
  rfl

theorem ofLines_cons (c : Config) (n : Nat) (line : List Char) (ls : List (Nat × List Char)) :
    ofLines c ((n, line) :: ls) =
      ((ofChars? c line).map fun d => (n, d)).toList ++ ofLines c ls := by
  rw [ofLines]
  cases ofChars? c line <;> rfl

theorem ofLines_last (c : Config) (n : Nat) {line : List Char} (h : '\n' ∉ line) :
    ofLines c (numbered n (lines line)) = ((ofChars? c line).map fun d => (n, d)).toList := by
  rw [lines_last h]
  by_cases hnil : line = []
  · rw [if_pos hnil, hnil, ofChars?_nil]
    rfl
  · rw [if_neg hnil, numbered, numbered, ofLines_cons]
    exact List.append_nil _

theorem ofLines_more (c : Config) (n : Nat) {line : List Char} (rest : List Char)
    (h : '\n' ∉ line) :
    ofLines c (numbered n (lines (line ++ '\n' :: rest))) =
      ((ofChars? c line).map fun d => (n, d)).toList ++
        ofLines c (numbered (n + 1) (lines rest)) := by
  rw [lines_more rest h, numbered, ofLines_cons, ofChars?_withoutReturn]

theorem ofLines_splitOn (c : Config) (n : Nat) (cs : List Char) :
    ofLines c (numbered n (lines cs)) = ofLines c (numbered n (cs.splitOn '\n')) := by
  induction cs using byLine generalizing n with
  | last line hline =>
    rw [ofLines_last c n hline, List.splitOn_eq_singleton hline, numbered, numbered, ofLines_cons]
    exact (List.append_nil _).symm
  | more line rest hline ih =>
    rw [ofLines_more c n rest hline, List.splitOn_append_cons_self_of_not_mem hline, numbered,
      ofLines_cons, ih]

end Directive
end Bindery
