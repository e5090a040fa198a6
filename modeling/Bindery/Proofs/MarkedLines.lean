import Bindery.Proofs.JoinedSources
import Bindery.Proofs.TokenForm
import Mathlib.Data.String.Basic

/-!
# Marked lines

A line is a directive by the marker at its start. What stands behind the marker need not be blank:
the marker only must not run into a longer word, so a bracket or the end of the line may follow it
at once. A line without a mark is read as if it were empty.
-/

set_option autoImplicit false

namespace Bindery
open Bindery.Text

def Marks (marker : String) (text : List Char) (rest : String) : Prop :=
  marker ≠ "" ∧ text = marker.toList ++ rest.toList ∧
    ∀ a ∈ marker.toList.getLast?, ∀ b ∈ rest.toList.head?,
      ¬(isWordChar a = true ∧ isWordChar b = true)

def LineEnd (text : String) : Prop := text = "" ∨ ∃ below, text = "\n" ++ below

theorem runsOn_eq_false_iff (before after : List Char) :
    runsOn before after = false ↔ ∀ a ∈ before.getLast?, ∀ b ∈ after.head?,
      ¬(isWordChar a = true ∧ isWordChar b = true) := by
  rw [runsOn]
  cases before.getLast? <;> cases after.head? <;> simp

theorem afterMarker?_eq_some_iff {marker text rest : List Char} :
    afterMarker? marker text = some rest ↔
      marker ≠ [] ∧ text = marker ++ rest ∧ runsOn marker rest = false := by
  constructor
  · intro h
    rw [afterMarker?] at h
    split at h
    · cases h
    · next hmarker =>
      split at h
      · cases h
      · next found hfound =>
        split at h
        · cases h
        · next hword =>
          cases h
          exact ⟨hmarker, dropStart?_eq_some_iff.mp hfound, Bool.eq_false_iff.mpr hword⟩
  · rintro ⟨hmarker, rfl, hword⟩
    rw [afterMarker?, if_neg hmarker, dropStart?_append]
    exact if_neg (Bool.eq_false_iff.mp hword)

theorem marks_iff {marker : String} {text : List Char} {rest : String} :
    Marks marker text rest ↔ afterMarker? marker.toList text = some rest.toList := by
  rw [afterMarker?_eq_some_iff, Marks, runsOn_eq_false_iff, Ne, Ne, String.toList_eq_nil_iff]

theorem not_marks_iff {marker : String} {text : List Char} :
    (¬ ∃ rest, Marks marker text rest) ↔ afterMarker? marker.toList text = none := by
  rw [Option.eq_none_iff_forall_ne_some]
  constructor
  · intro h rest hrest
    exact h ⟨String.ofList rest, marks_iff.mpr (by rw [hrest, String.toList_ofList])⟩
  · rintro h ⟨rest, hrest⟩
    exact h _ (marks_iff.mp hrest)

theorem marks_of_blank {marker rest : String} (hmarker : marker ≠ "")
    (hrest : ∀ b ∈ rest.toList.head?, isBlank b = true) :
    Marks marker (marker.toList ++ rest.toList) rest := by
  refine ⟨hmarker, rfl, ?_⟩
  rintro a - b hb ⟨-, hword⟩
  have hblank := hrest b hb
  rw [Token.wordChar_solid hword] at hblank
  cases hblank

namespace Directive

theorem ofLine?_eq_space_iff (c : Config) (line rest : String) :
    ofLine? c line = some (.space rest) ↔ Marks c.namespaceMarker (trim line.toList) rest := by
  rw [marks_iff, ofLine?, ofChars?]
  cases afterMarker? c.namespaceMarker.toList (trim line.toList) with
  | some found => simp [String.ofList_eq]
  | none => simp

theorem ofLine?_eq_function_iff (c : Config) (line rest : String) :
    ofLine? c line = some (.function rest) ↔
      (¬ ∃ other, Marks c.namespaceMarker (trim line.toList) other) ∧
        Marks c.functionMarker (trim line.toList) rest := by
  rw [not_marks_iff, marks_iff, ofLine?, ofChars?]
  cases afterMarker? c.namespaceMarker.toList (trim line.toList) with
  | some found => simp
  | none => cases afterMarker? c.functionMarker.toList (trim line.toList) <;> simp [String.ofList_eq]

theorem ofLine?_eq_none_iff (c : Config) (line : String) :
    ofLine? c line = none ↔
      (¬ ∃ rest, Marks c.namespaceMarker (trim line.toList) rest) ∧
        ¬ ∃ rest, Marks c.functionMarker (trim line.toList) rest := by
  rw [not_marks_iff, not_marks_iff, ofLine?, ofChars?]
  cases afterMarker? c.namespaceMarker.toList (trim line.toList) <;> simp

end Directive

theorem ordersOf_without_line (c : Config) (origin head line tail : String) (hhead : Closed head)
    (htail : LineEnd tail) (hline : '\n' ∉ line.toList) (hnone : Directive.ofLine? c line = none) :
    ordersOf c origin (head ++ line ++ tail) = ordersOf c origin (head ++ tail) := by
  have htail' : ordersOf c origin (line ++ tail) = ordersOf c origin tail := by
    rcases htail with rfl | ⟨below, rfl⟩
    · rw [String.append_empty, ordersOf_unmarked c origin line hline hnone]
      rfl
    · have hempty : Directive.ofLine? c "" = none := Directive.ofChars?_nil c
      have hbelow := ordersOf_passed c origin "" below List.not_mem_nil hempty
      rw [String.empty_append] at hbelow
      rw [← String.append_assoc, ordersOf_passed c origin line below hline hnone, hbelow]
  rw [String.append_assoc, ordersOf_closed c origin head _ hhead, htail',
    ordersOf_closed c origin head tail hhead]

namespace Directive

/-- Recognition of a directive, for any line and any two markers: the namespace marker comes
first, a blank or the end of the line always suffices behind a marker, and so does everything else
that leaves it a word of its own. In every other case the line is passed over: it might as well be
empty, whatever run scans it. -/
theorem recognized_by_marker (c : Config) (line : String) :
    let text := trim line.toList
    (∀ rest, ofLine? c line = some (.space rest) ↔ Marks c.namespaceMarker text rest) ∧
    (∀ rest, ofLine? c line = some (.function rest) ↔
      (¬ ∃ other, Marks c.namespaceMarker text other) ∧ Marks c.functionMarker text rest) ∧
    (ofLine? c line = none ↔ (¬ ∃ rest, Marks c.namespaceMarker text rest) ∧
      ¬ ∃ rest, Marks c.functionMarker text rest) ∧
    (∀ marker rest : String, marker ≠ "" → text = marker.toList ++ rest.toList →
      (∀ b ∈ rest.toList.head?, isBlank b = true) → Marks marker text rest) ∧
    ∀ head tail : String, Closed head → LineEnd tail → '\n' ∉ line.toList →
      ofLine? c line = none → ∀ (r : Run) (read : ReadText) (origin : String),
        r.scan c read (.text origin (head ++ line ++ tail)) =
          r.scan c read (.text origin (head ++ tail)) := by
  intro text
  refine ⟨ofLine?_eq_space_iff c line, ofLine?_eq_function_iff c line, ofLine?_eq_none_iff c line,
    ?_, ?_⟩
  · intro marker rest hmarker htext hblank
    rw [htext]
    exact marks_of_blank hmarker hblank
  · intro head tail hhead htail hline hnone r read origin
    rw [Run.scan, Run.scan, Run.scanText, Run.scanText,
      ordersOf_without_line c origin head line tail hhead htail hline hnone]

theorem recognized_by_marker_in_text :
    let c : Config := {}
    let read : ReadText := fun _ => .error .notFound
    let marked := "  DFUNC void g(); "
    let line := "DFUNCTION int add(int a)"
    let head := "DFUNC void f();\n"
    let tail := "\nDFUNC void g();"
    c.functionMarker ≠ "" ∧ trim marked.toList = c.functionMarker.toList ++ " void g();".toList ∧
    (∀ b ∈ " void g();".toList.head?, isBlank b = true) ∧
    Marks c.functionMarker (trim marked.toList) " void g();" ∧
    Closed head ∧ LineEnd tail ∧ '\n' ∉ line.toList ∧ ofLine? c line = none ∧
    Run.start.scan c read (.text "a.cpp" (head ++ line ++ tail)) =
      Run.start.scan c read (.text "a.cpp" (head ++ tail)) := by
  intro c read marked line head tail
  have hmarker : c.functionMarker ≠ "" := by decide
  have htext : trim marked.toList = c.functionMarker.toList ++ " void g();".toList := by
    decide +kernel
  have hblank : ∀ b ∈ " void g();".toList.head?, isBlank b = true := by
    intro b hb
    have hfirst : " void g();".toList.head? = some ' ' := by decide
    rw [hfirst] at hb
    cases hb
    decide
  have hhead : Closed head := .inr ⟨"DFUNC void f();", rfl⟩
  have htail : LineEnd tail := .inr ⟨"DFUNC void g();", rfl⟩
  have hline : '\n' ∉ line.toList := by decide +kernel
  have hnone : ofLine? c line = none := by decide +kernel
  obtain ⟨-, -, -, hmarks, -⟩ := recognized_by_marker c marked
  obtain ⟨-, -, -, -, hpassed⟩ := recognized_by_marker c line
  exact ⟨hmarker, htext, hblank, hmarks _ _ hmarker htext hblank, hhead, htail, hline, hnone,
    hpassed head tail hhead htail hline hnone Run.start read "a.cpp"⟩

/-- What stands behind a marker need not be blank. A bracket may follow it, and such a line is read
as a declaration and may end the run; so may the end of the line, or a character of names that is
none of words. -/
theorem marker_without_blank :
    let c : Config := {}
    let read : ReadText := fun _ => .error .notFound
    let bracket := "DFUNC(void) f();"
    let bare := "DFUNC"
    let dollar := "// DUKTAPE_NAMESPACE$x"
    ofLine? c bracket = some (.function "(void) f();") ∧ isBlank '(' = false ∧
    (Run.start.scan c read (.text "a.cpp" bracket)).2 = some (.directive ⟨"a.cpp", 1⟩
      (.malformedDeclaration "missing return type and function name")) ∧
    ofLine? c bare = some (.function "") ∧
    ofLine? c dollar = some (.space "$x") ∧ isBlank '$' = false ∧
    (Run.start.scan c read (.text "a.cpp" dollar)).1.registration.active = .space "$x" := by
  decide +kernel

end Directive
end Bindery
