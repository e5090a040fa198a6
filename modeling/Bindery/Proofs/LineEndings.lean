import Bindery.Proofs.FailedScans
import Bindery.Proofs.SourceLines

/-!
# Line endings

Lines are read without the blanks around them, so a carriage return at the end
of a line belongs to no directive, whether it is the one that goes with the
newline or one of several. A run over sources whose lines end in a carriage
return and a newline is the run over the same sources with newlines alone.
-/

set_option autoImplicit false

namespace Bindery
namespace Text

def withReturns (cs : List Char) : List Char :=
  cs.flatMap fun c => if c = '\n' then ['\r', '\n'] else [c]

theorem withReturns_last {line : List Char} (h : '\n' ∉ line) : withReturns line = line := by
  induction line with
  | nil => rfl
  | cons c cs ih =>
    rw [List.mem_cons, not_or] at h
    obtain ⟨hc, hcs⟩ := h
    have hcs' := ih hcs
    rw [withReturns] at hcs' ⊢
    rw [List.flatMap_cons, hcs', if_neg (Ne.symm hc)]
    rfl

theorem withReturns_more {line : List Char} (rest : List Char) (h : '\n' ∉ line) :
    withReturns (line ++ '\n' :: rest) = (line ++ ['\r']) ++ '\n' :: withReturns rest := by
  have hline := withReturns_last h
  rw [withReturns] at hline ⊢
  rw [List.flatMap_append, hline, List.flatMap_cons, if_pos rfl, List.append_assoc]
  rfl

theorem splitOn_withReturns (cs : List Char) :
    ((withReturns cs).splitOn '\n').map trim = (cs.splitOn '\n').map trim := by
  induction cs using byLine with
  | last line hline => rw [withReturns_last hline]
  | more line rest hline ih =>
    have hreturn : '\n' ∉ line ++ ['\r'] := by simp [hline]
    rw [withReturns_more rest hline, List.splitOn_append_cons_self_of_not_mem hreturn,
      List.splitOn_append_cons_self_of_not_mem hline, List.map_cons, List.map_cons, ih,
      trim_append_blank (by decide)]

def returned (text : String) : String := String.ofList (withReturns text.toList)

example : returned "a\r\n\nb\r" = "a\r\r\n\r\nb\r" := by decide +kernel

end Text

open Bindery.Text

namespace Directive

theorem ofChars?_congr (c : Config) {line other : List Char} (h : trim line = trim other) :
    ofChars? c line = ofChars? c other := by
  rw [ofChars?, ofChars?, h]

theorem ofLines_congr (c : Config) (n : Nat) {ls ms : List (List Char)}
    (h : ls.map trim = ms.map trim) : ofLines c (numbered n ls) = ofLines c (numbered n ms) := by
  induction ls generalizing n ms with
  | nil => rw [List.map_eq_nil_iff.mp h.symm]
  | cons line ls ih =>
    obtain ⟨other, ms, rfl, hother, hms⟩ := List.map_eq_cons_iff.mp h.symm
    rw [numbered, numbered, ofLines_cons, ofLines_cons, ofChars?_congr c hother,
      ih (n + 1) hms.symm]

theorem ofSource_returned (c : Config) (source : String) :
    ofSource c (returned source) = ofSource c source := by
  rw [ofSource, ofSource, returned, String.toList_ofList, ofLines_splitOn, ofLines_splitOn]
  exact ofLines_congr c 1 (splitOn_withReturns source.toList)

end Directive

theorem ordersOf_returned (c : Config) (origin content : String) :
    ordersOf c origin (returned content) = ordersOf c origin content := by
  rw [ordersOf, ordersOf, Directive.ofSource_returned]

def Source.returned : Source → Source
  | .text origin content => .text origin (Text.returned content)
  | .file path => .file path

def returnedDisk (read : ReadText) : ReadText := fun path => (read path).map Text.returned

namespace Run

theorem scanText_returned (c : Config) (r : Run) (origin content : String) :
    r.scanText c origin (Text.returned content) = r.scanText c origin content := by
  rw [scanText, scanText, ordersOf_returned]

theorem scan_returned (c : Config) (read : ReadText) (r : Run) (s : Source) :
    r.scan c (returnedDisk read) s.returned = r.scan c read s := by
  cases s with
  | text origin content => exact scanText_returned c r origin content
  | file path =>
    rw [Source.returned, scan, scan, scanFile, scanFile, returnedDisk]
    cases read path with
    | error fault => rfl
    | ok content =>
      simp only [Except.map, scanText_returned]

theorem scanEach_returned (c : Config) (r : Run) (calls : List (ReadText × Source)) :
    r.scanEach c (calls.map fun call => (returnedDisk call.1, call.2.returned)) =
      r.scanEach c calls := by
  induction calls generalizing r with
  | nil => rfl
  | cons call calls ih =>
    rw [List.map_cons, scanEach_cons, scanEach_cons, scan_returned, ih]

/-- A carriage return before every newline of every source changes neither what becomes
of each scan nor what is reported and told to the log, and the run ends with the same
bundle. The sources may hold carriage returns of their own anywhere. -/
theorem line_endings_alike (c : Config) (calls : List (ReadText × Source)) :
    let plain := start.scanEach c calls
    let marked := start.scanEach c
      (calls.map fun call => (returnedDisk call.1, call.2.returned))
    marked.2 = plain.2 ∧ marked.1.report = plain.1.report ∧ marked.1.log = plain.1.log ∧
      marked.1.finish c = plain.1.finish c := by
  intro plain marked
  have hsame : marked = plain := scanEach_returned c start calls
  rw [hsame]
  exact ⟨rfl, rfl, rfl, rfl⟩

end Run
end Bindery
