import Bindery.Format
import Bindery.Proofs.JsonText

/-!
# Bundles read back from JSON

The JSON of a bundle is read back as the bundle, whatever its names hold, and
so belongs to no other bundle. Only numbers are limited: the reader takes
them up to 64 bits.
-/

set_option autoImplicit false

namespace Bindery
open Json

structure Restores {α : Type} (read : Json → Option α) (v : Json) (x : α) : Prop where
  legible : Legible v
  reads : read v = some x

theorem legibleItems_map {α : Type} {form : α → Json} {xs : List α}
    (h : ∀ x ∈ xs, Legible (form x)) : LegibleItems (xs.map form) := by
  induction xs with
  | nil => trivial
  | cons x xs ih =>
    exact ⟨h x List.mem_cons_self, ih fun y hy => h y (List.mem_cons_of_mem _ hy)⟩

theorem restores_list {α : Type} {read : Json → Option α} {form : α → Json} {xs : List α}
    (h : ∀ x ∈ xs, Restores read (form x) x) :
    Restores (readList read) (.array (xs.map form)) xs where
  legible := legibleItems_map fun x hx => (h x hx).legible
  reads := readAll_map fun x hx => (h x hx).reads

theorem word?_nat {n : Nat} (h : n < UInt64.size) : word? (.nat n) = some n := if_pos h

/-! Which numbers a bundle may hold. -/

def Wrapper.FitsWords (w : Wrapper) : Prop := ∀ e ∈ w.extractions, e.slot < UInt64.size

def Statement.FitsWords : Statement → Prop
  | .register _ arity => arity < UInt64.size
  | _ => True

structure Bundle.FitsWords (b : Bundle) : Prop where
  wrappers : ∀ w ∈ b.wrappers, w.FitsWords
  statements : ∀ s ∈ b.routine.statements, s.FitsWords

instance (w : Wrapper) : Decidable w.FitsWords :=
  inferInstanceAs (Decidable (∀ e ∈ w.extractions, e.slot < UInt64.size))

instance (s : Statement) : Decidable s.FitsWords :=
  match s with
  | .register _ arity => inferInstanceAs (Decidable (arity < UInt64.size))
  | .activateGlobal => .isTrue trivial
  | .deactivate => .isTrue trivial
  | .defineSpace _ => .isTrue trivial
  | .activateSpace _ => .isTrue trivial
  | .bind _ => .isTrue trivial

instance (b : Bundle) : Decidable b.FitsWords :=
  decidable_of_iff ((∀ w ∈ b.wrappers, w.FitsWords) ∧ ∀ s ∈ b.routine.statements, s.FitsWords)
    ⟨fun h => ⟨h.1, h.2⟩, fun h => ⟨h.wrappers, h.statements⟩⟩

/-! Every record from its own form. -/

theorem Extraction.form_restores {e : Extraction} (h : e.slot < UInt64.size) :
    Restores ofForm? e.form e where
  legible := ⟨trivial, trivial, trivial⟩
  reads := by
    simp [ofForm?, form, record?, field?, List.lookup_cons, word?_nat h, ParamType.ofForm?_tag]

theorem Wrapper.form_restores {w : Wrapper} (h : w.FitsWords) : Restores ofForm? w.form w := by
  have hextractions := restores_list fun e he => Extraction.form_restores (h e he)
  constructor
  · exact ⟨trivial, trivial, trivial, hextractions.legible, trivial, trivial⟩
  · simp [ofForm?, form, record?, field?, List.lookup_cons, text?, hextractions.reads,
      ReturnType.ofForm?_tag]

theorem Statement.form_restores {s : Statement} (h : s.FitsWords) :
    Restores ofForm? s.form s := by
  cases s with
  | activateGlobal => exact ⟨⟨trivial, trivial⟩, rfl⟩
  | deactivate => exact ⟨⟨trivial, trivial⟩, rfl⟩
  | defineSpace name => exact ⟨⟨trivial, trivial, trivial⟩, rfl⟩
  | activateSpace name => exact ⟨⟨trivial, trivial, trivial⟩, rfl⟩
  | register wrapper arity =>
    refine ⟨⟨trivial, trivial, trivial, trivial⟩, ?_⟩
    have harity : arity < UInt64.size := h
    simp [ofForm?, form, op?, record?, field?, List.lookup_cons, text?, word?_nat harity]
  | bind name => exact ⟨⟨trivial, trivial, trivial⟩, rfl⟩

theorem Routine.form_restores {r : Routine} (h : ∀ s ∈ r.statements, s.FitsWords) :
    Restores ofForm? r.form r := by
  have hstatements := restores_list fun s hs => Statement.form_restores (h s hs)
  constructor
  · exact ⟨trivial, hstatements.legible, trivial⟩
  · simp [ofForm?, form, record?, field?, List.lookup_cons, text?, hstatements.reads]

namespace Bundle

theorem form_restores {b : Bundle} (h : b.FitsWords) : Restores ofForm? b.form b := by
  have hwrappers := restores_list fun w hw => Wrapper.form_restores (h.wrappers w hw)
  have hroutine := Routine.form_restores h.statements
  constructor
  · exact ⟨hwrappers.legible, hroutine.legible, trivial⟩
  · simp [ofForm?, form, record?, field?, List.lookup_cons, hwrappers.reads, hroutine.reads]

theorem ofJson?_json {b : Bundle} (h : b.FitsWords) : ofJson? b.json = some b := by
  have hform := form_restores h
  have htext := ofText?_pretty hform.legible "\n" (List.all_eq_true.mp (by decide))
  rw [ofJson?, json, htext, Option.bind_some, hform.reads]

end Bundle

namespace Format

/-- The JSON of a bundle is read back as the bundle, so no other bundle has it,
whatever the settings of either are. -/
theorem render_json_read_back {b : Bundle} (h : b.FitsWords) (c : Config) :
    Bundle.ofJson? (json.render c b) = some b ∧
      ∀ (c' : Config) (b' : Bundle), b'.FitsWords → json.render c b = json.render c' b' →
        b = b' := by
  have hread := Bundle.ofJson?_json h
  refine ⟨hread, fun c' b' h' htexts => ?_⟩
  have hsame : b.json = b'.json := htexts
  rw [hsame, Bundle.ofJson?_json h'] at hread
  exact (Option.some.inj hread).symm

def awkward : Bundle where
  wrappers :=
    [⟨"\\\"\n", "\u0000\u001f", "", [⟨UInt64.size - 1, .text⟩, ⟨0, .bool⟩], .void⟩,
      ⟨"", "é😀", "/", [], .int⟩]
  routine :=
    ⟨"\u007f\t",
      [.activateGlobal, .defineSpace "\"", .activateSpace "\\",
        .register "\\u0022" (UInt64.size - 1), .bind "\x08\x0c", .deactivate]⟩

theorem render_json_read_back_awkward :
    awkward.FitsWords ∧ Bundle.ofJson? (json.render {} awkward) = some awkward ∧
      json.render {} awkward ≠ json.render {} { awkward with wrappers := [] } := by
  have hfits : awkward.FitsWords := by decide
  obtain ⟨hread, hunique⟩ := render_json_read_back hfits {}
  refine ⟨hfits, hread, fun htexts => ?_⟩
  have hsame := hunique {} { awkward with wrappers := [] } (by decide) htexts
  exact absurd hsame (by decide)

end Format
end Bindery
