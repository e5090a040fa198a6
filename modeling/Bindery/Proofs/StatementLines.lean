import Bindery.Proofs.CallTexts

/-!
# Statement lines

A quote in a name is written behind a backslash, and so is a backslash, so the
quotes that end a literal are those with an even number of backslashes before
them. No name can therefore pass for the end of its literal, and a statement is
known from its lines.
-/

set_option autoImplicit false

namespace Bindery

/-! Escapes in a literal. -/

/-- The next character is escaped: the backslashes just before it are odd in number. -/
def Escaping (before : List Char) : Prop :=
  (before.reverse.takeWhile (· == '\\')).length % 2 = 1

instance (before : List Char) : Decidable (Escaping before) :=
  inferInstanceAs (Decidable (_ = _))

theorem not_escaping_nil : ¬Escaping [] := by
  decide

theorem escaping_concat (before : List Char) (c : Char) :
    Escaping (before ++ [c]) ↔ c = '\\' ∧ ¬Escaping before := by
  by_cases hc : c = '\\'
  · simp [Escaping, hc]
    omega
  · simp [Escaping, hc]

def unescaped : List Char → List Char
  | '\\' :: '"' :: cs => '"' :: unescaped cs
  | '\\' :: '\\' :: cs => '\\' :: unescaped cs
  | c :: cs => c :: unescaped cs
  | [] => []

theorem unescaped_plain {c : Char} (hc : c ≠ '\\') (cs : List Char) :
    unescaped (c :: cs) = c :: unescaped cs := by
  simp [unescaped, hc]

theorem unescaped_literalChars (cs : List Char) : unescaped (literalChars cs) = cs := by
  induction cs with
  | nil => rfl
  | cons c cs ih =>
    rw [literalChars]
    split
    case isTrue hc =>
      rcases hc with rfl | rfl <;> rw [unescaped, ih]
    case isFalse hc =>
      rw [unescaped_plain fun h => hc (.inr h), ih]

theorem not_escaping_literalChar {before : List Char} (h : ¬Escaping before) (c : Char) :
    ¬Escaping (before ++ literalChar c) := by
  rw [literalChar]
  split
  case isTrue hc =>
    rw [show ['\\', c] = ['\\'] ++ [c] from rfl, ← List.append_assoc, escaping_concat,
      escaping_concat]
    exact fun hesc => hesc.2 ⟨rfl, h⟩
  case isFalse hc =>
    rw [escaping_concat]
    exact fun hesc => hc (.inr hesc.1)

theorem not_escaping_literalChars {before : List Char} (h : ¬Escaping before) (cs : List Char) :
    ¬Escaping (before ++ literalChars cs) := by
  rw [literalChars_eq]
  induction cs generalizing before with
  | nil => rwa [List.flatMap_nil, List.append_nil]
  | cons c cs ih =>
    rw [List.flatMap_cons, ← List.append_assoc]
    exact ih (not_escaping_literalChar h c)

theorem quote_in_literalChar {c : Char} {u v : List Char} (h : literalChar c = u ++ '"' :: v) :
    u = ['\\'] := by
  rw [literalChar] at h
  split at h
  case isTrue hc =>
    rcases u with _ | ⟨d, _ | ⟨e, u⟩⟩
    · exact absurd (List.cons.inj h).1 (by decide)
    · rw [(List.cons.inj h).1]
    · simp at h
  case isFalse hc =>
    rcases u with _ | ⟨d, u⟩
    · exact absurd (.inl (List.cons.inj h).1) hc
    · simp at h

/-- Every quote among the characters of a literal is escaped. -/
theorem quote_in_literalChars {before cs u v : List Char} (h : ¬Escaping before)
    (hquote : literalChars cs = u ++ '"' :: v) : Escaping (before ++ u) := by
  rw [literalChars_eq] at hquote
  induction cs generalizing before u with
  | nil => simp at hquote
  | cons c cs ih =>
    have hnext := not_escaping_literalChar h c
    rw [List.flatMap_cons] at hquote
    -- the quote is the second of the two characters for `c`, or stands behind them
    rcases append_eq_append_cons hquote with ⟨w, hchar, -⟩ | ⟨w, rfl, hrest⟩
    · rw [quote_in_literalChar hchar, escaping_concat]
      exact ⟨rfl, h⟩
    · rw [← List.append_assoc]
      exact ih hnext hrest

namespace Statement

theorem calls_injective : Function.Injective calls := by
  intro s t h
  cases s <;> cases t <;> simp_all [calls]

theorem lines_injective : Function.Injective lines := by
  intro s t h
  exact calls_injective ((List.map_inj_right fun _ _ hc => Call.text_injective hc).mp h)

/-- Statements whose lines are the same are the same, whatever their names and symbols hold. The
text of a name is written as a literal that ends at the first quote which is not escaped, and it is
the name again once the escapes are undone. -/
theorem lines_unambiguous :
    (∀ s t : Statement, s.lines = t.lines → s = t) ∧
    ∀ name : String, ∃ body : List Char, (literal name).toList = '"' :: (body ++ ['"']) ∧
      (∀ before after, body = before ++ '"' :: after → Escaping before) ∧ ¬Escaping body ∧
      unescaped body = name.toList := by
  refine ⟨fun s t h => lines_injective h, fun name => ⟨literalChars name.toList, ?_, ?_, ?_, ?_⟩⟩
  · rw [literal, String.toList_ofList, List.cons_append]
  · exact fun before after hquote => quote_in_literalChars not_escaping_nil hquote
  · exact not_escaping_literalChars not_escaping_nil name.toList
  · exact unescaped_literalChars name.toList

/-- A symbol that looks like the end of a call, and a name that ends in backslashes. -/
theorem lines_unambiguous_lookalike :
    let c : Config := { wrapperPrefix := "f, 1);\n  duk_pop(ctx);\n  duk_push_c_function(ctx, " }
    let s := Statement.register (c.wrapperSymbol "g, 2") 3
    let t := Statement.register (c.wrapperPrefix ++ "g, 2") 3
    s.lines = t.lines ∧ s = t ∧
      ∃ body, (literal "\", a\\\\").toList = '"' :: (body ++ ['"']) ∧ ¬Escaping body ∧
        unescaped body = "\", a\\\\".toList := by
  intro c s t
  have hlines : s.lines = t.lines := by decide +kernel
  obtain ⟨body, hchars, -, hend, hback⟩ := lines_unambiguous.2 "\", a\\\\"
  exact ⟨hlines, lines_unambiguous.1 s t hlines, body, hchars, hend, hback⟩

end Statement

end Bindery
