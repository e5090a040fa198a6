import Bindery.Proofs.CallTexts
import Bindery.Proofs.Grammar
import Bindery.Proofs.RegisteredWrappers
import Bindery.Proofs.SetupEffect

/-!
# C++ text tells bundles apart

The text of a bundle is cut from left to right. Each wrapper and each recorded
operation is known from its text, together with what follows it, and runs under
the same settings that give the same text give the same bundle. Prefixes may
hold anything, since both texts have them in the same places.
-/

set_option autoImplicit false

namespace Bindery
open Bindery.Text

/-! Names that the reader accepts. -/

def Order.Named : Order → Prop
  | .openSpace _ => True
  | .declare d => Token.IsWord d.name.toList

theorem Declaration.name_of_ofText {body : String} {d : Declaration} (h : ofText body = .ok d) :
    Token.IsWord d.name.toList ∧ ∀ first ∈ d.name.toList.head?, first.isDigit = false := by
  rw [ofText, ofTokens_eq_ok_iff] at h
  obtain ⟨head, tail, inner, rest, e, hopen, hhead, -⟩ := h
  obtain ⟨opening, hts, -, -⟩ := (cutAt_eq_some_iff _ _ _ _).mp hopen
  obtain ⟨type, t, rfl, hid, -, hname⟩ := (readHead_eq_ok_iff _ _ _).mp hhead
  have hformed : t.Formed := Token.ofText_formed body t (by simp [hts])
  obtain ⟨hkind, hdigit⟩ := (t.isIdentifier_iff hformed).mp hid
  rw [Token.Formed, hkind] at hformed
  rw [← hname]
  exact ⟨hformed.1, hdigit⟩

theorem Declaration.isWord_of_ofText {body : String} {d : Declaration}
    (h : ofText body = .ok d) : Token.IsWord d.name.toList := (name_of_ofText h).1

theorem Directive.order_eq_ok_iff {d : Directive} {o : Order} :
    d.order = .ok o ↔
      (∃ rest name, d = .space rest ∧ readSpaceName rest = .ok name ∧ o = .openSpace name) ∨
      ∃ rest e, d = .function rest ∧ Declaration.ofText rest = .ok e ∧ o = .declare e := by
  cases d with
  | space rest =>
    cases hname : readSpaceName rest <;> simp [order, Except.map, hname, eq_comm]
  | function rest =>
    cases hread : Declaration.ofText rest <;> simp [order, Except.map, hread, eq_comm]

theorem acceptedOf_named (c : Config) (read : ReadText) (ss : List Source) :
    ∀ o ∈ acceptedOf c read ss, o.Named := by
  intro o ho
  obtain ⟨d, hd⟩ := acceptedOf_read ho
  rcases Directive.order_eq_ok_iff.mp hd with ⟨_, _, _, _, rfl⟩ | ⟨_, _, _, hread, rfl⟩
  · trivial
  · exact Declaration.isWord_of_ofText hread

/-- The symbol of a wrapper ends where the native name does, whatever the prefix is. -/
theorem Config.wrapperSymbol_cancel {c : Config} {m n : String} {d : Char} {x y : List Char}
    (hm : Token.IsWord m.toList) (hn : Token.IsWord n.toList) (hd : isWordChar d = false)
    (h : (c.wrapperSymbol m).toList ++ d :: x = (c.wrapperSymbol n).toList ++ d :: y) :
    m = n ∧ x = y := by
  rw [wrapperSymbol_chars, wrapperSymbol_chars, List.append_assoc, List.append_assoc] at h
  have hnames := run_cancel hm.2 hn.2 hd hd (List.append_cancel_left h)
  exact ⟨String.toList_injective hnames.1, hnames.2.2⟩

/-! Wrappers. -/

def bodyLine (text : String) : List Char := "  ".toList ++ (text.toList ++ ['\n'])

theorem bodyLine_append (text : String) (x : List Char) :
    bodyLine text ++ x = "  ".toList ++ (text.toList ++ '\n' :: x) := by
  simp only [bodyLine, List.append_assoc, List.singleton_append]

theorem indented_chars (ls : List String) : (indented ls).toList = ls.flatMap bodyLine := by
  induction ls with
  | nil => rfl
  | cons l ls ih => simp [indented, bodyLine, ih]

theorem ParamType.spelling_apart {p q : ParamType} (h : p ≠ q) :
    Apart p.spelling.toList q.spelling.toList := by
  cases p <;> cases q <;> first | exact absurd rfl h | decide

theorem ReturnType.pusher_injective {r s : ReturnType} (h : r.pusher = s.pusher) : r = s := by
  cases r <;> cases s <;> first | rfl | exact absurd h (by decide)

theorem ReturnType.pusher_word {r : ReturnType} {pusher : String}
    (h : r.pusher = some pusher) : ∀ c ∈ pusher.toList, isWordChar c = true := by
  cases r <;> cases h <;> exact List.all_eq_true.mp (by decide)

theorem ParamType.spelling_word (p : ParamType) (x : List Char) : ∃ word rest,
    (∀ c ∈ word, isWordChar c = true) ∧ p.spelling.toList ++ ' ' :: x = word ++ ' ' :: rest := by
  cases p with
  | int => exact ⟨"int".toList, x, List.all_eq_true.mp (by decide), rfl⟩
  | text => exact ⟨"const".toList, "char* ".toList ++ x, List.all_eq_true.mp (by decide), rfl⟩
  | bool => exact ⟨"bool".toList, x, List.all_eq_true.mp (by decide), rfl⟩

namespace Extraction

theorem line_chars (e : Extraction) (x : List Char) : ∃ rest,
    bodyLine e.line ++ x = "  ".toList ++ (e.type.spelling.toList ++
      ' ' :: ("arg".toList ++ ((toString e.slot).toList ++ ' ' :: rest))) :=
  ⟨("= " ++ e.type.accessor ++ "(ctx, " ++ toString e.slot ++ ");").toList ++ '\n' :: x, by
    simp [bodyLine, line, localName]⟩

theorem line_delimited : Delimited (fun _ => True) fun e : Extraction => bodyLine e.line := by
  apply Delimited.of_eq
  intro e f x y _ _ h
  obtain ⟨xs, hx⟩ := line_chars e x
  obtain ⟨ys, hy⟩ := line_chars f y
  rw [hx, hy] at h
  have hwords := List.append_cancel_left h
  have htype : e.type = f.type := by
    by_contra hne
    exact (ParamType.spelling_apart hne).append_ne _ _ hwords
  rw [htype] at hwords
  have hlocals := (List.cons.inj (List.append_cancel_left hwords)).2
  have hslot := (number_cancel (by decide) (by decide) (List.append_cancel_left hlocals)).1
  cases e
  cases f
  cases htype
  cases hslot
  rfl

end Extraction

namespace Wrapper

def chars (w : Wrapper) : List Char := (w.cpp ++ "\n").toList

theorem chars_append (w : Wrapper) (x : List Char) : w.chars ++ x =
    "static duk_ret_t ".toList ++ (w.symbol.toList ++ '(' :: ("duk_context* ctx) \x7b\n".toList ++
      (w.extractions.flatMap (fun e => bodyLine e.line) ++ (bodyLine w.callLine ++
        (bodyLine ("return " ++ toString w.resultCount ++ ";") ++
          ("\x7d\n".toList ++ ("\n".toList ++ x))))))) := by
  have hopening : "(duk_context* ctx) \x7b\n".toList =
      '(' :: "duk_context* ctx) \x7b\n".toList := by decide
  unfold chars cpp bodyLines
  simp only [indented_chars, String.toList_append, List.append_assoc, List.flatMap_append,
    List.flatMap_map, List.flatMap_cons, List.flatMap_nil, List.append_nil, hopening,
    List.cons_append]

theorem call_chars (w : Wrapper) (x : List Char) : w.call.toList ++ x = w.callee.toList ++ '(' ::
    ((", ".intercalate (w.extractions.map Extraction.localName)).toList ++ ')' :: x) := by
  simp [call]

theorem passed_head (es : List Extraction) (x : List Char) :
    ((", ".intercalate (es.map Extraction.localName)).toList ++ ')' :: x).head? ≠ some 'c' := by
  cases es with
  | nil => simp
  | cons e es => cases es <;> simp [Extraction.localName, String.intercalate_cons_cons]

/-- A push is no native call, even of a function with the name of the engine's. -/
theorem push_ne_call {pusher : String} (hpusher : ∀ c ∈ pusher.toList, isWordChar c = true)
    {w : Wrapper} (hcallee : Token.IsWord w.callee.toList) (x y : List Char) :
    pusher.toList ++ '(' :: 'c' :: x ≠ w.call.toList ++ y := by
  intro h
  rw [call_chars] at h
  have hcut := run_cancel hpusher hcallee.2 (by decide) (by decide) h
  apply passed_head w.extractions y
  rw [← hcut.2.2, List.head?_cons]

theorem callLine_push {w : Wrapper} {pusher : String} (h : w.returns.pusher = some pusher)
    (x : List Char) : ∃ rest,
      bodyLine w.callLine ++ x = "  ".toList ++ (pusher.toList ++ '(' :: 'c' :: rest) := by
  unfold callLine
  rw [h]
  exact ⟨("tx, " ++ w.call ++ w.returns.resultSuffix ++ ");").toList ++ '\n' :: x, by
    simp [bodyLine]⟩

theorem callLine_call {w : Wrapper} (h : w.returns.pusher = none) (x : List Char) :
    bodyLine w.callLine ++ x = "  ".toList ++ (w.call.toList ++ ';' :: '\n' :: x) := by
  unfold callLine
  rw [h]
  simp [bodyLine]

theorem callLine_word {w : Wrapper} (hcallee : Token.IsWord w.callee.toList) (x : List Char) :
    ∃ word rest, (∀ c ∈ word, isWordChar c = true) ∧
      bodyLine w.callLine ++ x = "  ".toList ++ (word ++ '(' :: rest) := by
  cases h : w.returns.pusher with
  | none =>
    rw [callLine_call h, call_chars]
    exact ⟨w.callee.toList, _, hcallee.2, rfl⟩
  | some pusher =>
    obtain ⟨rest, hpush⟩ := callLine_push h x
    exact ⟨pusher.toList, 'c' :: rest, ReturnType.pusher_word h, hpush⟩

/-- Behind its first word, an argument is read into a local and a call is opened. -/
theorem line_ne_callLine (e : Extraction) {w : Wrapper} (hcallee : Token.IsWord w.callee.toList)
    (x y : List Char) : bodyLine e.line ++ x ≠ bodyLine w.callLine ++ y := by
  intro h
  obtain ⟨line, hline⟩ := e.line_chars x
  obtain ⟨word, rest, hword, hspelling⟩ := e.type.spelling_word _
  obtain ⟨called, after, hcalled, hcall⟩ := callLine_word hcallee y
  rw [hline, hspelling, hcall] at h
  have hcut := run_cancel hword hcalled (by decide) (by decide) (List.append_cancel_left h)
  exact absurd hcut.2.1 (by decide)

theorem returns_of_callLine {w v : Wrapper} (hw : Token.IsWord w.callee.toList)
    (hv : Token.IsWord v.callee.toList) {x y : List Char}
    (h : bodyLine w.callLine ++ x = bodyLine v.callLine ++ y) : w.returns = v.returns := by
  apply ReturnType.pusher_injective
  cases hp : w.returns.pusher with
  | none =>
    cases hq : v.returns.pusher with
    | none => rfl
    | some q =>
      obtain ⟨rest, hpush⟩ := callLine_push hq y
      rw [callLine_call hp, hpush] at h
      have hcall := List.append_cancel_left h
      exact absurd hcall.symm (push_ne_call (ReturnType.pusher_word hq) hw _ _)
  | some p =>
    obtain ⟨rest, hpush⟩ := callLine_push hp x
    rw [hpush] at h
    cases hq : v.returns.pusher with
    | none =>
      rw [callLine_call hq] at h
      have hcall := List.append_cancel_left h
      exact absurd hcall (push_ne_call (ReturnType.pusher_word hp) hv _ _)
    | some q =>
      obtain ⟨other, hpush'⟩ := callLine_push hq y
      rw [hpush'] at h
      have hcut := run_cancel (ReturnType.pusher_word hp) (ReturnType.pusher_word hq) (by decide)
        (by decide) (List.append_cancel_left h)
      rw [String.toList_injective hcut.1]

def Declared (c : Config) (w : Wrapper) : Prop :=
  ∃ d : Declaration, Token.IsWord d.name.toList ∧ w = ofDeclaration c d

theorem chars_delimited (c : Config) : Delimited (Declared c) chars := by
  apply Delimited.of_eq
  rintro _ _ x y ⟨d, hd, rfl⟩ ⟨e, he, rfl⟩ h
  rw [chars_append, chars_append] at h
  have hnames := Config.wrapperSymbol_cancel hd he (by decide) (List.append_cancel_left h)
  have hslots := Extraction.line_delimited.flatMap_cancel (fun _ _ => trivial)
    (fun _ _ => trivial) (fun f _ z => line_ne_callLine f hd z _)
    (fun f _ z => line_ne_callLine f he z _) (List.append_cancel_left hnames.2)
  have hextractions : extractionsFrom 0 d.params = extractionsFrom 0 e.params := hslots.1
  have hreturns : d.returnType = e.returnType := returns_of_callLine hd he hslots.2
  unfold ofDeclaration
  rw [hnames.1, hextractions, hreturns]

end Wrapper

/-! Setup routines. -/

def Call.chars (call : Call) : List Char := bodyLine call.text

theorem Call.pushString_chars (name : String) (x : List Char) :
    (pushString name).chars ++ x = "  ".toList ++ ("duk_push_string(ctx, ".toList ++
      ((literal name).toList ++ (");".toList ++ '\n' :: x))) := by
  unfold chars text
  simp only [bodyLine_append, String.toList_append, List.append_assoc]

theorem Call.pushFunction_chars (symbol : String) (arity : Nat) (x : List Char) :
    (pushFunction symbol arity).chars ++ x = "  ".toList ++
      ("duk_push_c_function(ctx, ".toList ++ (symbol.toList ++ ',' :: ' ' ::
        ((toString arity).toList ++ ')' :: ';' :: '\n' :: x))) := by
  have hcomma : ", ".toList = [',', ' '] := rfl
  have hclose : ");".toList = [')', ';'] := rfl
  unfold chars text
  simp only [bodyLine_append, String.toList_append, List.append_assoc, hcomma, hclose,
    List.cons_append, List.nil_append]

namespace Operation

def chars (op : Operation) : List Char := op.calls.flatMap Call.chars

theorem openSpace_chars (name : String) (x : List Char) : (openSpace name).chars ++ x =
    Call.pop.chars ++ (Call.pushGlobalObject.chars ++ ((Call.pushString name).chars ++
      ([.pushObject, .putProp 3, .pop, .getGlobalString name].flatMap Call.chars ++ x))) := by
  simp only [chars, calls, Registration.openingSpace, Statement.calls, List.flatMap_cons,
    List.flatMap_nil, List.cons_append, List.nil_append, List.append_assoc]

theorem bind_chars (wrapper name : String) (arity : Nat) (x : List Char) :
    (bind wrapper name arity).chars ++ x = (Call.pushFunction wrapper arity).chars ++
      ((Call.putPropString 2 name).chars ++ x) := by
  simp only [chars, calls, Registration.binding, Statement.calls, List.flatMap_cons,
    List.flatMap_nil, List.cons_append, List.nil_append, List.append_assoc]

def Ordered (c : Config) (op : Operation) : Prop := ∃ o : Order, o.Named ∧ op = o.operation c

theorem openSpace_ne_bind (space wrapper name : String) (arity : Nat) (x y : List Char) :
    (openSpace space).chars ++ x ≠ (bind wrapper name arity).chars ++ y := by
  intro h
  have hapart : Apart "duk_pop(ctx);".toList "duk_push_c_function(ctx, ".toList := by decide
  rw [openSpace_chars, bind_chars, Call.pushFunction_chars, Call.chars, bodyLine_append] at h
  exact hapart.append_ne _ _ (List.append_cancel_left h)

theorem openSpace_cancel {m n : String} {x y : List Char}
    (h : (openSpace m).chars ++ x = (openSpace n).chars ++ y) : m = n := by
  rw [openSpace_chars, openSpace_chars] at h
  have hnames := List.append_cancel_left (List.append_cancel_left h)
  rw [Call.pushString_chars, Call.pushString_chars] at hnames
  have hliterals := List.append_cancel_left (List.append_cancel_left hnames)
  exact (literal_delimited m n _ _ trivial trivial hliterals).1

theorem bind_cancel {c : Config} {d e : Declaration} (hd : Token.IsWord d.name.toList)
    (he : Token.IsWord e.name.toList) {x y : List Char}
    (h : ((Order.declare d).operation c).chars ++ x =
      ((Order.declare e).operation c).chars ++ y) : d.name = e.name ∧ d.arity = e.arity := by
  unfold Order.operation at h
  rw [bind_chars, bind_chars, Call.pushFunction_chars, Call.pushFunction_chars] at h
  have hsymbols := List.append_cancel_left (List.append_cancel_left h)
  have hnames := Config.wrapperSymbol_cancel hd he (by decide) hsymbols
  have harities := number_cancel (by decide) (by decide) (List.cons.inj hnames.2).2
  exact ⟨hnames.1, harities.1⟩

theorem chars_delimited (c : Config) : Delimited (Ordered c) chars := by
  apply Delimited.of_eq
  rintro _ _ x y ⟨o, ho, rfl⟩ ⟨p, hp, rfl⟩ h
  cases o with
  | openSpace m =>
    cases p with
    | openSpace n => rw [openSpace_cancel h]
    | declare e => exact (openSpace_ne_bind _ _ _ _ _ _ h).elim
  | declare d =>
    cases p with
    | openSpace n => exact (openSpace_ne_bind _ _ _ _ _ _ h.symm).elim
    | declare e =>
      have hparts := bind_cancel ho hp h
      rw [Order.operation, Order.operation, hparts.1, hparts.2]

theorem chars_ne_closing (c : Config) (op : Operation) (h : op.Ordered c) (x : List Char) :
    op.chars ++ x ≠ Call.pop.chars ++ "\x7d\n".toList := by
  intro heq
  obtain ⟨o, -, rfl⟩ := h
  cases o with
  | openSpace name =>
    have hapart : Apart "  ".toList "\x7d\n".toList := by decide
    rw [Order.operation, openSpace_chars] at heq
    have hrest := List.append_cancel_left heq
    rw [Call.chars, bodyLine_append, ← List.append_nil "\x7d\n".toList] at hrest
    exact hapart.append_ne _ _ hrest
  | declare d =>
    have hapart : Apart "duk_push_c_function(ctx, ".toList "duk_pop(ctx);".toList := by decide
    have hpop : Call.pop.chars ++ "\x7d\n".toList =
        "  ".toList ++ ("duk_pop(ctx);".toList ++ '\n' :: "\x7d\n".toList) := bodyLine_append _ _
    rw [Order.operation, bind_chars, Call.pushFunction_chars, hpop] at heq
    exact hapart.append_ne _ _ (List.append_cancel_left heq)

end Operation

/-! Bundles. -/

theorem Routine.cpp_chars (r : Routine) : r.cpp.toList = "void ".toList ++ (r.name.toList ++
    ("(duk_context* ctx) \x7b\n".toList ++ (r.calls.flatMap Call.chars ++ "\x7d\n".toList))) := by
  have hlines : (indented (r.statements.flatMap Statement.lines)).toList =
      r.calls.flatMap Call.chars := by
    rw [lines_calls, indented_chars, List.flatMap_map]
    rfl
  unfold cpp
  simp only [String.toList_append, List.append_assoc, hlines]

theorem Routine.calls_chars (name : String) (ops : List Operation) :
    (enclosing name (Registration.recorded ops).statements).calls.flatMap Call.chars =
      Call.pushGlobalObject.chars ++ (ops.flatMap Operation.chars ++ Call.pop.chars) := by
  rw [enclosing_calls, Registration.recorded_calls, List.flatMap_cons, List.flatMap_append,
    List.flatMap_assoc, List.flatMap_singleton]
  rfl

theorem Wrapper.chars_ne_routine (w : Wrapper) (x : List Char) (r : Routine) :
    w.chars ++ x ≠ r.cpp.toList := by
  have hapart : Apart "static duk_ret_t ".toList "void ".toList := by decide
  rw [chars_append, Routine.cpp_chars]
  exact hapart.append_ne _ _

theorem Bundle.cpp_chars (c : Config) (b : Bundle) : (b.cpp c).toList =
    (if c.banner then banner else "").toList ++
      (b.wrappers.flatMap Wrapper.chars ++ b.routine.cpp.toList) := by
  have hwrappers : ∀ ws, (wrappersCpp ws).toList = ws.flatMap Wrapper.chars := by
    intro ws
    induction ws with
    | nil => rfl
    | cons w ws ih =>
      rw [wrappersCpp, String.toList_append, ih]
      rfl
  unfold cpp
  simp only [String.toList_append, List.append_assoc, hwrappers]

namespace Run

theorem finish_declared (c : Config) (read : ReadText) (ss : List Source) (b : Bundle)
    (h : ((start.scanAll c read ss).1.finish c).1 = .ok b) : ∀ w ∈ b.wrappers, w.Declared c := by
  intro w hw
  rw [finish_wrappers c read ss b h] at hw
  obtain ⟨d, hd, rfl⟩ := List.mem_map.mp hw
  obtain ⟨o, ho, hdeclares⟩ := List.mem_filterMap.mp hd
  have hnamed := acceptedOf_named c read ss o ho
  cases o with
  | openSpace name => cases hdeclares
  | declare e =>
    cases hdeclares
    exact ⟨d, hnamed, rfl⟩

theorem finish_ordered (c : Config) (read : ReadText) (ss : List Source) (b : Bundle)
    (h : ((start.scanAll c read ss).1.finish c).1 = .ok b) : ∃ ops : List Operation,
      (∀ op ∈ ops, op.Ordered c) ∧
        b.routine = .enclosing c.initFunction (Registration.recorded ops).statements := by
  refine ⟨(acceptedOf c read ss).map (Order.operation c), ?_, ?_⟩
  · intro op hop
    obtain ⟨o, ho, rfl⟩ := List.mem_map.mp hop
    exact ⟨o, acceptedOf_named c read ss o ho, rfl⟩
  · rw [finish_registration c read ss b h, Registration.foldl_obey]
    rfl

/-- Runs under the same settings whose bundles have the same C++ text have the
same bundle, whatever the prefixes and the name of the setup function are. -/
theorem cpp_determines_bundle (c : Config) (read read' : ReadText) (ss ss' : List Source)
    (b b' : Bundle) (h : ((start.scanAll c read ss).1.finish c).1 = .ok b)
    (h' : ((start.scanAll c read' ss').1.finish c).1 = .ok b')
    (htext : b.cpp c = b'.cpp c) : b = b' := by
  obtain ⟨ops, hops, hroutine⟩ := finish_ordered c read ss b h
  obtain ⟨ops', hops', hroutine'⟩ := finish_ordered c read' ss' b' h'
  have hchars := congrArg String.toList htext
  rw [Bundle.cpp_chars, Bundle.cpp_chars] at hchars
  have hparts := (Wrapper.chars_delimited c).flatMap_cancel
    (finish_declared c read ss b h) (finish_declared c read' ss' b' h')
    (fun w _ z => Wrapper.chars_ne_routine w z b.routine)
    (fun w _ z => Wrapper.chars_ne_routine w z b'.routine) (List.append_cancel_left hchars)
  have hroutines := hparts.2
  rw [Routine.cpp_chars, Routine.cpp_chars, hroutine, hroutine', Routine.calls_chars,
    Routine.calls_chars, List.append_assoc, List.append_assoc, List.append_assoc,
    List.append_assoc] at hroutines
  -- both routines have the same name and begin with the same call
  have hcalls := List.append_cancel_left (List.append_cancel_left (List.append_cancel_left
    (List.append_cancel_left hroutines)))
  have hsame := (Operation.chars_delimited c).flatMap_cancel hops hops'
    (fun op hop z => Operation.chars_ne_closing c op hop z)
    (fun op hop z => Operation.chars_ne_closing c op hop z) hcalls
  calc
    b = ⟨b.wrappers, b.routine⟩ := rfl
    _ = ⟨b'.wrappers, b'.routine⟩ := by rw [hparts.1, hroutine, hroutine', hsame.1]
    _ = b' := rfl

/-- Names of the engine's calls and of types, and prefixes that look like the text itself. -/
theorem cpp_determines_bundle_respelled :
    let c : Config :=
      { wrapperPrefix := "f(duk_context* ctx) \x7b\n", initFunction := "(", onError := .skip }
    let read : ReadText := fun _ => .error .notFound
    let read' : ReadText := fun _ => .ok "// DUKTAPE_NAMESPACE $\nDFUNC int bool(const char * s);\n"
    let ss : List Source :=
      [.text "a.cpp" "DFUNC void duk_push_int(int a)\n// DUKTAPE_NAMESPACE $ app",
        .text "a.h" "DFUNC int bool(char const* t);"]
    let ss' : List Source :=
      [.text "b.cpp" "DFUNC float f()\nDFUNC void duk_push_int ( int b ) ;\n", .file "c.cpp"]
    ∃ b b', ((start.scanAll c read ss).1.finish c).1 = .ok b ∧
      ((start.scanAll c read' ss').1.finish c).1 = .ok b' ∧ b.wrappers.length = 2 ∧
        b.cpp c = b'.cpp c ∧ b = b' := by
  intro c read read' ss ss'
  have hok : (start.scanAll c read ss).1.aborted = false := by decide +kernel
  have hok' : (start.scanAll c read' ss').1.aborted = false := by decide +kernel
  have hb := (finish_eq_ok_iff c _ _).mpr ⟨hok, rfl⟩
  have hb' := (finish_eq_ok_iff c _ _).mpr ⟨hok', rfl⟩
  have hlength : ((start.scanAll c read ss).1.bundle c).wrappers.length = 2 := by decide +kernel
  have htext : ((start.scanAll c read ss).1.bundle c).cpp c =
      ((start.scanAll c read' ss').1.bundle c).cpp c := by decide +kernel
  exact ⟨_, _, hb, hb', hlength, htext, cpp_determines_bundle c read read' ss ss' _ _ hb hb' htext⟩

end Run
end Bindery
