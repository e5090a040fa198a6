import Bindery.Proofs.CppText
import Mathlib.Data.List.Nodup

/-!
# The native call of a wrapper

A wrapper declares a local for each argument and then passes every local once. Inside it
a native function is found by its name unless a name of the wrapper itself hides it. The
names of native functions are taken as they are written, so one that is called like the
engine's context or like one of the locals is hidden.
-/

set_option autoImplicit false

namespace Bindery
open Bindery.Text

def declaredName? (line : String) : Option String :=
  if '=' ∈ line.toList then
    let back := (line.toList.takeWhile (· != '=')).reverse
    some (String.ofList ((back.dropWhile fun c => !isWordChar c).takeWhile isWordChar).reverse)
  else none

def withoutPush (line : List Char) : List Char :=
  match dropStart? "duk_push_int(ctx, ".toList line with
  | some rest => rest
  | none => (dropStart? "duk_push_string(ctx, ".toList line).getD line

def calledName (line : String) : String :=
  String.ofList ((withoutPush line.toList).takeWhile isWordChar)

def passedText (line : String) : String :=
  String.ofList ((((withoutPush line.toList).dropWhile isWordChar).drop 1).takeWhile (· != ')'))

/-- The names of a wrapper that hide others after some lines of its body. -/
def scopeAfter (lines : List String) : List String := "ctx" :: lines.filterMap declaredName?

namespace Extraction

theorem localName_word (e : Extraction) : Token.IsWord e.localName.toList := by
  refine ⟨by simp [localName], fun c hc => ?_⟩
  rw [localName, String.toList_append] at hc
  rcases List.mem_append.mp hc with hc | hc
  · exact List.all_eq_true.mp (by decide : "arg".toList.all isWordChar = true) c hc
  · simp [isWordChar, Char.isAlphanum, number_digits e.slot c hc]

theorem localName_injective {e f : Extraction} (h : e.localName = f.localName) :
    e.slot = f.slot := by
  have hchars := congrArg (fun s : String => s.toList ++ [' ']) h
  simp only [localName, String.toList_append, List.append_assoc] at hchars
  exact (number_cancel (by decide) (by decide) (List.append_cancel_left hchars)).1

end Extraction

theorem declaredName?_eq {type name : List Char} (htype : '=' ∉ type)
    (hname : Token.IsWord name) (rest : List Char) :
    declaredName? (String.ofList (type ++ ' ' :: (name ++ ' ' :: '=' :: rest))) =
      some (String.ofList name) := by
  have hequals : '=' ∉ name := fun hmem => absurd (hname.2 _ hmem) (by decide)
  have hbefore : (type ++ ' ' :: (name ++ ' ' :: '=' :: rest)).takeWhile (· != '=') =
      type ++ ' ' :: (name ++ [' ']) := by
    have hnone : ∀ c ∈ type ++ ' ' :: (name ++ [' ']), (c != '=') = true := by
      intro c hc
      simp only [bne_iff_ne]
      rintro rfl
      simp [htype, hequals] at hc
    have hsplit : type ++ ' ' :: (name ++ ' ' :: '=' :: rest) =
        (type ++ ' ' :: (name ++ [' '])) ++ '=' :: rest := by simp
    rw [hsplit, takeWhile_stop hnone (by decide)]
  have hreverse : ∀ c ∈ name.reverse, isWordChar c = true := by simpa using hname.2
  obtain ⟨c, cs, hback⟩ := List.exists_cons_of_ne_nil (List.reverse_ne_nil_iff.mpr hname.1)
  have hc : isWordChar c = true := hreverse c (by simp [hback])
  have hback' : (type ++ ' ' :: (name ++ [' '])).reverse =
      ' ' :: (name.reverse ++ ' ' :: type.reverse) := by simp
  have hdrop : (type ++ ' ' :: (name ++ [' '])).reverse.dropWhile (fun c => !isWordChar c) =
      name.reverse ++ ' ' :: type.reverse := by
    rw [hback', List.dropWhile_cons_of_pos (by decide), hback, List.cons_append,
      List.dropWhile_cons_of_neg (by simp [hc])]
  rw [declaredName?, String.toList_ofList, if_pos (by simp), hbefore]
  simp only [hdrop, takeWhile_stop hreverse (by decide : isWordChar ' ' = false),
    List.reverse_reverse]

theorem Extraction.declaredName?_line (e : Extraction) :
    declaredName? e.line = some e.localName := by
  have hline : e.line = String.ofList (e.type.spelling.toList ++ ' ' :: (e.localName.toList ++
      ' ' :: '=' :: (" " ++ e.type.accessor ++ "(ctx, " ++ toString e.slot ++ ");").toList)) := by
    apply String.toList_injective
    simp [line]
  have htype : '=' ∉ e.type.spelling.toList := by cases e.type <;> decide
  rw [hline, declaredName?_eq htype e.localName_word, String.ofList_toList]

theorem Extraction.scopeAfter_lines (es : List Extraction) :
    scopeAfter (es.map Extraction.line) = "ctx" :: es.map Extraction.localName := by
  have hnames : declaredName? ∘ Extraction.line = some ∘ Extraction.localName :=
    funext Extraction.declaredName?_line
  rw [scopeAfter, List.filterMap_map, hnames, List.filterMap_eq_map]

namespace Wrapper

theorem passed_open (es : List Extraction) :
    ∀ c ∈ (", ".intercalate (es.map Extraction.localName)).toList, c ≠ ')' := by
  rw [String.toList_intercalate]
  refine forall_mem_intercalate (by simp) fun w hw c hc => ?_
  obtain ⟨name, hname, rfl⟩ := List.mem_map.mp hw
  obtain ⟨e, -, rfl⟩ := List.mem_map.mp hname
  rintro rfl
  exact absurd (e.localName_word.2 _ hc) (by decide)

/-- Without the engine call, the line of a native call begins with that call. -/
theorem withoutPush_callLine {w : Wrapper} (hcallee : Token.IsWord w.callee.toList) :
    ∃ rest, withoutPush w.callLine.toList = w.call.toList ++ rest := by
  cases h : w.returns with
  | int =>
    refine ⟨");".toList, ?_⟩
    have hline : w.callLine.toList = "duk_push_int(ctx, ".toList ++ (w.call.toList ++ ");".toList) := by
      simp [callLine, h, ReturnType.pusher, ReturnType.resultSuffix]
    rw [hline, withoutPush, dropStart?_append]
  | text =>
    refine ⟨".c_str());".toList, ?_⟩
    have hline : w.callLine.toList =
        "duk_push_string(ctx, ".toList ++ (w.call.toList ++ ".c_str());".toList) := by
      simp [callLine, h, ReturnType.pusher, ReturnType.resultSuffix]
    have hint : dropStart? "duk_push_int(ctx, ".toList w.callLine.toList = none := by
      rw [hline]
      rfl
    rw [withoutPush, hint, hline, dropStart?_append]
    rfl
  | void =>
    refine ⟨";".toList, ?_⟩
    have hline : w.callLine.toList = w.call.toList ++ ";".toList := by
      simp [callLine, h, ReturnType.pusher]
    have hnone : ∀ pusher : String, (∀ c ∈ pusher.toList, isWordChar c = true) →
        dropStart? (pusher.toList ++ "(ctx, ".toList) w.callLine.toList = none := by
      intro pusher hpusher
      rw [Option.eq_none_iff_forall_ne_some]
      intro rest hdrop
      rw [dropStart?_eq_some_iff, hline, List.append_assoc] at hdrop
      exact push_ne_call hpusher hcallee _ _ hdrop.symm
    have hint : dropStart? "duk_push_int(ctx, ".toList w.callLine.toList = none :=
      hnone "duk_push_int" (List.all_eq_true.mp (by decide))
    have htext : dropStart? "duk_push_string(ctx, ".toList w.callLine.toList = none :=
      hnone "duk_push_string" (List.all_eq_true.mp (by decide))
    rw [withoutPush, hint, htext]
    exact hline

theorem calledName_callLine {w : Wrapper} (hcallee : Token.IsWord w.callee.toList) :
    calledName w.callLine = w.callee := by
  obtain ⟨rest, hrest⟩ := withoutPush_callLine hcallee
  rw [calledName, hrest, call_chars, takeWhile_stop hcallee.2 (by decide), String.ofList_toList]

theorem passedText_callLine {w : Wrapper} (hcallee : Token.IsWord w.callee.toList) :
    passedText w.callLine = ", ".intercalate (w.extractions.map Extraction.localName) := by
  obtain ⟨rest, hrest⟩ := withoutPush_callLine hcallee
  have hopen : ∀ c ∈ (", ".intercalate (w.extractions.map Extraction.localName)).toList,
      (c != ')') = true := fun c hc => bne_iff_ne.mpr (passed_open w.extractions c hc)
  rw [passedText, hrest, call_chars, dropWhile_stop hcallee.2 (by decide), List.drop_one,
    List.tail_cons, takeWhile_stop hopen (by decide), String.ofList_toList]

theorem map_extractions {α : Type} (f : Extraction → α) (c : Config) (d : Declaration) :
    (ofDeclaration c d).extractions.map f = d.params.mapIdx fun i p => f ⟨i, p.type⟩ := by
  rw [ofDeclaration, extractionsFrom_eq_mapIdx]
  apply List.ext_getElem
  · simp
  · intro i hi hj
    simp

theorem localNames_eq (c : Config) (d : Declaration) :
    (ofDeclaration c d).extractions.map Extraction.localName =
      (List.range d.arity).map fun i => "arg" ++ toString i := by
  rw [map_extractions]
  apply List.ext_getElem
  · simp [Declaration.arity]
  · intro i hi hj
    simp [Extraction.localName]

/-- The native call of a wrapper names the function that was declared and passes the locals
of the wrapper, each declared once by a line before it, in the order of the parameters. The
name is hidden exactly when it is that of the context or of one of these locals. -/
theorem native_call_scope (c : Config) (body : String) (d : Declaration)
    (h : Declaration.ofText body = .ok d) :
    let w := ofDeclaration c d
    let locals := (List.range d.arity).map fun i => "arg" ++ toString i
    ∃ reads call,
      w.cpp = "static duk_ret_t " ++ w.symbol ++ "(duk_context* ctx) \x7b\n" ++
        indented (reads ++ [call, "return " ++ toString w.resultCount ++ ";"]) ++ "\x7d\n" ∧
      reads = d.params.mapIdx (fun i p => p.type.spelling ++ " " ++ ("arg" ++ toString i) ++ " = " ++
        p.type.accessor ++ "(ctx, " ++ toString i ++ ");") ∧
      reads.map declaredName? = locals.map some ∧ locals.Nodup ∧
      calledName call = d.name ∧ passedText call = ", ".intercalate locals ∧
      (calledName call ∈ scopeAfter reads ↔
        d.name = "ctx" ∨ ∃ i < d.arity, d.name = "arg" ++ toString i) := by
  intro w locals
  have hlocals : w.extractions.map Extraction.localName = locals := localNames_eq c d
  have hword : Token.IsWord w.callee.toList := Declaration.isWord_of_ofText h
  have hdeclared : (w.extractions.map Extraction.line).map declaredName? = locals.map some := by
    rw [← hlocals, List.map_map, List.map_map]
    exact List.map_congr_left fun e _ => e.declaredName?_line
  have hnodup : locals.Nodup := by
    refine List.Nodup.map (fun i j hij => ?_) List.nodup_range
    exact Extraction.localName_injective (e := ⟨i, .int⟩) (f := ⟨j, .int⟩) hij
  have hcalled : calledName w.callLine = d.name := calledName_callLine hword
  have hscope : scopeAfter (w.extractions.map Extraction.line) = "ctx" :: locals := by
    rw [Extraction.scopeAfter_lines, hlocals]
  refine ⟨w.extractions.map Extraction.line, w.callLine, ?_, ?_, hdeclared, hnodup, hcalled, ?_, ?_⟩
  · rfl
  · exact map_extractions Extraction.line c d
  · rw [passedText_callLine hword, hlocals]
  · rw [hcalled, hscope]
    simp [locals, eq_comm]

theorem ofText_eq_ok {body : String} {d : Declaration}
    (h : (Declaration.ofText body).toOption = some d) : Declaration.ofText body = .ok d := by
  cases hread : Declaration.ofText body with
  | error f => simp [hread, Except.toOption] at h
  | ok e => simpa [hread, Except.toOption] using h

theorem native_call_scope_add :
    let body := " int add(int a, const char* b);"
    ∃ d, Declaration.ofText body = .ok d ∧ ∃ reads call,
      reads.map declaredName? = [some "arg0", some "arg1"] ∧ calledName call = "add" ∧
      passedText call = "arg0, arg1" ∧ calledName call ∉ scopeAfter reads := by
  have hread : Declaration.ofText " int add(int a, const char* b);" =
      .ok ⟨.int, "add", [⟨.int, "a"⟩, ⟨.text, "b"⟩]⟩ := ofText_eq_ok (by decide +kernel)
  obtain ⟨reads, call, -, -, hdeclared, -, hcalled, hpassed, hscope⟩ :=
    native_call_scope {} _ _ hread
  refine ⟨_, hread, reads, call, hdeclared, hcalled, hpassed, ?_⟩
  rw [hscope]
  decide +kernel

/-- A function with the name of the first local is hidden by that local. -/
theorem native_call_hidden :
    let d : Declaration := ⟨.int, "arg0", [⟨.int, "a"⟩]⟩
    Declaration.ofText " int arg0(int a)" = .ok d ∧
    (ofDeclaration {} d).cpp =
      "static duk_ret_t wrapper_arg0(duk_context* ctx) \x7b\n" ++
        indented ["int arg0 = duk_require_int(ctx, 0);", "duk_push_int(ctx, arg0(arg0));",
          "return 1;"] ++ "\x7d\n" ∧
    calledName "duk_push_int(ctx, arg0(arg0));" ∈
      scopeAfter ["int arg0 = duk_require_int(ctx, 0);"] := by
  refine ⟨ofText_eq_ok ?_, ?_, ?_⟩
  all_goals decide +kernel

end Wrapper
end Bindery
