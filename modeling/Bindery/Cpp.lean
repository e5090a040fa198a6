import Bindery.Setup

/-!
# C++ text of a bundle

Each setup statement is carried out by one to three calls of the script
engine, which works on a stack of values. Stored properties address their
object by its distance from the top. The text of a bundle is an optional
banner, every wrapper followed by an empty line, and last the setup routine,
one call on a line. Bodies are indented by two blanks.
-/

set_option autoImplicit false

namespace Bindery

/-! ## Engine calls -/

inductive Call where
  | pushGlobalObject
  | pushString (text : String)
  | pushObject
  | pushFunction (symbol : String) (arity : Nat)
  | getGlobalString (name : String)
  | putProp (depth : Nat)
  | putPropString (depth : Nat) (name : String)
  | pop
  deriving DecidableEq, Repr

def literalChars : List Char → List Char
  | [] => []
  | c :: cs =>
    if c = '"' ∨ c = '\\' then '\\' :: c :: literalChars cs else c :: literalChars cs

def literal (text : String) : String :=
  String.ofList ('"' :: literalChars text.toList ++ ['"'])

namespace Call

def text : Call → String
  | .pushGlobalObject => "duk_push_global_object(ctx);"
  | .pushString text => "duk_push_string(ctx, " ++ literal text ++ ");"
  | .pushObject => "duk_push_object(ctx);"
  | .pushFunction symbol arity =>
    "duk_push_c_function(ctx, " ++ symbol ++ ", " ++ toString arity ++ ");"
  | .getGlobalString name => "duk_get_global_string(ctx, " ++ literal name ++ ");"
  | .putProp depth => "duk_put_prop(ctx, -" ++ toString depth ++ ");"
  | .putPropString depth name =>
    "duk_put_prop_string(ctx, -" ++ toString depth ++ ", " ++ literal name ++ ");"
  | .pop => "duk_pop(ctx);"

end Call

namespace Statement

def calls : Statement → List Call
  | .activateGlobal => [.pushGlobalObject]
  | .deactivate => [.pop]
  | .defineSpace name => [.pushString name, .pushObject, .putProp 3]
  | .activateSpace name => [.getGlobalString name]
  | .register wrapper arity => [.pushFunction wrapper arity]
  | .bind name => [.putPropString 2 name]

def lines (s : Statement) : List String := s.calls.map Call.text

end Statement

/-! ## Wrappers and routine -/

def banner : String :=
  "// Auto-generated Duktape bindings\n" ++
    "// Generated by duk-weld - do not edit manually\n\n"

def indented : List String → String
  | [] => ""
  | l :: ls => "  " ++ l ++ "\n" ++ indented ls

def Extraction.line (e : Extraction) : String :=
  e.type.spelling ++ " " ++ e.localName ++ " = " ++ e.type.accessor ++
    "(ctx, " ++ toString e.slot ++ ");"

namespace Wrapper

def callLine (w : Wrapper) : String :=
  match w.returns.pusher with
  | some pusher => pusher ++ "(ctx, " ++ w.call ++ w.returns.resultSuffix ++ ");"
  | none => w.call ++ ";"

def bodyLines (w : Wrapper) : List String :=
  w.extractions.map Extraction.line ++
    [w.callLine, "return " ++ toString w.resultCount ++ ";"]

def cpp (w : Wrapper) : String :=
  "static duk_ret_t " ++ w.symbol ++ "(duk_context* ctx) \x7b\n" ++
    indented w.bodyLines ++ "\x7d\n"

end Wrapper

def Routine.cpp (r : Routine) : String :=
  "void " ++ r.name ++ "(duk_context* ctx) \x7b\n" ++
    indented (r.statements.flatMap Statement.lines) ++ "\x7d\n"

namespace Bundle

def wrappersCpp : List Wrapper → String
  | [] => ""
  | w :: ws => w.cpp ++ "\n" ++ wrappersCpp ws

def cpp (c : Config) (b : Bundle) : String :=
  (if c.banner then banner else "") ++ wrappersCpp b.wrappers ++ b.routine.cpp

end Bundle

end Bindery
