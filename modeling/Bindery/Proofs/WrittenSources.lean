import Bindery.Proofs.Grammar
import Bindery.Proofs.PolicyAgreement
import Bindery.Proofs.RegisteredWrappers
import Bindery.Proofs.SourceLines

/-!
# Sources written from items

A source may be written item by item, one line for each: a namespace, a
declaration in its plain spelling, or a line that is no directive. Every stage
reads such a line back as the item it came from, whatever the names are, and so
a run over the source carries out all items in their order.
-/

set_option autoImplicit false

namespace Bindery
open Bindery.Text

def isNativeName (name : String) : Bool :=
  name != "const" &&
    match name.toList with
    | [] => false
    | c :: cs => (c.isAlpha || c == '_') && cs.all isWordChar

def Param.text (p : Param) : String := p.type.spelling ++ " " ++ p.name

def Declaration.text (d : Declaration) : String :=
  d.returnType.spelling ++ " " ++ d.name ++ "(" ++ ", ".intercalate (d.params.map Param.text) ++ ")"

inductive Item where
  | space (name : String)
  | declaration (d : Declaration)
  | other (line : String)
  deriving DecidableEq, Repr

namespace Item

def line : Item → String
  | .space name => "// DUKTAPE_NAMESPACE " ++ name
  | .declaration d => "DFUNC " ++ d.text
  | .other line => line

def Proper : Item → Prop
  | .space name => isScriptIdentifier name.toList = true
  | .declaration d => isNativeName d.name = true ∧ ∀ p ∈ d.params, isNativeName p.name = true
  | .other line => '\n' ∉ line.toList ∧ Directive.ofLine? {} line = none

instance : DecidablePred Proper
  | .space name => inferInstanceAs (Decidable (isScriptIdentifier name.toList = true))
  | .declaration d => inferInstanceAs
      (Decidable (isNativeName d.name = true ∧ ∀ p ∈ d.params, isNativeName p.name = true))
  | .other line => inferInstanceAs
      (Decidable ('\n' ∉ line.toList ∧ Directive.ofLine? {} line = none))

theorem line_space (name : String) :
    (space name).line.toList = ({} : Config).namespaceMarker.toList ++ ' ' :: name.toList := by
  have hmarker : "// DUKTAPE_NAMESPACE ".toList =
      ({} : Config).namespaceMarker.toList ++ [' '] := by decide
  change ("// DUKTAPE_NAMESPACE " ++ name).toList = _
  rw [String.toList_append, hmarker, List.append_assoc]
  trivial

theorem line_declaration (d : Declaration) :
    (declaration d).line.toList = ({} : Config).functionMarker.toList ++ ' ' :: d.text.toList := by
  have hmarker : "DFUNC ".toList = ({} : Config).functionMarker.toList ++ [' '] := by decide
  change ("DFUNC " ++ d.text).toList = _
  rw [String.toList_append, hmarker, List.append_assoc]
  trivial

def order? : Item → Option Order
  | .space name => some (.openSpace name)
  | .declaration d => some (.declare d)
  | .other _ => none

end Item

def written (items : List Item) : String := "\n".intercalate (items.map Item.line)

example : written [.space "app", .declaration ⟨.text, "f", [⟨.text, "s"⟩, ⟨.int, "n"⟩]⟩] =
    "// DUKTAPE_NAMESPACE app\nDFUNC std::string f(const char* s, int n)" := by decide +kernel

def writtenClosed (items : List Item) : String := String.join (items.map fun i => i.line ++ "\n")

namespace Token

theorem shapes_nil : shapes [] = [] := by simp [shapes, scan]

theorem shapes_mark {c : Char} (hb : isBlank c = false) (hw : isWordChar c = false) (hc : c ≠ ':')
    (cs : List Char) : shapes (c :: cs) = (Kind.ofMark c, String.ofList [c]) :: shapes cs := by
  rw [shapes, scan, if_neg (by simp [hb]), if_neg (by simp [hw]), if_neg (fun h => hc h.1),
    List.map_cons, scan_shapes]
  rfl

/-- A mark that no token runs over parts the tokens around it. -/
theorem shapes_around {c : Char} (hb : isBlank c = false) (hw : isWordChar c = false) (hc : c ≠ ':')
    (u v : List Char) :
    shapes (u ++ c :: v) = shapes u ++ (Kind.ofMark c, String.ofList [c]) :: shapes v := by
  rw [shapes_append u (c :: v) (.of_head hw hc), shapes_mark hb hw hc]

theorem shapes_spaced (u v : List Char) : shapes (u ++ ' ' :: v) = shapes u ++ shapes v := by
  rw [shapes_append u (' ' :: v) (.of_head (by decide) (by decide)), shapes_blank (by decide)]

theorem isWord_of_native {name : String} (h : isNativeName name = true) :
    IsWord name.toList ∧ name ≠ "const" := by
  rw [isNativeName, Bool.and_eq_true, bne_iff_ne] at h
  obtain ⟨hconst, hname⟩ := h
  refine ⟨?_, hconst⟩
  cases hchars : name.toList with
  | nil => simp [hchars] at hname
  | cons c cs =>
    simp only [hchars, Bool.and_eq_true, Bool.or_eq_true, beq_iff_eq] at hname
    refine ⟨List.cons_ne_nil c cs, List.forall_mem_cons.mpr ⟨?_, List.all_eq_true.mp hname.2⟩⟩
    rw [isWordChar_iff]
    exact hname.1.elim .inl fun hc => .inr (.inr hc)

theorem shapes_native {name : String} (h : isNativeName name = true) :
    shapes name.toList = [(.ident, name)] := by
  obtain ⟨hword, hconst⟩ := isWord_of_native h
  rw [shapes_word hword]
  simp [shape, word, hconst]

theorem isName_of_native {t : Token} {name : String} (ht : t.shape = (.ident, name))
    (hf : t.Formed) (h : isNativeName name = true) : t.IsName ∧ t.lexeme = name := by
  obtain ⟨hkind, rfl⟩ := Prod.mk.inj ht
  refine ⟨(t.isIdentifier_iff hf).mp ?_, rfl⟩
  rw [isNativeName, Bool.and_eq_true] at h
  cases hchars : t.lexeme.toList with
  | nil => simp [hchars] at h
  | cons c cs => simp_all [isIdentifier]

end Token

theorem ParamType.writes_spelling (p : ParamType) : p.Writes (Token.shapes p.spelling.toList) := by
  cases p with
  | int => exact (by decide +kernel : Token.shapes "int".toList = [(.ident, "int")])
  | text =>
    have hss : Token.shapes "const char*".toList = [constShape, charShape, starShape] := by
      decide +kernel
    change WritesText (Token.shapes "const char*".toList)
    rw [hss]
    exact ⟨by simp, by simp, by decide, by decide, by decide⟩
  | bool => exact (by decide +kernel : Token.shapes "bool".toList = [(.ident, "bool")])

theorem ReturnType.writes_spelling (r : ReturnType) :
    r.Writes (Token.shapes r.spelling.toList) := by
  cases r with
  | int => exact (by decide +kernel : Token.shapes "int".toList = [(.ident, "int")])
  | text =>
    exact (by decide +kernel : Token.shapes "std::string".toList =
      [(.ident, "std"), (.pathSep, "::"), (.ident, "string")])
  | void => exact (by decide +kernel : Token.shapes "void".toList = [(.ident, "void")])

namespace Param

theorem shapes_text {p : Param} (h : isNativeName p.name = true) :
    Token.shapes p.text.toList = Token.shapes p.type.spelling.toList ++ [(.ident, p.name)] := by
  have hchars : p.text.toList = p.type.spelling.toList ++ ' ' :: p.name.toList := by simp [text]
  rw [hchars, Token.shapes_spaced, Token.shapes_native h]

theorem written_of_shapes {ts : List Token} {p : Param} (hf : ∀ t ∈ ts, t.Formed)
    (h : isNativeName p.name = true) (hts : ts.map Token.shape = Token.shapes p.text.toList) :
    p.Written ts := by
  rw [shapes_text h, List.map_eq_append_iff] at hts
  obtain ⟨type, names, rfl, htype, hnames⟩ := hts
  obtain ⟨name, rfl, hname⟩ := List.map_eq_singleton_iff.mp hnames
  obtain ⟨hid, hlexeme⟩ := Token.isName_of_native hname (hf name (by simp)) h
  exact ⟨type, name, rfl, hid, htype ▸ p.type.writes_spelling, hlexeme.symm⟩

/-- Parameters between commas are read back one by one. -/
theorem listed_of_shapes {ts : List Token} {p : Param} {ps : List Param}
    (hf : ∀ t ∈ ts, t.Formed) (h : ∀ q ∈ p :: ps, isNativeName q.name = true)
    (hts : ts.map Token.shape =
      Token.shapes (", ".intercalate ((p :: ps).map text)).toList) : Listed ts (p :: ps) := by
  induction ps generalizing p ts with
  | nil => exact .last (written_of_shapes hf (h p (by simp)) (by simpa using hts))
  | cons q ps ih =>
    have hchars : (", ".intercalate ((p :: q :: ps).map text)).toList =
        p.text.toList ++ ',' :: ' ' :: (", ".intercalate ((q :: ps).map text)).toList := by
      simp [String.intercalate_cons_cons]
    rw [hchars, Token.shapes_around (by decide) (by decide) (by decide),
      Token.shapes_blank (by decide), List.map_eq_append_iff] at hts
    obtain ⟨first, others, rfl, hfirst, hothers⟩ := hts
    obtain ⟨comma, rest, rfl, hcomma, hrest⟩ := List.map_eq_cons_iff.mp hothers
    exact .cons (written_of_shapes (fun t ht => hf t (by simp [ht])) (h p (by simp)) hfirst)
      (congrArg Prod.fst hcomma)
      (ih (fun t ht => hf t (by simp [ht])) (fun r hr => h r (by simp_all)) hrest)

theorem enclosed_of_shapes {ts : List Token} {ps : List Param} (hf : ∀ t ∈ ts, t.Formed)
    (h : ∀ p ∈ ps, isNativeName p.name = true)
    (hts : ts.map Token.shape = Token.shapes (", ".intercalate (ps.map text)).toList) :
    Enclosed ts ps := by
  cases ps with
  | nil =>
    obtain rfl : ts = [] := by simpa [Token.shapes_nil] using hts
    exact .empty
  | cons p ps => exact .listed (listed_of_shapes hf h hts)

end Param

namespace Declaration

theorem text_chars (d : Declaration) : d.text.toList = d.returnType.spelling.toList ++
    ' ' :: (d.name.toList ++ '(' ::
      ((", ".intercalate (d.params.map Param.text)).toList ++ [')'])) := by
  simp [text]

theorem shapes_text {d : Declaration} (h : isNativeName d.name = true) :
    Token.shapes d.text.toList = Token.shapes d.returnType.spelling.toList ++
      (.ident, d.name) :: (.lparen, "(") ::
        (Token.shapes (", ".intercalate (d.params.map Param.text)).toList ++ [(.rparen, ")")]) := by
  rw [text_chars, Token.shapes_spaced, Token.shapes_around (by decide) (by decide) (by decide),
    Token.shapes_native h, Token.shapes_around (by decide) (by decide) (by decide),
    Token.shapes_nil]
  rfl

/-- The plain spelling of a declaration is read back, whatever its names are. -/
theorem ofText_text {d : Declaration} (hname : isNativeName d.name = true)
    (hparams : ∀ p ∈ d.params, isNativeName p.name = true) :
    ofText (" " ++ d.text) = .ok d := by
  have hf := Token.ofText_formed (" " ++ d.text)
  have hts : (Token.ofText (" " ++ d.text)).map Token.shape = Token.shapes d.text.toList := by
    rw [Token.ofText, Token.scan_shapes, String.toList_append]
    exact Token.shapes_blank (by decide) _
  rw [ofText]
  generalize Token.ofText (" " ++ d.text) = ts at hf hts
  rw [shapes_text hname, List.map_eq_append_iff] at hts
  obtain ⟨type, rest, rfl, htype, hrest⟩ := hts
  obtain ⟨name, rest, rfl, hnameShape, hrest⟩ := List.map_eq_cons_iff.mp hrest
  obtain ⟨opening, rest, rfl, hopening, hrest⟩ := List.map_eq_cons_iff.mp hrest
  obtain ⟨inner, last, rfl, hinner, hlast⟩ := List.map_eq_append_iff.mp hrest
  obtain ⟨closing, rfl, hclosing⟩ := List.map_eq_singleton_iff.mp hlast
  have hwrites := htype ▸ d.returnType.writes_spelling
  have henclosed : Param.Enclosed inner d.params :=
    Param.enclosed_of_shapes (fun t ht => hf t (by simp [ht])) hparams hinner
  obtain ⟨hid, hlexeme⟩ := Token.isName_of_native hnameShape (hf name (by simp)) hname
  obtain ⟨e, he, hr⟩ := (d.returnType.writes_iff type fun t ht => hf t (by simp [ht])).mpr hwrites
  have hhead := hwrites.no_opening hid
  refine (ofTokens_eq_ok_iff _ d).mpr
    ⟨type ++ [name], inner ++ [closing], inner, [], e, ?_, ?_, ?_, ?_, hr⟩
  · exact (cutAt_eq_some_iff _ _ _ _).mpr ⟨opening, by simp, congrArg Prod.fst hopening, hhead⟩
  · exact (readHead_eq_ok_iff _ _ _).mpr
      ⟨type, name, rfl, (name.isIdentifier_iff (hf name (by simp))).mpr hid, he, hlexeme⟩
  · exact (cutAt_eq_some_iff _ _ _ _).mpr
      ⟨closing, rfl, congrArg Prod.fst hclosing, fun t ht => (henclosed.no_paren t ht).2⟩
  · exact (readParams_eq_ok_iff inner _ fun t ht => hf t (by simp [ht])).mpr henclosed

end Declaration

namespace Text

theorem trim_eq_self {cs : List Char} (hfirst : cs.head?.any isBlank = false)
    (hlast : cs.getLast?.any isBlank = false) : trim cs = cs := by
  have hdrop : ∀ ds : List Char, ds.head?.any isBlank = false → dropBlank ds = ds := by
    intro ds h
    cases ds with
    | nil => rfl
    | cons d ds => exact dropBlank_cons_solid h ds
  rw [trim, hdrop cs hfirst, hdrop cs.reverse (by rwa [List.head?_reverse]), List.reverse_reverse]

theorem trim_marked {marker rest : List Char} (hm : marker ≠ [])
    (hfirst : marker.head?.any isBlank = false) (hr : rest ≠ [])
    (hlast : rest.getLast?.any isBlank = false) :
    trim (marker ++ ' ' :: rest) = marker ++ ' ' :: rest := by
  apply trim_eq_self
  · rw [List.head?_append, List.head?_eq_some_head hm] at *
    exact hfirst
  · rw [List.getLast?_append, List.getLast?_cons, List.getLast?_eq_some_getLast hr] at *
    exact hlast

end Text

namespace Directive

theorem afterMarker?_spaced {marker : List Char} (h : marker ≠ []) (rest : List Char) :
    afterMarker? marker (marker ++ ' ' :: rest) = some (' ' :: rest) := by
  rw [afterMarker?, if_neg h, dropStart?_append]
  have hword : isWordChar ' ' = false := by decide
  simp [runsOn, hword]

def ofItem? : Item → Option Directive
  | .space name => some (.space (" " ++ name))
  | .declaration d => some (.function (" " ++ d.text))
  | .other _ => none

theorem spaceChar_solid {c : Char} (h : isSpaceChar c = true) : isBlank c = false := by
  rw [isSpaceChar, Bool.or_eq_true, beq_iff_eq] at h
  rcases h with h | rfl
  · exact Token.wordChar_solid h
  · decide

theorem scriptIdentifier_solid {name : List Char} (h : isScriptIdentifier name = true) :
    name ≠ [] ∧ ∀ c ∈ name, isBlank c = false := by
  cases name with
  | nil => cases h
  | cons c cs =>
    rw [isScriptIdentifier, Bool.and_eq_true, List.all_eq_true] at h
    have hc : isSpaceChar c = true := by
      have hstart := h.1
      simp only [isSpaceStart, isSpaceChar, Char.isAlphanum, Bool.or_eq_true] at hstart ⊢
      exact hstart.imp_left fun h => h.imp_left .inl
    exact ⟨List.cons_ne_nil c cs, List.forall_mem_cons.mpr
      ⟨spaceChar_solid hc, fun d hd => spaceChar_solid (h.2 d hd)⟩⟩

theorem ofChars?_space {c : Config} {rest : List Char} (hm : c.namespaceMarker.toList ≠ [])
    (hfirst : c.namespaceMarker.toList.head?.any isBlank = false) (hr : rest ≠ [])
    (hlast : rest.getLast?.any isBlank = false) :
    ofChars? c (c.namespaceMarker.toList ++ ' ' :: rest) =
      some (.space (String.ofList (' ' :: rest))) := by
  simp only [ofChars?, trim_marked hm hfirst hr hlast, afterMarker?_spaced hm]

theorem ofChars?_function {c : Config} {rest : List Char} (hm : c.functionMarker.toList ≠ [])
    (hfirst : c.functionMarker.toList.head?.any isBlank = false) (hr : rest ≠ [])
    (hlast : rest.getLast?.any isBlank = false)
    (hother :
      afterMarker? c.namespaceMarker.toList (c.functionMarker.toList ++ ' ' :: rest) = none) :
    ofChars? c (c.functionMarker.toList ++ ' ' :: rest) =
      some (.function (String.ofList (' ' :: rest))) := by
  simp only [ofChars?, trim_marked hm hfirst hr hlast, afterMarker?_spaced hm, hother,
    Option.map_some]

theorem ofList_space (text : String) : String.ofList (' ' :: text.toList) = " " ++ text := by
  apply String.toList_injective
  rw [String.toList_ofList, String.toList_append]
  rfl

theorem ofChars?_line (i : Item) (h : i.Proper) : ofChars? {} i.line.toList = ofItem? i := by
  cases i with
  | space name =>
    obtain ⟨hname, hsolid⟩ := scriptIdentifier_solid h
    have hend : name.toList.getLast?.any isBlank = false := by
      rw [List.getLast?_eq_some_getLast hname]
      exact hsolid _ (List.getLast_mem hname)
    rw [Item.line_space, ofChars?_space (by decide) (by decide) hname hend, ofList_space]
    trivial
  | declaration d =>
    have htext : ∃ front, d.text.toList = front ++ [')'] := by
      rw [Declaration.text, String.toList_append]
      exact ⟨_, rfl⟩
    obtain ⟨front, hfront⟩ := htext
    have hend : d.text.toList.getLast?.any isBlank = false := by
      rw [hfront, List.getLast?_concat]
      decide
    rw [Item.line_declaration,
      ofChars?_function (by decide) (by decide) (by simp [hfront]) hend rfl, ofList_space]
    trivial
  | other line => exact h.2

theorem readSpaceName_spaced {name : String} (h : isScriptIdentifier name.toList = true) :
    readSpaceName (" " ++ name) = .ok name := by
  obtain ⟨hname, hsolid⟩ := scriptIdentifier_solid h
  have hfirst : firstWord (' ' :: name.toList) = name.toList := by
    obtain ⟨c, cs, hchars⟩ := List.exists_cons_of_ne_nil hname
    rw [hchars] at hsolid ⊢
    rw [firstWord, dropBlank_cons_blank (by decide), dropBlank_cons_solid (hsolid c (by simp)),
      List.takeWhile_eq_self_iff]
    simpa using hsolid
  have hword : firstWord (" " ++ name).toList = name.toList := by
    rwa [String.toList_append]
  simp only [readSpaceName, hword, hname, h, if_true, if_false, String.ofList_toList]

/-- What an item asks for is read back from its line. -/
theorem order_ofItem? (i : Item) (h : i.Proper) :
    (ofItem? i).map order = i.order?.map .ok := by
  cases i with
  | space name => simp [ofItem?, order, readSpaceName_spaced h, Item.order?, Except.map]
  | declaration d =>
    simp [ofItem?, order, Declaration.ofText_text h.1 h.2, Item.order?, Except.map]
  | other line => rfl

end Directive

/-! Nothing that is written for an item breaks its line. -/

theorem newline_not_mem_of_solid {cs : List Char} (h : ∀ c ∈ cs, isBlank c = false) :
    '\n' ∉ cs := by
  intro hmem
  exact absurd (h _ hmem) (by decide)

theorem newline_not_mem_native {name : String} (h : isNativeName name = true) :
    '\n' ∉ name.toList :=
  newline_not_mem_of_solid fun c hc => Token.wordChar_solid ((Token.isWord_of_native h).1.2 c hc)

theorem Param.newline_not_mem_texts {ps : List Param} (h : ∀ p ∈ ps, isNativeName p.name = true) :
    '\n' ∉ (", ".intercalate (ps.map text)).toList := by
  have htext : ∀ p ∈ ps, '\n' ∉ p.text.toList := by
    intro p hp
    have hname := newline_not_mem_native (h p hp)
    cases htype : p.type <;> simp [text, htype, ParamType.spelling, hname]
  induction ps with
  | nil => simp
  | cons p ps ih =>
    have hp := htext p (by simp)
    have hps := ih (fun q hq => h q (by simp [hq])) fun q hq => htext q (by simp [hq])
    cases ps with
    | nil => simpa using hp
    | cons q ps => simp_all [String.intercalate_cons_cons]

theorem Declaration.newline_not_mem_text {d : Declaration} (hname : isNativeName d.name = true)
    (hparams : ∀ p ∈ d.params, isNativeName p.name = true) : '\n' ∉ d.text.toList := by
  have hd := newline_not_mem_native hname
  have hps := Param.newline_not_mem_texts hparams
  rw [text_chars]
  generalize (", ".intercalate (d.params.map Param.text)).toList = inner at hps
  cases d.returnType <;> simp [ReturnType.spelling, hd, hps]

theorem Item.newline_not_mem_line (i : Item) (h : i.Proper) : '\n' ∉ i.line.toList := by
  cases i with
  | space name =>
    have hname := newline_not_mem_of_solid (Directive.scriptIdentifier_solid h).2
    rw [line_space]
    simp [hname]
  | declaration d =>
    have hd := Declaration.newline_not_mem_text h.1 h.2
    rw [line_declaration]
    simp [hd]
  | other line => exact h.1

theorem written_cons (i j : Item) (items : List Item) : (written (i :: j :: items)).toList =
    i.line.toList ++ '\n' :: (written (j :: items)).toList := by
  simp [written, String.intercalate_cons_cons]

/-- The orders of a written source are those of its items. -/
theorem Directive.ofLines_written (items : List Item) (h : ∀ i ∈ items, i.Proper) (n : Nat) :
    (ofLines {} (numbered n (lines (written items).toList))).map (fun p => p.2.order) =
      (items.filterMap Item.order?).map .ok := by
  have hfirst : ∀ (n : Nat), ∀ i ∈ items,
      (((ofChars? {} i.line.toList).map fun d => (n, d)).toList.map fun p => p.2.order) =
        (i.order?.map .ok).toList := by
    intro n i hi
    rw [ofChars?_line i (h i hi), ← order_ofItem? i (h i hi)]
    cases ofItem? i <;> rfl
  induction items generalizing n with
  | nil => rfl
  | cons i items ih =>
    have hline := i.newline_not_mem_line (h i (by simp))
    have hi := hfirst n i (by simp)
    have hitems : ((i :: items).filterMap Item.order?).map Except.ok =
        (i.order?.map (Except.ok (ε := Fault))).toList ++
          (items.filterMap Item.order?).map .ok := by
      cases ho : i.order? <;> simp [ho]
    rw [hitems]
    cases items with
    | nil =>
      have hwritten : written [i] = i.line := by simp [written]
      rw [hwritten, ofLines_last {} n hline, hi]
      exact (List.append_nil _).symm
    | cons j items =>
      rw [written_cons, ofLines_more {} n _ hline, List.map_append, hi,
        ih (fun k hk => h k (by simp_all)) (n + 1) fun m k hk => hfirst m k (by simp_all)]

theorem writtenClosed_eq (items : List Item) :
    writtenClosed items = written (items ++ [.other ""]) := by
  induction items with
  | nil => rfl
  | cons i items ih =>
    obtain ⟨j, others, hitems⟩ := List.exists_cons_of_ne_nil
      (List.append_ne_nil_of_right_ne_nil items (List.cons_ne_nil (Item.other "") []))
    apply String.toList_injective
    rw [List.cons_append, hitems, written_cons, ← hitems, ← ih]
    simp [writtenClosed, String.join_cons]

theorem results_readable {os : List (Location × Except Fault Order)} {orders : List Order}
    (h : os.map Prod.snd = orders.map .ok) : Readable os ∧ accepted os = orders := by
  induction os generalizing orders with
  | nil =>
    obtain rfl : orders = [] := by simpa using h
    exact ⟨fun _ _ hmem => absurd hmem List.not_mem_nil, rfl⟩
  | cons p os ih =>
    obtain ⟨o, orders, rfl, ho, hos⟩ := List.map_eq_cons_iff.mp h.symm
    obtain ⟨l, e⟩ := p
    obtain rfl : Except.ok o = e := ho
    obtain ⟨hreadable, haccepted⟩ := ih hos.symm
    exact ⟨(readable_cons l o os).mpr hreadable, congrArg (o :: ·) haccepted⟩

namespace Run

/-- A text of readable orders is scanned to its end. -/
theorem scanText_readable (c : Config) (origin content : String)
    (h : Readable (ordersOf c origin content)) :
    let done := start.scanText c origin content
    let orders := accepted (ordersOf c origin content)
    done.2 = none ∧ done.1.report.hasErrors = false ∧
      ∃ b, (done.1.finish c).1 = .ok b ∧
        b.wrappers = (declared orders).map (Wrapper.ofDeclaration c) ∧
        b.bindings = landings c .global orders := by
  intro done orders
  have hnone : done.2 = none := carryOut_readable_none c _ h
  obtain ⟨ws, hreport, hws⟩ := carryOut_readable_report c (start.note (.scanning origin)) h
  have haborted : done.1.aborted = false := by
    have hcarried := carryOut_aborted c (start.note (.scanning origin)) (ordersOf c origin content)
    rw [show (carryOut c (start.note (.scanning origin)) (ordersOf c origin content)).2 = none
      from hnone] at hcarried
    exact hcarried
  have hb := finish_of_running c done.1 haborted
  let read : ReadText := fun _ => .error .notFound
  have horders : acceptedOf c read [.text origin content] = orders := List.append_nil _
  refine ⟨hnone, (congrArg Report.hasErrors hreport).trans hws, _, hb, ?_, ?_⟩
  · rw [← horders]
    exact finish_wrappers c read [.text origin content] _ hb
  · rw [← horders]
    exact finish_bindings c read [.text origin content] _ hb

/-- The run over a written source is taken to its end without an error, and its
bundle holds what the items say. -/
theorem written_source_carried_out (origin : String) (items : List Item)
    (h : ∀ i ∈ items, i.Proper) :
    ∀ content ∈ [written items, writtenClosed items],
      let done := start.scanText {} origin content
      let orders := items.filterMap Item.order?
      done.2 = none ∧ done.1.report.hasErrors = false ∧
        ∃ b, (done.1.finish {}).1 = .ok b ∧
          b.wrappers = (declared orders).map (Wrapper.ofDeclaration {}) ∧
          b.bindings = landings {} .global orders := by
  have hcarried : ∀ items : List Item, (∀ i ∈ items, i.Proper) →
      Readable (ordersOf {} origin (written items)) ∧
        accepted (ordersOf {} origin (written items)) = items.filterMap Item.order? := by
    intro items h
    apply results_readable
    rw [← Directive.ofLines_written items h 1, ordersOf, List.map_map]
    rfl
  have hclosed : ∀ i ∈ items ++ [.other ""], i.Proper := by
    intro i hi
    rcases List.mem_append.mp hi with hi | hi
    · exact h i hi
    · obtain rfl := List.mem_singleton.mp hi
      exact ⟨List.not_mem_nil, Directive.ofChars?_nil {}⟩
  intro content hcontent
  rcases List.mem_cons.mp hcontent with rfl | hcontent
  · obtain ⟨hreadable, horders⟩ := hcarried items h
    rw [← horders]
    exact scanText_readable {} origin _ hreadable
  · obtain rfl := List.mem_singleton.mp hcontent
    obtain ⟨hreadable, horders⟩ := hcarried _ hclosed
    rw [List.filterMap_append] at horders
    rw [writtenClosed_eq]
    rw [show items.filterMap Item.order? = _ from (List.append_nil _).symm.trans horders.symm]
    exact scanText_readable {} origin _ hreadable

/-- Names that are words of types, and lines that only look like directives. -/
theorem written_source_carried_out_type_words :
    let items : List Item := [.other "DFUNCTION int f();\r",
      .declaration ⟨.int, "int", [⟨.bool, "void"⟩]⟩, .space "$a", .other "",
      .declaration ⟨.text, "duk_std", []⟩,
      .declaration ⟨.void, "constant", [⟨.text, "char"⟩, ⟨.int, "int"⟩]⟩]
    let done := start.scanText {} "a.hpp" (written items)
    (∀ i ∈ items, i.Proper) ∧ done.2 = none ∧
      ∃ b, (done.1.finish {}).1 = .ok b ∧
        b.symbols = ["wrapper_int", "wrapper_duk_std", "wrapper_constant"] ∧
        b.bindings = [(.global, "int"), (.space "$a", "std"), (.space "$a", "constant")] := by
  intro items done
  have hproper : ∀ i ∈ items, i.Proper := by decide +kernel
  obtain ⟨hnone, -, b, hb, hwrappers, hbindings⟩ :=
    written_source_carried_out "a.hpp" items hproper (written items) List.mem_cons_self
  refine ⟨hproper, hnone, b, hb, ?_, ?_⟩
  · rw [Bundle.symbols, hwrappers]
    decide +kernel
  · rw [hbindings]
    decide +kernel

end Run
end Bindery
