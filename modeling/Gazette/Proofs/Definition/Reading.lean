import Gazette.Proofs.Definition.Grammar
import Gazette.Proofs.Number.Text
import Gazette.Proofs.Schema.Finished
import Gazette.Schema.Definition

/-!
# Reading the definition of a registry

The text of a registry is read as the trees of its types and roots (`Registry.ofText?_definition`),
whatever descriptions and defaults it has.  Each part of the text scans to the tokens of its tree;
for this its names have to be names, its numbers finite, and no type non-null twice
(`NamedType.IsPrintable`).
-/

namespace Gazette

open Document (isBlank isNamePart)
open Sdl

variable {σ ν : Type}

/-! ## Trees -/

mutual

/-- The literal that a value is written as.  Binary data and objects, which no argument takes, are
left out. -/
def Value.constant : Value → Constant
  | .null | .binary _ | .object _ => .null
  | .boolean b => .boolean b
  | .number n => .number n.parts
  | .string s => .string (.quoted (s.toList.flatMap Text.escape))
  | .enum name => .enum name
  | .list items => .list (Value.constants items)

/-- The constants of the items of a list. -/
def Value.constants : List Value → List Constant
  | [] => []
  | item :: rest => item.constant :: Value.constants rest

end

theorem Value.constants_eq_map (items : List Value) : constants items = items.map constant := by
  induction items with
  | nil => rfl
  | cons item rest ih => rw [constants, ih, List.map_cons]

/-- A description as it is written behind an indentation. -/
def descriptionText (indent : String) (description : Option String) : Option StringText :=
  description.map fun text => .block (blockText indent.toList text.toList)

/-- The definition that the text of an argument stands for. -/
def ArgumentSpec.tree (spec : ArgumentSpec) : ArgumentDefinition where
  description := descriptionText argumentIndent spec.description
  name := spec.name
  type := spec.type
  default := spec.default.map Value.constant

/-- The definition that the text of a field stands for. -/
def Field.tree (f : Field σ ν) : FieldDefinition where
  description := descriptionText fieldIndent f.description
  name := f.name
  arguments := f.arguments.map ArgumentSpec.tree
  type := f.type

/-- The definition that the text of a field of an interface stands for. -/
def InterfaceField.tree (f : InterfaceField) : FieldDefinition where
  description := descriptionText fieldIndent f.description
  name := f.name
  arguments := []
  type := f.type

/-- What the text of a type stands for after its name. -/
def NamedType.bodyTree : NamedType σ ν → TypeBody
  | scalar _ => .scalar
  | enum e => .enum (e.values.map fun value => ⟨none, value⟩)
  | object o => .object o.implements (o.fields.map Field.tree)
  | interface i => .interface (i.fields.map InterfaceField.tree)

/-- The definition that the text of a type stands for. -/
def NamedType.tree (t : NamedType σ ν) : TypeDefinition where
  description := descriptionText "" t.description
  name := t.name
  body := t.bodyTree

/-- The roots that the text of a registry stands for, with their operations. -/
def Registry.rootTrees (r : Registry σ ν) : List (String × String) :=
  ("query", r.query) :: (r.mutation.map fun name => ("mutation", name)).toList

/-- What the definition of a registry is read as. -/
def Registry.trees (r : Registry σ ν) : List Definition :=
  r.declaredTypes.map (fun t => .type t.tree) ++ [.roots r.rootTrees]

/-! ## What can be printed -/

/-- Whether the text of a value is a literal of the language. -/
inductive Value.IsLiteral : Value → Prop
  | null : IsLiteral .null
  | boolean (b : Bool) : IsLiteral (.boolean b)
  | number {n : Number} (h : n.isFinite) : IsLiteral (.number n)
  | string (s : String) : IsLiteral (.string s)
  | enum {name : String} (hname : isName name.toList) (hword : isLiteralWord name = false) :
    IsLiteral (.enum name)
  | list {items : List Value} (h : ∀ item ∈ items, IsLiteral item) : IsLiteral (.list items)

/-- Whether the text of an argument is read as its definition. -/
structure ArgumentSpec.IsPrintable (spec : ArgumentSpec) : Prop where
  name : isName spec.name.toList
  base : isName spec.type.baseName.toList
  type : isWritable spec.type
  default : ∀ value ∈ spec.default, value.IsLiteral

/-- Whether the text of a field is read as its definition. -/
structure Field.IsPrintable (f : Field σ ν) : Prop where
  name : isName f.name.toList
  arguments : ∀ spec ∈ f.arguments, spec.IsPrintable
  base : isName f.type.baseName.toList
  type : isWritable f.type

/-- Whether the text of a field of an interface is read as its definition. -/
structure InterfaceField.IsPrintable (f : InterfaceField) : Prop where
  name : isName f.name.toList
  base : isName f.type.baseName.toList
  type : isWritable f.type

/-- Whether what a type consists of can be printed. -/
def NamedType.HasPrintableBody : NamedType σ ν → Prop
  | scalar _ => True
  | enum e => ∀ value ∈ e.values, isName value.toList ∧ isLiteralWord value = false
  | object o => (∀ name ∈ o.implements, isName name.toList) ∧ ∀ f ∈ o.fields, f.IsPrintable
  | interface i => ∀ f ∈ i.fields, f.IsPrintable

/-- Whether the text of a type is read as its definition. -/
structure NamedType.IsPrintable (t : NamedType σ ν) : Prop where
  name : isName t.name.toList
  body : t.HasPrintableBody

/-! ## Scanning -/

namespace Sdl.Scans

variable {cs : List Char} {tokens : List Token}

/-- A boundary after a name, a number or a string. -/
theorem boundary {c : Char} (h : (!isNamePart c && c != '.' && c != '"') = true) (cs : List Char) :
    IsBoundary (c :: cs) :=
  isBoundary_cons (by simpa [and_assoc] using h) cs

theorem type {type : TypeRef} (hname : isName type.baseName.toList) (hcs : IsBoundary cs)
    (h : Scans cs tokens) : Scans (type.text.toList ++ cs) (typeTokens type ++ tokens) := by
  induction type generalizing cs tokens with
  | named name => exact Scans.name hname hcs h
  | nonNull inner ih =>
    have hmark := ih hname (boundary (by decide) _) (Scans.mark (c := '!') rfl h)
    simpa [TypeRef.text, typeTokens] using hmark
  | list item ih =>
    have hitem := ih hname (boundary (by decide) _) (Scans.mark (c := ']') rfl h)
    simpa [TypeRef.text, typeTokens] using Scans.mark (c := '[') rfl hitem

/-- Texts with commas between them scan to the tokens of each. -/
theorem separated {α : Type} {text : α → List Char} {toks : α → List Token} {items : List α}
    (hitem : ∀ item ∈ items, ∀ cs tokens, IsBoundary cs → Scans cs tokens →
      Scans (text item ++ cs) (toks item ++ tokens))
    (hcs : IsBoundary cs) (h : Scans cs tokens) :
    Scans ([',', ' '].intercalate (items.map text) ++ cs) (items.flatMap toks ++ tokens) := by
  induction items with
  | nil => exact h
  | cons item items ih =>
    have hrest := ih fun i hi => hitem i (.tail _ hi)
    cases items with
    | nil => simpa using hitem item (.head _) cs tokens hcs h
    | cons next items =>
      have hcomma := Scans.blank (c := ',') rfl (Scans.blank (c := ' ') rfl hrest)
      have hfirst := hitem item (.head _) _ _ (boundary (by decide) _) hcomma
      simpa [List.intercalate_cons_cons] using hfirst

end Sdl.Scans

theorem Value.separated_eq_intercalate (texts : List (List Char)) :
    separated texts = [',', ' '].intercalate texts := by
  induction texts with
  | nil => rfl
  | cons text rest ih =>
    cases rest with
    | nil => simp [separated]
    | cons next rest =>
      rw [separated, ih, List.intercalate_cons_cons]
      · simp
      · simp

theorem Sdl.IsBoundary.isEnd {cs : List Char} (h : IsBoundary cs) : Number.IsEnd cs := by
  intro c hc
  obtain ⟨hpart, hpoint, -⟩ := h c hc
  rw [isNamePart, Bool.or_eq_false_iff, Bool.and_eq_false_iff, decide_eq_false_iff_not,
    decide_eq_false_iff_not] at hpart
  refine ⟨if_neg fun hdigit => ?_, hpoint, ?_, ?_⟩
  · exact hpart.2.elim (· hdigit.1) (· hdigit.2)
  · rintro rfl
    exact absurd hpart.1 (by decide)
  · rintro rfl
    exact absurd hpart.1 (by decide)

theorem Number.startsNumber_chars {n : Number} (h : n.isFinite) :
    n.chars.head?.any startsNumber := by
  obtain ⟨c, cs, hchars, rfl | hc⟩ := exists_chars h
  · rw [hchars]
    rfl
  · simp [hchars, startsNumber, digitOf?_of_isDigit hc]

namespace Sdl.Scans

variable {cs : List Char} {tokens : List Token}

theorem number_chars {n : Number} (hn : n.isFinite) (hcs : IsBoundary cs) (h : Scans cs tokens) :
    Scans (n.chars ++ cs) (.number n.parts :: tokens) :=
  Scans.number (Number.startsNumber_chars hn) (Number.takeLexeme_chars hn hcs.isEnd) hcs h

theorem value {v : Value} (hv : v.IsLiteral) (hcs : IsBoundary cs) (h : Scans cs tokens) :
    Scans (v.chars ++ cs) (v.constant.tokens ++ tokens) := by
  induction hv generalizing cs tokens with
  | null => exact Scans.name (show isName "null".toList by decide) hcs h
  | boolean b =>
    cases b with
    | true => exact Scans.name (show isName "true".toList by decide) hcs h
    | false => exact Scans.name (show isName "false".toList by decide) hcs h
  | number hn => exact number_chars hn hcs h
  | string s => exact Scans.string s.toList hcs h
  | enum hname _ => exact Scans.name hname hcs h
  | @list items _ ih =>
    have hitem : ∀ item ∈ items, ∀ cs tokens, IsBoundary cs → Scans cs tokens →
        Scans (item.chars ++ cs) (item.constant.tokens ++ tokens) :=
      fun item hitem _ _ hcs h => ih item hitem hcs h
    have hitems := separated hitem (boundary (c := ']') (by decide) cs)
      (Scans.mark (c := ']') rfl h)
    have hlist := Scans.mark (c := '[') rfl hitems
    simpa [Value.chars, Value.itemTexts_eq_map, Value.separated_eq_intercalate, Value.constant,
      Value.constants_eq_map, Constant.tokens, itemTokens_eq_flatMap, List.flatMap_map] using hlist

/-! ### Members of types -/

theorem description {indent : String} (hindent : ∀ c ∈ indent.toList, isBlank c)
    (text : Option String) (h : Scans cs tokens) :
    Scans ((describe indent text).toList ++ cs)
      (descriptionTokens (descriptionText indent text) ++ tokens) := by
  cases text with
  | none => exact h
  | some text =>
    rw [describe, String.toList_ofList]
    exact Scans.block hindent text.toList h

theorem argument {spec : ArgumentSpec} (hspec : spec.IsPrintable) (hcs : IsBoundary cs)
    (h : Scans cs tokens) :
    Scans (spec.definition.toList ++ cs)
      ({ spec.tree with description := none }.tokens ++ tokens) := by
  obtain ⟨name, type, description, default⟩ := spec
  cases default with
  | none =>
    have htype := Scans.blank (c := ' ') rfl (Scans.type hspec.base hcs h)
    have hname := Scans.name hspec.name (boundary (by decide) _)
      (Scans.mark (c := ':') rfl htype)
    simpa [ArgumentSpec.definition, ArgumentSpec.tree, ArgumentDefinition.tokens,
      descriptionTokens] using hname
  | some value =>
    have hvalue := Scans.value (hspec.default value rfl) hcs h
    have hequals := Scans.mark (c := '=') rfl (Scans.blank (c := ' ') rfl hvalue)
    have htype := Scans.type hspec.base (boundary (by decide) _)
      (Scans.blank (c := ' ') rfl hequals)
    have hname := Scans.name hspec.name (boundary (by decide) _)
      (Scans.mark (c := ':') rfl (Scans.blank (c := ' ') rfl htype))
    simpa [ArgumentSpec.definition, ArgumentSpec.tree, ArgumentDefinition.tokens,
      descriptionTokens, Value.text] using hname

/-- An indented line. -/
theorem line {indent : String} (hindent : ∀ c ∈ indent.toList, isBlank c) {text : String}
    {toks : List Token}
    (htext : ∀ cs tokens, IsBoundary cs → Scans cs tokens →
      Scans (text.toList ++ cs) (toks ++ tokens))
    (h : Scans cs tokens) : Scans ((line (indent ++ text)).toList ++ cs) (toks ++ tokens) := by
  have hline := Scans.blanks hindent
    (htext _ _ (boundary (by decide) _) (Scans.blank (c := '\n') rfl h))
  simpa [Gazette.line] using hline

theorem isBlank_of_mem_fieldIndent : ∀ c ∈ fieldIndent.toList, isBlank c :=
  List.all_eq_true.1 (show fieldIndent.toList.all isBlank = true by decide)

theorem isBlank_of_mem_argumentIndent : ∀ c ∈ argumentIndent.toList, isBlank c :=
  List.all_eq_true.1 (show argumentIndent.toList.all isBlank = true by decide)

/-- The definition of an argument on a line of its own. -/
theorem describedArgument {spec : ArgumentSpec} (hspec : spec.IsPrintable) (h : Scans cs tokens) :
    Scans ((describe argumentIndent spec.description ++
      Gazette.line (argumentIndent ++ spec.definition)).toList ++ cs)
        (spec.tree.tokens ++ tokens) := by
  have hline := line isBlank_of_mem_argumentIndent (fun _ _ hcs h => argument hspec hcs h) h
  have hdescribed := description isBlank_of_mem_argumentIndent spec.description hline
  simpa [ArgumentSpec.tree, ArgumentDefinition.tokens, descriptionTokens] using hdescribed

theorem flatMap {α : Type} {text : α → String} {toks : α → List Token} {items : List α}
    (hitem : ∀ item ∈ items, ∀ cs tokens, Scans cs tokens →
      Scans ((text item).toList ++ cs) (toks item ++ tokens)) (h : Scans cs tokens) :
    Scans ((String.join (items.map text)).toList ++ cs) (items.flatMap toks ++ tokens) := by
  rw [String.toList_join]
  induction items with
  | nil => exact h
  | cons item items ih =>
    have hrest := hitem item (.head _) _ _ (ih fun i hi => hitem i (.tail _ hi))
    simpa using hrest

theorem arguments {specs : List ArgumentSpec} (hspecs : ∀ spec ∈ specs, spec.IsPrintable)
    (h : Scans cs tokens) :
    Scans ((argumentDefinitions specs).toList ++ cs)
      (argumentTokens (specs.map ArgumentSpec.tree) ++ tokens) := by
  unfold argumentDefinitions
  split
  · rename_i hempty
    rw [List.isEmpty_iff.1 hempty]
    exact h
  · rename_i hempty
    have hclose := Scans.mark (c := ')') rfl h
    split
    · have hindented := Scans.blanks isBlank_of_mem_fieldIndent hclose
      have hitems := flatMap
        (fun spec hspec _ _ h => describedArgument (hspecs spec hspec) h) hindented
      have hopen := Scans.mark (c := '(') rfl (Scans.blank (c := '\n') rfl hitems)
      simpa [argumentTokens, hempty, Gazette.line, List.flatMap_map] using hopen
    · rename_i hplain
      have hitem : ∀ spec ∈ specs, ∀ cs tokens, IsBoundary cs → Scans cs tokens →
          Scans (spec.definition.toList ++ cs) (spec.tree.tokens ++ tokens) := by
        intro spec hspec cs tokens hcs h
        have hnone : spec.description = none := by
          by_contra hsome
          exact hplain (List.any_eq_true.2 ⟨spec, hspec, Option.isSome_iff_ne_none.2 hsome⟩)
        have htree : spec.tree = { spec.tree with description := none } := by
          rw [ArgumentSpec.tree, hnone]
          rfl
        rw [htree]
        exact argument (hspecs spec hspec) hcs h
      have hitems := separated hitem (boundary (c := ')') (by decide) cs) hclose
      have hopen := Scans.mark (c := '(') rfl hitems
      simpa [argumentTokens, hempty, String.toList_intercalate, List.flatMap_map,
        Function.comp_def] using hopen

theorem isBoundary_arguments (specs : List ArgumentSpec) (hcs : IsBoundary cs) :
    IsBoundary ((argumentDefinitions specs).toList ++ cs) := by
  unfold argumentDefinitions
  split
  · exact hcs
  · split
    · simpa [Gazette.line] using boundary (c := '(') (by decide) _
    · simpa using boundary (c := '(') (by decide) _

theorem field {f : Field σ ν} (hf : f.IsPrintable) (h : Scans cs tokens) :
    Scans (f.definition.toList ++ cs) (f.tree.tokens ++ tokens) := by
  have htype (cs tokens) (hcs : IsBoundary cs) (h : Scans cs tokens) :
      Scans ((f.name ++ argumentDefinitions f.arguments ++ ": " ++ f.type.text).toList ++ cs)
        ({ f.tree with description := none }.tokens ++ tokens) := by
    have hcolon := Scans.mark (c := ':') rfl (Scans.blank (c := ' ') rfl (Scans.type hf.base hcs h))
    have hname := Scans.name hf.name
      (isBoundary_arguments f.arguments (boundary (by decide) _)) (arguments hf.arguments hcolon)
    simpa [Field.tree, FieldDefinition.tokens, descriptionTokens] using hname
  have hdescribed := description isBlank_of_mem_fieldIndent f.description
    (line isBlank_of_mem_fieldIndent htype h)
  simpa [Field.definition, Field.tree, FieldDefinition.tokens, descriptionTokens,
    String.append_assoc] using hdescribed

theorem interfaceField {f : InterfaceField} (hf : f.IsPrintable) (h : Scans cs tokens) :
    Scans (f.definition.toList ++ cs) (f.tree.tokens ++ tokens) := by
  have htype (cs tokens) (hcs : IsBoundary cs) (h : Scans cs tokens) :
      Scans ((f.name ++ ": " ++ f.type.text).toList ++ cs)
        ({ f.tree with description := none }.tokens ++ tokens) := by
    have hcolon := Scans.mark (c := ':') rfl (Scans.blank (c := ' ') rfl (Scans.type hf.base hcs h))
    have hname := Scans.name hf.name (boundary (by decide) _) hcolon
    simpa [InterfaceField.tree, FieldDefinition.tokens, descriptionTokens,
      argumentTokens] using hname
  have hdescribed := description isBlank_of_mem_fieldIndent f.description
    (line isBlank_of_mem_fieldIndent htype h)
  simpa [InterfaceField.definition, InterfaceField.tree, FieldDefinition.tokens, descriptionTokens,
    argumentTokens, String.append_assoc] using hdescribed

theorem enumValue {value : String} (hvalue : isName value.toList) (h : Scans cs tokens) :
    Scans ((Gazette.line (fieldIndent ++ value)).toList ++ cs)
      ((⟨none, value⟩ : ValueDefinition).tokens ++ tokens) := by
  have hname (cs tokens) (hcs : IsBoundary cs) (h : Scans cs tokens) :
      Scans (value.toList ++ cs) ([.name value] ++ tokens) := Scans.name hvalue hcs h
  exact line isBlank_of_mem_fieldIndent hname h

/-! ### Types -/

theorem bracedTokens_map {α β : Type} (toks : β → List Token) (f : α → β) (items : List α) :
    bracedTokens toks (items.map f) = bracedTokens (fun item => toks (f item)) items := by
  simp [bracedTokens, List.flatMap_map]

/-- Lines between braces after a head. -/
theorem braced {α : Type} {head : String} {headTokens : List Token} {text : α → String}
    {toks : α → List Token} {items : List α}
    (hhead : ∀ cs tokens, IsBoundary cs → Scans cs tokens →
      Scans (head.toList ++ cs) (headTokens ++ tokens))
    (hitem : ∀ item ∈ items, ∀ cs tokens, Scans cs tokens →
      Scans ((text item).toList ++ cs) (toks item ++ tokens)) (h : Scans cs tokens) :
    Scans ((braced head (items.map text)).toList ++ cs)
      (headTokens ++ bracedTokens toks items ++ tokens) := by
  have hclose := Scans.mark (c := '}') rfl (Scans.blank (c := '\n') rfl h)
  have hitems := Scans.blank (c := '\n') rfl (flatMap hitem hclose)
  have hopen := Scans.blank (c := ' ') rfl (Scans.mark (c := '{') rfl hitems)
  have hall := hhead _ _ (boundary (by decide) _) hopen
  simpa [Gazette.braced, Gazette.line, bracedTokens] using hall

/-- The word for a kind of types and the name of a type. -/
theorem head {keyword name : String} (hkeyword : isName keyword.toList) (hname : isName name.toList)
    (hcs : IsBoundary cs) (h : Scans cs tokens) :
    Scans ((keyword ++ " " ++ name).toList ++ cs) ([.name keyword, .name name] ++ tokens) := by
  have hall := Scans.name hkeyword (boundary (by decide) _)
    (Scans.blank (c := ' ') rfl (Scans.name hname hcs h))
  simpa using hall

theorem names {names : List String} (hne : names ≠ []) (hnames : ∀ name ∈ names, isName name.toList)
    (hcs : IsBoundary cs) (h : Scans cs tokens) :
    Scans ([' ', '&', ' '].intercalate (names.map String.toList) ++ cs)
      (nameTokens names ++ tokens) := by
  induction names with
  | nil => exact absurd rfl hne
  | cons name names ih =>
    cases names with
    | nil => simpa [nameTokens] using Scans.name (hnames name (.head _)) hcs h
    | cons next names =>
      have hrest := ih (List.cons_ne_nil _ _) fun n hn => hnames n (.tail _ hn)
      have hmark := Scans.blank (c := ' ') rfl
        (Scans.mark (c := '&') rfl (Scans.blank (c := ' ') rfl hrest))
      have hfirst := Scans.name (hnames name (.head _)) (boundary (by decide) _) hmark
      simpa [List.intercalate_cons_cons, nameTokens] using hfirst

/-- The name of an object and the interfaces that it implements. -/
theorem objectHead {o : ObjectType σ ν} (hname : isName o.name.toList)
    (hnames : ∀ name ∈ o.implements, isName name.toList) (hcs : IsBoundary cs)
    (h : Scans cs tokens) :
    Scans (("type " ++ o.name ++ if o.implements.isEmpty then "" else
      " implements " ++ String.intercalate " & " o.implements).toList ++ cs)
        (.name "type" :: .name o.name :: implementsTokens o.implements ++ tokens) := by
  by_cases hempty : o.implements.isEmpty
  · have hhead := head (show isName "type".toList by decide) hname hcs h
    simpa [hempty, implementsTokens] using hhead
  · have hlist := names (mt List.isEmpty_iff.2 hempty) hnames hcs h
    have hword := Scans.blank (c := ' ') rfl
      (Scans.name (show isName "implements".toList by decide) (boundary (by decide) _)
        (Scans.blank (c := ' ') rfl hlist))
    have hhead := head (show isName "type".toList by decide) hname (boundary (by decide) _) hword
    simpa [hempty, implementsTokens, String.toList_intercalate] using hhead

theorem body {t : NamedType σ ν} (ht : t.IsPrintable) (h : Scans cs tokens) :
    Scans (t.body.toList ++ cs)
      (.name t.tree.body.keyword :: .name t.name :: (t.tree.body.tokens ++ tokens)) := by
  obtain ⟨hname, hbody⟩ := ht
  cases t with
  | scalar t =>
    have hhead := head (show isName "scalar".toList by decide) hname (boundary (by decide) _)
      (Scans.blank (c := '\n') rfl h)
    simpa [NamedType.body, Gazette.line, NamedType.tree, NamedType.bodyTree, NamedType.name,
      TypeBody.keyword, TypeBody.tokens] using hhead
  | enum e =>
    have hbraced := braced
      (fun _ _ hcs h => head (show isName "enum".toList by decide) hname hcs h)
      (fun value hvalue _ _ h => enumValue (hbody value hvalue).1 h) h
    simpa [NamedType.body, NamedType.tree, NamedType.bodyTree, NamedType.name, TypeBody.keyword,
      TypeBody.tokens, bracedTokens_map] using hbraced
  | object o =>
    have hbraced := braced (fun _ _ hcs h => objectHead hname hbody.1 hcs h)
      (fun f hf _ _ h => field (hbody.2 f hf) h) h
    simpa [NamedType.body, NamedType.tree, NamedType.bodyTree, NamedType.name, TypeBody.keyword,
      TypeBody.tokens, bracedTokens_map] using hbraced
  | interface i =>
    have hbraced := braced
      (fun _ _ hcs h => head (show isName "interface".toList by decide) hname hcs h)
      (fun f hf _ _ h => interfaceField (hbody f hf) h) h
    simpa [NamedType.body, NamedType.tree, NamedType.bodyTree, NamedType.name, TypeBody.keyword,
      TypeBody.tokens, bracedTokens_map] using hbraced

/-- A type with its description above it. -/
theorem namedType {t : NamedType σ ν} (ht : t.IsPrintable) (h : Scans cs tokens) :
    Scans (t.definition.toList ++ cs) (t.tree.tokens ++ tokens) := by
  have hdescribed := description (show ∀ c ∈ "".toList, isBlank c by simp) t.description
    (body ht h)
  simpa [NamedType.definition, TypeDefinition.tokens, NamedType.tree] using hdescribed

/-! ### Registries -/

theorem root {root : String × String} (hoperation : isName root.1.toList)
    (hname : isName root.2.toList) (h : Scans cs tokens) :
    Scans ((Gazette.line (fieldIndent ++ (root.1 ++ ": " ++ root.2))).toList ++ cs)
      (rootTokens root ++ tokens) := by
  refine line isBlank_of_mem_fieldIndent (fun cs tokens hcs h => ?_) h
  have hcolon := Scans.mark (c := ':') rfl (Scans.blank (c := ' ') rfl (Scans.name hname hcs h))
  simpa [rootTokens] using Scans.name hoperation (boundary (by decide) _) hcolon

end Sdl.Scans

/-- Whether the types of a registry and the names of its roots can be printed. -/
structure Registry.IsPrintable (r : Registry σ ν) : Prop where
  types : ∀ t ∈ r.declaredTypes, t.IsPrintable
  query : isName r.query.toList
  mutation : ∀ name ∈ r.mutation, isName name.toList

namespace Registry

variable {r : Registry σ ν}

theorem rootDefinition_eq (r : Registry σ ν) : r.rootDefinition = braced "schema"
    (r.rootTrees.map fun root => line (fieldIndent ++ (root.1 ++ ": " ++ root.2))) := by
  rw [rootDefinition, rootTrees]
  cases r.mutation <;> exact String.toList_inj.1 (by simp [braced, line, fieldIndent])

theorem scans_definition (h : r.IsPrintable) :
    Scans r.definition.toList (r.trees.flatMap Definition.tokens) := by
  have hroots : Scans (r.rootDefinition.toList ++ [])
      ([.name "schema"] ++ bracedTokens rootTokens r.rootTrees ++ []) := by
    rw [rootDefinition_eq]
    refine Scans.braced
      (fun _ _ hcs h => Scans.name (show isName "schema".toList by decide) hcs h) ?_ scans_nil
    intro root hroot cs tokens
    rcases List.mem_cons.1 hroot with rfl | hroot
    · exact Scans.root (show isName "query".toList by decide) h.query
    · obtain ⟨name, hname, rfl⟩ := Option.map_eq_some_iff.1 (Option.mem_toList.1 hroot)
      exact Scans.root (show isName "mutation".toList by decide) (h.mutation name hname)
  have htype : ∀ t ∈ r.declaredTypes, ∀ cs tokens, Scans cs tokens →
      Scans ((line t.definition).toList ++ cs) (t.tree.tokens ++ tokens) := by
    intro t ht cs tokens hcs
    simpa [line] using Scans.namedType (h.types t ht) (Scans.blank (c := '\n') rfl hcs)
  have htypes := Scans.flatMap htype hroots
  simpa [definition, trees, List.flatMap_map, Definition.tokens] using htypes

end Registry

/-! ## Reading -/

theorem Value.IsLiteral.isWritable_constant {v : Value} (h : v.IsLiteral) :
    v.constant.IsWritable := by
  induction h with
  | null => exact .null
  | boolean b => exact .boolean b
  | number _ => exact .number _
  | string s => exact .string _
  | enum _ hword => exact .enum hword
  | list _ ih =>
    rw [Value.constant, Value.constants_eq_map]
    exact .list (List.forall_mem_map.2 ih)

theorem ArgumentSpec.IsPrintable.isWritable_tree {spec : ArgumentSpec} (h : spec.IsPrintable) :
    spec.tree.IsWritable where
  type := h.type
  default value hvalue := by
    obtain ⟨v, hv, rfl⟩ := Option.map_eq_some_iff.1 hvalue
    exact (h.default v hv).isWritable_constant

theorem Field.IsPrintable.isWritable_tree {f : Field σ ν} (h : f.IsPrintable) :
    f.tree.IsWritable where
  arguments := List.forall_mem_map.2 fun spec hspec => (h.arguments spec hspec).isWritable_tree
  type := h.type

theorem NamedType.IsPrintable.isWritable_tree {t : NamedType σ ν} (h : t.IsPrintable) :
    t.tree.body.IsWritable := by
  cases t with
  | scalar t => trivial
  | enum e => exact List.forall_mem_map.2 fun value hvalue => (h.body value hvalue).2
  | object o => exact List.forall_mem_map.2 fun f hf => (h.body.2 f hf).isWritable_tree
  | interface i =>
    exact List.forall_mem_map.2 fun f hf => ⟨List.forall_mem_nil _, (h.body f hf).type⟩

/-- The definition of a registry is read as the trees of its types and roots. -/
theorem Registry.ofText?_definition {r : Registry σ ν} (h : r.IsPrintable) :
    Definition.ofText? r.definition = some r.trees := by
  have hwritable : ∀ d ∈ r.trees, d.IsWritable := by
    intro d hd
    rcases List.mem_append.1 hd with hd | hd
    · obtain ⟨t, ht, rfl⟩ := List.mem_map.1 hd
      exact (h.types t ht).isWritable_tree
    · obtain rfl := List.mem_singleton.1 hd
      intro root hroot
      rcases List.mem_cons.1 hroot with rfl | hroot
      · exact .head _
      · obtain ⟨name, -, rfl⟩ := Option.map_eq_some_iff.1 (Option.mem_toList.1 hroot)
        exact .tail _ (.head _)
  rw [Definition.ofText?, tokens?_eq_some (scans_definition h), Option.bind_some,
    read?_tokens hwritable]

end Gazette
