import Gazette.Proofs.Definition.Token
import Gazette.TypeRef

/-!
# The grammar of schema definitions

A schema definition is a sequence of definitions of types and of the roots (`Definition`).
`Definition.ofText?` reads a text by the grammar of the schema definition language, for the kinds of
types that a registry has and without directives.  It lets the members of a type be none, which the
grammar does not: `TypeDefinition.HasMembers` asks for them.

Each tree has its tokens, and it is what they are read as (`read?_tokens`).
-/

namespace Gazette.Sdl

/-! ## Trees -/

/-- A literal without variables. -/
inductive Constant where
  | null
  | boolean (value : Bool)
  | number (parts : Number.Lexeme)
  | string (text : StringText)
  | enum (name : String)
  | list (items : List Constant)

/-- The definition of an argument, as the grammar has it. -/
structure ArgumentDefinition where
  description : Option StringText
  name : String
  type : TypeRef
  default : Option Constant

/-- The definition of a field. -/
structure FieldDefinition where
  description : Option StringText
  name : String
  arguments : List ArgumentDefinition
  type : TypeRef

/-- The definition of a value of an enum. -/
structure ValueDefinition where
  description : Option StringText
  name : String

/-- What a type is defined as. -/
inductive TypeBody where
  | scalar
  | enum (values : List ValueDefinition)
  | object (implements : List String) (fields : List FieldDefinition)
  | interface (fields : List FieldDefinition)

/-- The definition of a type. -/
structure TypeDefinition where
  description : Option StringText
  name : String
  body : TypeBody

/-- The definition of a type, or of the roots, each after the kind of its operations. -/
inductive Definition where
  | type (type : TypeDefinition)
  | roots (roots : List (String × String))

/-- The words that are literals of their own and cannot name values of enums. -/
def isLiteralWord (name : String) : Bool := name = "true" || name = "false" || name = "null"

/-! ## Reading -/

/-- The tokens after a mark, if they start with it. -/
def skipMark? (mark : Char) : List Token → Option (List Token)
  | .mark c :: rest => if c = mark then some rest else none
  | _ => none

/-- A name and the tokens after it. -/
def takeName : List Token → Option (String × List Token)
  | .name name :: rest => some (name, rest)
  | _ => none

/-- A description, if there is one, and the tokens after it. -/
def takeDescription : List Token → Option StringText × List Token
  | .string text :: rest => (some text, rest)
  | tokens => (none, tokens)

/-- What `take` reads again and again up to a closing mark, at most `fuel` times. -/
def takeUntil {α : Type} (close : Char) (take : List Token → Option (α × List Token)) :
    (fuel : Nat) → List Token → Option (List α × List Token)
  | 0, _ => none
  | fuel + 1, tokens =>
    match skipMark? close tokens with
    | some rest => some ([], rest)
    | none => do
      let (item, rest) ← take tokens
      let (items, rest) ← takeUntil close take fuel rest
      return (item :: items, rest)

/-- A type as it stands before a possible mark for non-null types. -/
def takeRequired (type : TypeRef) : List Token → TypeRef × List Token
  | .mark '!' :: rest => (.nonNull type, rest)
  | tokens => (type, tokens)

/-- A type and the tokens after it. -/
def takeType : List Token → Option (TypeRef × List Token)
  | .name name :: rest => some (takeRequired (.named name) rest)
  | .mark '[' :: rest =>
    match takeType rest with
    | some (item, .mark ']' :: rest) => some (takeRequired (.list item) rest)
    | _ => none
  | _ => none

/-- What a name is as a constant: a word for a truth value or null, or a member of an enum. -/
def Constant.ofName (name : String) : Constant :=
  if name = "true" then .boolean true
  else if name = "false" then .boolean false
  else if name = "null" then .null
  else .enum name

/-- A constant and the tokens after it. -/
def takeConstant : (fuel : Nat) → List Token → Option (Constant × List Token)
  | 0, _ => none
  | _ + 1, .string text :: rest => some (.string text, rest)
  | _ + 1, .number parts :: rest => some (.number parts, rest)
  | _ + 1, .name name :: rest => some (.ofName name, rest)
  | fuel + 1, .mark '[' :: rest =>
    (takeUntil ']' (takeConstant fuel) (rest.length + 1) rest).map fun (items, rest) =>
      (.list items, rest)
  | _ + 1, _ => none

/-- The default of an argument, if there is one, and the tokens after it. -/
def takeDefault (tokens : List Token) : Option (Option Constant × List Token) :=
  match skipMark? '=' tokens with
  | some rest => (takeConstant rest.length rest).map fun (value, rest) => (some value, rest)
  | none => some (none, tokens)

/-- The definition of an argument and the tokens after it. -/
def takeArgument (tokens : List Token) : Option (ArgumentDefinition × List Token) := do
  let (description, rest) := takeDescription tokens
  let (name, rest) ← takeName rest
  let (type, rest) ← takeType (← skipMark? ':' rest)
  let (default, rest) ← takeDefault rest
  return (⟨description, name, type, default⟩, rest)

/-- The arguments between parentheses, at least one; none if there are no parentheses. -/
def takeArguments (tokens : List Token) : Option (List ArgumentDefinition × List Token) :=
  match skipMark? '(' tokens with
  | some rest =>
    (takeUntil ')' takeArgument (rest.length + 1) rest).filter fun (read, _) => !read.isEmpty
  | none => some ([], tokens)

/-- The definition of a field and the tokens after it. -/
def takeField (tokens : List Token) : Option (FieldDefinition × List Token) := do
  let (description, rest) := takeDescription tokens
  let (name, rest) ← takeName rest
  let (arguments, rest) ← takeArguments rest
  let (type, rest) ← takeType (← skipMark? ':' rest)
  return (⟨description, name, arguments, type⟩, rest)

/-- The definition of a value of an enum and the tokens after it. -/
def takeValue (tokens : List Token) : Option (ValueDefinition × List Token) := do
  let (description, rest) := takeDescription tokens
  let (name, rest) ← takeName rest
  if isLiteralWord name then none else return (⟨description, name⟩, rest)

/-- Items in braces and the tokens after them. -/
def takeBraced {α : Type} (take : List Token → Option (α × List Token)) (tokens : List Token) :
    Option (List α × List Token) := do
  let rest ← skipMark? '{' tokens
  takeUntil '}' take (rest.length + 1) rest

/-- Names with marks between them. -/
def takeNames : List Token → Option (List String × List Token)
  | .name name :: .mark '&' :: rest =>
    (takeNames rest).map fun (names, rest) => (name :: names, rest)
  | .name name :: rest => some ([name], rest)
  | _ => none

/-- The interfaces of an object after the word for them; none without the word. -/
def takeImplements : List Token → Option (List String × List Token)
  | .name "implements" :: .mark '&' :: rest => takeNames rest
  | .name "implements" :: rest => takeNames rest
  | tokens => some ([], tokens)

/-- What stands after the name of a type that a keyword starts, and the tokens after that. -/
def takeBody (keyword : String) (tokens : List Token) : Option (TypeBody × List Token) :=
  if keyword = "scalar" then some (.scalar, tokens)
  else if keyword = "enum" then
    (takeBraced takeValue tokens).map fun (values, rest) => (.enum values, rest)
  else if keyword = "interface" then
    (takeBraced takeField tokens).map fun (fields, rest) => (.interface fields, rest)
  else if keyword = "type" then do
    let (implements, rest) ← takeImplements tokens
    let (fields, rest) ← takeBraced takeField rest
    return (.object implements fields, rest)
  else none

/-- The definition of a type and the tokens after it. -/
def takeTypeDefinition (tokens : List Token) : Option (TypeDefinition × List Token) := do
  let (description, rest) := takeDescription tokens
  let (keyword, rest) ← takeName rest
  let (name, rest) ← takeName rest
  let (body, rest) ← takeBody keyword rest
  return (⟨description, name, body⟩, rest)

/-- A root with its operation and the tokens after it. -/
def takeRoot (tokens : List Token) : Option ((String × String) × List Token) := do
  let (operation, rest) ← takeName tokens
  let (name, rest) ← takeName (← skipMark? ':' rest)
  if operation = "query" || operation = "mutation" || operation = "subscription" then
    return ((operation, name), rest)
  else none

/-- A definition and the tokens after it. -/
def takeDefinition : List Token → Option (Definition × List Token)
  | .name "schema" :: rest =>
    (takeBraced takeRoot rest).map fun (roots, rest) => (.roots roots, rest)
  | tokens => (takeTypeDefinition tokens).map fun (type, rest) => (.type type, rest)

/-- The definitions that tokens make up. -/
def takeDefinitions : (fuel : Nat) → List Token → Option (List Definition)
  | _, [] => some []
  | 0, _ => none
  | fuel + 1, tokens => do
    let (definition, rest) ← takeDefinition tokens
    return definition :: (← takeDefinitions fuel rest)

/-- The definitions that tokens stand for. -/
def read? (tokens : List Token) : Option (List Definition) := takeDefinitions tokens.length tokens

/-- The definitions of a text; none if the text is not of the language. -/
def Definition.ofText? (source : String) : Option (List Definition) := (tokens? source).bind read?

/-! ## The tokens of trees -/

mutual

/-- The tokens of a constant. -/
def Constant.tokens : Constant → List Token
  | .null => [.name "null"]
  | .boolean true => [.name "true"]
  | .boolean false => [.name "false"]
  | .number parts => [.number parts]
  | .string text => [.string text]
  | .enum name => [.name name]
  | .list items => .mark '[' :: (itemTokens items ++ [.mark ']'])

/-- The tokens of the items of a list. -/
def itemTokens : List Constant → List Token
  | [] => []
  | item :: rest => item.tokens ++ itemTokens rest

end

theorem itemTokens_eq_flatMap (items : List Constant) :
    itemTokens items = items.flatMap Constant.tokens := by
  induction items with
  | nil => rfl
  | cons item rest ih => rw [itemTokens, ih, List.flatMap_cons]

/-- The tokens of a type. -/
def typeTokens : TypeRef → List Token
  | .named name => [.name name]
  | .nonNull inner => typeTokens inner ++ [.mark '!']
  | .list item => .mark '[' :: (typeTokens item ++ [.mark ']'])

/-- The tokens of a description, if there is one. -/
def descriptionTokens (description : Option StringText) : List Token :=
  (description.map Token.string).toList

/-- The tokens of the definition of an argument. -/
def ArgumentDefinition.tokens (a : ArgumentDefinition) : List Token :=
  descriptionTokens a.description ++ .name a.name :: .mark ':' :: (typeTokens a.type ++
    a.default.elim [] fun value => .mark '=' :: value.tokens)

/-- The tokens of arguments in brackets; none if there are no arguments. -/
def argumentTokens (arguments : List ArgumentDefinition) : List Token :=
  if arguments.isEmpty then []
  else .mark '(' :: (arguments.flatMap ArgumentDefinition.tokens ++ [.mark ')'])

/-- The tokens of the definition of a field. -/
def FieldDefinition.tokens (f : FieldDefinition) : List Token :=
  descriptionTokens f.description ++ .name f.name :: (argumentTokens f.arguments ++
    .mark ':' :: typeTokens f.type)

/-- The tokens of the definition of a value of an enum. -/
def ValueDefinition.tokens (v : ValueDefinition) : List Token :=
  descriptionTokens v.description ++ [.name v.name]

/-- The tokens of items in braces. -/
def bracedTokens {α : Type} (tokens : α → List Token) (items : List α) : List Token :=
  .mark '{' :: (items.flatMap tokens ++ [.mark '}'])

/-- The tokens of names with ampersands between them. -/
def nameTokens : List String → List Token
  | [] => []
  | [name] => [.name name]
  | name :: rest => .name name :: .mark '&' :: nameTokens rest

/-- The tokens for the interfaces of an object; none if there are none. -/
def implementsTokens (names : List String) : List Token :=
  if names.isEmpty then [] else .name "implements" :: nameTokens names

/-- The keyword that starts the definition of a type. -/
def TypeBody.keyword : TypeBody → String
  | scalar => "scalar"
  | enum _ => "enum"
  | object .. => "type"
  | interface _ => "interface"

/-- The tokens after the name of a type. -/
def TypeBody.tokens : TypeBody → List Token
  | scalar => []
  | enum values => bracedTokens ValueDefinition.tokens values
  | object implements fields =>
    implementsTokens implements ++ bracedTokens FieldDefinition.tokens fields
  | interface fields => bracedTokens FieldDefinition.tokens fields

/-- The tokens of the definition of a type. -/
def TypeDefinition.tokens (t : TypeDefinition) : List Token :=
  descriptionTokens t.description ++ .name t.body.keyword :: .name t.name :: t.body.tokens

/-- The tokens of a root with its operation. -/
def rootTokens (root : String × String) : List Token :=
  [.name root.1, .mark ':', .name root.2]

/-- The tokens of a definition. -/
def Definition.tokens : Definition → List Token
  | .type t => t.tokens
  | .roots items => .name "schema" :: bracedTokens rootTokens items

/-! ## Trees that can be written -/

/-- Whether a type has no mark for non-null types after another. -/
def isWritable : TypeRef → Bool
  | .named _ => true
  | .nonNull inner => !inner.isNonNull && isWritable inner
  | .list item => isWritable item

/-- Whether the tokens of a constant stand for it: no member of an enum is a word. -/
inductive Constant.IsWritable : Constant → Prop
  | null : IsWritable .null
  | boolean (value : Bool) : IsWritable (.boolean value)
  | number (parts : Number.Lexeme) : IsWritable (.number parts)
  | string (text : StringText) : IsWritable (.string text)
  | enum {name : String} (h : isLiteralWord name = false) : IsWritable (.enum name)
  | list {items : List Constant} (h : ∀ item ∈ items, IsWritable item) : IsWritable (.list items)

/-- Whether the tokens of an argument stand for it. -/
structure ArgumentDefinition.IsWritable (a : ArgumentDefinition) : Prop where
  type : Sdl.isWritable a.type
  default : ∀ value ∈ a.default, value.IsWritable

/-- Whether the tokens of a field stand for it. -/
structure FieldDefinition.IsWritable (f : FieldDefinition) : Prop where
  arguments : ∀ a ∈ f.arguments, a.IsWritable
  type : Sdl.isWritable f.type

/-- Whether the tokens of what is in a type stand for it. -/
def TypeBody.IsWritable : TypeBody → Prop
  | scalar => True
  | enum values => ∀ v ∈ values, isLiteralWord v.name = false
  | object _ fields | interface fields => ∀ f ∈ fields, f.IsWritable

/-- Whether the tokens of a definition stand for it. -/
def Definition.IsWritable : Definition → Prop
  | .type t => t.body.IsWritable
  | .roots items => ∀ root ∈ items, root.1 ∈ ["query", "mutation", "subscription"]

/-! ## Trees are read from their tokens -/

section SkipMark

variable (mark c : Char) (rest : List Token)

@[simp]
theorem skipMark?_nil : skipMark? mark [] = none := rfl

@[simp]
theorem skipMark?_mark :
    skipMark? mark (.mark c :: rest) = if c = mark then some rest else none := rfl

@[simp]
theorem skipMark?_name (name : String) : skipMark? mark (.name name :: rest) = none := rfl

@[simp]
theorem skipMark?_string (text : StringText) : skipMark? mark (.string text :: rest) = none := rfl

end SkipMark

/-- Whether tokens do not go on with a type or an argument that stands before them. -/
def Ends (tokens : List Token) : Prop :=
  skipMark? '!' tokens = none ∧ skipMark? '=' tokens = none

/-- Whether tokens begin an item among others: no mark that goes on with an item before or closes
the list of them. -/
def BeginsItem (close : Char) : List Token → Prop
  | .mark c :: _ => c ≠ '!' ∧ c ≠ '=' ∧ c ≠ close
  | _ :: _ => True
  | [] => False

theorem BeginsItem.skipMark?_append {close : Char} {tokens : List Token}
    (h : BeginsItem close tokens) (rest : List Token) :
    skipMark? close (tokens ++ rest) = none := by
  cases tokens with
  | nil => exact h.elim
  | cons t tokens =>
    cases t with
    | mark c => exact if_neg h.2.2
    | _ => rfl

theorem BeginsItem.ends_append {close : Char} {tokens : List Token} (h : BeginsItem close tokens)
    (rest : List Token) : Ends (tokens ++ rest) := by
  cases tokens with
  | nil => exact h.elim
  | cons t tokens =>
    cases t with
    | mark c => exact ⟨if_neg h.1, if_neg h.2.1⟩
    | _ => exact ⟨rfl, rfl⟩

theorem BeginsItem.length_pos {close : Char} {tokens : List Token} (h : BeginsItem close tokens) :
    0 < tokens.length := by
  cases tokens with
  | nil => exact h.elim
  | cons t tokens => exact Nat.succ_pos _

section Items

variable {α : Type} {close : Char} {take : List Token → Option (α × List Token)}
  {tokens : α → List Token}

/-- Items are read up to the closing mark if each is read up to the next. -/
theorem takeUntil_flatMap {items : List α} (hbegin : ∀ item ∈ items, BeginsItem close (tokens item))
    (htake : ∀ item ∈ items, ∀ rest, Ends rest →
      take (tokens item ++ rest) = some (item, rest))
    (hclose : close ≠ '!' ∧ close ≠ '=') {fuel : Nat}
    (hfuel : (items.flatMap tokens).length < fuel) (rest : List Token) :
    takeUntil close take fuel (items.flatMap tokens ++ .mark close :: rest) =
      some (items, rest) := by
  induction items generalizing fuel with
  | nil =>
    obtain ⟨fuel, rfl⟩ := Nat.exists_eq_succ_of_ne_zero (Nat.ne_of_gt (Nat.zero_lt_of_lt hfuel))
    simp [takeUntil, skipMark?]
  | cons item items ih =>
    obtain ⟨fuel, rfl⟩ := Nat.exists_eq_succ_of_ne_zero (Nat.ne_of_gt (Nat.zero_lt_of_lt hfuel))
    have hitem := hbegin item (.head _)
    have hends : Ends (items.flatMap tokens ++ .mark close :: rest) := by
      cases items with
      | nil => exact ⟨if_neg hclose.1, if_neg hclose.2⟩
      | cons next items =>
        rw [List.flatMap_cons, List.append_assoc]
        exact (hbegin next (.tail _ (.head _))).ends_append _
    have hlength : (items.flatMap tokens).length < fuel := by
      have hpos := hitem.length_pos
      rw [List.flatMap_cons, List.length_append] at hfuel
      omega
    rw [List.flatMap_cons, List.append_assoc, takeUntil, hitem.skipMark?_append,
      htake item (.head _) _ hends]
    simp [ih (fun i hi => hbegin i (.tail _ hi)) (fun i hi => htake i (.tail _ hi)) hlength]

theorem takeBraced_bracedTokens {items : List α}
    (hbegin : ∀ item ∈ items, BeginsItem '}' (tokens item))
    (htake : ∀ item ∈ items, ∀ rest, Ends rest →
      take (tokens item ++ rest) = some (item, rest)) (rest : List Token) :
    takeBraced take (bracedTokens tokens items ++ rest) = some (items, rest) := by
  have hlength : (items.flatMap tokens).length <
      (items.flatMap tokens ++ .mark '}' :: rest).length + 1 := by
    rw [List.length_append]
    omega
  have hread := takeUntil_flatMap hbegin htake (by decide) hlength rest
  simp only [takeBraced, bracedTokens, List.cons_append, List.append_assoc, List.nil_append,
    skipMark?, if_true]
  exact hread

end Items

/-! ### Types and constants -/

theorem takeRequired_of_skipMark? {type : TypeRef} {rest : List Token}
    (h : skipMark? '!' rest = none) : takeRequired type rest = (type, rest) := by
  rw [takeRequired]
  rintro tokens rfl
  cases h

/-- A type is read up to the mark for non-null types, and with it if there is one. -/
theorem takeType_append {type : TypeRef} (h : isWritable type) :
    (type.isNonNull = false → ∀ rest,
      takeType (typeTokens type ++ rest) = some (takeRequired type rest)) ∧
    ∀ rest, skipMark? '!' rest = none → takeType (typeTokens type ++ rest) = some (type, rest) := by
  induction type with
  | named name =>
    have htake (rest) : takeType (typeTokens (.named name) ++ rest) =
        some (takeRequired (.named name) rest) := rfl
    refine ⟨fun _ => htake, fun rest hrest => ?_⟩
    rw [htake, takeRequired_of_skipMark? hrest]
  | nonNull inner ih =>
    rw [isWritable, Bool.and_eq_true, Bool.not_eq_true'] at h
    refine ⟨nofun, fun rest _ => ?_⟩
    rw [typeTokens, List.append_assoc, (ih h.2).1 h.1]
    rfl
  | list item ih =>
    have htake (rest) : takeType (typeTokens (.list item) ++ rest) =
        some (takeRequired (.list item) rest) := by
      have hitem := (ih h).2 (.mark ']' :: rest) rfl
      rw [typeTokens, List.cons_append, List.append_assoc, takeType, List.singleton_append, hitem]
      rfl
    refine ⟨fun _ => htake, fun rest hrest => ?_⟩
    rw [htake, takeRequired_of_skipMark? hrest]

theorem takeType_typeTokens {type : TypeRef} (h : isWritable type) {rest : List Token}
    (hrest : skipMark? '!' rest = none) : takeType (typeTokens type ++ rest) = some (type, rest) :=
  (takeType_append h).2 rest hrest

theorem Constant.ofName_of_not_isLiteralWord {name : String} (h : isLiteralWord name = false) :
    ofName name = .enum name := by
  simp only [isLiteralWord, Bool.or_eq_false_iff, decide_eq_false_iff_not] at h
  rw [ofName, if_neg h.1.1, if_neg h.1.2, if_neg h.2]

theorem Constant.beginsItem_tokens (value : Constant) : BeginsItem ']' value.tokens := by
  cases value with
  | boolean b => cases b <;> trivial
  | list items => exact ⟨by decide, by decide, by decide⟩
  | _ => trivial

theorem length_tokens_le_of_mem {items : List Constant} {item : Constant} (h : item ∈ items) :
    item.tokens.length ≤ (items.flatMap Constant.tokens).length := by
  obtain ⟨before, after, rfl⟩ := List.append_of_mem h
  simp only [List.flatMap_append, List.flatMap_cons, List.length_append]
  omega

theorem takeConstant_tokens {value : Constant} (h : value.IsWritable) {fuel : Nat}
    (hfuel : value.tokens.length ≤ fuel) (rest : List Token) :
    takeConstant fuel (value.tokens ++ rest) = some (value, rest) := by
  have hpos := value.beginsItem_tokens.length_pos
  obtain ⟨fuel, rfl⟩ : ∃ n, fuel = n + 1 := ⟨fuel - 1, by omega⟩
  induction h generalizing fuel rest with
  | null => rfl
  | boolean value => cases value <;> rfl
  | number parts => rfl
  | string text => rfl
  | enum h =>
    rw [Constant.tokens, List.singleton_append, takeConstant,
      Constant.ofName_of_not_isLiteralWord h]
  | @list items _ ih =>
    rw [Constant.tokens, itemTokens_eq_flatMap] at hfuel ⊢
    rw [List.length_cons, List.length_append] at hfuel
    rw [List.cons_append, List.append_assoc, List.singleton_append, takeConstant,
      takeUntil_flatMap]
    · rfl
    · exact fun item _ => item.beginsItem_tokens
    · intro item hitem rest _
      have hitemPos := item.beginsItem_tokens.length_pos
      have hlength := length_tokens_le_of_mem hitem
      obtain ⟨n, rfl⟩ : ∃ n, fuel = n + 1 := ⟨fuel - 1, by omega⟩
      exact ih item hitem rest hitemPos n (by omega)
    · decide
    · rw [List.length_append]
      omega

/-! ### Members of types -/

theorem takeDescription_descriptionTokens (description : Option StringText) {rest : List Token}
    (hrest : ∀ text, rest.head? ≠ some (.string text)) :
    takeDescription (descriptionTokens description ++ rest) = (description, rest) := by
  cases description with
  | some text => rfl
  | none =>
    rw [descriptionTokens, Option.map_none, Option.toList_none, List.nil_append, takeDescription]
    rintro text tokens rfl
    exact hrest text rfl

/-- What begins with a description or a name begins an item. -/
theorem beginsItem_descriptionTokens (close : Char) (description : Option StringText)
    (name : String) (rest : List Token) :
    BeginsItem close (descriptionTokens description ++ .name name :: rest) := by
  cases description <;> trivial

theorem takeArgument_tokens {a : ArgumentDefinition} (h : a.IsWritable) {rest : List Token}
    (hrest : Ends rest) : takeArgument (a.tokens ++ rest) = some (a, rest) := by
  obtain ⟨description, name, type, default⟩ := a
  obtain ⟨htype, hdefault⟩ := h
  simp only [takeArgument, ArgumentDefinition.tokens, List.append_assoc, List.cons_append]
  rw [takeDescription_descriptionTokens description (by simp)]
  cases default with
  | none =>
    simp [takeName, takeType_typeTokens htype hrest.1, takeDefault, hrest.2]
  | some value =>
    have hlength : value.tokens.length ≤ (value.tokens ++ rest).length := by simp
    have hread := takeConstant_tokens (hdefault value rfl) hlength rest
    have htake := takeType_typeTokens htype
      (show skipMark? '!' (.mark '=' :: (value.tokens ++ rest)) = none from rfl)
    simp [takeName, htake, takeDefault, -List.length_append, hread]

theorem takeArguments_argumentTokens {arguments : List ArgumentDefinition}
    (h : ∀ a ∈ arguments, a.IsWritable) {rest : List Token} (hrest : skipMark? '(' rest = none) :
    takeArguments (argumentTokens arguments ++ rest) = some (arguments, rest) := by
  cases arguments with
  | nil => simp [takeArguments, argumentTokens, hrest]
  | cons a more =>
    have hbegin : ∀ b ∈ a :: more, BeginsItem ')' b.tokens :=
      fun b _ => beginsItem_descriptionTokens ')' b.description b.name _
    have hlength : ((a :: more).flatMap ArgumentDefinition.tokens).length <
        ((a :: more).flatMap ArgumentDefinition.tokens ++ .mark ')' :: rest).length + 1 := by
      rw [List.length_append]
      omega
    have hread := takeUntil_flatMap hbegin
      (fun a ha rest hrest => takeArgument_tokens (h a ha) hrest)
      (show ')' ≠ '!' ∧ ')' ≠ '=' by decide) hlength rest
    simp only [takeArguments, argumentTokens, List.isEmpty_cons, Bool.false_eq_true, if_false,
      List.cons_append, List.append_assoc, List.nil_append, skipMark?_mark, if_true]
    rw [hread]
    rfl

theorem takeField_tokens {f : FieldDefinition} (h : f.IsWritable) {rest : List Token}
    (hrest : Ends rest) : takeField (f.tokens ++ rest) = some (f, rest) := by
  obtain ⟨description, name, arguments, type⟩ := f
  obtain ⟨harguments, htype⟩ := h
  have hread := takeArguments_argumentTokens harguments
    (show skipMark? '(' (.mark ':' :: (typeTokens type ++ rest)) = none from rfl)
  simp only [takeField, FieldDefinition.tokens, List.append_assoc, List.cons_append]
  rw [takeDescription_descriptionTokens description (by simp)]
  simp [takeName, hread, takeType_typeTokens htype hrest.1]

theorem takeValue_tokens {v : ValueDefinition} (h : isLiteralWord v.name = false)
    (rest : List Token) : takeValue (v.tokens ++ rest) = some (v, rest) := by
  obtain ⟨description, name⟩ := v
  simp only [takeValue, ValueDefinition.tokens, List.append_assoc, List.singleton_append]
  rw [takeDescription_descriptionTokens description (by simp)]
  simp only [takeName, Option.bind_eq_bind, Option.bind_some]
  rw [h]
  rfl

theorem takeNames_nameTokens {names : List String} (hne : names ≠ []) {rest : List Token}
    (hrest : skipMark? '&' rest = none) :
    takeNames (nameTokens names ++ rest) = some (names, rest) := by
  induction names with
  | nil => exact absurd rfl hne
  | cons name names ih =>
    cases names with
    | nil =>
      rw [nameTokens, List.singleton_append, takeNames]
      rintro tokens rfl
      cases hrest
    | cons next names =>
      rw [nameTokens, List.cons_append, List.cons_append, takeNames, ih (List.cons_ne_nil _ _)]
      rfl
      exact List.cons_ne_nil _ _

/-- The interfaces of an object stand before its fields. -/
theorem takeImplements_implementsTokens (names : List String) (rest : List Token) :
    takeImplements (implementsTokens names ++ .mark '{' :: rest) =
      some (names, .mark '{' :: rest) := by
  cases names with
  | nil => rfl
  | cons name names =>
    have hread := takeNames_nameTokens (List.cons_ne_nil name names)
      (show skipMark? '&' (.mark '{' :: rest) = none from rfl)
    rw [implementsTokens, List.isEmpty_cons, if_neg (by decide), List.cons_append, takeImplements]
    · exact hread
    · cases names <;> simp [nameTokens]

/-! ### Definitions -/

theorem takeFields_bracedTokens {fields : List FieldDefinition} (h : ∀ f ∈ fields, f.IsWritable)
    (rest : List Token) :
    takeBraced takeField (bracedTokens FieldDefinition.tokens fields ++ rest) =
      some (fields, rest) :=
  takeBraced_bracedTokens (fun f _ => beginsItem_descriptionTokens '}' f.description f.name _)
    (fun f hf _ hrest => takeField_tokens (h f hf) hrest) rest

theorem takeBody_tokens {body : TypeBody} (h : body.IsWritable) (rest : List Token) :
    takeBody body.keyword (body.tokens ++ rest) = some (body, rest) := by
  cases body with
  | scalar => rfl
  | enum values =>
    have hbegin : ∀ v ∈ values, BeginsItem '}' v.tokens :=
      fun v _ => beginsItem_descriptionTokens '}' v.description v.name _
    have hread := takeBraced_bracedTokens hbegin
      (fun v hv rest _ => takeValue_tokens (h v hv) rest) rest
    simp [takeBody, TypeBody.keyword, TypeBody.tokens, hread]
  | object implements fields =>
    have hfields := takeFields_bracedTokens h rest
    have hread : takeImplements (implementsTokens implements ++
        (bracedTokens FieldDefinition.tokens fields ++ rest)) =
          some (implements, bracedTokens FieldDefinition.tokens fields ++ rest) :=
      takeImplements_implementsTokens implements _
    simp [takeBody, TypeBody.keyword, TypeBody.tokens, hread, hfields]
  | interface fields =>
    simp [takeBody, TypeBody.keyword, TypeBody.tokens, takeFields_bracedTokens h]

theorem takeTypeDefinition_tokens {t : TypeDefinition} (h : t.body.IsWritable)
    (rest : List Token) : takeTypeDefinition (t.tokens ++ rest) = some (t, rest) := by
  obtain ⟨description, name, body⟩ := t
  simp only [takeTypeDefinition, TypeDefinition.tokens, List.append_assoc, List.cons_append]
  rw [takeDescription_descriptionTokens description (by simp)]
  simp [takeName, takeBody_tokens h]

theorem TypeBody.keyword_ne_schema (body : TypeBody) : body.keyword ≠ "schema" := by
  cases body <;> simp [TypeBody.keyword]

theorem takeRoot_rootTokens {root : String × String}
    (h : root.1 ∈ ["query", "mutation", "subscription"]) (rest : List Token) :
    takeRoot (rootTokens root ++ rest) = some (root, rest) := by
  obtain ⟨operation, name⟩ := root
  have hoperation : (operation = "query" || operation = "mutation" ||
      operation = "subscription") = true := by
    simpa [or_assoc] using h
  simp only [takeRoot, rootTokens, List.cons_append, List.nil_append, takeName, skipMark?_mark,
    Option.bind_eq_bind, Option.bind_some, if_true, hoperation]
  rfl

theorem takeDefinition_tokens {d : Definition} (h : d.IsWritable) (rest : List Token) :
    takeDefinition (d.tokens ++ rest) = some (d, rest) := by
  cases d with
  | type t =>
    have hread := takeTypeDefinition_tokens h rest
    rw [Definition.tokens, takeDefinition, hread]
    · rfl
    · intro tokens heq
      -- The definition of a type begins with a description or the word for its kind.
      rw [TypeDefinition.tokens] at heq
      cases hdescription : t.description with
      | some text => simp [hdescription, descriptionTokens] at heq
      | none =>
        simp only [hdescription, descriptionTokens, Option.map_none, Option.toList_none,
          List.nil_append, List.cons_append, List.cons.injEq, Token.name.injEq] at heq
        exact t.body.keyword_ne_schema heq.1
  | roots items =>
    have hbegin : ∀ root ∈ items, BeginsItem '}' (rootTokens root) := fun _ _ => trivial
    have hread := takeBraced_bracedTokens hbegin
      (fun root hroot rest _ => takeRoot_rootTokens (h root hroot) rest) rest
    rw [Definition.tokens, List.cons_append, takeDefinition, hread]
    rfl

theorem Definition.tokens_ne_nil (d : Definition) : d.tokens ≠ [] := by
  cases d <;> simp [Definition.tokens, TypeDefinition.tokens]

theorem takeDefinitions_flatMap {definitions : List Definition}
    (h : ∀ d ∈ definitions, d.IsWritable) {fuel : Nat}
    (hfuel : (definitions.flatMap Definition.tokens).length ≤ fuel) :
    takeDefinitions fuel (definitions.flatMap Definition.tokens) = some definitions := by
  induction definitions generalizing fuel with
  | nil => cases fuel <;> rfl
  | cons d definitions ih =>
    have hpos := List.length_pos_iff.2 d.tokens_ne_nil
    rw [List.flatMap_cons, List.length_append] at hfuel
    obtain ⟨fuel, rfl⟩ : ∃ n, fuel = n + 1 := ⟨fuel - 1, by omega⟩
    rw [List.flatMap_cons, takeDefinitions, takeDefinition_tokens (h d (.head _))]
    · have hlength : (definitions.flatMap Definition.tokens).length ≤ fuel := by omega
      simp [ih (fun d hd => h d (.tail _ hd)) hlength]
    · simp [d.tokens_ne_nil]

/-- Definitions are read from their tokens. -/
theorem read?_tokens {definitions : List Definition} (h : ∀ d ∈ definitions, d.IsWritable) :
    read? (definitions.flatMap Definition.tokens) = some definitions :=
  takeDefinitions_flatMap h (Nat.le_refl _)

end Gazette.Sdl
