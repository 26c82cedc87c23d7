import Gazette.Json.Reader
import Gazette.Request.Document
import Gazette.Text.Block

/-!
# Reading documents

`Document.ofText?` reads the text of a request.  Blanks, commas and comments may stand between any
two parts, but not inside a name, a number, a string or a type.  The word `on` has a blank after it
and then the name of a type; other words of the grammar need no blank, so `queryPosts` starts a
query of the name `Posts`.  Readers take the text from some place on and give what they read with
the text after it.
-/

namespace Gazette.Document

/-! ## Blanks and names -/

/-- Whether a character ends a line. -/
def isLineEnd (c : Char) : Bool := c = '\n' || c = '\r'

/-- Whether a character may stand between the parts of a document. -/
def isBlank (c : Char) : Bool :=
  c = ' ' || c = ',' || c = '\t' || c = '\ufeff' || isLineEnd c

/-- The text after blanks and comments; `inComment` tells whether it starts inside a comment. -/
def skipFrom (inComment : Bool) : List Char → List Char
  | [] => []
  | c :: rest =>
    if inComment then skipFrom (!isLineEnd c) rest
    else if c = '#' then skipFrom true rest
    else if isBlank c then skipFrom false rest
    else c :: rest

/-- A text from its next token on. -/
def skip (cs : List Char) : List Char := skipFrom false cs

/-- Whether a name can start with a character. -/
def isNameStart (c : Char) : Bool :=
  ('a' ≤ c && c ≤ 'z') || ('A' ≤ c && c ≤ 'Z') || c = '_'

/-- Whether a character can be inside a name. -/
def isNamePart (c : Char) : Bool := isNameStart c || ('0' ≤ c && c ≤ '9')

/-- A name right at the start of a text. -/
def takeNameHere (cs : List Char) : Option (String × List Char) :=
  match cs with
  | c :: _ =>
    if isNameStart c then
      some (String.ofList (cs.takeWhile isNamePart), cs.dropWhile isNamePart)
    else none
  | [] => none

/-- The next name and the text after it. -/
def takeName (cs : List Char) : Option (String × List Char) := takeNameHere (skip cs)

/-- The text after a mark, if that is the next token. -/
def skipMark? (mark : Char) (cs : List Char) : Option (List Char) :=
  Text.skipMark? mark (skip cs)

/-- The text after a word, if that comes next. -/
def skipKeyword? (word : String) (cs : List Char) : Option (List Char) :=
  Text.skipWord? word.toList (skip cs)

/-! ## Strings -/

/-- The characters of a string up to its closing quote, and the text after the quote. -/
def takeQuoted : List Char → Option (List Char × List Char)
  | [] => none
  | '"' :: rest => some ([], rest)
  | '\\' :: 'u' :: a :: b :: c :: d :: rest => do
    let code ← Json.hexCode? a b c d
    if Json.isHighHalf code || Json.isLowHalf code then none
    else
      let (cs, after) ← takeQuoted rest
      return (Char.ofNat code :: cs, after)
  | '\\' :: c :: rest => do
    let code ← Json.escapeCode? c
    let (cs, after) ← takeQuoted rest
    return (Char.ofNat code :: cs, after)
  | c :: rest =>
    if isLineEnd c ∨ c = '\\' then none
    else do
      let (cs, after) ← takeQuoted rest
      return (c :: cs, after)

/-- The characters of a block up to its closing quotes, as they are written, and the text after the
quotes. -/
def takeBlock : List Char → Option (List Char × List Char)
  | [] => none
  | '\\' :: '"' :: '"' :: '"' :: rest =>
    (takeBlock rest).map fun (cs, after) => ('\\' :: '"' :: '"' :: '"' :: cs, after)
  | '"' :: '"' :: '"' :: rest => some ([], rest)
  | c :: rest => (takeBlock rest).map fun (cs, after) => (c :: cs, after)

/-- The string or block at the start of a text.  Three quotes that no others close are an empty
string and the start of another. -/
def takeString (cs : List Char) : Option (String × List Char) :=
  match cs with
  | '"' :: '"' :: '"' :: rest =>
    match takeBlock rest with
    | some (raw, after) => some (String.ofList (Text.Block.content raw), after)
    | none => some ("", '"' :: rest)
  | '"' :: rest => (takeQuoted rest).map fun (content, after) => (String.ofList content, after)
  | _ => none

/-! ## Values -/

/-- The number at the start of a text; a name must not begin right after it. -/
def takeNumber (cs : List Char) : Option (Number × List Char) := do
  let (lexeme, rest) ← Number.takeLexeme cs
  if rest.head?.any isNameStart then none else return (← lexeme.toNumber?, rest)

/-- The literal at the start of a text that is one word: true, false, null, or the name of an enum
value.  A name that starts with one of the three words is read as that word alone. -/
def takeWord (cs : List Char) : Option (Literal × List Char) :=
  match Text.skipWord? "true".toList cs with
  | some rest => some (.boolean true, rest)
  | none =>
    match Text.skipWord? "false".toList cs with
    | some rest => some (.boolean false, rest)
    | none =>
      match Text.skipWord? "null".toList cs with
      | some rest => some (.null, rest)
      | none => (takeNameHere cs).map fun (name, rest) => (.enum name, rest)

mutual

/-- A value after blanks.  Each call uses one unit of `fuel`. -/
def takeLiteral : (fuel : Nat) → List Char → Option (Literal × List Char)
  | 0, _ => none
  | fuel + 1, cs =>
    match skip cs with
    | '$' :: rest => (takeName rest).map fun (name, after) => (.reference name, after)
    | '"' :: rest => (takeString ('"' :: rest)).map fun (s, after) => (.string s, after)
    | '[' :: rest => (takeItems fuel rest).map fun (items, after) => (.list items, after)
    | '{' :: rest =>
      (takeMembers fuel rest).map fun (members, after) => (.object (Entries.ofPairs members), after)
    | rest =>
      match takeNumber rest with
      | some (n, after) => some (.number n, after)
      | none => takeWord rest

/-- The items of a list up to its bracket, and the text after that. -/
def takeItems : (fuel : Nat) → List Char → Option (List Literal × List Char)
  | 0, _ => none
  | fuel + 1, cs =>
    match skipMark? ']' cs with
    | some after => some ([], after)
    | none => do
      let (item, rest) ← takeLiteral fuel cs
      let (items, after) ← takeItems fuel rest
      return (item :: items, after)

/-- The members of an object up to its brace, and the text after that. -/
def takeMembers : (fuel : Nat) → List Char → Option (List (String × Literal) × List Char)
  | 0, _ => none
  | fuel + 1, cs =>
    match skipMark? '}' cs with
    | some after => some ([], after)
    | none => do
      let (name, rest) ← takeName cs
      let (item, rest) ← takeLiteral fuel (← skipMark? ':' rest)
      let (members, after) ← takeMembers fuel rest
      return ((name, item) :: members, after)

end

/-- Enough fuel to read values from a text: of any two calls in a row one reads a character. -/
def fuelFor (cs : List Char) : Nat := 2 * cs.length + 2

/-! ## Arguments and directives -/

/-- Arguments up to the closing bracket, and the text after that. -/
def takeArgumentsFrom : (fuel : Nat) → List Char → Option (Arguments × List Char)
  | 0, _ => none
  | fuel + 1, cs =>
    match skipMark? ')' cs with
    | some after => some ([], after)
    | none => do
      let (name, rest) ← takeName cs
      let rest ← skipMark? ':' rest
      let (value, rest) ← takeLiteral (fuelFor rest) rest
      let (arguments, after) ← takeArgumentsFrom fuel rest
      return ((name, value) :: arguments, after)

/-- The arguments between parentheses, at least one; none if there are no parentheses. -/
def takeArguments (cs : List Char) : Option (Arguments × List Char) :=
  match skipMark? '(' cs with
  | some rest => (takeArgumentsFrom (fuelFor rest) rest).filter fun (read, _) => !read.isEmpty
  | none => some ([], cs)

/-- All directives that come next, and the text after them. -/
def takeDirectivesFrom : (fuel : Nat) → List Char → Option (List Directive × List Char)
  | 0, _ => none
  | fuel + 1, cs =>
    match skipMark? '@' cs with
    | none => some ([], cs)
    | some rest => do
      let (name, rest) ← takeName rest
      let (arguments, rest) ← takeArguments rest
      let (directives, after) ← takeDirectivesFrom fuel rest
      return (⟨name, arguments⟩ :: directives, after)

/-- Directives, as many as there are. -/
def takeDirectives (cs : List Char) : Option (List Directive × List Char) :=
  takeDirectivesFrom (fuelFor cs) cs

/-! ## Selections -/

/-- The type condition of a fragment, if there is one: the word `on` and a name, with blanks between
them but no comment.  So a name that starts with `on` is no condition. -/
def takeCondition? (cs : List Char) : Option (String × List Char) :=
  match skipKeyword? "on" cs with
  | some (c :: rest) => if isBlank c then takeNameHere (rest.dropWhile isBlank) else none
  | _ => none

/-- The start of a field: its label, its name, its arguments and its directives. -/
def takeHead (cs : List Char) : Option (FieldHead × List Char) := do
  let start := skip cs
  let (first, rest) ← takeNameHere start
  let (label, name, rest) ← match skipMark? ':' rest with
    | some rest => do
      let (name, rest) ← takeName rest
      pure (some first, name, rest)
    | none => pure (none, first, rest)
  let (arguments, rest) ← takeArguments rest
  let (directives, rest) ← takeDirectives rest
  return (⟨label, name, arguments, directives, start.length⟩, rest)

mutual

/-- The selections after an opening brace, up to the closing one. -/
def takeSelections : (fuel : Nat) → List Char → Option (List Selection × List Char)
  | 0, _ => none
  | fuel + 1, cs => do
    let (selection, rest) ← takeSelection fuel cs
    match skipMark? '}' rest with
    | some after => return ([selection], after)
    | none =>
      let (selections, after) ← takeSelections fuel rest
      return (selection :: selections, after)

/-- A selection: a fragment after three points, or a field. -/
def takeSelection : (fuel : Nat) → List Char → Option (Selection × List Char)
  | 0, _ => none
  | fuel + 1, cs =>
    match skipKeyword? "..." cs with
    | some rest =>
      match takeCondition? rest with
      | some (condition, rest) => takeInline fuel (some condition) rest
      | none =>
        match takeName rest with
        | some (name, rest) =>
          (takeDirectives rest).map fun (directives, after) => (.spread name directives, after)
        | none => takeInline fuel none rest
    | none => do
      let (head, rest) ← takeHead cs
      match skipMark? '{' rest with
      | some rest =>
        let (selections, after) ← takeSelections fuel rest
        return (.field head selections, after)
      | none => return (.field head [], rest)

/-- The directives and the selections of a fragment in place. -/
def takeInline : (fuel : Nat) → Option String → List Char → Option (Selection × List Char)
  | 0, _, _ => none
  | fuel + 1, condition, cs => do
    let (directives, rest) ← takeDirectives cs
    let (selections, after) ← takeSelections fuel (← skipMark? '{' rest)
    return (.inline condition directives selections, after)

end

/-- Selections in braces, and the text after them. -/
def takeBraced (cs : List Char) : Option (List Selection × List Char) := do
  let rest ← skipMark? '{' cs
  takeSelections (2 * fuelFor rest) rest

/-! ## Operations and fragments -/

/-- A type right at the start of a text, without blanks inside. -/
def takeTypeHere : (fuel : Nat) → List Char → Option (TypeRef × List Char)
  | 0, _ => none
  | fuel + 1, cs => do
    let (type, rest) ← match cs with
      | '[' :: rest => do
        let (item, rest) ← takeTypeHere fuel rest
        match rest with
        | ']' :: after => pure (TypeRef.list item, after)
        | _ => none
      | _ => (takeNameHere cs).map fun (name, rest) => (TypeRef.named name, rest)
    match rest with
    | '!' :: after => return (type.required, after)
    | _ => return (type, rest)

/-- A literal without variables as a value, and the text after it. -/
def takeConstant (cs : List Char) : Option (Value × List Char) := do
  let (literal, rest) ← takeLiteral (fuelFor cs) cs
  return (← literal.eval? fun _ => none, rest)

/-- Declarations of variables up to the closing bracket, and the text after that. -/
def takeVariablesFrom : (fuel : Nat) → List Char → Option (List VariableDeclaration × List Char)
  | 0, _ => none
  | fuel + 1, cs =>
    match skipMark? ')' cs with
    | some after => some ([], after)
    | none => do
      let (name, rest) ← takeName (← skipMark? '$' cs)
      let rest := skip (← skipMark? ':' rest)
      let (type, rest) ← takeTypeHere (fuelFor rest) rest
      let (directives, rest) ← takeDirectives rest
      let (default, rest) ← match skipMark? '=' rest with
        | some rest => (takeConstant rest).map fun (value, rest) => (some value, rest)
        | none => pure (none, rest)
      let (declarations, after) ← takeVariablesFrom fuel rest
      return (⟨name, type, directives, default⟩ :: declarations, after)

/-- The declarations of variables between parentheses; none if there are no parentheses. -/
def takeVariables (cs : List Char) : Option (List VariableDeclaration × List Char) :=
  match skipMark? '(' cs with
  | some rest => takeVariablesFrom (fuelFor rest) rest
  | none => some ([], cs)

/-- The kind of an operation, if the next word is one, and the text after it. -/
def takeKind? (cs : List Char) : Option (OperationKind × List Char) :=
  ((skipKeyword? "query" cs).map (.query, ·)).or <|
    ((skipKeyword? "mutation" cs).map (.mutation, ·)).or <|
      (skipKeyword? "subscription" cs).map (.subscription, ·)

/-- An operation from its name on, and the text after it. -/
def takeOperation (kind : OperationKind) (cs : List Char) : Option (Operation × List Char) := do
  let (name, rest) := match takeName cs with
    | some (name, rest) => (some name, rest)
    | none => (none, cs)
  let (declarations, rest) ← takeVariables rest
  let (directives, rest) ← takeDirectives rest
  let (selections, rest) ← takeBraced rest
  return (⟨kind, name, declarations, directives, selections⟩, rest)

/-- A fragment from its name on, and the text after it. -/
def takeFragment (cs : List Char) : Option (Fragment × List Char) := do
  let (name, rest) ← takeName cs
  let (condition, rest) ← takeCondition? rest
  let (directives, rest) ← takeDirectives rest
  let (selections, rest) ← takeBraced rest
  return (⟨name, condition, directives, selections⟩, rest)

/-- Adds the operation or fragment at the start of a text to a document. -/
def takeDefinition (d : Document) (cs : List Char) : Option (Document × List Char) :=
  match takeKind? cs with
  | some (kind, rest) =>
    (takeOperation kind rest).map fun (o, after) =>
      ({ d with operations := d.operations ++ [o] }, after)
  | none =>
    match skipKeyword? "fragment" cs with
    | some rest =>
      (takeFragment rest).map fun (f, after) => ({ d with fragments := d.fragments ++ [f] }, after)
    | none =>
      (takeBraced cs).map fun (selections, after) =>
        ({ d with operations := d.operations ++ [⟨.query, none, [], [], selections⟩] }, after)

/-- Adds all definitions of a text to a document. -/
def takeDefinitions : (fuel : Nat) → Document → List Char → Option Document
  | 0, _, _ => none
  | fuel + 1, d, cs => do
    let (d, rest) ← takeDefinition d cs
    if (skip rest).isEmpty then return d else takeDefinitions fuel d rest

/-- The document that characters stand for. -/
def ofChars? (cs : List Char) : Option Document := takeDefinitions (cs.length + 1) ⟨[], []⟩ cs

/-- The document that a text stands for. -/
def ofText? (source : String) : Option Document := ofChars? source.toList

end Gazette.Document
