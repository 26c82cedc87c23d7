/-!
# Type references

A field, an argument or a variable refers to its type by name, under any nesting of list and
non-null wrappers.  This file holds the references (`TypeRef`), their text (`text`, as in
`[Post!]!`) and the reader of that text (`ofText`).
-/

namespace Gazette

/-- A reference to a type: its name, wrapped in lists and non-null markers. -/
inductive TypeRef where
  | named (name : String)
  | nonNull (inner : TypeRef)
  | list (item : TypeRef)
  deriving DecidableEq, Repr, Inhabited

namespace TypeRef

/-- The non-null form of a reference; one that is non-null already stays as it is. -/
def required : TypeRef → TypeRef
  | nonNull inner => nonNull inner
  | type => nonNull type

/-- Whether null is no value of the type. -/
def isNonNull : TypeRef → Bool
  | nonNull _ => true
  | _ => false

/-- The name inside all wrappers. -/
def baseName : TypeRef → String
  | named name => name
  | nonNull inner => inner.baseName
  | list item => item.baseName

/-- The text of a reference: a name, `…!` around a non-null type, `[…]` around a list. -/
def text : TypeRef → String
  | named name => name
  | nonNull inner => inner.text ++ "!"
  | list item => "[" ++ item.text ++ "]"

theorem length_dropLast_lt {cs : List Char} (h : cs ≠ []) : cs.dropLast.length < cs.length := by
  have hpos : 0 < cs.length := List.length_pos_iff.2 h
  rw [List.length_dropLast]
  omega

theorem length_tail_dropLast_lt {cs : List Char} (h : cs ≠ []) :
    cs.tail.dropLast.length < cs.length := by
  have hpos : 0 < cs.length := List.length_pos_iff.2 h
  rw [List.length_dropLast, List.length_tail]
  omega

/-- Reads a text given by its characters: a final `!` marks a non-null type, brackets around the
whole are a list, and anything else is a name. -/
def ofChars (cs : List Char) : TypeRef :=
  if hlast : cs.getLast? = some '!' then
    have : cs.dropLast.length < cs.length := length_dropLast_lt fun hnil => nomatch hnil ▸ hlast
    (ofChars cs.dropLast).required
  else if hlist : cs.head? = some '[' ∧ cs.tail.getLast? = some ']' then
    have : cs.tail.dropLast.length < cs.length :=
      length_tail_dropLast_lt fun hnil => nomatch hnil ▸ hlist.1
    list (ofChars cs.tail.dropLast)
  else named (String.ofList cs)
termination_by cs.length

/-- Reads the text of a reference; every text is one, since any text can be a name. -/
def ofText (source : String) : TypeRef := ofChars source.toList

/-! ## Shapes in common use -/

/-- A named type without null. -/
def namedNonNull (name : String) : TypeRef := (named name).required

/-- A list of a named type. -/
def namedList (name : String) : TypeRef := list (named name)

/-- A list of a named type without null in it. -/
def nonNullList (name : String) : TypeRef := list (namedNonNull name)

/-- A list of a named type, without null in place of the list. -/
def namedListNonNull (name : String) : TypeRef := (namedList name).required

/-- A list of a named type without null in it or in its place. -/
def nonNullListNonNull (name : String) : TypeRef := (nonNullList name).required

/-! ## Small facts -/

@[simp]
theorem required_required (type : TypeRef) : type.required.required = type.required := by
  cases type <;> rfl

@[simp]
theorem isNonNull_required (type : TypeRef) : type.required.isNonNull = true := by
  cases type <;> rfl

@[simp]
theorem baseName_required (type : TypeRef) : type.required.baseName = type.baseName := by
  cases type <;> rfl

end TypeRef

end Gazette
