import Gazette.Json.Record
import Gazette.Proofs.Json.Reading
import Gazette.Proofs.Lists

/-!
# JSON forms of records

A kind of records has a form (`Json.Form`): the names of its parts, those that may be left out, and
how a record is written and read.  A record is read as another one (`Form.ReadsAs`) if this holds
for the value that it is written as and for the text of that value.  Forms are loose
(`Form.IsLoose`): objects that say the same about a record (`Json.SayAlike`) are read as the same
record, which follows from reading only the parts of a value (`Form.UsesParts.isLoose`).
-/

namespace Gazette

namespace Json

/-! ## Members -/

/-- Members that say the same about a record with the parts `names`, of which `optional` may be
left out: they differ in their order, in members that are no parts of the record, and in optional
parts that are null or left out. -/
inductive SayAlike (names optional : List String) :
    List (String × Json) → List (String × Json) → Prop
  | reordered {members members'} (perm : members.Perm members')
      (distinct : ∀ name ∈ names, (members.map Prod.fst).count name ≤ 1) :
      SayAlike names optional members members'
  | unknown {members name} (unknown : name ∉ names) (value : Json) :
      SayAlike names optional ((name, value) :: members) members
  | absent {members name} (isOptional : name ∈ optional) (absent : name ∉ members.map Prod.fst) :
      SayAlike names optional ((name, null) :: members) members
  | symm {members members'} (h : SayAlike names optional members members') :
      SayAlike names optional members' members
  | trans {members members' members''} (h : SayAlike names optional members members')
      (h' : SayAlike names optional members' members'') : SayAlike names optional members members''

section Members

variable {names optional : List String} {members members' : List (String × Json)} {name : String}

theorem lookup_cons (name other : String) (value : Json) (members : List (String × Json)) :
    lookup name ((other, value) :: members) =
      (lookup name members).or (if name = other then some value else none) := by
  rw [lookup, lookup, List.reverse_cons, List.lookup_append]
  by_cases h : name = other
  · rw [List.lookup_cons, beq_iff_eq.2 h, if_pos h]
  · rw [List.lookup_cons, beq_eq_false_iff_ne.2 h, if_neg h]
    rfl

theorem lookup_eq_none_iff :
    lookup name members = none ↔ name ∉ members.map Prod.fst := by
  have h : members.reverse.lookup name = none ↔ name ∉ Entries.names members.reverse :=
    Entries.lookup_eq_none_iff
  rw [lookup, h, Entries.names, List.map_reverse, List.mem_reverse]

theorem lookup_of_perm (h : members.Perm members')
    (hcount : (members.map Prod.fst).count name ≤ 1) :
    lookup name members' = lookup name members := by
  have hcount' : (Entries.names members'.reverse).count name ≤ 1 := by
    rw [Entries.names, List.map_reverse, List.count_reverse, ← (h.map Prod.fst).count_eq]
    exact hcount
  cases hfound : lookup name members with
  | none =>
    rw [lookup_eq_none_iff] at hfound ⊢
    rwa [← (h.map Prod.fst).mem_iff]
  | some value =>
    have hmem := Entries.mem_of_lookup hfound
    refine Entries.lookup_of_mem ?_ hcount'
    rw [List.mem_reverse] at hmem ⊢
    exact h.mem_iff.1 hmem

/-- Each part is the same or null. -/
theorem SayAlike.parts?_eq (h : SayAlike names optional members members') :
    (object members).parts? names = (object members').parts? names := by
  have hparts : ∀ name ∈ names,
      (lookup name members).getD null = (lookup name members').getD null := by
    induction h with
    | reordered perm distinct =>
      intro name hname
      rw [lookup_of_perm perm (distinct name hname)]
    | @unknown members other unknown value =>
      intro name hname
      have hne : name ≠ other := fun h => unknown (h ▸ hname)
      rw [lookup_cons, if_neg hne, Option.or_none]
    | @absent members other isOptional absent =>
      intro name hname
      rw [lookup_cons]
      split
      case isTrue heq => rw [lookup_eq_none_iff.2 (heq ▸ absent), Option.none_or]; rfl
      case isFalse => rw [Option.or_none]
    | symm _ ih => exact fun name hname => (ih name hname).symm
    | trans _ _ ih ih' => exact fun name hname => (ih name hname).trans (ih' name hname)
  exact congrArg some (List.map_congr_left hparts)

end Members

/-! ## Words -/

/-- Whether a value is a string or null, as every part of the records is. -/
inductive IsWord : Json → Prop
  | string (s : String) : IsWord (.string s)
  | null : IsWord .null

theorem IsWord.reread?_eq {v : Json} (h : v.IsWord) (depth : Nat) : reread? depth v = some v := by
  cases h <;> simp only [reread?]

theorem rereadMembers?_eq {members : List (String × Json)} (h : ∀ m ∈ members, m.2.IsWord)
    (depth : Nat) : rereadMembers? depth members = some members := by
  induction members with
  | nil => simp only [rereadMembers?]
  | cons m members ih =>
    obtain ⟨name, v⟩ := m
    rw [rereadMembers?, (h _ (.head _)).reread?_eq, ih fun m hm => h m (.tail _ hm)]
    rfl

theorem ofText?_text_object {members : List (String × Json)} (h : ∀ m ∈ members, m.2.IsWord) :
    ofText? (object members).text = some (object members) := by
  rw [ofText?_text, maxNesting, reread?, rereadMembers?_eq h]
  rfl

theorem isWord_ofString? (s : Option String) : (ofString? s).IsWord := by
  cases s with
  | none => exact .null
  | some s => exact .string s

@[simp]
theorem optional?_ofString? (s : Option String) : (ofString? s).optional? string? = some s := by
  cases s <;> rfl

/-! ## Forms -/

/-- The JSON form of a kind of records: the names of their parts, of which some may be left out, and
how a record is written and read. -/
structure Form (α : Type) where
  names : List String
  optional : List String
  toJson : α → Json
  ofJson? : Json → Option α

namespace Form

variable {α : Type} (form : Form α)

/-- Whether a record is read as another one, from its form as a value and as a text. -/
structure ReadsAs (a b : α) : Prop where
  value : form.ofJson? (form.toJson a) = some b
  text : (Json.ofText? (form.toJson a).text).bind form.ofJson? = some b

/-- Whether two values are read as the same record, if they are read as any, and then are written
alike. -/
structure ReadsAlike (v w : Json) : Prop where
  read : form.ofJson? v = form.ofJson? w
  written : (form.ofJson? v).map form.toJson = (form.ofJson? w).map form.toJson

/-- Whether a record does not depend on more than what the members of its form say. -/
def IsLoose : Prop := ∀ members members' : List (String × Json),
  SayAlike form.names form.optional members members' →
    form.ReadsAlike (.object members) (.object members')

/-- Whether a value is read through its parts. -/
def UsesParts : Prop :=
  ∃ read : List Json → Option α, ∀ v, form.ofJson? v = (v.parts? form.names).bind read

variable {form}

theorem UsesParts.isLoose (h : form.UsesParts) : form.IsLoose := by
  intro members members' hsay
  obtain ⟨read, hread⟩ := h
  have hsame : form.ofJson? (.object members) = form.ofJson? (.object members') := by
    rw [hread, hread, hsay.parts?_eq]
  exact ⟨hsame, congrArg _ hsame⟩

theorem readsAs {a b : α} {members : List (String × Json)}
    (hjson : form.toJson a = .object members) (hwords : ∀ m ∈ members, m.2.IsWord)
    (hread : form.ofJson? (form.toJson a) = some b) : form.ReadsAs a b := by
  refine ⟨hread, ?_⟩
  rw [hjson] at hread ⊢
  rw [ofText?_text_object hwords, Option.bind_some, hread]

end Form

end Json

end Gazette
