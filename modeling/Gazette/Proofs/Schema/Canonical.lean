import Gazette.Proofs.Schema.BoundRecord
import Gazette.Proofs.Schema.Finished

/-!
# Canonical values

Coercion brings values into a canonical form (`Registry.IsCanonical`), in which enum members are
literals, ids are strings and lists are written as lists.  It changes nothing else
(`Registry.Adjusts`), and leaves values alone that are canonical, so that both coercion and binding
may be repeated (`Registry.coerces_to_canonical`).
-/

namespace Gazette

namespace Registry

variable {σ ν : Type} {r : Registry σ ν}

/-! ## Canonical values and what coercion changes -/

/-- Whether a value, other than null, has the form of those at the innermost type with a name. -/
def IsCanonicalLeaf (r : Registry σ ν) (name : String) (value : Value) : Prop :=
  match r.find? name with
  | some (.enum e) => ∃ member, value = .enum member ∧ e.contains member
  | some (.scalar _) =>
    (name = builtin.string ∨ name = builtin.id) ∧ (∃ s, value = .string s) ∨
    name = builtin.int ∧ (∃ i, value = .int i ∧ minInt32 ≤ i ∧ i ≤ maxInt32) ∨
    name = builtin.float ∧ (∃ n, value = .number n) ∨
    name = builtin.boolean ∧ ∃ b, value = .boolean b
  | _ => False

/-- Whether a value has the form of those of a type: null only where the type allows it, lists where
it has lists, and else a leaf. -/
def IsCanonical (r : Registry σ ν) : TypeRef → Value → Prop
  | .nonNull inner, value => value ≠ .null ∧ IsCanonical r inner value
  | .list item, value =>
    value = .null ∨ ∃ items, value = .list items ∧ ∀ i ∈ items, IsCanonical r item i
  | .named name, value => value = .null ∨ r.IsCanonicalLeaf name value

/-- How a leaf may change: a string that is a member of an enum becomes its literal, an integer that
is an id becomes its decimal text, and anything else stays. -/
inductive AdjustsLeaf (r : Registry σ ν) (name : String) : Value → Value → Prop
  | same (value : Value) : AdjustsLeaf r name value value
  | member {e : EnumType} {member : String} (hfind : r.find? name = some (.enum e))
    (hmember : e.contains member) : AdjustsLeaf r name (.string member) (.enum member)
  | id (hname : name = builtin.id) (i : Int) : AdjustsLeaf r name (.int i) (.string (toString i))

/-- How a value may change: leaf by leaf, and by becoming a list of one item where a list is asked
for and the value is neither one nor null. -/
def Adjusts (r : Registry σ ν) : TypeRef → Value → Value → Prop
  | .nonNull inner, value, c => Adjusts r inner value c
  | .list item, value, c =>
    match value with
    | .null => c = .null
    | .list items => ∃ cs, c = .list cs ∧ List.Forall₂ (Adjusts r item) items cs
    | single => ∃ only, c = .list [only] ∧ Adjusts r item single only
  | .named name, value, c => r.AdjustsLeaf name value c

/-! ## Leaves -/

/-- The text of an integer is the one that Lean gives it. -/
theorem text_int (i : Int) : (Number.int i).text = toString i := by
  rw [← String.toList_inj, Number.text, String.toList_ofList, Number.chars, Number.intChars,
    Int.toString_eq_repr]
  cases i with
  | ofNat n =>
    rw [if_neg (by simp)]
    exact String.toList_ofList.symm
  | negSucc n =>
    rw [if_pos (Int.negSucc_lt_zero n), Int.repr, String.toList_append, Nat.repr,
      String.toList_ofList, String.toList_ofList]
    rfl

/-- What coercion makes of a value of a built-in scalar. -/
theorem CoercesScalar.canonical {name : String} {t : ScalarType}
    (hfind : r.find? name = some (.scalar t)) {value c : Value} (h : CoercesScalar name value c) :
    r.IsCanonicalLeaf name c ∧ r.AdjustsLeaf name value c := by
  rw [IsCanonicalLeaf, hfind]
  cases h with
  | string hname s => exact ⟨.inl ⟨hname, s, rfl⟩, .same _⟩
  | boolean hname b => exact ⟨.inr (.inr (.inr ⟨hname, b, rfl⟩)), .same _⟩
  | float hname n => exact ⟨.inr (.inr (.inl ⟨hname, n, rfl⟩)), .same _⟩
  | id hname i => exact ⟨.inl ⟨.inr hname, _, rfl⟩, text_int i ▸ .id hname i⟩
  | @int hname i hlow hhigh => exact ⟨.inr (.inl ⟨hname, i, rfl, hlow, hhigh⟩), .same _⟩

theorem coerceNamed_canonical {name : String} {value c : Value}
    (h : r.coerceNamed name value = .ok c) :
    r.IsCanonicalLeaf name c ∧ r.AdjustsLeaf name value c := by
  cases coerceNamed_eq_ok_iff.1 h with
  | @enum e hfind _ member hname hmember =>
    refine ⟨by rw [IsCanonicalLeaf, hfind]; exact ⟨member, rfl, hmember⟩, ?_⟩
    cases value with
    | enum name' =>
      obtain rfl := Option.some.inj hname
      exact .same _
    | string s =>
      obtain rfl := Option.some.inj hname
      exact .member hfind hmember
    | _ => cases hname
  | scalar hfind h => exact h.canonical hfind

theorem coerceNamed_of_isCanonicalLeaf {name : String} {value : Value}
    (h : r.IsCanonicalLeaf name value) : r.coerceNamed name value = .ok value := by
  rw [coerceNamed_eq_ok_iff]
  unfold IsCanonicalLeaf at h
  split at h
  · rename_i e hfind
    obtain ⟨member, rfl, hmember⟩ := h
    exact .enum hfind rfl hmember
  · rename_i t hfind
    refine .scalar hfind ?_
    rcases h with ⟨hname, s, rfl⟩ | ⟨hname, i, rfl, hlow, hhigh⟩ | ⟨hname, n, rfl⟩ | ⟨hname, b, rfl⟩
    · exact .string hname s
    · exact .int hname hlow hhigh
    · exact .float hname n
    · exact .boolean hname b
  · exact h.elim

/-! ## Values of any type -/

theorem ne_null_of_isCanonicalLeaf {name : String} {value : Value}
    (h : r.IsCanonicalLeaf name value) : value ≠ .null := by
  rintro rfl
  unfold IsCanonicalLeaf at h
  split at h
  · obtain ⟨member, hmember, -⟩ := h
    cases hmember
  · rcases h with ⟨-, s, hs⟩ | ⟨-, i, hi, -⟩ | ⟨-, n, hn⟩ | ⟨-, b, hb⟩
    · cases hs
    · cases hi
    · cases hn
    · cases hb
  · exact h

/-- What is left of a value that is not null is not null. -/
theorem ne_null_of_coerce {type : TypeRef} {value c : Value} (hvalue : value ≠ .null)
    (h : r.coerce type value = .ok c) : c ≠ .null := by
  induction type generalizing value c with
  | nonNull inner ih => exact ih hvalue (coerce_nonNull_iff.1 h).2
  | list item ih =>
    rcases coerce_list_cases h with ⟨hnull, -⟩ | ⟨_, _, -, rfl, -⟩ | ⟨-, -, _, -, rfl⟩
    · exact absurd hnull hvalue
    · simp
    · simp
  | named name =>
    have hleaf := ((coerce_named_iff.1 h).resolve_left fun h => hvalue h.1).2
    exact ne_null_of_isCanonicalLeaf (coerceNamed_canonical hleaf).1

/-- What coercion gives is canonical, and differs from the given value as it may only. -/
theorem coerce_canonical {type : TypeRef} {value c : Value} (h : r.coerce type value = .ok c) :
    r.IsCanonical type c ∧ r.Adjusts type value c := by
  induction type generalizing value c with
  | nonNull inner ih =>
    obtain ⟨hvalue, h⟩ := coerce_nonNull_iff.1 h
    exact ⟨⟨ne_null_of_coerce hvalue h, (ih h).1⟩, (ih h).2⟩
  | list item ih =>
    rcases coerce_list_cases h with
      ⟨rfl, rfl⟩ | ⟨items, cs, rfl, rfl, hcs⟩ | ⟨hnull, hlist, only, honly, rfl⟩
    · exact ⟨.inl rfl, rfl⟩
    · exact ⟨.inr ⟨cs, rfl, forall_of_forall₂ hcs fun _ _ h => (ih h).1⟩,
        cs, rfl, hcs.imp fun _ _ h => (ih h).2⟩
    · refine ⟨.inr ⟨[only], rfl, List.forall_mem_singleton.2 (ih honly).1⟩, ?_⟩
      unfold Adjusts
      split
      · exact absurd rfl hnull
      · exact absurd rfl (hlist _)
      · exact ⟨only, rfl, (ih honly).2⟩
  | named name =>
    rcases coerce_named_iff.1 h with ⟨rfl, rfl⟩ | ⟨-, h⟩
    · exact ⟨.inl rfl, .same _⟩
    · exact ⟨.inr (coerceNamed_canonical h).1, (coerceNamed_canonical h).2⟩

/-- Canonical values stay as they are. -/
theorem coerce_of_isCanonical {type : TypeRef} {value : Value} (h : r.IsCanonical type value) :
    r.coerce type value = .ok value := by
  induction type generalizing value with
  | nonNull inner ih => exact coerce_nonNull_iff.2 ⟨h.1, ih h.2⟩
  | list item ih =>
    rcases h with rfl | ⟨items, rfl, hitems⟩
    · rfl
    · exact coerce_items.2 ⟨items, List.forall₂_same.2 fun i hi => ih (hitems i hi), rfl⟩
  | named name =>
    rcases h with rfl | hleaf
    · rfl
    · exact coerce_named_iff.2
        (.inr ⟨ne_null_of_isCanonicalLeaf hleaf, coerceNamed_of_isCanonicalLeaf hleaf⟩)

/-! ## Records -/

variable {field : String} {raw : Entries Value} {specs : List ArgumentSpec} {b : BoundArguments}

/-- The values of a record are canonical for the types of their declarations. -/
theorem isCanonical_of_bind (hnodup : (specs.map ArgumentSpec.name).Nodup)
    (h : r.bind field specs raw = .ok b) {spec : ArgumentSpec} (hspec : spec ∈ specs) {c : Value}
    (hc : b.get? spec.name = some c) : r.IsCanonical spec.type c := by
  have hvalue := argumentValue_of_bind hnodup h spec hspec
  rcases argumentValue_eq_ok hvalue with ⟨value, c', hcoerce, heq⟩ | ⟨hnone, -⟩
  · obtain rfl := Option.some.inj (hc.symm.trans heq)
    exact (coerce_canonical hcoerce).1
  · cases hc.symm.trans hnone

/-- A record binds to itself. -/
theorem bind_values (hnodup : (specs.map ArgumentSpec.name).Nodup)
    (h : r.bind field specs raw = .ok b) : r.bind field specs b.values = .ok b := by
  have hnames : ∀ name ∈ b.values.names, name ∈ specs.map ArgumentSpec.name := by
    intro name hname
    rw [(values_of_bind hnodup h).2] at hname
    obtain ⟨e, he, rfl⟩ := List.mem_map.1 hname
    obtain ⟨spec, hspec, hentry⟩ := List.mem_filterMap.1 he
    exact (entryOf?_eq_some_iff.1 hentry).1 ▸ List.mem_map_of_mem hspec
  have hsame : ∀ spec ∈ specs,
      r.argumentValue field b.values spec = r.argumentValue field raw spec := by
    intro spec hspec
    have hvalue := argumentValue_of_bind hnodup h spec hspec
    rw [hvalue]
    cases hfound : b.get? spec.name with
    | none =>
      rw [hfound] at hvalue
      obtain ⟨hsupplied, hrequired⟩ := argumentValue_eq_none_iff.1 hvalue
      refine argumentValue_eq_none_iff.2 ⟨?_, hrequired⟩
      have hdefault : spec.default.isSome = false := (Bool.or_eq_false_iff.1 hsupplied).2
      rw [isSupplied, hdefault, Bool.or_false, Entries.has, ← BoundArguments.get?, hfound]
      rfl
    | some c =>
      have hlookup : (b.values.lookup spec.name).or spec.default = some c := by
        rw [← BoundArguments.get?, hfound, Option.some_or]
      rw [argumentValue_of_or_eq_some hlookup,
        coerce_of_isCanonical (isCanonical_of_bind hnodup h hspec hfound)]
  rw [bind_eq_bindFrom hnames, bindFrom_congr hnodup hsame, ← bind_eq_bindFrom (names_of_bind h), h]

/-- Coercion gives canonical values, by no other changes than those of literals, ids and lists of
one item, and coercing again changes nothing; so the record of arguments with distinct names binds
to itself, as it does for every field of a finished registry. -/
theorem coerces_to_canonical (h : r.IsFinished) :
    (∀ type value c, r.coerce type value = .ok c →
      r.IsCanonical type c ∧ r.Adjusts type value c ∧ r.coerce type c = .ok c) ∧
    (∀ name specs raw b, (specs.map ArgumentSpec.name).Nodup → r.bind name specs raw = .ok b →
      r.bind name specs b.values = .ok b) ∧
    ∀ o f, .object o ∈ r.types → f ∈ o.fields → ∀ name raw b,
      r.bind name f.arguments raw = .ok b → r.bind name f.arguments b.values = .ok b := by
  refine ⟨fun type value c hc => ?_, fun name specs raw b hnodup => bind_values hnodup,
    fun o f ho hf name raw b => bind_values (h.isRegular.arguments ho hf)⟩
  obtain ⟨hcanonical, hadjusts⟩ := coerce_canonical hc
  exact ⟨hcanonical, hadjusts, coerce_of_isCanonical hcanonical⟩

end Registry

namespace Bookshop

/-- The root of a shop that lists the books on its shelves. -/
def shelvesRoot : ObjectType Unit Unit where
  name := "Query"
  fields := [
    { name := "shelves"
      type := .named builtin.string
      arguments := [{ name := "ids", type := .list (.namedList builtin.id) },
        { name := "order", type := .namedNonNull "Order", default := some (.string "TITLE") }] }]

/-- A shop with shelves. -/
def shelves : Registry Unit Unit := (Registry.empty "Query").performAll
  [.register (.enum { name := "Order", values := ["TITLE", "YEAR"] }),
    .register (.object shelvesRoot)]

theorem isFinished_shelves : shelves.IsFinished := ⟨⟨"Query", _, rfl⟩, by rfl⟩

/-- Ids on shelves of their own are wrapped into lists, and the default order becomes a literal. -/
theorem coerces_to_canonical_shelves :
    shelves.IsFinished ∧
    (∃ c, shelves.coerce (.list (.namedList builtin.id))
        (.list [.int 7, .null, .list [.string "x", .null]]) = .ok c ∧
      c.text = "[[\"7\"], null, [\"x\", null]]" ∧
      shelves.IsCanonical (.list (.namedList builtin.id)) c ∧
      shelves.Adjusts (.list (.namedList builtin.id))
        (.list [.int 7, .null, .list [.string "x", .null]]) c ∧
      shelves.coerce (.list (.namedList builtin.id)) c = .ok c) ∧
    ∃ f ∈ shelvesRoot.fields, ∃ b, shelves.bind f.name f.arguments [("ids", .int 7)] = .ok b ∧
      (Value.object b.values).text = "\x7bids: [[\"7\"]], order: TITLE\x7d" ∧
      shelves.bind f.name f.arguments b.values = .ok b := by
  have hroot : (.object shelvesRoot : NamedType Unit Unit) ∈ shelves.types :=
    List.mem_append_right _ (.head _)
  obtain ⟨hcoerce, -, hfield⟩ := Registry.coerces_to_canonical isFinished_shelves
  refine ⟨isFinished_shelves, ⟨_, rfl, by rfl, hcoerce _ _ _ rfl⟩, _, .head _, _, rfl, by rfl, ?_⟩
  exact hfield shelvesRoot _ hroot (.head _) "shelves" [("ids", .int 7)] _ rfl

end Bookshop

end Gazette
