import Gazette.Proofs.Definition.Legible
import Gazette.Proofs.Request.Failures

/-!
# What a definition determines

Legible registries with the same definition declare the same types, but for descriptions and
resolvers (`NamedType.bare`), and have the same roots (`Registry.bare_eq_of_definition_eq`).  The
text is read as one sequence of trees, and the trees of a type determine the type: an escaped string
is read back (`unescape_escape`), and a number is known from its parts.
-/

namespace Gazette

open Sdl

/-! ## Escaped strings -/

namespace Text

/-- The character whose escape stands at the start of a text, and the text after it. -/
def unescape : List Char → Option (Char × List Char)
  | [] => none
  | '\\' :: 'u' :: a :: b :: c :: d :: rest =>
    some (Char.ofNat (Nat.ofDigitChars 10 [a, b, c, d] 0), rest)
  | '\\' :: 'r' :: rest => some ('\r', rest)
  | '\\' :: 'n' :: rest => some ('\n', rest)
  | '\\' :: 't' :: rest => some ('\t', rest)
  | '\\' :: c :: rest => some (c, rest)
  | c :: rest => some (c, rest)

theorem unescape_control {c : Char} (h : isControl c) (cs : List Char) :
    unescape ('\\' :: 'u' :: padLeft 4 (Number.digits c.toNat) ++ cs) = some (c, cs) := by
  have hcode : c.toNat < 160 := by
    simp only [isControl, Bool.or_eq_true, Bool.and_eq_true, decide_eq_true_eq] at h
    omega
  have hdigits := Number.ofDigitChars_padLeft 4 c.toNat
  have hfour : (padLeft 4 (Number.digits c.toNat)).length = 4 :=
    Number.length_padLeft (by decide) (by omega)
  obtain ⟨w, x, y, z, hlist⟩ := List.length_eq_four.1 hfour
  rw [hlist] at hdigits ⊢
  show unescape ('\\' :: 'u' :: w :: x :: y :: z :: cs) = _
  rw [unescape, hdigits, Char.ofNat_toNat]

/-- Every character is read back from its escape. -/
theorem unescape_escape (c : Char) (cs : List Char) : unescape (escape c ++ cs) = some (c, cs) := by
  unfold escape
  split
  · rfl
  · rfl
  · rfl
  · rfl
  · rfl
  · rename_i hslash
    split
    · rename_i hcontrol
      exact unescape_control hcontrol cs
    · rw [List.singleton_append, unescape]
      all_goals
        intros
        exact absurd ‹c = '\\'› hslash

theorem flatMap_escape_injective {s t : List Char} (h : s.flatMap escape = t.flatMap escape) :
    s = t := by
  induction s generalizing t with
  | nil =>
    cases t with
    | nil => rfl
    | cons d t =>
      obtain ⟨first, more, hd, -⟩ := exists_escape d
      rw [List.flatMap_cons, hd] at h
      cases h
  | cons c s ih =>
    cases t with
    | nil =>
      obtain ⟨first, more, hc, -⟩ := exists_escape c
      rw [List.flatMap_cons, hc] at h
      cases h
    | cons d t =>
      rw [List.flatMap_cons, List.flatMap_cons] at h
      have hread := congrArg unescape h
      rw [unescape_escape, unescape_escape, Option.some.injEq, Prod.mk.injEq] at hread
      rw [hread.1, ih hread.2]

end Text

/-! ## Values -/

/-- What follows from equal images of two items follows for lists of them. -/
theorem map_eq_map_of_imp {α β γ δ : Type} {f : α → γ} {f' : β → γ} {g : α → δ} {g' : β → δ}
    {as : List α} {bs : List β} (h : as.map f = bs.map f')
    (hfg : ∀ a ∈ as, ∀ b ∈ bs, f a = f' b → g a = g' b) : as.map g = bs.map g' := by
  induction as generalizing bs with
  | nil =>
    cases bs with
    | nil => rfl
    | cons b bs => cases h
  | cons a as ih =>
    cases bs with
    | nil => cases h
    | cons b bs =>
      obtain ⟨hab, hrest⟩ := List.cons.inj h
      rw [List.map_cons, List.map_cons, hfg a (.head _) b (.head _) hab,
        ih hrest fun a ha b hb => hfg a (.tail _ ha) b (.tail _ hb)]

/-- Literals of the same text are the same value. -/
theorem Value.eq_of_constant_eq {v w : Value} (hv : v.IsLiteral) (hw : w.IsLiteral)
    (h : v.constant = w.constant) : v = w := by
  induction hv generalizing w with
  | null =>
    cases hw with
    | null => rfl
    | _ => cases h
  | boolean b =>
    cases hw with
    | boolean b' => rw [Constant.boolean.inj h]
    | _ => cases h
  | number hn =>
    cases hw with
    | number hm => rw [Number.eq_of_parts_eq (Constant.number.inj h)]
    | _ => cases h
  | string s =>
    cases hw with
    | string t =>
      have htext := Text.flatMap_escape_injective
        (StringText.quoted.inj (Constant.string.inj h))
      rw [String.toList_inj.1 htext]
    | _ => cases h
  | enum hname hword =>
    cases hw with
    | enum hname' hword' => rw [Constant.enum.inj h]
    | _ => cases h
  | @list items _ ih =>
    cases hw with
    | @list others hothers =>
      have hmap : items.map constant = others.map constant := by
        rw [← constants_eq_map, ← constants_eq_map]
        exact Constant.list.inj h
      have hids : items.map id = others.map id :=
        map_eq_map_of_imp hmap fun v hv w hw heq => ih v hv (hothers w hw) heq
      rw [List.map_id, List.map_id] at hids
      rw [hids]
    | _ => cases h

/-! ## Types -/

/-- An argument without its description. -/
def ArgumentSpec.bare (spec : ArgumentSpec) : ArgumentSpec := { spec with description := none }

/-- A field without its description, and without what computes it. -/
def Field.bare {σ ν : Type} (f : Field σ ν) : Field Unit Unit where
  name := f.name
  type := f.type
  arguments := f.arguments.map ArgumentSpec.bare

/-- A field of an interface without its description. -/
def InterfaceField.bare (f : InterfaceField) : InterfaceField := { f with description := none }

/-- A type without descriptions and resolvers: what requests may ask of it. -/
def NamedType.bare {σ ν : Type} : NamedType σ ν → NamedType Unit Unit
  | scalar t => .scalar { name := t.name }
  | enum e => .enum { name := e.name, values := e.values }
  | object o => .object
    { name := o.name, implements := o.implements, fields := o.fields.map Field.bare }
  | interface i => .interface { name := i.name, fields := i.fields.map InterfaceField.bare }

variable {σ ν σ' ν' : Type}

theorem ArgumentSpec.bare_eq {a b : ArgumentSpec} (ha : a.IsPrintable) (hb : b.IsPrintable)
    (h : a.tree = b.tree) : a.bare = b.bare := by
  obtain ⟨name, type, description, default⟩ := a
  obtain ⟨name', type', description', default'⟩ := b
  simp only [tree, ArgumentDefinition.mk.injEq] at h
  obtain ⟨-, rfl, rfl, hdefault⟩ := h
  have heq : default = default' := by
    cases default with
    | none =>
      cases default' with
      | none => rfl
      | some w => cases hdefault
    | some v =>
      cases default' with
      | none => cases hdefault
      | some w => rw [Value.eq_of_constant_eq (ha.default v rfl) (hb.default w rfl)
          (Option.some.inj hdefault)]
  rw [heq]
  rfl

theorem Field.bare_eq {f : Field σ ν} {g : Field σ' ν'} (hf : f.IsPrintable) (hg : g.IsPrintable)
    (h : f.tree = g.tree) : f.bare = g.bare := by
  simp only [tree, FieldDefinition.mk.injEq] at h
  obtain ⟨-, hname, harguments, htype⟩ := h
  have hbare := map_eq_map_of_imp harguments fun a ha b hb heq =>
    ArgumentSpec.bare_eq (hf.arguments a ha) (hg.arguments b hb) heq
  rw [bare, bare, hname, htype, hbare]

theorem InterfaceField.bare_eq {f g : InterfaceField} (h : f.tree = g.tree) : f.bare = g.bare := by
  simp only [tree, FieldDefinition.mk.injEq] at h
  rw [bare, bare, h.2.1, h.2.2.2]

/-- The tree of a type determines the type, but for descriptions and resolvers. -/
theorem NamedType.bare_eq {t : NamedType σ ν} {u : NamedType σ' ν'} (ht : t.IsPrintable)
    (hu : u.IsPrintable) (h : t.tree = u.tree) : t.bare = u.bare := by
  simp only [tree, TypeDefinition.mk.injEq] at h
  obtain ⟨-, hname, hbody⟩ := h
  cases t with
  | scalar t =>
    cases u with
    | scalar u => exact congrArg (fun name => scalar { name }) hname
    | _ => cases hbody
  | enum e =>
    cases u with
    | enum e' =>
      have hvalues : e.values.map id = e'.values.map id :=
        map_eq_map_of_imp (TypeBody.enum.inj hbody)
          fun v _ w _ heq => (ValueDefinition.mk.inj heq).2
      rw [List.map_id, List.map_id] at hvalues
      rw [bare, bare, hvalues, show e.name = e'.name from hname]
    | _ => cases hbody
  | object o =>
    cases u with
    | object o' =>
      obtain ⟨himplements, hfields⟩ := TypeBody.object.inj hbody
      have hbare := map_eq_map_of_imp hfields fun f hf g hg heq =>
        Field.bare_eq (ht.body.2 f hf) (hu.body.2 g hg) heq
      rw [bare, bare, hbare, himplements, show o.name = o'.name from hname]
    | _ => cases hbody
  | interface i =>
    cases u with
    | interface i' =>
      have hbare := map_eq_map_of_imp (TypeBody.interface.inj hbody) fun f _ g _ heq =>
        InterfaceField.bare_eq heq
      rw [bare, bare, hbare, show i.name = i'.name from hname]
    | _ => cases hbody

namespace Registry

variable {r : Registry σ ν} {r' : Registry σ' ν'}

theorem roots_eq_of_rootTrees_eq (h : r.rootTrees = r'.rootTrees) :
    r.query = r'.query ∧ r.mutation = r'.mutation := by
  obtain ⟨hquery, hmutation⟩ := List.cons.inj h
  refine ⟨(Prod.mk.inj hquery).2, ?_⟩
  cases hm : r.mutation <;> cases hm' : r'.mutation <;> simp_all

/-- Registries with the same definition declare the same types in the same order, with the same
fields, arguments, defaults, interfaces and values, and have the same roots, whatever descriptions
they carry. -/
theorem bare_eq_of_definition_eq (h : r.IsFinished) (h' : r'.IsFinished) (hl : r.IsLegible)
    (hl' : r'.IsLegible) (heq : r.definition = r'.definition) :
    r.declaredTypes.map NamedType.bare = r'.declaredTypes.map NamedType.bare ∧
      r.query = r'.query ∧ r.mutation = r'.mutation := by
  have hp := hl.isPrintable h
  have hp' := hl'.isPrintable h'
  have htrees : r.trees = r'.trees := by
    have hread := ofText?_definition hp
    rw [heq, ofText?_definition hp'] at hread
    exact (Option.some.inj hread).symm
  obtain ⟨htypes, hroots⟩ := List.append_inj' htrees rfl
  refine ⟨map_eq_map_of_imp htypes fun t ht u hu heq => ?_, ?_⟩
  · exact NamedType.bare_eq (hp.types t ht) (hp'.types u hu) (Definition.type.inj heq)
  · exact roots_eq_of_rootTrees_eq (Definition.roots.inj (List.cons.inj hroots).1)

end Registry

namespace Bookshop

/-- The root of a shop whose titles are listed up to a limit. -/
def catalogueRoot (description : String) : ObjectType Unit Thing where
  name := "Query"
  description := some description
  fields := [
    { name := "titles"
      type := .nonNullListNonNull builtin.string
      arguments := [{ name := "limit", type := .named builtin.int, default := some (.int 10) }] }]

/-- A shop with a described query root. -/
def catalogue (description : String) : Registry Unit Thing :=
  (Registry.empty "Query").performAll [.register (.object (catalogueRoot description))]

theorem isFinished_catalogue (description : String) : (catalogue description).IsFinished :=
  ⟨⟨"Query", _, rfl⟩, by rfl⟩

theorem declaredTypes_catalogue (description : String) :
    (catalogue description).declaredTypes = [.object (catalogueRoot description)] := by
  rfl

theorem isLegible_catalogue (description : String) : (catalogue description).IsLegible := by
  refine ⟨?_, ?_, ?_⟩
  all_goals rw [declaredTypes_catalogue, List.forall_mem_singleton]
  · refine ⟨show isName "Query".toList by decide,
      List.forall_mem_singleton.2 ⟨by decide, List.forall_mem_singleton.2 ?_⟩⟩
    decide
  · exact List.forall_mem_singleton.2 ⟨rfl, List.forall_mem_singleton.2 rfl⟩
  · refine List.forall_mem_singleton.2 (List.forall_mem_singleton.2 ?_)
    rintro _ ⟨⟩
    exact .number rfl

/-- Two catalogues have the same definition though only one of their descriptions ends its line. -/
theorem bare_eq_catalogue :
    (catalogue "All titles.").IsFinished ∧ (catalogue "All titles.\n").IsFinished ∧
    (catalogue "All titles.").IsLegible ∧ (catalogue "All titles.\n").IsLegible ∧
    (catalogue "All titles.").definition = (catalogue "All titles.\n").definition ∧
    (catalogue "All titles.").declaredTypes.map NamedType.bare =
      (catalogue "All titles.\n").declaredTypes.map NamedType.bare := by
  have heq : (catalogue "All titles.").definition = (catalogue "All titles.\n").definition := by
    decide +kernel
  exact ⟨isFinished_catalogue _, isFinished_catalogue _, isLegible_catalogue _,
    isLegible_catalogue _, heq, (Registry.bare_eq_of_definition_eq (isFinished_catalogue _)
      (isFinished_catalogue _) (isLegible_catalogue _) (isLegible_catalogue _) heq).1⟩

end Bookshop

end Gazette
