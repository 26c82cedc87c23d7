import Gazette.Proofs.Schema.Finished

/-!
# Types that can be seen

A search ends with names that lead to each other only, and the names that it starts from are among
them (`Outline.completes_reach`): its fuel counts the successors that are left to follow.  So
introspection sees every type that the roots of a registry lead to (`Registry.LeadsTo`), with all
interfaces of such an object and all objects of such an interface (`sees_of_leadsTo`,
`sees_interface_of_leadsTo`, `sees_implementor`).  What it sees is connected with the roots
(`isConnected_of_sees`).
-/

namespace Gazette

namespace Outline

variable {outlines : List Outline} {seen rest result : List String} {name : String}

/-! ## Searching -/

/-- Whether what the types among `seen` lead to is among `seen` or still to be visited. -/
def LeadsInto (outlines : List Outline) (seen pending : List String) : Prop :=
  ∀ name ∈ seen, ∀ o, find? outlines name = some o → ∀ next ∈ successors outlines o,
    (find? outlines next).isSome → next ∈ seen ∨ next ∈ pending

/-- What a search from `names` comes to. -/
structure Completes (outlines : List Outline) (seen names result : List String) : Prop where
  seen_subset : seen ⊆ result
  mem : ∀ name ∈ names, (find? outlines name).isSome → name ∈ result
  closed : LeadsInto outlines result []

theorem completes_nil (h : LeadsInto outlines seen []) : Completes outlines seen [] seen :=
  ⟨List.Subset.refl _, by simp, h⟩

theorem Completes.append {between names more : List String}
    (h : Completes outlines seen names between) (h' : Completes outlines between more result) :
    Completes outlines seen (names ++ more) result where
  seen_subset := List.Subset.trans h.seen_subset h'.seen_subset
  mem name hname hfound := (List.mem_append.1 hname).elim
    (fun hname => h'.seen_subset (h.mem name hname hfound)) fun hname => h'.mem name hname hfound
  closed := h'.closed

/-! ### One step -/

/-- A name that is seen already, or that no type has, need not be visited. -/
theorem LeadsInto.skip (h : LeadsInto outlines seen (name :: rest))
    (hname : name ∈ seen ∨ find? outlines name = none) : LeadsInto outlines seen rest := by
  intro n hn o ho next hnext hfound
  rcases h n hn o ho next hnext hfound with hseen | hpending
  · exact .inl hseen
  · rcases List.mem_cons.1 hpending with rfl | hrest
    · exact .inl (hname.resolve_right (Option.isSome_iff_ne_none.1 hfound))
    · exact .inr hrest

theorem Completes.skip (h : Completes outlines seen rest result)
    (hname : name ∈ seen ∨ find? outlines name = none) :
    Completes outlines seen (name :: rest) result where
  seen_subset := h.seen_subset
  mem n hn hfound := by
    rcases List.mem_cons.1 hn with rfl | hrest
    · exact h.seen_subset (hname.resolve_right (Option.isSome_iff_ne_none.1 hfound))
    · exact h.mem n hrest hfound
  closed := h.closed

/-- To visit a type is to see it, with its successors to be visited. -/
theorem LeadsInto.visit {o : Outline} (h : LeadsInto outlines seen (name :: rest))
    (ho : find? outlines name = some o) :
    LeadsInto outlines (name :: seen) (successors outlines o ++ rest) := by
  intro n hn p hp next hnext hfound
  rcases List.mem_cons.1 hn with rfl | hseen
  · obtain rfl := Option.some.inj (ho.symm.trans hp)
    exact .inr (List.mem_append_left _ hnext)
  · rcases h n hseen p hp next hnext hfound with hnext | hpending
    · exact .inl (.tail _ hnext)
    · rcases List.mem_cons.1 hpending with rfl | hrest
      · exact .inl (.head _)
      · exact .inr (List.mem_append_right _ hrest)

theorem Completes.visit {more : List String}
    (h : Completes outlines (name :: seen) (more ++ rest) result) :
    Completes outlines seen (name :: rest) result where
  seen_subset := fun n hn => h.seen_subset (.tail _ hn)
  mem n hn hfound := by
    rcases List.mem_cons.1 hn with rfl | hrest
    · exact h.seen_subset (.head _)
    · exact h.mem n (List.mem_append_right _ hrest) hfound
  closed := h.closed

/-! ### Fuel -/

/-- The number of the successors of those of the types `os` that are not among `seen`. -/
def openSteps (outlines : List Outline) (seen : List String) (os : List Outline) : Nat :=
  os.foldr (fun o n => (if o.name ∈ seen then 0 else (successors outlines o).length) + n) 0

theorem openSteps_cons_le (outlines : List Outline) (seen : List String) (name : String)
    (os : List Outline) : openSteps outlines (name :: seen) os ≤ openSteps outlines seen os := by
  induction os with
  | nil => exact Nat.le_refl _
  | cons o os ih =>
    have hhead : (if o.name ∈ name :: seen then 0 else (successors outlines o).length) ≤
        if o.name ∈ seen then 0 else (successors outlines o).length := by
      by_cases hseen : o.name ∈ seen
      · simp [hseen]
      · split <;> simp
    simp only [openSteps, List.foldr_cons] at ih ⊢
    omega

/-- One more seen type leaves as many steps less as it has successors. -/
theorem openSteps_cons_add_le {o : Outline} {os : List Outline} (ho : o ∈ os)
    (hname : o.name ∉ seen) :
    openSteps outlines (o.name :: seen) os + (successors outlines o).length ≤
      openSteps outlines seen os := by
  induction os with
  | nil => cases ho
  | cons p os ih =>
    have hcons (seen : List String) : openSteps outlines seen (p :: os) =
        openSteps outlines seen [p] + openSteps outlines seen os := by simp [openSteps]
    rw [hcons, hcons]
    rcases List.mem_cons.1 ho with rfl | ho
    · have hrest := openSteps_cons_le outlines seen o.name os
      have hseen : openSteps outlines (o.name :: seen) [o] = 0 := by simp [openSteps]
      have hopen : openSteps outlines seen [o] = (successors outlines o).length := by
        simp [openSteps, hname]
      omega
    · have hrest := ih ho
      have hhead := openSteps_cons_le outlines seen o.name [p]
      omega

theorem searchSteps_eq (outlines : List Outline) :
    searchSteps outlines = openSteps outlines [] outlines + 2 := by
  have hsum (os : List Outline) : os.foldr (fun o n => (successors outlines o).length + n) 2 =
      openSteps outlines [] os + 2 := by
    induction os with
    | nil => rfl
    | cons o os ih =>
      rw [List.foldr_cons, ih]
      simp [openSteps]
      omega
  exact hsum outlines

theorem openSteps_le_nil (outlines : List Outline) (seen : List String) :
    openSteps outlines seen outlines ≤ openSteps outlines [] outlines := by
  induction seen with
  | nil => exact Nat.le_refl _
  | cons name seen ih => exact Nat.le_trans (openSteps_cons_le outlines seen name outlines) ih

/-- With fuel for the names to visit and the successors to follow, a search visits them all. -/
theorem completes_reach {fuel : Nat} {names : List String}
    (hfuel : names.length + openSteps outlines seen outlines ≤ fuel)
    (h : LeadsInto outlines seen names) :
    Completes outlines seen names (reach outlines fuel seen names) := by
  induction fuel generalizing seen names with
  | zero =>
    obtain rfl := List.length_eq_zero_iff.1 (show names.length = 0 by omega)
    exact completes_nil h
  | succ fuel ih =>
    cases names with
    | nil => exact completes_nil h
    | cons name rest =>
      rw [List.length_cons] at hfuel
      rw [reach]
      split
      · rename_i hseen
        have hskip : name ∈ seen ∨ find? outlines name = none :=
          .inl (List.contains_iff_mem.1 hseen)
        exact (ih (by omega) (h.skip hskip)).skip hskip
      · rename_i hseen
        split
        · rename_i o ho
          obtain rfl : o.name = name := key_of_find? ho
          have hsteps : openSteps outlines (o.name :: seen) outlines +
              (successors outlines o).length ≤ openSteps outlines seen outlines :=
            openSteps_cons_add_le (List.mem_of_find?_eq_some ho) (mt List.contains_iff_mem.2 hseen)
          have hlength : (successors outlines o ++ rest).length +
              openSteps outlines (o.name :: seen) outlines ≤ fuel := by
            rw [List.length_append]
            omega
          exact (ih hlength (h.visit ho)).visit
        · rename_i hnone
          exact (ih (by omega) (h.skip (.inr hnone))).skip (.inr hnone)

/-- The fuel of a search from one name is enough. -/
theorem completes_search (h : LeadsInto outlines seen []) (name : String) :
    Completes outlines seen [name] (reach outlines (searchSteps outlines) seen [name]) := by
  refine completes_reach ?_ fun n hn o ho next hnext hfound =>
    (h n hn o ho next hnext hfound).imp_right nofun
  have hle := openSteps_le_nil outlines seen
  rw [searchSteps_eq, List.length_singleton]
  omega

/-! ## What can be seen -/

/-- The names of the types that the roots lead to. -/
def reached (outlines : List Outline) (roots : List String) : List String :=
  roots.foldl (fun seen root => reach outlines (searchSteps outlines) seen [root]) []

/-- These, and what is found through their interfaces. -/
def noticed (outlines : List Outline) (roots : List String) : List String :=
  (sortByName outlines).foldl (addInterface outlines) (reached outlines roots)

theorem mem_visible_iff {roots : List String} : name ∈ visible outlines roots ↔
    (∃ o ∈ outlines, o.name = name) ∧
      (Registry.isBuiltin name ∨ isReserved name ∨ name ∈ noticed outlines roots) := by
  simp [visible, noticed, reached, or_assoc]

theorem completes_reached (outlines : List Outline) (roots : List String) :
    Completes outlines [] roots (reached outlines roots) := by
  have hall (roots seen : List String) (h : LeadsInto outlines seen []) :
      Completes outlines seen roots (roots.foldl
        (fun seen root => reach outlines (searchSteps outlines) seen [root]) seen) := by
    induction roots generalizing seen with
    | nil => exact completes_nil h
    | cons root roots ih =>
      have hroot := completes_search h root
      exact hroot.append (ih _ hroot.closed)
  exact hall roots [] (by simp [LeadsInto])

theorem mem_insertByName {o p : Outline} {os : List Outline} :
    p ∈ insertByName o os ↔ p = o ∨ p ∈ os := by
  induction os with
  | nil => simp [insertByName]
  | cons q os ih =>
    rw [insertByName]
    split
    · simp only [List.mem_cons, ih]
      tauto
    · simp

theorem mem_sortByName {o : Outline} {os : List Outline} : o ∈ sortByName os ↔ o ∈ os := by
  induction os with
  | nil => rfl
  | cons p os ih => rw [sortByName, List.foldr_cons, mem_insertByName, List.mem_cons, ← ih]; rfl

/-- To add interfaces is to search from those with a seen object. -/
theorem completes_addInterfaces {os : List Outline} {names : List String}
    (h : LeadsInto outlines seen []) (hnames : ∀ name ∈ names, ∃ o ∈ os, o.name = name ∧
      o.kind = .interface ∧ ∃ i ∈ implementors outlines name, i.name ∈ seen) :
    Completes outlines seen names (os.foldl (addInterface outlines) seen) := by
  induction os generalizing seen names with
  | nil =>
    refine ⟨List.Subset.refl _, fun name hname => ?_, h⟩
    obtain ⟨o, ho, -⟩ := hnames name hname
    cases ho
  | cons o os ih =>
    rw [List.foldl_cons, addInterface]
    split
    · -- Whatever had a seen object before has one still.
      have hsearch := completes_search h o.name
      have hothers : ∀ name ∈ names.filter (· ≠ o.name), ∃ p ∈ os, p.name = name ∧
          p.kind = .interface ∧ ∃ i ∈ implementors outlines name,
            i.name ∈ reach outlines (searchSteps outlines) seen [o.name] := by
        intro name hname
        obtain ⟨hname, hother⟩ := List.mem_filter.1 hname
        obtain ⟨p, hp, rfl, hkind, i, hi, hseen⟩ := hnames name hname
        have hmem := (List.mem_cons.1 hp).resolve_left fun heq =>
          of_decide_eq_true hother (congrArg Outline.name heq)
        exact ⟨p, hmem, rfl, hkind, i, hi, hsearch.seen_subset hseen⟩
      have hrest := ih hsearch.closed hothers
      refine ⟨List.Subset.trans hsearch.seen_subset hrest.seen_subset, fun name hname hfound => ?_,
        hrest.closed⟩
      by_cases hself : name = o.name
      · exact hrest.seen_subset (hsearch.mem name (List.mem_singleton.2 hself) hfound)
      · exact hrest.mem name (List.mem_filter.2 ⟨hname, decide_eq_true hself⟩) hfound
    · rename_i hnot
      refine ih h fun name hname => ?_
      obtain ⟨p, hp, rfl, hkind, i, hi, hseen⟩ := hnames name hname
      refine ⟨p, (List.mem_cons.1 hp).resolve_left fun heq => hnot ?_, rfl, hkind, i, hi, hseen⟩
      exact heq ▸ ⟨hkind, List.any_eq_true.2 ⟨i, hi, List.contains_iff_mem.2 hseen⟩⟩

/-- The types that the roots lead to are noticed, and so are the interfaces of their objects. -/
theorem completes_noticed (outlines : List Outline) (roots : List String) {names : List String}
    (hnames : ∀ name ∈ names, ∃ o ∈ outlines, o.name = name ∧ o.kind = .interface ∧
      ∃ i ∈ implementors outlines name, i.name ∈ reached outlines roots) :
    Completes outlines (reached outlines roots) names (noticed outlines roots) := by
  refine completes_addInterfaces (completes_reached outlines roots).closed fun name hname => ?_
  obtain ⟨o, ho, hrest⟩ := hnames name hname
  exact ⟨o, mem_sortByName.2 ho, hrest⟩

/-! ### Only what is led to -/

section

variable {P : String → Prop} (hstep : ∀ name o, P name → find? outlines name = some o →
  ∀ next ∈ successors outlines o, P next)

include hstep

/-- What types hand on to all that they lead to, a search hands on to all that it finds. -/
theorem forall_mem_reach {fuel : Nat} {names : List String} (hseen : ∀ n ∈ seen, P n)
    (hnames : ∀ n ∈ names, P n) : ∀ n ∈ reach outlines fuel seen names, P n := by
  induction fuel generalizing seen names with
  | zero => exact hseen
  | succ fuel ih =>
    cases names with
    | nil => exact hseen
    | cons name rest =>
      obtain ⟨hname, hrest⟩ := List.forall_mem_cons.1 hnames
      rw [reach]
      split
      · exact ih hseen hrest
      · split
        · rename_i o ho
          exact ih (List.forall_mem_cons.2 ⟨hname, hseen⟩)
            (List.forall_mem_append.2 ⟨hstep name o hname ho, hrest⟩)
        · exact ih hseen hrest

theorem forall_mem_reached {roots : List String} (hroots : ∀ root ∈ roots, P root) :
    ∀ n ∈ reached outlines roots, P n :=
  List.foldlRecOn (motive := fun seen => ∀ n ∈ seen, P n) roots _ (List.forall_mem_nil P)
    fun _ hseen root hroot =>
      forall_mem_reach hstep hseen (List.forall_mem_singleton.2 (hroots root hroot))

theorem forall_mem_noticed {roots : List String} (hroots : ∀ root ∈ roots, P root)
    (hback : ∀ o ∈ outlines, ∀ i ∈ implementors outlines o.name, P i.name → P o.name) :
    ∀ n ∈ noticed outlines roots, P n := by
  refine List.foldlRecOn (motive := fun seen => ∀ n ∈ seen, P n) _ _
    (forall_mem_reached hstep hroots) fun seen hseen o ho => ?_
  rw [addInterface]
  split
  · rename_i hcond
    obtain ⟨i, hi, hmem⟩ := List.any_eq_true.1 hcond.2
    have hname := hback o (mem_sortByName.1 ho) i hi (hseen _ (List.contains_iff_mem.1 hmem))
    exact forall_mem_reach hstep hseen (List.forall_mem_singleton.2 hname)
  · exact hseen

end

end Outline

/-! ## Registries with introspection -/

variable {σ ν : Type}

/-- What introspection tells of a field. -/
def Field.outline (f : Field σ ν) : FieldOutline := ⟨f.name, f.description, f.arguments, f.type⟩

/-- What introspection tells of a field of an interface. -/
def InterfaceField.outline (f : InterfaceField) : FieldOutline :=
  ⟨f.name, f.description, [], f.type⟩

namespace NamedType

/-- What introspection tells of the fields of a type. -/
def outlines : NamedType σ ν → List FieldOutline
  | object o => o.fields.map Field.outline
  | interface i => i.fields.map InterfaceField.outline
  | _ => []

/-- The types that the declaration of a type refers to. -/
def references (t : NamedType σ ν) : List TypeRef :=
  t.outlines.flatMap fun f => f.type :: f.arguments.map ArgumentSpec.type

end NamedType

namespace Registry

variable {r : Registry σ ν} {name next : String}

/-- The names of the roots. -/
def rootNames (r : Registry σ ν) : List String := r.query :: r.mutation.toList

/-- Whether a type leads to a name: through the type of a field or of an argument, or from an
interface to one of its objects. -/
inductive Refers (r : Registry σ ν) : String → String → Prop
  | reference {t : NamedType σ ν} {type : TypeRef} (ht : t ∈ r.types)
    (htype : type ∈ t.references) : Refers r t.name type.baseName
  | implementor {i : InterfaceType} {o : ObjectType σ ν} (hi : .interface i ∈ r.types)
    (ho : .object o ∈ r.types) (hisA : o.isA i.name) : Refers r i.name o.name

/-- Whether the roots of a registry lead to a name. -/
inductive LeadsTo (r : Registry σ ν) : String → Prop
  | root {name : String} (h : name ∈ r.rootNames) : LeadsTo r name
  | step {name next : String} (h : LeadsTo r name) (hnext : r.Refers name next) : LeadsTo r next

/-- Whether a name is connected with the roots: here one may go from an object to its interfaces
as well. -/
inductive IsConnected (r : Registry σ ν) : String → Prop
  | root {name : String} (h : name ∈ r.rootNames) : IsConnected r name
  | step {name next : String} (h : IsConnected r name) (hnext : r.Refers name next) :
    IsConnected r next
  | interface {o : ObjectType σ ν} {name : String} (ho : .object o ∈ r.types)
    (h : IsConnected r o.name) (hname : name ∈ o.implements) : IsConnected r name

/-! ### Names of registered types -/

/-- What a declaration refers to is registered. -/
theorem isSome_find?_of_mem_references (h : r.IsFinished) {t : NamedType σ ν} (ht : t ∈ r.types) :
    ∀ type ∈ t.references, (r.find? type.baseName).isSome := by
  intro type htype
  rw [isSome_find?_iff]
  have hwf := h.isWellFormed
  obtain ⟨f, hf, htype⟩ := List.mem_flatMap.1 htype
  cases t with
  | object o =>
    obtain ⟨g, hg, rfl⟩ := List.mem_map.1 hf
    rcases List.mem_cons.1 htype with rfl | htype
    · exact hwf.field o ht g hg
    · obtain ⟨spec, hspec, rfl⟩ := List.mem_map.1 htype
      obtain ⟨u, hu, hname, -⟩ := hwf.argument o ht g hg spec hspec
      exact hname ▸ List.mem_map_of_mem hu
  | interface i =>
    obtain ⟨g, hg, rfl⟩ := List.mem_map.1 hf
    obtain rfl := List.mem_singleton.1 htype
    exact hwf.interfaceField i ht g hg
  | _ => cases hf

theorem isSome_find?_of_mem_rootNames (h : r.IsFinished) (hname : name ∈ r.rootNames) :
    (r.find? name).isSome := by
  rw [isSome_find?_iff]
  rcases List.mem_cons.1 hname with rfl | hmutation
  · obtain ⟨o, ho, hname⟩ := h.isWellFormed.query
    exact hname ▸ List.mem_map_of_mem ho
  · obtain ⟨o, ho, hname⟩ := h.isWellFormed.mutation _ (Option.mem_toList.1 hmutation)
    exact hname ▸ List.mem_map_of_mem ho

theorem Refers.isSome_find? (h : r.IsFinished) (hnext : r.Refers name next) :
    (r.find? next).isSome := by
  cases hnext with
  | reference ht htype => exact isSome_find?_of_mem_references h ht _ htype
  | implementor _ ho _ => exact isSome_find?_iff.2 (List.mem_map_of_mem ho)

theorem Refers.exists_mem (hnext : r.Refers name next) : ∃ t ∈ r.types, t.name = name := by
  cases hnext with
  | reference ht _ => exact ⟨_, ht, rfl⟩
  | implementor hi _ _ => exact ⟨_, hi, rfl⟩

theorem IsConnected.isSome_find? (h : r.IsFinished) (hname : r.IsConnected name) :
    (r.find? name).isSome := by
  cases hname with
  | root hroot => exact isSome_find?_of_mem_rootNames h hroot
  | step _ hnext => exact hnext.isSome_find? h
  | interface ho _ hinterface =>
    obtain ⟨i, hi, rfl, -⟩ := h.isWellFormed.implements _ ho _ hinterface
    exact isSome_find?_iff.2 (List.mem_map_of_mem hi)

/-! ### What introspection knows -/

theorem name_describedOutline (t : NamedType σ ν) : (describedOutline t).name = t.name := by
  rw [← Outline.name_ofType, describedOutline]
  split <;> rfl

theorem kind_describedOutline (t : NamedType σ ν) :
    (describedOutline t).kind = (Outline.ofType t).kind := by
  rw [describedOutline]
  split <;> rfl

theorem fields_describedOutline (t : NamedType σ ν) :
    (describedOutline t).fields = t.outlines := by
  rw [describedOutline]
  split <;> cases t <;> rfl

theorem implements_describedOutline (t : NamedType σ ν) :
    (describedOutline t).implements = (Outline.ofType t).implements := by
  rw [describedOutline]
  split <;> rfl

/-- What introspection knows under the name of a type of the registry is the outline of that. -/
theorem find?_outlines {t : NamedType σ ν} (h : r.find? name = some t) :
    Outline.find? r.knowledge.outlines name = some (describedOutline t) := by
  have hcomp : (fun o : Outline => decide (o.name = name)) ∘ describedOutline =
      fun t : NamedType σ ν => decide (t.name = name) := by
    funext t
    rw [Function.comp_apply, name_describedOutline]
  show Outline.find? (r.types.map describedOutline ++ _) name = _
  rw [Outline.find?, List.find?_append, List.find?_map, hcomp,
    show r.types.find? (fun t => decide (t.name = name)) = some t from h]
  rfl

/-- The objects that implement an interface, in the order of their registration. -/
def objectsOf (r : Registry σ ν) (interface : String) : List (ObjectType σ ν) :=
  r.types.filterMap fun
    | .object o => if o.isA interface then some o else none
    | _ => none

theorem mem_objectsOf {interface : String} {o : ObjectType σ ν} :
    o ∈ r.objectsOf interface ↔ .object o ∈ r.types ∧ o.isA interface := by
  simp only [objectsOf, List.mem_filterMap]
  constructor
  · rintro ⟨t, ht, hsome⟩
    split at hsome
    · split at hsome
      · rename_i hisA
        obtain rfl := Option.some.inj hsome
        exact ⟨ht, hisA⟩
      · cases hsome
    · cases hsome
  · rintro ⟨ho, hisA⟩
    exact ⟨_, ho, if_pos hisA⟩

theorem names_implementors (r : Registry σ ν) (interface : String) :
    (Outline.implementors r.knowledge.outlines interface).map Outline.name =
      (r.objectsOf interface).map ObjectType.name := by
  have hown : Outline.implementors ((Introspection.types (σ := σ) (ν := ν)
      ⟨[], r.query, r.mutation, []⟩).map Outline.ofType) interface = [] := rfl
  have htypes (ts : List (NamedType σ ν)) :
      ((Outline.implementors (ts.map describedOutline) interface).map Outline.name) =
        (objectsOf { r with types := ts } interface).map ObjectType.name := by
    induction ts with
    | nil => rfl
    | cons t ts ih =>
      simp only [Outline.implementors, objectsOf, List.map_cons, List.filter_cons,
        List.filterMap_cons, implements_describedOutline] at ih ⊢
      cases t with
      | object o =>
        by_cases hisA : interface ∈ o.implements
        · simpa [Outline.ofType, ObjectType.isA, hisA, name_describedOutline, NamedType.name]
            using ih
        · simpa [Outline.ofType, ObjectType.isA, hisA] using ih
      | _ => simpa [Outline.ofType] using ih
  show ((r.types.map describedOutline ++ _).filter _).map _ = _
  rw [List.filter_append]
  show (Outline.implementors _ _ ++ Outline.implementors _ _).map _ = _
  rw [hown, List.append_nil]
  exact htypes r.types

theorem mem_successors_iff (h : r.IsFinished) {t : NamedType σ ν} (ht : t ∈ r.types) :
    next ∈ Outline.successors r.knowledge.outlines (describedOutline t) ↔
      r.Refers t.name next := by
  rw [Outline.successors, kind_describedOutline, name_describedOutline, names_implementors,
    fields_describedOutline, List.mem_append, List.mem_flatMap]
  constructor
  · rintro (⟨f, hf, hnext⟩ | hobject)
    · have hmap : next ∈ (f.type :: f.arguments.map ArgumentSpec.type).map TypeRef.baseName := by
        rwa [List.map_cons, List.map_map]
      obtain ⟨type, htype, rfl⟩ := List.mem_map.1 hmap
      exact .reference ht (List.mem_flatMap.2 ⟨f, hf, htype⟩)
    · cases t with
      | interface i =>
        obtain ⟨o, ho, rfl⟩ := List.mem_map.1 hobject
        obtain ⟨ho, hisA⟩ := mem_objectsOf.1 ho
        exact .implementor ht ho hisA
      | _ => cases hobject
  · intro hnext
    have hsame {u : NamedType σ ν} (hu : u ∈ r.types) (hname : t.name = u.name) : t = u := by
      have hfind := h.isRegular.find?_of_mem hu
      rw [← hname, h.isRegular.find?_of_mem ht] at hfind
      exact Option.some.inj hfind
    generalize hname : t.name = name at hnext
    cases hnext with
    | reference hu htype =>
      obtain rfl := hsame hu hname
      obtain ⟨f, hf, htype⟩ := List.mem_flatMap.1 htype
      refine .inl ⟨f, hf, ?_⟩
      have hmap := List.mem_map_of_mem (f := TypeRef.baseName) htype
      rwa [List.map_cons, List.map_map] at hmap
    | implementor hi ho hisA =>
      obtain rfl := hsame hi hname
      exact .inr (List.mem_map_of_mem (mem_objectsOf.2 ⟨ho, hisA⟩))

/-! ### What the roots lead to -/

/-- A set of names that lead to each other only has what its types lead to. -/
theorem mem_of_refers {names : List String} (h : r.IsFinished)
    (hclosed : Outline.LeadsInto r.knowledge.outlines names []) (hname : name ∈ names)
    (hnext : r.Refers name next) : next ∈ names := by
  obtain ⟨t, ht, rfl⟩ := hnext.exists_mem
  obtain ⟨u, hu⟩ := Option.isSome_iff_exists.1 (hnext.isSome_find? h)
  have hsome : (Outline.find? r.knowledge.outlines next).isSome := by rw [find?_outlines hu]; rfl
  have hfind := find?_outlines (h.isRegular.find?_of_mem ht)
  have hsuccessor := (mem_successors_iff h ht).2 hnext
  exact (hclosed t.name hname _ hfind next hsuccessor hsome).resolve_right List.not_mem_nil

theorem LeadsTo.mem_reached (h : r.IsFinished) (hname : r.LeadsTo name) :
    name ∈ Outline.reached r.knowledge.outlines r.rootNames := by
  have hreached := Outline.completes_reached r.knowledge.outlines r.rootNames
  induction hname with
  | root hroot =>
    obtain ⟨t, ht⟩ := Option.isSome_iff_exists.1 (isSome_find?_of_mem_rootNames h hroot)
    exact hreached.mem _ hroot (by rw [find?_outlines ht]; rfl)
  | step _ hnext ih => exact mem_of_refers h hreached.closed ih hnext

/-- What is noticed is connected with the roots. -/
theorem isConnected_of_mem_noticed (h : r.IsFinished) :
    ∀ name ∈ Outline.noticed r.knowledge.outlines r.rootNames, r.IsConnected name := by
  refine Outline.forall_mem_noticed ?_ (fun _ hroot => .root hroot) ?_
  · intro name o hname ho next hnext
    obtain ⟨t, ht⟩ := Option.isSome_iff_exists.1 (hname.isSome_find? h)
    rw [find?_outlines ht] at ho
    obtain rfl := Option.some.inj ho
    obtain ⟨hmem, rfl⟩ := name_of_find? ht
    exact .step hname ((mem_successors_iff h hmem).1 hnext)
  · intro o _ i hi hconnected
    have hname := List.mem_map_of_mem (f := Outline.name) hi
    rw [names_implementors] at hname
    obtain ⟨p, hp, hname⟩ := List.mem_map.1 hname
    obtain ⟨hp, hisA⟩ := mem_objectsOf.1 hp
    exact .interface hp (hname ▸ hconnected) (List.contains_iff_mem.1 hisA)

/-! ### What can be seen -/

/-- Whether introspection shows the type with a name. -/
def sees (r : Registry σ ν) (name : String) : Bool := r.knowledge.visible.contains name

/-- A type of the registry is seen if it is built in, if its name is reserved, or if it is
noticed. -/
theorem sees_iff {t : NamedType σ ν} (h : r.IsFinished) (ht : t ∈ r.types) :
    r.sees t.name ↔ isBuiltin t.name ∨ Outline.isReserved t.name ∨
      t.name ∈ Outline.noticed r.knowledge.outlines r.rootNames := by
  have hmem : ∃ o ∈ r.knowledge.outlines, o.name = t.name :=
    ⟨_, List.mem_of_find?_eq_some (find?_outlines (h.isRegular.find?_of_mem ht)),
      name_describedOutline t⟩
  rw [sees, List.contains_iff_mem]
  show t.name ∈ Outline.visible r.knowledge.outlines r.rootNames ↔ _
  rw [Outline.mem_visible_iff]
  exact and_iff_right hmem

theorem LeadsTo.mem_noticed (h : r.IsFinished) (hname : r.LeadsTo name) :
    name ∈ Outline.noticed r.knowledge.outlines r.rootNames :=
  (Outline.completes_noticed _ _ (List.forall_mem_nil _)).seen_subset (hname.mem_reached h)

theorem sees_of_leadsTo (h : r.IsFinished) {t : NamedType σ ν} (ht : t ∈ r.types)
    (hleads : r.LeadsTo t.name) : r.sees t.name :=
  (sees_iff h ht).2 (.inr (.inr (hleads.mem_noticed h)))

/-- A type that is seen is connected with the roots, unless it is seen by its name only. -/
theorem isConnected_of_sees (h : r.IsFinished) {t : NamedType σ ν} (ht : t ∈ r.types)
    (hbuiltin : isBuiltin t.name = false) (hsees : r.sees t.name) :
    Outline.isReserved t.name ∨ r.IsConnected t.name :=
  (((sees_iff h ht).1 hsees).resolve_left (Bool.eq_false_iff.1 hbuiltin)).imp_right
    (isConnected_of_mem_noticed h t.name)

/-- The interfaces of an object that the roots lead to are seen. -/
theorem sees_interface_of_leadsTo (h : r.IsFinished) {o : ObjectType σ ν}
    (ho : .object o ∈ r.types) (hleads : r.LeadsTo o.name) {interface : String}
    (hinterface : interface ∈ o.implements) : r.sees interface := by
  obtain ⟨i, hi, rfl, -⟩ := h.isWellFormed.implements o ho _ hinterface
  have hfind := find?_outlines (h.isRegular.find?_of_mem hi)
  have hisA : o.isA i.name := List.contains_iff_mem.2 hinterface
  have hobject : o.name ∈ (Outline.implementors r.knowledge.outlines i.name).map Outline.name := by
    rw [names_implementors]
    exact List.mem_map_of_mem (mem_objectsOf.2 ⟨ho, hisA⟩)
  obtain ⟨p, hp, hname⟩ := List.mem_map.1 hobject
  have hnoticed := Outline.completes_noticed r.knowledge.outlines r.rootNames
    (List.forall_mem_singleton.2 ⟨_, List.mem_of_find?_eq_some hfind, name_describedOutline _,
      kind_describedOutline _, p, hp, hname ▸ hleads.mem_reached h⟩)
  exact (sees_iff h hi).2 (.inr (.inr (hnoticed.mem _ (.head _) (by rw [hfind]; rfl))))

/-- The objects of an interface that is noticed are seen. -/
theorem sees_implementor (h : r.IsFinished) {i : InterfaceType} (hi : .interface i ∈ r.types)
    (hnoticed : i.name ∈ Outline.noticed r.knowledge.outlines r.rootNames) {o : ObjectType σ ν}
    (ho : .object o ∈ r.types) (hisA : o.isA i.name) : r.sees o.name := by
  have hclosed := (Outline.completes_noticed r.knowledge.outlines r.rootNames
    (List.forall_mem_nil _)).closed
  exact (sees_iff h ho).2 (.inr (.inr (mem_of_refers h hclosed hnoticed (.implementor hi ho hisA))))

end Registry

end Gazette
