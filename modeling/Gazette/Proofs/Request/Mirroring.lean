import Gazette.Proofs.Request.Reading
import Gazette.Proofs.Request.Trace

/-!
# Runs that mirror each other

Two schemas may be alike without being the same: one may keep a log of what it resolves, or hold its
types in another order.  A `Likeness` says which values, states and objects of the one stand for
which of the other, and for which names.  If fields of such objects give results that stand for each
other (`Scope.Mirrors`), then so do whole runs: their traces (`Scope.Mirrors.traceAll`) and their
responses (`Scope.Mirrors.respond`) are the same.
-/

namespace Gazette

variable {σ σ' ν ν' : Type}

/-! ## Results with other values -/

namespace FieldValue

mutual

theorem map_map {μ : Type} (f : ν' → ν) (g : ν → μ) (result : FieldValue ν') :
    (result.map f).map g = result.map fun v => g (f v) := by
  cases result with
  | list items => rw [map, map, map, mapItems_mapItems f g items]
  | _ => rfl

theorem mapItems_mapItems {μ : Type} (f : ν' → ν) (g : ν → μ) (items : List (FieldValue ν')) :
    mapItems g (mapItems f items) = mapItems (fun v => g (f v)) items := by
  cases items with
  | nil => rfl
  | cons v rest =>
    rw [mapItems, mapItems, mapItems, map_map f g v, mapItems_mapItems f g rest]

end

mutual

theorem map_id (result : FieldValue ν) : (result.map fun v => v) = result := by
  cases result with
  | list items => rw [map, mapItems_id items]
  | _ => rfl

theorem mapItems_id (items : List (FieldValue ν)) : mapItems (fun v => v) items = items := by
  cases items with
  | nil => rfl
  | cons v rest => rw [mapItems, map_id v, mapItems_id rest]

end

theorem isNull_map (f : ν' → ν) (result : FieldValue ν') :
    (result.map f).isNull = result.isNull := by
  cases result <;> simp only [map, isNull]

end FieldValue

namespace Completed

mutual

/-- A completed result with its values of objects mapped. -/
def map (f : ν' → ν) : Completed ν' → Completed ν
  | null => null
  | leaf value => leaf value
  | node value => node (f value)
  | tagged object value => tagged object (f value)
  | list items => list (mapItems f items)

/-- The items of a completed list with their values mapped. -/
def mapItems (f : ν' → ν) : List (Completed ν') → List (Completed ν)
  | [] => []
  | c :: rest => c.map f :: mapItems f rest

end

theorem map_list (f : ν' → ν) (items : List (Completed ν')) :
    (list items).map f = list (items.map (map f)) := by
  have hitems : mapItems f items = items.map (map f) := by
    induction items with
    | nil => rfl
    | cons c rest ih => rw [mapItems, ih, List.map_cons]
  rw [map, hitems]

end Completed

theorem mapM_map {α α' β β' ε : Type} (f : α → Except ε β) (f' : α' → Except ε β') (g : α' → α)
    (k : β' → β) (h : ∀ a, f (g a) = (f' a).map k) (as : List α') :
    (as.map g).mapM f = (as.mapM f').map (List.map k) := by
  induction as with
  | nil => rfl
  | cons a rest ih =>
    rw [List.map_cons, List.mapM_cons, List.mapM_cons, h, ih]
    cases f' a with
    | error e => rfl
    | ok b => cases rest.mapM f' <;> rfl

/-! ## Likenesses -/

/-- Which values, states and objects of one schema stand for which of another, for the types with
some names and the fields with some names. -/
structure Likeness (σ' ν' σ ν : Type) where
  image : ν' → ν
  states : σ' → σ → Prop
  objects : ObjectType σ' ν' → ObjectType σ ν → Prop
  known : String → Prop
  asked : String → Prop

namespace Likeness

/-- Whether two types are alike: the same leaf or interface type, or objects that are. -/
inductive Types (L : Likeness σ' ν' σ ν) : NamedType σ' ν' → NamedType σ ν → Prop
  | scalar (t : ScalarType) : Types L (.scalar t) (.scalar t)
  | enum (e : EnumType) : Types L (.enum e) (.enum e)
  | object {o' : ObjectType σ' ν'} {o : ObjectType σ ν} (h : L.objects o' o) :
    Types L (.object o') (.object o)
  | interface (i : InterfaceType) : Types L (.interface i) (.interface i)

end Likeness

namespace Registry

variable {L : Likeness σ' ν' σ ν} {r' : Registry σ' ν'} {r : Registry σ ν}

/-! ### Look-ups and arguments -/

/-- Whether two registries have like types, or none, under each known name. -/
def FindsAlike (r' : Registry σ' ν') (L : Likeness σ' ν' σ ν) (r : Registry σ ν) : Prop :=
  ∀ name, L.known name → Option.Rel L.Types (r'.find? name) (r.find? name)

theorem FindsAlike.exists_find (h : r'.FindsAlike L r) (name : String) (hname : L.known name) :
    (r'.find? name = none ∧ r.find? name = none) ∨
      ∃ t' t, r'.find? name = some t' ∧ r.find? name = some t ∧ L.Types t' t := by
  have hfind := h name hname
  cases ht' : r'.find? name <;> cases ht : r.find? name <;> rw [ht', ht] at hfind
  · exact .inl ⟨rfl, rfl⟩
  · cases hfind
  · cases hfind
  · cases hfind with
    | some halike => exact .inr ⟨_, _, rfl, rfl, halike⟩

theorem FindsAlike.coerceNamed_eq (h : r'.FindsAlike L r) (name : String) (hname : L.known name)
    (value : Value) : r'.coerceNamed name value = r.coerceNamed name value := by
  unfold coerceNamed
  rcases h.exists_find name hname with ⟨hnone', hnone⟩ | ⟨t', t, ht', ht, halike⟩
  · rw [hnone', hnone]
  · rw [ht', ht]
    cases halike <;> rfl

theorem FindsAlike.coerce_eq (h : r'.FindsAlike L r) {type : TypeRef}
    (htype : L.known type.baseName) (value : Value) :
    r'.coerce type value = r.coerce type value := by
  induction type generalizing value with
  | named name => rw [coerce, coerce, h.coerceNamed_eq name htype]
  | nonNull inner ih => rw [coerce, coerce, ih htype]
  | list item ih =>
    have hitem : r'.coerce item = r.coerce item := funext fun value => ih htype value
    unfold coerce
    rw [hitem]

theorem FindsAlike.argumentValue_eq (h : r'.FindsAlike L r) {spec : ArgumentSpec}
    (hspec : L.known spec.type.baseName) (field : String) (raw : Entries Value) :
    r'.argumentValue field raw spec = r.argumentValue field raw spec := by
  unfold argumentValue
  simp only [h.coerce_eq hspec]

theorem FindsAlike.bindFrom_eq (h : r'.FindsAlike L r) {specs : List ArgumentSpec}
    (hspecs : ∀ spec ∈ specs, L.known spec.type.baseName) (raw : Entries Value)
    (bound : BoundArguments) : r'.bindFrom raw bound specs = r.bindFrom raw bound specs := by
  induction specs generalizing raw bound with
  | nil => rfl
  | cons spec rest ih =>
    rw [bindFrom, bindFrom, h.argumentValue_eq (hspecs spec (.head _))]
    simp only [ih fun spec hspec => hspecs spec (.tail _ hspec)]

theorem FindsAlike.bind_eq (h : r'.FindsAlike L r) {specs : List ArgumentSpec}
    (hspecs : ∀ spec ∈ specs, L.known spec.type.baseName) (field : String) (raw : Entries Value) :
    r'.bind field specs raw = r.bind field specs raw := by
  rw [bind, bind, h.bindFrom_eq hspecs]

/-! ### Values of interfaces -/

variable [Node ν] [Node ν']

/-- Whether two registries look names up alike, and find like objects for the values of an
interface. -/
structure Mirrors (r' : Registry σ' ν') (L : Likeness σ' ν' σ ν) (r : Registry σ ν) : Prop where
  find : r'.FindsAlike L r
  name : ∀ o' o, L.objects o' o → o'.name = o.name
  implements : ∀ o' o, L.objects o' o → o'.implements = o.implements
  typeName : ∀ v, Node.typeName (L.image v) = Node.typeName v
  dispatch : ∀ interface, L.known interface → ∀ v,
    (∃ o' o, r'.concreteType interface v = .ok o' ∧
      r.concreteType interface (L.image v) = .ok o ∧ L.objects o' o) ∨
    (∃ e, r'.concreteType interface v = .error e ∧ r.concreteType interface (L.image v) = .error e)

omit [Node ν'] in
theorem concreteType_eq_ok_iff {r' : Registry σ' ν} {interface : String} {v : ν}
    {o : ObjectType σ' ν} : r'.concreteType interface v = .ok o ↔
      Node.typeName v = some o.name ∧ r'.object? o.name = some o ∧ o.isA interface := by
  constructor
  · intro h
    obtain ⟨hname, o', ho', -⟩ := isTagOf_of_concreteType h
    rw [concreteType, hname, Option.bind_some, ho'] at h
    dsimp only at h
    split at h
    · rename_i hisA
      obtain rfl := Except.ok.inj h
      exact ⟨hname, ho', hisA⟩
    · cases h
  · rintro ⟨hname, ho, hisA⟩
    rw [concreteType, hname, Option.bind_some, ho]
    exact if_pos hisA

/-! ### Completion -/

theorem Mirrors.completeNamed_map (h : r'.Mirrors L r) (name : String) (hname : L.known name)
    (result : FieldValue ν') : r.completeNamed name (result.map L.image) =
      (r'.completeNamed name result).map (Completed.map L.image) := by
  unfold completeNamed
  rcases h.find.exists_find name hname with ⟨hnone', hnone⟩ | ⟨t', t, ht', ht, halike⟩
  · rw [hnone', hnone]
    cases result <;> rfl
  rw [ht', ht]
  cases halike with
  | scalar t => cases result <;> rfl
  | enum e =>
    cases result with
    | leaf value =>
      simp only [FieldValue.map]
      cases value.name? with
      | none => rfl
      | some member => by_cases hmember : e.contains member <;> simp [hmember] <;> rfl
    | _ => rfl
  | object ho =>
    rename_i o' o
    cases result with
    | node v =>
      simp only [FieldValue.map, h.typeName, tagOf, ← h.name o' o ho]
      by_cases htag : Node.typeName v = some o'.name <;> simp [htag] <;> rfl
    | _ => rfl
  | interface i =>
    cases result with
    | node v =>
      have hi : i.name = name := (name_of_find? ht).2
      simp only [FieldValue.map, hi]
      rcases h.dispatch name hname v with ⟨o', o, ho', ho, hobjects⟩ | ⟨e, he', he⟩
      · rw [ho', ho]
        simp only [← h.name o' o hobjects]
        rfl
      · rw [he', he]
        rfl
    | _ => rfl

theorem Mirrors.complete_map (h : r'.Mirrors L r) {type : TypeRef} (htype : L.known type.baseName)
    (result : FieldValue ν') : r.complete type (result.map L.image) =
      (r'.complete type result).map (Option.map (Completed.map L.image)) := by
  induction type generalizing result with
  | nonNull inner ih =>
    rw [complete, complete, FieldValue.isNull_map]
    split
    · rfl
    · exact ih htype result
  | list item ih =>
    unfold complete
    rw [FieldValue.isNull_map]
    split
    · rfl
    · cases result with
      | list items =>
        have hitems := mapM_map (ε := FieldError)
          (fun i => do return (← r.complete item i).getD .null)
          (fun i => do return (← r'.complete item i).getD .null)
          (FieldValue.map L.image) (Completed.map L.image) (fun i => ?_) items
        · simp only [FieldValue.map_list, hitems]
          cases items.mapM fun i => (do return (← r'.complete item i).getD .null) with
          | error e => rfl
          | ok cs =>
            exact congrArg (fun c => Except.ok (some c)) (Completed.map_list L.image cs).symm
        · rw [ih htype i]
          cases r'.complete item i with
          | error e => rfl
          | ok c => cases c <;> rfl
      | _ => rfl
  | named name =>
    rw [complete, complete, FieldValue.isNull_map]
    split
    · rfl
    · rw [h.completeNamed_map name htype]
      cases r'.completeNamed name result <;> rfl

end Registry

/-! ## Runs -/

namespace Plan

mutual

/-- The names of all fields that are selected, at any depth. -/
def fieldNames : List Plan → List String
  | [] => []
  | p :: rest => p.fieldNamesOne ++ fieldNames rest

/-- The names of the fields in one selection. -/
def fieldNamesOne : Plan → List String
  | field head plans => head.name :: fieldNames plans
  | fragment _ _ _ plans => fieldNames plans
  | missing _ => []

end

end Plan

namespace Execution

variable [Node ν] [Node ν'] {L : Likeness σ' ν' σ ν} {scope' : Scope σ' ν'} {scope : Scope σ ν}

omit [Node ν'] in
/-- Whether the selections of an object can run on a value: one with its name, or the root value. -/
def Scope.Stands (scope : Scope σ' ν) (o : ObjectType σ' ν) (v : ν) : Prop :=
  v = scope.root ∨ Node.typeName v = some o.name

/-- Whether two fields of like objects are declared alike, and give results that stand for each
other. -/
structure FieldMirrors (scope' : Scope σ' ν') (L : Likeness σ' ν' σ ν) (o' : ObjectType σ' ν')
    (o : ObjectType σ ν) (f' : Field σ' ν') (f : Field σ ν) : Prop where
  name : f'.name = f.name
  type : f'.type = f.type
  arguments : f'.arguments = f.arguments
  role : f'.role = f.role
  known : L.known f.type.baseName
  knownArguments : ∀ spec ∈ f.arguments, L.known spec.type.baseName
  result : ∀ v, scope'.Stands o' v → ∀ b s' s, L.states s' s →
    (fieldResult o'.name f' v b s').1.map (FieldValue.map L.image) =
      (fieldResult o.name f (L.image v) b s).1 ∧
    L.states (fieldResult o'.name f' v b s').2 (fieldResult o.name f (L.image v) b s).2

/-- Whether the fields that are asked for have results in one scope that stand for those in
another. -/
structure Scope.Mirrors (scope' : Scope σ' ν') (L : Likeness σ' ν' σ ν) (scope : Scope σ ν) :
    Prop where
  registry : scope'.registry.Mirrors L scope.registry
  root : L.image scope'.root = scope.root
  source : scope'.source = scope.source
  given : scope'.given = scope.given
  declarations : scope'.declarations = scope.declarations
  registered : ∀ o' o, L.objects o' o →
    scope'.registry.object? o'.name = some o' ∧ scope.registry.object? o.name = some o
  field : ∀ o' o, L.objects o' o → ∀ name, L.asked name →
    (o'.field? name = none ∧ o.field? name = none) ∨
      ∃ f' f, o'.field? name = some f' ∧ o.field? name = some f ∧ FieldMirrors scope' L o' o f' f

/-- Whether two runs come to the same, in states that stand for each other. -/
def SameRun {α : Type} (L : Likeness σ' ν' σ ν) (x' : α × σ') (x : α × σ) : Prop :=
  x'.1 = x.1 ∧ L.states x'.2 x.2

omit [Node ν] [Node ν'] in
theorem sameRun_pure {α : Type} {a : α} {s' : σ'} {s : σ} (hs : L.states s' s) :
    SameRun L (a, s') (a, s) := ⟨rfl, hs⟩

theorem Scope.Mirrors.written_eq (h : scope'.Mirrors L scope) (arguments : Arguments) :
    scope'.written arguments = scope.written arguments := by
  have hvalue : scope'.valueOf? = scope.valueOf? := by
    unfold Scope.valueOf?
    rw [h.given, h.declarations]
  induction arguments with
  | nil => rfl
  | cons argument rest ih =>
    obtain ⟨name, literal⟩ := argument
    rw [Scope.written, Scope.written, Scope.firstUnbound, Scope.firstUnbound, hvalue, ih]

section

variable {o' : ObjectType σ' ν'} {o : ObjectType σ ν} (ho : L.objects o' o) {name : String}
  {f' : Field σ' ν'} {f : Field σ ν} (hfound' : o'.field? name = some f')
  (hfound : o.field? name = some f) (hf : FieldMirrors scope' L o' o f' f)
include ho hfound' hfound hf

theorem Scope.Mirrors.resolveDeclared_map (h : scope'.Mirrors L scope) {v : ν'}
    (hv : scope'.Stands o' v) (arguments : Entries Value) {s' : σ'} {s : σ} (hs : L.states s' s) :
    let x' := resolveDeclared scope'.registry o'.name f'.name v arguments s'
    let x := resolveDeclared scope.registry o.name f.name (L.image v) arguments s
    x'.1.map (Option.map (Completed.map L.image)) = x.1 ∧ L.states x'.2 x.2 ∧
      ∀ c, x'.1 = .ok (some c) → c.Fits scope'.registry .nothing f'.type := by
  obtain ⟨ho', ho⟩ := h.registered o' o ho
  rw [resolveDeclared_eq (Registry.field?_of_object ho' hfound'),
    resolveDeclared_eq (Registry.field?_of_object ho hfound)]
  refine and_assoc.1 ⟨?_, fun c hc => fits_of_resolveField (Prod.ext hc rfl)⟩
  unfold resolveField
  rw [hf.name, hf.arguments, h.registry.find.bind_eq hf.knownArguments]
  cases scope.registry.bind f.name f.arguments arguments with
  | error e => exact ⟨rfl, hs⟩
  | ok b =>
    obtain ⟨hresult, hstates⟩ := hf.result v hv b s' s hs
    dsimp only
    generalize fieldResult o'.name f' v b s' = x' at hresult hstates
    generalize fieldResult o.name f (L.image v) b s = x at hresult hstates
    obtain ⟨e | result, t'⟩ := x'
    · obtain ⟨y, t⟩ := x
      obtain rfl : .error e = y := hresult
      exact ⟨rfl, hstates⟩
    · obtain ⟨y, t⟩ := x
      obtain rfl : .ok (result.map L.image) = y := hresult
      rw [hf.type]
      exact ⟨(h.registry.complete_map hf.known result).symm, hstates⟩

end

section

variable {inside' : TraceInside σ' ν'} {inside : TraceInside σ ν}

omit [Node ν] [Node ν'] in
theorem sameRun_traceEach {α α' : Type} {item : TypeRef} {one' : α' → σ' → Trace × σ'}
    {one : α → σ → Trace × σ} {g : α' → α} {as : List α'}
    (h : ∀ a ∈ as, ∀ s' s, L.states s' s → SameRun L (one' a s') (one (g a) s)) {s' : σ'} {s : σ}
    (hs : L.states s' s) :
    SameRun L (traceEach item one' as s') (traceEach item one (as.map g) s) := by
  induction as generalizing s' s with
  | nil => exact sameRun_pure hs
  | cons a rest ih =>
    obtain ⟨htrace, hstates⟩ := h a (.head _) s' s hs
    obtain ⟨hrest, hstates'⟩ := ih (fun b hb => h b (.tail _ hb)) hstates
    rw [List.map_cons, traceEach, traceEach, htrace]
    dsimp only
    split
    · exact ⟨rfl, hstates⟩
    · exact ⟨congrArg _ hrest, hstates'⟩

theorem Scope.Mirrors.traceNamed (h : scope'.Mirrors L scope)
    (hinside : ∀ o' o, L.objects o' o → ∀ v, scope'.Stands o' v → ∀ s' s, L.states s' s →
      SameRun L (inside' o' v s') (inside o (L.image v) s))
    {name : String} (hname : L.known name) {c : Completed ν'}
    (hfits : c = .null ∨ c.FitsNamed scope'.registry .nothing name) {s' : σ'} {s : σ}
    (hs : L.states s' s) :
    SameRun L (traceNamed scope' inside' name c s')
      (traceNamed scope inside name (c.map L.image) s) := by
  unfold Completed.FitsNamed at hfits
  unfold Execution.traceNamed
  rcases h.registry.find.exists_find name hname with ⟨hnone', hnone⟩ | ⟨t', t, ht', ht, halike⟩
  · rw [hnone', hnone]
    exact sameRun_pure hs
  rw [ht'] at hfits
  rw [ht', ht]
  cases halike with
  | scalar t => cases c <;> exact sameRun_pure hs
  | enum e => cases c <;> exact sameRun_pure hs
  | object ho =>
    rename_i o' o
    cases c with
    | null => exact h.root ▸ hinside o' o ho _ (.inl rfl) s' s hs
    | node v => exact hinside o' o ho v (.inr (hfits.resolve_left nofun).1) s' s hs
    | _ => exact sameRun_pure hs
  | interface i =>
    cases c with
    | tagged tag v =>
      obtain ⟨htag, ⟨o', ho', hisA⟩, -⟩ := hfits.resolve_left nofun
      obtain ⟨-, rfl⟩ := Registry.mem_of_object? ho'
      obtain rfl : i.name = name := (Registry.name_of_find? ht').2
      have hconcrete := Registry.concreteType_eq_ok_iff.2 ⟨htag, ho', hisA⟩
      rcases h.registry.dispatch _ hname v with ⟨o₁, o, ho₁, ho, hobjects⟩ | ⟨e, he, -⟩
      · obtain rfl := Except.ok.inj (hconcrete.symm.trans ho₁)
        obtain ⟨-, hobject, -⟩ := Registry.concreteType_eq_ok_iff.1 ho
        rw [← h.registry.name _ _ hobjects] at hobject
        simp only [Completed.map, ho', hobject]
        exact hinside _ _ hobjects v (.inr htag) s' s hs
      · exact nomatch hconcrete.symm.trans he
    | _ => exact sameRun_pure hs

theorem Scope.Mirrors.traceValue (h : scope'.Mirrors L scope)
    (hinside : ∀ o' o, L.objects o' o → ∀ v, scope'.Stands o' v → ∀ s' s, L.states s' s →
      SameRun L (inside' o' v s') (inside o (L.image v) s))
    {type : TypeRef} (htype : L.known type.baseName) {c : Completed ν'}
    (hfits : c.Fits scope'.registry .nothing type) {s' : σ'} {s : σ} (hs : L.states s' s) :
    SameRun L (traceValue scope' inside' type c s')
      (traceValue scope inside type (c.map L.image) s) := by
  induction type generalizing c s' s with
  | nonNull inner ih => exact ih htype hfits.2 hs
  | list item ih =>
    unfold Execution.traceValue
    cases c with
    | list items =>
      have htraces : SameRun L (traceEach item (Execution.traceValue scope' inside' item) items s')
          (traceEach item (Execution.traceValue scope inside item)
            (items.map (Completed.map L.image)) s) :=
        sameRun_traceEach (fun c hc s' s hs => ih htype (hfits.of_mem hc) hs) hs
      rw [Completed.map_list]
      exact ⟨congrArg (Trace.list item) htraces.1, htraces.2⟩
    | _ => exact sameRun_pure hs
  | named name => exact h.traceNamed hinside htype hfits hs

theorem Scope.Mirrors.traceAt (h : scope'.Mirrors L scope)
    (hinside : ∀ o' o, L.objects o' o → ∀ v, scope'.Stands o' v → ∀ s' s, L.states s' s →
      SameRun L (inside' o' v s') (inside o (L.image v) s))
    {o' : ObjectType σ' ν'} {o : ObjectType σ ν} (ho : L.objects o' o) {name : String}
    {f' : Field σ' ν'} {f : Field σ ν} (hfound' : o'.field? name = some f')
    (hfound : o.field? name = some f) (hf : FieldMirrors scope' L o' o f' f) (head : FieldHead)
    {v : ν'} (hv : scope'.Stands o' v) {s' : σ'} {s : σ} (hs : L.states s' s) :
    SameRun L (traceAt scope' inside' o'.name f' head v s')
      (traceAt scope inside o.name f head (L.image v) s) := by
  unfold Execution.traceAt
  rw [h.written_eq, hf.type, hf.role]
  cases scope.written head.arguments with
  | error issue => exact sameRun_pure hs
  | ok values =>
    have hwith : SameRun L (traceWith scope' inside' o'.name f' head v values s')
        (traceWith scope inside o.name f head (L.image v) values s) := by
      obtain ⟨hresult, hstates, hfits⟩ :=
        h.resolveDeclared_map ho hfound' hfound hf hv (withDefaults f.arguments values) hs
      unfold traceWith causeOf
      rw [hf.arguments, hf.type, hf.role, h.source]
      generalize resolveDeclared scope'.registry o'.name f'.name v _ s' = x'
        at hresult hstates hfits
      generalize resolveDeclared scope.registry o.name f.name _ _ s = x at hresult hstates
      obtain ⟨y, t⟩ := x
      obtain rfl := hresult
      rcases x' with ⟨e | _ | c, t'⟩
      · exact sameRun_pure hstates
      · exact sameRun_pure hstates
      · exact h.traceValue hinside hf.known (hf.type ▸ hfits c rfl) hstates
    exact ⟨congrArg (Prod.mk _) hwith.1, hwith.2⟩

end

mutual

/-- Selections whose fields are asked for come to the same in scopes that mirror each other. -/
theorem Scope.Mirrors.traceAll (h : scope'.Mirrors L scope) {o' : ObjectType σ' ν'}
    {o : ObjectType σ ν} (ho : L.objects o' o) {v : ν'} (hv : scope'.Stands o' v)
    (plans : List Plan) (hplans : ∀ name ∈ Plan.fieldNames plans, L.asked name) {s' : σ'} {s : σ}
    (hs : L.states s' s) :
    SameRun L (traceAll scope' o' v plans s') (traceAll scope o (L.image v) plans s) := by
  cases plans with
  | nil => exact sameRun_pure hs
  | cons p rest =>
    obtain ⟨hp, hrest⟩ := List.forall_mem_append.1 hplans
    obtain ⟨hfirst, hstates⟩ := h.traceOne ho hv p hp hs
    obtain ⟨hmore, hstates'⟩ := h.traceAll ho hv rest hrest hstates
    rw [Execution.traceAll, Execution.traceAll, hfirst]
    dsimp only
    split
    · exact ⟨hfirst, hstates⟩
    · exact ⟨congrArg _ hmore, hstates'⟩

theorem Scope.Mirrors.traceOne (h : scope'.Mirrors L scope) {o' : ObjectType σ' ν'}
    {o : ObjectType σ ν} (ho : L.objects o' o) {v : ν'} (hv : scope'.Stands o' v)
    (p : Plan) (hp : ∀ name ∈ p.fieldNamesOne, L.asked name) {s' : σ'} {s : σ}
    (hs : L.states s' s) :
    SameRun L (traceOne scope' o' v p s') (traceOne scope o (L.image v) p s) := by
  cases p with
  | field head plans =>
    obtain ⟨hname, hplans⟩ := List.forall_mem_cons.1 hp
    rw [Execution.traceOne, Execution.traceOne, h.registry.name o' o ho]
    split
    · exact sameRun_pure hs
    · rcases h.field o' o ho head.name hname with ⟨hnone', hnone⟩ | ⟨f', f, hf', hf, hmirrors⟩
      · rw [hnone', hnone]
        exact sameRun_pure hs
      · rw [hf', hf]
        let inside' : TraceInside σ' ν' := fun o v s =>
          (.object (Execution.traceAll scope' o v plans s).1,
            (Execution.traceAll scope' o v plans s).2)
        let inside : TraceInside σ ν := fun o v s =>
          (.object (Execution.traceAll scope o v plans s).1,
            (Execution.traceAll scope o v plans s).2)
        have hinside (o' : ObjectType σ' ν') (o : ObjectType σ ν) (ho : L.objects o' o) (v : ν')
            (hv : scope'.Stands o' v) (s' : σ') (s : σ) (hs : L.states s' s) :
            SameRun L (inside' o' v s') (inside o (L.image v) s) := by
          obtain ⟨hmembers, hstates⟩ := h.traceAll ho hv plans hplans hs
          exact ⟨congrArg _ hmembers, hstates⟩
        have hat := h.traceAt hinside ho hf' hf hmirrors head hv hs
        rw [h.registry.name o' o ho] at hat
        exact ⟨congrArg (fun m => [m]) hat.1, hat.2⟩
  | fragment name condition directives plans =>
    have happlies : applies o' condition = applies o condition := by
      unfold applies ObjectType.isA
      rw [h.registry.name o' o ho, h.registry.implements o' o ho]
    rw [Execution.traceOne, Execution.traceOne, happlies]
    split
    · exact h.traceAll ho hv plans hp hs
    · exact sameRun_pure hs
  | missing name => exact sameRun_pure hs

end

theorem Scope.Mirrors.executeAll (h : scope'.Mirrors L scope) {o' : ObjectType σ' ν'}
    {o : ObjectType σ ν} (ho : L.objects o' o) {v : ν'} (hv : scope'.Stands o' v)
    {plans : List Plan} (hplans : ∀ name ∈ Plan.fieldNames plans, L.asked name) {s' : σ'} {s : σ}
    (hs : L.states s' s) (path : Path) (recorded : List ResponseError) :
    let x' := executeAll scope' o' v path plans ⟨s', recorded⟩
    let x := executeAll scope o (L.image v) path plans ⟨s, recorded⟩
    x'.1 = x.1 ∧ x'.2.recorded = x.2.recorded ∧ L.states x'.2.state x.2.state := by
  obtain ⟨htrace, hstates⟩ := h.traceAll ho hv plans hplans hs
  dsimp only
  rw [executeAll_comes scope' o' v path plans s' recorded,
    executeAll_comes scope o (L.image v) path plans s recorded, htrace]
  exact ⟨rfl, rfl, hstates⟩

/-- The responses are the same. -/
theorem Scope.Mirrors.respond (h : scope'.Mirrors L scope) {o' : ObjectType σ' ν'}
    {o : ObjectType σ ν} (ho : L.objects o' o) {plans : List Plan}
    (hplans : ∀ name ∈ Plan.fieldNames plans, L.asked name) {s' : σ'} {s : σ}
    (hs : L.states s' s) :
    SameRun L (Execution.respond scope' o' plans s') (Execution.respond scope o plans s) := by
  obtain ⟨htrace, hstates⟩ := h.traceAll ho (.inl rfl) plans hplans hs
  rw [h.root] at htrace hstates
  rw [respond_eq_response, respond_eq_response]
  refine ⟨?_, hstates⟩
  simp only [trace, htrace]

end Execution

end Gazette
