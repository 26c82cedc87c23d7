import Gazette.Proofs.Request.Accepted
import Gazette.Proofs.Request.Failures
import Gazette.Proofs.Schema.Finished
import Mathlib.Data.List.DropRight

/-!
# Printed types

An executor may know the type of a position by its text only.  The text of a reference says all
about it, as long as its name has none of the marks of lists and of non-null types in it
(`text_inj`, `stripMarks_text`, `endsNonNull_text`), and it stays the same when the reference is
handed to an executor with references of its own (`text_lower`).  So the fields and items that a run
comes to may be told by their texts whether an error stays with them (`text_is_faithful`).
-/

namespace Gazette

/-! ## Texts of references -/

namespace TypeRef

/-- Whether a character is a mark of lists or of non-null types. -/
def isMark (c : Char) : Bool := c = '[' || c = ']' || c = '!'

/-- A text without the marks that it begins and ends with. -/
def stripMarks (text : String) : String :=
  .ofList ((text.toList.dropWhile isMark).rdropWhile isMark)

/-- Whether a name has no marks in it. -/
def isPlain (name : String) : Bool := name.toList.all fun c => !isMark c

theorem isPlain_iff {name : String} : isPlain name ↔ ∀ c ∈ name.toList, isMark c = false := by
  simp [isPlain]

/-- Whether null is no value of a type by its text. -/
def endsNonNull (text : String) : Bool := text.toList.getLast? = some '!'

/-- Whether the name inside all wrappers has no marks. -/
def HasPlainName (type : TypeRef) : Prop := isPlain type.baseName

variable {type other : TypeRef}

theorem toList_text_nonNull (inner : TypeRef) :
    (nonNull inner).text.toList = inner.text.toList ++ ['!'] := by
  rw [text, String.toList_append]
  rfl

theorem toList_text_list (item : TypeRef) :
    (list item).text.toList = '[' :: item.text.toList ++ [']'] := by
  rw [text, String.toList_append, String.toList_append]
  rfl

theorem getLast?_text_eq_iff (h : type.HasPlainName) :
    type.text.toList.getLast? = some '!' ↔ type.isNonNull := by
  cases type with
  | named name =>
    refine iff_of_false (fun hlast => ?_) Bool.false_ne_true
    have hmark := isPlain_iff.1 h '!' (List.mem_of_getLast? hlast)
    cases hmark
  | nonNull inner => simp [toList_text_nonNull, isNonNull]
  | list item =>
    rw [toList_text_list, List.getLast?_concat]
    simp [isNonNull]

theorem endsNonNull_text (h : type.HasPlainName) : endsNonNull type.text = type.isNonNull := by
  rw [endsNonNull, Bool.eq_iff_iff, decide_eq_true_iff, getLast?_text_eq_iff h]

/-- Only names have no marks in their text. -/
theorem exists_named_of_text (h : isPlain type.text) : ∃ name, type = .named name := by
  cases type with
  | named name => exact ⟨name, rfl⟩
  | nonNull inner => cases isPlain_iff.1 h '!' (by simp [toList_text_nonNull])
  | list item => cases isPlain_iff.1 h '[' (by simp [toList_text_list])

/-- References with plain names are the same if their texts are. -/
theorem text_inj (h : type.HasPlainName) (h' : other.HasPlainName) (heq : type.text = other.text) :
    type = other := by
  induction type generalizing other with
  | named name =>
    obtain ⟨name', rfl⟩ : ∃ name', other = .named name' := exists_named_of_text (heq ▸ h)
    exact congrArg named heq
  | nonNull inner ih =>
    have hnonNull : other.isNonNull := by
      rw [← getLast?_text_eq_iff h', ← heq, toList_text_nonNull, List.getLast?_concat]
    cases other with
    | nonNull inner' =>
      have hchars := congrArg String.toList heq
      rw [toList_text_nonNull, toList_text_nonNull, List.append_left_inj,
        String.toList_inj] at hchars
      exact congrArg nonNull (ih h h' hchars)
    | _ => cases hnonNull
  | list item ih =>
    cases other with
    | named name =>
      obtain ⟨_, hname⟩ : ∃ name', list item = .named name' := exists_named_of_text (heq ▸ h')
      cases hname
    | nonNull inner =>
      have hlast := (getLast?_text_eq_iff h').2 rfl
      rw [← heq, getLast?_text_eq_iff h] at hlast
      cases hlast
    | list item' =>
      have hchars := congrArg String.toList heq
      rw [toList_text_list, toList_text_list, List.cons_append, List.cons_append, List.cons.injEq,
        List.append_left_inj, String.toList_inj] at hchars
      exact congrArg list (ih h h' hchars.2)

/-- Around the name there are marks only. -/
theorem exists_marks (type : TypeRef) : ∃ front back,
    type.text.toList = front ++ type.baseName.toList ++ back ∧
      (∀ c ∈ front, isMark c) ∧ ∀ c ∈ back, isMark c := by
  induction type with
  | named name => exact ⟨[], [], by simp [text, baseName], by simp, by simp⟩
  | nonNull inner ih =>
    obtain ⟨front, back, heq, hfront, hback⟩ := ih
    refine ⟨front, back ++ ['!'], by simp [toList_text_nonNull, heq, baseName], hfront, ?_⟩
    simpa [or_imp, forall_and, isMark] using hback
  | list item ih =>
    obtain ⟨front, back, heq, hfront, hback⟩ := ih
    refine ⟨'[' :: front, back ++ [']'], by simp [toList_text_list, heq, baseName], ?_, ?_⟩
    · simpa [isMark] using hfront
    · simpa [or_imp, forall_and, isMark] using hback

theorem dropWhile_of_plain {cs : List Char} (h : ∀ c ∈ cs, isMark c = false) :
    cs.dropWhile isMark = cs := by
  cases cs with
  | nil => rfl
  | cons c rest => exact List.dropWhile_cons_of_neg (by simp [h c])

/-- Without its marks the text of a reference is the name. -/
theorem stripMarks_text (h : type.HasPlainName) : stripMarks type.text = type.baseName := by
  obtain ⟨front, back, heq, hfront, hback⟩ := exists_marks type
  have hleft : type.text.toList.dropWhile isMark = type.baseName.toList ++ back ∨
      (type.baseName.toList = [] ∧ type.text.toList.dropWhile isMark = []) := by
    rw [heq, List.append_assoc, List.dropWhile_append_of_pos hfront]
    cases hname : type.baseName.toList with
    | nil => exact .inr ⟨rfl, List.dropWhile_eq_nil_iff.2 hback⟩
    | cons c rest =>
      have hc : isMark c = false := isPlain_iff.1 h c (hname ▸ List.mem_cons_self)
      exact .inl (List.dropWhile_cons_of_neg (by simp [hc]))
  have hright : (type.baseName.toList ++ back).rdropWhile isMark = type.baseName.toList := by
    have hname : ∀ c ∈ type.baseName.toList.reverse, isMark c = false :=
      fun c hc => isPlain_iff.1 h c (List.mem_reverse.1 hc)
    rw [List.rdropWhile, List.reverse_append, List.dropWhile_append_of_pos (by simpa using hback),
      dropWhile_of_plain hname, List.reverse_reverse]
  rw [stripMarks, ← String.toList_inj, String.toList_ofList]
  rcases hleft with hleft | ⟨hname, hleft⟩
  · rw [hleft, hright]
  · rw [hleft, hname]
    rfl

end TypeRef

/-! ## References of an executor -/

/-- References to types as an executor builds them, and their texts. -/
structure ReferenceForm (τ : Type) where
  named : String → τ
  nonNull : τ → τ
  list : τ → τ
  text : τ → String

/-- Whether an executor writes names, non-null types and lists in the usual way. -/
structure ReferenceForm.IsUsual {τ : Type} (form : ReferenceForm τ) : Prop where
  text_named : ∀ name, form.text (form.named name) = name
  text_nonNull : ∀ inner, form.text (form.nonNull inner) = form.text inner ++ "!"
  text_list : ∀ item, form.text (form.list item) = "[" ++ form.text item ++ "]"

namespace TypeRef

variable {τ : Type} {form : ReferenceForm τ}

/-- A reference as an executor has it. -/
def lower (form : ReferenceForm τ) : TypeRef → τ
  | named name => form.named name
  | nonNull inner => form.nonNull (inner.lower form)
  | list item => form.list (item.lower form)

theorem text_lower (h : form.IsUsual) (type : TypeRef) :
    form.text (type.lower form) = type.text := by
  induction type with
  | named name => exact h.text_named name
  | nonNull inner ih => rw [lower, h.text_nonNull, ih, text]
  | list item ih => rw [lower, h.text_list, ih, text]

end TypeRef

/-! ## Positions -/

namespace Execution

/-- The run of a position that is told the text of its type: an error stays with it unless the text
ends with `!`. -/
def Run.printedPosition {σ : Type} (text : String) (path : Path) (run : Run σ Value) :
    Run σ Value := fun p =>
  match run p with
  | (.ok value, p) => (.ok value, p)
  | (.error e, p) =>
    let e := { e with path := e.path.or (some path) }
    if TypeRef.endsNonNull text then (.error e, p)
    else (.ok .null, { p with recorded := p.recorded ++ [e] })

theorem Run.printedPosition_text {σ : Type} {type : TypeRef} (h : type.HasPlainName) (path : Path)
    (run : Run σ Value) : printedPosition type.text path run = position type path run := by
  funext p
  unfold printedPosition position
  rcases run p with ⟨_ | _, _⟩ <;> simp only [TypeRef.endsNonNull_text h]

/-! ### The types of a trace -/

/-- Whether the types of all fields and items that a run came to are of some kind. -/
def Trace.HasTypes (q : TypeRef → Prop) (t : Trace) : Prop :=
  ∀ v ∈ t.visits, ∀ step ∈ v.place, q step.type

variable {q : TypeRef → Prop}

theorem Trace.hasTypes_iff {t : Trace} :
    t.HasTypes q ↔ ∀ c ∈ t.children, q c.1.type ∧ c.2.HasTypes q := by
  constructor
  · refine fun h c hc => ⟨h _ (below_mem_visits hc (root_mem_visits c.2)) c.1 (.head _), ?_⟩
    exact fun v hv step hstep => h _ (below_mem_visits hc hv) step (.tail _ hstep)
  · intro h v hv step hstep
    rcases mem_visits_iff.1 hv with rfl | ⟨c, hc, w, hw, rfl⟩
    · cases hstep
    · rcases List.mem_cons.1 hstep with rfl | hstep
      · exact (h c hc).1
      · exact (h c hc).2 w hw step hstep

theorem Trace.hasTypes_of_children_eq_nil {t : Trace} (h : t.children = []) : t.HasTypes q :=
  hasTypes_iff.2 (by simp [h])

theorem Trace.hasTypes_list {item : TypeRef} {items : List Trace} (hitem : q item)
    (h : ∀ t ∈ items, t.HasTypes q) : (list item items).HasTypes q :=
  hasTypes_iff.2 fun c hc => by
    obtain ⟨hmem, i, hstep⟩ := mem_of_mem_ranItems hc
    exact ⟨hstep ▸ hitem, h c.2 hmem⟩

theorem Trace.hasTypes_object {members : List (Slot × Trace)}
    (h : ∀ m ∈ members, q m.1.type ∧ m.2.HasTypes q) : (object members).HasTypes q :=
  hasTypes_iff.2 fun c hc => by
    obtain ⟨slot, hmem, hstep⟩ := exists_of_mem_ranMembers hc
    exact ⟨hstep ▸ (h _ hmem).1, (h _ hmem).2⟩

/-- Whether a kind of types has with a type those inside it, too. -/
structure IsInherited (q : TypeRef → Prop) : Prop where
  inner : ∀ inner, q (.nonNull inner) → q inner
  item : ∀ item, q (.list item) → q item

variable {σ ν : Type} {scope : Scope σ ν} {inside : TraceInside σ ν}

theorem hasTypes_traceNamed (hinside : ∀ name o v s, scope.registry.object? name = some o →
      (inside o v s).1.HasTypes q) (name : String) (value : Completed ν) (s : σ) :
    (traceNamed scope inside name value s).1.HasTypes q := by
  unfold traceNamed
  split
  · exact Trace.hasTypes_of_children_eq_nil rfl
  · exact Trace.hasTypes_of_children_eq_nil rfl
  · exact Trace.hasTypes_of_children_eq_nil rfl
  · rename_i hfind
    exact hinside _ _ _ _ (Registry.object?_eq_some_iff.2 hfind)
  · rename_i hfind
    exact hinside _ _ _ _ (Registry.object?_eq_some_iff.2 hfind)
  · split
    · rename_i ho
      exact hinside _ _ _ _ ho
    · exact Trace.hasTypes_of_children_eq_nil rfl
  · exact Trace.hasTypes_of_children_eq_nil rfl

/-- The rules of `Trace.Closed` do not give this, as they ask nothing of the types of items. -/
theorem hasTypes_traceValue (hq : IsInherited q)
    (hinside : ∀ name o v s, scope.registry.object? name = some o →
      (inside o v s).1.HasTypes q) {type : TypeRef} (htype : q type) (value : Completed ν) (s : σ) :
    (traceValue scope inside type value s).1.HasTypes q := by
  induction type generalizing value s with
  | named name => exact hasTypes_traceNamed hinside name value s
  | nonNull inner ih => exact ih (hq.inner inner htype) value s
  | list item ih =>
    have hitem := hq.item item htype
    unfold traceValue
    split
    · exact Trace.hasTypes_list hitem (forall_traceEach (fun v _ s => ih hitem v s) s)
    · exact Trace.hasTypes_of_children_eq_nil rfl

variable [Node ν]

/-- All that a run comes to has types of a kind, if the fields of all objects have. -/
theorem hasTypes_trace (hq : IsInherited q) (hstring : q (.namedNonNull builtin.string))
    (hfields : ∀ name o, scope.registry.object? name = some o → ∀ f ∈ o.fields, q f.type)
    {object : ObjectType σ ν} (hobject : ∀ f ∈ object.fields, q f.type) (plans : List Plan)
    (s : σ) : (trace scope object plans s).HasTypes q := by
  have hsustains : scope.Sustains (fun o => ∀ f ∈ o.fields, q f.type)
      fun _ m => q m.1.type ∧ m.2.HasTypes q := {
    typeName := fun o key => ⟨hstring, Trace.hasTypes_of_children_eq_nil rfl⟩
    field := fun o ho name f hfound inside hinside head parent s => by
      have hf : f ∈ o.fields := List.mem_of_find?_eq_some hfound
      have htypes : ∀ name o v s, scope.registry.object? name = some o →
          (inside o v s).1.HasTypes q := by
        intro name o v s hfound
        obtain ⟨members, hmembers, hall⟩ := hinside o v s (hfields name o hfound)
        exact hmembers ▸ Trace.hasTypes_object hall
      unfold traceAt
      split
      · refine ⟨ho f hf, ?_⟩
        unfold traceWith
        dsimp only
        split
        · exact Trace.hasTypes_of_children_eq_nil rfl
        · exact Trace.hasTypes_of_children_eq_nil rfl
        · exact hasTypes_traceValue hq htypes (ho f hf) _ _
      · exact ⟨ho f hf, Trace.hasTypes_of_children_eq_nil rfl⟩ }
  exact Trace.hasTypes_object (forall_traceAll hsustains hobject _ plans s)

end Execution

/-! ## Faithful texts -/

variable {σ ν : Type}

/-- Whether the fields of all objects have types with plain names. -/
def Registry.HasPlainTypes (r : Registry σ ν) : Prop :=
  ∀ name o, r.object? name = some o → ∀ f ∈ o.fields, f.type.HasPlainName

theorem TypeRef.hasPlainName_of_mem {type : TypeRef} {names : List String}
    (h : type.baseName ∈ names) (hnames : names.all TypeRef.isPlain) : type.HasPlainName :=
  List.all_eq_true.1 hnames _ h

/-- The fields that introspection adds have types with plain names. -/
theorem Registry.HasPlainTypes.withIntrospection {r : Registry σ ν} (h : r.HasPlainTypes)
    (root : ν) : (r.withIntrospection root).HasPlainTypes := by
  intro name O hO f hf
  rcases exists_of_object?_withIntrospection hO with ⟨o, ho, rfl⟩ | ⟨-, hmem⟩
  · rcases List.mem_append.1 hf with hf | hf
    · obtain ⟨own, hown, rfl⟩ := List.mem_map.1 hf
      exact h name o ho own hown
    · split at hf
      · exact TypeRef.hasPlainName_of_mem (rootFields_refer f hf).2.1 (by decide)
      · cases hf
  · have hbase := (Introspection.introspective_of_mem hmem f hf).2
    rw [Introspection.names_types] at hbase
    exact TypeRef.hasPlainName_of_mem hbase (by decide)

/-- References with plain names are told apart by their texts, and so is whether they are non-null;
their texts are those of the executor's references and, without the marks at both ends, their names.
At all fields and items that a run comes to, the text of the type therefore decides as the type does
where an error stays. -/
theorem text_is_faithful [Node ν] {τ : Type} {form : ReferenceForm τ} (hform : form.IsUsual) :
    (∀ type other : TypeRef, type.HasPlainName → other.HasPlainName →
      type.text = other.text → type = other) ∧
    (∀ type : TypeRef, type.HasPlainName → TypeRef.stripMarks type.text = type.baseName ∧
      form.text (type.lower form) = type.text ∧ TypeRef.endsNonNull type.text = type.isNonNull) ∧
    ∀ (schema : Schema σ ν) (request : Request) (selected : Schema.Selected σ (Subject ν)) (s : σ),
      schema.registry.HasPlainTypes → schema.select request = .ok selected →
      ∀ v ∈ (schema.trace request selected s).visits, ∀ step ∈ v.place,
      ∀ (path : Path) (run : Execution.Run σ Value),
        Execution.Run.printedPosition (form.text (step.type.lower form)) path run =
          Execution.Run.position step.type path run := by
  refine ⟨fun type other => TypeRef.text_inj, fun type h => ?_, ?_⟩
  · exact ⟨TypeRef.stripMarks_text h, TypeRef.text_lower hform type, TypeRef.endsNonNull_text h⟩
  · intro schema request selected s hplain hselect v hv step hstep path run
    have hexecutable : schema.executable.HasPlainTypes := hplain.withIntrospection schema.root
    have hroot := Schema.object?_root_of_select hselect
    have hinherited : Execution.IsInherited TypeRef.HasPlainName := ⟨fun _ h => h, fun _ h => h⟩
    have hstring : (TypeRef.namedNonNull builtin.string).HasPlainName := by
      show TypeRef.isPlain builtin.string
      decide
    have hfields : ∀ name o, (schema.scope request selected.operation).registry.object? name =
        some o → ∀ f ∈ o.fields, f.type.HasPlainName := hexecutable
    have htypes : (schema.trace request selected s).HasTypes TypeRef.HasPlainName :=
      Execution.hasTypes_trace hinherited hstring hfields (hexecutable _ _ hroot) selected.plans s
    rw [TypeRef.text_lower hform]
    exact Execution.Run.printedPosition_text (htypes v hv step hstep) path run

namespace Bookshop

theorem hasPlainTypes_schema : schema.registry.HasPlainTypes := by
  have hall : ∀ t ∈ Outline.ofRegistry schema.registry, ∀ f ∈ t.fields,
      TypeRef.isPlain f.type.baseName := by
    decide +kernel
  intro name o ho f hf
  exact hall _ (List.mem_map.2 ⟨_, (Registry.mem_of_object? ho).1, rfl⟩) _
    (List.mem_map.2 ⟨f, hf, rfl⟩)

/-- References of an executor that are made as the declared ones are. -/
def likeForm : ReferenceForm TypeRef := ⟨.named, .nonNull, .list, TypeRef.text⟩

/-- A query for the numbers of the books on the shelf, none of which has one. -/
def numbersQuery : Request where
  query := "\x7b shelf \x7b isbn \x7d \x7d"

/-- Where the errors of the books stay may be decided by the texts of the types, also at the items
of the shelf. -/
theorem text_is_faithful_numbersQuery :
    ∃ selected, schema.select numbersQuery = .ok selected ∧
      (∃ v ∈ (schema.trace numbersQuery selected ()).visits,
        Execution.Step.item (.named "Book") 1 ∈ v.place) ∧
      (∀ v ∈ (schema.trace numbersQuery selected ()).visits, ∀ step ∈ v.place,
        ∀ (path : Path) (run : Execution.Run Unit Value),
          Execution.Run.printedPosition (likeForm.text (step.type.lower likeForm)) path run =
            Execution.Run.position step.type path run) ∧
      TypeRef.stripMarks (TypeRef.namedListNonNull "Book").text = "Book" := by
  have hform : likeForm.IsUsual := ⟨fun _ => rfl, fun _ => rfl, fun _ => rfl⟩
  have hselects : schema.selects numbersQuery fun selected =>
      (schema.trace numbersQuery selected ()).visits.any fun v =>
        decide (Execution.Step.item (.named "Book") 1 ∈ v.place) := by
    decide +kernel
  obtain ⟨selected, hselect, hvisits⟩ := Schema.exists_of_selects hselects
  obtain ⟨v, hv, hitem⟩ := List.any_eq_true.1 hvisits
  obtain ⟨-, htexts, hpositions⟩ := text_is_faithful (σ := Unit) (ν := Thing) hform
  have hplain : (TypeRef.namedListNonNull "Book").HasPlainName := by
    show TypeRef.isPlain "Book"
    decide
  exact ⟨selected, hselect, ⟨v, hv, of_decide_eq_true hitem⟩,
    hpositions schema numbersQuery selected () hasPlainTypes_schema hselect, (htexts _ hplain).1⟩

end Bookshop

end Gazette
