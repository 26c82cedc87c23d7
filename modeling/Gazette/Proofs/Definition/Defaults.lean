import Gazette.Proofs.Definition.Literals
import Gazette.Proofs.Definition.Parts
import Gazette.Proofs.Schema.BoundRecord
import Gazette.Proofs.Schema.Canonical

/-!
# Defaults read back

The definition of a schema shows the default of an argument as a literal.  Where the literal is read
back as the default (`Value.KeepsText`), it may be given for the argument or be left out.  Where it
is not, what is read instead strays from the default, and values of which one strays from the other
never coerce to the same (`Registry.coerce_ne_of_strays`): then the text shows a default other than
the one that applies (`Bookshop.not_read_back_separator`).
-/

namespace Gazette

open Document
open Sdl (IsBoundary isName)

/-- Integers differ in their texts. -/
theorem Number.toString_inj {i j : Int} (h : toString i = toString j) : i = j := by
  rw [← Registry.text_int, ← Registry.text_int, text, text, String.ofList_inj] at h
  have hread (k : Int) : takeLexeme ((int k).chars ++ []) = some ((int k).parts, []) :=
    takeLexeme_chars rfl nofun
  have hparts := (hread i).symm.trans (h ▸ hread j)
  exact Number.int.inj (eq_of_parts_eq (Prod.mk.inj (Option.some.inj hparts)).1)

theorem Value.Strays.ne {v w : Value} (h : v.Strays w) : v ≠ w := by
  induction h with
  | string h => simpa using Ne.symm h
  | number h => simpa using Ne.symm h
  | infinite n => nofun
  | truth name b => nofun
  | nothing name => nofun
  | list before after after' _ ih => simpa using fun h => absurd h ih

namespace Registry

variable {σ ν : Type} {r : Registry σ ν}

/-! ## What is read instead coerces to something else -/

theorem not_adjustsLeaf_of_strays {name : String} {v w c : Value} (h : v.Strays w)
    (hv : r.AdjustsLeaf name v c) (hw : r.AdjustsLeaf name w c) : False := by
  cases hv with
  | same =>
    cases hw with
    | same => exact h.ne rfl
    | member => cases h
    | id => cases h
  | member =>
    cases hw with
    | same => cases h
    | member => exact h.ne rfl
  | id hname i =>
    generalize hs : toString i = s at hw
    cases hw with
    | same => cases h
    | id _ j =>
      cases h with
      | number hne => exact hne (congrArg Number.int (Number.toString_inj hs.symm))

/-- Values of which one strays from the other do not coerce to the same. -/
theorem not_adjusts_of_strays {type : TypeRef} {v w c : Value} (h : v.Strays w)
    (hv : r.Adjusts type v c) (hw : r.Adjusts type w c) : False := by
  induction type generalizing v w c with
  | nonNull inner ih => exact ih h hv hw
  | named name => exact not_adjustsLeaf_of_strays h hv hw
  | list item ih =>
    have hstrays := h
    cases h with
    | list before after after' hitem =>
      obtain ⟨cs, rfl, hvs⟩ := hv
      obtain ⟨_, heq, hws⟩ := hw
      obtain rfl := Value.list.inj heq
      have hvs := List.forall₂_drop before.length hvs
      have hws := List.forall₂_drop before.length hws
      rw [List.drop_left, List.forall₂_cons_left_iff] at hvs hws
      obtain ⟨c, cs', hv, -, hcs⟩ := hvs
      obtain ⟨c', cs'', hw, -, hcs'⟩ := hws
      obtain ⟨rfl, -⟩ := List.cons.inj (hcs.symm.trans hcs')
      exact ih hitem hv hw
    | infinite n | nothing name =>
      obtain ⟨only, rfl, -⟩ := hv
      cases hw
    | string _ | number _ | truth _ _ =>
      obtain ⟨only, rfl, hv⟩ := hv
      obtain ⟨_, heq, hw⟩ := hw
      obtain rfl := (List.cons.inj (Value.list.inj heq)).1
      exact ih hstrays hv hw

theorem coerce_ne_of_strays {type : TypeRef} {v w c : Value} (h : v.Strays w)
    (hv : r.coerce type v = .ok c) : r.coerce type w ≠ .ok c :=
  fun hw => not_adjusts_of_strays h (coerce_canonical hv).2 (coerce_canonical hw).2

/-! ## Where defaults stand -/

/-- The default of an argument stands behind its type, and its text ends there. -/
theorem exists_default_text {o : ObjectType σ ν} (ho : .object o ∈ r.types) {f : Field σ ν}
    (hf : f ∈ o.fields) {spec : ArgumentSpec} (hspec : spec ∈ f.arguments) {v : Value}
    (hv : spec.default = some v) : ∃ before after,
      r.definition.toList = before ++ (spec.name ++ ": " ++ spec.type.text ++ " = ").toList ++
        (v.text.toList ++ after) ∧ IsBoundary after := by
  obtain ⟨ending, hending, hpart⟩ := exists_isPart_argument hspec
  obtain ⟨before, after, htext⟩ :=
    hpart.trans ((isPart_argumentDefinitions f).trans (isPart_field ho hf))
  refine ⟨before, ending.toList ++ after, ?_, ?_⟩
  · rw [← htext, ArgumentSpec.definition, hv]
    simp
  · have hends : ∀ ending ∈ ["\n", ", ", ")"], ∃ c more, ending.toList = c :: more ∧
        (isNamePart c = false ∧ c ≠ '.' ∧ c ≠ '"') :=
      List.forall_mem_cons.2 ⟨⟨'\n', [], rfl, by decide⟩, List.forall_mem_cons.2
        ⟨⟨',', [' '], rfl, by decide⟩, List.forall_mem_singleton.2 ⟨')', [], rfl, by decide⟩⟩⟩
    obtain ⟨c, more, hchars, hc⟩ := hends ending hending
    rw [hchars]
    exact Sdl.isBoundary_cons hc _

/-! ## Giving the default -/

/-- Giving the default of an argument among other values restates them. -/
theorem restates_default {specs : List ArgumentSpec} {spec : ArgumentSpec} {v : Value}
    (hspec : spec ∈ specs) (hv : spec.default = some v) {before after : Entries Value}
    (hnodup : (before ++ after).names.Nodup) (hname : spec.name ∉ (before ++ after).names) :
    Restates specs (before ++ (spec.name, v) :: after) (before ++ after) := by
  have hperm : (before ++ (spec.name, v) :: after).Perm (before ++ after ++ [(spec.name, v)]) :=
    List.perm_middle.trans (List.perm_append_singleton _ _).symm
  refine ⟨?_, ⟨[(spec.name, v)], hperm, List.forall_mem_singleton.2 ⟨spec, hspec, rfl, hname, hv⟩⟩,
    ?_⟩
  · have hnames : (before ++ (spec.name, v) :: after).names.Perm
        (spec.name :: (before ++ after).names) := List.perm_middle.map Prod.fst
    exact hnames.nodup_iff.2 (List.nodup_cons.2 ⟨hname, hnodup⟩)
  · simpa [undeclared, Entries.names, List.filter_cons] using ⟨spec, hspec, rfl⟩

/-- A value that does not coerce as the default does is not bound as it is. -/
theorem argumentValue_ne {field : String} {spec : ArgumentSpec} {v w c : Value}
    (hv : spec.default = some v) (hc : r.coerce spec.type v = .ok c)
    (hw : r.coerce spec.type w ≠ .ok c) {before after : Entries Value}
    (hname : spec.name ∉ (before ++ after).names) :
    r.argumentValue field (before ++ (spec.name, w) :: after) spec ≠
      r.argumentValue field (before ++ after) spec := by
  have hnone : (before ++ after).lookup spec.name = none := Entries.lookup_eq_none_iff.2 hname
  have hgiven : (before ++ (spec.name, w) :: after).lookup spec.name = some w := by
    rw [List.lookup_append, Option.or_eq_none_iff] at hnone
    rw [List.lookup_append, hnone.1]
    simp
  have hor : ((before ++ (spec.name, w) :: after).lookup spec.name).or spec.default = some w := by
    rw [hgiven, Option.some_or]
  have hdefault : ((before ++ after).lookup spec.name).or spec.default = some v := by
    rw [hnone, hv, Option.none_or]
  rw [argumentValue_of_or_eq_some hor, argumentValue_of_or_eq_some hdefault, hc]
  cases hcoerce : r.coerce spec.type w with
  | ok c' =>
    exact fun heq =>
      hw (hcoerce.trans (congrArg Except.ok (Option.some.inj (Except.ok.inj heq))))
  | error e => nofun

/-- The text of a default says which value applies, for the values that are read back
(`Value.KeepsText`): read as a literal, it is the default, and giving it binds all arguments as
leaving it out.  Of numbers, integers of 64 bits and doubles with a short text are such.  Where a
default is not read back, what is read in its place never gives the argument the value that the
default does; here the members of enums have to be names. -/
theorem default_reads_back (h : r.IsFinished) {o : ObjectType σ ν} (ho : .object o ∈ r.types)
    {f : Field σ ν} (hf : f ∈ o.fields) {spec : ArgumentSpec} (hspec : spec ∈ f.arguments)
    {v : Value} (hv : spec.default = some v) :
    (∃ before after, r.definition.toList =
        before ++ (spec.name ++ ": " ++ spec.type.text ++ " = ").toList ++
          (v.text.toList ++ after) ∧ IsBoundary after) ∧
    (v.KeepsText →
      (∀ after, IsBoundary after → takeConstant (v.text.toList ++ after) = some (v, after)) ∧
      ∀ before after : Entries Value, (before ++ after).names.Nodup →
        spec.name ∉ (before ++ after).names →
          r.bind f.name f.arguments (before ++ (spec.name, v) :: after) =
            r.bind f.name f.arguments (before ++ after)) ∧
    (∀ n : Int, -2 ^ 63 ≤ n → n < 2 ^ 64 → (Value.number (.int n)).KeepsText) ∧
    (∀ x : Double, x.isFinite → (Number.float x).parts.IsShort →
      (Value.number (.float x)).KeepsText) ∧
    ((∀ name, r.IsMember name → isName name.toList) → ¬ v.KeepsText →
      ∀ text rest w, IsBoundary text → takeConstant (v.text.toList ++ text) = some (w, rest) →
        ∀ before after : Entries Value, spec.name ∉ (before ++ after).names →
          r.argumentValue f.name (before ++ (spec.name, w) :: after) spec ≠
            r.argumentValue f.name (before ++ after) spec) := by
  have hnodup : (f.arguments.map ArgumentSpec.name).Nodup := (h.isRegular.members _ ho).2 f hf
  obtain ⟨c, hc⟩ := h.isWellFormed.default o ho f hf spec hspec v hv
  refine ⟨exists_default_text ho hf hspec hv, fun hkeeps => ⟨fun after => hkeeps.takeConstant_text,
    fun before after hraw hname => ?_⟩, fun n => Value.KeepsText.int,
    fun x => Value.KeepsText.float,
    fun hnames hkeeps text rest w htext hread before after hname => ?_⟩
  · exact (restates_default hspec hv hraw hname).bind_eq hnodup hraw
  · have hwritten : v.IsWritten := (isInput_of_coerce hc).mono hnames
    have hstrays := hwritten.strays_of_takeConstant hkeeps htext hread
    exact argumentValue_ne hv hc (coerce_ne_of_strays hstrays hc) hname

end Registry

namespace Bookshop

/-- The argument of a shop that lists titles with a separator between them. -/
def separatorArgument (separator : String) : ArgumentSpec where
  name := "separator"
  type := .named builtin.string
  default := some (.string separator)

/-- A field with that argument. -/
def titlesField (separator : String) : Field Unit Unit where
  name := "titles"
  type := .named builtin.string
  arguments := [separatorArgument separator]

/-- A shop with that field alone. -/
def listed (separator : String) : Registry Unit Unit :=
  (Registry.empty "Query").performAll
    [.register (.object { name := "Query", fields := [titlesField separator] })]

theorem isFinished_listed (separator : String) : (listed separator).IsFinished :=
  ⟨⟨"Query", _, rfl⟩, by rfl⟩

theorem mem_types_listed (separator : String) :
    .object { name := "Query", fields := [titlesField separator] } ∈ (listed separator).types := by
  have htypes : (listed separator).types = Registry.builtinScalars.map .scalar ++
      [.object { name := "Query", fields := [titlesField separator] }] := by rfl
  rw [htypes]
  exact List.mem_append_right _ (.head _)

/-- A separator with a quote, a line end and a tab is read back. -/
theorem default_reads_back_listed :
    takeConstant ((Value.string "\"\n\t").text.toList ++ ")".toList) =
        some (.string "\"\n\t", ")".toList) ∧
      (listed "\"\n\t").bind "titles" [separatorArgument "\"\n\t"]
          [("separator", .string "\"\n\t")] =
        (listed "\"\n\t").bind "titles" [separatorArgument "\"\n\t"] [] := by
  obtain ⟨-, hkept, -⟩ := Registry.default_reads_back (isFinished_listed "\"\n\t")
    (mem_types_listed _) (.head _) (.head _) rfl
  obtain ⟨hread, hbind⟩ := hkept (.string (by simp; decide))
  exact ⟨hread _ (Sdl.Scans.boundary (by decide) _), hbind [] [] (by decide) (by decide)⟩

/-- The control character 31 is written as if its code were 49, which is that of the digit one. -/
theorem not_read_back_separator :
    (listed "\x1f").IsFinished ∧
      (listed "\x1f").definition = "type Query \x7b\n" ++
        "  titles(separator: String = \"\\u0031\"): String\n" ++
        "\x7d\n\nschema \x7b\n  query: Query\n\x7d\n" ∧
      takeConstant "\"\\u0031\"".toList = some (.string "1", []) ∧
      (listed "\x1f").argumentValue "titles" [("separator", .string "1")]
        (separatorArgument "\x1f") = .ok (some (.string "1")) ∧
      (listed "\x1f").argumentValue "titles" [] (separatorArgument "\x1f") =
        .ok (some (.string "\x1f")) := by
  exact ⟨isFinished_listed _, by decide +kernel, by rfl, by rfl, by rfl⟩

end Bookshop

end Gazette
