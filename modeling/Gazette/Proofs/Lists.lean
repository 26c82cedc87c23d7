import Gazette.Entries
import Mathlib.Data.List.Forall2
import Mathlib.Data.List.Nodup

/-!
# Lists and entries

Facts about lists that many proofs share: a computation that runs through a list succeeds if it
succeeds at each item (`mapM_eq_ok_iff`), items of different names are found under their names
(`find?_eq_some_iff_of_nodup`), and what look-ups see of entries after one of them is taken away.
-/

namespace Gazette

variable {α β ε : Type}

theorem bind_eq_ok_iff {x : Except ε α} {f : α → Except ε β} {b : β} :
    (x >>= f) = .ok b ↔ ∃ a, x = .ok a ∧ f a = .ok b := by
  cases x with
  | error e => exact ⟨nofun, nofun⟩
  | ok a => exact ⟨fun h => ⟨a, rfl, h⟩, fun ⟨_, ha, h⟩ => Except.ok.inj ha ▸ h⟩

theorem bind_eq_error_iff {x : Except ε α} {f : α → Except ε β} {e : ε} :
    (x >>= f) = .error e ↔ x = .error e ∨ ∃ a, x = .ok a ∧ f a = .error e := by
  cases x with
  | error e' =>
    constructor
    · exact fun h => .inl (congrArg _ (Except.error.inj h))
    · rintro (h | ⟨a, ha, -⟩)
      · exact congrArg _ (Except.error.inj h)
      · cases ha
  | ok a =>
    constructor
    · exact fun h => .inr ⟨a, rfl, h⟩
    · rintro (h | ⟨b, hb, h⟩)
      · cases h
      · exact Except.ok.inj hb ▸ h

theorem map_eq_ok_iff {x : Except ε α} {f : α → β} {b : β} :
    x.map f = .ok b ↔ ∃ a, x = .ok a ∧ f a = b := by
  cases x with
  | error e => exact ⟨nofun, nofun⟩
  | ok a => exact ⟨fun h => ⟨a, rfl, Except.ok.inj h⟩, fun ⟨_, ha, h⟩ => Except.ok.inj ha ▸ h ▸ rfl⟩

theorem map_eq_error_iff {x : Except ε α} {f : α → β} {e : ε} :
    x.map f = .error e ↔ x = .error e := by
  cases x with
  | error e' => simp only [Except.map, Except.error.injEq]
  | ok a => exact ⟨nofun, nofun⟩

theorem toOption_eq_some_iff {x : Except ε α} {a : α} : x.toOption = some a ↔ x = .ok a := by
  cases x with
  | error e => exact ⟨nofun, nofun⟩
  | ok b => simp only [Except.toOption, Option.some.injEq, Except.ok.injEq]

theorem mapM_congr {f g : α → Except ε β} {as : List α} (h : ∀ a ∈ as, f a = g a) :
    as.mapM f = as.mapM g := by
  induction as with
  | nil => rfl
  | cons a rest ih =>
    rw [List.mapM_cons, List.mapM_cons, h a (.head _), ih fun b hb => h b (.tail _ hb)]

theorem mapM_eq_ok_iff {f : α → Except ε β} {as : List α} {bs : List β} :
    as.mapM f = .ok bs ↔ List.Forall₂ (fun a b => f a = .ok b) as bs := by
  induction as generalizing bs with
  | nil =>
    rw [List.mapM_nil, List.forall₂_nil_left_iff]
    exact ⟨fun h => (Except.ok.inj h).symm, fun h => h ▸ rfl⟩
  | cons a rest ih =>
    rw [List.mapM_cons, List.forall₂_cons_left_iff]
    constructor
    · intro h
      obtain ⟨b, ha, h⟩ := bind_eq_ok_iff.1 h
      obtain ⟨bs', hr, h⟩ := bind_eq_ok_iff.1 h
      exact ⟨b, bs', ha, ih.1 hr, (Except.ok.inj h).symm⟩
    · rintro ⟨b, bs', ha, hr, rfl⟩
      rw [ha, ih.2 hr]
      rfl

/-- A computation that runs through a list fails at the first item at which it does not succeed. -/
theorem mapM_eq_error_iff {f : α → Except ε β} {as : List α} {e : ε} :
    as.mapM f = .error e ↔ ∃ before a after, as = before ++ a :: after ∧
      (∀ b ∈ before, ∃ c, f b = .ok c) ∧ f a = .error e := by
  induction as with
  | nil =>
    refine ⟨nofun, ?_⟩
    rintro ⟨before, a, after, h, -⟩
    exact absurd h.symm (by simp)
  | cons first rest ih =>
    rw [List.mapM_cons]
    constructor
    · intro h
      rcases bind_eq_error_iff.1 h with hfirst | ⟨c, hfirst, h⟩
      · exact ⟨[], first, rest, rfl, by simp, hfirst⟩
      · rcases bind_eq_error_iff.1 h with hrest | ⟨cs, -, h⟩
        · obtain ⟨before, a, after, rfl, hbefore, ha⟩ := ih.1 hrest
          exact ⟨first :: before, a, after, rfl, List.forall_mem_cons.2 ⟨⟨c, hfirst⟩, hbefore⟩, ha⟩
        · cases h
    · rintro ⟨before, a, after, h, hbefore, ha⟩
      rcases List.cons_eq_append_iff.1 h with ⟨rfl, h⟩ | ⟨before, rfl, rfl⟩
      · obtain ⟨rfl, rfl⟩ := List.cons.inj h
        exact bind_eq_error_iff.2 (.inl ha)
      · obtain ⟨⟨c, hfirst⟩, hbefore⟩ := List.forall_mem_cons.1 hbefore
        refine bind_eq_error_iff.2 (.inr ⟨c, hfirst, bind_eq_error_iff.2 (.inl ?_)⟩)
        exact ih.2 ⟨before, a, after, rfl, hbefore, ha⟩

/-- A computation that can succeed at each item can succeed on the list. -/
theorem exists_mapM_eq_ok {f : α → Except ε β} {p : β → Prop} {as : List α}
    (h : ∀ a ∈ as, ∃ b, f a = .ok b ∧ p b) : ∃ bs, as.mapM f = .ok bs ∧ ∀ b ∈ bs, p b := by
  induction as with
  | nil => exact ⟨[], rfl, by simp⟩
  | cons a rest ih =>
    obtain ⟨b, hb, pb⟩ := h a (by simp)
    obtain ⟨bs, hbs, pbs⟩ := ih fun c hc => h c (by simp [hc])
    refine ⟨b :: bs, ?_, by simpa using ⟨pb, pbs⟩⟩
    rw [List.mapM_cons, hb, hbs]
    rfl

theorem exists_forall₂ {r : α → β → Prop} {as : List α} (h : ∀ a ∈ as, ∃ b, r a b) :
    ∃ bs, List.Forall₂ r as bs := by
  induction as with
  | nil => exact ⟨[], .nil⟩
  | cons a rest ih =>
    obtain ⟨b, hb⟩ := h a (by simp)
    obtain ⟨bs, hbs⟩ := ih fun c hc => h c (by simp [hc])
    exact ⟨b :: bs, .cons hb hbs⟩

/-- What holds of all that a relation leads to holds of every item on its right side. -/
theorem forall_of_forall₂ {r : α → β → Prop} {p : β → Prop} {as : List α} {bs : List β}
    (h : List.Forall₂ r as bs) (hp : ∀ a b, r a b → p b) : ∀ b ∈ bs, p b := by
  induction h with
  | nil => simp
  | cons hab _ ih => simpa using ⟨hp _ _ hab, ih⟩

theorem map_eq_of_forall₂ {γ : Type} {r : α → β → Prop} {f : α → γ} {g : β → γ} {as : List α}
    {bs : List β} (h : List.Forall₂ r as bs) (hr : ∀ a b, r a b → f a = g b) :
    as.map f = bs.map g := by
  induction h with
  | nil => rfl
  | cons hab _ ih => rw [List.map_cons, List.map_cons, hr _ _ hab, ih]

theorem exists_of_mem_right {r : α → β → Prop} {as : List α} {bs : List β}
    (h : List.Forall₂ r as bs) {b : β} (hb : b ∈ bs) : ∃ a ∈ as, r a b := by
  induction h with
  | nil => cases hb
  | cons hab _ ih =>
    rcases List.mem_cons.1 hb with rfl | hb
    · exact ⟨_, .head _, hab⟩
    · obtain ⟨a, ha, hr⟩ := ih hb
      exact ⟨a, .tail _ ha, hr⟩

theorem exists_of_mem_left {r : α → β → Prop} {as : List α} {bs : List β}
    (h : List.Forall₂ r as bs) {a : α} (ha : a ∈ as) : ∃ b ∈ bs, r a b :=
  exists_of_mem_right h.flip ha

theorem exists_of_getElem?_right {r : α → β → Prop} {as : List α} {bs : List β}
    (h : List.Forall₂ r as bs) {i : Nat} {b : β} (hb : bs[i]? = some b) :
    ∃ a, as[i]? = some a ∧ r a b := by
  induction h generalizing i with
  | nil => cases hb
  | cons hab _ ih =>
    cases i with
    | zero =>
      obtain rfl := Option.some.inj hb
      exact ⟨_, rfl, hab⟩
    | succ i => exact ih hb

/-- What a partial function gives for a list, item by item for those that it is defined on. -/
theorem forall₂_filterMap {f : α → Option β} {p : α → Bool} {as : List α}
    (h : ∀ a ∈ as, p a = (f a).isSome) :
    List.Forall₂ (fun a b => f a = some b) (as.filter p) (as.filterMap f) := by
  induction as with
  | nil => exact .nil
  | cons a rest ih =>
    have hrest := ih fun b hb => h b (.tail _ hb)
    have hp := h a (.head _)
    cases ha : f a with
    | none =>
      rw [List.filter_cons_of_neg (by simp [hp, ha]), List.filterMap_cons_none ha]
      exact hrest
    | some b =>
      rw [List.filter_cons_of_pos (by simp [hp, ha]), List.filterMap_cons_some ha]
      exact .cons ha hrest

/-- What is found under a name has that name. -/
theorem key_of_find? {key : α → String} {as : List α} {name : String} {a : α}
    (h : (as.find? fun a => key a = name) = some a) : key a = name := by
  simpa using List.find?_some h

/-- Items of different names are found under their names. -/
theorem find?_eq_some_iff_of_nodup {key : α → String} {as : List α} (h : (as.map key).Nodup)
    {name : String} {a : α} :
    (as.find? fun a => key a = name) = some a ↔ a ∈ as ∧ key a = name := by
  constructor
  · exact fun hfind => ⟨List.mem_of_find?_eq_some hfind, key_of_find? hfind⟩
  · rintro ⟨ha, rfl⟩
    obtain ⟨b, hb⟩ := Option.isSome_iff_exists.1
      (List.find?_isSome (p := fun b => key b = key a)|>.2 ⟨a, ha, by simp⟩)
    rwa [List.inj_on_of_nodup_map h (List.mem_of_find?_eq_some hb) ha (key_of_find? hb)] at hb

/-- Nothing is erased from a list without repetitions. -/
theorem eraseDups_of_nodup [BEq α] [LawfulBEq α] {as : List α} (h : as.Nodup) :
    as.eraseDups = as := by
  induction as with
  | nil => rfl
  | cons a rest ih =>
    obtain ⟨ha, hrest⟩ := List.nodup_cons.1 h
    have hfilter : rest.filter (fun b => !b == a) = rest :=
      List.filter_eq_self.2 fun b hb => by simpa using fun heq : b = a => ha (heq ▸ hb)
    rw [List.eraseDups_cons, hfilter, ih hrest]

namespace Entries

variable {name other : String}

theorem lookup_erase_of_ne (h : other ≠ name) (entries : Entries α) :
    (entries.erase name).lookup other = entries.lookup other := by
  induction entries with
  | nil => rfl
  | cons e rest ih =>
    obtain ⟨n, x⟩ := e
    by_cases hn : n = name
    · subst hn
      have hne : (other == n) = false := by simpa using h
      rw [erase, List.filter_cons_of_neg (by simp), List.lookup_cons, hne]
      exact ih
    · rw [erase, List.filter_cons_of_pos (by simpa using hn), List.lookup_cons, List.lookup_cons]
      split
      · rfl
      · exact ih

theorem lookup_eq_none_iff {entries : Entries α} :
    entries.lookup name = none ↔ name ∉ entries.names := by
  simp only [List.lookup_eq_none_iff, names, List.mem_map, bne_iff_ne, ne_eq]
  constructor
  · rintro h ⟨e, he, hn⟩
    exact h e he hn.symm
  · intro h e he hn
    exact h ⟨e, he, hn.symm⟩

theorem isSome_lookup_iff {entries : Entries α} :
    (entries.lookup name).isSome ↔ name ∈ entries.names := by
  rw [Option.isSome_iff_ne_none, ne_eq, lookup_eq_none_iff, not_not]

theorem lookup_erase_self (name : String) (entries : Entries α) :
    (entries.erase name).lookup name = none := by
  rw [lookup_eq_none_iff, names, erase, List.mem_map]
  rintro ⟨e, he, heq⟩
  simp [heq] at he

theorem nodup_names_put {entries : Entries α} (h : entries.names.Nodup) (name : String) (item : α) :
    (put name item entries).names.Nodup := by
  rw [names_put]
  split
  · exact h
  · rename_i hname
    refine List.nodup_append.2 ⟨h, List.pairwise_singleton _ _, fun a ha b hb => ?_⟩
    obtain rfl := List.mem_singleton.1 hb
    rintro rfl
    exact hname ha

theorem mem_names_put {entries : Entries α} {item : α} :
    other ∈ (put name item entries).names ↔ other ∈ entries.names ∨ other = name := by
  rw [names_put]
  split
  · rename_i hname
    exact ⟨.inl, fun h => h.elim id fun heq => heq ▸ hname⟩
  · rw [List.mem_append, List.mem_singleton]

theorem put_of_not_mem {entries : Entries α} (h : name ∉ entries.names) (item : α) :
    put name item entries = entries ++ [(name, item)] := by
  induction entries with
  | nil => rfl
  | cons e rest ih =>
    obtain ⟨n, x⟩ := e
    rw [names, List.map_cons, List.mem_cons, not_or] at h
    rw [put, if_neg fun hn => h.1 hn.symm, ih h.2, List.cons_append]

theorem mem_put {entries : Entries α} {item x : α} (h : (other, x) ∈ put name item entries) :
    (other, x) = (name, item) ∨ (other, x) ∈ entries := by
  induction entries with
  | nil => exact .inl (List.mem_singleton.1 h)
  | cons e rest ih =>
    rw [put] at h
    split at h
    · rename_i hn
      rcases List.mem_cons.1 h with heq | h
      · exact .inl (hn ▸ heq)
      · exact .inr (.tail _ h)
    · rcases List.mem_cons.1 h with heq | h
      · exact .inr (heq ▸ .head _)
      · exact (ih h).imp id (.tail _)

theorem lookup_of_mem {entries : Entries α} {item : α} (h : (name, item) ∈ entries)
    (hcount : entries.names.count name ≤ 1) : entries.lookup name = some item := by
  induction entries with
  | nil => cases h
  | cons e rest ih =>
    obtain ⟨n, x⟩ := e
    have hcons : Entries.names ((n, x) :: rest) = n :: Entries.names rest := rfl
    rw [hcons, List.count_cons] at hcount
    rw [List.lookup_cons]
    by_cases hn : name = n
    · subst hn
      rw [beq_self_eq_true, if_pos rfl] at hcount
      have hnot : name ∉ Entries.names rest := List.count_eq_zero.1 (by omega)
      rcases List.mem_cons.1 h with heq | h
      · rw [beq_self_eq_true, (Prod.mk.inj heq).2]
      · exact absurd (List.mem_map.2 ⟨_, h, rfl⟩) hnot
    · rw [beq_eq_false_iff_ne.2 hn]
      rcases List.mem_cons.1 h with heq | h
      · exact absurd (Prod.mk.inj heq).1 hn
      · exact ih h (by omega)

theorem mem_of_lookup {entries : Entries α} {item : α} (h : entries.lookup name = some item) :
    (name, item) ∈ entries := by
  obtain ⟨front, back, rfl, -⟩ := List.lookup_eq_some_iff.1 h
  simp

end Entries

end Gazette
