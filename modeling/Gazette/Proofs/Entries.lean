import Gazette.Entries
import Mathlib.Data.String.Basic

/-!
# Entries in the order of their names

What `putSorted` keeps: entries that are strictly in the order of their names stay so
(`Ascending.putSorted`), and in such entries a look-up finds exactly what is there
(`Ascending.lookup_eq_some_iff`).  Items of different names can be put in either order
(`putSorted_comm`), whatever the entries are.
-/

namespace Gazette.Entries

variable {α : Type} {entries : Entries α} {name : String} {item : α}

/-- Entries strictly in the order of their names, so that no name is repeated. -/
def Ascending (entries : Entries α) : Prop := entries.Pairwise fun e f => e.1 < f.1

theorem mem_putSorted {e : String × α} (h : e ∈ putSorted name item entries) :
    e = (name, item) ∨ e ∈ entries := by
  induction entries with
  | nil => exact .inl (List.mem_singleton.1 h)
  | cons f rest ih =>
    obtain ⟨n, x⟩ := f
    rw [putSorted] at h
    split at h
    · rcases List.mem_cons.1 h with rfl | h
      · exact .inr (by simp)
      · exact (ih h).imp_right fun h => by simp [h]
    · split at h
      · exact (List.mem_cons.1 h).imp_right fun h => by simp [h]
      · exact List.mem_cons.1 h

theorem Ascending.putSorted (h : entries.Ascending) : (putSorted name item entries).Ascending := by
  induction entries with
  | nil => exact List.pairwise_singleton _ _
  | cons e rest ih =>
    obtain ⟨n, x⟩ := e
    obtain ⟨hfirst, hrest⟩ := List.pairwise_cons.1 h
    rw [Entries.putSorted]
    split
    case isTrue hlt =>
      refine List.pairwise_cons.2 ⟨fun e he => ?_, ih hrest⟩
      rcases mem_putSorted he with rfl | he
      · exact hlt
      · exact hfirst e he
    case isFalse hge =>
      split
      case isTrue heq => exact List.pairwise_cons.2 ⟨heq ▸ hfirst, hrest⟩
      case isFalse hne =>
        have hlt : name < n := lt_of_le_of_ne (not_lt.1 hge) (Ne.symm hne)
        refine List.pairwise_cons.2 ⟨fun e he => ?_, h⟩
        rcases List.mem_cons.1 he with rfl | he
        · exact hlt
        · exact hlt.trans (hfirst e he)

theorem Ascending.lookup_eq_some_iff (h : entries.Ascending) :
    entries.lookup name = some item ↔ (name, item) ∈ entries := by
  induction entries with
  | nil => simp
  | cons e rest ih =>
    obtain ⟨n, x⟩ := e
    obtain ⟨hfirst, hrest⟩ := List.pairwise_cons.1 h
    by_cases hn : name = n
    · subst hn
      have hnot : (name, item) ∉ rest := fun hmem => lt_irrefl name (hfirst (name, item) hmem)
      simp [hnot, eq_comm]
    · rw [List.lookup_cons, beq_eq_false_iff_ne.2 hn, ih hrest]
      simp [hn]

theorem isSome_lookup_putSorted {other : String} :
    ((putSorted name item entries).lookup other).isSome ↔
      (entries.lookup other).isSome ∨ other = name := by
  by_cases h : other = name
  · simp [h, lookup_putSorted_self]
  · simp [h, lookup_putSorted_of_ne h]

theorem putSorted_comm {m n : String} (h : m ≠ n) (x y : α) (entries : Entries α) :
    putSorted m x (putSorted n y entries) = putSorted n y (putSorted m x entries) := by
  -- put before the same entries, the two stand in the order of their names
  have hpair {m n : String} {x y : α} (hlt : m < n) {l rest : Entries α}
      (hm : putSorted m x l = (m, x) :: l) (hn : putSorted n y l = (n, y) :: rest) :
      putSorted m x (putSorted n y l) = putSorted n y (putSorted m x l) := by
    rw [hm, hn, putSorted, if_neg (not_lt.2 hlt.le), if_neg hlt.ne', putSorted, if_pos hlt, hn]
  induction entries with
  | nil =>
    rcases lt_or_gt_of_ne h with hlt | hlt
    · exact hpair hlt rfl rfl
    · exact (hpair hlt rfl rfl).symm
  | cons e rest ih =>
    obtain ⟨k, z⟩ := e
    -- what an item whose name is not after the first one's is put before
    have hfront {n : String} {y : α} (hk : ¬ k < n) : putSorted n y ((k, z) :: rest) =
        (n, y) :: if k = n then rest else (k, z) :: rest := by
      rw [putSorted, if_neg hk]
      split <;> rfl
    by_cases hm : k < m <;> by_cases hn : k < n
    · simp only [putSorted, if_pos hm, if_pos hn, ih]
    · have hlt : n < m := lt_of_le_of_lt (not_lt.1 hn) hm
      by_cases heq : k = n
      · simp only [putSorted, if_pos hm, if_neg hn, if_pos hlt, if_pos heq]
      · simp only [putSorted, if_pos hm, if_neg hn, if_pos hlt, if_neg heq]
    · have hlt : m < n := lt_of_le_of_lt (not_lt.1 hm) hn
      by_cases heq : k = m
      · simp only [putSorted, if_neg hm, if_pos hn, if_pos hlt, if_pos heq]
      · simp only [putSorted, if_neg hm, if_pos hn, if_pos hlt, if_neg heq]
    · rcases lt_or_gt_of_ne h with hlt | hlt
      · have hne : k ≠ m := (lt_of_lt_of_le hlt (not_lt.1 hn)).ne'
        exact hpair hlt (by rw [hfront hm, if_neg hne]) (hfront hn)
      · have hne : k ≠ n := (lt_of_lt_of_le hlt (not_lt.1 hm)).ne'
        exact (hpair hlt (by rw [hfront hn, if_neg hne]) (hfront hm)).symm

end Gazette.Entries
