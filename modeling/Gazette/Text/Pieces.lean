/-!
# Pieces of texts

Texts are read from their start on.  A text may start with a word or a mark (`Text.skipWord?`,
`Text.skipMark?`), it may be cut where a word first stands in it (`Text.cut?`), or wherever a mark
stands (`Text.pieces`).  Nothing is lost: the text is the word and the rest, what is before the word
with the word and what is after it, and the pieces with marks between them.
-/

namespace Gazette.Text

/-- The text after `word`, if it starts with it. -/
def skipWord? : (word cs : List Char) → Option (List Char)
  | [], cs => some cs
  | w :: word, c :: cs => if w = c then skipWord? word cs else none
  | _, [] => none

/-- The text after a mark, if it starts with it. -/
def skipMark? (mark : Char) (cs : List Char) : Option (List Char) := skipWord? [mark] cs

/-- The text before the first `word` in a text, and the text after it. -/
def cut? (word cs : List Char) : Option (List Char × List Char) :=
  match skipWord? word cs with
  | some after => some ([], after)
  | none =>
    match cs with
    | [] => none
    | c :: rest => (cut? word rest).map fun (before, after) => (c :: before, after)

/-- The pieces of a text between marks; there is one more than there are marks. -/
def pieces (mark : Char) : List Char → List (List Char)
  | [] => [[]]
  | c :: rest =>
    if c = mark then [] :: pieces mark rest
    else
      match pieces mark rest with
      | piece :: more => (c :: piece) :: more
      | [] => [[c]]

theorem skipWord?_eq_some_iff {word cs rest : List Char} :
    skipWord? word cs = some rest ↔ cs = word ++ rest := by
  fun_induction skipWord? word cs with
  | case1 cs => simp [eq_comm]
  | case2 word c cs ih => simp [ih]
  | case3 w word c cs h => simpa using fun h' => absurd h'.symm h
  | case4 word h => cases word <;> simp_all

theorem skipMark?_eq_some_iff {mark : Char} {cs rest : List Char} :
    skipMark? mark cs = some rest ↔ cs = mark :: rest := by
  simp [skipMark?, skipWord?_eq_some_iff]

theorem eq_of_cut?_eq_some {word cs before after : List Char}
    (h : cut? word cs = some (before, after)) : cs = before ++ word ++ after := by
  induction cs generalizing before with
  | nil =>
    unfold cut? at h
    split at h
    · next hs => simp_all [skipWord?_eq_some_iff]
    · simp at h
  | cons c cs ih =>
    unfold cut? at h
    split at h
    · next hs => simp_all [skipWord?_eq_some_iff]
    · obtain ⟨⟨b, a⟩, hc, he⟩ := Option.map_eq_some_iff.1 h
      simp only [Prod.mk.injEq] at he
      obtain ⟨rfl, rfl⟩ := he
      simp [ih hc]

theorem pieces_ne_nil (mark : Char) (cs : List Char) : pieces mark cs ≠ [] := by
  fun_cases pieces mark cs <;> simp

theorem intercalate_pieces (mark : Char) (cs : List Char) :
    [mark].intercalate (pieces mark cs) = cs := by
  fun_induction pieces mark cs with
  | case1 => rfl
  | case2 rest ih =>
    obtain ⟨piece, more, h⟩ := List.exists_cons_of_ne_nil (pieces_ne_nil mark rest)
    rw [h] at ih ⊢
    simpa [List.intercalate] using ih
  | case3 c rest h piece more hp ih =>
    rw [hp] at ih
    cases more <;> simp_all [List.intercalate]
  | case4 c rest h hp _ => exact absurd hp (pieces_ne_nil mark rest)

theorem not_mem_of_mem_pieces {mark : Char} {cs piece : List Char}
    (h : piece ∈ pieces mark cs) : mark ∉ piece := by
  fun_induction pieces mark cs generalizing piece with
  | case1 => simp_all
  | case2 rest ih =>
    rcases List.mem_cons.1 h with rfl | h
    · simp
    · exact ih h
  | case3 c rest hc first more hp ih =>
    rw [hp] at ih
    rcases List.mem_cons.1 h with rfl | h
    · have hf : mark ∉ first := ih List.mem_cons_self
      simpa [Ne.symm hc] using hf
    · exact ih (List.mem_cons_of_mem _ h)
  | case4 c rest hc hp _ => exact absurd hp (pieces_ne_nil mark rest)

theorem pieces_of_not_mem {mark : Char} {piece : List Char} (h : mark ∉ piece) :
    pieces mark piece = [piece] := by
  induction piece with
  | nil => rfl
  | cons c piece ih =>
    rw [List.mem_cons, not_or] at h
    obtain ⟨hc, hpiece⟩ := h
    rw [pieces, if_neg (Ne.symm hc), ih hpiece]

theorem pieces_append {mark : Char} {piece : List Char} (h : mark ∉ piece) (cs : List Char) :
    pieces mark (piece ++ mark :: cs) = piece :: pieces mark cs := by
  induction piece with
  | nil => rw [List.nil_append, pieces, if_pos rfl]
  | cons c piece ih =>
    rw [List.mem_cons, not_or] at h
    obtain ⟨hc, hpiece⟩ := h
    rw [List.cons_append, pieces, if_neg (Ne.symm hc), ih hpiece]

/-- Texts without a mark are the pieces of the text that they make with marks between them. -/
theorem pieces_intercalate {mark : Char} {texts : List (List Char)} (hne : texts ≠ [])
    (h : ∀ text ∈ texts, mark ∉ text) : pieces mark ([mark].intercalate texts) = texts := by
  induction texts with
  | nil => exact absurd rfl hne
  | cons text rest ih =>
    cases rest with
    | nil => simpa [List.intercalate] using pieces_of_not_mem (h text (.head _))
    | cons next rest =>
      rw [List.intercalate_cons_cons, List.append_assoc, List.singleton_append,
        pieces_append (h text (.head _)), ih (List.cons_ne_nil _ _) fun t ht => h t (.tail _ ht)]

end Gazette.Text
