import Gazette.Proofs.Definition.Block
import Gazette.Proofs.Definition.Determined
import Gazette.Proofs.Definition.Parts
import Gazette.Text.Pieces
import Mathlib.Data.List.DropRight

/-!
# Descriptions read back

A reader of the schema language divides the block of a description into lines (`readLines`): it ends
a line at every kind of line end, takes away the indentation that the lines share, and drops blank
lines at both ends.  So the indentation of the printer is gone again, and what is left of a
description is told by `stripped`.  A description is read back as it is exactly if it has nothing of
the kind that readers take away (`IsKept`), and no carriage return.
-/

namespace Gazette

open Sdl (blockText blockLines IsPlain takeToken)

namespace Text.Block

/-- The lines that a reader finds in the raw text of a block.  The first one stands beside the
opening quotes; it keeps its indentation and does not count for that of the others. -/
def readLines (raw : List Char) : List (List Char) :=
  match splitLines (unescapeQuotes raw) with
  | first :: rest => trimBlank (first :: rest.map (List.drop (commonIndent rest)))
  | [] => []

/-- Lines without the indentation that they share, and without the blank ones at both ends. -/
def stripped (lines : List (List Char)) : List (List Char) :=
  trimBlank (lines.map (List.drop (commonIndent lines)))

/-- Whether lines have nothing that readers of blocks take away: blank lines at the beginning or at
the end, and indentation that the lines share. -/
structure IsKept (lines : List (List Char)) : Prop where
  first : ∀ line ∈ lines.head?, isBlank line = false
  last : ∀ line ∈ lines.getLast?, isBlank line = false
  indent : commonIndent lines = 0

/-! ## The lines of a text -/

theorem splitFeeds_eq_pieces (cs : List Char) : splitFeeds cs = Text.pieces '\n' cs := by
  fun_induction splitFeeds cs with
  | case1 => rfl
  | case2 rest ih => rw [ih, Text.pieces, if_pos rfl]
  | case3 c rest hc line lines hlines ih =>
    rw [Text.pieces, if_neg hc, ← ih, hlines]
  | case4 c rest hc hnil ih => exact absurd (ih ▸ hnil) (Text.pieces_ne_nil _ _)

theorem mem_of_mem_dropReturn {line : List Char} {c : Char} (h : c ∈ dropReturn line) :
    c ∈ line := by
  unfold dropReturn at h
  split at h
  · exact List.dropLast_subset _ h
  · exact h

theorem not_mem_lines {text line : List Char} (h : line ∈ lines text) : '\n' ∉ line := by
  have hpiece : ∀ piece ∈ splitFeeds text, '\n' ∉ piece := by
    rw [splitFeeds_eq_pieces]
    exact fun piece => Text.not_mem_of_mem_pieces
  rcases List.mem_append.1 h with h | h
  · obtain ⟨piece, hmem, rfl⟩ := List.mem_map.1 h
    exact fun hfeed => hpiece piece (List.dropLast_subset _ hmem) (mem_of_mem_dropReturn hfeed)
  · cases hlast : (splitFeeds text).getLast? with
    | none => simp [hlast] at h
    | some last =>
      have hline : line = last := by
        by_cases hempty : last = [] <;> simp_all
      exact hline ▸ hpiece last (List.mem_of_getLast? hlast)

/-! ## Line ends of every kind -/

/-- Whether a line of a text goes on after a character. -/
def IsInner (c : Char) : Prop := c ≠ '\n' ∧ c ≠ '\r'

theorem splitLines_return {cs : List Char} (h : cs.head? ≠ some '\n') :
    splitLines ('\r' :: cs) = [] :: splitLines cs := by
  rw [splitLines]
  · rfl
  · rintro rest - rfl
    exact h rfl

theorem splitLines_ne_nil (cs : List Char) : splitLines cs ≠ [] := by
  fun_cases splitLines cs <;> simp

theorem splitLines_cons {c : Char} (hc : IsInner c) (cs : List Char) :
    splitLines (c :: cs) = (splitLines cs).modifyHead (c :: ·) := by
  rw [splitLines, if_neg (not_or.2 hc)]
  · cases h : splitLines cs with
    | nil => exact absurd h (splitLines_ne_nil cs)
    | cons line lines => rfl
  · rintro rest rfl
    exact absurd rfl hc.2

theorem splitLines_of_inner {cs : List Char} (h : ∀ c ∈ cs, IsInner c) : splitLines cs = [cs] := by
  induction cs with
  | nil => rfl
  | cons c cs ih => rw [splitLines_cons (h c (.head _)), ih fun d hd => h d (.tail _ hd)]; rfl

theorem isInner_of_mem_splitLines {cs line : List Char} (h : line ∈ splitLines cs) :
    ∀ c ∈ line, IsInner c := by
  fun_induction splitLines cs generalizing line with
  | case1 => simp_all
  | case2 rest ih =>
    rcases List.mem_cons.1 h with rfl | h
    · exact List.forall_mem_nil _
    · exact ih h
  | case3 c rest hrest hc ih =>
    rcases List.mem_cons.1 h with rfl | h
    · exact List.forall_mem_nil _
    · exact ih h
  | case4 c rest hrest hc first more hmore ih =>
    rw [hmore] at ih
    rcases List.mem_cons.1 h with rfl | h
    · exact List.forall_mem_cons.2 ⟨not_or.1 hc, ih (.head _)⟩
    · exact ih (.tail _ h)
  | case5 c rest hrest hc hnil ih => exact absurd hnil (splitLines_ne_nil rest)

theorem dropReturn_cons {c : Char} {line : List Char} (h : c ≠ '\r' ∨ line ≠ []) :
    dropReturn (c :: line) = c :: dropReturn line := by
  cases line with
  | nil =>
    have hc : c ≠ '\r' := h.resolve_right fun hne => hne rfl
    simp [dropReturn, hc]
  | cons d line => simp [dropReturn, List.getLast?_cons_cons, apply_ite (c :: ·)]

theorem dropReturn_append {indent : List Char} (h : ∀ c ∈ indent, IsInner c) (line : List Char) :
    dropReturn (indent ++ line) = indent ++ dropReturn line := by
  induction indent with
  | nil => rfl
  | cons c indent ih =>
    rw [List.cons_append, dropReturn_cons (.inl (h c (.head _)).2), ih fun d hd => h d (.tail _ hd)]
    rfl

/-- A line feed ends a line, together with a carriage return before it. -/
theorem splitLines_append {line : List Char} (h : '\n' ∉ line) (cs : List Char) :
    splitLines (line ++ '\n' :: cs) = splitLines (dropReturn line) ++ splitLines cs := by
  induction line with
  | nil => rfl
  | cons c line ih =>
    rw [List.mem_cons, not_or] at h
    obtain ⟨hc, hline⟩ := h
    by_cases hreturn : c = '\r'
    · subst hreturn
      cases line with
      | nil => rfl
      | cons d line =>
        have hd : d ≠ '\n' := fun hd => hline (hd ▸ .head _)
        rw [dropReturn_cons (.inr (List.cons_ne_nil _ _)), List.cons_append,
          splitLines_return (by simpa using hd), ih hline, splitLines_return]
        · rfl
        · cases line with
          | nil => by_cases hd' : d = '\r' <;> simp [dropReturn, hd', hd]
          | cons e line => simpa [dropReturn_cons] using hd
    · have hinner : IsInner c := ⟨fun h => hc h.symm, hreturn⟩
      rw [dropReturn_cons (.inl hreturn), List.cons_append, splitLines_cons hinner, ih hline,
        splitLines_cons hinner]
      cases hlines : splitLines (dropReturn line) with
      | nil => exact absurd hlines (splitLines_ne_nil _)
      | cons first more => rfl

/-- The lines in the block of a description, without those of the quotes. -/
theorem splitLines_block {indent : List Char} (hindent : ∀ c ∈ indent, IsInner c)
    {texts : List (List Char)} (h : ∀ line ∈ texts, '\n' ∉ line) :
    splitLines ((texts.flatMap fun line => indent ++ line ++ ['\n']) ++ indent) =
      (texts.flatMap fun line => splitLines (indent ++ dropReturn line)) ++ [indent] := by
  induction texts with
  | nil => exact splitLines_of_inner hindent
  | cons line texts ih =>
    have hline : '\n' ∉ indent ++ line := by
      rw [List.mem_append, not_or]
      exact ⟨fun hfeed => (hindent _ hfeed).1 rfl, h line (.head _)⟩
    have hsplit := splitLines_append hline
      ((texts.flatMap fun line => indent ++ line ++ ['\n']) ++ indent)
    rw [dropReturn_append hindent, ih fun l hl => h l (.tail _ hl)] at hsplit
    simpa using hsplit

/-! ## Blank lines -/

variable {line : List Char} {texts : List (List Char)}

theorem trimBlank_cons (h : isBlank line) (texts : List (List Char)) :
    trimBlank (line :: texts) = trimBlank texts := by
  rw [trimBlank, List.dropWhile_cons, if_pos h, trimBlank]

theorem trimBlank_concat (h : isBlank line) (texts : List (List Char)) :
    trimBlank (texts ++ [line]) = trimBlank texts := by
  show ((texts ++ [line]).dropWhile isBlank).rdropWhile isBlank = _
  rw [List.dropWhile_append]
  split
  · rename_i hempty
    rw [trimBlank, List.isEmpty_iff.1 hempty, List.dropWhile_cons, if_pos h]
    rfl
  · exact List.rdropWhile_concat_pos _ _ _ h

theorem trimBlank_eq_nil (h : ∀ line ∈ texts, isBlank line) : trimBlank texts = [] := by
  rw [trimBlank, List.dropWhile_eq_nil_iff.2 h]
  rfl

theorem trimBlank_sublist (texts : List (List Char)) : List.Sublist (trimBlank texts) texts :=
  (List.rdropWhile_prefix isBlank _).sublist.trans (List.dropWhile_suffix isBlank).sublist

theorem length_trimBlank_le (texts : List (List Char)) :
    (trimBlank texts).length ≤ (texts.dropWhile isBlank).length :=
  (List.rdropWhile_prefix isBlank _).length_le

/-- Only lines that have no blank one at either end stay as they are. -/
theorem trimBlank_eq_self_iff : trimBlank texts = texts ↔
    (∀ line ∈ texts.head?, isBlank line = false) ∧
      ∀ line ∈ texts.getLast?, isBlank line = false := by
  have hends : (texts.dropWhile isBlank = texts ↔ ∀ line ∈ texts.head?, isBlank line = false) ∧
      (texts.rdropWhile isBlank = texts ↔ ∀ line ∈ texts.getLast?, isBlank line = false) := by
    rw [List.dropWhile_eq_self_iff, List.rdropWhile_eq_self_iff]
    cases texts with
    | nil => simp
    | cons first rest => simp [List.getLast?_eq_getLast_of_ne_nil]
  rw [← hends.1, ← hends.2]
  constructor
  · intro h
    have hle := length_trimBlank_le texts
    rw [h] at hle
    have hfirst : texts.dropWhile isBlank = texts :=
      (List.dropWhile_suffix isBlank).eq_of_length_le hle
    refine ⟨hfirst, ?_⟩
    have hlast : (texts.dropWhile isBlank).rdropWhile isBlank = texts := h
    rwa [hfirst] at hlast
  · rintro ⟨hfirst, hlast⟩
    show (texts.dropWhile isBlank).rdropWhile isBlank = texts
    rw [hfirst, hlast]

/-! ## Indentation -/

theorem isBlank_append {indent : List Char} (h : isBlank indent) (line : List Char) :
    isBlank (indent ++ line) = isBlank line := by
  rw [isBlank, List.all_append, ← isBlank, ← isBlank, h, Bool.true_and]

theorem isBlank_drop (h : isBlank line) (k : Nat) : isBlank (line.drop k) :=
  List.all_eq_true.2 fun c hc => List.all_eq_true.1 h c (List.mem_of_mem_drop hc)

theorem commonIndent_concat (h : isBlank line) (texts : List (List Char)) :
    commonIndent (texts ++ [line]) = commonIndent texts := by
  simp [commonIndent, List.filter_append, h]

theorem min?_map_add (n : Nat) (widths : List Nat) :
    (widths.map (n + ·)).min? = widths.min?.map (n + ·) := by
  cases hmin : widths.min? with
  | none => rw [List.min?_eq_none_iff.1 hmin]; rfl
  | some least =>
    obtain ⟨hmem, hle⟩ := List.min?_eq_some_iff.1 hmin
    refine List.min?_eq_some_iff.2 ⟨List.mem_map_of_mem hmem, fun width hwidth => ?_⟩
    obtain ⟨inner, hinner, rfl⟩ := List.mem_map.1 hwidth
    exact Nat.add_le_add_left (hle inner hinner) n

/-- An indentation that is put before each line is shared by all of them. -/
theorem commonIndent_indented {indent : List Char} (hindent : isBlank indent)
    (h : ∃ line ∈ texts, isBlank line = false) :
    commonIndent (texts.map (indent ++ ·)) = indent.length + commonIndent texts := by
  obtain ⟨line, hline, hblank⟩ := h
  have hwidths : ((texts.map (indent ++ ·)).filter fun line => !isBlank line).map
      (fun line => (line.takeWhile isIndent).length) =
      ((texts.filter fun line => !isBlank line).map fun line =>
        (line.takeWhile isIndent).length).map (indent.length + ·) := by
    rw [List.filter_map, List.map_map, List.map_map]
    have hsame : ((fun line => !isBlank line) ∘ (indent ++ ·)) = fun line => !isBlank line :=
      funext fun line => congrArg not (isBlank_append hindent line)
    rw [hsame]
    refine List.map_congr_left fun line _ => ?_
    simp [List.takeWhile_append_of_pos (List.all_eq_true.1 hindent)]
  rw [commonIndent, hwidths, min?_map_add, commonIndent]
  cases hmin : ((texts.filter fun line => !isBlank line).map fun line =>
      (line.takeWhile isIndent).length).min? with
  | none =>
    have hnil := List.map_eq_nil_iff.1 (List.min?_eq_none_iff.1 hmin)
    have hmem : line ∈ texts.filter fun line => !isBlank line :=
      List.mem_filter.2 ⟨hline, by rw [hblank]; rfl⟩
    rw [hnil] at hmem
    cases hmem
  | some least => rfl

theorem stripped_eq_nil (h : ∀ line ∈ texts, isBlank line) : stripped texts = [] :=
  trimBlank_eq_nil (List.forall_mem_map.2 fun line hline => isBlank_drop (h line hline) _)

/-- The indentation of the printer is taken away by the reader. -/
theorem stripped_indented {indent : List Char} (hindent : isBlank indent)
    (texts : List (List Char)) : stripped (texts.map (indent ++ ·)) = stripped texts := by
  by_cases h : ∃ line ∈ texts, isBlank line = false
  · have hdrop : List.drop (indent.length + commonIndent texts) ∘ (indent ++ ·) =
        List.drop (commonIndent texts) := by
      funext line
      exact List.drop_length_add_append _
    rw [stripped, commonIndent_indented hindent h, List.map_map, hdrop, stripped]
  · have hall : ∀ line ∈ texts, isBlank line := by simpa using h
    rw [stripped_eq_nil hall, stripped_eq_nil (List.forall_mem_map.2 fun line hline => by
      rw [isBlank_append hindent, hall line hline])]

/-- What is taken away from lines is seen in how many there are, or else in their first one. -/
theorem stripped_eq_self_iff : stripped texts = texts ↔ IsKept texts := by
  constructor
  · intro h
    have hdrop : texts = texts.map (List.drop (commonIndent texts)) := by
      have hsub := trimBlank_sublist (texts.map (List.drop (commonIndent texts)))
      rw [← stripped, h] at hsub
      exact hsub.eq_of_length (List.length_map _).symm
    rw [stripped, ← hdrop] at h
    obtain ⟨hfirst, hlast⟩ := trimBlank_eq_self_iff.1 h
    refine ⟨hfirst, hlast, ?_⟩
    cases texts with
    | nil => rfl
    | cons first rest =>
      have hlength := congrArg List.length (List.cons.inj hdrop).1
      have hpos : first.length ≠ 0 := by
        intro hzero
        have hblank := hfirst first rfl
        rw [List.eq_nil_of_length_eq_zero hzero] at hblank
        exact absurd hblank (by decide)
      rw [List.length_drop] at hlength
      omega
  · intro h
    have hdrop : texts.map (List.drop (commonIndent texts)) = texts := by
      rw [h.indent]
      exact List.map_id texts
    rw [stripped, hdrop]
    exact trimBlank_eq_self_iff.2 ⟨h.first, h.last⟩

/-! ## Blocks -/

theorem isInner_of_isBlank {indent : List Char} (h : isBlank indent) : ∀ c ∈ indent, IsInner c := by
  intro c hc
  have hindent : isIndent c := List.all_eq_true.1 h c hc
  constructor <;> (rintro rfl; exact absurd hindent (by decide))

theorem isPlain_of_isIndent {indent : List Char} (h : isBlank indent) :
    ∀ c ∈ indent, IsPlain c := by
  intro c hc
  have hindent : isIndent c := List.all_eq_true.1 h c hc
  constructor <;> (rintro rfl; exact absurd hindent (by decide))

theorem readLines_blockText {indent : List Char} (h : isBlank indent) (text : List Char) :
    readLines (blockText indent text) =
      stripped ((lines text).flatMap fun line => splitLines (indent ++ dropReturn line)) := by
  have hsplit : splitLines (unescapeQuotes (blockText indent text)) = [] ::
      (((lines text).flatMap fun line => splitLines (indent ++ dropReturn line)) ++ [indent]) := by
    rw [unescapeQuotes_blockText (isPlain_of_isIndent h), List.cons_append,
      ← splitLines_block (isInner_of_isBlank h) fun line => not_mem_lines]
    rfl
  rw [readLines, hsplit]
  show trimBlank _ = _
  rw [trimBlank_cons rfl, commonIndent_concat h, List.map_append, List.map_singleton,
    trimBlank_concat (isBlank_drop h _), stripped]

theorem readLines_of_not_mem_return {indent : List Char} (h : isBlank indent) {text : List Char}
    (hreturn : ∀ line ∈ lines text, '\r' ∉ line) :
    readLines (blockText indent text) = stripped (lines text) := by
  have hline : ∀ line ∈ lines text, splitLines (indent ++ dropReturn line) = [indent ++ line] := by
    intro line hline
    have hsame : dropReturn line = line :=
      if_neg fun hlast => hreturn line hline (List.mem_of_getLast? hlast)
    rw [hsame]
    refine splitLines_of_inner fun c hc => ?_
    rcases List.mem_append.1 hc with hc | hc
    · exact isInner_of_isBlank h c hc
    · exact ⟨fun hfeed => not_mem_lines hline (hfeed ▸ hc), fun hr => hreturn line hline (hr ▸ hc)⟩
  rw [readLines_blockText h, List.flatMap_congr hline, ← List.map_eq_flatMap, stripped_indented h]

theorem readLines_eq_lines_iff {indent : List Char} (h : isBlank indent) {text : List Char} :
    readLines (blockText indent text) = lines text ↔
      (∀ line ∈ lines text, '\r' ∉ line) ∧ IsKept (lines text) := by
  constructor
  · intro hread
    have hreturn : ∀ line ∈ lines text, '\r' ∉ line := by
      intro line hline hr
      rw [← hread, readLines_blockText h] at hline
      obtain ⟨piece, hpiece, rfl⟩ := List.mem_map.1 ((trimBlank_sublist _).subset hline)
      obtain ⟨_, -, hpiece⟩ := List.mem_flatMap.1 hpiece
      exact (isInner_of_mem_splitLines hpiece _ (List.mem_of_mem_drop hr)).2 rfl
    rw [readLines_of_not_mem_return h hreturn] at hread
    exact ⟨hreturn, stripped_eq_self_iff.1 hread⟩
  · rintro ⟨hreturn, hkept⟩
    rw [readLines_of_not_mem_return h hreturn, stripped_eq_self_iff.2 hkept]

end Text.Block

open Text.Block

/-- What a registry describes is described in its text by one block string, and a reader finds there
the lines of the description, divided at the carriage returns inside them too, without what these
lines have in common: without carriage returns, the lines of the description up to shared
indentation and blank ends.  The very lines of the description are found exactly if it has nothing
of that kind, at each depth. -/
theorem Registry.Describes.read_back {σ ν : Type} {r : Registry σ ν} {indent text below : String}
    (h : r.Describes indent text below) : ∃ before raw after,
      r.definition.toList = before ++ indent.toList ++
        (quotes ++ raw ++ quotes ++ '\n' :: (below.toList ++ after)) ∧
      takeToken (quotes ++ raw ++ quotes ++ '\n' :: (below.toList ++ after)) =
        some (.string (.block raw), '\n' :: (below.toList ++ after)) ∧
      readLines raw = stripped
        ((lines text.toList).flatMap fun line => splitLines (indent.toList ++ dropReturn line)) ∧
      ((∀ line ∈ lines text.toList, '\r' ∉ line) → readLines raw = stripped (lines text.toList)) ∧
      (readLines raw = lines text.toList ↔
        (∀ line ∈ lines text.toList, '\r' ∉ line) ∧ IsKept (lines text.toList)) := by
  have hblank := h.isBlank_indent
  obtain ⟨before, after, hpart⟩ := h.isPart
  refine ⟨before, blockText indent.toList text.toList, after, ?_, ?_, readLines_blockText hblank _,
    readLines_of_not_mem_return hblank, readLines_eq_lines_iff hblank⟩
  · rw [← hpart, String.toList_append, describe, String.toList_ofList, Sdl.chars_eq]
    simp [quotes]
  · simpa [quotes] using Sdl.takeToken_block (isPlain_of_isIndent hblank) text.toList
      ('\n' :: (below.toList ++ after))

namespace Bookshop

theorem describes_catalogue (description : String) : (catalogue description).Describes ""
    description (NamedType.object (catalogueRoot description)).body :=
  .type (declaredTypes_catalogue description ▸ .head _) rfl

/-- A description with an empty line inside and an indented last line is read back as it is. -/
theorem read_back_catalogue :
    (catalogue "All titles.\n\n  \"\"\"Emma\"\"\" first.").IsFinished ∧
    ∃ before raw after, (catalogue "All titles.\n\n  \"\"\"Emma\"\"\" first.").definition.toList =
        before ++ (quotes ++ raw ++ quotes ++ '\n' :: after) ∧
      readLines raw = ["All titles.".toList, [], "  \"\"\"Emma\"\"\" first.".toList] := by
  refine ⟨isFinished_catalogue _, ?_⟩
  obtain ⟨before, raw, after, htext, -, -, -, hlines⟩ :=
    (describes_catalogue "All titles.\n\n  \"\"\"Emma\"\"\" first.").read_back
  refine ⟨before, raw, _, by simpa using htext, hlines.2 ⟨by decide, ?_, ?_, by decide⟩⟩
  · rintro _ ⟨⟩
    decide
  · rintro _ ⟨⟩
    decide

/-- A description of one line with indentation is read back without its indentation. -/
theorem not_kept_catalogue : (catalogue "  All titles.").IsFinished ∧ ∃ raw after,
    (catalogue "  All titles.").definition.toList =
        quotes ++ raw ++ quotes ++ '\n' ::
          ((NamedType.object (catalogueRoot "  All titles.")).body.toList ++ after) ∧
      (∀ rest, takeToken (quotes ++ raw ++ quotes ++ rest) = some (.string (.block raw), rest)) ∧
      lines "  All titles.".toList = ["  All titles.".toList] ∧
      readLines raw = ["All titles.".toList] := by
  refine ⟨isFinished_catalogue _, "\n  All titles.\n".toList,
    "\nschema \x7b\n  query: Query\n\x7d\n".toList, by decide +kernel, fun rest => ?_, by decide,
    by decide⟩
  exact Sdl.takeToken_block (List.forall_mem_nil _) "  All titles.".toList rest

end Bookshop

end Gazette
