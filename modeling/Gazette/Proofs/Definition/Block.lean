import Gazette.Proofs.Definition.Token
import Gazette.Schema.Definition

/-!
# The blocks of descriptions

A description stands in a block string, and what it says must not end that block: otherwise the rest
of it would be read as declarations.  The theorem says where the block ends, and what is in it once
the backslashes before three quotes are gone (`unescapeQuotes`).
-/

namespace Gazette

open Sdl (takeToken blockText blockLines IsPlain)

namespace Text.Block

/-- The raw text of a block without the backslashes that stand before three quotes. -/
def unescapeQuotes : List Char → List Char
  | '\\' :: '"' :: '"' :: '"' :: rest => '"' :: '"' :: '"' :: unescapeQuotes rest
  | c :: rest => c :: unescapeQuotes rest
  | [] => []

theorem unescapeQuotes_cons {c : Char} {cs : List Char} (h : ¬ (c = '\\' ∧ quotes <+: cs)) :
    unescapeQuotes (c :: cs) = c :: unescapeQuotes cs := by
  rw [unescapeQuotes]
  rintro rest rfl rfl
  exact h ⟨rfl, rest, rfl⟩

theorem unescapeQuotes_plain {plain : List Char} (h : ∀ c ∈ plain, IsPlain c) (cs : List Char) :
    unescapeQuotes (plain ++ cs) = plain ++ unescapeQuotes cs := by
  induction plain with
  | nil => rfl
  | cons c rest ih =>
    rw [List.cons_append, unescapeQuotes_cons fun hslash => (h c (.head _)).1 hslash.1,
      ih fun c hmem => h c (.tail _ hmem)]
    rfl

/-- A backslash of the line itself is never before three quotes: the escape has put another one
between them. -/
theorem unescapeQuotes_escapeQuotes (line cs : List Char) :
    unescapeQuotes (escapeQuotes line ++ '\n' :: cs) = line ++ '\n' :: unescapeQuotes cs := by
  fun_induction escapeQuotes line with
  | case1 rest ih =>
    simp only [List.cons_append]
    rw [unescapeQuotes, ih]
  | case2 c rest hrest ih =>
    rw [List.cons_append, unescapeQuotes_cons, ih]
    · rfl
    · exact fun h => Sdl.not_quotes_isPrefix_escapeQuotes rest cs h.2
  | case3 => exact unescapeQuotes_cons fun h => absurd h.1 (by decide)

theorem unescapeQuotes_blockLines {indent : List Char} (hindent : ∀ c ∈ indent, IsPlain c)
    (text cs : List Char) : unescapeQuotes (blockLines indent text ++ cs) =
      ((lines text).flatMap fun line => indent ++ line ++ ['\n']) ++ unescapeQuotes cs := by
  unfold blockLines
  induction lines text with
  | nil => rfl
  | cons line rest ih =>
    simp only [List.flatMap_cons, List.append_assoc, List.cons_append, List.nil_append] at ih ⊢
    rw [unescapeQuotes_plain hindent, unescapeQuotes_escapeQuotes, ih]

theorem unescapeQuotes_blockText {indent : List Char} (hindent : ∀ c ∈ indent, IsPlain c)
    (text : List Char) : unescapeQuotes (blockText indent text) =
      '\n' :: ((lines text).flatMap fun line => indent ++ line ++ ['\n']) ++ indent := by
  have hend := unescapeQuotes_plain hindent []
  rw [List.append_nil] at hend
  rw [blockText, List.cons_append, unescapeQuotes_cons fun h => absurd h.1 (by decide),
    unescapeQuotes_blockLines hindent, hend, unescapeQuotes, List.append_nil, List.cons_append]

end Text.Block

open Text.Block (quotes lines unescapeQuotes)

theorem Sdl.tokens?_block {indent : List Char} (hindent : ∀ c ∈ indent, IsPlain c)
    (text : List Char) :
    tokens? (String.ofList (quotes ++ blockText indent text ++ quotes ++ ['\n'])) =
      some [.string (.block (blockText indent text))] := by
  refine tokens?_eq_some ?_
  rw [String.toList_ofList]
  have hblock := Scans.cons (c := '"') rfl (by decide) (takeToken_block hindent text ['\n'])
    (by simp) (Scans.blank (c := '\n') rfl scans_nil)
  simpa [quotes] using hblock

/-- No description ends its block.  From the opening quotes on, what is printed for a description is
one token up to the quotes printed last, whatever text follows; and without the backslashes before
quotes that token holds the lines of the description, each behind the indentation.  An indentation
is any text without quotes and backslashes. -/
theorem describe_isOneToken (indent text : String) (hindent : ∀ c ∈ indent.toList, IsPlain c) :
    ∃ raw, (describe indent (some text)).toList =
        indent.toList ++ (quotes ++ raw ++ quotes ++ ['\n']) ∧
      (∀ rest, takeToken (quotes ++ raw ++ quotes ++ rest) = some (.string (.block raw), rest)) ∧
      Sdl.tokens? (String.ofList (quotes ++ raw ++ quotes ++ ['\n'])) =
        some [.string (.block raw)] ∧
      unescapeQuotes raw = '\n' ::
        ((lines text.toList).flatMap fun line => indent.toList ++ line ++ ['\n']) ++
          indent.toList := by
  refine ⟨blockText indent.toList text.toList, ?_, fun rest => ?_,
    Sdl.tokens?_block hindent text.toList, Text.Block.unescapeQuotes_blockText hindent text.toList⟩
  · rw [describe, String.toList_ofList, Sdl.chars_eq]
    simp [quotes]
  · simpa [quotes] using Sdl.takeToken_block hindent text.toList rest

/-- A description with four quotes in a row, a backslash before three quotes, and a backslash at the
end of a line. -/
theorem describe_isOneToken_quotes : ∃ raw,
    (describe fieldIndent (some "a\"\"\"\"b\\\"\"\"\r\nc\\\n\x7d")).toList =
        fieldIndent.toList ++ (quotes ++ raw ++ quotes ++ ['\n']) ∧
      (∀ rest, takeToken (quotes ++ raw ++ quotes ++ rest) = some (.string (.block raw), rest)) ∧
      Sdl.tokens? (String.ofList (quotes ++ raw ++ quotes ++ ['\n'])) =
        some [.string (.block raw)] ∧
      unescapeQuotes raw = "\n  a\"\"\"\"b\\\"\"\"\n  c\\\n  \x7d\n  ".toList := by
  have hindent : ∀ c ∈ fieldIndent.toList, IsPlain c := by simp [fieldIndent, IsPlain]
  have hone := describe_isOneToken fieldIndent "a\"\"\"\"b\\\"\"\"\r\nc\\\n\x7d" hindent
  exact hone

end Gazette
