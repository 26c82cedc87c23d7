import Gazette.Request.Document.Reader
import Gazette.Text.Quoted
import Mathlib.Data.List.Basic

/-!
# The tokens of schema definitions

A text in the schema definition language is a sequence of tokens: marks, names, numbers and strings,
with blanks, commas and comments between them that do not count (`tokens?`).  Strings and blocks are
kept as they are written, so that a text in different spelling has different tokens.

What a text scans to is shown from its end on (`Scans`): there is one rule for each kind of token at
the start of a text whose rest is scanned already.
-/

namespace Gazette.Text

theorem toNat_lt_of_isControl {c : Char} (h : isControl c) : c.toNat < 160 := by
  simp only [isControl, Bool.or_eq_true, Bool.and_eq_true, decide_eq_true_eq] at h
  omega

end Gazette.Text

namespace Gazette.Sdl

open Document (isBlank isLineEnd isNameStart isNamePart skip takeBlock takeNameHere)

/-- A string as it is written: between quotes, or as a block between three quotes. -/
inductive StringText where
  | quoted (written : List Char)
  | block (raw : List Char)

/-- A token of the language in which schemas are defined. -/
inductive Token where
  | mark (c : Char)
  | name (name : String)
  | number (parts : Number.Lexeme)
  | string (text : StringText)

/-- Whether a character is a token of its own. -/
def isMark (c : Char) : Bool :=
  ['!', '$', '&', '(', ')', ':', '=', '@', '[', ']', '{', '|', '}'].contains c

/-- The characters of a string up to its closing quote, as they are written, and the text after the
quote. -/
def takeWritten : List Char → Option (List Char × List Char)
  | [] => none
  | '"' :: rest => some ([], rest)
  | '\\' :: 'u' :: a :: b :: c :: d :: rest =>
    if (Json.hexCode? a b c d).any fun code => !Json.isHighHalf code && !Json.isLowHalf code then
      (takeWritten rest).map fun (cs, after) => ('\\' :: 'u' :: a :: b :: c :: d :: cs, after)
    else none
  | '\\' :: c :: rest =>
    if (Json.escapeCode? c).isSome then
      (takeWritten rest).map fun (cs, after) => ('\\' :: c :: cs, after)
    else none
  | c :: rest =>
    if isLineEnd c ∨ c = '\\' then none
    else (takeWritten rest).map fun (cs, after) => (c :: cs, after)

/-- Whether a text goes on in a way in which no number may go on. -/
def extendsNumber (cs : List Char) : Bool := cs.head?.any fun c => isNamePart c || c = '.'

/-- The string or block whose first quote stands before a text. -/
def takeString (cs : List Char) : Option (Token × List Char) :=
  match cs with
  | '"' :: '"' :: rest => (takeBlock rest).map fun (raw, after) => (.string (.block raw), after)
  | cs => (takeWritten cs).map fun (written, after) => (.string (.quoted written), after)

/-- A number and the text after it, if a token can end there. -/
def takeNumber (cs : List Char) : Option (Token × List Char) := do
  let (parts, after) ← Number.takeLexeme cs
  if extendsNumber after then none else return (.number parts, after)

/-- The token right at the start of a text, and the text after it. -/
def takeToken : List Char → Option (Token × List Char)
  | [] => none
  | c :: rest =>
    if c = '"' then takeString rest
    else if isMark c then some (.mark c, rest)
    else
      match takeNameHere (c :: rest) with
      | some (name, after) => some (.name name, after)
      | none => takeNumber (c :: rest)

/-- The tokens of a text, of which there are less than `fuel`. -/
def scan? : (fuel : Nat) → List Char → Option (List Token)
  | 0, _ => none
  | fuel + 1, cs =>
    match skip cs with
    | [] => some []
    | cs => do
      let (token, rest) ← takeToken cs
      return token :: (← scan? fuel rest)

/-- The tokens of a text; none if it is no sequence of tokens. -/
def tokens? (source : String) : Option (List Token) := scan? (source.length + 1) source.toList

/-! ## Scanning from the end -/

/-- Whether a text has the given tokens. -/
def Scans (cs : List Char) (tokens : List Token) : Prop :=
  ∀ fuel, cs.length < fuel → scan? fuel cs = some tokens

theorem tokens?_eq_some {source : String} {tokens : List Token}
    (h : Scans source.toList tokens) : tokens? source = some tokens :=
  h _ (by rw [String.length_toList]; exact Nat.lt_succ_self _)

theorem scans_nil : Scans [] [] := by
  intro fuel h
  obtain ⟨fuel, rfl⟩ := Nat.exists_eq_succ_of_ne_zero (Nat.ne_of_gt h)
  rfl

theorem skip_blank {c : Char} (h : isBlank c) (cs : List Char) : skip (c :: cs) = skip cs := by
  have hc : c ≠ '#' := by rintro rfl; exact absurd h (by decide)
  simp [skip, Document.skipFrom, h, hc]

theorem skip_of_not_isBlank {c : Char} (h : isBlank c = false) (hc : c ≠ '#') (cs : List Char) :
    skip (c :: cs) = c :: cs := by
  simp [skip, Document.skipFrom, h, hc]

namespace Scans

variable {cs rest : List Char} {tokens : List Token} {c : Char} {token : Token}

theorem blank (hc : isBlank c) (h : Scans cs tokens) : Scans (c :: cs) tokens := by
  intro fuel hfuel
  obtain ⟨fuel, rfl⟩ := Nat.exists_eq_succ_of_ne_zero (Nat.ne_of_gt (Nat.zero_lt_of_lt hfuel))
  have hcs := h (fuel + 1) (Nat.lt_of_succ_lt hfuel)
  rw [scan?] at hcs ⊢
  rw [skip_blank hc, hcs]

theorem blanks {blanks : List Char} (hb : ∀ c ∈ blanks, isBlank c) (h : Scans cs tokens) :
    Scans (blanks ++ cs) tokens := by
  induction blanks with
  | nil => exact h
  | cons c rest ih => exact blank (hb c (.head _)) (ih fun c hc => hb c (.tail _ hc))

/-- A token at the start of a text and the tokens of the rest. -/
theorem cons (hblank : isBlank c = false) (hc : c ≠ '#')
    (htake : takeToken (c :: cs) = some (token, rest)) (hlength : rest.length ≤ cs.length)
    (h : Scans rest tokens) : Scans (c :: cs) (token :: tokens) := by
  intro fuel hfuel
  obtain ⟨fuel, rfl⟩ := Nat.exists_eq_succ_of_ne_zero (Nat.ne_of_gt (Nat.zero_lt_of_lt hfuel))
  have hrest : rest.length < fuel := by
    rw [List.length_cons] at hfuel
    omega
  rw [scan?, skip_of_not_isBlank hblank hc]
  simp [htake, h fuel hrest]

/-! ### Marks and names -/

theorem mark (hc : isMark c) (h : Scans cs tokens) : Scans (c :: cs) (.mark c :: tokens) := by
  have hfacts : isBlank c = false ∧ c ≠ '#' ∧ c ≠ '"' := by
    simp only [isMark, List.contains_cons, List.contains_nil, Bool.or_false, Bool.or_eq_true,
      beq_iff_eq] at hc
    rcases hc with rfl | rfl | rfl | rfl | rfl | rfl | rfl | rfl | rfl | rfl | rfl | rfl | rfl <;>
      decide
  obtain ⟨hblank, hcomment, hquote⟩ := hfacts
  refine cons hblank hcomment ?_ (Nat.le_refl _) h
  rw [takeToken, if_neg hquote, if_pos hc]

end Scans

/-- Whether a text is a name: a letter or a low line, and then letters, low lines and digits. -/
def isName (cs : List Char) : Bool := cs.head?.any isNameStart && cs.all isNamePart

/-- Whether a name, a number or a string that stands before a text ends there. -/
def IsBoundary (cs : List Char) : Prop :=
  ∀ c ∈ cs.head?, isNamePart c = false ∧ c ≠ '.' ∧ c ≠ '"'

theorem isBoundary_cons {c : Char} (h : isNamePart c = false ∧ c ≠ '.' ∧ c ≠ '"')
    (cs : List Char) : IsBoundary (c :: cs) := by
  intro d hd
  obtain rfl := Option.some.inj hd
  exact h

theorem IsBoundary.extendsNumber {cs : List Char} (h : IsBoundary cs) :
    extendsNumber cs = false := by
  cases cs with
  | nil => rfl
  | cons c cs =>
    obtain ⟨hpart, hpoint, -⟩ := h c rfl
    simp [Sdl.extendsNumber, hpart, hpoint]

theorem isNameStart_facts {c : Char} (h : isNameStart c) :
    isBlank c = false ∧ c ≠ '#' ∧ c ≠ '"' ∧ isMark c = false := by
  refine ⟨?_, ?_, ?_, ?_⟩
  · rw [Bool.eq_false_iff]
    intro hb
    simp only [isBlank, isLineEnd, Bool.or_eq_true, decide_eq_true_eq] at hb
    rcases hb with (((rfl | rfl) | rfl) | rfl) | rfl | rfl <;> exact absurd h (by decide)
  · rintro rfl
    exact absurd h (by decide)
  · rintro rfl
    exact absurd h (by decide)
  · rw [Bool.eq_false_iff]
    intro hm
    have hmem : c ∈ ['!', '$', '&', '(', ')', ':', '=', '@', '[', ']', '{', '|', '}'] :=
      List.contains_iff_mem.1 hm
    have hnone : ['!', '$', '&', '(', ')', ':', '=', '@', '[', ']', '{', '|', '}'].all
        (fun c => !isNameStart c) := by decide
    exact absurd h (by simpa using List.all_eq_true.1 hnone c hmem)

theorem takeWhile_append_of_isBoundary {name cs : List Char} (hname : name.all isNamePart)
    (hcs : IsBoundary cs) : (name ++ cs).takeWhile isNamePart = name := by
  rw [List.takeWhile_append_of_pos (List.all_eq_true.1 hname)]
  cases cs with
  | nil => simp
  | cons c cs =>
    rw [List.takeWhile_cons_of_neg (by simp [(hcs c rfl).1]), List.append_nil]

theorem dropWhile_append_of_isBoundary {name cs : List Char} (hname : name.all isNamePart)
    (hcs : IsBoundary cs) : (name ++ cs).dropWhile isNamePart = cs := by
  rw [List.dropWhile_append_of_pos (List.all_eq_true.1 hname)]
  cases cs with
  | nil => rfl
  | cons c cs => rw [List.dropWhile_cons_of_neg (by simp [(hcs c rfl).1])]

theorem exists_cons_of_isName {name : List Char} (h : isName name) :
    ∃ c more, name = c :: more ∧ isNameStart c := by
  cases name with
  | nil => simp [isName] at h
  | cons c more =>
    rw [isName, Bool.and_eq_true] at h
    exact ⟨c, more, rfl, h.1⟩

theorem takeNameHere_name {name : String} (hname : isName name.toList) {cs : List Char}
    (hcs : IsBoundary cs) : takeNameHere (name.toList ++ cs) = some (name, cs) := by
  have hparts : name.toList.all isNamePart := by
    rw [isName, Bool.and_eq_true] at hname
    exact hname.2
  have htake := takeWhile_append_of_isBoundary hparts hcs
  have hdrop := dropWhile_append_of_isBoundary hparts hcs
  obtain ⟨c, more, hlist, hc⟩ := exists_cons_of_isName hname
  rw [hlist, List.cons_append] at htake hdrop ⊢
  rw [takeNameHere, if_pos hc, htake, hdrop, ← hlist, String.ofList_toList]

theorem takeToken_name {name : String} (hname : isName name.toList) {cs : List Char}
    (hcs : IsBoundary cs) : takeToken (name.toList ++ cs) = some (.name name, cs) := by
  have hhere := takeNameHere_name hname hcs
  obtain ⟨c, more, hlist, hc⟩ := exists_cons_of_isName hname
  rw [hlist, List.cons_append] at hhere ⊢
  obtain ⟨-, -, hquote, hmark⟩ := isNameStart_facts hc
  rw [takeToken, if_neg hquote, if_neg (by simp [hmark]), hhere]

theorem Scans.name {name : String} (hname : isName name.toList) {cs : List Char}
    {tokens : List Token} (hcs : IsBoundary cs) (h : Scans cs tokens) :
    Scans (name.toList ++ cs) (.name name :: tokens) := by
  have htake := takeToken_name hname hcs
  obtain ⟨c, more, hlist, hc⟩ := exists_cons_of_isName hname
  rw [hlist, List.cons_append] at htake ⊢
  obtain ⟨hblank, hcomment, -, -⟩ := isNameStart_facts hc
  exact Scans.cons hblank hcomment htake (by simp) h

/-! ### Numbers -/

/-- Whether a character stands at the start of a number. -/
def startsNumber (c : Char) : Bool := c = '-' || (Number.digitOf? c).isSome

theorem mem_digits_of_digitOf? {c : Char} (h : (Number.digitOf? c).isSome) :
    c ∈ ['0', '1', '2', '3', '4', '5', '6', '7', '8', '9'] := by
  have hrange : '0' ≤ c ∧ c ≤ '9' := by
    by_cases hrange : '0' ≤ c ∧ c ≤ '9'
    · exact hrange
    · rw [Number.digitOf?, if_neg hrange] at h
      cases h
  have hlow : 48 ≤ c.toNat := hrange.1
  have hhigh : c.toNat ≤ 57 := hrange.2
  have hall : ∀ n < 58, 48 ≤ n →
      Char.ofNat n ∈ ['0', '1', '2', '3', '4', '5', '6', '7', '8', '9'] := by decide
  rw [← Char.ofNat_toNat c]
  exact hall _ (Nat.lt_succ_of_le hhigh) hlow

theorem startsNumber_facts {c : Char} (h : startsNumber c) :
    isBlank c = false ∧ c ≠ '#' ∧ c ≠ '"' ∧ isMark c = false ∧ isNameStart c = false := by
  have hmem : c ∈ ['-', '0', '1', '2', '3', '4', '5', '6', '7', '8', '9'] := by
    rw [startsNumber, Bool.or_eq_true, decide_eq_true_eq] at h
    rcases h with rfl | h
    · exact .head _
    · exact .tail _ (mem_digits_of_digitOf? h)
  have hall : ['-', '0', '1', '2', '3', '4', '5', '6', '7', '8', '9'].all fun c =>
      isBlank c = false ∧ c ≠ '#' ∧ c ≠ '"' ∧ isMark c = false ∧ isNameStart c = false := by decide
  exact of_decide_eq_true (List.all_eq_true.1 hall c hmem)

theorem Scans.number {number cs : List Char} {parts : Number.Lexeme} {tokens : List Token}
    (hstart : number.head?.any startsNumber)
    (hread : Number.takeLexeme (number ++ cs) = some (parts, cs)) (hcs : IsBoundary cs)
    (h : Scans cs tokens) : Scans (number ++ cs) (.number parts :: tokens) := by
  cases number with
  | nil => simp at hstart
  | cons c more =>
    obtain ⟨hblank, hcomment, hquote, hmark, hname⟩ := startsNumber_facts (c := c) hstart
    rw [List.cons_append] at hread ⊢
    refine Scans.cons hblank hcomment ?_ (by simp) h
    rw [takeToken, if_neg hquote, if_neg (by simp [hmark]), takeNameHere,
      if_neg (by simp [hname])]
    simp [takeNumber, hread, hcs.extendsNumber]

/-! ### Strings -/

theorem takeWritten_control {c : Char} (h : Text.isControl c) (cs : List Char) :
    takeWritten ('\\' :: 'u' :: Text.padLeft 4 (Number.digits c.toNat) ++ cs) =
      (takeWritten cs).map fun (written, after) =>
        ('\\' :: 'u' :: Text.padLeft 4 (Number.digits c.toNat) ++ written, after) := by
  have hcode := Text.toNat_lt_of_isControl h
  -- Four decimal digits are also four hexadecimal ones.
  have hall : ∀ n < 160, let ds := Text.padLeft 4 (Number.digits n)
      ds.length = 4 ∧ (Json.hexCode? ds[0]! ds[1]! ds[2]! ds[3]!).any fun code =>
        !Json.isHighHalf code && !Json.isLowHalf code := by decide +kernel
  obtain ⟨hfour, hhex⟩ := hall _ hcode
  obtain ⟨w, x, y, z, hdigits⟩ := List.length_eq_four.1 hfour
  rw [hdigits] at hhex ⊢
  show takeWritten ('\\' :: 'u' :: w :: x :: y :: z :: cs) = _
  exact if_pos hhex

theorem takeWritten_escape (c : Char) (cs : List Char) :
    takeWritten (Text.escape c ++ cs) =
      (takeWritten cs).map fun (written, after) => (Text.escape c ++ written, after) := by
  unfold Text.escape
  split
  · rfl
  · rfl
  · rfl
  · rfl
  · rfl
  · rename_i hreturn hfeed htab hquote hslash
    split
    · rename_i hcontrol
      exact takeWritten_control hcontrol cs
    · rw [List.singleton_append, takeWritten]
      · have hplain : ¬ (isLineEnd c ∨ c = '\\') := by
          rw [isLineEnd, Bool.or_eq_true, decide_eq_true_eq, decide_eq_true_eq]
          exact not_or_intro (not_or_intro hfeed hreturn) hslash
        rw [if_neg hplain]
        rfl
      · exact hquote
      · exact fun _ _ _ _ _ hc => absurd hc hslash
      · exact fun _ _ hc => absurd hc hslash

theorem takeWritten_quoted (text cs : List Char) :
    takeWritten (text.flatMap Text.escape ++ '"' :: cs) = some (text.flatMap Text.escape, cs) := by
  induction text with
  | nil => rfl
  | cons c text ih =>
    rw [List.flatMap_cons, List.append_assoc, takeWritten_escape, ih]
    rfl

theorem exists_escape (c : Char) : ∃ first more, Text.escape c = first :: more ∧ first ≠ '"' := by
  unfold Text.escape
  split
  · exact ⟨_, _, rfl, by decide⟩
  · exact ⟨_, _, rfl, by decide⟩
  · exact ⟨_, _, rfl, by decide⟩
  · exact ⟨_, _, rfl, by decide⟩
  · exact ⟨_, _, rfl, by decide⟩
  · rename_i hquote _
    split
    · exact ⟨_, _, rfl, by decide⟩
    · exact ⟨_, _, rfl, hquote⟩

theorem Scans.string (text : List Char) {cs : List Char} {tokens : List Token}
    (hcs : IsBoundary cs) (h : Scans cs tokens) :
    Scans (Text.quoted text ++ cs) (.string (.quoted (text.flatMap Text.escape)) :: tokens) := by
  rw [Text.quoted, List.cons_append, List.append_assoc]
  refine Scans.cons rfl (by decide) ?_ (by simp; omega) h
  rw [takeToken, if_pos rfl, takeString]
  · rw [List.singleton_append, takeWritten_quoted]
    rfl
  · intro rest hrest
    cases text with
    | nil =>
      obtain rfl : cs = '"' :: rest := by simpa using hrest
      exact (hcs '"' rfl).2.2 rfl
    | cons c text =>
      obtain ⟨first, more, hescape, hfirst⟩ := exists_escape c
      rw [List.flatMap_cons, hescape] at hrest
      exact hfirst (List.cons.inj hrest).1

/-! ### Blocks -/

theorem takeBlock_cons {c : Char} {cs : List Char}
    (hslash : ¬ (c = '\\' ∧ Text.Block.quotes <+: cs)) (hquote : ¬ (c = '"' ∧ ['"', '"'] <+: cs)) :
    takeBlock (c :: cs) = (takeBlock cs).map fun (raw, after) => (c :: raw, after) := by
  rw [takeBlock]
  · rintro rest rfl rfl
    exact hslash ⟨rfl, rest, rfl⟩
  · rintro rest rfl rfl
    exact hquote ⟨rfl, rest, rfl⟩

/-- No quotes are added at the start of a line. -/
theorem replicate_isPrefix_of_escapeQuotes {line : List Char} (cs : List Char) {k : Nat}
    (h : List.replicate k '"' <+: Text.Block.escapeQuotes line ++ '\n' :: cs) :
    List.replicate k '"' <+: line := by
  fun_induction Text.Block.escapeQuotes line generalizing k with
  | case1 rest ih =>
    cases k with
    | zero => exact List.nil_prefix
    | succ k => exact absurd (List.cons_prefix_cons.1 h).1 (by decide)
  | case2 c rest hrest ih =>
    cases k with
    | zero => exact List.nil_prefix
    | succ k =>
      obtain ⟨hc, hmore⟩ := List.cons_prefix_cons.1 h
      exact List.cons_prefix_cons.2 ⟨hc, ih hmore⟩
  | case3 =>
    cases k with
    | zero => exact List.nil_prefix
    | succ k => exact absurd (List.cons_prefix_cons.1 h).1 (by decide)

/-- No three quotes in a row are left in a line whose quotes are escaped. -/
theorem not_quotes_isPrefix_escapeQuotes (line cs : List Char) :
    ¬ Text.Block.quotes <+: Text.Block.escapeQuotes line ++ '\n' :: cs := by
  intro h
  obtain ⟨rest, rfl⟩ := replicate_isPrefix_of_escapeQuotes (k := 3) cs h
  exact absurd (List.cons_prefix_cons.1 h).1 (by decide)

theorem takeBlock_escapeQuotes (line cs : List Char) :
    takeBlock (Text.Block.escapeQuotes line ++ '\n' :: cs) =
      (takeBlock cs).map (.map (Text.Block.escapeQuotes line ++ ['\n'] ++ ·) id) := by
  fun_induction Text.Block.escapeQuotes line with
  | case1 rest ih =>
    simp only [List.cons_append]
    rw [takeBlock, ih, Option.map_map]
    rfl
  | case2 c rest hrest ih =>
    rw [List.cons_append, takeBlock_cons, ih, Option.map_map]
    · rfl
    · exact fun h => not_quotes_isPrefix_escapeQuotes rest cs h.2
    · rintro ⟨rfl, h⟩
      obtain ⟨more, rfl⟩ := replicate_isPrefix_of_escapeQuotes (k := 2) cs h
      exact hrest more rfl rfl
  | case3 =>
    rw [List.nil_append, takeBlock_cons (fun h => absurd h.1 (by decide))
      (fun h => absurd h.1 (by decide))]
    rfl

/-- Whether a character stands for itself in a block, whatever comes after it. -/
def IsPlain (c : Char) : Prop := c ≠ '\\' ∧ c ≠ '"'

instance : DecidablePred IsPlain := fun c => inferInstanceAs (Decidable (c ≠ '\\' ∧ c ≠ '"'))

theorem isPlain_of_isBlank {c : Char} (h : isBlank c) : IsPlain c := by
  constructor <;> (rintro rfl; exact absurd h (by decide))

theorem takeBlock_plain {plain : List Char} (h : ∀ c ∈ plain, IsPlain c) (cs : List Char) :
    takeBlock (plain ++ cs) = (takeBlock cs).map (.map (plain ++ ·) id) := by
  induction plain with
  | nil => exact Option.map_id'.symm
  | cons c rest ih =>
    have hc : IsPlain c := h c (.head _)
    rw [List.cons_append, takeBlock_cons (fun hslash => hc.1 hslash.1)
      (fun hquote => hc.2 hquote.1), ih fun c hmem => h c (.tail _ hmem), Option.map_map]
    rfl

/-- The lines of a description as they stand in its block. -/
def blockLines (indent text : List Char) : List Char :=
  (Text.Block.lines text).flatMap fun line => indent ++ Text.Block.escapeQuotes line ++ ['\n']

/-- What stands between the quotes of the block of a description. -/
def blockText (indent text : List Char) : List Char := '\n' :: blockLines indent text ++ indent

theorem takeBlock_blockLines {indent : List Char} (hindent : ∀ c ∈ indent, IsPlain c)
    (text cs : List Char) : takeBlock (blockLines indent text ++ cs) =
      (takeBlock cs).map (.map (blockLines indent text ++ ·) id) := by
  unfold blockLines
  induction Text.Block.lines text with
  | nil => exact Option.map_id'.symm
  | cons line rest ih =>
    simp only [List.flatMap_cons, List.append_assoc, List.cons_append,
      List.nil_append] at ih ⊢
    rw [takeBlock_plain hindent, takeBlock_escapeQuotes, ih, Option.map_map, Option.map_map]
    simp only [Function.comp_def, List.append_assoc]
    rfl

/-- Between its quotes, a block is read up to the quotes that close it. -/
theorem takeBlock_blockText {indent : List Char} (hindent : ∀ c ∈ indent, IsPlain c)
    (text cs : List Char) : takeBlock (blockText indent text ++ '"' :: '"' :: '"' :: cs) =
      some (blockText indent text, cs) := by
  have hfeed := takeBlock_plain (List.forall_mem_singleton.2 (show IsPlain '\n' by decide))
    (blockLines indent text ++ (indent ++ '"' :: '"' :: '"' :: cs))
  rw [takeBlock_blockLines hindent, takeBlock_plain hindent, takeBlock] at hfeed
  simpa [blockText] using hfeed

/-- From its opening quotes on, a block is one token. -/
theorem takeToken_block {indent : List Char} (hindent : ∀ c ∈ indent, IsPlain c)
    (text cs : List Char) :
    takeToken ('"' :: '"' :: '"' :: (blockText indent text ++ '"' :: '"' :: '"' :: cs)) =
      some (.string (.block (blockText indent text)), cs) := by
  rw [takeToken, if_pos rfl, takeString, takeBlock_blockText hindent]
  rfl

theorem chars_eq (indent text : List Char) : Text.Block.chars indent text = indent ++
    '"' :: '"' :: '"' :: (blockText indent text ++ ['"', '"', '"', '\n']) := by
  simp [Text.Block.chars, Text.Block.quotes, blockText, blockLines]

/-- The block of a description is one token, whatever the description is. -/
theorem Scans.block {indent : List Char} (hindent : ∀ c ∈ indent, isBlank c) (text : List Char)
    {cs : List Char} {tokens : List Token} (h : Scans cs tokens) :
    Scans (Text.Block.chars indent text ++ cs)
      (.string (.block (blockText indent text)) :: tokens) := by
  have hblock := Scans.cons (c := '"') rfl (by decide)
    (takeToken_block (fun c hc => isPlain_of_isBlank (hindent c hc)) text ('\n' :: cs))
    (by simp; omega) (Scans.blank (c := '\n') rfl h)
  simpa [chars_eq] using Scans.blanks hindent hblock

end Gazette.Sdl
