import Gazette.Proofs.Definition.Reading
import Gazette.Proofs.Number.Rounding
import Gazette.Proofs.Schema.Coercion
import Gazette.Request.Document.Reader

/-!
# Values read as literals

The text of a value is read as a literal of a request.  Most values are read back (`KeepsText`), but
not all: the escape of a control character has its code in decimal digits, which are read as
hexadecimal ones (`Text.reread`); the text of a double may be read as another double; and an enum
name that starts with `true`, `false` or `null` is read as that word.  Where a value is not read
back, what is read instead differs from it in one leaf (`Strays`).
-/

namespace Gazette

open Document
open Sdl (IsBoundary isName isMark)

/-! ## Strings -/

namespace Text

/-- The character that is read where a character is written: the code of a control character is
written in decimal digits and read in hexadecimal ones, unless it has an escape of its own. -/
def reread (c : Char) : Char :=
  if isControl c ∧ c ≠ '\r' ∧ c ≠ '\n' ∧ c ≠ '\t' then
    Char.ofNat (256 * (c.toNat / 100) + 16 * (c.toNat / 10 % 10) + c.toNat % 10)
  else c

/-- Only control characters below 10 have the same digits in both systems. -/
theorem reread_eq_self_iff {c : Char} :
    reread c = c ↔ (isControl c → c.toNat < 10 ∨ c = '\n' ∨ c = '\r') := by
  by_cases hcontrol : isControl c
  · have hall : ∀ n < 160, let c := Char.ofNat n
        isControl c → (reread c = c ↔ c.toNat < 10 ∨ c = '\n' ∨ c = '\r') := by decide +kernel
    have hc := hall c.toNat (toNat_lt_of_isControl hcontrol)
    rw [Char.ofNat_toNat] at hc
    rw [hc hcontrol, forall_prop_of_true hcontrol]
  · rw [reread, if_neg fun h => hcontrol h.1]
    simp [hcontrol]

/-- A text is read back if none of its characters is read as another one. -/
theorem map_reread_eq_self_iff {text : List Char} : text.map reread = text ↔
    ∀ c ∈ text, isControl c → c.toNat < 10 ∨ c = '\n' ∨ c = '\r' := by
  induction text with
  | nil => simp
  | cons c text ih =>
    rw [List.map_cons, List.cons.injEq, reread_eq_self_iff, ih, List.forall_mem_cons]

end Text

namespace Document

theorem takeQuoted_control {c : Char} (h : Text.isControl c) (cs : List Char) :
    takeQuoted ('\\' :: 'u' :: Text.padLeft 4 (Number.digits c.toNat) ++ cs) =
      (takeQuoted cs).map fun (read, after) =>
        (Char.ofNat (256 * (c.toNat / 100) + 16 * (c.toNat / 10 % 10) + c.toNat % 10) :: read,
          after) := by
  have hall : ∀ n < 160, let ds := Text.padLeft 4 (Number.digits n)
      ds.length = 4 ∧ Json.hexCode? ds[0]! ds[1]! ds[2]! ds[3]! =
        some (256 * (n / 100) + 16 * (n / 10 % 10) + n % 10) := by decide +kernel
  have hhalf : ∀ n < 160, let code := 256 * (n / 100) + 16 * (n / 10 % 10) + n % 10
      (Json.isHighHalf code || Json.isLowHalf code) = false := by decide +kernel
  have hcode := Text.toNat_lt_of_isControl h
  obtain ⟨hfour, hhex⟩ := hall _ hcode
  obtain ⟨w, x, y, z, hdigits⟩ := List.length_eq_four.1 hfour
  rw [hdigits] at hhex ⊢
  show takeQuoted ('\\' :: 'u' :: w :: x :: y :: z :: cs) = _
  rw [takeQuoted]
  change Json.hexCode? w x y z = _ at hhex
  rw [hhex, Option.bind_eq_bind, Option.bind_some, hhalf _ hcode, if_neg Bool.false_ne_true]
  cases takeQuoted cs <;> rfl

/-- An escape of two characters. -/
theorem takeQuoted_short {c d : Char} (h : Json.escapeCode? d = some c.toNat) (cs : List Char) :
    takeQuoted ('\\' :: d :: cs) =
      (takeQuoted cs).map fun (read, after) => (c :: read, after) := by
  have hu : d ≠ 'u' := by
    rintro rfl
    cases h
  rw [takeQuoted, h, Option.bind_eq_bind, Option.bind_some, Char.ofNat_toNat]
  · cases takeQuoted cs <;> rfl
  · exact fun _ _ _ _ _ hd => absurd hd hu

theorem takeQuoted_escape (c : Char) (cs : List Char) :
    takeQuoted (Text.escape c ++ cs) =
      (takeQuoted cs).map fun (read, after) => (Text.reread c :: read, after) := by
  unfold Text.escape
  split
  · exact takeQuoted_short rfl cs
  · exact takeQuoted_short rfl cs
  · exact takeQuoted_short rfl cs
  · exact takeQuoted_short rfl cs
  · exact takeQuoted_short rfl cs
  · rename_i hreturn hfeed htab hquote hslash
    split
    · rename_i hcontrol
      rw [takeQuoted_control hcontrol, Text.reread, if_pos ⟨hcontrol, hreturn, hfeed, htab⟩]
    · rename_i hcontrol
      have hplain : ¬ (isLineEnd c ∨ c = '\\') := by
        rw [isLineEnd, Bool.or_eq_true, decide_eq_true_eq, decide_eq_true_eq]
        exact not_or_intro (not_or_intro hfeed hreturn) hslash
      rw [List.singleton_append, takeQuoted, if_neg hplain, Text.reread,
        if_neg fun h => hcontrol h.1]
      · cases takeQuoted cs <;> rfl
      · exact hquote
      · exact fun _ _ _ _ _ hc => absurd hc hslash
      · exact fun _ _ hc => absurd hc hslash

theorem takeQuoted_quoted (text cs : List Char) :
    takeQuoted (text.flatMap Text.escape ++ '"' :: cs) = some (text.map Text.reread, cs) := by
  induction text with
  | nil => rfl
  | cons c text ih =>
    rw [List.flatMap_cons, List.append_assoc, takeQuoted_escape, ih]
    rfl

theorem takeString_quoted (text : List Char) {cs : List Char} (hcs : IsBoundary cs) :
    takeString (Text.quoted text ++ cs) = some (String.ofList (text.map Text.reread), cs) := by
  have hread := takeQuoted_quoted text cs
  rw [Text.quoted, List.cons_append, List.append_assoc, List.singleton_append]
  unfold takeString
  split
  · rename_i rest heq
    -- Two more quotes would be the end of an empty text, and a quote after it.
    have hrest := (List.cons.inj heq).2
    cases text with
    | nil =>
      obtain rfl : cs = '"' :: rest := (List.cons.inj hrest).2
      exact absurd rfl (hcs '"' rfl).2.2
    | cons c text =>
      obtain ⟨first, more, hescape, hfirst⟩ := Sdl.exists_escape c
      rw [List.flatMap_cons, hescape] at hrest
      exact absurd (List.cons.inj hrest).1 hfirst
  · rename_i rest _ heq
    obtain rfl := (List.cons.inj heq).2
    rw [hread]
    rfl
  · rename_i hquote
    exact absurd rfl (hquote _)

/-! ## Numbers and words -/

/-- Whether a literal that is neither a string nor in brackets starts with a character. -/
def StartsPlain (c : Char) : Prop :=
  isBlank c = false ∧ c ≠ '#' ∧ c ≠ '"' ∧ isMark c = false

theorem takeLiteral_plain {c : Char} (h : StartsPlain c) (fuel : Nat) (cs : List Char) :
    takeLiteral (fuel + 1) (c :: cs) =
      match takeNumber (c :: cs) with
      | some (n, after) => some (.number n, after)
      | none => takeWord (c :: cs) := by
  obtain ⟨hblank, hcomment, hquote, hmark⟩ := h
  rw [takeLiteral, Sdl.skip_of_not_isBlank hblank hcomment]
  split
  case h_5 => rfl
  all_goals
    rename_i heq
    obtain ⟨rfl, -⟩ := List.cons.inj heq
    first | exact absurd rfl hquote | exact absurd hmark (by decide)

theorem takeNumber_chars {n : Number} (hn : n.isFinite) {cs : List Char} (hcs : IsBoundary cs) :
    takeNumber (n.chars ++ cs) = n.parts.toNumber?.map (·, cs) := by
  have hname : (cs.head?.any isNameStart) = false := by
    cases hhead : cs.head? with
    | none => rfl
    | some c =>
      have hpart := (hcs c hhead).1
      rw [isNamePart, Bool.or_eq_false_iff] at hpart
      exact hpart.1
  rw [takeNumber, Number.takeLexeme_chars hn hcs.isEnd]
  simp only [Option.bind_eq_bind, Option.bind_some, hname, Bool.false_eq_true, if_false]
  cases n.parts.toNumber? <;> rfl

theorem takeNumber_of_isNameStart {c : Char} (h : isNameStart c) (cs : List Char) :
    takeNumber (c :: cs) = none := by
  have hstart : Sdl.startsNumber c = false := by
    rw [Bool.eq_false_iff]
    intro hnumber
    rw [(Sdl.startsNumber_facts hnumber).2.2.2.2] at h
    cases h
  rw [Sdl.startsNumber, Bool.or_eq_false_iff, decide_eq_false_iff_not] at hstart
  obtain ⟨hminus, hdigit⟩ := hstart
  have hzero : c ≠ '0' := by
    rintro rfl
    cases hdigit
  have hnone : Number.digitOf? c = none := by simpa using hdigit
  have hwhole : Number.takeWhole (c :: cs) = none := by
    rw [Number.takeWhole, Number.takeDigits, hnone]
    · rintro rest heq
      exact hzero (List.cons.inj heq).1
  have hlexeme : Number.takeLexeme (c :: cs) = none := by
    rw [Number.takeLexeme, hwhole]
    · rfl
    · rintro rest heq
      exact hminus (List.cons.inj heq).1
  rw [takeNumber, hlexeme]
  rfl

/-- The words that are literals of their own. -/
def literalWords : List String := ["true", "false", "null"]

/-- A word that stands at the start of a name and what comes after it stands in the name. -/
theorem isPrefix_of_isPrefix_append {word name cs : List Char} (hword : ∀ c ∈ word, isNamePart c)
    (hcs : IsBoundary cs) (h : word <+: name ++ cs) : word <+: name := by
  induction word generalizing name with
  | nil => exact List.nil_prefix
  | cons w word ih =>
    cases name with
    | nil =>
      obtain ⟨rest, rfl⟩ := h
      have hw := hword w (.head _)
      rw [(hcs w rfl).1] at hw
      cases hw
    | cons n name =>
      rw [List.cons_append] at h
      obtain ⟨rfl, hrest⟩ := List.cons_prefix_cons.1 h
      exact List.cons_prefix_cons.2 ⟨rfl, ih (fun c hc => hword c (.tail _ hc)) hrest⟩

theorem skipWord?_eq_none {word name : String} (hmem : word ∈ literalWords)
    (hname : ¬ word.toList <+: name.toList) {cs : List Char} (hcs : IsBoundary cs) :
    Text.skipWord? word.toList (name.toList ++ cs) = none := by
  have hparts : ∀ word ∈ literalWords, word.toList.all isNamePart := by decide
  rw [Option.eq_none_iff_forall_ne_some]
  intro rest hrest
  exact hname (isPrefix_of_isPrefix_append (List.all_eq_true.1 (hparts word hmem)) hcs
    ⟨rest, (Text.skipWord?_eq_some_iff.1 hrest).symm⟩)

theorem takeWord_name {name : String} (hname : isName name.toList)
    (hword : ∀ word ∈ literalWords, ¬ word.toList <+: name.toList) {cs : List Char}
    (hcs : IsBoundary cs) : takeWord (name.toList ++ cs) = some (.enum name, cs) := by
  have hnone (word : String) (hmem : word ∈ literalWords) :=
    skipWord?_eq_none hmem (hword word hmem) hcs
  rw [takeWord, hnone "true" (.head _), hnone "false" (.tail _ (.head _)),
    hnone "null" (.tail _ (.tail _ (.head _))), Sdl.takeNameHere_name hname hcs]
  rfl

/-- A name that starts with a word is read as that word. -/
theorem exists_takeWord {word name : String} (hmem : word ∈ literalWords)
    (hword : word.toList <+: name.toList) (cs : List Char) :
    ∃ l rest, takeWord (name.toList ++ cs) = some (l, rest) ∧
      (l = .null ∨ ∃ b, l = .boolean b) := by
  obtain ⟨rest, hrest⟩ := hword
  have hskip : Text.skipWord? word.toList (name.toList ++ cs) = some (rest ++ cs) :=
    Text.skipWord?_eq_some_iff.2 (by rw [← hrest, List.append_assoc])
  unfold takeWord
  split
  · exact ⟨_, _, rfl, .inr ⟨_, rfl⟩⟩
  · rename_i htrue
    split
    · exact ⟨_, _, rfl, .inr ⟨_, rfl⟩⟩
    · rename_i hfalse
      split
      · exact ⟨_, _, rfl, .inl rfl⟩
      · rename_i hnull
        have hnone : ∀ word ∈ literalWords,
            Text.skipWord? word.toList (name.toList ++ cs) = none := by
          simpa [literalWords] using ⟨htrue, hfalse, hnull⟩
        rw [hnone word hmem] at hskip
        cases hskip

end Document

/-! ## Values -/

namespace Value

/-- Whether a value is one of an argument, with names of the language for values of enums. -/
abbrev IsWritten (v : Value) : Prop := v.IsInput fun name => isName name.toList

mutual

/-- The literal that a value is written as.  Binary data and objects, which no argument takes, are
left out. -/
def literal : Value → Literal
  | null | binary _ | object _ => .null
  | boolean b => .boolean b
  | number n => .number n
  | string s => .string s
  | enum name => .enum name
  | list items => .list (literals items)

/-- The literals of the items of a list. -/
def literals : List Value → List Literal
  | [] => []
  | item :: rest => item.literal :: literals rest

end

theorem literals_eq_map (items : List Value) : literals items = items.map literal := by
  induction items with
  | nil => rfl
  | cons item rest ih => rw [literals, ih, List.map_cons]

/-- Whether the text of a value is read back as the value.  Control characters in strings have to be
below 10, or line ends; the parts of a number have to stand for that very number; and an enum name
must not start with a word. -/
inductive KeepsText : Value → Prop
  | null : KeepsText .null
  | boolean (b : Bool) : KeepsText (.boolean b)
  | number {n : Number} (hfinite : n.isFinite) (hsame : n.parts.toNumber? = some n) :
    KeepsText (.number n)
  | string {s : String}
    (h : ∀ c ∈ s.toList, Text.isControl c → c.toNat < 10 ∨ c = '\n' ∨ c = '\r') :
    KeepsText (.string s)
  | enum {name : String} (hname : isName name.toList)
    (hword : ∀ word ∈ literalWords, ¬ word.toList <+: name.toList) : KeepsText (.enum name)
  | list {items : List Value} (h : ∀ item ∈ items, KeepsText item) : KeepsText (.list items)

theorem KeepsText.int {n : Int} (hlow : -2 ^ 63 ≤ n) (hhigh : n < 2 ^ 64) :
    KeepsText (.number (.int n)) :=
  .number rfl (Number.toNumber?_parts_int hlow hhigh)

/-- A double is read back if its text has few digits and a small power of ten. -/
theorem KeepsText.float {x : Double} (hfinite : x.isFinite)
    (hshort : (Number.float x).parts.IsShort) : KeepsText (.number (.float x)) :=
  .number hfinite (Number.toNumber?_parts_float hshort)

-- The double that is written `0.1`.
example : KeepsText (.number (.float ⟨0x3FB999999999999A⟩)) :=
  .float (by decide) (by decide +kernel)

/-- How a value may differ from the one that is written: in one leaf, which is the first such one.
A string is another string and a number another number; a number that is not finite is null, and an
enum name is a word. -/
inductive Strays : Value → Value → Prop
  | string {s t : String} (h : t ≠ s) : Strays (.string s) (.string t)
  | number {n m : Number} (h : m ≠ n) : Strays (.number n) (.number m)
  | infinite (n : Number) : Strays (.number n) .null
  | truth (name : String) (b : Bool) : Strays (.enum name) (.boolean b)
  | nothing (name : String) : Strays (.enum name) .null
  | list (before : List Value) {item item' : Value} (after after' : List Value)
    (h : Strays item item') :
    Strays (.list (before ++ item :: after)) (.list (before ++ item' :: after'))

theorem KeepsText.isWritten {v : Value} (h : v.KeepsText) : v.IsWritten := by
  induction h with
  | null => exact .null
  | boolean b => exact .boolean b
  | number _ _ => exact .number _
  | string _ => exact .string _
  | enum hname _ => exact .enum hname
  | list _ ih => exact .list ih

/-! ### What literals stand for -/

theorem evalItems?_append {given : String → Option Value} {before : List Value}
    (h : ∀ item ∈ before, item.literal.eval? given = some item) (ls : List Literal) :
    Literal.evalItems? given (before.map literal ++ ls) =
      (Literal.evalItems? given ls).map (before ++ ·) := by
  induction before with
  | nil => exact Option.map_id'.symm
  | cons item before ih =>
    rw [List.map_cons, List.cons_append, Literal.evalItems?, h item (.head _),
      ih fun i hi => h i (.tail _ hi)]
    cases Literal.evalItems? given ls <;> rfl

theorem IsInput.eval?_literal {named : String → Prop} {v : Value} (h : v.IsInput named)
    (given : String → Option Value) : v.literal.eval? given = some v := by
  induction h with
  | null => rfl
  | boolean b => rfl
  | number n => rfl
  | string s => rfl
  | enum _ => rfl
  | list _ ih =>
    have hitems := evalItems?_append ih []
    rw [List.append_nil] at hitems
    rw [literal, literals_eq_map, Literal.eval?, hitems]
    simp [Literal.evalItems?]

/-- A list of literals of which the first ones are those of values. -/
theorem exists_of_eval?_list {given : String → Option Value} {before : List Value}
    (h : ∀ item ∈ before, item.literal.eval? given = some item) {l : Literal} {ls : List Literal}
    {w : Value} (hw : (Literal.list (before.map literal ++ l :: ls)).eval? given = some w) :
    ∃ item after, l.eval? given = some item ∧ w = .list (before ++ item :: after) := by
  rw [Literal.eval?, evalItems?_append h, Literal.evalItems?] at hw
  cases hitem : l.eval? given with
  | none => simp [hitem] at hw
  | some item =>
    cases hafter : Literal.evalItems? given ls with
    | none => simp [hitem, hafter] at hw
    | some after => exact ⟨item, after, rfl, by simpa [hitem, hafter] using hw.symm⟩

/-! ### Texts of items -/

/-- The text of the items of a list, with the closing bracket and what comes after it. -/
def itemsChars (items : List Value) (cs : List Char) : List Char :=
  separated (itemTexts items) ++ ']' :: cs

theorem exists_itemsChars_cons (v : Value) (items : List Value) (cs : List Char) :
    ∃ tail, itemsChars (v :: items) cs = v.chars ++ tail ∧ IsBoundary tail ∧
      skip tail = skip (itemsChars items cs) := by
  cases items with
  | nil => exact ⟨_, rfl, Sdl.Scans.boundary (by decide) cs, rfl⟩
  | cons next items =>
    refine ⟨',' :: ' ' :: itemsChars (next :: items) cs, ?_, Sdl.Scans.boundary (by decide) _, ?_⟩
    · simp [itemsChars, itemTexts, separated]
    · rw [Sdl.skip_blank rfl, Sdl.skip_blank rfl]

theorem length_add_length_le {item : Value} {items : List Value} (h : item ∈ items) :
    item.chars.length + items.length ≤ (separated (itemTexts items)).length + 1 := by
  induction items generalizing item with
  | nil => cases h
  | cons v items ih =>
    cases items with
    | nil =>
      obtain rfl := List.mem_singleton.1 h
      simp [itemTexts, separated]
    | cons next items =>
      have hlength : (separated (itemTexts (v :: next :: items))).length =
          v.chars.length + (separated (itemTexts (next :: items))).length + 2 := by
        simp [itemTexts, separated]
        omega
      rw [hlength, List.length_cons]
      rcases List.mem_cons.1 h with rfl | h
      · have hnext := ih (.head items)
        omega
      · have hmem := ih h
        omega

/-- The text of a value starts with a character of its own. -/
theorem IsWritten.exists_chars {v : Value} (h : v.IsWritten) :
    ∃ c more, v.chars = c :: more ∧ isBlank c = false ∧ c ≠ '#' ∧ c ≠ ']' := by
  cases h with
  | null => exact ⟨'n', _, rfl, by decide⟩
  | boolean b => cases b <;> exact ⟨_, _, rfl, by decide⟩
  | number n =>
    by_cases hn : n.isFinite
    · obtain ⟨c, more, hchars, -⟩ := Number.exists_chars hn
      have hstart := Number.startsNumber_chars hn
      rw [hchars] at hstart
      obtain ⟨hblank, hcomment, -, hmark, -⟩ := Sdl.startsNumber_facts hstart
      refine ⟨c, more, hchars, hblank, hcomment, ?_⟩
      rintro rfl
      cases hmark
    · exact ⟨'n', _, Number.chars_of_not_isFinite hn, by decide⟩
  | string s => exact ⟨'"', _, rfl, by decide⟩
  | enum hname =>
    obtain ⟨c, more, hchars, hc⟩ := Sdl.exists_cons_of_isName hname
    obtain ⟨hblank, hcomment, -, hmark⟩ := Sdl.isNameStart_facts hc
    refine ⟨c, more, hchars, hblank, hcomment, ?_⟩
    rintro rfl
    cases hmark
  | list _ => exact ⟨'[', _, rfl, by decide⟩

end Value

/-! ### Items, one at a time -/

namespace Document

theorem takeLiteral_congr {cs cs' : List Char} (h : skip cs = skip cs') (fuel : Nat) :
    takeLiteral fuel cs = takeLiteral fuel cs' := by
  cases fuel with
  | zero => rfl
  | succ fuel => rw [takeLiteral, takeLiteral, h]

theorem takeItems_congr {cs cs' : List Char} (h : skip cs = skip cs') (fuel : Nat) :
    takeItems fuel cs = takeItems fuel cs' := by
  cases fuel with
  | zero => rfl
  | succ fuel => rw [takeItems, takeItems, skipMark?, skipMark?, h, takeLiteral_congr h]

theorem takeItems_item {v : Value} (hv : v.IsWritten) (fuel : Nat) (cs : List Char) :
    takeItems (fuel + 1) (v.chars ++ cs) =
      (takeLiteral fuel (v.chars ++ cs)).bind fun (item, rest) =>
        (takeItems fuel rest).map fun (items, after) => (item :: items, after) := by
  obtain ⟨c, more, hchars, hblank, hcomment, hc⟩ := hv.exists_chars
  have hmark : skipMark? ']' (v.chars ++ cs) = none := by
    rw [skipMark?, hchars, List.cons_append, Sdl.skip_of_not_isBlank hblank hcomment,
      Option.eq_none_iff_forall_ne_some]
    intro rest hrest
    exact hc (List.cons.inj (Text.skipMark?_eq_some_iff.1 hrest)).1
  rw [takeItems, hmark]
  cases takeLiteral fuel (v.chars ++ cs) with
  | none => rfl
  | some read =>
    obtain ⟨item, rest⟩ := read
    show (takeItems fuel rest).bind _ = (takeItems fuel rest).map _
    cases takeItems fuel rest <;> rfl

/-! ### Leaves -/

theorem takeLiteral_null (fuel : Nat) (cs : List Char) :
    takeLiteral (fuel + 1) ("null".toList ++ cs) = some (.null, cs) := rfl

theorem takeLiteral_boolean (b : Bool) (fuel : Nat) (cs : List Char) :
    takeLiteral (fuel + 1) ((Value.boolean b).chars ++ cs) = some (.boolean b, cs) := by
  cases b <;> rfl

theorem takeLiteral_string (text : List Char) (fuel : Nat) {cs : List Char} (hcs : IsBoundary cs) :
    takeLiteral (fuel + 1) (Text.quoted text ++ cs) =
      some (.string (String.ofList (text.map Text.reread)), cs) := by
  show (takeString (Text.quoted text ++ cs)).map _ = _
  rw [takeString_quoted text hcs]
  rfl

theorem takeWord_of_not_isNameStart {c : Char} (h : isNameStart c = false) (cs : List Char) :
    takeWord (c :: cs) = none := by
  have hfirst : ∀ word ∈ literalWords, ∃ w more, word.toList = w :: more ∧ isNameStart w := by
    refine List.forall_mem_cons.2 ⟨⟨_, _, rfl, rfl⟩, List.forall_mem_cons.2 ⟨⟨_, _, rfl, rfl⟩,
      List.forall_mem_singleton.2 ⟨_, _, rfl, rfl⟩⟩⟩
  have hskip (word : String) (hmem : word ∈ literalWords) :
      Text.skipWord? word.toList (c :: cs) = none := by
    obtain ⟨w, more, hword, hw⟩ := hfirst word hmem
    rw [hword, Text.skipWord?, if_neg]
    rintro rfl
    rw [h] at hw
    cases hw
  rw [takeWord, hskip "true" (.head _), hskip "false" (.tail _ (.head _)),
    hskip "null" (.tail _ (.tail _ (.head _))), takeNameHere, if_neg (by simp [h])]
  rfl

theorem takeLiteral_number {n : Number} (hn : n.isFinite) (fuel : Nat) {cs : List Char}
    (hcs : IsBoundary cs) :
    takeLiteral (fuel + 1) (n.chars ++ cs) = n.parts.toNumber?.map fun m => (.number m, cs) := by
  have hread := takeNumber_chars hn hcs
  have hstart := Number.startsNumber_chars hn
  obtain ⟨c, more, hchars, -⟩ := Number.exists_chars hn
  rw [hchars] at hstart
  obtain ⟨hblank, hcomment, hquote, hmark, hname⟩ := Sdl.startsNumber_facts hstart
  rw [hchars, List.cons_append] at hread ⊢
  rw [takeLiteral_plain ⟨hblank, hcomment, hquote, hmark⟩, hread]
  cases n.parts.toNumber? with
  | some m => rfl
  | none =>
    rw [takeWord_of_not_isNameStart hname]
    rfl

theorem takeLiteral_name {name : String} (hname : isName name.toList) (fuel : Nat)
    (cs : List Char) :
    takeLiteral (fuel + 1) (name.toList ++ cs) = takeWord (name.toList ++ cs) := by
  obtain ⟨c, more, hchars, hc⟩ := Sdl.exists_cons_of_isName hname
  rw [hchars, List.cons_append, takeLiteral_plain (Sdl.isNameStart_facts hc),
    takeNumber_of_isNameStart hc]

end Document

namespace Value

/-- Whether a value is read back from its text, before any text that does not go on with it. -/
def IsReadBack (v : Value) : Prop :=
  ∀ {fuel : Nat} {cs : List Char}, v.chars.length < fuel → IsBoundary cs →
    takeLiteral fuel (v.chars ++ cs) = some (v.literal, cs)

/-- Items that are read back are read one after the other. -/
theorem takeItems_append {before : List Value} {fuel : Nat}
    (h : ∀ item ∈ before, item.IsWritten ∧ item.IsReadBack ∧ item.chars.length < fuel)
    (rest : List Value) (cs : List Char) :
    takeItems (before.length + fuel) (itemsChars (before ++ rest) cs) =
      (takeItems fuel (itemsChars rest cs)).map fun (items, after) =>
        (before.map literal ++ items, after) := by
  induction before with
  | nil =>
    rw [List.length_nil, Nat.zero_add]
    exact Option.map_id'.symm
  | cons v before ih =>
    obtain ⟨hwritten, hread, hfuel⟩ := h v (.head _)
    obtain ⟨tail, htext, hboundary, hskip⟩ := exists_itemsChars_cons v (before ++ rest) cs
    have hlength : (v :: before).length + fuel = before.length + fuel + 1 := by
      rw [List.length_cons]
      omega
    rw [List.cons_append, htext, hlength, takeItems_item hwritten,
      hread (Nat.lt_of_lt_of_le hfuel (Nat.le_add_left _ _)) hboundary, Option.bind_some]
    dsimp only
    rw [takeItems_congr hskip, ih fun item hitem => h item (.tail _ hitem), Option.map_map]
    rfl

/-! ### Texts that are read back -/

theorem takeLiteral_list (items : List Value) (fuel : Nat) (cs : List Char) :
    takeLiteral (fuel + 1) ((list items).chars ++ cs) =
      (takeItems fuel (itemsChars items cs)).map fun (items, after) => (.list items, after) := by
  have hchars : (list items).chars ++ cs = '[' :: itemsChars items cs := by
    simp [chars, itemsChars]
  rw [hchars]
  rfl

/-- The fuel for a list suffices for each of its items. -/
theorem exists_fuel {items : List Value} {fuel : Nat} (h : (list items).chars.length < fuel + 1) :
    ∃ rest, fuel = items.length + (rest + 1) ∧ ∀ item ∈ items, item.chars.length < rest + 1 := by
  have hchars : (list items).chars.length = (separated (itemTexts items)).length + 2 := by
    simp [chars]
  have hitem (item : Value) (hitem : item ∈ items) := length_add_length_le hitem
  have hitems : items.length < fuel := by
    cases items with
    | nil =>
      rw [List.length_nil]
      omega
    | cons item items =>
      have hlength := hitem item (.head _)
      omega
  refine ⟨fuel - items.length - 1, by omega, fun item hmem => ?_⟩
  have hlength := hitem item hmem
  omega

theorem isReadBack_of_leaf {v : Value} (h : ∀ fuel cs, IsBoundary cs →
    takeLiteral (fuel + 1) (v.chars ++ cs) = some (v.literal, cs)) : v.IsReadBack := by
  intro fuel cs hfuel hcs
  obtain ⟨fuel, rfl⟩ := Nat.exists_eq_succ_of_ne_zero (Nat.ne_of_gt (Nat.zero_lt_of_lt hfuel))
  exact h fuel cs hcs

theorem KeepsText.isReadBack {v : Value} (h : v.KeepsText) : v.IsReadBack := by
  induction h with
  | null => exact isReadBack_of_leaf fun fuel cs _ => by exact takeLiteral_null fuel cs
  | boolean b => exact isReadBack_of_leaf fun fuel cs _ => takeLiteral_boolean b fuel cs
  | number hfinite hsame =>
    refine isReadBack_of_leaf fun fuel cs hcs => ?_
    rw [chars, takeLiteral_number hfinite fuel hcs, hsame]
    rfl
  | string h =>
    refine isReadBack_of_leaf fun fuel cs hcs => ?_
    rw [chars, takeLiteral_string _ fuel hcs, Text.map_reread_eq_self_iff.2 h,
      String.ofList_toList, literal]
  | enum hname hword =>
    refine isReadBack_of_leaf fun fuel cs hcs => ?_
    rw [chars, takeLiteral_name hname, takeWord_name hname hword hcs]
    rfl
  | list h ih =>
    intro fuel cs hfuel hcs
    obtain ⟨fuel, rfl⟩ := Nat.exists_eq_succ_of_ne_zero (Nat.ne_of_gt (Nat.zero_lt_of_lt hfuel))
    obtain ⟨rest, rfl, hlength⟩ := exists_fuel hfuel
    have hitems := takeItems_append
      (fun item hitem => ⟨(h item hitem).isWritten, ih item hitem, hlength item hitem⟩) [] cs
    have hend : takeItems (rest + 1) (itemsChars [] cs) = some ([], cs) := rfl
    rw [List.append_nil, hend] at hitems
    rw [takeLiteral_list, hitems, literal, literals_eq_map]
    simp

theorem exists_first_of_not_keepsText {items : List Value} (h : ¬ (Value.list items).KeepsText) :
    ∃ before item after, items = before ++ item :: after ∧ (∀ b ∈ before, b.KeepsText) ∧
      ¬ item.KeepsText := by
  classical
  cases hfind : items.find? fun item => ¬ item.KeepsText with
  | none =>
    refine absurd (.list fun item hitem => ?_) h
    simpa using List.find?_eq_none.1 hfind item hitem
  | some item =>
    obtain ⟨hitem, before, after, rfl, hbefore⟩ := List.find?_eq_some_iff_append.1 hfind
    exact ⟨before, item, after, rfl, by simpa using hbefore, by simpa using hitem⟩

/-- Items that are read back are followed by the next item, which is read with the fuel that is
left. -/
theorem exists_takeLiteral_item {before after : List Value} {item : Value}
    (hbefore : ∀ b ∈ before, b.KeepsText) (hitem : item.IsWritten) {fuel : Nat}
    (hfuel : (list (before ++ item :: after)).chars.length < fuel + 1) {cs rest : List Char}
    {l : Literal}
    (hread : takeLiteral (fuel + 1) ((list (before ++ item :: after)).chars ++ cs) =
      some (l, rest)) :
    ∃ spare tail first next more, item.chars.length < spare + 1 ∧ IsBoundary tail ∧
      takeLiteral (spare + 1) (item.chars ++ tail) = some (first, next) ∧
        l = .list (before.map literal ++ first :: more) := by
  obtain ⟨spare, hspare, hlength⟩ := exists_fuel hfuel
  obtain ⟨tail, htext, hboundary, -⟩ := exists_itemsChars_cons item after cs
  have hfuel' : fuel = before.length + (after.length + spare + 1 + 1) := by
    rw [hspare, List.length_append, List.length_cons]
    omega
  have hshort : ∀ b ∈ before, b.IsWritten ∧ b.IsReadBack ∧
      b.chars.length < after.length + spare + 1 + 1 := by
    intro b hb
    have hb' := hlength b (List.mem_append_left _ hb)
    exact ⟨(hbefore b hb).isWritten, (hbefore b hb).isReadBack, by omega⟩
  rw [takeLiteral_list, hfuel', takeItems_append hshort, htext, takeItems_item hitem] at hread
  obtain ⟨⟨ls, end₁⟩, hls, hl⟩ := Option.map_eq_some_iff.1 hread
  obtain ⟨rfl, rfl⟩ := Prod.mk.inj hl
  obtain ⟨⟨later, end₂⟩, hlater, hls⟩ := Option.map_eq_some_iff.1 hls
  obtain ⟨rfl, rfl⟩ := Prod.mk.inj hls
  obtain ⟨⟨first, next⟩, hfirst, hlater⟩ := Option.bind_eq_some_iff.1 hlater
  obtain ⟨⟨more, end₃⟩, -, hlater⟩ := Option.map_eq_some_iff.1 hlater
  obtain ⟨rfl, rfl⟩ := Prod.mk.inj hlater
  have hlength := hlength item (List.mem_append_right _ (.head _))
  exact ⟨_, tail, first, next, more, by omega, hboundary, hfirst, rfl⟩

theorem strays_number {n : Number} (hkeeps : ¬ (number n).KeepsText) {fuel : Nat}
    {cs rest : List Char} {l : Literal} {given : String → Option Value} {w : Value}
    (hcs : IsBoundary cs) (hread : takeLiteral (fuel + 1) ((number n).chars ++ cs) = some (l, rest))
    (hw : l.eval? given = some w) : (number n).Strays w := by
  rw [chars] at hread
  by_cases hn : n.isFinite
  · rw [takeLiteral_number hn fuel hcs] at hread
    obtain ⟨m, hm, heq⟩ := Option.map_eq_some_iff.1 hread
    obtain ⟨rfl, rfl⟩ := Prod.mk.inj heq
    obtain rfl := Option.some.inj hw
    refine .number ?_
    rintro rfl
    exact hkeeps (.number hn hm)
  · rw [Number.chars_of_not_isFinite hn, takeLiteral_null] at hread
    obtain ⟨rfl, rfl⟩ := Prod.mk.inj (Option.some.inj hread)
    obtain rfl := Option.some.inj hw
    exact .infinite n

theorem strays_enum {name : String} (hname : isName name.toList) (hkeeps : ¬ (enum name).KeepsText)
    {fuel : Nat} {cs rest : List Char} {l : Literal} {given : String → Option Value} {w : Value}
    (hread : takeLiteral (fuel + 1) ((enum name).chars ++ cs) = some (l, rest))
    (hw : l.eval? given = some w) : (enum name).Strays w := by
  obtain ⟨word, hmem, hword⟩ : ∃ word ∈ literalWords, word.toList <+: name.toList := by
    by_contra hnone
    exact hkeeps (.enum hname fun word hmem hword => hnone ⟨word, hmem, hword⟩)
  obtain ⟨l', rest', htake, hl⟩ := exists_takeWord hmem hword cs
  rw [chars, takeLiteral_name hname, htake] at hread
  obtain ⟨rfl, rfl⟩ := Prod.mk.inj (Option.some.inj hread)
  rcases hl with rfl | ⟨b, rfl⟩
  · obtain rfl := Option.some.inj hw
    exact .nothing name
  · obtain rfl := Option.some.inj hw
    exact .truth name b

/-- What is read where a value is not read back differs from it. -/
theorem IsWritten.strays {v : Value} (hv : v.IsWritten) (hkeeps : ¬ v.KeepsText) {fuel : Nat}
    {cs rest : List Char} {l : Literal} {given : String → Option Value} {w : Value}
    (hfuel : v.chars.length < fuel) (hcs : IsBoundary cs)
    (hread : takeLiteral fuel (v.chars ++ cs) = some (l, rest)) (hw : l.eval? given = some w) :
    v.Strays w := by
  obtain ⟨fuel, rfl⟩ := Nat.exists_eq_succ_of_ne_zero (Nat.ne_of_gt (Nat.zero_lt_of_lt hfuel))
  induction hv generalizing fuel cs rest l w with
  | null => exact absurd .null hkeeps
  | boolean b => exact absurd (.boolean b) hkeeps
  | number n => exact strays_number hkeeps hcs hread hw
  | string s =>
    rw [chars, takeLiteral_string _ fuel hcs] at hread
    obtain ⟨rfl, rfl⟩ := Prod.mk.inj (Option.some.inj hread)
    obtain rfl := Option.some.inj hw
    refine .string fun hsame => hkeeps (.string (Text.map_reread_eq_self_iff.1 ?_))
    rw [← String.toList_inj, String.toList_ofList] at hsame
    exact hsame
  | enum hname => exact strays_enum hname hkeeps hread hw
  | list h ih =>
    obtain ⟨before, item, after, rfl, hbefore, hitem⟩ := exists_first_of_not_keepsText hkeeps
    have hmem : item ∈ before ++ item :: after := List.mem_append_right _ (.head _)
    obtain ⟨spare, tail, first, next, more, hspare, hboundary, hfirst, rfl⟩ :=
      exists_takeLiteral_item hbefore (h item hmem) hfuel hread
    obtain ⟨w', after', hw', rfl⟩ := exists_of_eval?_list
      (fun b hb => (hbefore b hb).isWritten.eval?_literal given) hw
    exact .list before after after' (ih item hmem hitem hboundary hw' spare hspare hfirst)

/-! ### Constants -/

theorem length_lt_fuelFor (v : Value) (cs : List Char) :
    v.chars.length < fuelFor (v.chars ++ cs) := by
  rw [fuelFor, List.length_append]
  omega

theorem KeepsText.takeConstant_text {v : Value} (h : v.KeepsText) {cs : List Char}
    (hcs : IsBoundary cs) : takeConstant (v.text.toList ++ cs) = some (v, cs) := by
  rw [text, String.toList_ofList, takeConstant, h.isReadBack (length_lt_fuelFor v cs) hcs]
  show (v.literal.eval? fun _ => none).bind _ = _
  rw [h.isWritten.eval?_literal]
  rfl

theorem IsWritten.strays_of_takeConstant {v : Value} (hv : v.IsWritten) (hkeeps : ¬ v.KeepsText)
    {cs rest : List Char} {w : Value} (hcs : IsBoundary cs)
    (h : takeConstant (v.text.toList ++ cs) = some (w, rest)) : v.Strays w := by
  rw [text, String.toList_ofList, takeConstant] at h
  obtain ⟨⟨l, rest'⟩, hread, h⟩ := Option.bind_eq_some_iff.1 h
  obtain ⟨w', hw, h⟩ := Option.bind_eq_some_iff.1 h
  obtain ⟨rfl, rfl⟩ := Prod.mk.inj (Option.some.inj h)
  exact hv.strays hkeeps (length_lt_fuelFor v cs) hcs hread hw

end Value

end Gazette
