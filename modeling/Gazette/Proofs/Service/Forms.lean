import Gazette.Service.Form
import Gazette.Proofs.Lists

/-!
# Forms in query strings

There are many ways to write a form as a query string: a character may stand for itself or be given
by the percent codes of its bytes, in digits of either case, and a blank may be a plus sign.
`Form.Writes` is the relation between a form and the query strings that write it, and `pairs_eq`
shows that each of these is read as the form, for names and values of any characters.
-/

namespace Gazette.Form

/-! ## Bytes of characters -/

theorem decode_of_ascii {n : Nat} (h : n < 128) (rest : List UInt8) :
    decode (UInt8.ofNat n :: rest) = Char.ofNat n :: decode rest := by
  have hbyte : (UInt8.ofNat n).toNat = n :=
    UInt8.toNat_ofNat_of_lt' (Nat.lt_trans h (by decide))
  rw [decode, hbyte, if_pos h]

theorem follow_cons {b : UInt8} {code lo hi more found count : Nat} {rest : List UInt8}
    (hb : lo ≤ b.toNat ∧ b.toNat ≤ hi)
    (h : follow (64 * code + (b.toNat - 0x80)) 0x80 0xBF more rest = (some found, count)) :
    follow code lo hi (more + 1) (b :: rest) = (some found, count + 1) := by
  rw [follow, if_pos (by simpa [isIn] using hb), h]

/-- A character of more than one byte, by its first byte and what follows. -/
theorem decode_of_lead {b : UInt8} {lo hi more code count : Nat} {rest : List UInt8}
    (hb : 128 ≤ b.toNat) (hlead : leadByte? b.toNat = some (lo, hi, more))
    (hfollow : follow (leadBits b.toNat more) lo hi more rest = (some code, count)) :
    decode (b :: rest) = Char.ofNat code :: decode (rest.drop count) := by
  rw [decode, if_neg (by omega), hlead]
  dsimp only
  rw [hfollow]

theorem leadByte?_two {x : Nat} (hlow : 2 ≤ x) (hhigh : x < 32) :
    leadByte? (x + 192) = some (0x80, 0xBF, 1) := by
  have hall : ∀ x < 32, 2 ≤ x → leadByte? (x + 192) = some (0x80, 0xBF, 1) := by decide
  exact hall x hhigh hlow

theorem leadByte?_three {x : Nat} (h : x < 16) : leadByte? (x + 224) =
    some (if x = 0 then 0xA0 else 0x80, if x = 13 then 0x9F else 0xBF, 2) := by
  have hall : ∀ x < 16, leadByte? (x + 224) =
      some (if x = 0 then 0xA0 else 0x80, if x = 13 then 0x9F else 0xBF, 2) := by decide
  exact hall x h

theorem leadByte?_four {x : Nat} (h : x < 5) : leadByte? (x + 240) =
    some (if x = 0 then 0x90 else 0x80, if x = 4 then 0x8F else 0xBF, 3) := by
  have hall : ∀ x < 5, leadByte? (x + 240) =
      some (if x = 0 then 0x90 else 0x80, if x = 4 then 0x8F else 0xBF, 3) := by decide
  exact hall x h

section

variable {n : Nat} {b₀ b₁ b₂ b₃ : UInt8}

theorem decode_two (hn : 0x80 ≤ n ∧ n < 0x800) (h₀ : b₀.toNat = n / 64 + 192)
    (h₁ : b₁.toNat = n % 64 + 128) (rest : List UInt8) :
    decode (b₀ :: b₁ :: rest) = Char.ofNat n :: decode rest := by
  have hlead := leadByte?_two (x := n / 64) (by omega) (by omega)
  have hcode : 64 * (b₀.toNat - 0xC0) + (b₁.toNat - 0x80) = n := by omega
  have hfollow : follow (leadBits b₀.toNat 1) 0x80 0xBF 1 (b₁ :: rest) = (some n, 1) :=
    follow_cons (by omega) (by rw [← hcode]; rfl)
  rw [decode_of_lead (by omega) (h₀ ▸ hlead) hfollow]
  rfl

/-- The range of the second byte leaves out what two bytes could say, and the halves of pairs. -/
theorem decode_three (hn : 0x800 ≤ n ∧ n < 0x10000) (hpair : n < 0xD800 ∨ 0xDFFF < n)
    (h₀ : b₀.toNat = n / 4096 + 224) (h₁ : b₁.toNat = n / 64 % 64 + 128)
    (h₂ : b₂.toNat = n % 64 + 128) (rest : List UInt8) :
    decode (b₀ :: b₁ :: b₂ :: rest) = Char.ofNat n :: decode rest := by
  have hlead := leadByte?_three (x := n / 4096) (by omega)
  have hcode : 64 * (64 * (b₀.toNat - 0xE0) + (b₁.toNat - 0x80)) + (b₂.toNat - 0x80) = n := by
    omega
  have hfollow : follow (leadBits b₀.toNat 2) (if n / 4096 = 0 then 0xA0 else 0x80)
      (if n / 4096 = 13 then 0x9F else 0xBF) 2 (b₁ :: b₂ :: rest) = (some n, 2) :=
    follow_cons (by split <;> split <;> omega) (follow_cons (by omega) (by rw [← hcode]; rfl))
  rw [decode_of_lead (by omega) (h₀ ▸ hlead) hfollow]
  rfl

theorem decode_four (hn : 0x10000 ≤ n ∧ n < 0x110000) (h₀ : b₀.toNat = n / 262144 + 240)
    (h₁ : b₁.toNat = n / 4096 % 64 + 128) (h₂ : b₂.toNat = n / 64 % 64 + 128)
    (h₃ : b₃.toNat = n % 64 + 128) (rest : List UInt8) :
    decode (b₀ :: b₁ :: b₂ :: b₃ :: rest) = Char.ofNat n :: decode rest := by
  have hlead := leadByte?_four (x := n / 262144) (by omega)
  have hcode : 64 * (64 * (64 * (b₀.toNat - 0xF0) + (b₁.toNat - 0x80)) + (b₂.toNat - 0x80)) +
      (b₃.toNat - 0x80) = n := by omega
  have hfollow : follow (leadBits b₀.toNat 3) (if n / 262144 = 0 then 0x90 else 0x80)
      (if n / 262144 = 4 then 0x8F else 0xBF) 3 (b₁ :: b₂ :: b₃ :: rest) = (some n, 3) :=
    follow_cons (by split <;> split <;> omega)
      (follow_cons (by omega) (follow_cons (by omega) (by rw [← hcode]; rfl)))
  rw [decode_of_lead (by omega) (h₀ ▸ hlead) hfollow]
  rfl

end

/-- The bytes of a character are read as the character. -/
theorem decode_utf8EncodeChar (c : Char) (rest : List UInt8) :
    decode (String.utf8EncodeChar c ++ rest) = c :: decode rest := by
  have hvalid : c.toNat < 0xD800 ∨ 0xDFFF < c.toNat ∧ c.toNat < 0x110000 := c.valid
  have hc : Char.ofNat c.toNat = c := Char.ofNat_toNat c
  have hbyte : ∀ {m}, m < 256 → (UInt8.ofNat m).toNat = m := UInt8.toNat_ofNat_of_lt'
  unfold String.utf8EncodeChar
  rw [show c.val.toNat = c.toNat from rfl]
  dsimp only
  generalize c.toNat = n at hvalid hc
  split
  · rw [List.singleton_append, decode_of_ascii (n := n) (by omega), hc]
  split
  · rw [List.cons_append, List.singleton_append]
    rw [decode_two (n := n) (by omega) (by rw [hbyte] <;> omega) (hbyte (by omega)), hc]
  split
  · rw [List.cons_append, List.cons_append, List.singleton_append]
    rw [decode_three (n := n) (by omega) (by omega) (by rw [hbyte] <;> omega) (hbyte (by omega))
      (hbyte (by omega)), hc]
  · rw [List.cons_append, List.cons_append, List.cons_append, List.singleton_append]
    rw [decode_four (n := n) (by omega) (by rw [hbyte] <;> omega) (hbyte (by omega))
      (hbyte (by omega)) (hbyte (by omega)), hc]

/-! ## Texts between ampersands and equals signs -/

/-- Whether a character stands for itself in a query string. -/
def isPlain (c : Char) : Bool :=
  c.isAlphanum || "-._~!$'()*,;:@/?".toList.contains c

/-- Whether a text is a percent sign with the two digits of a byte. -/
def IsEscape (b : UInt8) (cs : List Char) : Prop :=
  ∃ x y p q, Json.hexValue? p = some x ∧ Json.hexValue? q = some y ∧ 16 * x + y = b.toNat ∧
    cs = ['%', p, q]

/-- The ways to write a text as a part of a query string. -/
inductive Encodes : List Char → List Char → Prop where
  | nil : Encodes [] []
  | plain {c : Char} {text cs : List Char} : isPlain c → Encodes text cs →
      Encodes (c :: text) (c :: cs)
  | plus {text cs : List Char} : Encodes text cs → Encodes (' ' :: text) ('+' :: cs)
  | escaped {c : Char} {text cs : List Char} {escapes : List (List Char)} :
      List.Forall₂ IsEscape (String.utf8EncodeChar c) escapes → Encodes text cs →
      Encodes (c :: text) (escapes.flatten ++ cs)

theorem unescape_isEscape {b : UInt8} {cs : List Char} (h : IsEscape b cs) (rest : List Char) :
    unescape (cs ++ rest) = b :: unescape rest := by
  obtain ⟨x, y, p, q, hp, hq, hvalue, rfl⟩ := h
  rw [List.cons_append, List.cons_append, List.singleton_append, unescape, hp, hq]
  dsimp only
  rw [hvalue, UInt8.ofNat_toNat]

theorem unescape_escapes {bytes : List UInt8} {escapes : List (List Char)}
    (h : List.Forall₂ IsEscape bytes escapes) (rest : List Char) :
    unescape (escapes.flatten ++ rest) = bytes ++ unescape rest := by
  induction h with
  | nil => rfl
  | cons hb _ ih =>
    rw [List.flatten_cons, List.append_assoc, unescape_isEscape hb, ih, List.cons_append]

theorem unescape_plain {c : Char} (h : isPlain c) (rest : List Char) :
    unescape (c :: rest) = String.utf8EncodeChar c ++ unescape rest := by
  rw [unescape]
  · rintro rfl
    exact absurd h (by decide)
  · rintro _ _ _ rfl -
    exact absurd h (by decide)

/-- What is written is read as the text, in whichever way it is written. -/
theorem decode_unescape {text cs : List Char} (h : Encodes text cs) :
    decode (unescape cs) = text := by
  induction h with
  | nil => rw [unescape, decode]
  | plain hc _ ih => rw [unescape_plain hc, decode_utf8EncodeChar, ih]
  | plus _ ih =>
    rw [unescape]
    exact (decode_utf8EncodeChar ' ' _).trans (by rw [ih])
  | escaped hbytes _ ih => rw [unescape_escapes hbytes, decode_utf8EncodeChar, ih]

/-! ## Pairs -/

/-- Whether a character stands between the parts of a query string or ends it. -/
def isSeparator (c : Char) : Bool := ['&', '=', '#'].contains c

theorem eq_of_isSeparator {c : Char} (h : isSeparator c) : c = '&' ∨ c = '=' ∨ c = '#' := by
  simpa [isSeparator] using h

theorem isSeparator_of_hexValue? {c : Char} {x : Nat} (h : Json.hexValue? c = some x) :
    isSeparator c = false := by
  rw [Bool.eq_false_iff]
  intro hc
  rcases eq_of_isSeparator hc with rfl | rfl | rfl <;> cases h

theorem isSeparator_of_isPlain {c : Char} (h : isPlain c) : isSeparator c = false := by
  rw [Bool.eq_false_iff]
  intro hc
  rcases eq_of_isSeparator hc with rfl | rfl | rfl <;> exact absurd h (by decide)

theorem isSeparator_of_escapes {bytes : List UInt8} {escapes : List (List Char)}
    (h : List.Forall₂ IsEscape bytes escapes) : ∀ c ∈ escapes.flatten, isSeparator c = false := by
  induction h with
  | nil => nofun
  | cons hb _ ih =>
    obtain ⟨x, y, p, q, hp, hq, -, rfl⟩ := hb
    intro c hc
    simp only [List.flatten_cons, List.cons_append, List.nil_append, List.mem_cons] at hc
    rcases hc with rfl | rfl | rfl | hc
    · rfl
    · exact isSeparator_of_hexValue? hp
    · exact isSeparator_of_hexValue? hq
    · exact ih c hc

theorem isSeparator_of_encodes {text cs : List Char} (h : Encodes text cs) :
    ∀ c ∈ cs, isSeparator c = false := by
  induction h with
  | nil => nofun
  | plain hplain _ ih => exact List.forall_mem_cons.2 ⟨isSeparator_of_isPlain hplain, ih⟩
  | plus _ ih => exact List.forall_mem_cons.2 ⟨rfl, ih⟩
  | escaped hbytes _ ih =>
    exact List.forall_mem_append.2 ⟨isSeparator_of_escapes hbytes, ih⟩

/-- Whether a piece of a query string is a way to write a name and its value. -/
def WritesPair (pair : String × String) (piece : List Char) : Prop :=
  ∃ name value, Encodes pair.1.toList name ∧ Encodes pair.2.toList value ∧
    piece = name ++ '=' :: value

/-- Whether a query string is a way to write a form. -/
def Writes (form : List (String × String)) (cs : List Char) : Prop :=
  ∃ pieces, List.Forall₂ WritesPair form pieces ∧ cs = ['&'].intercalate pieces

theorem not_mem_of_writesPair {pair : String × String} {piece : List Char}
    (h : WritesPair pair piece) : '&' ∉ piece ∧ '#' ∉ piece := by
  obtain ⟨name, value, hname, hvalue, rfl⟩ := h
  have hnone : ∀ c, isSeparator c → c ≠ '=' → c ∉ name ++ '=' :: value := by
    intro c hc hne hmem
    rcases List.mem_append.1 hmem with hmem | hmem
    · exact absurd hc (by simp [isSeparator_of_encodes hname c hmem])
    · rcases List.mem_cons.1 hmem with heq | hmem
      · exact hne heq
      · exact absurd hc (by simp [isSeparator_of_encodes hvalue c hmem])
  exact ⟨hnone '&' rfl (by decide), hnone '#' rfl (by decide)⟩

theorem pairOf_eq {pair : String × String} {piece : List Char} (h : WritesPair pair piece) :
    pairOf piece = pair := by
  obtain ⟨name, value, hname, hvalue, rfl⟩ := h
  have hno : ∀ c ∈ name, (c ≠ '=') := by
    rintro _ hc rfl
    exact absurd (isSeparator_of_encodes hname _ hc) (by decide)
  have htake : (name ++ '=' :: value).takeWhile (· ≠ '=') = name := by
    rw [List.takeWhile_append_of_pos (by simpa using hno)]
    simp
  have hdrop : (name ++ '=' :: value).dropWhile (· ≠ '=') = '=' :: value := by
    rw [List.dropWhile_append_of_pos (by simpa using hno)]
    simp
  rw [pairOf, htake, hdrop, List.drop_one, List.tail_cons, decodeText, decodeText,
    decode_unescape hname, decode_unescape hvalue, String.ofList_toList, String.ofList_toList]

/-- A query string is read as the form that it writes. -/
theorem pairs_eq {form : List (String × String)} {cs : List Char} (h : Writes form cs) :
    pairs cs = form := by
  obtain ⟨pieces, hpieces, rfl⟩ := h
  have hread : (pieces.filter fun piece => !piece.isEmpty).map pairOf = form := by
    induction hpieces with
    | nil => rfl
    | cons hpair _ ih =>
      obtain ⟨name, value, -, -, rfl⟩ := id hpair
      rw [List.filter_cons_of_pos (by simp), List.map_cons, pairOf_eq hpair, ih]
  have hmark : ∀ piece ∈ pieces, '&' ∉ piece := by
    intro piece hpiece
    obtain ⟨pair, -, hpair⟩ := exists_of_mem_right hpieces hpiece
    exact (not_mem_of_writesPair hpair).1
  by_cases hne : pieces = []
  · rw [hne] at hread ⊢
    exact hread
  · rw [pairs, Text.pieces_intercalate hne hmark, hread]

theorem not_mem_intercalate {c mark : Char} (hc : c ≠ mark) {texts : List (List Char)}
    (h : ∀ text ∈ texts, c ∉ text) : c ∉ [mark].intercalate texts := by
  induction texts with
  | nil => exact List.not_mem_nil
  | cons text rest ih =>
    cases rest with
    | nil => simpa [List.intercalate] using h
    | cons next rest =>
      have hrest := ih fun t ht => h t (.tail _ ht)
      rw [List.intercalate_cons_cons]
      simp [h text (.head _), hc, hrest]

/-- A query string that writes a form does not end before its last character. -/
theorem not_mem_of_writes {form : List (String × String)} {cs : List Char} (h : Writes form cs) :
    '#' ∉ cs := by
  obtain ⟨pieces, hpieces, rfl⟩ := h
  refine not_mem_intercalate (by decide) fun piece hpiece => ?_
  obtain ⟨pair, -, hpair⟩ := exists_of_mem_right hpieces hpiece
  exact (not_mem_of_writesPair hpair).2

/-! ## A writer -/

/-- The percent code of a byte. -/
def escapeByte (b : UInt8) : List Char :=
  ['%', (Json.hexDigit (b.toNat / 16)).toUpper, (Json.hexDigit (b.toNat % 16)).toUpper]

/-- A text where all but letters and digits are given by their bytes. -/
def encode (text : List Char) : List Char :=
  text.flatMap fun c =>
    if c.isAlphanum then [c] else ((String.utf8EncodeChar c).map escapeByte).flatten

/-- The query string that `encode` makes of a form. -/
def encodePairs (form : List (String × String)) : List Char :=
  ['&'].intercalate (form.map fun (name, value) => encode name.toList ++ '=' :: encode value.toList)

theorem isEscape_escapeByte (b : UInt8) : IsEscape b (escapeByte b) := by
  have hdigit : ∀ n < 16, Json.hexValue? (Json.hexDigit n).toUpper = some n := by decide
  have hb := b.toNat_lt
  exact ⟨b.toNat / 16, b.toNat % 16, _, _, hdigit _ (by omega), hdigit _ (by omega), by omega, rfl⟩

theorem encodes_encode (text : List Char) : Encodes text (encode text) := by
  induction text with
  | nil => exact .nil
  | cons c text ih =>
    rw [encode, List.flatMap_cons]
    split
    · rename_i hc
      exact .plain (by rw [isPlain, hc, Bool.true_or]) ih
    · exact .escaped (List.forall₂_map_right_iff.2
        (List.forall₂_same.2 fun b _ => isEscape_escapeByte b)) ih

/-- Every form can be written. -/
theorem writes_encodePairs (form : List (String × String)) : Writes form (encodePairs form) :=
  ⟨_, List.forall₂_map_right_iff.2 (List.forall₂_same.2 fun _ _ =>
    ⟨_, _, encodes_encode _, encodes_encode _, rfl⟩), rfl⟩

end Gazette.Form
