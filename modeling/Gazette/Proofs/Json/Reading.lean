import Gazette.Json.Reader
import Gazette.Proofs.Number.Text

/-!
# Texts of JSON values

The reader takes back what the printer writes.  A string is read as itself (`takeString_escaped`);
a number is read as what its text stands for (`Number.reread?`), which for a double need not be the
same double.  From these, `Json.reread?` tells what a whole value is read as, and `ofText?_text`
shows that this is what the reader gives, for every value: a text cannot be read if a number in it
is too large or arrays and objects are nested too deep, and else it can.
-/

namespace Gazette

/-! ## What is read -/

/-- The value that the text of a number is read as. -/
def Number.reread? (n : Number) : Option Json :=
  if n.isFinite then n.parts.toNumber?.map .number else some .null

namespace Json

mutual

/-- The value that the text of a value is read as, where `depth` more arrays and objects may be
entered; none if it cannot be read. -/
def reread? : (depth : Nat) → Json → Option Json
  | _, null => some null
  | _, boolean b => some (boolean b)
  | _, number n => n.reread?
  | _, string s => some (string s)
  | 0, array _ => none
  | depth + 1, array items => (rereadItems? depth items).map array
  | 0, object _ => none
  | depth + 1, object members => (rereadMembers? depth members).map object

/-- What the items of an array are read as. -/
def rereadItems? : (depth : Nat) → List Json → Option (List Json)
  | _, [] => some []
  | depth, v :: rest => do
    let v ← reread? depth v
    return v :: (← rereadItems? depth rest)

/-- What the members of an object are read as. -/
def rereadMembers? : (depth : Nat) → List (String × Json) → Option (List (String × Json))
  | _, [] => some []
  | depth, (name, v) :: rest => do
    let v ← reread? depth v
    return (name, v) :: (← rereadMembers? depth rest)

end

mutual

/-- What can be read is read as the same value where it may be nested deeper. -/
theorem reread?_mono {d d' : Nat} (hd : d ≤ d') {v w : Json} (h : reread? d v = some w) :
    reread? d' v = some w := by
  cases v with
  | null => exact h
  | boolean b => exact h
  | number n => exact h
  | string s => exact h
  | array items =>
    cases d with
    | zero => cases h
    | succ d =>
      obtain ⟨e, rfl⟩ : ∃ e, d' = e + 1 := ⟨d' - 1, by omega⟩
      obtain ⟨items', hitems, rfl⟩ := Option.map_eq_some_iff.1 h
      exact Option.map_eq_some_iff.2
        ⟨items', rereadItems?_mono (Nat.le_of_succ_le_succ hd) hitems, rfl⟩
  | object members =>
    cases d with
    | zero => cases h
    | succ d =>
      obtain ⟨e, rfl⟩ : ∃ e, d' = e + 1 := ⟨d' - 1, by omega⟩
      obtain ⟨members', hmembers, rfl⟩ := Option.map_eq_some_iff.1 h
      exact Option.map_eq_some_iff.2
        ⟨members', rereadMembers?_mono (Nat.le_of_succ_le_succ hd) hmembers, rfl⟩

theorem rereadItems?_mono {d d' : Nat} (hd : d ≤ d') {items items' : List Json}
    (h : rereadItems? d items = some items') : rereadItems? d' items = some items' := by
  cases items with
  | nil => exact h
  | cons v rest =>
    obtain ⟨v', hv, h⟩ := Option.bind_eq_some_iff.1 h
    obtain ⟨rest', hrest, h⟩ := Option.bind_eq_some_iff.1 h
    rw [rereadItems?, reread?_mono hd hv, Option.bind_eq_bind, Option.bind_some,
      rereadItems?_mono hd hrest]
    exact h

theorem rereadMembers?_mono {d d' : Nat} (hd : d ≤ d') {members members' : List (String × Json)}
    (h : rereadMembers? d members = some members') :
    rereadMembers? d' members = some members' := by
  cases members with
  | nil => exact h
  | cons member rest =>
    obtain ⟨name, v⟩ := member
    obtain ⟨v', hv, h⟩ := Option.bind_eq_some_iff.1 h
    obtain ⟨rest', hrest, h⟩ := Option.bind_eq_some_iff.1 h
    rw [rereadMembers?, reread?_mono hd hv, Option.bind_eq_bind, Option.bind_some,
      rereadMembers?_mono hd hrest]
    exact h

end

/-! ## Strings -/

theorem hexCode?_hexDigit {n : Nat} (h : n < 32) :
    hexCode? '0' '0' (hexDigit (n / 16)) (hexDigit (n % 16)) = some n := by
  have hall : ∀ n < 32, hexCode? '0' '0' (hexDigit (n / 16)) (hexDigit (n % 16)) = some n := by
    decide
  exact hall n h

/-- A character is read as its code, whether it is escaped or not. -/
theorem takeCodes_escape (c : Char) (cs : List Char) :
    takeCodes (escape c ++ cs) =
      (takeCodes cs).map fun (codes, after) => (c.toNat :: codes, after) := by
  have hbind : ((takeCodes cs).bind fun (codes, after) => some (c.toNat :: codes, after)) =
      (takeCodes cs).map fun (codes, after) => (c.toNat :: codes, after) := by
    cases takeCodes cs <;> rfl
  unfold escape
  split
  -- the characters that are escaped by a letter, and then all others
  iterate 7 exact hbind
  rename_i hquote hbackslash _ _ _ _ _
  rw [← hbind]
  split
  case isTrue hcontrol =>
    simp only [List.cons_append, List.nil_append, takeCodes, hexCode?_hexDigit hcontrol]
    rfl
  case isFalse hcontrol =>
    rw [List.singleton_append, takeCodes]
    · rw [if_neg (not_or.2 ⟨hcontrol, hbackslash⟩)]
      rfl
    all_goals simp_all

theorem takeCodes_escaped (text cs : List Char) :
    takeCodes (text.flatMap escape ++ '"' :: cs) = some (text.map Char.toNat, cs) := by
  induction text with
  | nil => rfl
  | cons c text ih =>
    rw [List.flatMap_cons, List.append_assoc, takeCodes_escape, ih]
    rfl

/-- No character is half of a pair. -/
theorem ofCodes?_map_toNat (text : List Char) : ofCodes? (text.map Char.toNat) = some text := by
  induction text with
  | nil => rfl
  | cons c text ih =>
    have hvalid : c.toNat < 0xD800 ∨ 0xDFFF < c.toNat ∧ c.toNat < 0x110000 := c.valid
    have hlow : isLowHalf c.toNat = false := by
      simp only [isLowHalf, Bool.and_eq_false_iff, decide_eq_false_iff_not]
      omega
    have hhigh : isHighHalf c.toNat = false := by
      simp only [isHighHalf, Bool.and_eq_false_iff, decide_eq_false_iff_not]
      omega
    rw [List.map_cons]
    unfold ofCodes?
    rw [hlow, hhigh, ih]
    simp

theorem toList_quoted (s : String) :
    (quoted s).toList = '"' :: (s.toList.flatMap escape ++ ['"']) := by
  simp [quoted]

/-- A quoted string is read as itself. -/
theorem takeString_escaped (s : String) (cs : List Char) :
    takeString (s.toList.flatMap escape ++ '"' :: cs) = some (s, cs) := by
  simp [takeString, takeCodes_escaped, ofCodes?_map_toNat]

/-! ## Numbers -/

theorem skipBlanks_of_not_isBlank {c : Char} (h : isBlank c = false) (cs : List Char) :
    skipBlanks (c :: cs) = c :: cs :=
  List.dropWhile_cons_of_neg (by simp [h])

/-- The first character of a number is none with which another value starts. -/
theorem firstChar_facts {c : Char} (h : c = '-' ∨ c.isDigit) :
    isBlank c = false ∧ c ∉ ['n', 't', 'f', '"', '[', '\x7b', ']'] := by
  rcases h with rfl | h
  · decide
  · have hrange : 48 ≤ c.toNat ∧ c.toNat ≤ 57 := by
      rwa [Char.isDigit, Bool.and_eq_true, decide_eq_true_eq, decide_eq_true_eq] at h
    have hall : ∀ n < 58, 48 ≤ n → isBlank (Char.ofNat n) = false ∧
        Char.ofNat n ∉ ['n', 't', 'f', '"', '[', '\x7b', ']'] := by decide
    rw [← Char.ofNat_toNat c]
    exact hall _ (Nat.lt_succ_of_le hrange.2) hrange.1

theorem takeValue_number {n : Number} (hn : n.isFinite) {rest : List Char}
    (hrest : Number.IsEnd rest) (fuel depth : Nat) :
    takeValue (fuel + 1) depth (n.chars ++ rest) =
      (n.parts.toNumber?.map number).map (·, rest) := by
  obtain ⟨c, cs, hchars, hc⟩ := Number.exists_chars hn
  obtain ⟨hblank, hother⟩ := firstChar_facts hc
  have hread := Number.takeLexeme_chars hn hrest
  rw [hchars, List.cons_append] at hread ⊢
  rw [takeValue, skipBlanks_of_not_isBlank hblank]
  split
  case h_7 =>
    rw [hread]
    cases hnumber : n.parts.toNumber? <;> simp [hnumber]
  all_goals
    rename_i heq
    obtain ⟨rfl, -⟩ := List.cons.inj heq
    exact absurd hother (by decide)

/-! ## Values -/

/-- Texts with commas between them. -/
def joined (texts : List String) : List Char := [','].intercalate (texts.map String.toList)

theorem joined_singleton (s : String) : joined [s] = s.toList := by
  simp [joined]

theorem joined_cons_cons (s t : String) (texts : List String) :
    joined (s :: t :: texts) = s.toList ++ ',' :: joined (t :: texts) := by
  simp [joined, List.intercalate_cons_cons]

theorem exists_joined_cons (s : String) (texts : List String) :
    ∃ more, joined (s :: texts) = s.toList ++ more := by
  cases texts with
  | nil => exact ⟨[], by simp [joined]⟩
  | cons t texts => exact ⟨_, joined_cons_cons s t texts⟩

/-- What stands between two brackets is shorter than what fuel is left for after the first. -/
theorem length_joined_lt {o c : Char} {texts : List String} {fuel : Nat}
    (h : (o :: (joined texts ++ [c])).length ≤ fuel + 1) : (joined texts).length < fuel := by
  rw [List.length_cons, List.length_append] at h
  exact Nat.lt_of_succ_le (Nat.le_of_succ_le_succ h)

theorem toList_text_array (items : List Json) :
    (array items).text.toList = '[' :: (joined (itemTexts items) ++ [']']) := by
  simp [text, joined, String.toList_intercalate]

theorem toList_text_object (members : List (String × Json)) :
    (object members).text.toList = '\x7b' :: (joined (memberTexts members) ++ ['\x7d']) := by
  simp [text, joined, String.toList_intercalate]

theorem exists_text (v : Json) :
    ∃ c cs, v.text.toList = c :: cs ∧ isBlank c = false ∧ c ≠ ']' := by
  cases v with
  | null => exact ⟨'n', _, rfl, by decide⟩
  | boolean b =>
    cases b with
    | true => exact ⟨'t', _, rfl, by decide⟩
    | false => exact ⟨'f', _, rfl, by decide⟩
  | number n =>
    rw [text, Number.text, String.toList_ofList]
    by_cases hn : n.isFinite
    · obtain ⟨c, cs, hchars, hc⟩ := Number.exists_chars hn
      obtain ⟨hblank, hother⟩ := firstChar_facts hc
      refine ⟨c, cs, hchars, hblank, ?_⟩
      rintro rfl
      exact absurd hother (by decide)
    · rw [Number.chars_of_not_isFinite hn]
      exact ⟨'n', _, rfl, by decide⟩
  | string s => exact ⟨'"', _, toList_quoted s, by decide⟩
  | array items => exact ⟨'[', _, toList_text_array items, by decide⟩
  | object members => exact ⟨'\x7b', _, toList_text_object members, by decide⟩

theorem takeValue_array {cs : List Char}
    (h : ∃ c more, cs = c :: more ∧ isBlank c = false ∧ c ≠ ']') (fuel depth : Nat) :
    takeValue (fuel + 1) (depth + 1) ('[' :: cs) =
      (takeItems fuel depth cs).map fun (items, after) => (array items, after) := by
  obtain ⟨c, more, rfl, hblank, hc⟩ := h
  rw [takeValue, skipBlanks_of_not_isBlank (c := '[') rfl]
  split
  case h_5 heq =>
    obtain ⟨-, rfl⟩ := List.cons.inj heq
    dsimp only
    rw [skipBlanks_of_not_isBlank hblank]
    split
    · rename_i heq
      exact absurd (List.cons.inj heq).1 hc
    · rfl
  case h_7 hbracket _ => exact absurd rfl (hbracket (c :: more))
  all_goals
    rename_i heq
    exact absurd (List.cons.inj heq).1 (by decide)

theorem takeValue_object {cs : List Char} (h : ∃ more, cs = '"' :: more) (fuel depth : Nat) :
    takeValue (fuel + 1) (depth + 1) ('\x7b' :: cs) =
      (takeMembers fuel depth cs).map fun (members, after) => (object members, after) := by
  obtain ⟨more, rfl⟩ := h
  rfl

/-! ### Items and members, one at a time -/

section

variable {fuel depth : Nat} {item : Json} {cs rest : List Char}

theorem takeItems_of_none (h : takeValue fuel depth cs = none) :
    takeItems (fuel + 1) depth cs = none := by
  rw [takeItems, h]
  rfl

theorem takeItems_last (h : takeValue fuel depth cs = some (item, ']' :: rest)) :
    takeItems (fuel + 1) depth cs = some ([item], rest) := by
  rw [takeItems, h]
  rfl

theorem takeItems_more (h : takeValue fuel depth cs = some (item, ',' :: rest)) :
    takeItems (fuel + 1) depth cs =
      (takeItems fuel depth rest).bind fun (items, after) => some (item :: items, after) := by
  rw [takeItems, h]
  rfl

/-- The text of a member and what comes after it. -/
def memberChars (name : String) (cs : List Char) : List Char :=
  '"' :: (name.toList.flatMap escape ++ '"' :: ':' :: cs)

/-- The name of a member is read, and then its value. -/
theorem takeMembers_memberChars (name : String) (fuel depth : Nat) (cs : List Char) :
    takeMembers (fuel + 1) depth (memberChars name cs) =
      (takeValue fuel depth cs).bind fun (item, rest) =>
        match skipBlanks rest with
        | ',' :: rest => (takeMembers fuel depth rest).bind fun (members, after) =>
          some ((name, item) :: members, after)
        | '\x7d' :: after => some ([(name, item)], after)
        | _ => none := by
  show (takeString (name.toList.flatMap escape ++ '"' :: ':' :: cs)).bind _ = _
  rw [takeString_escaped]
  rfl

theorem toList_member_append (name : String) (v : Json) (cs : List Char) :
    (quoted name ++ ":" ++ v.text).toList ++ cs = memberChars name (v.text.toList ++ cs) := by
  simp [toList_quoted, memberChars]

theorem length_text_lt_member (name : String) (v : Json) :
    v.text.toList.length < (quoted name ++ ":" ++ v.text).toList.length := by
  rw [← List.append_nil (quoted name ++ ":" ++ v.text).toList, toList_member_append, memberChars,
    List.append_nil, List.length_cons, List.length_append, List.length_cons, List.length_cons]
  omega

/-- Neither a blank nor a bracket stands before an item. -/
theorem exists_joined_itemTexts (item : Json) (items : List Json) (cs : List Char) :
    ∃ c more, joined (itemTexts (item :: items)) ++ cs = c :: more ∧ isBlank c = false ∧
      c ≠ ']' := by
  obtain ⟨c, first, hfirst, hc⟩ := exists_text item
  obtain ⟨more, hmore⟩ := exists_joined_cons item.text (itemTexts items)
  exact ⟨c, first ++ more ++ cs, by simp [itemTexts, hmore, hfirst], hc⟩

theorem exists_joined_memberTexts (name : String) (item : Json) (members : List (String × Json))
    (cs : List Char) : ∃ more, joined (memberTexts ((name, item) :: members)) ++ cs =
      '"' :: more := by
  obtain ⟨more, hmore⟩ :=
    exists_joined_cons (quoted name ++ ":" ++ item.text) (memberTexts members)
  rw [memberTexts, hmore, List.append_assoc, toList_member_append]
  exact ⟨_, rfl⟩

variable (name : String)

theorem takeMembers_of_none (h : takeValue fuel depth cs = none) :
    takeMembers (fuel + 1) depth (memberChars name cs) = none := by
  rw [takeMembers_memberChars, h]
  rfl

theorem takeMembers_last (h : takeValue fuel depth cs = some (item, '\x7d' :: rest)) :
    takeMembers (fuel + 1) depth (memberChars name cs) = some ([(name, item)], rest) := by
  rw [takeMembers_memberChars, h]
  rfl

theorem takeMembers_more (h : takeValue fuel depth cs = some (item, ',' :: rest)) :
    takeMembers (fuel + 1) depth (memberChars name cs) =
      (takeMembers fuel depth rest).bind fun (members, after) =>
        some ((name, item) :: members, after) := by
  rw [takeMembers_memberChars, h]
  rfl

end

mutual

/-- The text of a value is read up to its end.  A unit of fuel for each character suffices, since
between any two calls a bracket, a quote or a comma is read. -/
theorem takeValue_text (v : Json) (depth : Nat) {fuel : Nat} {rest : List Char}
    (hfuel : v.text.toList.length ≤ fuel) (hrest : Number.IsEnd rest) :
    takeValue fuel depth (v.text.toList ++ rest) = (v.reread? depth).map (·, rest) := by
  -- Every text has a first character, so there is fuel for it.
  obtain ⟨c, cs, hcs, -⟩ := exists_text v
  obtain ⟨fuel, rfl⟩ : ∃ n, fuel = n + 1 :=
    Nat.exists_eq_succ_of_ne_zero (by rw [hcs, List.length_cons] at hfuel; omega)
  cases v with
  | null => rfl
  | boolean b => cases b <;> rfl
  | number n =>
    rw [text, Number.text, String.toList_ofList, reread?, Number.reread?]
    split
    · rename_i hn
      exact takeValue_number hn hrest fuel depth
    · rename_i hn
      rw [Number.chars_of_not_isFinite hn]
      rfl
  | string s =>
    rw [text, toList_quoted, List.cons_append, List.append_assoc]
    show (takeString (s.toList.flatMap escape ++ '"' :: rest)).map _ = _
    rw [takeString_escaped]
    rfl
  | array items =>
    rw [toList_text_array] at hfuel ⊢
    have hlength := length_joined_lt hfuel
    cases depth with
    | zero => rfl
    | succ depth =>
      cases items with
      | nil => rfl
      | cons item items =>
        have hitems := takeItems_text (item :: items) (List.cons_ne_nil _ _) depth rest hlength
        rw [List.cons_append, List.append_assoc, List.singleton_append,
          takeValue_array (exists_joined_itemTexts item items _), hitems, reread?]
        cases rereadItems? depth (item :: items) <;> rfl
  | object members =>
    rw [toList_text_object] at hfuel ⊢
    have hlength := length_joined_lt hfuel
    cases depth with
    | zero => rfl
    | succ depth =>
      cases members with
      | nil => rfl
      | cons member members =>
        obtain ⟨name, item⟩ := member
        have hmembers :=
          takeMembers_text ((name, item) :: members) (List.cons_ne_nil _ _) depth rest hlength
        rw [List.cons_append, List.append_assoc, List.singleton_append,
          takeValue_object (exists_joined_memberTexts name item members _), hmembers, reread?]
        cases rereadMembers? depth ((name, item) :: members) <;> rfl

theorem takeItems_text (items : List Json) (hitems : items ≠ []) (depth : Nat)
    (rest : List Char) {fuel : Nat} (hfuel : (joined (itemTexts items)).length < fuel) :
    takeItems fuel depth (joined (itemTexts items) ++ ']' :: rest) =
      (rereadItems? depth items).map (·, rest) := by
  obtain ⟨fuel, rfl⟩ := Nat.exists_eq_succ_of_ne_zero (Nat.ne_of_gt (Nat.zero_lt_of_lt hfuel))
  cases items with
  | nil => exact absurd rfl hitems
  | cons v items =>
    cases items with
    | nil =>
      rw [itemTexts, itemTexts, joined_singleton] at hfuel ⊢
      have hv := takeValue_text v depth (Nat.le_of_lt_succ hfuel)
        (Number.isEnd_cons (c := ']') (by decide) rest)
      rw [rereadItems?]
      cases hread : v.reread? depth with
      | none =>
        rw [hread] at hv
        rw [takeItems_of_none hv]
        rfl
      | some v' =>
        rw [hread] at hv
        rw [takeItems_last hv]
        rfl
    | cons w items =>
      have htexts : itemTexts (w :: items) = w.text :: itemTexts items := rfl
      rw [itemTexts, htexts, joined_cons_cons, ← htexts] at hfuel ⊢
      rw [List.length_append, List.length_cons] at hfuel
      have hv := takeValue_text v depth
        (Nat.le_of_lt_succ (Nat.lt_of_add_right_lt hfuel))
        (Number.isEnd_cons (c := ',') (by decide) (joined (itemTexts (w :: items)) ++ ']' :: rest))
      have hrest := takeItems_text (w :: items) (List.cons_ne_nil _ _) depth rest
        (Nat.lt_of_add_left_lt (Nat.lt_of_succ_lt_succ hfuel))
      rw [List.append_assoc, List.cons_append, rereadItems?]
      cases hread : v.reread? depth with
      | none =>
        rw [hread] at hv
        rw [takeItems_of_none hv]
        rfl
      | some v' =>
        rw [hread] at hv
        rw [takeItems_more hv, hrest]
        cases rereadItems? depth (w :: items) <;> rfl

theorem takeMembers_text (members : List (String × Json)) (hmembers : members ≠ []) (depth : Nat)
    (rest : List Char) {fuel : Nat} (hfuel : (joined (memberTexts members)).length < fuel) :
    takeMembers fuel depth (joined (memberTexts members) ++ '\x7d' :: rest) =
      (rereadMembers? depth members).map (·, rest) := by
  obtain ⟨fuel, rfl⟩ := Nat.exists_eq_succ_of_ne_zero (Nat.ne_of_gt (Nat.zero_lt_of_lt hfuel))
  cases members with
  | nil => exact absurd rfl hmembers
  | cons member members =>
    obtain ⟨name, v⟩ := member
    cases members with
    | nil =>
      rw [memberTexts, memberTexts, joined_singleton] at hfuel ⊢
      have hlength := (length_text_lt_member name v).trans hfuel
      have hv := takeValue_text v depth (Nat.le_of_lt_succ hlength)
        (Number.isEnd_cons (c := '\x7d') (by decide) rest)
      rw [toList_member_append, rereadMembers?]
      cases hread : v.reread? depth with
      | none =>
        rw [hread] at hv
        rw [takeMembers_of_none name hv]
        rfl
      | some v' =>
        rw [hread] at hv
        rw [takeMembers_last name hv]
        rfl
    | cons other members =>
      have htexts : memberTexts (other :: members) =
        (quoted other.1 ++ ":" ++ other.2.text) :: memberTexts members := rfl
      rw [memberTexts, htexts, joined_cons_cons, ← htexts] at hfuel ⊢
      rw [List.length_append, List.length_cons] at hfuel
      have hlength := (length_text_lt_member name v).trans (Nat.lt_of_add_right_lt hfuel)
      have hv := takeValue_text v depth (Nat.le_of_lt_succ hlength)
        (Number.isEnd_cons (c := ',') (by decide)
          (joined (memberTexts (other :: members)) ++ '\x7d' :: rest))
      have hrest := takeMembers_text (other :: members) (List.cons_ne_nil _ _) depth rest
        (Nat.lt_of_add_left_lt (Nat.lt_of_succ_lt_succ hfuel))
      rw [List.append_assoc, List.cons_append, toList_member_append, rereadMembers?]
      cases hread : v.reread? depth with
      | none =>
        rw [hread] at hv
        rw [takeMembers_of_none name hv]
        rfl
      | some v' =>
        rw [hread] at hv
        rw [takeMembers_more name hv, hrest]
        cases rereadMembers? depth (other :: members) <;> rfl

end

/-- What the reader makes of the text of a value, be it readable or not. -/
theorem ofText?_text (v : Json) : ofText? v.text = v.reread? maxNesting := by
  have hfuel : v.text.toList.length ≤ 2 * v.text.toList.length + 2 := by omega
  have hv := takeValue_text v maxNesting hfuel (fun _ => nofun : Number.IsEnd [])
  rw [List.append_nil] at hv
  rw [ofText?, ofChars?, hv]
  cases v.reread? maxNesting <;> rfl

end Json

end Gazette
