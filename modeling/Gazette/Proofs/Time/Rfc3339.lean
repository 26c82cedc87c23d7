import Gazette.Proofs.Number.Spelling
import Gazette.Proofs.Time.Calendar
import Gazette.Proofs.Time.Timestamp

/-!
# Dates read back from their text

The text of a date is read as the same date, in all years and with any fraction of a second
(`Rfc3339.ofText?_text`), and so is the text of the same date on a clock that is some minutes ahead
of universal time or behind it (`Rfc3339.ofText?_textAt`).  Exceptions are the leap seconds that are
not the last second of a minute: the text of one is that of the second after it
(`Instant.written`).

Each part of a text is taken before any text that does not go on with it, then all parts in turn
(`Parts.takeParts_chars`); what a clock shows at an instant are parts that stand for it
(`Parts.instant_ofInstant`).
-/

namespace Gazette

namespace Rfc3339

open Number (digitValue digitOf?)
open Number.Lexeme (natOf)

/-! ## Digits -/

theorem isDigit_of_mem_padded {width n : Nat} {c : Char} (h : c ∈ padded width n) : c.isDigit :=
  Number.isDigit_of_mem_padLeft h

theorem natOf_padded (width n : Nat) : natOf ((padded width n).map digitValue) = n := by
  rw [Number.natOf_map_digitValue, padded, Number.ofDigitChars_padLeft]

theorem length_padded {width n : Nat} (hwidth : 0 < width) (h : n < 10 ^ width) :
    (padded width n).length = width :=
  Number.length_padLeft hwidth h

theorem exists_padded (width n : Nat) : ∃ d ds, padded width n = d :: ds ∧ d.isDigit := by
  have hne : padded width n ≠ [] := by
    rw [padded, Text.padLeft]
    exact List.append_ne_nil_of_right_ne_nil _ (Number.digits_ne_nil n)
  obtain ⟨d, ds, h⟩ := List.exists_cons_of_ne_nil hne
  have hmem : d ∈ padded width n := h ▸ List.mem_cons_self
  exact ⟨d, ds, h, isDigit_of_mem_padded hmem⟩

theorem padded_append_ne {c : Char} (hc : ¬ c.isDigit) {width n : Nat} {cs rest : List Char} :
    padded width n ++ cs ≠ c :: rest := by
  obtain ⟨d, ds, h, hd⟩ := exists_padded width n
  rw [h, List.cons_append]
  intro heq
  exact hc ((List.cons.inj heq).1 ▸ hd)

theorem isWhiteSpace_of_isDigit {c : Char} (h : c.isDigit) : Text.isWhiteSpace c = false := by
  simp only [Char.isDigit, Bool.and_eq_true, decide_eq_true_eq] at h
  obtain ⟨hlow, hhigh⟩ : 48 ≤ c.toNat ∧ c.toNat ≤ 57 := h
  simp only [Text.isWhiteSpace, Bool.or_eq_false_iff, Bool.and_eq_false_iff,
    decide_eq_false_iff_not]
  omega

theorem trimStart_cons {c : Char} (h : Text.isWhiteSpace c = false) (cs : List Char) :
    Text.trimStart (c :: cs) = c :: cs := by
  rw [Text.trimStart, List.dropWhile_cons, h]
  rfl

theorem trimStart_padded (width n : Nat) (cs : List Char) :
    Text.trimStart (padded width n ++ cs) = padded width n ++ cs := by
  obtain ⟨d, ds, h, hd⟩ := exists_padded width n
  rw [h, List.cons_append, trimStart_cons (isWhiteSpace_of_isDigit hd)]

theorem takeUpTo_append {ds : List Char} (hds : ∀ c ∈ ds, c.isDigit) (cs : List Char) :
    takeUpTo ds.length (ds ++ cs) = (ds.map digitValue, cs) := by
  induction ds with
  | nil => rfl
  | cons d ds ih =>
    rw [List.length_cons, List.cons_append, takeUpTo,
      Number.digitOf?_of_isDigit (hds d (.head _)), ih fun c hc => hds c (.tail _ hc)]
    rfl

theorem takeNumber_padded {width n : Nat} (hwidth : 0 < width) (h : n < 10 ^ width)
    (cs : List Char) : takeNumber width (padded width n ++ cs) = some (n, cs) := by
  have htake : takeUpTo width (padded width n ++ cs) = ((padded width n).map digitValue, cs) := by
    have hdigits : ∀ c ∈ padded width n, c.isDigit := fun _ => isDigit_of_mem_padded
    rw [← takeUpTo_append hdigits cs, length_padded hwidth h]
  obtain ⟨d, ds, hcons, -⟩ := exists_padded width n
  have hvalue := natOf_padded width n
  rw [hcons] at htake hvalue
  rw [takeNumber, trimStart_padded, hcons, htake]
  exact congrArg (fun n => some (n, cs)) hvalue

/-- All digits of a padded number are taken, if no other digit follows them. -/
theorem takeDigits_padded (width n : Nat) {cs : List Char}
    (hcs : ∀ c ∈ cs.head?, digitOf? c = none) :
    ∃ d ds, Number.takeDigits (padded width n ++ cs) = (d :: ds, cs) ∧
      d :: ds = (padded width n).map digitValue := by
  obtain ⟨d, ds, h, -⟩ := exists_padded width n
  rw [Number.takeDigits_append (fun _ => isDigit_of_mem_padded) hcs, h]
  exact ⟨_, _, rfl, rfl⟩

theorem takeYear_yearChars (year : Int) (cs : List Char) :
    takeYear (yearChars year ++ '-' :: cs) = some (year, '-' :: cs) := by
  have hmark : ∀ c ∈ ('-' :: cs).head?, digitOf? c = none := by
    intro c hc
    obtain rfl := Option.some.inj hc
    decide
  rw [yearChars]
  split
  case isTrue hfour =>
    have hnumber : takeNumber 4 (padded 4 year.toNat ++ '-' :: cs) =
        some (year.toNat, '-' :: cs) := takeNumber_padded (by decide) (by omega) _
    rw [takeYear, trimStart_padded]
    split
    · rename_i rest heq
      exact absurd heq (padded_append_ne (by decide))
    · rename_i rest heq
      exact absurd heq (padded_append_ne (by decide))
    · rw [hnumber]
      exact congrArg (fun n => some (n, '-' :: cs)) (Int.toNat_of_nonneg hfour.1)
  case isFalse hsigned =>
    obtain ⟨d, ds, htake, hds⟩ := takeDigits_padded 4 year.natAbs hmark
    have hvalue : (natOf (d :: ds) : Int) = year.natAbs := by
      rw [hds, natOf_padded]
    split
    case isTrue hnegative =>
      rw [List.cons_append, takeYear, trimStart_cons (by decide)]
      simp only [htake, hvalue]
      rw [Int.ofNat_natAbs_of_nonpos (by omega), Int.neg_neg]
    case isFalse hpositive =>
      rw [List.cons_append, takeYear, trimStart_cons (by decide)]
      simp only [htake, hvalue]
      rw [Int.natAbs_of_nonneg (by omega)]

/-! ## Fractions -/

/-- Digits of a fraction with the zeros that they leave out. -/
theorem nanosOf_padded {width n : Nat} (hwidth : 0 < width) (hnine : width ≤ 9)
    (h : n < 10 ^ width) :
    nanosOf ((padded width n).map digitValue) = n * 10 ^ (9 - width) := by
  have hlength : ((padded width n).map digitValue).length = width := by
    rw [List.length_map, length_padded hwidth h]
  have hzeros (k : Nat) : List.replicate k 0 = (List.replicate k '0').map digitValue := by
    rw [List.map_replicate]
    rfl
  rw [nanosOf, List.take_of_length_le (by omega), hlength, hzeros, ← List.map_append,
    Number.natOf_map_digitValue, Nat.ofDigitChars_append, Nat.ofDigitChars_replicate_zero,
    ← Number.natOf_map_digitValue, natOf_padded, Nat.mul_comm]

theorem takeNanos_padded {width n : Nat} (hwidth : 0 < width) (hnine : width ≤ 9)
    (h : n < 10 ^ width) {cs : List Char} (hcs : Number.IsEnd cs) :
    takeNanos ('.' :: padded width n ++ cs) = some (n * 10 ^ (9 - width), cs) := by
  obtain ⟨d, ds, htake, hds⟩ := takeDigits_padded width n fun c hc => (hcs c hc).1
  rw [List.cons_append, takeNanos]
  simp only [htake]
  rw [hds, nanosOf_padded hwidth hnine h]

theorem takeNanos_fractionChars {nanos : Nat} (h : nanos < Instant.nanosPerSecond)
    {cs : List Char} (hcs : Number.IsEnd cs) :
    takeNanos (fractionChars nanos ++ cs) = some (nanos, cs) := by
  rw [Instant.nanosPerSecond] at h
  rw [fractionChars]
  split
  case isTrue hzero =>
    rw [hzero, List.nil_append, takeNanos]
    intro rest hrest
    exact (hcs '.' (hrest ▸ rfl)).2.1 rfl
  case isFalse =>
    split
    case isTrue hthree =>
      rw [takeNanos_padded (by decide) (by decide) (by omega) hcs]
      exact congrArg (fun n => some (n, cs)) (by omega)
    case isFalse =>
      split
      case isTrue hsix =>
        rw [takeNanos_padded (by decide) (by decide) (by omega) hcs]
        exact congrArg (fun n => some (n, cs)) (by omega)
      case isFalse =>
        rw [takeNanos_padded (by decide) (by decide) (by omega) hcs]
        exact congrArg (fun n => some (n, cs)) (by omega)

/-! ## Parts -/

/-- The text of a date and a time of day, without the offset. -/
def Parts.chars (p : Parts) : List Char :=
  yearChars p.date.year ++ '-' :: padded 2 p.date.month ++ '-' :: padded 2 p.date.day ++
    'T' :: padded 2 p.hour ++ ':' :: padded 2 p.minute ++ ':' :: padded 2 p.second ++
    fractionChars p.nanos

/-- What a clock that is `offset` seconds ahead of universal time shows at an instant. -/
def Parts.ofInstant (offset : Int) (t : Instant) : Parts :=
  let second := ((t.seconds + offset).fmod secondsPerDay).toNat
  let leap := if t.isLeap then 1 else 0
  { date := Date.ofDays ((t.seconds + offset).fdiv secondsPerDay)
    hour := second / 3600
    minute := second / 60 % 60
    second := second % 60 + leap
    nanos := t.nanos - leap * Instant.nanosPerSecond
    offset := offset }

theorem chars_eq (t : Instant) : chars t = (Parts.ofInstant 0 t).chars ++ ['Z'] := by
  simp only [chars, Parts.chars, Parts.ofInstant, Int.add_zero]

theorem skipMark?_cons {c : Char} (h : Text.isWhiteSpace c = false) (cs : List Char) :
    skipMark? c (c :: cs) = some cs := by
  rw [skipMark?, trimStart_cons h, Text.skipMark?_eq_some_iff]

theorem takePair_padded {n : Nat} (h : n < 100) (cs : List Char) :
    takePair (padded 2 n ++ cs) = some (n / 10, n % 10, cs) := by
  have hall : ∀ n < 100, (padded 2 n).map digitOf? = [some (n / 10), some (n % 10)] := by decide
  have hdigits := hall n h
  obtain ⟨a, ds, hds, ha, hrest⟩ := List.map_eq_cons_iff.1 hdigits
  obtain ⟨b, ds, rfl, hb, hnil⟩ := List.map_eq_cons_iff.1 hrest
  obtain rfl := List.map_eq_nil_iff.1 hnil
  rw [hds, List.cons_append, List.cons_append, takePair, ha, hb]
  rfl

theorem Parts.chars_append (p : Parts) (mark : List Char) :
    p.chars ++ mark = yearChars p.date.year ++ '-' :: (padded 2 p.date.month ++
      '-' :: (padded 2 p.date.day ++ 'T' :: (padded 2 p.hour ++ ':' :: (padded 2 p.minute ++
        ':' :: (padded 2 p.second ++ (fractionChars p.nanos ++ mark)))))) := by
  simp only [Parts.chars, List.append_assoc, List.cons_append]

theorem Parts.takeParts_chars {p : Parts} (hp : p.isValid)
    (hnanos : p.nanos < Instant.nanosPerSecond) {mark : List Char} (hend : Number.IsEnd mark)
    (hmark : takeOffset (Text.trimStart mark) = some (p.offset, [])) :
    takeParts (p.chars ++ mark) = some (p, []) := by
  simp only [Parts.isValid, Date.isValid, Bool.and_eq_true, decide_eq_true_eq] at hp
  obtain ⟨⟨⟨⟨⟨⟨⟨⟨⟨-, hmonth⟩, -⟩, hday⟩, -⟩, -⟩, hhour⟩, hminute⟩, hsecond⟩, -⟩ := hp
  have hdays : Date.daysInMonth p.date.year p.date.month ≤ 31 := by
    rw [Date.daysInMonth]
    split
    · split <;> decide
    · split <;> decide
  have htwo {n : Nat} (h : n < 100) (cs : List Char) :
      takeNumber 2 (padded 2 n ++ cs) = some (n, cs) := takeNumber_padded (by decide) h cs
  have hdash (cs : List Char) : skipMark? '-' ('-' :: cs) = some cs :=
    skipMark?_cons (by decide) cs
  have hcolon (cs : List Char) : skipMark? ':' (':' :: cs) = some cs :=
    skipMark?_cons (by decide) cs
  -- Each part is taken before the text of those that follow.
  rw [chars_append, takeParts]
  refine Option.bind_eq_some_iff.2 ⟨_, takeYear_yearChars .., ?_⟩
  refine Option.bind_eq_some_iff.2 ⟨_, hdash _, ?_⟩
  refine Option.bind_eq_some_iff.2 ⟨_, htwo (by omega) _, ?_⟩
  refine Option.bind_eq_some_iff.2 ⟨_, hdash _, ?_⟩
  refine Option.bind_eq_some_iff.2 ⟨_, htwo (by omega) _, ?_⟩
  dsimp only
  rw [if_pos (.inl rfl)]
  refine Option.bind_eq_some_iff.2 ⟨_, rfl, ?_⟩
  refine Option.bind_eq_some_iff.2 ⟨_, htwo (by omega) _, ?_⟩
  refine Option.bind_eq_some_iff.2 ⟨_, hcolon _, ?_⟩
  refine Option.bind_eq_some_iff.2 ⟨_, htwo (by omega) _, ?_⟩
  refine Option.bind_eq_some_iff.2 ⟨_, hcolon _, ?_⟩
  refine Option.bind_eq_some_iff.2 ⟨_, htwo (by omega) _, ?_⟩
  refine Option.bind_eq_some_iff.2 ⟨_, takeNanos_fractionChars hnanos hend, ?_⟩
  exact Option.bind_eq_some_iff.2 ⟨_, hmark, rfl⟩

/-- Parts that are in range read back as the instant that they stand for. -/
theorem Parts.ofChars?_chars {p : Parts} (hp : p.isValid)
    (hnanos : p.nanos < Instant.nanosPerSecond) (hrange : isInRange p.instant)
    {mark : List Char} (hend : Number.IsEnd mark)
    (hmark : takeOffset (Text.trimStart mark) = some (p.offset, [])) :
    ofChars? (p.chars ++ mark) = some p.instant := by
  have hguard : ((Text.trimStart []).isEmpty && p.isValid && isInRange p.instant) = true := by
    rw [hp, hrange]
    rfl
  refine Option.bind_eq_some_iff.2 ⟨_, takeParts_chars hp hnanos hend hmark, ?_⟩
  refine Option.bind_eq_some_iff.2 ⟨(), ?_, rfl⟩
  exact if_pos hguard

/-! ## Offsets -/

/-- The characters of an offset in minutes. -/
def offsetChars (minutes : Int) : List Char :=
  (if minutes < 0 then '-' else '+') :: padded 2 (minutes.natAbs / 60) ++
    ':' :: padded 2 (minutes.natAbs % 60)

theorem isEnd_offsetChars (minutes : Int) : Number.IsEnd (offsetChars minutes) := by
  rw [offsetChars, List.cons_append]
  refine Number.isEnd_cons ?_ _
  split <;> decide

theorem hours_padded {minutes : Nat} (h : minutes < 6000) :
    takeOffset.hours (padded 2 (minutes / 60) ++ ':' :: padded 2 (minutes % 60)) =
      some (((minutes * 60 : Nat) : Int), []) := by
  have hminutes := takePair_padded (n := minutes % 60) (by omega) []
  rw [List.append_nil] at hminutes
  obtain ⟨d, ds, hcons, hd⟩ := exists_padded 2 (minutes % 60)
  have hcolon : d ≠ ':' := by
    rintro rfl
    exact absurd hd (by decide)
  have hdrop : (':' :: padded 2 (minutes % 60)).dropWhile
      (fun c => c = ':' || Text.isWhiteSpace c) = padded 2 (minutes % 60) := by
    simp [hcons, hcolon, isWhiteSpace_of_isDigit hd]
  rw [takeOffset.hours, takePair_padded (by omega)]
  simp only [Option.bind_eq_bind, Option.bind_some, hdrop, hminutes]
  rw [if_pos (by omega)]
  exact congrArg (fun n : Nat => some ((n : Int), ([] : List Char))) (by omega)

theorem takeOffset_sign {c : Char} (hc : c ≠ 'U' ∧ c ≠ 'u') (cs : List Char) :
    takeOffset (c :: cs) = takeOffset.signed (c :: cs) := by
  rw [takeOffset.eq_def]
  split
  · rename_i heq
    obtain ⟨rfl, -⟩ := List.cons.inj heq
    rw [if_neg]
    rintro ⟨h | h, -⟩
    · exact hc.1 h
    · exact hc.2 h
  · rfl

theorem takeOffset_offsetChars {minutes : Int} (h : minutes.natAbs < 6000) :
    takeOffset (Text.trimStart (offsetChars minutes)) = some (60 * minutes, []) := by
  have hhours := hours_padded h
  rw [offsetChars]
  split
  case isTrue hnegative =>
    have hvalue : -((minutes.natAbs * 60 : Nat) : Int) = 60 * minutes := by omega
    rw [List.cons_append, trimStart_cons (by decide), takeOffset_sign (by decide), ← hvalue]
    simp [takeOffset.signed, hhours]
  case isFalse hpositive =>
    have hvalue : ((minutes.natAbs * 60 : Nat) : Int) = 60 * minutes := by omega
    rw [List.cons_append, trimStart_cons (by decide), takeOffset_sign (by decide), ← hvalue]
    simp [takeOffset.signed, hhours]

end Rfc3339

/-! ## Instants -/

/-- The instant that the text of `t` stands for: a leap second that is not the last second of a
minute is written as the second after it. -/
def Instant.written (t : Instant) : Instant :=
  if t.isLeap && t.seconds % 60 ≠ 59 then ⟨t.seconds + 1, t.nanos - nanosPerSecond⟩ else t

theorem Instant.written_of_last {t : Instant} (h : t.isLeap → t.seconds % 60 = 59) :
    t.written = t := by
  by_cases hleap : t.isLeap
  · simp [written, h hleap]
  · simp [written, hleap]

theorem Instant.written_of_not_last {t : Instant} (h : t.isLeap) (hlast : t.seconds % 60 ≠ 59) :
    t.written = ⟨t.seconds + 1, t.nanos - nanosPerSecond⟩ := by
  simp [written, h, hlast]

namespace Rfc3339

variable {t : Instant} {offset : Int}

/-- A count of seconds is a day and a second of it. -/
theorem exists_day (seconds : Int) : ∃ (day : Int) (second : Nat), second < 86400 ∧
    seconds = day * 86400 + second ∧ seconds.fdiv secondsPerDay = day ∧
      (seconds.fmod secondsPerDay).toNat = second := by
  refine ⟨_, _, ?_, ?_, rfl, rfl⟩
  · rw [Int.fmod_eq_emod_of_nonneg _ (by decide), secondsPerDay]
    omega
  · rw [Int.fmod_eq_emod_of_nonneg _ (by decide), Int.fdiv_eq_ediv_of_nonneg _ (by decide),
      secondsPerDay]
    omega

theorem Parts.instant_ofInstant (hoffset : offset % 60 = 0) :
    (Parts.ofInstant offset t).instant = t.written := by
  obtain ⟨day, second, hlt, hseconds, hday, hsecond⟩ := exists_day (t.seconds + offset)
  have hmod : t.seconds % 60 = ((second % 60 : Nat) : Int) := by omega
  simp only [Parts.instant, Parts.ofInstant, hday, hsecond, Date.toDays_ofDays]
  rw [Instant.written, secondsPerDay, hmod]
  by_cases hleap : t.isLeap
  case neg =>
    simp only [hleap, Bool.false_eq_true, if_false, Bool.false_and, Nat.zero_mul, Nat.sub_zero,
      Nat.add_zero]
    rw [if_neg (by omega), if_neg (by omega)]
    exact congrArg (fun s => Instant.mk s t.nanos) (by omega)
  case pos =>
    have hnanos : Instant.nanosPerSecond ≤ t.nanos := of_decide_eq_true hleap
    simp only [hleap, if_true, Bool.true_and, Nat.one_mul]
    by_cases hlast : second % 60 = 59
    case pos =>
      rw [if_pos (by omega), if_pos (by omega), if_neg (by simp [hlast]),
        Nat.add_sub_cancel' hnanos]
      exact congrArg (fun s => Instant.mk s t.nanos) (by omega)
    case neg =>
      rw [if_neg (by omega), if_neg (by omega), if_pos (decide_eq_true (by omega))]
      exact congrArg (fun s => Instant.mk s (t.nanos - Instant.nanosPerSecond)) (by omega)

theorem isInRange_written (h : isInRange t) : isInRange t.written := by
  rw [Instant.written]
  split
  case isFalse => exact h
  case isTrue hwritten =>
    have hlast : t.seconds % 60 ≠ 59 := by
      simpa using (Bool.and_eq_true_iff.1 hwritten).2
    have hday : (t.seconds + 1).fdiv secondsPerDay = t.seconds.fdiv secondsPerDay := by
      rw [Int.fdiv_eq_ediv_of_nonneg _ (by decide), Int.fdiv_eq_ediv_of_nonneg _ (by decide),
        secondsPerDay]
      omega
    simpa only [isInRange, hday] using h

theorem Parts.isValid_ofInstant (hrange : isInRange ⟨t.seconds + offset, t.nanos⟩)
    (hoffset : offset.natAbs < secondsPerDay) : (Parts.ofInstant offset t).isValid := by
  obtain ⟨day, second, hlt, hseconds, hday, hsecond⟩ := exists_day (t.seconds + offset)
  have hleap : (if t.isLeap then 1 else 0) ≤ 1 := by split <;> decide
  have hyear : minYear ≤ (Date.ofDays day).year ∧ (Date.ofDays day).year ≤ maxYear := by
    simpa [isInRange, hday] using hrange
  simp only [Parts.isValid, Parts.ofInstant, hday, hsecond, Date.isValid_ofDays, Bool.true_and,
    Bool.and_eq_true, decide_eq_true_eq]
  exact ⟨⟨⟨⟨hyear, by omega⟩, by omega⟩, by omega⟩, hoffset⟩

theorem Parts.nanos_ofInstant (h : t.nanos < 2 * Instant.nanosPerSecond) :
    (Parts.ofInstant offset t).nanos < Instant.nanosPerSecond := by
  simp only [Parts.ofInstant, Instant.isLeap, decide_eq_true_eq]
  split <;> omega

/-! ## Texts -/

/-- What a clock shows, with the mark of its offset, reads back as the instant written. -/
theorem ofChars?_ofInstant (h : t.IsDate) (hminute : offset % 60 = 0)
    (hoffset : offset.natAbs < secondsPerDay)
    (hlocal : isInRange ⟨t.seconds + offset, t.nanos⟩) {mark : List Char}
    (hend : Number.IsEnd mark) (hmark : takeOffset (Text.trimStart mark) = some (offset, [])) :
    ofChars? ((Parts.ofInstant offset t).chars ++ mark) = some t.written := by
  have hinstant := Parts.instant_ofInstant (t := t) hminute
  have hrange : isInRange (Parts.ofInstant offset t).instant := by
    rw [hinstant]
    exact isInRange_written h.inRange
  rw [← hinstant]
  exact Parts.ofChars?_chars (Parts.isValid_ofInstant hlocal hoffset)
    (Parts.nanos_ofInstant h.nanos_lt) hrange hend hmark

theorem ofText?_text (h : t.IsDate) : ofText? (text t) = some t.written := by
  have hlocal : isInRange ⟨t.seconds + 0, t.nanos⟩ := by
    rw [Int.add_zero]
    exact h.inRange
  have hend : Number.IsEnd ['Z'] := Number.isEnd_cons (by decide) _
  rw [ofText?, text, String.toList_ofList, chars_eq]
  exact ofChars?_ofInstant h rfl (by decide) hlocal hend rfl

/-- The text of an instant on a clock that is some minutes ahead of universal time. -/
def textAt (minutes : Int) (t : Instant) : String :=
  String.ofList ((Parts.ofInstant (60 * minutes) t).chars ++ offsetChars minutes)

theorem ofText?_textAt {minutes : Int} (h : t.IsDate) (hminutes : minutes.natAbs < 1440)
    (hlocal : isInRange ⟨t.seconds + 60 * minutes, t.nanos⟩) :
    ofText? (textAt minutes t) = some t.written := by
  have hoffset : (60 * minutes).natAbs < secondsPerDay := by
    rw [secondsPerDay]
    omega
  rw [ofText?, textAt, String.toList_ofList]
  exact ofChars?_ofInstant h (by omega) hoffset hlocal (isEnd_offsetChars minutes)
    (takeOffset_offsetChars (by omega))

example : textAt (-480) ⟨851042397, 500000000⟩ = "1996-12-19T16:39:57.500-08:00" := by
  decide +kernel

end Rfc3339

end Gazette
