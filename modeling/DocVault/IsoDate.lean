import DocVault.JsonParse
import Mathlib.Algebra.Group.Nat.Defs

/-!
# Date.parse

The date-time format of the language, in the full form that `toISOString`
writes, and that reading it inverts `toISOString`. The civil calendar is
inverted by way of the day of the year.
-/

namespace DocVault

/-- The days from 1970-01-01. A day past the end of its month counts into the next one. -/
def daysFromCivil (year month day : Int) : Int :=
  let y := if month ≤ 2 then year - 1 else year
  let mp := if month ≤ 2 then month + 9 else month - 3
  let doy := (153 * mp + 2) / 5 + day - 1
  let yoe := y % 400
  y / 400 * 146097 + (365 * yoe + yoe / 4 - yoe / 100 + doy) - 719468

def readNumber (width : Nat) (cs : List Char) : Option (Nat × List Char) :=
  let ds := cs.take width
  if ds.length = width ∧ ds.all Char.isDigit = true then some (Nat.ofDigitChars 10 ds 0, cs.drop width) else none

def expect (c : Char) : List Char → Option (List Char)
  | [] => none
  | d :: cs => if d = c then some cs else none

-- The year 0 has no sign.
def readYear : List Char → Option (Int × List Char)
  | '+' :: cs => (readNumber 6 cs).map fun (year, cs) => ((year : Int), cs)
  | '-' :: cs => do
    let (year, cs) ← readNumber 6 cs
    if year = 0 then none else some (-(year : Int), cs)
  | cs => (readNumber 4 cs).map fun (year, cs) => ((year : Int), cs)

def readDay (cs : List Char) : Option (Int × List Char) := do
  let (year, cs) ← readYear cs
  let cs ← expect '-' cs
  let (month, cs) ← readNumber 2 cs
  let cs ← expect '-' cs
  let (day, cs) ← readNumber 2 cs
  if 1 ≤ month ∧ month ≤ 12 ∧ 1 ≤ day ∧ day ≤ 31 then some (daysFromCivil year month day, cs) else none

def readTime (cs : List Char) : Option (Nat × List Char) := do
  let (hour, cs) ← readNumber 2 cs
  let cs ← expect ':' cs
  let (minute, cs) ← readNumber 2 cs
  let cs ← expect ':' cs
  let (second, cs) ← readNumber 2 cs
  let cs ← expect '.' cs
  let (ms, cs) ← readNumber 3 cs
  if minute ≤ 59 ∧ second ≤ 59 ∧ (hour ≤ 23 ∨ hour = 24 ∧ minute = 0 ∧ second = 0 ∧ ms = 0) then
    some (((hour * 60 + minute) * 60 + second) * 1000 + ms, cs)
  else none

def parseISOString (s : String) : Option Int := do
  let (days, cs) ← readDay s.toList
  let cs ← expect 'T' cs
  let (time, cs) ← readTime cs
  let cs ← expect 'Z' cs
  let ms := days * 86400000 + (time : Int)
  if cs = [] ∧ ms.natAbs ≤ 8640000000000000 then some ms else none

/-! ## The calendar -/

theorem dayOfYear_bounds (doe : Int) {yoe c d e : Int} (h0 : 0 ≤ doe) (h1 : doe < 146097)
    (hc : c = doe / 1460) (hd : d = doe / 36524) (he : e = doe / 146096) (hy : yoe = (doe - c + d - e) / 365) :
    0 ≤ yoe ∧ yoe < 400 ∧ 0 ≤ doe - (365 * yoe + yoe / 4 - yoe / 100) ∧
      doe - (365 * yoe + yoe / 4 - yoe / 100) ≤ 366 := by
  have hcenturies : d = 0 ∨ d = 1 ∨ d = 2 ∨ d = 3 ∨ d = 4 := by omega
  have hleap : c - 1 ≤ yoe / 4 ∧ yoe / 4 ≤ c := by constructor <;> omega
  have hcentury : d - e ≤ yoe / 100 ∧ yoe / 100 ≤ d := by
    rcases hcenturies with h | h | h | h | h <;> constructor <;> omega
  refine ⟨by omega, by omega, by omega, by omega⟩

theorem civil_ranges (days : Int) : 1 ≤ (civil days).2.1 ∧ (civil days).2.1 ≤ 12 ∧ 1 ≤ (civil days).2.2 ∧
    (civil days).2.2 ≤ 31 := by
  obtain ⟨_, _, hlower, hupper⟩ := dayOfYear_bounds ((days + 719468) % 146097) (by omega) (by omega) rfl rfl rfl rfl
  simp only [civil]
  generalize (days + 719468) % 146097 - _ = doy at hlower hupper ⊢
  split <;> omega

/-- The date of a day of a year, which begins in March, and back. -/
theorem daysFromCivil_march (era : Int) {yoe doy mp month : Int} (h0 : 0 ≤ yoe)
    (h400 : yoe < 400) (hlower : 0 ≤ doy)
    (hupper : doy ≤ 366) (hmp : mp = (5 * doy + 2) / 153) (hmonth : month = if mp < 10 then mp + 3 else mp - 9) :
    daysFromCivil (yoe + era * 400 + (if month ≤ 2 then 1 else 0)) month (doy - (153 * mp + 2) / 5 + 1) =
      era * 146097 + (365 * yoe + yoe / 4 - yoe / 100 + doy) - 719468 := by
  unfold daysFromCivil
  by_cases h : mp < 10
  · have hlate : ¬month ≤ 2 := by
      rw [hmonth, if_pos h]
      omega
    have hback : month - 3 = mp := by
      rw [hmonth, if_pos h]
      omega
    have hy : (yoe + era * 400) / 400 = era ∧ (yoe + era * 400) % 400 = yoe := by constructor <;> omega
    simp only [hlate, if_false, hback, Int.add_zero, hy.1, hy.2]
    omega
  · have hearly : month ≤ 2 := by
      rw [hmonth, if_neg h]
      omega
    have hback : month + 9 = mp := by
      rw [hmonth, if_neg h]
      omega
    have hy : (yoe + era * 400 + 1 - 1) / 400 = era ∧
      (yoe + era * 400 + 1 - 1) % 400 = yoe := by constructor <;> omega
    simp only [hearly, if_true, hback, hy.1, hy.2]
    omega

theorem daysFromCivil_civil (days : Int) :
    daysFromCivil (civil days).1 (civil days).2.1 (civil days).2.2 = days := by
  obtain ⟨h0, h400, hlower, hupper⟩ :=
    dayOfYear_bounds ((days + 719468) % 146097) (by omega) (by omega) rfl rfl rfl rfl
  have hback := daysFromCivil_march ((days + 719468) / 146097) h0 h400 hlower hupper rfl rfl
  exact hback.trans (by omega)

theorem civil_year {days : Int} (h : days.natAbs ≤ 100000000) : (civil days).1.natAbs < 1000000 := by
  obtain ⟨h0, h400, _⟩ := dayOfYear_bounds ((days + 719468) % 146097) (by omega) (by omega) rfl rfl rfl rfl
  simp only [civil]
  split <;> omega

/-! ## Numbers of fixed width -/

theorem toList_pad (width n : Nat) : (pad width n).toList =
    List.replicate (width - (Nat.toDigits 10 n).length) '0' ++ Nat.toDigits 10 n := by
  simp [pad, List.leftpad]

theorem readNumber_pad (width : Nat) {n : Nat} (h : n < 10 ^ width) (hw : 0 < width) (rest : List Char) :
    readNumber width ((pad width n).toList ++ rest) = some (n, rest) := by
  have hlen : (Nat.toDigits 10 n).length ≤ width := (Nat.length_toDigits_le_iff (by omega) hw).mpr h
  have hwidth : (pad width n).toList.length = width := by
    rw [toList_pad, List.length_append, List.length_replicate]
    omega
  have hdigits : (pad width n).toList.all Char.isDigit = true := by
    rw [toList_pad, List.all_append, Bool.and_eq_true]
    refine ⟨by simp, List.all_eq_true.mpr (Json.isDigit_toDigits n)⟩
  have hvalue : Nat.ofDigitChars 10 (pad width n).toList 0 = n := by
    rw [toList_pad, Nat.ofDigitChars_append, Nat.ofDigitChars_replicate_zero, Nat.mul_zero,
      Nat.ofDigitChars_ten_toDigits]
  unfold readNumber
  rw [List.take_left' hwidth, List.drop_left' hwidth]
  simp only [hwidth, hdigits, hvalue, and_self, if_true]

theorem pad_head (width n : Nat) : ∃ c cs, (pad width n).toList = c :: cs ∧ c ≠ '+' ∧ c ≠ '-' := by
  have hdigits : ∀ c ∈ (pad width n).toList, c.isDigit = true := by
    intro c hc
    rw [toList_pad, List.mem_append] at hc
    rcases hc with hc | hc
    · rw [(List.mem_replicate.mp hc).2]
      rfl
    · exact Json.isDigit_toDigits n c hc
  cases h : (pad width n).toList with
  | nil =>
    rw [toList_pad, List.append_eq_nil_iff] at h
    exact absurd h.2 Nat.toDigits_ne_nil
  | cons c cs =>
    have hc := hdigits c (h ▸ List.mem_cons_self)
    refine ⟨c, cs, rfl, ?_, ?_⟩
    · rintro rfl; cases hc
    · rintro rfl; cases hc

theorem readYear_show {year : Int} (h : year.natAbs < 1000000) (rest : List Char) :
    readYear ((showYear year).toList ++ rest) = some (year, rest) := by
  unfold showYear
  split
  · rename_i hy
    obtain ⟨c, cs, heq, hplus, hminus⟩ := pad_head 4 year.toNat
    have hread := readNumber_pad 4 (n := year.toNat) (by omega) (by omega) rest
    rw [heq, List.cons_append] at hread ⊢
    rw [readYear.eq_def]
    split
    · rename_i h; exact absurd (List.cons.inj h).1 hplus
    · rename_i h; exact absurd (List.cons.inj h).1 hminus
    · rw [hread]
      simp [Int.toNat_of_nonneg hy.1]
  · rename_i hy
    have hread := readNumber_pad 6 (n := year.natAbs) (by omega) (by omega) rest
    split
    · rename_i hneg
      have htext : ("-" ++ pad 6 year.natAbs).toList ++ rest =
        '-' :: ((pad 6 year.natAbs).toList ++ rest) := by simp
      rw [htext, readYear, hread]
      have hne : year.natAbs ≠ 0 := by omega
      have habs : -(year.natAbs : Int) = year := by omega
      simp only [Option.bind_eq_bind, Option.bind_some, hne, if_false, habs]
    · rename_i hpos
      have htext : ("+" ++ pad 6 year.natAbs).toList ++ rest =
        '+' :: ((pad 6 year.natAbs).toList ++ rest) := by simp
      rw [htext, readYear, hread]
      have habs : (year.natAbs : Int) = year := by omega
      simp only [Option.map_some, habs]

/-! ## The whole text -/

theorem expect_cons (c : Char) (cs : List Char) : expect c (c :: cs) = some cs := if_pos rfl

theorem readDay_civil {days : Int} (h : days.natAbs ≤ 100000000) (rest : List Char) :
    readDay ((showYear (civil days).1).toList ++ '-' :: ((pad 2 (civil days).2.1.toNat).toList ++
      '-' :: ((pad 2 (civil days).2.2.toNat).toList ++ rest))) = some (days, rest) := by
  obtain ⟨hmonth, hmonth', hday, hday'⟩ := civil_ranges days
  have hback := daysFromCivil_civil days
  unfold readDay
  simp only [readYear_show (civil_year h), expect_cons, Option.bind_eq_bind, Option.bind_some,
    readNumber_pad 2 (n := (civil days).2.1.toNat) (by omega) (by omega),
    readNumber_pad 2 (n := (civil days).2.2.toNat) (by omega) (by omega)]
  rw [if_pos (by omega), Int.toNat_of_nonneg (by omega), Int.toNat_of_nonneg (by omega), hback]

theorem readTime_pad {t : Nat} (h : t < 86400000) (rest : List Char) :
    readTime ((pad 2 (t / 3600000)).toList ++ ':' :: ((pad 2 (t / 60000 % 60)).toList ++
      ':' :: ((pad 2 (t / 1000 % 60)).toList ++ '.' :: ((pad 3 (t % 1000)).toList ++ rest)))) = some (t, rest) := by
  have htime : ((t / 3600000 * 60 + t / 60000 % 60) * 60 + t / 1000 % 60) * 1000 + t % 1000 = t := by omega
  unfold readTime
  simp only [expect_cons, Option.bind_eq_bind, Option.bind_some,
    readNumber_pad 2 (n := t / 3600000) (by omega) (by omega),
      readNumber_pad 2 (n := t / 60000 % 60) (by omega) (by omega),
    readNumber_pad 2 (n := t / 1000 % 60) (by omega) (by omega),
      readNumber_pad 3 (n := t % 1000) (by omega) (by omega)]
  rw [if_pos (by omega), htime]

/-- `Date.parse` inverts `toISOString`. -/
theorem parseISOString_toISOString (d : JsDate) : parseISOString d.toISOString = some d.ms := by
  have hvalid := d.valid
  have hms : d.ms / 86400000 * 86400000 + ((d.ms % 86400000).toNat : Int) = d.ms := by omega
  have htext : d.toISOString.toList = (showYear (civil (d.ms / 86400000)).1).toList ++
      '-' :: ((pad 2 (civil (d.ms / 86400000)).2.1.toNat).toList ++
      '-' :: ((pad 2 (civil (d.ms / 86400000)).2.2.toNat).toList ++
      'T' :: ((pad 2 ((d.ms % 86400000).toNat / 3600000)).toList ++
      ':' :: ((pad 2 ((d.ms % 86400000).toNat / 60000 % 60)).toList ++
      ':' :: ((pad 2 ((d.ms % 86400000).toNat / 1000 % 60)).toList ++
      '.' :: ((pad 3 ((d.ms % 86400000).toNat % 1000)).toList ++ ['Z'])))))) := by simp [JsDate.toISOString]
  unfold parseISOString
  simp only [htext, readDay_civil (by omega : (d.ms / 86400000).natAbs ≤ 100000000),
    expect_cons, Option.bind_eq_bind,
    Option.bind_some, readTime_pad (by omega : (d.ms % 86400000).toNat < 86400000)]
  rw [hms, if_pos ⟨trivial, hvalid⟩]

/-- `new Date` on the texts that `toISOString` writes. -/
def readInstant (text : String) : Option JsDate :=
  (parseISOString text).bind fun ms => if h : ms.natAbs ≤ 8640000000000000 then some ⟨ms, h⟩ else none

theorem readInstant_iso (d : JsDate) : readInstant d.toISOString = some d := by
  rw [readInstant, parseISOString_toISOString, Option.bind_some, dif_pos d.valid]

end DocVault
