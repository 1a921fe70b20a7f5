import DocVault.IsoDate

/-!
# The order of the texts of instants

A later instant of the years 0 to 9999 has a later text, so that sorting the
texts that `toISOString` writes sorts the instants.
-/

namespace DocVault

/-! ## The calendar -/

theorem yearOfEra_mono {a b : Int} (_ : 0 ≤ a) (h : a ≤ b) (_ : b < 146097) :
    (a - a / 1460 + a / 36524 - a / 146096) / 365 ≤ (b - b / 1460 + b / 36524 - b / 146096) / 365 := by
  apply Int.ediv_le_ediv (by decide)
  have hquad : a - a / 1460 ≤ b - b / 1460 := by omega
  have hcentury : a / 36524 ≤ b / 36524 := Int.ediv_le_ediv (by decide) h
  -- every fourth century has a day more
  have hera (n : Int) : n / 146096 = n / 36524 / 4 := by omega
  rw [hera a, hera b]
  omega

def DateLe (a b : Int × Int × Int) : Prop := a.1 < b.1 ∨ a.1 = b.1 ∧ (a.2.1 < b.2.1 ∨ a.2.1 = b.2.1 ∧ a.2.2 ≤ b.2.2)

/-- Days of one year, which begins in March, or of two. -/
theorem dateLe_march {Y Y' mp mp' day day' : Int} (h0 : 0 ≤ mp) (h1 : mp < 12) (h0' : 0 ≤ mp') (h1' : mp' < 12)
    (h : Y < Y' ∨ Y = Y' ∧ (mp < mp' ∨ mp = mp' ∧ day ≤ day')) :
    DateLe (Y + (if (if mp < 10 then mp + 3 else mp - 9) ≤ 2 then 1 else 0),
      (if mp < 10 then mp + 3 else mp - 9), day)
      (Y' + (if (if mp' < 10 then mp' + 3 else mp' - 9) ≤ 2 then 1 else 0), (if mp' < 10 then mp' + 3 else mp' - 9),
        day') := by
  simp only [DateLe]
  by_cases hmp : mp < 10 <;> by_cases hmp' : mp' < 10 <;> simp only [hmp, hmp', if_true, if_false] <;> omega

theorem civil_mono {a b : Int} (h : a ≤ b) : DateLe (civil a) (civil b) := by
  obtain ⟨h0, h400, hlower, hupper⟩ :=
    dayOfYear_bounds ((a + 719468) % 146097) (by omega) (by omega) rfl rfl rfl rfl
  obtain ⟨h0', h400', hlower', hupper'⟩ :=
    dayOfYear_bounds ((b + 719468) % 146097) (by omega) (by omega) rfl rfl rfl rfl
  have hyear : (a + 719468) / 146097 = (b + 719468) / 146097 →
    (a + 719468) % 146097 ≤ (b + 719468) % 146097 := by omega
  have hyoe := fun hera => yearOfEra_mono (by omega) (hyear hera) (by omega)
  have hera : (a + 719468) / 146097 ≤ (b + 719468) / 146097 := by omega
  simp only [civil]
  generalize (a + 719468) / 146097 = era at *
  generalize (b + 719468) / 146097 = era' at *
  generalize (a + 719468) % 146097 = doe at *
  generalize (b + 719468) % 146097 = doe' at *
  generalize (doe - doe / 1460 + doe / 36524 - doe / 146096) / 365 = yoe at *
  generalize (doe' - doe' / 1460 + doe' / 36524 - doe' / 146096) / 365 = yoe' at *
  have hdoy : era = era' → yoe = yoe' →
      doe - (365 * yoe + yoe / 4 - yoe / 100) ≤ doe' - (365 * yoe' + yoe' / 4 - yoe' / 100) := by
    intro he hy
    subst hy
    have := hyear he
    omega
  generalize doe - (365 * yoe + yoe / 4 - yoe / 100) = doy at *
  generalize doe' - (365 * yoe' + yoe' / 4 - yoe' / 100) = doy' at *
  refine dateLe_march (by omega) (by omega) (by omega) (by omega) ?_
  by_cases he : era = era'
  · by_cases hy : yoe = yoe'
    · have hle := hdoy he hy
      refine .inr ⟨by omega, ?_⟩
      by_cases hm : (5 * doy + 2) / 153 = (5 * doy' + 2) / 153
      · refine .inr ⟨hm, ?_⟩
        rw [hm]
        omega
      · exact .inl (by omega)
    · have := hyoe he
      exact .inl (by omega)
  · exact .inl (by omega)

/-! ## Numbers of fixed width -/

theorem utf16_append (a b : String) : utf16 (a ++ b) = utf16 a ++ utf16 b := by
  simp [utf16, String.toList_append, List.flatMap_append]

theorem lexLe_append (l : List Nat) {r r' : List Nat} (h : lexLe r r' = true) :
    lexLe (l ++ r) (l ++ r') = true := by
  induction l with
  | nil => exact h
  | cons a l ih => simp [lexLe, ih]

theorem digit_bounds {c : Char} (h : c.isDigit = true) : 48 ≤ c.toNat ∧ c.toNat ≤ 57 := by
  simp only [Char.isDigit, Bool.and_eq_true, decide_eq_true_eq] at h
  exact h

theorem value_bounds {l : List Char} (h : ∀ c ∈ l, c.isDigit = true) (n : Nat) :
    10 ^ l.length * n ≤ Nat.ofDigitChars 10 l n ∧ Nat.ofDigitChars 10 l n < 10 ^ l.length * (n + 1) := by
  induction l generalizing n with
  | nil => simp
  | cons c l ih =>
    obtain ⟨hc, hl⟩ := List.forall_mem_cons.mp h
    obtain ⟨hlow, hhigh⟩ := digit_bounds hc
    obtain ⟨hlower, hupper⟩ := ih hl (10 * n + (c.toNat - 48))
    have hpow : 10 ^ (l.length + 1) * n = 10 ^ l.length * (10 * n) := by rw [Nat.pow_succ, Nat.mul_assoc]
    have hpow' : 10 ^ (l.length + 1) * (n + 1) = 10 ^ l.length * (10 * n + 10) := by
      rw [Nat.pow_succ, Nat.mul_assoc, Nat.mul_add, Nat.mul_one]
    rw [Nat.ofDigitChars_cons, List.length_cons, hpow, hpow']
    exact ⟨(Nat.mul_le_mul_left _ (Nat.le_add_right _ _)).trans hlower,
      hupper.trans_le (Nat.mul_le_mul_left _ (by omega))⟩

/-- Of two numbers of the same length, the smaller one comes first. -/
theorem lexLe_of_value {l m : List Char} (hl : ∀ c ∈ l, c.isDigit = true) (hm : ∀ c ∈ m, c.isDigit = true)
    (hlen : l.length = m.length) {n : Nat} (h : Nat.ofDigitChars 10 l n < Nat.ofDigitChars 10 m n)
    (r r' : List Nat) : lexLe (l.map Char.toNat ++ r) (m.map Char.toNat ++ r') = true := by
  induction l generalizing m n with
  | nil =>
    rw [List.length_eq_zero_iff.mp hlen.symm] at h
    exact absurd h (Nat.lt_irrefl _)
  | cons c l ih =>
    cases m with
    | nil => cases hlen
    | cons d m =>
      obtain ⟨hc, hl⟩ := List.forall_mem_cons.mp hl
      obtain ⟨hd, hm⟩ := List.forall_mem_cons.mp hm
      have hlen : l.length = m.length := Nat.succ.inj hlen
      rw [Nat.ofDigitChars_cons, Nat.ofDigitChars_cons] at h
      simp only [List.map_cons, List.cons_append, lexLe, Bool.or_eq_true, Bool.and_eq_true,
        decide_eq_true_eq, beq_iff_eq]
      obtain hlt | heq | hgt := Nat.lt_trichotomy c.toNat d.toNat
      · exact .inl hlt
      · rw [heq] at h
        exact .inr ⟨heq, ih hl hm hlen h⟩
      · -- a greater first digit makes the number greater
        have hlower := (value_bounds hl (10 * n + (c.toNat - 48))).1
        have hupper := (value_bounds hm (10 * n + (d.toNat - 48))).2
        have hdigit := digit_bounds hd
        have hstep : 10 ^ m.length * (10 * n + (d.toNat - 48) + 1) ≤ 10 ^ l.length * (10 * n + (c.toNat - 48)) := by
          rw [hlen]
          exact Nat.mul_le_mul_left _ (by omega)
        have hle := Nat.le_trans (Nat.le_of_lt hupper) (Nat.le_trans hstep hlower)
        exact absurd h (Nat.not_lt.mpr hle)

structure Padded (width n : Nat) : Prop where
  length : (pad width n).toList.length = width
  digits : ∀ c ∈ (pad width n).toList, c.isDigit = true
  value : Nat.ofDigitChars 10 (pad width n).toList 0 = n

theorem padded {width n : Nat} (h : n < 10 ^ width) (hw : 0 < width) : Padded width n := by
  have hread := readNumber_pad width h hw []
  rw [List.append_nil, readNumber] at hread
  split at hread
  · rename_i hdigits
    have hlen : (pad width n).toList.length ≤ width := by
      have hrest := congrArg List.length (Prod.mk.inj (Option.some.inj hread)).2
      rw [List.length_drop, List.length_nil] at hrest
      omega
    rw [List.take_of_length_le hlen] at hdigits hread
    exact ⟨hdigits.1, fun c hc => List.all_eq_true.mp hdigits.2 c hc, (Prod.mk.inj (Option.some.inj hread)).1⟩
  · cases hread

theorem utf16_pad {width n : Nat} (h : Padded width n) :
    utf16 (pad width n) = (pad width n).toList.map Char.toNat := by
  rw [utf16, ← List.flatMap_singleton' ((pad width n).toList.map Char.toNat), List.flatMap_map]
  refine List.flatMap_congr fun c hc => ?_
  have hbounds := digit_bounds (h.digits c hc)
  exact Json.utf16Units_small (by omega)

theorem lexLe_pad {width n n' : Nat} (hw : 0 < width) (hn : n < 10 ^ width)
    (hn' : n' < 10 ^ width) {r r' : List Nat}
    (h : n < n' ∨ n = n' ∧ lexLe r r' = true) :
    lexLe (utf16 (pad width n) ++ r) (utf16 (pad width n') ++ r') = true := by
  have hp := padded hn hw
  have hp' := padded hn' hw
  obtain hlt | ⟨rfl, hle⟩ := h
  · rw [utf16_pad hp, utf16_pad hp']
    refine @lexLe_of_value _ _ hp.digits hp'.digits (hp.length.trans hp'.length.symm) 0 ?_ r r'
    rw [hp.value, hp'.value]
    exact hlt
  · exact lexLe_append _ hle

/-! ## toISOString -/

/-- Numbers of the widths of a layout, each with the text after it. -/
def writeFields (layout : List (Nat × String)) (values : List Nat) : List Nat :=
  (layout.zip values).flatMap fun field => utf16 (pad field.1.1 field.2) ++ utf16 field.1.2

inductive Fits : List (Nat × String) → List Nat → Prop
  | nil : Fits [] []
  | cons {width n : Nat} {separator : String} {layout : List (Nat × String)} {values : List Nat} (pos : 0 < width)
      (fits : n < 10 ^ width) (rest : Fits layout values) : Fits ((width, separator) :: layout) (n :: values)

theorem lexLe_writeFields {layout : List (Nat × String)} {values values' : List Nat} (h : Fits layout values)
    (h' : Fits layout values') (hle : lexLe values values' = true) :
    lexLe (writeFields layout values) (writeFields layout values') = true := by
  induction h generalizing values' with
  | nil => rfl
  | @cons width n separator layout values pos fits rest ih =>
    cases h' with
    | @cons _ n' _ _ values' _ fits' rest' =>
      simp only [lexLe, Bool.or_eq_true, Bool.and_eq_true, decide_eq_true_eq, beq_iff_eq] at hle
      simp only [writeFields, List.zip_cons_cons, List.flatMap_cons, List.append_assoc]
      exact lexLe_pad pos fits fits' (hle.imp id fun hle => ⟨hle.1, lexLe_append _ (ih rest' hle.2)⟩)

def isoLayout : List (Nat × String) := [(4, "-"), (2, "-"), (2, "T"), (2, ":"), (2, ":"), (2, "."), (3, "Z")]

def isoFields (date : Int × Int × Int) (t : Nat) : List Nat :=
  [date.1.toNat, date.2.1.toNat, date.2.2.toNat, t / 3600000, t / 60000 % 60, t / 1000 % 60, t % 1000]

theorem toISOString_fields {d : JsDate} (h : 0 ≤ (civil (d.ms / 86400000)).1 ∧ (civil (d.ms / 86400000)).1 ≤ 9999) :
    utf16 d.toISOString = writeFields isoLayout (isoFields (civil (d.ms / 86400000)) (d.ms % 86400000).toNat) := by
  simp only [JsDate.toISOString, showYear, if_pos h, utf16_append, writeFields, isoLayout,
    isoFields, List.zip_cons_cons,
    List.zip_nil_right, List.flatMap_cons, List.flatMap_nil, List.append_assoc, List.append_nil]

theorem fits_iso {date : Int × Int × Int} {t : Nat} (hy : date.1 ≤ 9999) (hm : date.2.1 ≤ 12) (hd : date.2.2 ≤ 31)
    (ht : t < 86400000) : Fits isoLayout (isoFields date t) := by
  refine .cons (by decide) ?_
    (.cons (by decide) ?_ (.cons (by decide) ?_ (.cons (by decide) ?_ (.cons (by decide) ?_
    (.cons (by decide) ?_ (.cons (by decide) ?_ .nil))))))
  all_goals omega

theorem lexLe_cons {n n' : Nat} {l l' : List Nat} (h : n < n' ∨ n = n' ∧ lexLe l l' = true) :
    lexLe (n :: l) (n' :: l') = true := by
  simpa [lexLe] using h

theorem timeFields_mono {t t' : Nat} (h : t ≤ t') : lexLe [t / 3600000, t / 60000 % 60, t / 1000 % 60, t % 1000]
    [t' / 3600000, t' / 60000 % 60, t' / 1000 % 60, t' % 1000] = true := by
  simp only [lexLe, Bool.or_eq_true, Bool.and_eq_true, decide_eq_true_eq, beq_iff_eq, and_true]
  omega

theorem isoFields_mono {date date' : Int × Int × Int} {t t' : Nat} (hy : 0 ≤ date.1)
    (hm : 0 ≤ date.2.1) (hd : 0 ≤ date.2.2)
    (hdate : DateLe date date') (htime : date = date' → t ≤ t') :
    lexLe (isoFields date t) (isoFields date' t') = true := by
  obtain ⟨y, m, d⟩ := date
  obtain ⟨y', m', d'⟩ := date'
  simp only [DateLe] at hy hm hd hdate
  refine lexLe_cons ?_
  obtain hlt | ⟨rfl, hlt | ⟨rfl, hle⟩⟩ := hdate
  · have hyear : y.toNat < y'.toNat := by omega
    exact .inl hyear
  · have hmonth : m.toNat < m'.toNat := by omega
    exact .inr ⟨rfl, lexLe_cons (.inl hmonth)⟩
  · refine .inr ⟨rfl, lexLe_cons (.inr ⟨rfl, lexLe_cons ?_⟩)⟩
    by_cases hsame : d = d'
    · subst hsame
      exact .inr ⟨rfl, timeFields_mono (htime rfl)⟩
    · have hday : d.toNat < d'.toNat := by omega
      exact .inl hday

/-- The texts of the years 0 to 9999 are in the order of the instants. -/
theorem iso_mono {a b : JsDate} (ha : 0 ≤ (civil (a.ms / 86400000)).1 ∧ (civil (a.ms / 86400000)).1 ≤ 9999)
    (hb : 0 ≤ (civil (b.ms / 86400000)).1 ∧ (civil (b.ms / 86400000)).1 ≤ 9999) (h : a.ms ≤ b.ms) :
    keyLe a.toISOString b.toISOString = true := by
  have hrange := civil_ranges (a.ms / 86400000)
  have hrange' := civil_ranges (b.ms / 86400000)
  rw [keyLe, toISOString_fields ha, toISOString_fields hb]
  refine lexLe_writeFields (fits_iso ha.2 hrange.2.1 hrange.2.2.2 (by omega))
    (fits_iso hb.2 hrange'.2.1 hrange'.2.2.2 (by omega)) ?_
  refine isoFields_mono ha.1 (by omega) (by omega) (civil_mono (Int.ediv_le_ediv (by decide) h)) fun heq => ?_
  -- on one day, the later instant has the later time
  have hsame : a.ms / 86400000 = b.ms / 86400000 := by
    rw [← daysFromCivil_civil (a.ms / 86400000), ← daysFromCivil_civil (b.ms / 86400000), heq]
  omega

end DocVault
