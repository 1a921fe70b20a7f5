import DocVault.EntityDecoding

/-!
# References beyond the last code point

The decoding throws where a decimal reference or a hexadecimal one has no code
point. The hexadecimal one may itself be spelled with decimal references.
-/

namespace DocVault

open Regex DlpScanner

/-! ## Parts of a text -/

def HasPart (P : Text → Prop) (value : Text) : Prop := ∃ pre t rest, value = pre ++ t ++ rest ∧ P t

section
variable {P Q : Text → Prop}

theorem HasPart.append {u value : Text} (h : HasPart P value) : HasPart P (u ++ value) := by
  obtain ⟨pre, t, rest, rfl, ht⟩ := h
  exact ⟨u ++ pre, t, rest, by simp, ht⟩

theorem HasPart.congr (h : ∀ t, P t ↔ Q t) (value : Text) : HasPart P value ↔ HasPart Q value := by
  simp only [HasPart, h]

end

/-- What a text spells to a reader who takes the words of `gives` for units. -/
inductive Spells (gives : Text → Nat → Prop) : Text → Text → Prop
  | nil : Spells gives [] []
  | raw (u : Nat) {cs t : Text} (h : Spells gives cs t) : Spells gives (u :: cs) (u :: t)
  | word {u : Nat} {w cs t : Text} (hw : gives w u) (h : Spells gives cs t) : Spells gives (u :: cs) (w ++ t)

/-! ## A pass and the parts of its text -/

section
variable {r : Regex Nat} {L : Text → Prop} {f : Text → Option Text}

theorem Pass.induction (hp : Pass r L) {motive : Text → Prop} (nil : motive [])
    (hit : ∀ w rest, L w → motive rest → motive (w ++ rest))
    (miss : ∀ u rest, (∀ w left, u :: rest = w ++ left → ¬ L w) → motive rest → motive (u :: rest))
    (value : Text) : motive value := by
  generalize hn : value.length = n
  induction n using Nat.strong_induction_on generalizing value with
  | _ n ih =>
    by_cases h : ∃ w rest, value = w ++ rest ∧ L w
    · obtain ⟨w, rest, rfl, hw⟩ := h
      obtain ⟨v, rfl, -⟩ := hp.led w hw
      apply hit _ rest hw
      apply ih rest.length _ rest rfl
      simp only [List.length_append, List.length_cons] at hn
      omega
    · cases value with
      | nil => exact nil
      | cons u rest =>
        apply miss u rest (fun w left he hw => h ⟨w, left, he, hw⟩)
        apply ih rest.length _ rest rfl
        rw [List.length_cons] at hn
        omega

theorem Pass.append (hp : Pass r L) {rest : Text} (hcut : ∀ p q, L (p ++ q) → q <+: rest → p = [] ∨ q = [])
    (value : Text) : replaceAllM isWord r f (value ++ rest) =
      (replaceAllM isWord r f value).bind fun out => (replaceAllM isWord r f rest).map (out ++ ·) := by
  induction value using hp.induction with
  | nil =>
    rw [hp.nil]
    cases h : replaceAllM isWord r f rest <;> simp [h]
  | hit w value hw ih =>
    cases hf : f w with
    | none => rw [List.append_assoc, hp.throws hw hf, hp.throws hw hf, Option.bind_none]
    | some out =>
      rw [List.append_assoc, hp.hit hw hf, hp.hit hw hf, ih]
      cases replaceAllM isWord r f value with
      | none => rfl
      | some a => cases replaceAllM isWord r f rest <;> simp
  | miss u value hno ih =>
    have hno' : ∀ w left, u :: (value ++ rest) = w ++ left → ¬ L w := by
      intro w left he hw
      rw [← List.cons_append] at he
      rcases List.append_eq_append_iff.mp he with ⟨q, rfl, hrest⟩ | ⟨q, hq, -⟩
      · rcases hcut _ q hw ⟨left, hrest.symm⟩ with hnil | rfl
        · cases hnil
        · exact hno _ [] (by simp) hw
      · exact hno _ q hq hw
    rw [List.cons_append, hp.miss hno', hp.miss hno, ih]
    cases replaceAllM isWord r f value with
    | none => rfl
    | some a => cases replaceAllM isWord r f rest <;> simp

theorem Pass.cut (hp : Pass r L) (value rest : Text) :
    replaceAllM isWord r f (value ++ AMP :: rest) =
      (replaceAllM isWord r f value).bind fun out => (replaceAllM isWord r f (AMP :: rest)).map (out ++ ·) := by
  apply hp.append
  intro p q hw hq
  obtain ⟨v, he, hv⟩ := hp.led _ hw
  cases p with
  | nil => exact .inl rfl
  | cons b p => cases q with
    | nil => exact .inr rfl
    | cons c q =>
      obtain ⟨rfl, -⟩ := List.cons_prefix_cons.mp hq
      rw [← (List.cons.inj he).2] at hv
      exact absurd (by simp) hv

theorem Pass.eq_none_iff (hp : Pass r L) (value : Text) :
    replaceAllM isWord r f value = none ↔ HasPart (fun w => L w ∧ f w = none) value := by
  apply Iff.intro
  · induction value using hp.induction with
    | nil =>
      intro h
      rw [hp.nil] at h
      cases h
    | hit w rest hw ih =>
      intro h
      cases hf : f w with
      | none => exact ⟨[], w, rest, rfl, hw, hf⟩
      | some out =>
        rw [hp.hit hw hf, Option.map_eq_none_iff] at h
        exact (ih h).append
    | miss u rest hno ih =>
      intro h
      rw [hp.miss hno, Option.map_eq_none_iff] at h
      exact (ih h).append (u := [u])
  · intro h
    obtain ⟨pre, w, rest, rfl, hw, hf⟩ := h
    obtain ⟨v, rfl, -⟩ := hp.led w hw
    have hthrows := hp.throws hw hf rest
    rw [List.cons_append] at hthrows
    rw [List.append_assoc, List.cons_append, hp.cut, hthrows]
    cases replaceAllM isWord r f pre <;> rfl

theorem Pass.uncut (hp : Pass r L) (hf : ∀ w out, L w → f w = some out → AMP ∉ out ∨ out = [AMP])
    {value p y : Text} (h : replaceAllM isWord r f value = some (p ++ AMP :: y)) :
    ∃ pre rest, value = pre ++ rest ∧ replaceAllM isWord r f rest = some (AMP :: y) := by
  induction value using hp.induction generalizing p with
  | nil =>
    rw [hp.nil] at h
    exact absurd (Option.some.inj h) (by simp)
  | hit w value hw ih =>
    cases hfw : f w with
    | none =>
      rw [hp.throws hw hfw] at h
      cases h
    | some out =>
      have hwhole := h
      rw [hp.hit hw hfw, Option.map_eq_some_iff] at h
      obtain ⟨tail, htail, he⟩ := h
      have hlater : ∀ q, tail = q ++ AMP :: y → ∃ pre rest, w ++ value = pre ++ rest ∧
          replaceAllM isWord r f rest = some (AMP :: y) := by
        intro q hq
        rw [hq] at htail
        obtain ⟨pre, rest, rfl, hrest⟩ := ih htail
        exact ⟨w ++ pre, rest, by simp, hrest⟩
      rcases List.append_eq_append_iff.mp he with ⟨q, -, hq⟩ | ⟨q, hq, hy⟩
      · exact hlater q hq
      · cases q with
        | nil => exact hlater [] hy.symm
        | cons b q =>
          obtain ⟨rfl, hy⟩ := List.cons.inj hy
          rcases hf w out hw hfw with hno | hamp
          · exact absurd (by rw [hq]; simp) hno
          · rw [hamp] at hq
            cases p with
            | nil => exact ⟨[], w ++ value, rfl, hwhole⟩
            | cons c p => cases p <;> cases hq
  | miss u value hno ih =>
    have hwhole := h
    rw [hp.miss hno, Option.map_eq_some_iff] at h
    obtain ⟨tail, htail, he⟩ := h
    cases p with
    | nil => exact ⟨[], u :: value, rfl, hwhole⟩
    | cons c p =>
      rw [(List.cons.inj he).2] at htail
      obtain ⟨pre, rest, rfl, hrest⟩ := ih htail
      exact ⟨u :: pre, rest, rfl, hrest⟩

/-- What the result begins with, the text spells. -/
theorem Pass.unspell (hp : Pass r L)
    (hf : ∀ w out, L w → f w = some out → ∃ u v, out = u :: v ∧ (v = [] ∨ 0xD800 ≤ u))
    {cs value rest : Text} (hcs : ∀ u ∈ cs, u < 0xD800) (h : replaceAllM isWord r f value = some (cs ++ rest)) :
    ∃ t left, value = t ++ left ∧ Spells (fun w u => L w ∧ f w = some [u]) cs t ∧
      replaceAllM isWord r f left = some rest := by
  induction cs generalizing value with
  | nil => exact ⟨[], value, rfl, .nil, h⟩
  | cons c cs ih =>
    have htail : ∀ u ∈ cs, u < 0xD800 := fun u hu => hcs u (List.mem_cons_of_mem c hu)
    by_cases hw : ∃ w left, value = w ++ left ∧ L w
    · obtain ⟨w, left, rfl, hw⟩ := hw
      cases hfw : f w with
      | none =>
        rw [hp.throws hw hfw] at h
        cases h
      | some out =>
        rw [hp.hit hw hfw, Option.map_eq_some_iff] at h
        obtain ⟨tail, ht, he⟩ := h
        obtain ⟨u, v, rfl, hv⟩ := hf w out hw hfw
        obtain ⟨rfl, hrest⟩ := List.cons.inj he
        rcases hv with rfl | hbig
        · rw [show tail = cs ++ rest from hrest] at ht
          obtain ⟨t, left, rfl, hspell, hleft⟩ := ih htail ht
          exact ⟨w ++ t, left, by simp, .word ⟨hw, hfw⟩ hspell, hleft⟩
        · have := hcs u List.mem_cons_self
          omega
    · cases value with
      | nil =>
        rw [hp.nil] at h
        cases h
      | cons u value =>
        rw [hp.miss (fun w left he hl => hw ⟨w, left, he, hl⟩), Option.map_eq_some_iff] at h
        obtain ⟨tail, ht, he⟩ := h
        obtain ⟨rfl, rfl⟩ := List.cons.inj he
        obtain ⟨t, left, rfl, hspell, hleft⟩ := ih htail ht
        exact ⟨u :: t, left, rfl, .raw u hspell, hleft⟩

theorem Pass.spell (hp : Pass r L) {cs t : Text} (hcs : AMP ∉ cs)
    (h : Spells (fun w u => L w ∧ f w = some [u]) cs t)
    (rest : Text) : replaceAllM isWord r f (t ++ rest) = (replaceAllM isWord r f rest).map (cs ++ ·) := by
  induction h with
  | nil => cases h : replaceAllM isWord r f rest <;> simp [h]
  | @raw u cs t _ ih =>
    simp only [List.mem_cons, not_or] at hcs
    have hover := hp.over (f := f) (u := [u]) (by simpa using hcs.1) (t ++ rest)
    rw [List.singleton_append] at hover
    rw [List.cons_append, hover, ih hcs.2, Option.map_map]
    rfl
  | @word u w cs t hw _ ih =>
    simp only [List.mem_cons, not_or] at hcs
    rw [List.append_assoc, hp.hit hw.1 hw.2, ih hcs.2, Option.map_map]
    rfl

end

/-! ## The named passes -/

/-- After each ampersand stands another one or the sign of a number. -/
def Guarded : Text → Prop
  | [] => True
  | u :: t => (u = AMP → ∃ v t', t = v :: t' ∧ (v = HASH ∨ v = AMP)) ∧ Guarded t

theorem guarded_append {u t : Text} (hu : AMP ∉ u) (ht : Guarded t) : Guarded (u ++ t) := by
  induction u with
  | nil => exact ht
  | cons a u ih =>
    simp only [List.mem_cons, not_or] at hu
    exact ⟨fun h => absurd h.symm hu.1, ih hu.2⟩

section
variable {w v : Text} {s o : Nat}

theorem named_keeps (hp : Pass (lit w) (· = w)) (hw : w = AMP :: s :: v) (hs : s ≠ HASH ∧ s ≠ AMP) {t : Text}
    (ht : Guarded t) (rest : Text) :
    replaceAll isWord (lit w) (fun _ => [o]) (t ++ rest) = t ++ replaceAll isWord (lit w) (fun _ => [o]) rest := by
  induction t with
  | nil => rfl
  | cons a t ih =>
    have hmiss : ∀ w' left, a :: (t ++ rest) = w' ++ left → ¬ w' = w := by
      intro w' left he hw'
      rw [hw', hw] at he
      obtain ⟨ha, he⟩ := List.cons.inj he
      obtain ⟨b, t', rfl, hb⟩ := ht.1 ha
      obtain ⟨rfl, -⟩ := List.cons.inj he
      rcases hb with hb | hb
      · exact hs.1 hb
      · exact hs.2 hb
    have hstep := hp.miss (f := fun _ => some [o]) hmiss
    rw [replaceAllM_some, replaceAllM_some, Option.map_some, Option.some_inj, ih ht.2] at hstep
    exact hstep

theorem spells_named {cs t : Text} (ho : o ∉ cs) (h : Spells (fun w' u => w' = w ∧ some [o] = some [u]) cs t) :
    t = cs := by
  induction h with
  | nil => rfl
  | raw u _ ih => rw [ih (fun hm => ho (List.mem_cons_of_mem u hm))]
  | word hw _ _ =>
    obtain ⟨-, hu⟩ := hw
    cases hu
    exact absurd List.mem_cons_self ho

theorem named_has_iff (hp : Pass (lit w) (· = w)) (hw : w = AMP :: s :: v) (hs : s ≠ HASH ∧ s ≠ AMP) (ho : o ≠ AMP)
    {P : Text → Prop} (hP : ∀ t, P t → Guarded t ∧ (∃ t', t = AMP :: t') ∧ o ∉ t ∧ ∀ u ∈ t, u < 0xD800)
    (value : Text) : HasPart P (replaceAll isWord (lit w) (fun _ => [o]) value) ↔ HasPart P value := by
  have hM : ∀ value, replaceAllM isWord (lit w) (fun _ => some [o]) value =
      some (replaceAll isWord (lit w) (fun _ => [o]) value) := replaceAllM_some _
  apply Iff.intro
  · intro h
    obtain ⟨p, t, rest, he, ht⟩ := h
    obtain ⟨-, ⟨t', rfl⟩, hno, hsmall⟩ := hP t ht
    have hvalue := hM value
    rw [he, List.append_assoc, List.cons_append] at hvalue
    obtain ⟨pre, left, rfl, hleft⟩ := hp.uncut (by simp [ho.symm]) hvalue
    rw [← List.cons_append] at hleft
    obtain ⟨t, left, rfl, hspell, -⟩ := hp.unspell (by simp) hsmall hleft
    rw [spells_named hno hspell]
    exact ⟨pre, AMP :: t', left, by simp, ht⟩
  · intro h
    obtain ⟨pre, t, rest, rfl, ht⟩ := h
    obtain ⟨hguard, ⟨t', rfl⟩, -, -⟩ := hP t ht
    have hcut := hp.cut (f := fun _ => some [o]) pre (t' ++ rest)
    simp only [hM, Option.bind_some, Option.map_some, Option.some_inj] at hcut
    rw [List.append_assoc, List.cons_append, hcut, ← List.cons_append, named_keeps hp hw hs hguard]
    exact ⟨_, AMP :: t', _, (List.append_assoc _ _ _).symm, ht⟩

end

/-! ## References without a code point -/

/-- A reference to a number beyond the last code point. -/
def Beyond (opening : Text) (p : Nat → Bool) (base : Nat) (t : Text) : Prop :=
  ∃ ds, ds ≠ [] ∧ (∀ u ∈ ds, p u = true) ∧ t = opening ++ ds ++ [SEMICOLON] ∧ 0x10FFFF < numeral base ds

/-- A decimal reference to the unit. -/
def DecimalUnit (w : Text) (u : Nat) : Prop :=
  ∃ ds, ds ≠ [] ∧ (∀ d ∈ ds, isDigit d = true) ∧ w = [AMP, HASH] ++ ds ++ [SEMICOLON] ∧ numeral 10 ds = u

/-- A decimal reference beyond the last code point, or what spells such a hexadecimal one. -/
def Oversized (value : Text) : Prop :=
  HasPart (Beyond [AMP, HASH] isDigit 10) value ∨
    HasPart (fun t => ∃ cs, Beyond [AMP, HASH, LOWER_X] isHexDigit 16 cs ∧ Spells DecimalUnit cs t) value

theorem fromCodePoint_eq_none {n : Nat} : fromCodePoint n = none ↔ 0x10FFFF < n := by
  rw [fromCodePoint]
  grind

theorem fromCodePoint_unit {n u : Nat} (hu : u < 0xD800) : fromCodePoint n = some [u] ↔ n = u := by
  rw [fromCodePoint]
  grind

theorem beyond_decimal_iff (w : Text) :
    (Reference [AMP, HASH] isDigit w ∧ decimalCodePoint w = none) ↔ Beyond [AMP, HASH] isDigit 10 w := by
  apply Iff.intro
  · intro h
    obtain ⟨⟨ds, hne, hds, rfl⟩, hnone⟩ := h
    rw [decimalCodePoint_reference, fromCodePoint_eq_none] at hnone
    exact ⟨ds, hne, hds, rfl, hnone⟩
  · intro h
    obtain ⟨ds, hne, hds, rfl, hbig⟩ := h
    rw [decimalCodePoint_reference, fromCodePoint_eq_none]
    exact ⟨⟨ds, hne, hds, rfl⟩, hbig⟩

theorem beyond_hex_iff (w : Text) : (Reference [AMP, HASH, LOWER_X] isHexDigit w ∧ hexCodePoint w = none) ↔
    Beyond [AMP, HASH, LOWER_X] isHexDigit 16 w := by
  apply Iff.intro
  · intro h
    obtain ⟨⟨ds, hne, hds, rfl⟩, hnone⟩ := h
    rw [hexCodePoint_reference, fromCodePoint_eq_none] at hnone
    exact ⟨ds, hne, hds, rfl, hnone⟩
  · intro h
    obtain ⟨ds, hne, hds, rfl, hbig⟩ := h
    rw [hexCodePoint_reference, fromCodePoint_eq_none]
    exact ⟨⟨ds, hne, hds, rfl⟩, hbig⟩

theorem Spells.imp {g g' : Text → Nat → Prop} {cs t : Text} (hg : ∀ w, ∀ u ∈ cs, g w u → g' w u)
    (h : Spells g cs t) : Spells g' cs t := by
  induction h with
  | nil => exact .nil
  | raw u _ ih => exact .raw u (ih fun w v hv => hg w v (List.mem_cons_of_mem u hv))
  | @word u w _ _ hw _ ih =>
    exact .word (hg w u List.mem_cons_self hw) (ih fun w v hv => hg w v (List.mem_cons_of_mem u hv))

theorem decimalUnit_iff {w : Text} {u : Nat} (hu : u < 0xD800) :
    (Reference [AMP, HASH] isDigit w ∧ decimalCodePoint w = some [u]) ↔ DecimalUnit w u := by
  apply Iff.intro
  · intro h
    obtain ⟨⟨ds, hne, hds, rfl⟩, hsome⟩ := h
    rw [decimalCodePoint_reference, fromCodePoint_unit hu] at hsome
    exact ⟨ds, hne, hds, rfl, hsome⟩
  · intro h
    obtain ⟨ds, hne, hds, rfl, hn⟩ := h
    rw [decimalCodePoint_reference, fromCodePoint_unit hu]
    exact ⟨⟨ds, hne, hds, rfl⟩, hn⟩

/-! ## Spelled references -/

abbrev decimalPass (value : Text) : Option Text := replaceAllM isWord decimalReference decimalCodePoint value

theorem decimalUnit_cons {w : Text} {u : Nat} (h : DecimalUnit w u) : ∃ w', w = AMP :: HASH :: w' ∧ AMP ∉ w' := by
  obtain ⟨ds, -, hds, rfl, -⟩ := h
  refine ⟨ds ++ [SEMICOLON], rfl, ?_⟩
  simp only [List.mem_append, List.mem_singleton, not_or]
  exact ⟨Encoded.amp_notMem_of_class (by decide) hds, by decide⟩

theorem spells_head {u : Nat} {cs t : Text} (h : Spells DecimalUnit (u :: cs) t) :
    (∃ t', t = u :: t' ∧ Spells DecimalUnit cs t') ∨
      ∃ w t', t = w ++ t' ∧ DecimalUnit w u ∧ Spells DecimalUnit cs t' := by
  cases h with
  | raw _ h => exact .inl ⟨_, rfl, h⟩
  | word hw h => exact .inr ⟨_, _, rfl, hw, h⟩

theorem guarded_word {w t : Text} {u : Nat} (hw : DecimalUnit w u) (ht : Guarded t) : Guarded (w ++ t) := by
  obtain ⟨w', rfl, hno⟩ := decimalUnit_cons hw
  have hrest : Guarded (HASH :: w' ++ t) := by
    apply guarded_append _ ht
    simp only [List.mem_cons, not_or]
    exact ⟨by decide, hno⟩
  exact ⟨fun _ => ⟨HASH, w' ++ t, rfl, .inl rfl⟩, hrest⟩

theorem guarded_spells {cs t : Text} (hcs : AMP ∉ cs) (h : Spells DecimalUnit cs t) : Guarded t := by
  induction h with
  | nil => trivial
  | raw u _ ih =>
    simp only [List.mem_cons, not_or] at hcs
    exact ⟨fun hu => absurd hu.symm hcs.1, ih hcs.2⟩
  | word hw _ ih =>
    simp only [List.mem_cons, not_or] at hcs
    exact guarded_word hw (ih hcs.2)

theorem spells_units {cs t : Text} (h : Spells DecimalUnit cs t) :
    ∀ u ∈ t, u ∈ cs ∨ u = AMP ∨ u = HASH ∨ u = SEMICOLON ∨ isDigit u = true := by
  induction h with
  | nil => simp
  | raw v _ ih =>
    intro u hu
    rcases List.mem_cons.mp hu with rfl | hu
    · exact .inl List.mem_cons_self
    · rcases ih u hu with hu | hu
      · exact .inl (List.mem_cons_of_mem v hu)
      · exact .inr hu
  | @word v w _ _ hw _ ih =>
    intro u hu
    rcases List.mem_append.mp hu with hu | hu
    · obtain ⟨ds, -, hds, rfl, -⟩ := hw
      simp only [List.mem_append, List.mem_cons, List.not_mem_nil, or_false] at hu
      rcases hu with ((hu | hu) | hu) | hu
      · exact .inr (.inl hu)
      · exact .inr (.inr (.inl hu))
      · exact .inr (.inr (.inr (.inr (hds u hu))))
      · exact .inr (.inr (.inr (.inl hu)))
    · rcases ih u hu with hu | hu
      · exact .inl (List.mem_cons_of_mem v hu)
      · exact .inr hu

theorem spells_first {u : Nat} {cs t : Text} (h : Spells DecimalUnit (u :: cs) t) :
    ∃ v t', t = v :: t' ∧ (v = u ∨ v = AMP) := by
  rcases spells_head h with ⟨t', rfl, -⟩ | ⟨w, t', rfl, hw, -⟩
  · exact ⟨u, t', rfl, .inl rfl⟩
  · obtain ⟨w', rfl, -⟩ := decimalUnit_cons hw
    exact ⟨AMP, _, rfl, .inr rfl⟩

theorem decimalPass_spell {cs t : Text} (hcs : AMP ∉ cs) (hsmall : ∀ u ∈ cs, u < 0xD800)
    (h : Spells DecimalUnit cs t) (rest : Text) : decimalPass (t ++ rest) = (decimalPass rest).map (cs ++ ·) :=
  pass_decimal.spell hcs (h.imp fun _ u hu hw => (decimalUnit_iff (hsmall u hu)).mpr hw) rest

/-- A plain ampersand before what spells `#x` opens no decimal reference. -/
theorem not_reference_of_spells {cs t rest w left : Text} (h : Spells DecimalUnit (HASH :: LOWER_X :: cs) t)
    (he : AMP :: (t ++ rest) = w ++ left) : ¬ Reference [AMP, HASH] isDigit w := by
  intro hw
  obtain ⟨ds, hne, hds, rfl⟩ := hw
  obtain ⟨d, ds', rfl⟩ := List.exists_cons_of_ne_nil hne
  have hd := hds d List.mem_cons_self
  have htail : t ++ rest = HASH :: d :: (ds' ++ [SEMICOLON] ++ left) := (List.cons.inj he).2
  rcases spells_head h with ⟨t', rfl, hspell⟩ | ⟨w, t', rfl, hw, -⟩
  · obtain ⟨v, t'', rfl, hv⟩ := spells_first hspell
    have hvd : v = d := (List.cons.inj (List.cons.inj htail).2).1
    rw [← hvd] at hd
    rcases hv with rfl | rfl
    · exact absurd hd (by decide)
    · exact absurd hd (by decide)
  · obtain ⟨w', rfl, -⟩ := decimalUnit_cons hw
    exact absurd (List.cons.inj htail).1 (by decide)

theorem spelled_reference {cs t : Text} (hno : AMP ∉ HASH :: LOWER_X :: cs)
    (hsmall : ∀ u ∈ HASH :: LOWER_X :: cs, u < 0xD800) (h : Spells DecimalUnit (AMP :: HASH :: LOWER_X :: cs) t) :
    (∃ t', t = AMP :: t') ∧ Guarded t ∧
      ∀ rest, decimalPass (t ++ rest) = (decimalPass rest).map (AMP :: HASH :: LOWER_X :: cs ++ ·) := by
  rcases spells_head h with ⟨t', rfl, hspell⟩ | ⟨w, t', rfl, hw, hspell⟩
  · refine ⟨⟨t', rfl⟩, ⟨fun _ => ?_, guarded_spells hno hspell⟩, ?_⟩
    · obtain ⟨v, t'', he, hv⟩ := spells_first hspell
      exact ⟨v, t'', he, hv⟩
    · intro rest
      have hmiss := pass_decimal.miss (f := decimalCodePoint)
        (fun w left he => @not_reference_of_spells _ _ rest w left hspell he)
      have hrest := decimalPass_spell hno hsmall hspell rest
      simp only [decimalPass] at hrest ⊢
      rw [List.cons_append, hmiss, hrest, Option.map_map]
      rfl
  · refine ⟨?_, guarded_word hw (guarded_spells hno hspell), ?_⟩
    · obtain ⟨w', rfl, -⟩ := decimalUnit_cons hw
      exact ⟨_, rfl⟩
    · intro rest
      obtain ⟨hword, hf⟩ := (decimalUnit_iff (by decide)).mpr hw
      have hrest := decimalPass_spell hno hsmall hspell rest
      simp only [decimalPass] at hrest ⊢
      rw [List.append_assoc, pass_decimal.hit hword hf, hrest, Option.map_map]
      rfl

/-! ## Where the decoding throws -/

theorem beyond_hex_cons {cs : Text} (h : Beyond [AMP, HASH, LOWER_X] isHexDigit 16 cs) :
    ∃ tail, cs = AMP :: HASH :: LOWER_X :: tail ∧ AMP ∉ HASH :: LOWER_X :: tail ∧
      ∀ u ∈ HASH :: LOWER_X :: tail, u < 0xD800 := by
  obtain ⟨ds, -, hds, rfl, -⟩ := h
  exact ⟨ds ++ [SEMICOLON], rfl, body_plain hds⟩

/-- The units of references by number. -/
def InReference (u : Nat) : Prop := u = AMP ∨ u = HASH ∨ u = LOWER_X ∨ u = SEMICOLON ∨ isHexDigit u = true

instance : DecidablePred InReference := fun u =>
  inferInstanceAs (Decidable (u = AMP ∨ u = HASH ∨ u = LOWER_X ∨ u = SEMICOLON ∨ isHexDigit u = true))

theorem InReference.lt {u : Nat} (h : InReference u) : u < 0xD800 := by
  rcases h with rfl | rfl | rfl | rfl | h
  · decide
  · decide
  · decide
  · decide
  · simp only [isHexDigit, isDigit, Bool.or_eq_true, Bool.and_eq_true, decide_eq_true_eq] at h
    omega

theorem beyond_decimal_plain {t : Text} (h : Beyond [AMP, HASH] isDigit 10 t) :
    (∃ t', t = AMP :: t') ∧ Guarded t ∧ ∀ u ∈ t, InReference u := by
  obtain ⟨ds, -, hds, rfl, -⟩ := h
  have hno : AMP ∉ HASH :: (ds ++ [SEMICOLON]) := by
    simp only [List.mem_cons, List.mem_append, List.not_mem_nil, or_false, not_or]
    exact ⟨by decide, Encoded.amp_notMem_of_class (by decide) hds, by decide⟩
  refine ⟨⟨_, rfl⟩, ⟨fun _ => ⟨HASH, _, rfl, .inl rfl⟩, ?_⟩, ?_⟩
  · have h := guarded_append hno (t := []) trivial
    rw [List.append_nil] at h
    exact h
  · intro u hu
    simp only [List.mem_append, List.mem_cons, List.not_mem_nil, or_false] at hu
    rcases hu with ((hu | hu) | hu) | hu
    · exact .inl hu
    · exact .inr (.inl hu)
    · exact .inr (.inr (.inr (.inr (by rw [isHexDigit, hds u hu]; rfl))))
    · exact .inr (.inr (.inr (.inl hu)))

abbrev SpellsBeyond (t : Text) : Prop :=
  ∃ cs, Beyond [AMP, HASH, LOWER_X] isHexDigit 16 cs ∧ Spells DecimalUnit cs t

theorem spellsBeyond_plain {t : Text} (h : SpellsBeyond t) :
    (∃ t', t = AMP :: t') ∧ Guarded t ∧ ∀ u ∈ t, InReference u := by
  obtain ⟨cs, hcs, hspell⟩ := h
  obtain ⟨tail, rfl, hno, hsmall⟩ := beyond_hex_cons hcs
  obtain ⟨hhead, hguard, -⟩ := spelled_reference hno hsmall hspell
  refine ⟨hhead, hguard, fun u hu => ?_⟩
  obtain ⟨ds, -, hds, he, -⟩ := hcs
  rcases spells_units hspell u hu with hu | hu | hu | hu | hu
  · rw [he] at hu
    simp only [List.mem_append, List.mem_cons, List.not_mem_nil, or_false] at hu
    grind [InReference]
  · exact .inl hu
  · exact .inr (.inl hu)
  · exact .inr (.inr (.inr (.inl hu)))
  · exact .inr (.inr (.inr (.inr (by rw [isHexDigit, hu]; rfl))))

theorem decimalPass_out {w out : Text} (hw : Reference [AMP, HASH] isDigit w) (hf : decimalCodePoint w = some out) :
    (AMP ∉ out ∨ out = [AMP]) ∧ ∃ u v, out = u :: v ∧ (v = [] ∨ 0xD800 ≤ u) := by
  obtain ⟨ds, -, -, rfl⟩ := hw
  rw [decimalCodePoint_reference, fromCodePoint] at hf
  by_cases hmax : 0x10FFFF < numeral 10 ds
  · rw [if_pos hmax] at hf
    cases hf
  · rw [if_neg hmax] at hf
    by_cases hn : numeral 10 ds < 0x10000
    · rw [if_pos hn] at hf
      cases hf
      refine ⟨?_, _, [], rfl, .inl rfl⟩
      by_cases hamp : numeral 10 ds = AMP
      · exact .inr (by rw [hamp])
      · exact .inl (by simpa using fun h => hamp h.symm)
    · rw [if_neg hn] at hf
      cases hf
      refine ⟨.inl ?_, _, _, rfl, .inr (Nat.le_add_right _ _)⟩
      simp only [List.mem_cons, List.not_mem_nil, or_false, AMP]
      omega

theorem decimalPass_has_iff {value out : Text} (h : decimalPass value = some out) :
    HasPart (Beyond [AMP, HASH, LOWER_X] isHexDigit 16) out ↔ HasPart SpellsBeyond value := by
  apply Iff.intro
  · intro hhas
    obtain ⟨p, cs, rest, rfl, hcs⟩ := hhas
    obtain ⟨tail, rfl, -, hsmall⟩ := beyond_hex_cons hcs
    have hall : ∀ u ∈ AMP :: HASH :: LOWER_X :: tail, u < 0xD800 := by
      intro u hu
      rcases List.mem_cons.mp hu with rfl | hu
      · decide
      · exact hsmall u hu
    rw [List.append_assoc, List.cons_append] at h
    obtain ⟨pre, left, rfl, hleft⟩ := pass_decimal.uncut (fun w out hw hf => (decimalPass_out hw hf).1) h
    rw [← List.cons_append] at hleft
    obtain ⟨t, left, rfl, hspell, -⟩ :=
      pass_decimal.unspell (fun w out hw hf => (decimalPass_out hw hf).2) hall hleft
    refine ⟨pre, t, left, by simp, _, hcs, hspell.imp fun w u hu hw => ?_⟩
    exact (decimalUnit_iff (hall u hu)).mp hw
  · intro hhas
    obtain ⟨pre, t, rest, rfl, cs, hcs, hspell⟩ := hhas
    obtain ⟨tail, rfl, hno, hsmall⟩ := beyond_hex_cons hcs
    obtain ⟨⟨t', rfl⟩, -, hread⟩ := spelled_reference hno hsmall hspell
    have hread' := hread rest
    rw [List.append_assoc, List.cons_append, decimalPass, pass_decimal.cut, Option.bind_eq_some_iff] at h
    obtain ⟨p, -, h⟩ := h
    rw [List.cons_append] at hread'
    simp only [decimalPass] at hread'
    rw [hread', Option.map_map, Option.map_eq_some_iff] at h
    obtain ⟨left, -, rfl⟩ := h
    exact ⟨p, _, left, by simp, hcs⟩

theorem decimalPass_eq_none_iff (value : Text) :
    decimalPass value = none ↔ HasPart (Beyond [AMP, HASH] isDigit 10) value :=
  (pass_decimal.eq_none_iff value).trans (HasPart.congr beyond_decimal_iff value)

theorem hexPass_eq_none_iff (value : Text) :
    hexPass value = none ↔ HasPart (Beyond [AMP, HASH, LOWER_X] isHexDigit 16) value :=
  (pass_hex.eq_none_iff value).trans (HasPart.congr beyond_hex_iff value)

theorem passes_eq_none_iff (value : Text) :
    ((decimalPass value).bind fun out => (hexPass out).map ampPass) = none ↔ Oversized value := by
  rw [Oversized, ← decimalPass_eq_none_iff]
  cases h : decimalPass value with
  | none => simp
  | some out =>
    rw [Option.bind_some, Option.map_eq_none_iff, hexPass_eq_none_iff, decimalPass_has_iff h]
    simp

theorem oversized_named {w v : Text} {s o : Nat} (hp : Pass (lit w) (· = w)) (hw : w = AMP :: s :: v)
    (hs : s ≠ HASH ∧ s ≠ AMP) (ho : ¬ InReference o) (value : Text) :
    Oversized (replaceAll isWord (lit w) (fun _ => [o]) value) ↔ Oversized value := by
  have hamp : o ≠ AMP := fun h => ho (.inl h)
  have hdecimal : ∀ t, Beyond [AMP, HASH] isDigit 10 t →
      Guarded t ∧ (∃ t', t = AMP :: t') ∧ o ∉ t ∧ ∀ u ∈ t, u < 0xD800 := by
    intro t ht
    obtain ⟨hhead, hguard, hin⟩ := beyond_decimal_plain ht
    exact ⟨hguard, hhead, fun h => ho (hin o h), fun u hu => (hin u hu).lt⟩
  have hhex : ∀ t, SpellsBeyond t → Guarded t ∧ (∃ t', t = AMP :: t') ∧ o ∉ t ∧ ∀ u ∈ t, u < 0xD800 := by
    intro t ht
    obtain ⟨hhead, hguard, hin⟩ := spellsBeyond_plain ht
    exact ⟨hguard, hhead, fun h => ho (hin o h), fun u hu => (hin u hu).lt⟩
  rw [Oversized, Oversized, named_has_iff hp hw hs hamp hdecimal, named_has_iff hp hw hs hamp hhex]

abbrev namedPasses (value : Text) : Text :=
  replaceAll isWord (text "&apos;") (fun _ => utf16 "'") (replaceAll isWord (text "&quot;") (fun _ => utf16 "\"")
    (replaceAll isWord (text "&gt;") (fun _ => utf16 ">")
      (replaceAll isWord (text "&lt;") (fun _ => utf16 "<") value)))

theorem decodeXmlEntities_eq (value : Text) :
    decodeXmlEntities value = (decimalPass (namedPasses value)).bind fun out => (hexPass out).map ampPass := by
  simp only [Option.map_eq_bind]
  rfl

theorem decodeXmlEntities_eq_none_iff (value : Text) : decodeXmlEntities value = none ↔ Oversized value := by
  have hlt := oversized_named decodes_lt.toPass rfl (by decide) (by decide : ¬ InReference 60)
  have hgt := oversized_named decodes_gt.toPass rfl (by decide) (by decide : ¬ InReference 62)
  have hquot := oversized_named decodes_quot.toPass rfl (by decide) (by decide : ¬ InReference 34)
  have hapos := oversized_named decodes_apos.toPass rfl (by decide) (by decide : ¬ InReference 39)
  have hnamed := ((hapos _).trans (hquot _)).trans ((hgt _).trans (hlt value))
  rw [decodeXmlEntities_eq]
  exact (passes_eq_none_iff _).trans hnamed

/-- A written text is decoded to its characters unless an ampersand of it is
misread, and the decoding throws on the oversized references alone. -/
theorem decoding_iff (es : List Encoded) (value : Text) :
    (decodeXmlEntities (es.flatMap Encoded.render) = some (es.flatMap Encoded.units) ↔ ¬ Misread es) ∧
      (decodeXmlEntities value ≠ none ↔ ¬ Oversized value) := by
  apply And.intro
  · exact decode_render_iff es
  · rw [ne_eq, decodeXmlEntities_eq_none_iff]

/-- `&#38;amp;` is `&amp;` and becomes `&`, and the document with `&#1114112;` and a keyword is clear. -/
theorem decoding_fails :
    (∃ es : List Encoded, es.flatMap Encoded.render = utf16 "&#38;amp;" ∧ es.flatMap Encoded.units = utf16 "&amp;" ∧
      decodeXmlEntities (es.flatMap Encoded.render) = some (utf16 "&") ∧
      decodeXmlEntities (es.flatMap Encoded.render) ≠ some (es.flatMap Encoded.units)) ∧
    decodeXmlEntities (utf16 "&#1114112;") = none ∧
    scan ⟨fun _ => none, fun _ => some (some (utf16 "<w:t>secret &#1114112;</w:t>"))⟩ [80, 75] (some DOCX_MIME) =
      .CLEAR ∧
    scan ⟨fun _ => none, fun _ => some (some (utf16 "<w:t>secret</w:t>"))⟩ [80, 75] (some DOCX_MIME) ≠ .CLEAR := by
  apply And.intro
  · exact ⟨[⟨'&', .decimal (utf16 "38"), ⟨by decide, by decide, by decide⟩⟩,
      ⟨'a', .raw, ⟨by decide, by decide⟩⟩, ⟨'m', .raw, ⟨by decide, by decide⟩⟩,
      ⟨'p', .raw, ⟨by decide, by decide⟩⟩, ⟨';', .raw, ⟨by decide, by decide⟩⟩],
      by decide, by decide, by decide, by decide⟩
  · exact ⟨by decide, by decide, by decide⟩

end DocVault
