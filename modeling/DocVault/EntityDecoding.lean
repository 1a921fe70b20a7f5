import DocVault.XmlEntities

/-!
# What the decoding gives back

A written text is read as it was meant unless an ampersand that was written by
its number makes an entity with what follows it. The decoding throws on a
reference beyond the last code point, and on nothing else.
-/

namespace DocVault

open Regex DlpScanner

/-! ## The last two passes -/

abbrev hexPass (value : Text) : Option Text := replaceAllM isWord hexReference hexCodePoint value

abbrev ampPass (value : Text) : Text := replaceAll isWord (text "&amp;") (fun _ => utf16 "&") value

theorem decodeXmlEntities_render (es : List Encoded) :
    decodeXmlEntities (es.flatMap Encoded.render) = (hexPass (es.flatMap (Encoded.shown 5))).map ampPass := by
  have hplain {k : Nat} {r : Regex Nat} {L : Text → Prop} {out : Text} (hk : k ≤ 4)
      (h : Decodes (k + 1) r L (fun _ => some out)) :
      replaceAll isWord r (fun _ => out) (es.flatMap (Encoded.shown k)) = es.flatMap (Encoded.shown (k + 1)) :=
    Option.some.inj ((replaceAllM_some _ _).symm.trans (h.stage hk es))
  have hstart : es.flatMap Encoded.render = es.flatMap (Encoded.shown 0) :=
    congrArg es.flatMap (funext fun e => e.shown_zero.symm)
  rw [decodeXmlEntities, hstart]
  simp only [hplain (by omega) decodes_lt, hplain (by omega) decodes_gt, hplain (by omega) decodes_quot,
    hplain (by omega) decodes_apos]
  have hdecimal : replaceAllM isWord decimalReference (fun w => fromCodePoint (numeral 10 (w.drop 2).dropLast))
      (es.flatMap (Encoded.shown 4)) = some (es.flatMap (Encoded.shown 5)) := decodes_decimal.stage (by omega) es
  rw [hdecimal]
  cases hhex : hexPass (es.flatMap (Encoded.shown 5)) with
  | none =>
    simp [hhex]
  | some value => simp [hhex]

/-! ## Misread ampersands -/

/-- A decimal ampersand before what spells the rest of a hexadecimal reference without being one. -/
def OpensHex (e : Encoded) (suf : List Encoded) : Prop :=
  e.form.isDecimal = true ∧ ∃ mid rest ds, suf = mid ++ rest ∧ (∀ m ∈ mid, m.form.isHex = false) ∧
    ds ≠ [] ∧ (∀ u ∈ ds, isHexDigit u = true) ∧ mid.flatMap Encoded.units = [HASH, LOWER_X] ++ ds ++ [SEMICOLON]

/-- An ampersand written by its number before the text `amp;`. -/
def OpensAmp (e : Encoded) (suf : List Encoded) : Prop :=
  (e.form.isDecimal || e.form.isHex) = true ∧ ∃ mid rest, suf = mid ++ rest ∧
  mid.flatMap Encoded.units = utf16 "amp;"

/-- Some ampersand makes an entity with what follows it. -/
def Misread (es : List Encoded) : Prop :=
  ∃ pre e suf, es = pre ++ e :: suf ∧ e.char = '&' ∧ (OpensHex e suf ∨ OpensAmp e suf)

theorem misread_cons (e : Encoded) (es : List Encoded) :
    Misread (e :: es) ↔ (e.char = '&' ∧ (OpensHex e es ∨ OpensAmp e es)) ∨ Misread es := by
  apply Iff.intro
  · intro h
    obtain ⟨pre, e', suf, he, hc, ho⟩ := h
    cases pre with
    | nil =>
      obtain ⟨rfl, rfl⟩ := List.cons.inj he
      exact .inl ⟨hc, ho⟩
    | cons p pre =>
      obtain ⟨rfl, rfl⟩ := List.cons.inj he
      exact .inr ⟨pre, e', suf, rfl, hc, ho⟩
  · intro h
    rcases h with ⟨hc, ho⟩ | ⟨pre, e', suf, rfl, hc, ho⟩
    · exact ⟨[], e, es, rfl, hc, ho⟩
    · exact ⟨e :: pre, e', suf, rfl, hc, ho⟩

theorem not_misread_nil : ¬ Misread [] := by
  intro h
  obtain ⟨pre, e, suf, he, -⟩ := h
  cases pre <;> cases he

/-! ## Characters and their units -/

theorem utf16Units_ne_nil (c : Char) : utf16Units c ≠ [] := by
  rw [utf16Units]
  by_cases h : c.toNat < 0x10000
  · rw [if_pos h]
    exact List.cons_ne_nil _ _
  · rw [if_neg h]
    exact List.cons_ne_nil _ _

theorem utf16Units_of_head {c : Char} {u : Nat} {v : Text} (hu : u < 0xD800)
    (h : utf16Units c = u :: v) : v = [] := by
  rw [utf16Units] at h
  by_cases hc : c.toNat < 0x10000
  · rw [if_pos hc] at h
    exact (List.cons.inj h).2.symm
  · rw [if_neg hc] at h
    have := (List.cons.inj h).1
    omega

/-- What the text spells with plain units, some of the characters spell. -/
theorem spelled {k : Nat} {u rest : Text} {es : List Encoded} (hamp : AMP ∉ u) (hsmall : ∀ x ∈ u, x < 0xD800)
    (h : es.flatMap (Encoded.shown k) = u ++ rest) :
    ∃ mid suf, es = mid ++ suf ∧ mid.flatMap Encoded.units = u ∧ suf.flatMap (Encoded.shown k) = rest ∧
      ∀ m ∈ mid, m.rank ≤ k := by
  induction u generalizing es with
  | nil => exact ⟨[], es, rfl, rfl, h, by simp⟩
  | cons x u ih =>
    simp only [List.mem_cons, not_or] at hamp
    cases es with
    | nil => cases h
    | cons e es =>
      rw [List.flatMap_cons, Encoded.shown] at h
      by_cases hk : e.rank ≤ k
      · rw [if_pos hk] at h
        obtain ⟨y, v, hunits⟩ := List.exists_cons_of_ne_nil (utf16Units_ne_nil e.char)
        rw [Encoded.units, hunits] at h
        obtain ⟨rfl, htail⟩ := List.cons.inj h
        have hv := utf16Units_of_head (hsmall y List.mem_cons_self) hunits
        subst hv
        obtain ⟨mid, suf, rfl, hmid, hsuf, hrank⟩ :=
          ih hamp.2 (fun x hx => hsmall x (List.mem_cons_of_mem y hx)) htail
        refine ⟨e :: mid, suf, rfl, ?_, hsuf, ?_⟩
        · rw [List.flatMap_cons, hmid, Encoded.units, hunits]
          rfl
        · intro m hm
          rcases List.mem_cons.mp hm with rfl | hm
          · exact hk
          · exact hrank m hm
      · rw [if_neg hk] at h
        obtain ⟨⟨v, hv, -⟩, -⟩ := e.render_of_rank (by omega)
        rw [hv] at h
        exact absurd (List.cons.inj h).1 hamp.1

theorem Encoded.isHex_iff (e : Encoded) : e.form.isHex = true ↔ e.rank = 6 := by
  rw [rank]
  cases e.form with
  | named => grind [Form.isHex]
  | _ => simp [Form.isHex]

theorem Encoded.isDecimal_iff (e : Encoded) : e.form.isDecimal = true ↔ e.rank = 5 := by
  rw [rank]
  cases e.form with
  | named => grind [Form.isDecimal]
  | _ => simp [Form.isDecimal]

theorem rank_of_mem {mid : List Encoded} {u : Text} (hmid : mid.flatMap Encoded.units = u) (hamp : AMP ∉ u) :
    ∀ m ∈ mid, m.char ≠ '&' ∧ m.rank ≤ 6 := by
  intro m hm
  have hc : m.char ≠ '&' := by
    intro hc
    apply hamp
    rw [← hmid]
    refine List.mem_flatMap.mpr ⟨m, hm, ?_⟩
    rw [Encoded.units, hc]
    exact List.mem_singleton.mpr rfl
  refine ⟨hc, ?_⟩
  have hle := m.rank_le
  by_contra h7
  have hf := m.named_of_rank (by omega) (by omega) (by omega)
  have hent := m.render_of_named hf
  have hrank : m.rank = 7 := by omega
  exact hc (m.char_of_rank_seven hrank).1

theorem body_plain {ds : Text} (hds : ∀ u ∈ ds, isHexDigit u = true) :
    AMP ∉ [HASH, LOWER_X] ++ ds ++ [SEMICOLON] ∧ ∀ x ∈ [HASH, LOWER_X] ++ ds ++ [SEMICOLON], x < 0xD800 := by
  have hno : AMP ∉ ds := Encoded.amp_notMem_of_class (by decide) hds
  apply And.intro
  · simp only [List.mem_append, List.mem_cons, List.not_mem_nil, or_false, not_or]
    exact ⟨⟨by decide, hno⟩, by decide⟩
  · intro x hx
    simp only [List.mem_append, List.mem_cons, List.not_mem_nil, or_false] at hx
    rcases hx with ((rfl | rfl) | hx) | rfl
    · decide
    · decide
    · have hdigit := hds x hx
      simp only [isHexDigit, isDigit, Bool.or_eq_true, Bool.and_eq_true, decide_eq_true_eq] at hdigit
      omega
    · decide

/-- A decimal ampersand that the text after it completes to a hexadecimal reference. -/
theorem opensHex_of_text {e : Encoded} {suf : List Encoded} (he : e.rank = 5) {w left : Text}
    (h : AMP :: suf.flatMap (Encoded.shown 5) = w ++ left) (hw : Reference [AMP, HASH, LOWER_X] isHexDigit w) :
    OpensHex e suf := by
  obtain ⟨ds, hne, hds, rfl⟩ := hw
  obtain ⟨hno, hsmall⟩ := body_plain hds
  have htail : suf.flatMap (Encoded.shown 5) = ([HASH, LOWER_X] ++ ds ++ [SEMICOLON]) ++ left := (List.cons.inj h).2
  obtain ⟨mid, rest, rfl, hmid, -, hrank⟩ := spelled hno hsmall htail
  refine ⟨e.isDecimal_iff.mpr he, mid, rest, ds, rfl, ?_, hne, hds, hmid⟩
  intro m hm
  have := hrank m hm
  have hsix := m.isHex_iff
  grind

theorem opensAmp_of_text {e : Encoded} {suf : List Encoded} (he : e.rank = 5 ∨ e.rank = 6) {left : Text}
    (h : AMP :: suf.flatMap (Encoded.shown 6) = utf16 "&amp;" ++ left) : OpensAmp e suf := by
  have htail : suf.flatMap (Encoded.shown 6) = utf16 "amp;" ++ left := (List.cons.inj h).2
  obtain ⟨mid, rest, rfl, hmid, -, -⟩ := spelled (by decide) (by decide) htail
  refine ⟨?_, mid, rest, rfl, hmid⟩
  rw [Bool.or_eq_true, e.isDecimal_iff, e.isHex_iff]
  exact he

/-! ## Texts without misread ampersands -/

theorem hexPass_item (e : Encoded) (rest : Text)
    (h : e.char = '&' → e.rank = 5 →
      ∀ w left, AMP :: rest = w ++ left → ¬ Reference [AMP, HASH, LOWER_X] isHexDigit w) :
    hexPass (e.shown 5 ++ rest) = (hexPass rest).map (e.shown 6 ++ ·) := by
  apply decodes_hex.item e rest
  intro hc hle
  have := e.rank_of_amp hc
  exact h hc (by omega)

theorem ampPass_item (e : Encoded) (rest : Text)
    (h : e.char = '&' → e.rank = 5 ∨ e.rank = 6 → ∀ left, AMP :: rest ≠ utf16 "&amp;" ++ left) :
    ampPass (e.shown 6 ++ rest) = e.units ++ ampPass rest := by
  have hitem : e.char = '&' → e.rank ≤ 6 → ∀ w left, AMP :: rest = w ++ left → ¬ w = utf16 "&amp;" := by
    intro hc hle w left he hw
    have := e.rank_of_amp hc
    rw [hw] at he
    exact h hc (by omega) left he
  have hunits : e.shown (6 + 1) = e.units := if_pos e.rank_le
  have hstep := decodes_amp.item e rest hitem
  rw [replaceAllM_some, replaceAllM_some, hunits] at hstep
  exact Option.some.inj hstep

theorem hexPass_shown (es : List Encoded) (h : ¬ Misread es) :
    hexPass (es.flatMap (Encoded.shown 5)) = some (es.flatMap (Encoded.shown 6)) := by
  induction es with
  | nil => exact decodes_hex.nil
  | cons e es ih =>
    rw [misread_cons, not_or] at h
    rw [List.flatMap_cons, List.flatMap_cons, hexPass_item, ih h.2]
    · rfl
    · intro hc h5 w left he hw
      exact h.1 ⟨hc, .inl (opensHex_of_text h5 he hw)⟩

theorem ampPass_shown (es : List Encoded) (h : ¬ Misread es) :
    ampPass (es.flatMap (Encoded.shown 6)) = es.flatMap Encoded.units := by
  induction es with
  | nil => exact Option.some.inj ((replaceAllM_some _ _).symm.trans decodes_amp.nil)
  | cons e es ih =>
    rw [misread_cons, not_or] at h
    rw [List.flatMap_cons, List.flatMap_cons, ampPass_item, ih h.2]
    intro hc h56 left he
    exact h.1 ⟨hc, .inr (opensAmp_of_text h56 he)⟩

theorem decode_of_not_misread (es : List Encoded) (h : ¬ Misread es) :
    decodeXmlEntities (es.flatMap Encoded.render) = some (es.flatMap Encoded.units) := by
  rw [decodeXmlEntities_render, hexPass_shown es h, Option.map_some, ampPass_shown es h]

/-! ## Texts with misread ampersands -/

theorem ampPass_hit (rest : Text) : ampPass (utf16 "&amp;" ++ rest) = AMP :: ampPass rest := by
  have h := decodes_amp.hit (f := fun _ => some (utf16 "&")) (w := utf16 "&amp;") rfl rfl rest
  rw [replaceAllM_some, replaceAllM_some] at h
  exact Option.some.inj h

theorem ampPass_over {u : Text} (hu : AMP ∉ u) (rest : Text) : ampPass (u ++ rest) = u ++ ampPass rest := by
  have h := decodes_amp.over (f := fun _ => some (utf16 "&")) hu rest
  rw [replaceAllM_some, replaceAllM_some] at h
  exact Option.some.inj h

theorem ampPass_amp {rest : Text} (h : ∀ left, AMP :: rest ≠ utf16 "&amp;" ++ left) :
    ampPass (AMP :: rest) = AMP :: ampPass rest := by
  have hmiss : ∀ w left, AMP :: rest = w ++ left → ¬ w = utf16 "&amp;" := by
    intro w left he hw
    rw [hw] at he
    exact h left he
  have hstep := decodes_amp.miss (f := fun _ => some (utf16 "&")) hmiss
  rw [replaceAllM_some, replaceAllM_some] at hstep
  exact Option.some.inj hstep

theorem length_ampPass_cons (u : Nat) (rest : Text) : (ampPass (u :: rest)).length ≤ (ampPass rest).length + 1 := by
  by_cases hu : u = AMP
  · subst hu
    by_cases h : ∃ left, AMP :: rest = utf16 "&amp;" ++ left
    · obtain ⟨left, he⟩ := h
      have hrest : rest = utf16 "amp;" ++ left := (List.cons.inj he).2
      rw [he, ampPass_hit, hrest, ampPass_over (by decide), List.length_cons, List.length_append]
      omega
    · rw [ampPass_amp (fun left he => h ⟨left, he⟩), List.length_cons]
  · have hover := ampPass_over (u := [u]) (by simpa using fun h => hu h.symm) rest
    rw [List.singleton_append, List.singleton_append] at hover
    rw [hover, List.length_cons]

theorem length_ampPass_append (u rest : Text) :
    (ampPass (u ++ rest)).length ≤ (ampPass rest).length + u.length := by
  induction u with
  | nil => exact Nat.le_refl _
  | cons a u ih =>
    have := length_ampPass_cons a (u ++ rest)
    rw [List.cons_append, List.length_cons]
    omega

theorem length_fromCodePoint {n : Nat} {out : Text} (h : fromCodePoint n = some out) : out.length ≤ 2 := by
  rw [fromCodePoint] at h
  by_cases hmax : 0x10FFFF < n
  · rw [if_pos hmax] at h
    cases h
  · rw [if_neg hmax] at h
    by_cases hn : n < 0x10000
    · rw [if_pos hn] at h
      cases h
      exact Nat.le_succ 1
    · rw [if_neg hn] at h
      cases h
      exact Nat.le_refl 2

theorem hexPass_items {mid : List Encoded} (hmid : ∀ m ∈ mid, m.char ≠ '&') (rest : Text) :
    hexPass (mid.flatMap (Encoded.shown 5) ++ rest) = (hexPass rest).map (mid.flatMap Encoded.units ++ ·) := by
  induction mid with
  | nil => cases h : hexPass rest <;> simp [h]
  | cons m mid ih =>
    have hc := hmid m List.mem_cons_self
    have hunits : m.shown 6 = m.units := by
      apply if_pos
      have hle := m.rank_le
      by_contra h6
      exact hc (m.char_of_rank_seven (by omega)).1
    rw [List.flatMap_cons, List.append_assoc, hexPass_item m _ (fun h => absurd h hc),
      ih (fun m' hm' => hmid m' (List.mem_cons_of_mem m hm')), Option.map_map, hunits, List.flatMap_cons]
    cases h : hexPass rest <;> simp

/-- No more units come back than were written, and fewer where an ampersand is misread. -/
def Bounded (es : List Encoded) : Prop :=
  ∀ value, hexPass (es.flatMap (Encoded.shown 5)) = some value →
    (ampPass value).length ≤ (es.flatMap Encoded.units).length ∧
      (Misread es → (ampPass value).length < (es.flatMap Encoded.units).length)

theorem Encoded.units_amp {e : Encoded} (hc : e.char = '&') : e.units = [AMP] := by
  rw [units, hc]
  rfl

theorem bounded_plain {e : Encoded} {es : List Encoded} (hc : e.char ≠ '&')
    (ih : Bounded es) : Bounded (e :: es) := by
  intro value hvalue
  have hplain : ∀ m ∈ [e], m.char ≠ '&' := by simpa using hc
  have hmid := hexPass_items hplain (es.flatMap (Encoded.shown 5))
  simp only [List.flatMap_cons, List.flatMap_nil, List.append_nil] at hmid hvalue ⊢
  rw [hmid, Option.map_eq_some_iff] at hvalue
  obtain ⟨tail, htail, rfl⟩ := hvalue
  obtain ⟨hle, hlt⟩ := ih tail htail
  have hover : (ampPass (e.units ++ tail)).length = e.units.length + (ampPass tail).length := by
    rw [ampPass_over (u := e.units) (fun h => hc (amp_mem_units h)), List.length_append]
  rw [misread_cons, hover, List.length_append]
  refine ⟨by omega, fun hm => ?_⟩
  rcases hm with ⟨hamp, -⟩ | hm
  · exact absurd hamp hc
  · have := hlt hm
    omega

theorem bounded_named {e : Encoded} {es : List Encoded} (h7 : e.rank = 7)
    (ih : Bounded es) : Bounded (e :: es) := by
  obtain ⟨hc, hrender⟩ := e.char_of_rank_seven h7
  intro value hvalue
  have hshown : e.shown 6 = utf16 "&amp;" := by rw [Encoded.shown, if_neg (by omega), hrender]
  rw [List.flatMap_cons, hexPass_item e _ (fun _ h5 => by omega), Option.map_eq_some_iff, hshown] at hvalue
  obtain ⟨tail, htail, rfl⟩ := hvalue
  obtain ⟨hle, hlt⟩ := ih tail htail
  rw [misread_cons, ampPass_hit, List.flatMap_cons, Encoded.units_amp hc, List.length_append, List.length_cons,
    List.length_singleton]
  refine ⟨by omega, fun hm => ?_⟩
  rcases hm with ⟨-, hopens⟩ | hm
  · rcases hopens with ⟨hdec, -⟩ | ⟨hnum, -⟩
    · have := e.isDecimal_iff.mp hdec
      omega
    · rw [Bool.or_eq_true, e.isDecimal_iff, e.isHex_iff] at hnum
      omega
  · have := hlt hm
    omega

/-- An ampersand that the sixth pass leaves or makes. -/
theorem bounded_amp {e : Encoded} {es : List Encoded} (hc : e.char = '&') (h56 : e.rank ≤ 6) (hno : ¬ OpensHex e es)
    (ih : ∀ suf, suf <:+ es → Bounded suf) : Bounded (e :: es) := by
  intro value hvalue
  have hshown : e.shown 6 = [AMP] := by rw [Encoded.shown, if_pos h56, Encoded.units_amp hc]
  rw [List.flatMap_cons, hexPass_item e _ (fun _ h5 w left he hw => hno (opensHex_of_text h5 he hw)),
    Option.map_eq_some_iff, hshown] at hvalue
  obtain ⟨tail, htail, rfl⟩ := hvalue
  obtain ⟨hle, hlt⟩ := ih es List.suffix_rfl tail htail
  have hcons := length_ampPass_cons AMP tail
  rw [misread_cons, List.flatMap_cons, Encoded.units_amp hc, List.singleton_append, List.singleton_append,
    List.length_cons]
  refine ⟨by omega, fun hm => ?_⟩
  rcases hm with ⟨-, hopens | ⟨-, mid, rest, rfl, hmid⟩⟩ | hm
  · exact absurd hopens hno
  · -- the text `amp;` reaches the last pass as it is
    have hplain := rank_of_mem hmid (by decide)
    rw [List.flatMap_append, hexPass_items (fun m hm => (hplain m hm).1), Option.map_eq_some_iff, hmid] at htail
    obtain ⟨left, hleft, rfl⟩ := htail
    have hrest := (ih rest (List.suffix_append mid rest) left hleft).1
    have hhit : ampPass (AMP :: (utf16 "amp;" ++ left)) = AMP :: ampPass left := ampPass_hit left
    have hfour : (utf16 "amp;").length = 4 := rfl
    rw [hhit, List.flatMap_append, hmid, List.length_cons, List.length_append, hfour]
    omega
  · have := hlt hm
    omega

theorem bounded_hex {e : Encoded} {es : List Encoded} (hc : e.char = '&') (hopens : OpensHex e es)
    (ih : ∀ suf, suf <:+ es → Bounded suf) : Bounded (e :: es) := by
  obtain ⟨hdec, mid, rest, ds, rfl, hhex, hne, hds, hmid⟩ := hopens
  obtain ⟨hno, -⟩ := body_plain hds
  have hplain := rank_of_mem hmid hno
  intro value hvalue
  have hshown : e.shown 5 = [AMP] := by
    rw [Encoded.shown, if_pos (by rw [e.isDecimal_iff.mp hdec]), Encoded.units_amp hc]
  have hmidShown : mid.flatMap (Encoded.shown 5) = [HASH, LOWER_X] ++ ds ++ [SEMICOLON] := by
    rw [← hmid]
    apply List.flatMap_congr
    intro m hm
    apply if_pos
    have h6 := (hplain m hm).2
    have hsix := m.isHex_iff
    have := hhex m hm
    grind
  have hword : AMP :: ([HASH, LOWER_X] ++ ds ++ [SEMICOLON]) = [AMP, HASH, LOWER_X] ++ ds ++ [SEMICOLON] := rfl
  rw [List.flatMap_cons, hshown, List.flatMap_append, hmidShown, List.singleton_append, ← List.cons_append,
    hword] at hvalue
  cases hf : hexCodePoint ([AMP, HASH, LOWER_X] ++ ds ++ [SEMICOLON]) with
  | none =>
    rw [hexPass, decodes_hex.throws ⟨ds, hne, hds, rfl⟩ hf] at hvalue
    cases hvalue
  | some out =>
    rw [hexPass, decodes_hex.hit ⟨ds, hne, hds, rfl⟩ hf, Option.map_eq_some_iff] at hvalue
    obtain ⟨left, hleft, rfl⟩ := hvalue
    have hrest := (ih rest (List.suffix_append mid rest) left hleft).1
    have happend := length_ampPass_append out left
    have hout : out.length ≤ 2 := by
      rw [hexCodePoint_reference] at hf
      exact length_fromCodePoint hf
    rw [List.flatMap_cons, List.flatMap_append, hmid, Encoded.units_amp hc]
    simp only [List.length_append, List.length_cons, List.length_nil]
    omega

theorem bounded (n : Nat) (es : List Encoded) (hn : es.length ≤ n) : Bounded es := by
  induction n generalizing es with
  | zero =>
    rw [List.length_eq_zero_iff.mp (Nat.le_zero.mp hn)]
    intro value hvalue
    have hnil : value = [] := Option.some.inj (hvalue.symm.trans decodes_hex.nil)
    have hamp : ampPass [] = [] := Option.some.inj ((replaceAllM_some _ _).symm.trans decodes_amp.nil)
    rw [hnil, hamp]
    exact ⟨Nat.le_refl _, fun h => absurd h not_misread_nil⟩
  | succ n ih =>
    cases es with
    | nil => exact ih [] (Nat.zero_le n)
    | cons e es =>
      rw [List.length_cons] at hn
      have hsuf : ∀ suf, suf <:+ es → Bounded suf := fun suf h => ih suf (by have := h.length_le; omega)
      by_cases hc : e.char = '&'
      · by_cases h6 : e.rank ≤ 6
        · by_cases hopens : OpensHex e es
          · exact bounded_hex hc hopens hsuf
          · exact bounded_amp hc h6 hopens hsuf
        · have hle := e.rank_le
          exact bounded_named (by omega) (hsuf es List.suffix_rfl)
      · exact bounded_plain hc (hsuf es List.suffix_rfl)

theorem decode_render_iff (es : List Encoded) :
    decodeXmlEntities (es.flatMap Encoded.render) = some (es.flatMap Encoded.units) ↔ ¬ Misread es := by
  apply Iff.intro
  · intro h hm
    rw [decodeXmlEntities_render, Option.map_eq_some_iff] at h
    obtain ⟨value, hvalue, hamp⟩ := h
    have hlt := (bounded es.length es (Nat.le_refl _) value hvalue).2 hm
    rw [hamp] at hlt
    exact Nat.lt_irrefl _ hlt
  · exact decode_of_not_misread es

end DocVault
