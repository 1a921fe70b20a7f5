import DocVault.DlpScanner

/-!
# Decoding entities one kind after the other

The scanner decodes the entities of a text in seven passes, each of which
reads what the one before it has left. An ampersand that an early pass decodes
is read again by the later ones.
-/

namespace DocVault

open Regex DlpScanner

/-! ## Passes -/

/-- The units of `&`, `#`, `x` and `;`. -/
abbrev AMP : Nat := 38
abbrev HASH : Nat := 35
abbrev LOWER_X : Nat := 120
abbrev SEMICOLON : Nat := 59

/-- An expression for entities: they begin at an ampersand, which is the only one they have. -/
structure Pass (r : Regex Nat) (L : Text → Prop) : Prop where
  reads : Denotes isWord r L
  prefixFree : PrefixFree L
  led : ∀ w, L w → ∃ v, w = AMP :: v ∧ AMP ∉ v

section
variable {r : Regex Nat} {L : Text → Prop} {f : Text → Option Text}

theorem Pass.not_nil (hp : Pass r L) : ¬ L [] := by
  intro h
  obtain ⟨v, hv, -⟩ := hp.led [] h
  cases hv

theorem Pass.nil (hp : Pass r L) : replaceAllM isWord r f [] = some [] := replaceAllM_nil hp.reads hp.not_nil

theorem Pass.hit (hp : Pass r L) {w out : Text} (hw : L w) (hf : f w = some out) (rest : Text) :
    replaceAllM isWord r f (w ++ rest) = (replaceAllM isWord r f rest).map (out ++ ·) := by
  rw [replaceAllM_reads hp.reads hp.prefixFree hp.not_nil hw, hf]
  rfl

theorem Pass.throws (hp : Pass r L) {w : Text} (hw : L w) (hf : f w = none) (rest : Text) :
    replaceAllM isWord r f (w ++ rest) = none := by
  rw [replaceAllM_reads hp.reads hp.prefixFree hp.not_nil hw, hf]
  rfl

theorem Pass.miss (hp : Pass r L) {u : Nat} {rest : Text} (h : ∀ w left, u :: rest = w ++ left → ¬ L w) :
    replaceAllM isWord r f (u :: rest) = (replaceAllM isWord r f rest).map (u :: ·) :=
  replaceAllM_other hp.reads hp.prefixFree hp.not_nil h

theorem Pass.over (hp : Pass r L) {u : Text} (hu : AMP ∉ u) (rest : Text) :
    replaceAllM isWord r f (u ++ rest) = (replaceAllM isWord r f rest).map (u ++ ·) := by
  induction u with
  | nil => cases h : replaceAllM isWord r f rest <;> simp [h]
  | cons a u ih =>
    simp only [List.mem_cons, not_or] at hu
    have hmiss : ∀ w left, a :: (u ++ rest) = w ++ left → ¬ L w := by
      intro w left he hw
      obtain ⟨v, rfl, -⟩ := hp.led w hw
      exact hu.1 (List.cons.inj he).1.symm
    rw [List.cons_append, hp.miss hmiss, ih hu.2, Option.map_map]
    rfl

/-- A piece that begins with an ampersand but not with an entity of the pass. -/
theorem Pass.keep (hp : Pass r L) {v rest : Text} (hv : AMP ∉ v)
    (h : ∀ w left, AMP :: (v ++ rest) = w ++ left → ¬ L w) :
    replaceAllM isWord r f (AMP :: v ++ rest) = (replaceAllM isWord r f rest).map (AMP :: v ++ ·) := by
  rw [List.cons_append, hp.miss h, hp.over hv, Option.map_map]
  rfl

end

theorem pass_text (w v : Text) (hw : w = AMP :: v) (hv : AMP ∉ v) : Pass (lit w) (· = w) where
  reads := denotes_lit w
  prefixFree := by
    intro u u' rest left hu hu' _
    rw [hu, hu']
  led := by
    intro u hu
    exact ⟨v, hu.trans hw, hv⟩

/-- `open`, one unit of the class or more, a semicolon. -/
def Reference (opening : Text) (p : Nat → Bool) (w : Text) : Prop :=
  ∃ ds, ds ≠ [] ∧ (∀ u ∈ ds, p u = true) ∧ w = opening ++ ds ++ [SEMICOLON]

theorem denotes_reference (opening : Text) (p : Nat → Bool) :
    Denotes isWord (chain [lit opening, plus p, text ";"]) (Reference opening p) := by
  have h : Denotes isWord _ _ := denotes_seq (denotes_lit opening)
    (denotes_seq (denotes_plus p) (denotes_seq (denotes_lit (utf16 ";")) denotes_empty))
  intro b t c
  rw [chain, List.foldr_cons, List.foldr_cons, List.foldr_cons, List.foldr_nil, text, h b t c]
  apply exists_congr
  intro w
  apply and_congr_left'
  apply Iff.intro
  · intro hw
    obtain ⟨_, _, rfl, rfl, ds, _, rfl, ⟨hne, hds⟩, _, _, rfl, rfl, rfl⟩ := hw
    exact ⟨ds, hne, hds, by rw [List.append_nil, List.append_assoc]; rfl⟩
  · intro hw
    obtain ⟨ds, hne, hds, rfl⟩ := hw
    exact ⟨opening, _, List.append_assoc _ _ _, rfl, ds, _, rfl, ⟨hne, hds⟩, _, [],
      (List.append_nil _).symm, rfl, rfl⟩

theorem reference_unique {opening : Text} {p : Nat → Bool} (hp : p SEMICOLON = false) :
    PrefixFree (Reference opening p) := by
  intro w v rest left hw hv he
  obtain ⟨ds, -, hds, rfl⟩ := hw
  obtain ⟨es, -, hes, rfl⟩ := hv
  simp only [List.append_assoc, List.singleton_append] at he
  obtain ⟨rfl, -⟩ := span_unique hp hds hes (List.append_cancel_left he)
  rfl

theorem pass_reference {opening v : Text} {p : Nat → Bool} (ho : opening = AMP :: v) (hv : AMP ∉ v)
    (hp : p SEMICOLON = false) (hamp : p AMP = false) :
    Pass (chain [lit opening, plus p, text ";"]) (Reference opening p) where
  reads := denotes_reference opening p
  prefixFree := reference_unique hp
  led := by
    intro w hw
    obtain ⟨ds, -, hds, rfl⟩ := hw
    refine ⟨v ++ ds ++ [SEMICOLON], by rw [ho]; rfl, ?_⟩
    simp only [List.mem_append, List.mem_singleton, not_or]
    refine ⟨⟨hv, ?_⟩, by decide⟩
    intro h
    rw [hds AMP h] at hamp
    cases hamp

theorem pass_decimal : Pass decimalReference (Reference [AMP, HASH] isDigit) := by
  have ho : utf16 "&#" = AMP :: [HASH] := rfl
  have h := pass_reference (p := isDigit) ho (by decide) (by decide) (by decide)
  rw [ho] at h
  rw [decimalReference, text, ho]
  exact h

theorem pass_hex : Pass hexReference (Reference [AMP, HASH, LOWER_X] isHexDigit) := by
  have ho : utf16 "&#x" = AMP :: [HASH, LOWER_X] := rfl
  have h := pass_reference (p := isHexDigit) ho (by decide) (by decide) (by decide)
  rw [ho] at h
  rw [hexReference, text, ho]
  exact h

/-! ## Written characters -/

/-- How a character stands in the text: as it is, by its name or by its number. -/
inductive Form where
  | raw
  | named
  | decimal (ds : Text)
  | hex (ds : Text)

def Form.isDecimal : Form → Bool
  | decimal _ => true
  | _ => false

def Form.isHex : Form → Bool
  | hex _ => true
  | _ => false

def entity (c : Char) : Option Text :=
  if c = '<' then some (utf16 "&lt;")
  else if c = '>' then some (utf16 "&gt;")
  else if c = '"' then some (utf16 "&quot;")
  else if c = '\'' then some (utf16 "&apos;")
  else if c = '&' then some (utf16 "&amp;")
  else none

def Form.Writes (c : Char) : Form → Prop
  | raw => c ≠ '<' ∧ c ≠ '&'
  | named => (entity c).isSome = true
  | decimal ds => ds ≠ [] ∧ (∀ u ∈ ds, isDigit u = true) ∧ numeral 10 ds = c.toNat
  | hex ds => ds ≠ [] ∧ (∀ u ∈ ds, isHexDigit u = true) ∧ numeral 16 ds = c.toNat

structure Encoded where
  char : Char
  form : Form
  writes : form.Writes char

namespace Encoded

def units (e : Encoded) : Text := utf16Units e.char

def render (e : Encoded) : Text :=
  match e.form with
  | .raw => e.units
  | .named => (entity e.char).getD []
  | .decimal ds => [AMP, HASH] ++ ds ++ [SEMICOLON]
  | .hex ds => [AMP, HASH, LOWER_X] ++ ds ++ [SEMICOLON]

/-- The pass that decodes it, counted from one. -/
def rank (e : Encoded) : Nat :=
  match e.form with
  | .raw => 0
  | .named => if e.char = '<' then 1 else if e.char = '>' then 2 else if e.char = '"' then 3
      else if e.char = '\'' then 4 else 7
  | .decimal _ => 5
  | .hex _ => 6

/-- What the first `k` passes make of it, left alone by what follows. -/
def shown (k : Nat) (e : Encoded) : Text := if e.rank ≤ k then e.units else e.render

end Encoded

/-- Which pass an entity is for, by the units after the ampersand. -/
def kind : Text → Nat
  | _ :: 108 :: _ => 1
  | _ :: 103 :: _ => 2
  | _ :: 113 :: _ => 3
  | _ :: 97 :: u :: _ => if u = 112 then 4 else 7
  | _ :: 35 :: u :: _ => if isDigit u then 5 else 6
  | _ => 0

theorem of_mem_units {c d : Char} (hd : d.toNat < 0xD800) (h : d.toNat ∈ utf16Units c) : c = d := by
  rw [utf16Units] at h
  by_cases hc : c.toNat < 0x10000
  · rw [if_pos hc, List.mem_singleton] at h
    exact Char.toNat_inj.mp h.symm
  · rw [if_neg hc] at h
    simp only [List.mem_cons, List.not_mem_nil, or_false] at h
    omega

theorem amp_mem_units {c : Char} (h : AMP ∈ utf16Units c) : c = '&' := of_mem_units (d := '&') (by decide) h

theorem fromCodePoint_toNat (c : Char) : fromCodePoint c.toNat = some (utf16Units c) := by
  have hmax : ¬ 0x10FFFF < c.toNat := by
    have hvalid := c.valid
    have hval : c.val.toNat = c.toNat := rfl
    rcases hvalid with h | h
    · omega
    · omega
  rw [fromCodePoint, if_neg hmax, utf16Units]
  by_cases hc : c.toNat < 0x10000
  · rw [if_pos hc, if_pos hc]
  · rw [if_neg hc, if_neg hc]

namespace Encoded

variable (e : Encoded)

theorem rank_le : e.rank ≤ 7 := by
  rw [rank]
  cases e.form with
  | named => grind
  | _ => simp

theorem rank_of_amp (h : e.char = '&') : 5 ≤ e.rank := by
  have hw := e.writes
  rw [rank]
  cases hf : e.form with
  | raw =>
    rw [hf] at hw
    exact absurd h hw.2
  | named => simp [h]
  | decimal ds => simp
  | hex ds => simp

theorem char_of_rank_seven (h : e.rank = 7) : e.char = '&' ∧ e.render = utf16 "&amp;" := by
  have hw := e.writes
  rw [rank] at h
  rw [render]
  cases hf : e.form with
  | named =>
    rw [hf] at h hw
    rw [Form.Writes, entity] at hw
    have hc : e.char = '&' := by grind
    rw [hc]
    exact ⟨rfl, rfl⟩
  | _ => simp [hf] at h

theorem render_of_named (hf : e.form = .named) : entity e.char = some e.render := by
  have hw := e.writes
  rw [hf] at hw
  obtain ⟨w, hent⟩ := Option.isSome_iff_exists.mp hw
  rw [render, hf, hent]
  rfl

theorem entity_cases {c : Char} {w : Text} (h : entity c = some w) :
    (c = '<' ∧ w = utf16 "&lt;") ∨ (c = '>' ∧ w = utf16 "&gt;") ∨ (c = '"' ∧ w = utf16 "&quot;") ∨
      (c = '\'' ∧ w = utf16 "&apos;") ∨ (c = '&' ∧ w = utf16 "&amp;") := by
  rw [entity] at h
  by_cases h1 : c = '<'
  · rw [if_pos h1] at h
    exact .inl ⟨h1, (Option.some.inj h).symm⟩
  rw [if_neg h1] at h
  by_cases h2 : c = '>'
  · rw [if_pos h2] at h
    exact .inr (.inl ⟨h2, (Option.some.inj h).symm⟩)
  rw [if_neg h2] at h
  by_cases h3 : c = '"'
  · rw [if_pos h3] at h
    exact .inr (.inr (.inl ⟨h3, (Option.some.inj h).symm⟩))
  rw [if_neg h3] at h
  by_cases h4 : c = '\''
  · rw [if_pos h4] at h
    exact .inr (.inr (.inr (.inl ⟨h4, (Option.some.inj h).symm⟩)))
  rw [if_neg h4] at h
  by_cases h5 : c = '&'
  · rw [if_pos h5] at h
    exact .inr (.inr (.inr (.inr ⟨h5, (Option.some.inj h).symm⟩)))
  · rw [if_neg h5] at h
    cases h

theorem amp_notMem_of_class {p : Nat → Bool} (hp : p AMP = false) {ds : Text} (hds : ∀ u ∈ ds, p u = true) :
    AMP ∉ ds := by
  intro h
  rw [hds AMP h] at hp
  cases hp

/-- What is decoded later begins with an ampersand, and the units after it tell the pass. -/
theorem render_of_rank (h : 0 < e.rank) :
    (∃ v, e.render = AMP :: v ∧ AMP ∉ v) ∧ ∀ rest, kind (e.render ++ rest) = e.rank := by
  have hw := e.writes
  cases hf : e.form with
  | raw => simp [rank, hf] at h
  | named =>
    rcases entity_cases (e.render_of_named hf) with ⟨hc, hr⟩ | ⟨hc, hr⟩ | ⟨hc, hr⟩ | ⟨hc, hr⟩ | ⟨hc, hr⟩
    all_goals
      rw [hr, rank, hf, hc]
      exact ⟨⟨_, rfl, by decide⟩, fun rest => rfl⟩
  | decimal ds =>
    rw [hf] at hw
    obtain ⟨hne, hds, -⟩ := hw
    obtain ⟨d, ds', rfl⟩ := List.exists_cons_of_ne_nil hne
    rw [render, rank, hf]
    refine ⟨⟨HASH :: (d :: ds' ++ [SEMICOLON]), rfl, ?_⟩, ?_⟩
    · have hno := amp_notMem_of_class (by decide) hds
      simp only [List.mem_cons, List.mem_append, not_or] at hno ⊢
      exact ⟨by decide, hno, by decide⟩
    · intro rest
      have hd := hds d List.mem_cons_self
      simp [kind, hd]
  | hex ds =>
    rw [hf] at hw
    rw [render, rank, hf]
    refine ⟨⟨HASH :: LOWER_X :: (ds ++ [SEMICOLON]), rfl, ?_⟩, fun rest => rfl⟩
    have hno := amp_notMem_of_class (by decide) hw.2.1
    simp only [List.mem_cons, List.mem_append, not_or]
    exact ⟨by decide, by decide, hno, by decide⟩

end Encoded

/-! ## One pass over written characters -/

/-- A pass that decodes the characters of its rank. -/
structure Decodes (k : Nat) (r : Regex Nat) (L : Text → Prop) (f : Text → Option Text) : Prop extends Pass r L where
  kind_eq : ∀ w left, L w → kind (w ++ left) = k
  decodes : ∀ e : Encoded, e.rank = k → L e.render ∧ f e.render = some e.units

section
variable {k : Nat} {r : Regex Nat} {L : Text → Prop} {f : Text → Option Text}

theorem Decodes.item (hd : Decodes (k + 1) r L f) (e : Encoded) (rest : Text)
    (h : e.char = '&' → e.rank ≤ k → ∀ w left, AMP :: rest = w ++ left → ¬ L w) :
    replaceAllM isWord r f (e.shown k ++ rest) = (replaceAllM isWord r f rest).map (e.shown (k + 1) ++ ·) := by
  rw [Encoded.shown, Encoded.shown]
  by_cases hle : e.rank ≤ k
  · rw [if_pos hle, if_pos (by omega)]
    by_cases hc : e.char = '&'
    · have hu : e.units = [AMP] := by
        rw [Encoded.units, hc]
        rfl
      rw [hu, List.singleton_append, hd.miss (h hc hle)]
      rfl
    · exact hd.over (fun hmem => hc (amp_mem_units hmem)) rest
  · rw [if_neg hle]
    by_cases heq : e.rank = k + 1
    · obtain ⟨hw, hf⟩ := hd.decodes e heq
      rw [if_pos (by omega), hd.hit hw hf]
    · rw [if_neg (by omega)]
      obtain ⟨⟨v, hv, hno⟩, hkind⟩ := e.render_of_rank (by omega)
      rw [hv] at hkind ⊢
      apply hd.keep hno
      intro w left he hw
      have hwk := hd.kind_eq w left hw
      rw [← he, ← List.cons_append, hkind rest] at hwk
      exact heq hwk

theorem Decodes.stage (hd : Decodes (k + 1) r L f) (hk : k ≤ 4) (es : List Encoded) :
    replaceAllM isWord r f (es.flatMap (Encoded.shown k)) = some (es.flatMap (Encoded.shown (k + 1))) := by
  induction es with
  | nil => exact hd.nil
  | cons e es ih =>
    have hamp : e.char = '&' → e.rank ≤ k →
        ∀ w left, AMP :: es.flatMap (Encoded.shown k) = w ++ left → ¬ L w := by
      intro hc hle
      have := e.rank_of_amp hc
      omega
    rw [List.flatMap_cons, List.flatMap_cons, hd.item e _ hamp, ih]
    rfl

end

theorem Encoded.named_of_rank (e : Encoded) (h0 : e.rank ≠ 0) (h5 : e.rank ≠ 5) (h6 : e.rank ≠ 6) :
    e.form = .named := by
  cases hf : e.form with
  | named => rfl
  | raw => exact absurd (by rw [rank, hf]) h0
  | decimal ds => exact absurd (by rw [rank, hf]) h5
  | hex ds => exact absurd (by rw [rank, hf]) h6

theorem entity_kind {c d : Char} {w v : Text} (hc : entity c = some w)
    (hd : entity d = some v) (h : kind w = kind v) : c = d ∧ w = v := by
  rcases Encoded.entity_cases hc with ⟨rfl, rfl⟩ | ⟨rfl, rfl⟩ | ⟨rfl, rfl⟩ | ⟨rfl, rfl⟩ | ⟨rfl, rfl⟩
  all_goals
    rcases Encoded.entity_cases hd with ⟨rfl, rfl⟩ | ⟨rfl, rfl⟩ | ⟨rfl, rfl⟩ | ⟨rfl, rfl⟩ | ⟨rfl, rfl⟩
    all_goals first
      | exact absurd h (by decide)
      | exact ⟨rfl, rfl⟩

theorem decodes_named {k : Nat} {c : Char} {w v : Text} (hw : w = AMP :: v) (hv : AMP ∉ v)
    (hent : entity c = some w) (hkind : ∀ left, kind (w ++ left) = k) (hk : k ≠ 0 ∧ k ≠ 5 ∧ k ≠ 6) :
    Decodes k (lit w) (· = w) (fun _ => some (utf16Units c)) where
  toPass := pass_text w v hw hv
  kind_eq := by
    intro u left hu
    rw [hu]
    exact hkind left
  decodes := by
    intro e he
    have hf := e.named_of_rank (by omega) (by omega) (by omega)
    have hsame : kind e.render = kind w := by
      have hek := (e.render_of_rank (by omega)).2 []
      have hwk := hkind []
      rw [List.append_nil] at hek hwk
      rw [hek, hwk, he]
    obtain ⟨hc, hr⟩ := entity_kind (e.render_of_named hf) hent hsame
    exact ⟨hr, by rw [Encoded.units, hc]⟩

/-! ## The seven passes -/

theorem decodes_lt : Decodes 1 (text "&lt;") (· = utf16 "&lt;") (fun _ => some (utf16 "<")) :=
  decodes_named (c := '<') (w := utf16 "&lt;") rfl (by decide) rfl (fun _ => rfl) (by decide)

theorem decodes_gt : Decodes 2 (text "&gt;") (· = utf16 "&gt;") (fun _ => some (utf16 ">")) :=
  decodes_named (c := '>') (w := utf16 "&gt;") rfl (by decide) rfl (fun _ => rfl) (by decide)

theorem decodes_quot : Decodes 3 (text "&quot;") (· = utf16 "&quot;") (fun _ => some (utf16 "\"")) :=
  decodes_named (c := '"') (w := utf16 "&quot;") rfl (by decide) rfl (fun _ => rfl) (by decide)

theorem decodes_apos : Decodes 4 (text "&apos;") (· = utf16 "&apos;") (fun _ => some (utf16 "'")) :=
  decodes_named (c := '\'') (w := utf16 "&apos;") rfl (by decide) rfl (fun _ => rfl) (by decide)

theorem decodes_amp : Decodes 7 (text "&amp;") (· = utf16 "&amp;") (fun _ => some (utf16 "&")) :=
  decodes_named (c := '&') (w := utf16 "&amp;") rfl (by decide) rfl (fun _ => rfl) (by decide)

abbrev decimalCodePoint (w : Text) : Option Text := fromCodePoint (numeral 10 (w.drop 2).dropLast)

abbrev hexCodePoint (w : Text) : Option Text := fromCodePoint (numeral 16 (w.drop 3).dropLast)

theorem decimalCodePoint_reference (ds : Text) :
    decimalCodePoint ([AMP, HASH] ++ ds ++ [SEMICOLON]) = fromCodePoint (numeral 10 ds) := by
  have hdrop : (([AMP, HASH] ++ ds ++ [SEMICOLON]).drop 2).dropLast = ds := by simp
  rw [decimalCodePoint, hdrop]

theorem hexCodePoint_reference (ds : Text) :
    hexCodePoint ([AMP, HASH, LOWER_X] ++ ds ++ [SEMICOLON]) = fromCodePoint (numeral 16 ds) := by
  have hdrop : (([AMP, HASH, LOWER_X] ++ ds ++ [SEMICOLON]).drop 3).dropLast = ds := by simp
  rw [hexCodePoint, hdrop]

theorem Encoded.rank_of_named (e : Encoded) (hf : e.form = .named) : e.rank ≠ 5 ∧ e.rank ≠ 6 ∧ e.rank ≠ 0 := by
  rw [rank, hf]
  grind

theorem decodes_decimal : Decodes 5 decimalReference (Reference [AMP, HASH] isDigit) decimalCodePoint where
  toPass := pass_decimal
  kind_eq := by
    intro w left hw
    obtain ⟨ds, hne, hds, rfl⟩ := hw
    obtain ⟨d, ds', rfl⟩ := List.exists_cons_of_ne_nil hne
    have hd := hds d List.mem_cons_self
    simp [kind, hd]
  decodes := by
    intro e he
    have hw := e.writes
    cases hf : e.form with
    | decimal ds =>
      rw [hf] at hw
      obtain ⟨hne, hds, hn⟩ := hw
      have hr : e.render = [AMP, HASH] ++ ds ++ [SEMICOLON] := by rw [Encoded.render, hf]
      rw [hr, decimalCodePoint_reference, hn, fromCodePoint_toNat]
      exact ⟨⟨ds, hne, hds, rfl⟩, rfl⟩
    | named => exact absurd he (e.rank_of_named hf).1
    | raw => simp [Encoded.rank, hf] at he
    | hex ds => simp [Encoded.rank, hf] at he

theorem decodes_hex : Decodes 6 hexReference (Reference [AMP, HASH, LOWER_X] isHexDigit) hexCodePoint where
  toPass := pass_hex
  kind_eq := by
    intro w left hw
    obtain ⟨ds, -, -, rfl⟩ := hw
    rfl
  decodes := by
    intro e he
    have hw := e.writes
    cases hf : e.form with
    | hex ds =>
      rw [hf] at hw
      obtain ⟨hne, hds, hn⟩ := hw
      have hr : e.render = [AMP, HASH, LOWER_X] ++ ds ++ [SEMICOLON] := by rw [Encoded.render, hf]
      rw [hr, hexCodePoint_reference, hn, fromCodePoint_toNat]
      exact ⟨⟨ds, hne, hds, rfl⟩, rfl⟩
    | named => exact absurd he (e.rank_of_named hf).2.1
    | raw => simp [Encoded.rank, hf] at he
    | decimal ds => simp [Encoded.rank, hf] at he

theorem Encoded.shown_zero (e : Encoded) : e.shown 0 = e.render := by
  rw [shown]
  by_cases h : e.rank ≤ 0
  · rw [if_pos h]
    cases hf : e.form with
    | raw => rw [render, hf]
    | named =>
      have := e.rank_of_named hf
      omega
    | decimal ds => simp [rank, hf] at h
    | hex ds => simp [rank, hf] at h
  · rw [if_neg h]

end DocVault
