import DocVault.AuditQuery
import DocVault.ChainOrder
import DocVault.JsNumber

/-!
# The limit of verifyChain

The controller reads the limit of a verification with `Number`, bounds it from
above only, and the service slices the chain with it. A limit that is no number
checks nothing and answers valid.
-/

namespace DocVault

/-- `limitStr ? Math.min(Number(limitStr), 5000) : 1000` -/
def effectiveLimit (limitStr : Option String) : JsNumber :=
  match truthy limitStr with
  | some text => (Number text).min (.finite 5000)
  | none => .finite 1000

section
variable (N : Node) (env : Env)

def verifyLimited (limitStr : Option String) (events : List AuditEvent) : AuditChainVerificationResult :=
  let ordered := orderEventsByChain events
  ordered.error.getD (verifyEventSequence N env (JsNumber.slice ordered.events (effectiveLimit limitStr)))

structure LinearChain (events l : List AuditEvent) : Prop extends Arrangement events l where
  identities : (events.map eventIdentity).Nodup
  hashes : ∀ e ∈ events, e.hash ≠ .null

/-- The limit is a positive number of events of at most 5000, the answer is that of
that many events, and a break stays where it is under every larger limit. -/
structure Honest (limitStr : Option String) (events l : List AuditEvent) (limit : Nat) : Prop where
  effective : effectiveLimit limitStr = .finite limit
  positive : 1 ≤ limit
  bounded : limit ≤ 5000
  valid : (verifyLimited N env limitStr events).valid = true ↔ Verified N env .null (l.take (min limit l.length))
  checked : (verifyLimited N env limitStr events).valid = true →
    (verifyLimited N env limitStr events).checked = min limit l.length
  broken : ∀ (limitStr' : Option String) (limit' : Nat), effectiveLimit limitStr' = .finite limit' →
    limit ≤ limit' → ∀ i, (verifyLimited N env limitStr events).firstBrokenIndex = some i →
      (verifyLimited N env limitStr' events).firstBrokenIndex = some i

end

def PositiveLimit (limitStr : Option String) : Prop :=
  ∀ text, truthy limitStr = some text →
    (∃ n : Nat, 1 ≤ n ∧ Number text = .finite n) ∨ (JsNumber.finite 5000).le (Number text) = true

/-! ## What the limit is -/

theorem min_5000_iff (x : JsNumber) :
    (∃ limit : Nat, 1 ≤ limit ∧ limit ≤ 5000 ∧ x.min (.finite 5000) = .finite limit) ↔
      (∃ n : Nat, 1 ≤ n ∧ x = .finite n) ∨ (JsNumber.finite 5000).le x = true := by
  have hbound : JsNumber.finite 5000 = JsNumber.finite (5000 : Nat) := rfl
  cases x with
  | nan => simp [JsNumber.min, JsNumber.le]
  | infinity negative =>
    cases negative with
    | true => simp [JsNumber.min, JsNumber.le]
    | false => exact iff_of_true ⟨5000, by omega, by omega, by simp [JsNumber.min, JsNumber.le]⟩ (.inr rfl)
  | finite q =>
    by_cases hq : q ≤ 5000
    · have hmin : (JsNumber.finite q).min (.finite 5000) = .finite q := by simp [JsNumber.min, JsNumber.le, hq]
      rw [hmin]
      constructor
      · intro ⟨limit, hpos, _, hlimit⟩
        exact .inl ⟨limit, hpos, hlimit⟩
      · rintro (⟨n, hpos, hn⟩ | hle)
        · obtain rfl := JsNumber.finite.inj hn
          exact ⟨n, hpos, Rat.natCast_le_natCast.mp hq, rfl⟩
        · have heq : q = 5000 := Rat.le_antisymm hq (of_decide_eq_true hle)
          exact ⟨5000, by omega, by omega, by rw [heq, hbound]⟩
    · have hmin : (JsNumber.finite q).min (.finite 5000) = .finite 5000 := by simp [JsNumber.min, JsNumber.le, hq]
      have hle : (5000 : Rat) ≤ q := Rat.le_of_lt (Rat.not_le.mp hq)
      exact iff_of_true ⟨5000, by omega, by omega, by rw [hmin, hbound]⟩ (.inr (decide_eq_true hle))

theorem effectiveLimit_iff (limitStr : Option String) :
    (∃ limit : Nat, 1 ≤ limit ∧ limit ≤ 5000 ∧ effectiveLimit limitStr = .finite limit) ↔
      PositiveLimit limitStr := by
  unfold effectiveLimit PositiveLimit
  cases truthy limitStr with
  | none => exact iff_of_true ⟨1000, by omega, by omega, rfl⟩ nofun
  | some text => simpa using min_5000_iff (Number text)

section
variable {N : Node} {env : Env}

theorem verifyFrom_append {l : List AuditEvent} (m : List AuditEvent) {i : Nat}
    {last : Nullable String} {s u k : Nat} (h : (verifyFrom N env i last s u l).firstBrokenIndex = some k) :
    (verifyFrom N env i last s u (l ++ m)).firstBrokenIndex = some k := by
  induction l generalizing i last s u with
  | nil => cases h
  | cons e l ih =>
    rw [List.cons_append]
    rw [verifyFrom] at h ⊢
    split
    · rename_i hh
      rwa [if_pos hh] at h
    · rename_i hh
      rw [if_neg hh] at h
      split
      · rename_i hp
        rwa [if_pos hp] at h
      · rename_i hp
        rw [if_neg hp] at h
        cases hc : checkSignature N env e with
        | mismatch => simpa only [hc] using h
        | signed =>
          simp only [hc] at h ⊢
          exact ih h
        | unsigned =>
          simp only [hc] at h ⊢
          exact ih h

theorem broken_append {l : List AuditEvent} (m : List AuditEvent) {k : Nat}
    (h : (verifyEventSequence N env l).firstBrokenIndex = some k) :
    (verifyEventSequence N env (l ++ m)).firstBrokenIndex = some k := by
  cases l with
  | nil => cases h
  | cons e l => exact verifyFrom_append m h

theorem broken_take {l : List AuditEvent} {a b k : Nat} (hab : a ≤ b)
    (h : (verifyEventSequence N env (l.take a)).firstBrokenIndex = some k) :
    (verifyEventSequence N env (l.take b)).firstBrokenIndex = some k := by
  have htake : (l.take b).take a = l.take a := by rw [List.take_take, Nat.min_eq_left hab]
  rw [← List.take_append_drop a (l.take b), htake]
  exact broken_append _ h

variable {events l : List AuditEvent}

theorem LinearChain.order (h : LinearChain events l) : orderEventsByChain events = ⟨l, none⟩ := by
  obtain ⟨hp, hc⟩ := arrangement_iff.mp h.toArrangement
  exact (orderEventsByChain_eq_ok_iff events l).mpr ⟨h.identities, hp, hc, fun e he => h.hashes e (hp.subset he)⟩

theorem linearChain_of_order (h : orderEventsByChain events = ⟨l, none⟩) : LinearChain events l := by
  obtain ⟨hn, hp, hc, hnull⟩ := (orderEventsByChain_eq_ok_iff events l).mp h
  exact ⟨arrangement_iff.mpr ⟨hp, hc⟩, hn, fun e he => hnull e (hp.symm.subset he)⟩

theorem verifyLimited_linear (h : LinearChain events l) (limitStr : Option String) :
    verifyLimited N env limitStr events = verifyEventSequence N env
      (JsNumber.slice l (effectiveLimit limitStr)) := by
  simp only [verifyLimited, h.order, Option.getD_none]

theorem verifyLimited_nat (h : LinearChain events l) {limitStr : Option String} {limit : Nat}
    (hlimit : effectiveLimit limitStr = .finite limit) :
    verifyLimited N env limitStr events = verifyEventSequence N env (l.take limit) := by
  rw [verifyLimited_linear h, hlimit, JsNumber.slice_nat]

theorem verifyLimited_nan (h : LinearChain events l) {limitStr : Option String}
    (hlimit : effectiveLimit limitStr = .nan) :
    (verifyLimited N env limitStr events).valid = true ∧ (verifyLimited N env limitStr events).checked = 0 := by
  rw [verifyLimited_linear h, hlimit]
  exact ⟨rfl, rfl⟩

end

/-- The verification of a chain is honest exactly for a limit that is left out, a
positive whole number, or at least 5000. -/
theorem honest_iff (N : Node) (env : Env) {events l : List AuditEvent} (h : LinearChain events l)
    (limitStr : Option String) :
    (∃ limit, Honest N env limitStr events l limit) ↔ PositiveLimit limitStr := by
  rw [← effectiveLimit_iff]
  constructor
  · intro ⟨limit, hh⟩
    exact ⟨limit, hh.positive, hh.bounded, hh.effective⟩
  · intro ⟨limit, hpos, hle, hlimit⟩
    have hverify := @verifyLimited_nat N env _ _ h _ _ hlimit
    have htake : l.take (min limit l.length) = l.take limit := by
      rw [← List.take_take, List.take_length]
    refine ⟨limit, hlimit, hpos, hle, ?_, fun hv => ?_, fun limitStr' limit' hlimit' hll i hi => ?_⟩
    · rw [hverify, verifyEventSequence_valid_iff, htake]
    · rw [hverify] at hv ⊢
      rw [verifyEventSequence_checked N env hv, List.length_take]
    · rw [hverify] at hi
      rw [verifyLimited_nat h hlimit']
      exact broken_take hll hi

theorem honest_sample : ∃ l limit, Honest sampleNode noEnv (some "25") sampleEvents l limit := by
  obtain ⟨l, horder, -⟩ := (verifyEvents_valid_of_order (by decide)).mp sample_valid
  refine ⟨l, (honest_iff sampleNode noEnv (linearChain_of_order horder) (some "25")).mpr fun text htext => ?_⟩
  obtain rfl := Option.some.inj htext
  exact .inl ⟨25, by omega, by decide +kernel⟩

def forgedEvent : AuditEvent := { sampleFirst with hash := .val "forged" }

-- No event is checked, and the forged chain is valid.
theorem unchecked_break : LinearChain [forgedEvent] [forgedEvent] ∧
    ¬ Verified sampleNode noEnv .null [forgedEvent] ∧
    (verifyLimited sampleNode noEnv (some "abc") [forgedEvent]).valid = true ∧
    ¬ ∃ limit, Honest sampleNode noEnv (some "abc") [forgedEvent] [forgedEvent] limit := by
  have hlinear : LinearChain [forgedEvent] [forgedEvent] := linearChain_of_order (by rfl)
  have hlimit : effectiveLimit (some "abc") = .nan := by decide +kernel
  have hforged : ¬ Verified sampleNode noEnv .null [forgedEvent] := fun hv => absurd hv.1 (by decide +kernel)
  refine ⟨hlinear, hforged, (verifyLimited_nan hlinear hlimit).1, fun ⟨limit, hh⟩ => ?_⟩
  cases hlimit.symm.trans hh.effective

end DocVault
