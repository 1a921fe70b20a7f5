import DocVault.AppendVerify

/-!
# A signed chain under an attacker's records

An attacker replaces the stored records by others, but has no signatures
except those that the service stored. A chain that verifies with every record
signed is then the beginning of what the service appended to one epoch. Which
epoch is not signed.
-/

namespace DocVault

open Interleave

/-! ## What a hash commits to -/

def chained (event : AuditEvent) : String × Nullable String × Nullable String :=
  (buildCanonicalPayload (eventFields event.toAuditContent), event.prevHash, event.hash)

structure Hashed (N : Node) (event : AuditEvent) : Prop where
  hash : event.hash =
    .val (computeHash N (prevKey event) (buildCanonicalPayload (eventFields event.toAuditContent)))
  prevHash : event.prevHash = match prevKey event with | some k => .val k | none => .null
  digest : DigestOrNone N (prevKey event)

section
variable {N : Node} {env : Env}

theorem chained_inj (hN : Digest.CollisionFree N.sha256) {a b : AuditEvent} (ha : Hashed N a) (hb : Hashed N b)
    (h : a.hash = b.hash) : chained a = chained b := by
  have hc : computeHash N (prevKey a) (buildCanonicalPayload (eventFields a.toAuditContent)) =
      computeHash N (prevKey b) (buildCanonicalPayload (eventFields b.toAuditContent)) :=
    Nullable.val.inj (ha.hash.symm.trans (h.trans hb.hash))
  have hp := computeHash_prev_inj hN ha.digest hb.digest hc
  rw [hp] at hc
  unfold chained
  rw [h, ha.prevHash, hb.prevHash, hp, (computeHash_inj hN.injective (prevKey b) _ _).mp hc]

theorem verified_hashed {l : List AuditEvent} : ∀ {last : Nullable String},
    last = .null ∨ (∃ text, last = .val (N.sha256 text)) → Verified N env last l → ∀ e ∈ l, Hashed N e := by
  induction l with
  | nil => intro _ _ _ e he; exact absurd he List.not_mem_nil
  | cons x l ih =>
    intro last hlast hv e he
    cases he with
    | tail _ he => exact ih (.inr ⟨_, hv.1⟩) hv.2.2.2 e he
    | head =>
      have hp : prevKey x = last.toOption := by rw [prevKey, hv.2.1]; rfl
      refine ⟨by rw [hp]; exact hv.1, ?_, ?_⟩
      · rw [hp, hv.2.1]
        rcases hlast with rfl | ⟨text, rfl⟩ <;> rfl
      · intro k hk
        rw [hp] at hk
        rcases hlast with rfl | ⟨text, rfl⟩
        · cases hk
        · exact ⟨text, (Option.some.inj hk).symm⟩

theorem stored_hashed {ι : Type} {envs : Env → Prop} {db : AuditDb ι} (hi : ChainInv N envs db) {epochId : String}
    {e : AuditEvent} (he : e ∈ db.epochEvents epochId) : Hashed N e where
  hash := (hi.of_mem he).1.hash
  prevHash := (hi.of_mem he).1.prevHash
  digest := prevKey_digest (hi.linear epochId) (fun _ hx => (hi.of_mem hx).1) he

/-! ## Signatures -/

theorem checkSignature_signed {event : AuditEvent} (h : checkSignature N env event = .signed) :
    ∃ secret signature, event.signature = some signature ∧ signature = N.hmacSha256 secret event.hash.show := by
  unfold checkSignature at h
  split at h
  · rename_i signature hs
    split at h
    · cases h
    · split at h
      · cases h
      · rename_i secret _
        split at h
        · cases h
        · rename_i heq
          exact ⟨secret, signature, hs, (not_not.mp heq).symm⟩
  · cases h

theorem Written.signature {envs : Env → Prop} {event : AuditEvent} (h : Written N envs event) {signature : String}
    (hs : event.signature = some signature) : ∃ secret hash, signature = N.hmacSha256 secret hash ∧
    event.hash = .val hash := by
  obtain ⟨env, epochId, eventId, eventTimestamp, dto, prevHash, _, rfl⟩ := h
  simp only [appendRecord, signatureFields] at hs
  split at hs
  · rename_i key _
    split at hs
    · exact ⟨key.secret, _, (Option.some.inj hs).symm, rfl⟩
    · cases hs
  · cases hs

theorem verifyFrom_signed : ∀ (l : List AuditEvent) (i : Nat) (last : Nullable String) (s u : Nat),
    (verifyFrom N env i last s u l).valid = true → (verifyFrom N env i last s u l).signatureValid = some true →
      u = 0 ∧ ∀ e ∈ l, checkSignature N env e = .signed
  | [], i, last, s, u, _, hs => by
    refine ⟨?_, fun e he => absurd he List.not_mem_nil⟩
    by_cases hu : u = 0
    · exact hu
    · simp [verifyFrom, hu] at hs
  | e :: l, i, last, s, u, hv, hs => by
    rw [verifyFrom] at hv hs
    split at hv
    · simp [brokenAt] at hv
    · rename_i hh
      split at hv
      · simp [brokenAt] at hv
      · rename_i hp
        rw [if_neg hh, if_neg hp] at hs
        cases hc : checkSignature N env e with
        | mismatch => simp [hc, brokenAt] at hv
        | signed =>
          simp only [hc] at hv hs
          obtain ⟨hu, hl⟩ := verifyFrom_signed l _ _ _ _ hv hs
          refine ⟨hu, fun x hx => ?_⟩
          cases hx with
          | head => exact hc
          | tail _ hx => exact hl x hx
        | unsigned =>
          simp only [hc] at hv hs
          exact absurd (verifyFrom_signed l _ _ _ _ hv hs).1 (by omega)

theorem chain_of_signed {events : List AuditEvent} {limit : Nat} (hl : events.length ≤ limit)
    (hv : (verifyEvents N env limit events).valid = true)
    (hs : (verifyEvents N env limit events).signatureValid = some true) :
    ∀ e ∈ (orderEventsByChain events).events, checkSignature N env e = .signed := by
  obtain ⟨l, ho, hver⟩ := (verifyEvents_valid_of_order hl).mp hv
  have hlen := ((orderEventsByChain_eq_ok_iff events l).mp ho).2.1.length_eq
  unfold verifyEvents at hs
  simp only [ho, Option.getD_none, List.take_of_length_le (show l.length ≤ limit by omega)] at hs
  rw [ho]
  cases l with
  | nil => exact fun e he => absurd he List.not_mem_nil
  | cons e l =>
    have hvf := (verifyFrom_valid_iff N env (e :: l) 0 .null 0 0).mpr hver
    exact (verifyFrom_signed (e :: l) 0 .null 0 0 hvf hs).2

/-- The order in which the store returns records that verify plays no part. -/
theorem order_of_perm {events events' : List AuditEvent} {limit : Nat} (hp : events.Perm events')
    (hl : events.length ≤ limit) (hv : (verifyEvents N env limit events).valid = true) :
    (orderEventsByChain events').events = (orderEventsByChain events).events ∧
      (verifyEvents N env limit events').valid = true := by
  obtain ⟨hn, hpl, hc, hver⟩ := chain_of_valid hl hv
  have hl' : events'.length ≤ limit := hp.length_eq ▸ hl
  have hv' : (verifyEvents N env limit events').valid = true :=
    (verifyEvents_valid_iff hl').mpr ⟨(hp.map eventIdentity).nodup_iff.mp hn, _, hpl.trans hp, hc, hver⟩
  obtain ⟨_, hpl', hc', _⟩ := chain_of_valid hl' hv'
  have hperm := hpl'.trans (hp.symm.trans hpl.symm)
  exact ⟨(hc.prefix_of_path hc'.toPath fun e he => hperm.subset he).eq_of_length hperm.length_eq, hv'⟩

end

/-! ## The attacker's records -/

section
variable {ι : Type} {N : Node} {env : Env}

/-- The signatures in `forged` that verify are signatures that the service stored. -/
def OnlyStored (N : Node) (env : Env) (stored forged : List (ι × AuditEvent)) : Prop :=
  ∀ e ∈ forged, checkSignature N env e.2 = .signed → ∃ r ∈ stored, r.2.signature = e.2.signature

/-- A signed record has the hash of a stored one: the signature is over the hash. -/
theorem stored_of_signed {envs : Env → Prop} (hM : ∀ k m k' m', N.hmacSha256 k m = N.hmacSha256 k' m' → m = m')
    {db : AuditDb ι} (hi : ChainInv N envs db) {e : AuditEvent} (he : Hashed N e)
    (hc : checkSignature N env e = .signed)
    (hs : ∃ r ∈ db.events, r.2.signature = e.signature) :
    ∃ epochId, ∃ r ∈ db.epochEvents epochId, e.hash = r.hash := by
  obtain ⟨secret, signature, hsig, hmac⟩ := checkSignature_signed hc
  obtain ⟨r, hr, hrs⟩ := hs
  have hw := hi.written r hr
  obtain ⟨secret', hash, hmac', hrh⟩ := hw.signature (hrs.trans hsig)
  obtain ⟨epochId, hep⟩ := hw.epochId
  have hmem : r.2 ∈ db.epochEvents epochId :=
    List.mem_filter.mpr ⟨List.mem_map_of_mem hr, (hw.inEpoch_iff epochId).mpr hep⟩
  refine ⟨epochId, r.2, hmem, ?_⟩
  have := hM _ _ _ _ (hmac.symm.trans hmac')
  rw [hrh, he.hash]
  rw [he.hash] at this
  exact congrArg Nullable.val this

variable [DecidableEq ι]

/-- The chain that was checked is, in payloads, predecessors and hashes, the
beginning of the sequence of events that the service appended to some epoch. -/
theorem signed_chain_prefix (hN : Digest.CollisionFree N.sha256)
    (hM : ∀ k m k' m', N.hmacSha256 k m = N.hmacSha256 k' m' → m = m') {tasks : ι → Task}
    {c : Config ι (AuditDb ι) AuditOp AuditOp.Res AuditError Outcome}
    (hr : Reach AuditExec (fun _ _ _ => True) (start N tasks) c) {forged : List (ι × AuditEvent)}
    (hf : OnlyStored N env c.store.events forged) {p : ι} {limit : Nat} {now : JsDate} {result : ChainVerification}
    {db' : AuditDb ι} (hx : Eval AuditExec p (verifyChain N env .verify limit now) { c.store with events := forged }
      (.ok result) db') (hl : forged.length ≤ limit) (hv : result.chain.valid = true)
    (hs : result.chain.signatureValid = some true) :
    ∃ epochId, (orderEventsByChain (({ c.store with events := forged } : AuditDb ι).epochEvents
      result.epochId)).events.map chained <+: (c.store.epochEvents epochId).map chained := by
  obtain ⟨hi, _⟩ := reach_chain (fun _ => True) hN (fun _ => trivial) hr
  obtain ⟨records, hp, hchain⟩ := verifyChain_reads hx
  have hlen : records.length ≤ limit := by
    refine Nat.le_trans ?_ hl
    rw [hp.length_eq]
    exact Nat.le_trans (List.length_filter_le _ _) (by simp)
  rw [hchain] at hv hs
  obtain ⟨hn, hpl, hc, hver⟩ := chain_of_valid hlen hv
  have hsigned := chain_of_signed hlen hv hs
  rw [(order_of_perm hp hlen hv).1]
  have hhash := verified_hashed (.inl rfl) hver
  cases hlast : (orderEventsByChain records).events.getLast? with
  | none => rw [List.getLast?_eq_none_iff.mp hlast]; exact ⟨"", List.nil_prefix⟩
  | some a =>
    have ha := List.mem_of_getLast? hlast
    obtain ⟨e, he, rfl⟩ : ∃ e ∈ forged, e.2 = a := by
      obtain ⟨e, he, heq⟩ := List.mem_map.mp (List.mem_of_mem_filter (hp.subset (hpl.subset ha)))
      exact ⟨e, he, heq⟩
    obtain ⟨epochId, b, hb, hab⟩ :=
      stored_of_signed hM hi (hhash e.2 ha) (hsigned e.2 ha) (hf e he (hsigned e.2 ha))
    refine ⟨epochId, hc.toPath.map_prefix (f := chained) (hi.linear epochId).toPath ?_ ?_ hlast hb
      (chained_inj hN (hhash e.2 ha) (stored_hashed hi hb) hab)⟩
    · intro x y hxy
      rw [prevKey, prevKey, show x.prevHash = y.prevHash from (Prod.mk.inj (Prod.mk.inj hxy).2).1]
    · intro x hx y hy k hkx hky
      refine chained_inj hN (hhash x hx) (stored_hashed hi hy) ?_
      have hxk := (hhash x hx).hash
      have hyk := (stored_hashed hi hy).hash
      rw [hashKey, hxk] at hkx
      rw [hashKey, hyk] at hky
      rw [hxk, hyk]
      exact congrArg Nullable.val (Option.some.inj (hkx.trans hky.symm))

end

/-! ## A record moved to the next epoch

One request is repeated, the chain is sealed for it, and the attacker leaves
nothing but the first record, under the id of the new epoch. -/

def signingEnv : Env := fun name => if name = "AUDIT_SIGNING_SECRET" then some "s3cret" else none

def sampleSeal : SealCall where
  reason := "duplicate event"
  viewer := { actorId := some "u-9", roles := some ["admin"], ip := none, traceId := none }
  incidentUuid := "u-1"
  epochUuid := "u-2"
  eventUuid := "e-3"
  now := sampleTime
  epochNow := sampleTime

def sealTasks : Nat → Task
  | 0 => .create signingEnv (sampleCall "e-1")
  | 1 => .create signingEnv (sampleCall "e-1")
  | 2 => .sealChain signingEnv sampleSeal
  | _ => .verify signingEnv 1 sampleTime

def startedHash : String := "685d999c85128130c70deae811843c70cc9162207ebc49b4fe0625f023450140"

def startedDto : CreateAuditEventDto := (sampleSeal.createCall { valid := false, checked := 0 } "default").dto

def sealDigests : List (String × String) :=
  repeatedDigests ++ [("|" ++ buildCanonicalPayload (appendFields "e-3" sampleTime startedDto), startedHash)]

def signatures : List (String × String) :=
  [(sampleHash₁, "87e098657ae2966c82819bd635960785979214835c8998619cc74886adcf106b"),
    ("09c8670c2ba36106681c0ff522aa10b43a75258ef36780832cc5f89ae42fcc25",
      "b5a16f9a04d396b1a5e729e8ab5c3ce593a8164045059175fcbf5135ab5dceae"),
    (startedHash, "b78277a94b2c8eff9e1f48451a09ac7826779cb2ba4490b6f5884f7091423cae")]

def sealNode : Node :=
  { sampleNode with sha256 := Digest.ofTable sealDigests, hmacSha256 := fun _ => Digest.ofTable signatures }

theorem sealNode_sha256 : Digest.CollisionFree sealNode.sha256 :=
  have hstarted := Digest.valid_cons rfl (by decide +kernel) List.not_mem_nil Digest.valid_nil
  have hsecond := Digest.valid_cons rfl (by decide +kernel) (by simp) hstarted
  Digest.ofTable_collisionFree sealDigests
    (Digest.valid_cons rfl (by decide +kernel) (by simp [sampleHash₁, startedHash]) hsecond)

theorem signatures_valid : Digest.Valid signatures :=
  have hstarted := Digest.valid_cons rfl (by decide +kernel) List.not_mem_nil Digest.valid_nil
  have hsecond := Digest.valid_cons rfl (by decide +kernel) (by simp) hstarted
  Digest.valid_cons rfl (by decide +kernel) (by simp) hsecond

theorem sealNode_hmac (k m k' m' : String) (h : sealNode.hmacSha256 k m = sealNode.hmacSha256 k' m') : m = m' :=
  (Digest.ofTable_collisionFree signatures signatures_valid).injective h

@[irreducible] def sealedDb : AuditDb Nat :=
  inTurn auditRun (fun p => (sealTasks p).prog sealNode) [0, 1, 2] (emptyDb Nat)

theorem sealedDb_reach :
    ∃ rest, Reach AuditExec (fun _ _ _ => True) (start sealNode sealTasks) ⟨sealedDb, rest⟩ := by
  unfold sealedDb
  exact Reach.inTurn auditRun auditRun_exec (fun _ _ _ => trivial) _ [0, 1, 2]
    (start sealNode sealTasks) (by decide) (fun _ _ => rfl) .refl

def movedEvent : AuditEvent :=
  { appendRecord sealNode (getSigningSecret signingEnv) "default" "e-1" sampleTime downloadDto none with
    epochId := some "epoch-u-2" }

abbrev movedDb : AuditDb Nat := { sealedDb with events := [(0, movedEvent)] }

-- The answer of `verifyChain` on the attacker's records.
def movedAnswer : Except AuditError ChainVerification × AuditDb Nat :=
  (verifyChain sealNode signingEnv .verify 1 sampleTime).result auditRun 3 movedDb

def signedFor (epochId : String) : Except AuditError ChainVerification → Bool
  | .ok result => result.epochId = epochId && result.chain.valid && result.chain.signatureValid = some true
  | .error _ => false

/-- The sealed store, evaluated once: it holds the signature of the moved record, `verifyChain` takes
the attacker's records for the new epoch, and they are no part of it. -/
theorem movedDb_facts : (∃ r ∈ sealedDb.events, r.2.signature = movedEvent.signature) ∧
    signedFor "epoch-u-2" movedAnswer.1 = true ∧
    ¬ (orderEventsByChain (movedDb.epochEvents "epoch-u-2")).events.map chained <+:
      (sealedDb.epochEvents "epoch-u-2").map chained := by
  decide +kernel

theorem moved_onlyStored : OnlyStored sealNode signingEnv sealedDb.events [(0, movedEvent)] := by
  intro e he _
  rw [List.mem_singleton.mp he]
  exact movedDb_facts.1

theorem movedAnswer_signed : ∃ result db', movedAnswer = (.ok result, db') ∧
    Eval AuditExec 3 (verifyChain sealNode signingEnv .verify 1 sampleTime) movedDb (.ok result) db' ∧
      result.epochId = "epoch-u-2" ∧ result.chain.valid = true ∧ result.chain.signatureValid = some true := by
  obtain ⟨result, db', hr⟩ := verifyChain_result sealNode signingEnv .verify 1 sampleTime 3 movedDb
  have hx := eval_result auditRun 3 auditRun_exec (verifyChain sealNode signingEnv .verify 1 sampleTime) movedDb
  rw [hr] at hx
  have hs := movedDb_facts.2.1
  rw [show movedAnswer = (.ok result, db') from hr] at hs
  simp only [signedFor, Bool.and_eq_true, decide_eq_true_eq] at hs
  exact ⟨result, db', hr, hx, hs.1.1, hs.1.2, hs.2⟩

theorem signed_chain_prefix_sample : ∃ result db', movedAnswer = (.ok result, db') ∧ ∃ epochId,
    (orderEventsByChain (movedDb.epochEvents result.epochId)).events.map chained <+:
      (sealedDb.epochEvents epochId).map chained := by
  obtain ⟨rest, hr⟩ := sealedDb_reach
  obtain ⟨result, db', ha, hx, _, hv, hs⟩ := movedAnswer_signed
  have hlen : [(0, movedEvent)].length ≤ 1 := Nat.le_refl 1
  exact ⟨result, db', ha, signed_chain_prefix sealNode_sha256 sealNode_hmac hr moved_onlyStored hx hlen hv hs⟩

theorem signed_chain_of_other_epoch :
    ¬ ∀ (N : Node) (env : Env) (tasks : Nat → Task)
      (c : Config Nat (AuditDb Nat) AuditOp AuditOp.Res AuditError Outcome)
      (forged : List (Nat × AuditEvent)) (p limit : Nat) (now : JsDate)
      (result : ChainVerification) (db' : AuditDb Nat),
      Digest.CollisionFree N.sha256 → (∀ k m k' m', N.hmacSha256 k m = N.hmacSha256 k' m' → m = m') →
      (∀ p, ∃ key, getSigningSecret (tasks p).env = some key) →
      Reach AuditExec (fun _ _ _ => True) (start N tasks) c → OnlyStored N env c.store.events forged →
      forged.length ≤ limit →
      Eval AuditExec p (verifyChain N env .verify limit now) { c.store with events := forged } (.ok result) db' →
      result.chain.valid = true → result.chain.signatureValid = some true →
      (orderEventsByChain (({ c.store with events := forged } : AuditDb Nat).epochEvents result.epochId)).events.map
        chained <+: (c.store.epochEvents result.epochId).map chained := by
  intro h
  have hkeys : ∀ p, ∃ key, getSigningSecret (sealTasks p).env = some key := by
    intro p
    have henv : (sealTasks p).env = signingEnv := by unfold sealTasks; split <;> rfl
    rw [henv]
    exact ⟨⟨none, "s3cret"⟩, by decide +kernel⟩
  obtain ⟨rest, hr⟩ := sealedDb_reach
  obtain ⟨result, db', _, hx, he, hv, hs⟩ := movedAnswer_signed
  have hlen : [(0, movedEvent)].length ≤ 1 := Nat.le_refl 1
  have hpre := h sealNode signingEnv sealTasks ⟨sealedDb, rest⟩
    [(0, movedEvent)] 3 1 sampleTime result db' sealNode_sha256
    sealNode_hmac hkeys hr moved_onlyStored hlen hx hv hs
  rw [he] at hpre
  exact movedDb_facts.2.2 hpre

end DocVault
