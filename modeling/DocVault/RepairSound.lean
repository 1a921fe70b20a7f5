import DocVault.RepairChain

/-!
# What a repair leaves

The script relinks the whole collection in the order of the timestamps. When
the service verifies every epoch afterwards, and when a collection that
verifies already is left alone.
-/

namespace DocVault

open RepairAuditChain

namespace RepairAuditChain

section
variable {N : Node} {signing : Option SigningKey}

/-! ## The updates together -/

theorem load_perm (records : List AuditEventRecord) : (load records).Perm records := List.perm_insertionSort _ _

theorem applyUpdates_perm {us : List Update} {l m : List AuditEventRecord} (h : l.Perm m) :
    (applyUpdates N signing l us).Perm (applyUpdates N signing m us) := by
  induction us generalizing l m with
  | nil => exact h
  | cons u us ih => exact ih (h.map _)

variable (N) in
/-- The hash that the event after `events` links to. -/
def lastHash (prevHash : Option String) : List AuditEventRecord → Option String
  | [] => prevHash
  | event :: events => lastHash (some (computeHash N prevHash (payload event))) events

theorem links_append (prevHash : Option String) (l m : List AuditEventRecord) :
    links N prevHash (l ++ m) = links N prevHash l ++ links N (lastHash N prevHash l) m := by
  induction l generalizing prevHash with
  | nil => rfl
  | cons event l ih => simp [links, lastHash, ih]

theorem relinked_of_holds {prevHash : Option String} {events : List AuditEventRecord}
    (h : ∀ x ∈ links N prevHash events, x.holds = true) :
    (links N prevHash events).map (Link.relinked N signing) = events := by
  conv_rhs => rw [← links_events (N := N) prevHash events]
  exact List.map_congr_left fun x hx => if_pos (h x hx)

theorem lastHash_snoc {prevHash : Option String} {l : List AuditEventRecord} {event : AuditEventRecord}
    (h : ∀ x ∈ links N prevHash (l ++ [event]), x.holds = true) :
    lastHash N prevHash (l ++ [event]) = event.hash.toOption := by
  have hlast := h ⟨event, lastHash N prevHash l, computeHash N (lastHash N prevHash l) (payload event)⟩
    (by rw [links_append]; exact List.mem_append_right _ List.mem_cons_self)
  simp only [Link.holds, Bool.and_eq_true, decide_eq_true_eq] at hlast
  have happ : ∀ (m : List AuditEventRecord) (p : Option String),
      lastHash N p (m ++ [event]) = some (computeHash N (lastHash N p m) (payload event)) := by
    intro m
    induction m with
    | nil => intro p; rfl
    | cons e m ih => intro p; exact ih _
  rw [happ, hlast.1]
  rfl

theorem holds_head (prevHash : Option String) (event : AuditEventRecord) :
    (Link.mk event prevHash (computeHash N prevHash (payload event))).holds =
      !(event.hash ≠ .val (computeHash N prevHash (payload event)) || event.prevHash ≠ prevHashOf prevHash) := by
  simp [Link.holds]

theorem prevHashOf_toOption (prevHash : Option String) : (prevHashOf prevHash).toOption = prevHash := by
  cases prevHash <;> rfl

theorem firstBroken_none : ∀ {events : List AuditEventRecord} {p : Option String},
    firstBrokenIndex N (prevHashOf p) events = none ↔ ∀ x ∈ links N p events, x.holds = true := by
  intro events
  induction events with
  | nil => intro _; simp [firstBrokenIndex, links]
  | cons event events ih =>
    intro p
    rw [firstBrokenIndex, links, List.forall_mem_cons, holds_head, prevHashOf_toOption]
    by_cases hb : (event.hash ≠ .val (computeHash N p (payload event)) || event.prevHash ≠ prevHashOf p) = true
    · rw [if_pos hb, hb]
      simp
    · rw [if_neg hb, Bool.eq_false_iff.mpr hb, Option.map_eq_none_iff]
      simp only [Bool.or_eq_true, decide_eq_true_eq, not_or, not_not] at hb
      rw [hb.1]
      refine (ih (p := some _)).trans ?_
      simp

theorem firstBroken_some : ∀ {events : List AuditEventRecord} {p : Option String} {i : Nat},
    firstBrokenIndex N (prevHashOf p) events = some i →
      i ≤ events.length ∧ ∀ x ∈ links N p (events.take i), x.holds = true := by
  intro events
  induction events with
  | nil => intro _ _ h; cases h
  | cons event events ih =>
    intro p i h
    rw [firstBrokenIndex, prevHashOf_toOption] at h
    by_cases hb : (event.hash ≠ .val (computeHash N p (payload event)) || event.prevHash ≠ prevHashOf p) = true
    · rw [if_pos hb] at h
      obtain rfl := Option.some.inj h
      simp [links]
    · rw [if_neg hb] at h
      obtain ⟨j, hj, rfl⟩ := Option.map_eq_some_iff.mp h
      have hhead := holds_head (N := N) p event
      rw [Bool.eq_false_iff.mpr hb] at hhead
      simp only [Bool.or_eq_true, decide_eq_true_eq, not_or, not_not] at hb
      rw [hb.1] at hj
      obtain ⟨hlen, hrest⟩ := ih (p := some _) hj
      refine ⟨by simpa using hlen, ?_⟩
      rw [List.take_succ_cons, links, List.forall_mem_cons]
      exact ⟨hhead, hrest⟩

theorem applyUpdates_updates {events : List AuditEventRecord} (hn : (events.map (·.id)).Nodup) :
    applyUpdates N signing events (updates N events) = relinked N signing events := by
  have hgo : ∀ i prevHash, i ≤ events.length → (∀ x ∈ links N none (events.take i), x.holds = true) →
      lastHash N none (events.take i) = prevHash →
      applyUpdates N signing events (recompute N prevHash (events.drop i)) = relinked N signing events := by
    intro i prevHash _ hh hl
    have happ : applyUpdates N signing (events.take i ++ events.drop i) (recompute N prevHash (events.drop i)) =
        events.take i ++ (links N prevHash (events.drop i)).map (Link.relinked N signing) :=
      applyUpdates_recompute (events.drop i) (events.take i) prevHash (by rwa [List.take_append_drop])
    rw [List.take_append_drop] at happ
    rw [happ, relinked]
    conv_rhs => rw [← List.take_append_drop i events, links_append, List.map_append, relinked_of_holds hh, hl]
  unfold updates
  cases hf : firstBrokenIndex N .null events with
  | none => exact (relinked_of_holds ((firstBroken_none (p := none)).mp hf)).symm
  | some i =>
    obtain ⟨hlen, hh⟩ := firstBroken_some (p := none) hf
    cases i with
    | zero => exact hgo 0 none (Nat.zero_le _) hh rfl
    | succ i =>
      have hi : i < events.length := hlen
      refine hgo (i + 1) _ hlen hh ?_
      rw [List.take_add_one, List.getElem?_eq_getElem hi] at hh ⊢
      rw [Option.toList_some] at hh ⊢
      exact lastHash_snoc hh

/-- After a repair the collection holds the relinked events. -/
theorem repair_perm (env : Env) (collection : AuditCollection) :
    (repair N env collection).records.Perm (relinked N (getSigningSecret env) (load collection.records)) := by
  have hn : ((load collection.records).map (·.id)).Nodup :=
    ((load_perm collection.records).map _).nodup_iff.mpr collection.ids
  rw [← applyUpdates_updates hn]
  exact applyUpdates_perm (load_perm collection.records).symm

/-! ## The links form a chain -/

theorem links_root {prevHash : Option String} {events : List AuditEventRecord} {x : Link}
    (h : (links N prevHash events)[0]? = some x) : x.prevHash = prevHash := by
  cases events with
  | nil => cases h
  | cons event events =>
    simp only [links, List.getElem?_cons_zero, Option.some.injEq] at h
    rw [← h]

theorem links_step : ∀ {events : List AuditEventRecord} {prevHash : Option String} {i : Nat} {y : Link},
    (links N prevHash events)[i + 1]? = some y → ∃ x, (links N prevHash events)[i]? = some x ∧
    y.prevHash = some x.hash := by
  intro events
  induction events with
  | nil => intro _ _ _ h; cases h
  | cons event events ih =>
    intro prevHash i y h
    rw [links, List.getElem?_cons_succ] at h
    cases i with
    | zero => exact ⟨_, by rw [links, List.getElem?_cons_zero], links_root h⟩
    | succ i =>
      obtain ⟨x, hx, hy⟩ := ih h
      exact ⟨x, by rw [links, List.getElem?_cons_succ, hx], hy⟩

theorem links_hash : ∀ {events : List AuditEventRecord} {prevHash : Option String} {x : Link},
    x ∈ links N prevHash events → x.hash = computeHash N x.prevHash (payload x.event) := by
  intro events
  induction events with
  | nil => intro _ _ h; cases h
  | cons event events ih =>
    intro prevHash x h
    rcases List.mem_cons.mp h with rfl | h
    · rfl
    · exact ih h

theorem links_digest {events : List AuditEventRecord} {i : Nat} {x : Link}
    (h : (links N none events)[i]? = some x) : DigestOrNone N x.prevHash := by
  intro k hk
  cases i with
  | zero => rw [links_root h] at hk; cases hk
  | succ i =>
    obtain ⟨y, hy, hp⟩ := links_step h
    rw [hp] at hk
    obtain rfl := Option.some.inj hk
    exact ⟨_, links_hash (List.mem_of_getElem? hy)⟩

theorem links_hash_inj (hN : Digest.CollisionFree N.sha256) {events : List AuditEventRecord} :
    ∀ {i j : Nat} {x y : Link},
    (links N none events)[i]? = some x → (links N none events)[j]? = some y → x.hash = y.hash → i = j := by
  intro i
  induction i with
  | zero =>
    intro j x y hx hy h
    cases j with
    | zero => rfl
    | succ j =>
      obtain ⟨z, _, hp⟩ := links_step hy
      rw [links_hash (List.mem_of_getElem? hx), links_hash (List.mem_of_getElem? hy)] at h
      have := computeHash_prev_inj hN (links_digest hx) (links_digest hy) h
      rw [links_root hx, hp] at this
      cases this
  | succ i ih =>
    intro j x y hx hy h
    rw [links_hash (List.mem_of_getElem? hx), links_hash (List.mem_of_getElem? hy)] at h
    have hprev := computeHash_prev_inj hN (links_digest hx) (links_digest hy) h
    obtain ⟨x', hx', hpx⟩ := links_step hx
    cases j with
    | zero =>
      rw [links_root hy, hpx] at hprev
      cases hprev
    | succ j =>
      obtain ⟨y', hy', hpy⟩ := links_step hy
      rw [hpx, hpy] at hprev
      rw [ih hx' hy' (Option.some.inj hprev)]

theorem links_path (events : List AuditEventRecord) :
    Linked.Path Link.prevHash (fun x => some x.hash) (links N none events) where
  root _ h := links_root h
  step _ y h := by
    obtain ⟨x, hx, hp⟩ := links_step h
    exact ⟨x, x.hash, hx, rfl, hp⟩

theorem links_chain (hN : Digest.CollisionFree N.sha256) (events : List AuditEventRecord) :
    Linked.Chain Link.prevHash (fun x => some x.hash) (links N none events) where
  toPath := links_path events
  keys _ _ _ _ _ hx hy hkx hky := links_hash_inj hN hx hy (Option.some.inj (hkx.trans hky.symm))

/-! ## Signatures -/

variable (N) in
/-- The service accepts the signature that the event carries after the repair, or cannot check it. -/
def Link.Stands (env : Env) (x : Link) : Prop :=
  if x.holds then checkSignature N env x.event.toAuditEvent ≠ .mismatch
  else
    match getSigningSecret env with
    | some key => ∀ secret, getVerifySecret env (key.kid.orElse fun _ => x.event.signatureKid) = some secret →
        DocVault.signHash N x.hash secret = signHash N x.hash key.secret
    | none => ∀ signature secret, x.event.signature = some signature → signature ≠ "" →
        getVerifySecret env x.event.signatureKid = some secret → DocVault.signHash N x.hash secret = signature

theorem checkSignature_mismatch {env : Env} {event : AuditEvent} : checkSignature N env event = .mismatch ↔
    ∃ signature secret, event.signature = some signature ∧ signature ≠ "" ∧
      getVerifySecret env event.signatureKid = some secret ∧
      DocVault.signHash N event.hash.show secret ≠ signature := by
  unfold checkSignature
  cases hs : event.signature with
  | none => simp
  | some signature =>
    by_cases he : signature = ""
    · simp [he]
    · cases hv : getVerifySecret env event.signatureKid with
      | none => simp [he]
      | some secret =>
        by_cases hm : DocVault.signHash N event.hash.show secret = signature
        · simp [he, hm]
        · simp [he, hm]

theorem stands_iff (hN : Digest.CollisionFree N.sha256) (env : Env) (x : Link) :
    checkSignature N env (x.relinked N (getSigningSecret env)).toAuditEvent ≠ .mismatch ↔ x.Stands N env := by
  unfold Link.Stands
  cases hx : x.holds with
  | true =>
    have hkeep : x.relinked N (getSigningSecret env) = x.event := if_pos hx
    rw [if_pos rfl, hkeep]
  | false =>
    have hwrite : x.relinked N (getSigningSecret env) =
        updateFields N (getSigningSecret env) ⟨x.event.id, x.hash, x.prevHash⟩ x.event :=
          if_neg (Bool.eq_false_iff.mp hx)
    rw [if_neg Bool.false_ne_true, hwrite, Ne, checkSignature_mismatch]
    cases getSigningSecret env with
    | none =>
      constructor
      · intro h signature secret hs he hv
        by_contra hm
        exact h ⟨signature, secret, hs, he, hv, hm⟩
      · rintro h ⟨signature, secret, hs, he, hv, hm⟩
        exact hm (h signature secret hs he hv)
    | some key =>
      constructor
      · intro h secret hv
        by_contra hm
        exact h ⟨_, secret, rfl, hN.nonempty _, hv, hm⟩
      · rintro h ⟨signature, secret, hs, he, hv, hm⟩
        obtain rfl := Option.some.inj hs
        exact hm (h secret hv)

/-- The relinked events verify exactly as far as their signatures do. -/
theorem relinked_verified (env : Env) : ∀ {events : List AuditEventRecord} {p : Option String},
    Verified N env (prevHashOf p) ((links N p events).map fun x => (x.relinked N signing).toAuditEvent) ↔
      ∀ x ∈ links N p events, checkSignature N env (x.relinked N signing).toAuditEvent ≠ .mismatch := by
  intro events
  induction events with
  | nil => intro _; simp [links, Verified]
  | cons event events ih =>
    intro p
    have hrest := ih (p := some (computeHash N p (payload event)))
    simp only [links, List.map_cons, Verified, List.forall_mem_cons, relinked_hash, relinked_prevHash, expectedHash,
      relinked_content, prevHashOf_toOption, payload_eq, true_and] at hrest ⊢
    rw [← hrest]
    rfl

end

end RepairAuditChain

/-! ## Epochs -/

def epochOf (event : AuditEvent) : String := event.epochId.getD DEFAULT_EPOCH_ID

theorem inEpoch_iff {epochId : String} {event : AuditEvent} : inEpoch epochId event = true ↔
    epochOf event = epochId := by
  unfold inEpoch epochOf
  cases event.epochId with
  | none => simp [eq_comm]
  | some e => simp

def epochEvents (records : List AuditEventRecord) (epochId : String) : List AuditEvent :=
  (records.map (·.toAuditEvent)).filter (inEpoch epochId)

section
variable (N : Node) (env : Env)

/-- `verifyChain` on the whole of an epoch answers valid. -/
def EpochVerifies (records : List AuditEventRecord) (epochId : String) : Prop :=
  (verifyEvents N env (epochEvents records epochId).length (epochEvents records epochId)).valid = true

def AuditEventRecord.unsealed (event : AuditEventRecord) : Nat × AuditContent × Option String :=
  (event.id, event.toAuditContent, event.epochId)

/-- What a repair is for. -/
structure Repairs (collection : AuditCollection) : Prop where
  valid : ∀ epochId, EpochVerifies N env (repair N env collection).records epochId
  kept : (repair N env collection).records.map (·.unsealed) = collection.records.map (·.unsealed)
  idle : (∀ epochId, EpochVerifies N env collection.records epochId) →
    (repair N env collection).records = collection.records

/-- The collections that the script repairs. -/
structure Repairable (collection : AuditCollection) : Prop where
  oneEpoch : ∀ a ∈ collection.records, ∀ b ∈ collection.records, epochOf a.toAuditEvent = epochOf b.toAuditEvent
  identities : ((links N none (load collection.records)).map fun x => x.event.eventId.getD x.hash).Nodup
  signatures : ∀ x ∈ links N none (load collection.records), x.Stands N env
  ordered : (∀ epochId, EpochVerifies N env collection.records epochId) →
    AuditPath ((load collection.records).map (·.toAuditEvent))

variable {N env}

theorem epochVerifies_iff {records : List AuditEventRecord} {epochId : String} :
    EpochVerifies N env records epochId ↔ ((epochEvents records epochId).map eventIdentity).Nodup ∧
      ∃ l, l.Perm (epochEvents records epochId) ∧ AuditChain l ∧ Verified N env .null l :=
  verifyEvents_valid_iff le_rfl

theorem epochVerifies_perm {l m : List AuditEventRecord} (h : l.Perm m) (epochId : String) :
    EpochVerifies N env l epochId ↔ EpochVerifies N env m epochId := by
  have hp : (epochEvents l epochId).Perm (epochEvents m epochId) := (h.map _).filter _
  rw [epochVerifies_iff, epochVerifies_iff, (hp.map eventIdentity).nodup_iff]
  refine and_congr_right fun _ => exists_congr fun x => and_congr_left fun _ => ?_
  exact ⟨fun hx => hx.trans hp, fun hx => hx.trans hp.symm⟩

theorem unsealed_kept (collection : AuditCollection) :
    (repair N env collection).records.map (·.unsealed) = collection.records.map (·.unsealed) := by
  have hone : ∀ (signing : Option SigningKey) (u : Update) (records : List AuditEventRecord),
      (updateOne N signing records u).map (·.unsealed) = records.map (·.unsealed) := by
    intro signing u records
    rw [updateOne, List.map_map]
    refine List.map_congr_left fun event _ => ?_
    by_cases h : event.id = u.id <;> simp [h, updateFields, AuditEventRecord.unsealed]
  have hall : ∀ (us : List Update) (records : List AuditEventRecord),
      (applyUpdates N (getSigningSecret env) records us).map (·.unsealed) = records.map (·.unsealed) := by
    intro us
    induction us with
    | nil => intro records; rfl
    | cons u us ih => intro records; exact (ih _).trans (hone _ u records)
  exact hall _ _

/-- The relinked events as the service reads them. -/
abbrev relinkedEvents (N : Node) (env : Env) (collection : AuditCollection) : List AuditEvent :=
  (relinked N (getSigningSecret env) (load collection.records)).map (·.toAuditEvent)

theorem relinkedEvents_eq (collection : AuditCollection) : relinkedEvents N env collection =
    (links N none (load collection.records)).map fun x => (x.relinked N (getSigningSecret env)).toAuditEvent := by
  rw [relinkedEvents, relinked, List.map_map]
  rfl

theorem prevKey_relinked (x : Link) (signing : Option SigningKey) :
    prevKey (x.relinked N signing).toAuditEvent = x.prevHash := by
  rw [prevKey, normalizePrevHash, relinked_prevHash, prevHashOf_toOption]

theorem hashKey_relinked (x : Link) (signing : Option SigningKey) :
    hashKey (x.relinked N signing).toAuditEvent = some x.hash := by
  rw [hashKey, relinked_hash]
  rfl

theorem relinkedEvents_path (collection : AuditCollection) : AuditPath (relinkedEvents N env collection) := by
  rw [relinkedEvents_eq]
  exact (links_path _).map (fun x => prevKey_relinked x _) fun x => hashKey_relinked x _

theorem relinkedEvents_chain (hN : Digest.CollisionFree N.sha256) (collection : AuditCollection) :
    AuditChain (relinkedEvents N env collection) := by
  rw [relinkedEvents_eq]
  exact (links_chain hN _).map (fun x => prevKey_relinked x _) fun x => hashKey_relinked x _

theorem relinkedEvents_identities (collection : AuditCollection) :
    (relinkedEvents N env collection).map eventIdentity =
    (links N none (load collection.records)).map fun x => x.event.eventId.getD x.hash := by
  rw [relinkedEvents_eq, List.map_map]
  refine List.map_congr_left fun x _ => ?_
  simp only [Function.comp_apply, eventIdentity, relinked_hash, relinked_content, Nullable.show]

theorem relinkedEvents_verified (hN : Digest.CollisionFree N.sha256) (collection : AuditCollection) :
    Verified N env .null (relinkedEvents N env collection) ↔
      ∀ x ∈ links N none (load collection.records), x.Stands N env := by
  rw [relinkedEvents_eq]
  refine (relinked_verified (p := none) env).trans ?_
  exact forall₂_congr fun x _ => stands_iff hN env x

/-! ## Collections of one epoch -/

theorem verifies_one {records : List AuditEventRecord} {epochId : String}
    (h : ∀ event ∈ records, epochOf event.toAuditEvent = epochId) : (∀ e, EpochVerifies N env records e) ↔
      ((records.map (·.toAuditEvent)).map eventIdentity).Nodup ∧
        ∃ l, l.Perm (records.map (·.toAuditEvent)) ∧ AuditChain l ∧ Verified N env .null l := by
  have hall : epochEvents records epochId = records.map (·.toAuditEvent) := by
    refine List.filter_eq_self.mpr fun event hm => ?_
    obtain ⟨record, hr, rfl⟩ := List.mem_map.mp hm
    exact inEpoch_iff.mpr (h record hr)
  constructor
  · intro hv
    rw [← hall]
    exact epochVerifies_iff.mp (hv epochId)
  · intro hv e
    by_cases he : e = epochId
    · rw [he, epochVerifies_iff, hall]
      exact hv
    · have hnone : epochEvents records e = [] := by
        refine List.filter_eq_nil_iff.mpr fun event hm hin => he ?_
        obtain ⟨record, hr, rfl⟩ := List.mem_map.mp hm
        exact (inEpoch_iff.mp hin).symm.trans (h record hr)
      rw [epochVerifies_iff, hnone]
      exact ⟨List.nodup_nil, [], List.Perm.refl _, Linked.chain_nil, trivial⟩

theorem verified_of_path {events l : List AuditEvent} (hm : AuditPath events)
    (hp : l.Perm events) (hl : AuditChain l) (hv : Verified N env .null l) : Verified N env .null events := by
  have hpre : events <+: l := hl.prefix_of_path hm fun a ha => hp.symm.subset ha
  rw [hpre.eq_of_length hp.length_eq.symm]
  exact hv

theorem event_linked (collection : AuditCollection) {event : AuditEventRecord} (h : event ∈ collection.records) :
    ∃ e ∈ relinkedEvents N env collection, epochOf e = epochOf event.toAuditEvent := by
  have hl := (load_perm collection.records).symm.subset h
  rw [← links_events (N := N) none (load collection.records)] at hl
  obtain ⟨x, hx, rfl⟩ := List.mem_map.mp hl
  refine ⟨_, List.mem_map_of_mem (List.mem_map_of_mem hx), ?_⟩
  rw [epochOf, relinked_epochId]
  rfl

-- The first event alone is a genesis, so every epoch that verifies holds it.
theorem epoch_of_root {collection : AuditCollection}
    (hv : ∀ e, EpochVerifies N env (repair N env collection).records e)
    {event : AuditEvent} (h : event ∈ relinkedEvents N env collection) :
    ∃ root, (relinkedEvents N env collection)[0]? = some root ∧ epochOf root = epochOf event := by
  obtain ⟨_, l, hp, hl, _⟩ :=
    epochVerifies_iff.mp ((epochVerifies_perm (repair_perm env collection) _).mp (hv (epochOf event)))
  have hmem : event ∈ l := hp.symm.subset (List.mem_filter.mpr ⟨h, inEpoch_iff.mpr rfl⟩)
  cases l with
  | nil => cases hmem
  | cons root l =>
    obtain ⟨hroot, hin⟩ := List.mem_filter.mp (hp.subset List.mem_cons_self)
    obtain ⟨j, hj⟩ := List.mem_iff_getElem?.mp hroot
    have hpath : AuditPath (relinkedEvents N env collection) := relinkedEvents_path collection
    rw [hpath.index_zero hj (hl.root root rfl)] at hj
    exact ⟨root, hj, inEpoch_iff.mp hin⟩

theorem oneEpoch_of_valid {collection : AuditCollection}
    (hv : ∀ e, EpochVerifies N env (repair N env collection).records e) {a b : AuditEventRecord}
    (ha : a ∈ collection.records) (hb : b ∈ collection.records) :
    epochOf a.toAuditEvent = epochOf b.toAuditEvent := by
  obtain ⟨a', ha', hea⟩ := event_linked collection ha
  obtain ⟨b', hb', heb⟩ := event_linked collection hb
  obtain ⟨root, hr, he⟩ := epoch_of_root hv ha'
  obtain ⟨root', hr', he'⟩ := epoch_of_root hv hb'
  obtain rfl := Option.some.inj (hr.symm.trans hr')
  rw [← hea, ← heb, ← he, ← he']

theorem epoch_relinked {collection : AuditCollection} {epochId : String}
    (h : ∀ event ∈ collection.records, epochOf event.toAuditEvent = epochId) :
    ∀ event ∈ relinked N (getSigningSecret env) (load collection.records),
      epochOf event.toAuditEvent = epochId := by
  intro event hm
  obtain ⟨x, hx, rfl⟩ := List.mem_map.mp hm
  rw [epochOf, relinked_epochId]
  have hload : x.event ∈ load collection.records := by
    rw [← links_events (N := N) none (load collection.records)]
    exact List.mem_map_of_mem hx
  exact h x.event ((load_perm _).subset hload)

theorem exists_epoch {collection : AuditCollection}
    (h : ∀ a ∈ collection.records, ∀ b ∈ collection.records, epochOf a.toAuditEvent = epochOf b.toAuditEvent) :
    ∃ epochId, ∀ event ∈ collection.records, epochOf event.toAuditEvent = epochId := by
  cases hr : collection.records with
  | nil => exact ⟨"", fun event hm => absurd hm List.not_mem_nil⟩
  | cons root rest =>
    rw [hr] at h
    exact ⟨epochOf root.toAuditEvent, fun event hm => h event hm root List.mem_cons_self⟩

/-- Every epoch verifies after the repair exactly when there is one, its
identities are distinct and the signatures stand. -/
theorem repair_valid_iff (hN : Digest.CollisionFree N.sha256) (collection : AuditCollection) :
    (∀ e, EpochVerifies N env (repair N env collection).records e) ↔
      (∀ a ∈ collection.records, ∀ b ∈ collection.records, epochOf a.toAuditEvent = epochOf b.toAuditEvent) ∧
        ((links N none (load collection.records)).map fun x => x.event.eventId.getD x.hash).Nodup ∧
        ∀ x ∈ links N none (load collection.records), x.Stands N env := by
  have hperm : ∀ e, EpochVerifies N env (repair N env collection).records e ↔
      EpochVerifies N env (relinked N (getSigningSecret env) (load collection.records)) e :=
    epochVerifies_perm (repair_perm env collection)
  rw [← relinkedEvents_identities collection, ← relinkedEvents_verified hN collection]
  constructor
  · intro hv
    have hone := fun a ha b hb => oneEpoch_of_valid hv (a := a) (b := b) ha hb
    obtain ⟨epochId, he⟩ := exists_epoch hone
    obtain ⟨hids, l, hp, hl, hver⟩ := (verifies_one (epoch_relinked he)).mp fun e => (hperm e).mp (hv e)
    exact ⟨hone, hids, verified_of_path (relinkedEvents_path collection) hp hl hver⟩
  · rintro ⟨hone, hids, hver⟩ e
    obtain ⟨epochId, he⟩ := exists_epoch hone
    refine (hperm e).mpr ((verifies_one (epoch_relinked he)).mpr ⟨hids, _, List.Perm.refl _, ?_, hver⟩ e)
    exact relinkedEvents_chain hN collection

/-! ## Collections that verify already -/

theorem verified_holds : ∀ {events : List AuditEventRecord} {p : Option String},
    Verified N env (prevHashOf p) (events.map (·.toAuditEvent)) → ∀ x ∈ links N p events, x.holds = true := by
  intro events
  induction events with
  | nil => intro _ _ x hx; cases hx
  | cons event events ih =>
    intro p hv
    obtain ⟨hhash, hprev, _, hrest⟩ := hv
    have hh : event.hash = .val (computeHash N p (payload event)) := by
      rw [hhash, expectedHash, prevHashOf_toOption, payload_eq]
    rw [links, List.forall_mem_cons]
    refine ⟨by simp [Link.holds, hh, hprev], ih (p := some _) ?_⟩
    rw [hh] at hrest
    exact hrest

theorem eq_of_ids {l m : List AuditEventRecord} (hp : l.Perm m) (hi : l.map (·.id) = m.map (·.id))
    (hn : (m.map (·.id)).Nodup) : l = m := by
  refine List.ext_getElem hp.length_eq fun i hl hm => ?_
  have hid : (l.map (·.id))[i]? = (m.map (·.id))[i]? := by rw [hi]
  rw [List.getElem?_map, List.getElem?_map, List.getElem?_eq_getElem hl, List.getElem?_eq_getElem hm] at hid
  exact List.inj_on_of_nodup_map hn (hp.subset (List.getElem_mem hl)) (List.getElem_mem hm) (Option.some.inj hid)

theorem idle_iff {collection : AuditCollection}
    (hone : ∀ a ∈ collection.records, ∀ b ∈ collection.records, epochOf a.toAuditEvent = epochOf b.toAuditEvent)
    (hv : ∀ e, EpochVerifies N env collection.records e) : (repair N env collection).records = collection.records ↔
      AuditPath ((load collection.records).map (·.toAuditEvent)) := by
  have hload := load_perm collection.records
  constructor
  · intro hsame
    have hn : ((load collection.records).map (·.id)).Nodup := (hload.map _).nodup_iff.mpr collection.ids
    have hp : (relinked N (getSigningSecret env) (load collection.records)).Perm (load collection.records) := by
      refine (repair_perm env collection).symm.trans ?_
      rw [hsame]
      exact hload.symm
    rw [← eq_of_ids hp (relinked_ids none _) hn]
    exact relinkedEvents_path collection
  · intro hpath
    obtain ⟨epochId, he⟩ := exists_epoch hone
    have hload' : ∀ event ∈ load collection.records, epochOf event.toAuditEvent = epochId :=
      fun event hm => he event (hload.subset hm)
    obtain ⟨_, l, hp, hl, hver⟩ := (verifies_one hload').mp fun e => (epochVerifies_perm hload e).mpr (hv e)
    have hnone : firstBrokenIndex N .null (load collection.records) = none :=
      (firstBroken_none (p := none)).mpr (verified_holds (verified_of_path hpath hp hl hver))
    simp only [repair, updates, hnone]
    rfl

/-- The script does what it is for exactly on the collections of one epoch whose
identities are distinct, whose signatures stand, and which, when they verify
already, list their events in the order of the chain. -/
theorem repairs_iff (hN : Digest.CollisionFree N.sha256) (env : Env) (collection : AuditCollection) :
    Repairs N env collection ↔ Repairable N env collection := by
  constructor
  · intro h
    obtain ⟨hone, hids, hsig⟩ := (repair_valid_iff hN collection).mp h.valid
    exact ⟨hone, hids, hsig, fun hv => (idle_iff hone hv).mp (h.idle hv)⟩
  · intro h
    exact ⟨(repair_valid_iff hN collection).mpr ⟨h.oneEpoch, h.identities, h.signatures⟩, unsealed_kept collection,
      fun hv => (idle_iff h.oneEpoch hv).mpr (h.ordered hv)⟩

end

-- The hash of the second event has been overwritten.
def overwritten : AuditCollection where
  records := [{ sampleFirst with id := 1 }, { sampleSecond with id := 2, hash := .val "0000" }]
  ids := by decide

theorem repairs_iff_sample : Repairs sampleNode noEnv overwritten := by
  refine (repairs_iff sampleNode_collisionFree noEnv overwritten).mpr ⟨?_, ?_, ?_, ?_⟩
  · decide
  · decide +kernel
  · have hunsigned : ∀ x ∈ links sampleNode none (load overwritten.records), x.event.signature = none := by
      decide +kernel
    intro x hx
    rw [← stands_iff sampleNode_collisionFree, Ne, checkSignature_mismatch]
    rintro ⟨signature, _, hs, _⟩
    unfold Link.relinked at hs
    split at hs
    · rw [hunsigned x hx] at hs
      cases hs
    · rw [show (updateFields sampleNode (getSigningSecret noEnv) _ x.event).signature = x.event.signature from rfl,
        hunsigned x hx] at hs
      cases hs
  · intro h
    have hbroken : ¬ EpochVerifies sampleNode noEnv overwritten.records "default" := by
      rw [EpochVerifies]
      decide +kernel
    exact absurd (h "default") hbroken

-- Two epochs of one event each, as the service has appended them.
def twoEpochs : AuditCollection where
  records := [{ sampleFirst with id := 1 },
    { appendRecord sampleNode none "epoch-2" "e-2" sampleTime downloadDto none with id := 2 }]
  ids := by decide

theorem two_epochs_broken : ¬ ∀ (N : Node) (env : Env) (collection : AuditCollection),
    Digest.CollisionFree N.sha256 → Repairs N env collection := by
  intro h
  have hvalid := (h sampleNode noEnv twoEpochs sampleNode_collisionFree).valid
  have hone := oneEpoch_of_valid hvalid (List.mem_cons_self) (List.mem_cons_of_mem _ List.mem_cons_self)
  exact absurd hone (by decide)

end DocVault
