import DocVault.AuditMigration
import Mathlib.Data.List.Infix

/-!
# The service on a migrated store

Migrated events have no epoch, so they are in the default one. Whatever the
instances do once the service is started again, every epoch stays one chain,
and the default one goes on from the migrated events.
-/

namespace DocVault

open Interleave

/-- A record whose hash follows from its content and its predecessor. -/
def Digested (N : Node) (event : AuditEvent) : Prop :=
  hashKey event = some (computeHash N (prevKey event) (buildCanonicalPayload (eventFields event.toAuditContent)))

/-- Records of one chain that were stored before there were epochs. -/
structure Legacy (N : Node) (base : List AuditEvent) : Prop where
  chain : AuditChain base
  hashed : ∀ e ∈ base, Digested N e
  epochless : ∀ e ∈ base, e.epochId = none

/-- The events of an epoch in the order of its chain, of which `added` were appended by the service. -/
def epochChain (base added : List AuditEvent) (epochId : String) : List AuditEvent :=
  (if epochId = DEFAULT_EPOCH_ID then base else []) ++ added.filter (inEpoch epochId)

section
variable {N : Node} {envs : Env → Prop} {base added added' : List AuditEvent} {epochId : String}

theorem Digested.digest {event : AuditEvent} (h : Digested N event) : DigestOrNone N (hashKey event) := by
  intro k hk
  rw [show hashKey event = _ from h] at hk
  exact ⟨_, (Option.some.inj hk).symm⟩

theorem digested_prevKey {l : List AuditEvent} (hl : AuditChain l) (hh : ∀ e ∈ l, Digested N e)
    {e : AuditEvent} (he : e ∈ l) : DigestOrNone N (prevKey e) := by
  intro k hk
  obtain ⟨i, hi⟩ := List.mem_iff_getElem?.mp he
  cases i with
  | zero => rw [hl.root e hi] at hk; cases hk
  | succ i =>
    obtain ⟨a, k', ha, hka, hpk⟩ := hl.step i e hi
    rw [hk] at hpk
    obtain rfl := Option.some.inj hpk
    exact (hh a (List.mem_of_getElem? ha)).digest k hka

theorem epochChain_hashed (hb : Legacy N base) (hw : ∀ e ∈ added, Written N envs e) :
    ∀ e ∈ epochChain base added epochId, Digested N e := by
  intro e he
  rcases List.mem_append.mp he with h | h
  · split at h
    · exact hb.hashed e h
    · exact absurd h List.not_mem_nil
  · exact (hw e (List.mem_filter.mp h).1).hashKey

theorem epochChain_prefix (h : added <+: added') :
    epochChain base added epochId <+: epochChain base added' epochId :=
  (List.prefix_append_right_inj _).mpr (h.filter _)

theorem epochChain_concat (record : AuditEvent) :
    epochChain base (added ++ [record]) epochId =
      epochChain base added epochId ++ [record].filter (inEpoch epochId) := by
  rw [epochChain, epochChain, List.filter_append, List.append_assoc]

theorem legacy_filter (hb : Legacy N base) {before : List AuditEvent} (hp : before.Perm base) :
    (before.filter (inEpoch epochId)).Perm (if epochId = DEFAULT_EPOCH_ID then base else []) := by
  refine (hp.filter _).trans (List.Perm.of_eq ?_)
  by_cases hE : epochId = DEFAULT_EPOCH_ID
  · rw [if_pos hE]
    exact List.filter_eq_self.mpr fun e he => by simp [inEpoch, hb.epochless e he, hE]
  · rw [if_neg hE]
    exact List.filter_eq_nil_iff.mpr fun e he => by simp [inEpoch, hb.epochless e he, hE]

theorem epochChain_read (hb : Legacy N base) {before : List AuditEvent} (hp : before.Perm base) :
    ((before ++ added).filter (inEpoch epochId)).Perm (epochChain base added epochId) := by
  rw [List.filter_append]
  exact (legacy_filter hb hp).append_right _

/-- What is appended after `m` was read can only follow the last record of it. -/
theorem unnamed_of_free (hb : Legacy N base) (hl : AuditChain (epochChain base added' epochId))
    (hm : added <+: added')
    (hw : ∀ e ∈ added', Written N envs e) {record : AuditEvent} (he : record.epochId = some epochId)
    (hprev : prevKey record = (epochChain base added epochId).getLast?.bind hashKey)
    (hfree : ∀ e ∈ added', sameIndexKey record e = false) :
    ∀ e ∈ epochChain base added' epochId, prevKey e ≠ prevKey record := by
  intro e hin heq
  rcases List.mem_append.mp hin with h | h
  · -- a record of before the service: it was read, so the last one read is at its place or behind
    split at h
    · rename_i hE
      have hbase : base <+: epochChain base added epochId := by
        rw [epochChain, if_pos hE]; exact List.prefix_append ..
      obtain ⟨i, hi⟩ := List.mem_iff_getElem?.mp h
      have hilen := (List.getElem?_eq_some_iff.mp hi).1
      have hpre : epochChain base added epochId <+: epochChain base added' epochId := epochChain_prefix hm
      have hil : (epochChain base added' epochId)[i]? = some e :=
        Linked.prefix_getElem? hpre (Linked.prefix_getElem? hbase hi)
      have hlen := hbase.length_le
      cases hlast : (epochChain base added epochId).getLast? with
      | none =>
        rw [List.getLast?_eq_none_iff.mp hlast, List.length_nil] at hlen
        omega
      | some last =>
        have hidx := hlast
        rw [List.getLast?_eq_getElem?] at hidx
        have hk := epochChain_hashed hb (fun e h => hw e (hm.subset h)) last (List.mem_of_getLast? hlast)
        rw [hlast, Option.bind_some, show hashKey last = _ from hk] at hprev
        have := hl.index_succ (Linked.prefix_getElem? hpre hidx) hk hil (heq.trans hprev)
        omega
    · exact absurd h List.not_mem_nil
  · obtain ⟨hmem, hE⟩ := List.mem_filter.mp h
    have hsame := hfree e hmem
    simp [sameIndexKey, he, ((hw e hmem).inEpoch_iff epochId).mp hE,
      show normalizePrevHash e.prevHash = normalizePrevHash record.prevHash from heq] at hsame

theorem epochChain_insert (hN : Digest.CollisionFree N.sha256) (hb : Legacy N base)
    (hl : ∀ E, AuditChain (epochChain base added' E)) (hm : added <+: added') (hw : ∀ e ∈ added', Written N envs e)
    {record : AuditEvent} (hrec : Written N envs record) (he : record.epochId = some epochId)
    (hprev : prevKey record = (epochChain base added epochId).getLast?.bind hashKey)
    (hfree : ∀ e ∈ added', sameIndexKey record e = false) (E : String) :
    AuditChain (epochChain base (added' ++ [record]) E) := by
  rw [epochChain_concat]
  by_cases hE : inEpoch E record = true
  · obtain rfl : epochId = E := Option.some.inj (he.symm.trans ((hrec.inEpoch_iff E).mp hE))
    have hne := unnamed_of_free hb (hl epochId) hm hw he hprev hfree
    have hh : ∀ e ∈ epochChain base added' epochId, Digested N e := epochChain_hashed hb hw
    have hpre : epochChain base added epochId <+: epochChain base added' epochId := epochChain_prefix hm
    rw [List.filter_cons_of_pos hE, List.filter_nil]
    refine (hl epochId).concat ?_ fun k hk a ha hka => ?_
    · cases hlast : (epochChain base added epochId).getLast? with
      | none =>
        rw [hlast] at hprev
        refine .inl ⟨?_, hprev⟩
        cases hc : epochChain base added' epochId with
        | nil => rfl
        | cons g l =>
          have hroot := (hl epochId).root g (by rw [hc]; rfl)
          exact absurd (hroot.trans hprev.symm) (hne g (by rw [hc]; exact List.mem_cons_self))
      | some last =>
        have hidx := Linked.prefix_getElem? hpre ((List.getLast?_eq_getElem? ..).symm.trans hlast)
        have hk := hh last (List.mem_of_getElem? hidx)
        rw [hlast, Option.bind_some, show hashKey last = _ from hk] at hprev
        have hunnamed := (hl epochId).last_of_unnamed hidx hk fun b hb hpb => hne b hb (hpb.trans hprev.symm)
        exact .inr ⟨_, last, _, hidx, hunnamed, hk, hprev⟩
    · have hdig : DigestOrNone N (prevKey record) := by
        rw [hprev]
        cases hlast : (epochChain base added epochId).getLast? with
        | none => exact nofun
        | some last => exact (hh last (hpre.subset (List.mem_of_getLast? hlast))).digest
      rw [hrec.hashKey] at hk
      rw [show hashKey a = _ from hh a ha, ← hk] at hka
      exact hne a ha (computeHash_prev_inj hN (digested_prevKey (hl epochId) hh ha) hdig (Option.some.inj hka))
  · rw [List.filter_cons_of_neg hE, List.filter_nil, List.append_nil]
    exact hl E

end

/-! ## The invariant -/

section
variable {ι : Type} (N : Node) (envs : Env → Prop) (base : List AuditEvent) (before : List (ι × AuditEvent))

/-- The events of before the service are there, and what the service has added continues their chain. -/
structure Continues (db : AuditDb ι) : Prop where
  kept : before <+: db.events
  written : ∀ e ∈ (db.events.drop before.length).map Prod.snd, Written N envs e
  linear : ∀ epochId, AuditChain (epochChain base ((db.events.drop before.length).map Prod.snd) epochId)

def continuesSpec : Spec ι (AuditDb ι) AuditOp AuditOp.Res where
  exec := AuditExec
  pre _ _ _ := True
  inv := Continues N envs base before
  rely _ _ db db' := db.events <+: db'.events

end

section
variable {ι : Type} {N : Node} {envs : Env → Prop} {base : List AuditEvent} {before : List (ι × AuditEvent)} {p : ι}

theorem continuesSpec_closed : (continuesSpec N envs base before).Closed where
  refl _ _ _ := List.prefix_rfl
  trans _ _ _ _ _ h h' := h.trans h'

theorem Continues.of_events {db db' : AuditDb ι} (hi : Continues N envs base before db)
    (h : db'.events = db.events) : Continues N envs base before db' := by
  constructor
  · rw [h]; exact hi.kept
  · rw [h]; exact hi.written
  · rw [h]; exact hi.linear

theorem Continues.events_eq {db : AuditDb ι} (hi : Continues N envs base before db) :
    db.events.map Prod.snd = before.map Prod.snd ++ (db.events.drop before.length).map Prod.snd := by
  obtain ⟨rest, hrest⟩ := hi.kept
  rw [← hrest, List.drop_left, List.map_append]

theorem Continues.read (hb : Legacy N base) (hp : (before.map Prod.snd).Perm base) {db : AuditDb ι}
    (hi : Continues N envs base before db) (epochId : String) :
    (db.epochEvents epochId).Perm (epochChain base ((db.events.drop before.length).map Prod.snd) epochId) := by
  rw [AuditDb.epochEvents, hi.events_eq]
  exact epochChain_read hb hp

theorem Continues.insert (hN : Digest.CollisionFree N.sha256) (hb : Legacy N base) {db db' : AuditDb ι}
    (hr : db.events <+: db'.events) (hi : Continues N envs base before db') {epochId : String}
    {record : AuditEvent} (hw : Written N envs record) (he : record.epochId = some epochId)
    (hprev : prevKey record =
      (epochChain base ((db.events.drop before.length).map Prod.snd) epochId).getLast?.bind hashKey)
    (hfree : ∀ e ∈ db'.events, sameIndexKey record e.2 = false) :
    Continues N envs base before { db' with events := db'.events ++ [(p, record)] } := by
  have hdrop : ((db'.events ++ [(p, record)]).drop before.length).map Prod.snd =
      (db'.events.drop before.length).map Prod.snd ++ [record] := by
    rw [List.drop_append_of_le_length hi.kept.length_le, List.map_append, List.map_singleton]
  have hpre : (db.events.drop before.length).map Prod.snd <+: (db'.events.drop before.length).map Prod.snd :=
    (hr.drop before.length).map Prod.snd
  constructor
  · exact hi.kept.trans (List.prefix_append ..)
  · rw [hdrop]
    intro e hm
    rcases List.mem_append.mp hm with h | h
    · exact hi.written e h
    · rw [List.mem_singleton.mp h]; exact hw
  · rw [hdrop]
    refine epochChain_insert hN hb hi.linear hpre hi.written hw he hprev fun e hm => ?_
    obtain ⟨x, hx, rfl⟩ := List.mem_map.mp hm
    exact hfree x (List.mem_of_mem_drop hx)

theorem exec_continues {db db' : AuditDb ι} {o : AuditOp} {r : o.Res} (hi : Continues N envs base before db)
    (hx : AuditExec p db o r db') (ho : o.inserts = false) : Continues N envs base before db' := by
  rcases exec_events hx with he | ⟨record, rfl, _⟩
  · exact hi.of_events he
  · cases ho

theorem exec_grows {db db' : AuditDb ι} {o : AuditOp} {r : o.Res} (hx : AuditExec p db o r db') :
    db.events <+: db'.events := by
  rcases exec_events hx with he | ⟨record, _, _, _, rfl⟩
  · rw [he]
  · exact List.prefix_append ..

abbrev Safe (N : Node) (envs : Env → Prop) (base : List AuditEvent)
    (before : List (ι × AuditEvent)) (p : ι) {α : Type} (m : AuditM α) (db : AuditDb ι) : Prop :=
  Ok (continuesSpec N envs base before) p (fun _ _ => True) (fun _ _ => True) m db

theorem safe_bind {α β : Type} {m : AuditM α} {f : α → AuditM β} {db : AuditDb ι}
    (hi : Continues N envs base before db) (hm : Safe N envs base before p m db)
    (hf : ∀ a db', Continues N envs base before db' → Safe N envs base before p (f a) db') :
    Safe N envs base before p (m >>= f) db := Ok_bind (fun a db' hi _ => hf a db' hi) m db hi hm

theorem safe_op {α : Type} {o : AuditOp} {k : o.Res → AuditM α} {db : AuditDb ι} (ho : o.inserts = false)
    (hk : ∀ r db', Continues N envs base before db' → Safe N envs base before p (k r) db') :
    Safe N envs base before p (Prog.op o >>= k) db := by
  refine Ok_op (fun _ _ _ _ => trivial) (fun _ _ _ _ => trivial) fun db₁ r db₂ _ hi _ hx => ?_
  have hi' := exec_continues hi hx ho
  exact ⟨hi', hk r db₂ hi'⟩

theorem safe_reads {α : Type} {reader : EpochReader} {now : JsDate} {m : AuditM α} (hm : m.Uses (Reads reader now))
    (db : AuditDb ι) : Safe N envs base before p m db := by
  refine Ok_uses (J := fun _ => True) (fun _ _ _ _ _ _ _ => trivial) (fun _ _ _ _ _ _ => trivial) ?_ m db hm trivial
  intro o db r db' ho hi _ _ hx
  refine ⟨exec_continues hi hx ?_, trivial⟩
  cases o with
  | insertEvent _ => exact absurd ho id
  | _ => rfl

section
variable (hN : Digest.CollisionFree N.sha256) (hb : Legacy N base) (hp : (before.map Prod.snd).Perm base)
include hN hb hp

theorem safe_attempts {env : Env} (henv : envs env) (epochId eventId : String) (eventTimestamp : JsDate)
    (dto : CreateAuditEventDto) : ∀ (attempts : Nat) (db : AuditDb ι), Safe N envs base before p
      (appendAttempts N (getSigningSecret env) epochId eventId eventTimestamp dto attempts) db
  | 0, _ => trivial
  | attempts + 1, _ => by
    refine Ok_op (fun _ _ _ _ => trivial) (fun _ _ _ _ => trivial) fun db₁ events db₂ _ hi _ hx => ?_
    obtain ⟨hread, rfl⟩ := hx
    have hh := @epochChain_hashed N envs base _ epochId hb hi.written
    refine ⟨hi, ?_⟩
    dsimp only
    rw [getCurrentChainTail_of_chain epochId (hi.linear epochId) (hread.trans (hi.read hb hp epochId))
      fun e he => ⟨_, hh e he⟩, Prog.ofExcept_ok, Prog.ret_bind]
    refine Ok_op (fun _ _ _ _ => trivial) (fun _ _ _ _ => trivial) fun db₃ r db₄ hr hi₃ _ hx => ?_
    rcases insert_cases hx with ⟨rfl, _, hfree, rfl⟩ | ⟨hne, rfl⟩
    · exact ⟨hi₃.insert hN hb hr ⟨env, _, _, _, _, _, henv, rfl⟩ rfl (prevKey_appendRecord ..) hfree, trivial⟩
    · refine ⟨hi₃, ?_⟩
      cases r with
      | saved => exact absurd rfl hne
      | duplicatePrevHash => exact safe_attempts henv epochId eventId eventTimestamp dto attempts _
      | invalid => trivial

theorem safe_append {env : Env} (henv : envs env) (call : CreateCall) {db : AuditDb ι}
    (hi : Continues N envs base before db) : Safe N envs base before p (appendEvent N env call) db := by
  have hread : Safe N envs base before p (getActiveEpochId call.epochNow) db :=
    safe_bind hi (safe_reads (getActiveEpochRecord_uses .append call.epochNow) db) fun _ _ _ => trivial
  refine safe_bind hi hread fun epochId db' _ => ?_
  cases call.eventTimestamp N with
  | none => trivial
  | some eventTimestamp => exact safe_attempts hN hb hp henv epochId call.eventId eventTimestamp call.dto _ db'

theorem safe_seal {env : Env} (henv : envs env) (call : SealCall) {db : AuditDb ι}
    (hi : Continues N envs base before db) :
    Safe N envs base before p (sealCompromisedChainAndStartEpoch N env call) db := by
  refine safe_bind hi (safe_reads (getActiveEpochRecord_uses .sealChain call.epochNow) db) fun _ db hi => ?_
  refine safe_bind hi (safe_reads (verifyChain_uses N env .sealChain 5000 call.epochNow) db)
    fun verification db hi => ?_
  by_cases hv : verification.chain.valid = true
  · rw [if_pos hv]
    trivial
  · rw [if_neg hv]
    refine safe_op rfl fun r db' _ => ?_
    cases r with
    | duplicateKey => trivial
    | saved =>
      refine safe_op rfl fun _ _ _ => safe_op rfl fun r db' hi => ?_
      cases r with
      | duplicateKey => trivial
      | saved => exact safe_bind hi (safe_append hN hb hp henv _ hi) fun _ _ _ => trivial

theorem safe_task (t : Task) (henv : envs t.env) {db : AuditDb ι} (hi : Continues N envs base before db) :
    Safe N envs base before p (t.prog N) db := by
  cases t with
  | create env call => exact safe_bind hi (safe_append hN hb hp henv call hi) fun _ _ _ => trivial
  | verify env limit now =>
    exact safe_bind hi (safe_reads (verifyChain_uses N env .verify limit now) db) fun _ _ _ => trivial
  | sealChain env call => exact safe_bind hi (safe_seal hN hb hp henv call hi) fun _ _ _ => trivial

theorem reach_continues [DecidableEq ι] {tasks : ι → Task} (henv : ∀ p, envs (tasks p).env) {db : AuditDb ι}
    (hdb : db.events = before) {c : Config ι (AuditDb ι) AuditOp AuditOp.Res AuditError Outcome}
    (hr : Reach AuditExec (fun _ _ _ => True) ⟨db, fun p => (tasks p).prog N⟩ c) :
    Continues N envs base before c.store := by
  have hi : Continues N envs base before db := by
    have hnone : db.events.drop before.length = [] := by rw [hdb, List.drop_length]
    constructor
    · rw [hdb]
    · rw [hnone]
      exact fun e he => absurd he List.not_mem_nil
    · rw [hnone]
      intro epochId
      rw [epochChain, List.map_nil, List.filter_nil, List.append_nil]
      split
      · exact hb.chain
      · exact Linked.chain_nil
  refine (Reach.ok (S := continuesSpec N envs base before) (Q := fun _ _ _ => True) (E := fun _ _ _ => True) hr
    continuesSpec_closed hi (fun p => safe_task hN hb hp (tasks p) (henv p) hi) (fun _ _ _ _ => trivial)
    (fun _ _ _ _ _ _ _ => trivial) (fun _ _ _ _ _ _ _ => trivial) ?_).1
  exact fun c p q o k r db' _ _ hx _ _ _ => exec_grows hx

end

end

/-! ## What verification reads -/

/-- A record that passes the checks of the verifier once it is in its place. -/
structure Checkable (N : Node) (env : Env) (event : AuditEvent) : Prop where
  hash : event.hash =
    .val (computeHash N (prevKey event) (buildCanonicalPayload (eventFields event.toAuditContent)))
  prevHash : event.prevHash = RepairAuditChain.prevHashOf (prevKey event)
  signature : checkSignature N env event ≠ .mismatch

section
variable {N : Node} {env : Env}

theorem Written.checkable {event : AuditEvent} (h : Written N (· = env) event) : Checkable N env event where
  hash := h.hash
  prevHash := by
    rw [h.prevHash]
    cases prevKey event <;> rfl
  signature := h.checkSignature

theorem verified_of_checkable {l : List AuditEvent} (hl : AuditChain l) (hc : ∀ e ∈ l, Checkable N env e) :
    Verified N env .null l := by
  induction l using List.reverseRecOn with
  | nil => trivial
  | append_singleton l b ih =>
    have hb := hc b (List.mem_append_right l (List.mem_singleton.mpr rfl))
    have hv := ih (hl.of_prefix (List.prefix_append l [b])) fun e he => hc e (List.mem_append_left _ he)
    have hidx : (l ++ [b])[l.length]? = some b := by simp
    have hlast : lastHash .null l = RepairAuditChain.prevHashOf (prevKey b) := by
      cases hlen : l.length with
      | zero =>
        obtain rfl := List.length_eq_zero_iff.mp hlen
        rw [hl.root b hidx]
        rfl
      | succ i =>
        obtain ⟨a, k, ha, hka, hpk⟩ := hl.step i b (hlen ▸ hidx)
        rw [List.getElem?_append_left (by omega)] at ha
        rw [lastHash, List.getLast?_eq_getElem?, hlen, Nat.add_sub_cancel, ha, hpk]
        have hah := (hc a (List.mem_append_left _ (List.mem_of_getElem? ha))).hash
        rw [hashKey, hah] at hka
        rw [Option.map_some, Option.getD_some, hah]
        exact congrArg Nullable.val (Option.some.inj hka)
    refine verified_concat hv ?_ (hb.prevHash.trans hlast.symm) hb.signature
    rw [hb.hash, expectedHash, hlast, RepairAuditChain.prevHashOf_toOption]

end

namespace MigrateToMongo

section
variable {N : Node} {rows : List PgRow}

theorem migrateBatch_checkable (env : Env) : ∀ e ∈ (migrateBatch N false none rows).1, Checkable N env e := by
  intro e he
  have hs := (migrateBatch_epochs e he).2
  rw [migrateBatch_links] at he
  obtain ⟨x, hx, rfl⟩ := List.mem_map.mp he
  rw [List.mem_iff_getElem?] at hx
  obtain ⟨i, hi⟩ := hx
  constructor
  · rw [prevKey_sealed]
    exact congrArg Nullable.val ((RepairAuditChain.links_hash (List.mem_of_getElem? hi)).trans
      (congrArg _ (RepairAuditChain.payload_eq x.event)))
  · rw [prevKey_sealed]
    show storedPrevHash false x.prevHash = RepairAuditChain.prevHashOf x.prevHash
    cases x.prevHash with
    | none => rfl
    | some hash => rfl
  · rw [checkSignature, hs]
    intro hbad
    cases hbad

theorem migrateBatch_legacy (hN : Digest.CollisionFree N.sha256) : Legacy N (migrateBatch N false none rows).1 where
  chain := migrateBatch_chain hN rows
  hashed e he := by
    rw [Digested, hashKey, (migrateBatch_checkable noEnv e he).hash]
    rfl
  epochless e he := (migrateBatch_epochs e he).1

end

section
variable {ι : Type} [DecidableEq ι] {N : Node} {env : Env} {order : Nat → List PgRow} {rows : List PgRow}

/-- However the instances of the service work on a migrated store, every epoch stays one chain, the
default one goes on from the migrated events, and it is accepted exactly while all ids are distinct. -/
theorem migrated_reach (hN : Digest.CollisionFree N.sha256)
    (horder : ∀ offset, Paging.Arranged byTime (order offset) rows) {collection : List AuditEvent}
    (hm : migrate N false order rows.length [] = .ok collection) {db : AuditDb ι}
    (hdb : (db.events.map Prod.snd).Perm collection) {tasks : ι → Task} (henv : ∀ p, (tasks p).env = env)
    {c : Config ι (AuditDb ι) AuditOp AuditOp.Res AuditError Outcome}
    (hr : Reach AuditExec (fun _ _ _ => True) ⟨db, fun p => (tasks p).prog N⟩ c) :
    ∃ added : List AuditEvent, c.store.events.map Prod.snd = db.events.map Prod.snd ++ added ∧
      (∀ epochId, AuditChain (epochChain collection added epochId)) ∧
      ∀ limit records, records.Perm (c.store.epochEvents DEFAULT_EPOCH_ID) →
        ((verifyEvents N env limit records).valid = true ↔
          ((migratedRows order rows.length).map (fun row => row.eventId) ++
            (added.filter (inEpoch DEFAULT_EPOCH_ID)).map eventIdentity).Nodup) := by
  rw [migrate_eq hN fun offset => (horder offset).perm.length_eq] at hm
  obtain rfl := Except.ok.inj hm
  have hb : Legacy N (migrateBatch N false none (migratedRows order rows.length)).1 := migrateBatch_legacy hN
  have hi : Continues N (· = env)
    (migrateBatch N false none (migratedRows order rows.length)).1 db.events c.store :=
    reach_continues hN hb hdb henv rfl hr
  refine ⟨_, hi.events_eq, hi.linear, fun limit records hrec => ?_⟩
  have hlinear := hi.linear DEFAULT_EPOCH_ID
  have hcheck : ∀ e ∈ epochChain (migrateBatch N false none (migratedRows order rows.length)).1
      ((c.store.events.drop db.events.length).map Prod.snd) DEFAULT_EPOCH_ID, Checkable N env e := by
    intro e he
    rcases List.mem_append.mp he with h | h
    · exact migrateBatch_checkable env e h
    · exact (hi.written e (List.mem_filter.mp h).1).checkable
  obtain ⟨hok, hbad⟩ := @verifyEvents_of_chain N env limit _ _ hlinear
    (fun e he => by rw [(hcheck e he).hash]; exact nofun) (hrec.trans (hi.read hb hdb DEFAULT_EPOCH_ID))
  have hids : (epochChain (migrateBatch N false none (migratedRows order rows.length)).1
      ((c.store.events.drop db.events.length).map Prod.snd) DEFAULT_EPOCH_ID).map eventIdentity =
      (migratedRows order rows.length).map (fun row => row.eventId) ++
        ((((c.store.events.drop db.events.length).map Prod.snd).filter
          (inEpoch DEFAULT_EPOCH_ID)).map eventIdentity) := by
    rw [epochChain, if_pos rfl, List.map_append, migrateBatch_identities]
  rw [hids] at hok hbad
  by_cases hn : ((migratedRows order rows.length).map (fun row => row.eventId) ++
      (((c.store.events.drop db.events.length).map Prod.snd).filter
        (inEpoch DEFAULT_EPOCH_ID)).map eventIdentity).Nodup
  · rw [hok hn, verifyEventSequence_valid_iff]
    exact iff_of_true (verified_take (verified_of_checkable hlinear hcheck) limit) hn
  · exact iff_of_false (by rw [hbad hn]; exact Bool.false_ne_true) hn

end

/-! Two writers on the store of the two migrated rows. -/

def sampleCollection : List AuditEvent :=
  (migrateBatch sampleNode false none (migratedRows sampleOrder sampleRows.length)).1

theorem sampleCollection_eq : migrate sampleNode false sampleOrder sampleRows.length [] = .ok sampleCollection :=
  migrate_eq sampleNode_collisionFree fun _ => rfl

def sampleMigrated : AuditDb Bool := ⟨[], [], sampleCollection.map fun e => (true, e)⟩

theorem sampleMigrated_events : sampleMigrated.events.map Prod.snd = sampleCollection := by
  simp [sampleMigrated]

def sampleWorking : Config Bool (AuditDb Bool) AuditOp AuditOp.Res AuditError Outcome :=
  schedule auditRun ⟨sampleMigrated, fun p => (sampleTasks p).prog sampleNode⟩
    [true, true, false, true, false, true, false, false, false]

theorem sampleWorking_reach : Reach AuditExec (fun _ _ _ => True)
    ⟨sampleMigrated, fun p => (sampleTasks p).prog sampleNode⟩ sampleWorking :=
  Reach.schedule auditRun_exec _ _ .refl (meets_true _ _)

theorem migrated_reach_sample :
    ∃ added : List AuditEvent,
      sampleWorking.store.events.map Prod.snd = sampleMigrated.events.map Prod.snd ++ added ∧
      (∀ epochId, AuditChain (epochChain sampleCollection added epochId)) ∧
      ∀ limit records, records.Perm (sampleWorking.store.epochEvents DEFAULT_EPOCH_ID) →
        ((verifyEvents sampleNode noEnv limit records).valid = true ↔
          ((migratedRows sampleOrder sampleRows.length).map (fun row => row.eventId) ++
            (added.filter (inEpoch DEFAULT_EPOCH_ID)).map eventIdentity).Nodup) :=
  have henv : ∀ p, (sampleTasks p).env = noEnv := fun _ => rfl
  migrated_reach sampleNode_collisionFree sampleRows_arranged sampleCollection_eq
    (.of_eq sampleMigrated_events) henv sampleWorking_reach

end MigrateToMongo

end DocVault
