import DocVault.AuditStore
import DocVault.AuditChainSound
import DocVault.Delimited
import DocVault.Digest

/-!
# Appending keeps every epoch one chain

Whatever the interleaving, the events of an epoch are linked in the order of
their insertion. A writer links to the last record of what it read, which is
a beginning of the chain; the unique index lets its record in only while that
beginning is still the whole chain.
-/

namespace DocVault

open Interleave

/-! ## Written records -/

/-- The records that `appendEvent` inserts on an instance with one of the environments `envs`. -/
def Written (N : Node) (envs : Env → Prop) (event : AuditEvent) : Prop :=
  ∃ (env : Env) (epochId eventId : String) (eventTimestamp : JsDate) (dto : CreateAuditEventDto)
    (prevHash : Option String), envs env ∧
      event = appendRecord N (getSigningSecret env) epochId eventId eventTimestamp dto prevHash

@[simp] theorem prevKey_appendRecord (N : Node) (signing : Option SigningKey) (epochId eventId : String)
    (eventTimestamp : JsDate) (dto : CreateAuditEventDto) (prevHash : Option String) :
    prevKey (appendRecord N signing epochId eventId eventTimestamp dto prevHash) = prevHash := by
  cases prevHash <;> rfl

section
variable {N : Node} {envs : Env → Prop}

theorem Written.epochId {event : AuditEvent} (h : Written N envs event) :
    ∃ epochId, event.epochId = some epochId := by
  obtain ⟨_, epochId, _, _, _, _, _, rfl⟩ := h
  exact ⟨epochId, rfl⟩

theorem Written.inEpoch_iff {event : AuditEvent} (h : Written N envs event) (epochId : String) :
    inEpoch epochId event = true ↔ event.epochId = some epochId := by
  obtain ⟨e, he⟩ := h.epochId
  simp [inEpoch, he]

theorem Written.hash {event : AuditEvent} (h : Written N envs event) :
    event.hash = .val
      (computeHash N (prevKey event) (buildCanonicalPayload (eventFields event.toAuditContent))) := by
  obtain ⟨_, epochId, eventId, eventTimestamp, dto, prevHash, _, rfl⟩ := h
  rw [prevKey_appendRecord]
  rfl

theorem Written.hashKey {event : AuditEvent} (h : Written N envs event) :
    hashKey event = some
      (computeHash N (prevKey event) (buildCanonicalPayload (eventFields event.toAuditContent))) := by
  unfold DocVault.hashKey
  rw [h.hash]
  rfl

def DigestOrNone (N : Node) (key : Option String) : Prop := ∀ k, key = some k → ∃ text, k = N.sha256 text

theorem Written.hashKey_digest {event : AuditEvent} (h : Written N envs event) :
    DigestOrNone N (DocVault.hashKey event) := by
  intro k hk
  rw [h.hashKey] at hk
  exact ⟨_, (Option.some.inj hk).symm⟩

/-- The hash determines the predecessor: a digest holds no separator and is not empty. -/
theorem computeHash_prev_inj (hN : Digest.CollisionFree N.sha256) {a b : Option String} (ha : DigestOrNone N a)
    (hb : DigestOrNone N b) {x y : String} (h : computeHash N a x = computeHash N b y) : a = b := by
  have htext := congrArg String.toList (hN.injective h)
  simp only [String.toList_append, List.append_assoc] at htext
  have hfree : ∀ {key : Option String}, DigestOrNone N key → '|' ∉ (key.getD "").toList := by
    intro key hk
    cases key with
    | none => exact List.not_mem_nil
    | some k =>
      obtain ⟨text, rfl⟩ := hk k rfl
      exact hN.not_mem (by decide) text
  have hne : ∀ {key : Option String}, DigestOrNone N key → key.getD "" = "" → key = none := by
    intro key hk he
    cases key with
    | none => rfl
    | some k =>
      obtain ⟨text, rfl⟩ := hk k rfl
      exact absurd he (hN.nonempty text)
  have hs : a.getD "" = b.getD "" := String.toList_inj.mp (Delimited.cut_injective (hfree ha) (hfree hb) htext).1
  cases a with
  | none => exact (hne hb hs.symm).symm
  | some k =>
    cases b with
    | none => exact hne ha hs
    | some k' => exact congrArg some hs

end

/-! ## The tail of a chain -/

theorem getCurrentChainTail_of_chain (epochId : String) {events m : List AuditEvent} (hm : AuditChain m)
    (hp : events.Perm m) (hh : ∀ e ∈ m, ∃ k, hashKey e = some k) :
    getCurrentChainTail epochId events = .ok m.getLast? := by
  cases hl : m.getLast? with
  | none =>
    rw [List.getLast?_eq_none_iff] at hl
    rw [hl, List.perm_nil] at hp
    rw [hp]; rfl
  | some last =>
    have hne : m ≠ [] := fun h => by simp [h] at hl
    have hlen : 0 < m.length := List.length_pos_iff.mpr hne
    have hidx : m[m.length - 1]? = some last := by rw [← List.getLast?_eq_getElem?, hl]
    have hempty : events.isEmpty = false := by
      rw [List.isEmpty_eq_false_iff]; exact fun h => hne (by rw [h] at hp; exact hp.symm.eq_nil)
    have hmem : ∀ k : String, k ∈ events.filterMap (fun e => e.prevHash.toOption) ↔
      ∃ b ∈ m, prevKey b = some k := by
      intro k
      rw [List.mem_filterMap]
      exact ⟨fun ⟨b, hb, hk⟩ => ⟨b, hp.subset hb, hk⟩, fun ⟨b, hb, hk⟩ => ⟨b, hp.symm.subset hb, hk⟩⟩
    have htail : ∀ e ∈ m, (e.hash.toOption.any fun k => decide
        (k ∉ events.filterMap fun e => e.prevHash.toOption)) = true ↔ e = last := by
      intro e he
      obtain ⟨k, hk⟩ := hh e he
      obtain ⟨i, hi⟩ := List.mem_iff_getElem?.mp he
      rw [show e.hash.toOption = some k from hk, Option.any_some, decide_eq_true_iff, hmem]
      constructor
      · intro hf
        have := hm.last_of_unnamed hi hk fun b hb hpb => hf ⟨b, hb, hpb⟩
        rw [show i = m.length - 1 by omega, hidx] at hi
        exact (Option.some.inj hi).symm
      · rintro rfl ⟨b, hb, hpb⟩
        obtain ⟨j, hj⟩ := List.mem_iff_getElem?.mp hb
        have h1 := hm.index_succ hidx hk hj hpb
        have h2 := (List.getElem?_eq_some_iff.mp hj).1
        omega
    have hfil : events.filter (fun e => e.hash.toOption.any fun k => decide
        (k ∉ events.filterMap fun e => e.prevHash.toOption)) = [last] := by
      have hnd : m.Nodup := List.Nodup.of_map _ hm.nodup
      rw [← List.perm_singleton]
      refine (hp.filter _).trans ?_
      rw [filter_eq_singleton hnd (List.mem_of_getLast? hl) ((htail last (List.mem_of_getLast? hl)).mpr rfl)
        fun y hy hpy => (htail y hy).mp hpy]
    unfold getCurrentChainTail
    simp only [hempty, Bool.false_eq_true, if_false, hfil]

/-! ## The invariant -/

section
variable {ι : Type}

structure ChainInv (N : Node) (envs : Env → Prop) (db : AuditDb ι) : Prop where
  written : ∀ e ∈ db.events, Written N envs e.2
  linear : ∀ epochId, AuditChain (db.epochEvents epochId)

variable {N : Node} {envs : Env → Prop}

theorem ChainInv.of_mem {db : AuditDb ι} (hi : ChainInv N envs db) {epochId : String} {e : AuditEvent}
    (he : e ∈ db.epochEvents epochId) : Written N envs e ∧ e.epochId = some epochId ∧ ∃ x ∈ db.events, x.2 = e := by
  obtain ⟨hm, hin⟩ := List.mem_filter.mp he
  obtain ⟨x, hx, rfl⟩ := List.mem_map.mp hm
  exact ⟨hi.written x hx, ((hi.written x hx).inEpoch_iff epochId).mp hin, x, hx, rfl⟩

theorem chainInv_of_events {db db' : AuditDb ι} (hi : ChainInv N envs db) (h : db'.events = db.events) :
    ChainInv N envs db' where
  written := by rw [h]; exact hi.written
  linear epochId := by unfold AuditDb.epochEvents; rw [h]; exact hi.linear epochId

theorem epochEvents_insert (db : AuditDb ι) (p : ι) (record : AuditEvent) (epochId : String) :
    ({ db with events := db.events ++ [(p, record)] } : AuditDb ι).epochEvents epochId =
      db.epochEvents epochId ++ [record].filter (inEpoch epochId) := by
  simp [AuditDb.epochEvents]

theorem prevKey_digest {l : List AuditEvent} (hl : AuditChain l) (hw : ∀ e ∈ l, Written N envs e) {e : AuditEvent}
    (he : e ∈ l) : DigestOrNone N (prevKey e) := by
  intro k hk
  obtain ⟨i, hi⟩ := List.mem_iff_getElem?.mp he
  cases i with
  | zero => rw [hl.root e hi] at hk; cases hk
  | succ i =>
    obtain ⟨a, k', ha, hka, hpk⟩ := hl.step i e hi
    rw [hk] at hpk
    obtain rfl := Option.some.inj hpk
    exact (hw a (List.mem_of_getElem? ha)).hashKey_digest k hka

theorem ChainInv.insert (hN : Digest.CollisionFree N.sha256) {db : AuditDb ι} (hi : ChainInv N envs db)
    {m : List AuditEvent} {epochId : String} (hm : m <+: db.epochEvents epochId) {record : AuditEvent}
    (hw : Written N envs record) (he : record.epochId = some epochId)
    (hprev : prevKey record = m.getLast?.bind hashKey)
    (hfree : ∀ e ∈ db.events, sameIndexKey record e.2 = false) (p : ι) :
    ChainInv N envs { db with events := db.events ++ [(p, record)] } where
  written e hm := by
    rcases List.mem_append.mp hm with h | h
    · exact hi.written e h
    · rw [List.mem_singleton.mp h]; exact hw
  linear E := by
    rw [epochEvents_insert]
    by_cases hE : inEpoch E record = true
    · obtain rfl : epochId = E := Option.some.inj (he.symm.trans ((hw.inEpoch_iff E).mp hE))
      have hl := hi.linear epochId
      have hwl : ∀ e ∈ db.epochEvents epochId, Written N envs e := fun e h => (hi.of_mem h).1
      have hne : ∀ e ∈ db.epochEvents epochId, prevKey e ≠ prevKey record := by
        intro e h heq
        obtain ⟨_, hep, x, hx, rfl⟩ := hi.of_mem h
        have := hfree x hx
        simp [sameIndexKey, he, hep,
          show normalizePrevHash x.2.prevHash = normalizePrevHash record.prevHash from heq] at this
      rw [List.filter_cons_of_pos hE, List.filter_nil]
      refine hl.concat ?_ ?_
      · cases hlast : m.getLast? with
        | none =>
          rw [hlast] at hprev
          refine .inl ⟨?_, hprev⟩
          cases hc : db.epochEvents epochId with
          | nil => rfl
          | cons g l =>
            rw [hc] at hne hl
            exact absurd ((hl.root g rfl).trans hprev.symm) (hne g (List.mem_cons_self ..))
        | some last =>
          rw [hlast] at hprev
          have hidx : (db.epochEvents epochId)[m.length - 1]? = some last :=
            Linked.prefix_getElem? hm (by rw [← List.getLast?_eq_getElem?, hlast])
          have hk := (hwl last (List.mem_of_getElem? hidx)).hashKey
          rw [Option.bind_some, hk] at hprev
          exact .inr ⟨_, last, _, hidx,
            hl.last_of_unnamed hidx hk fun b hb hpb => hne b hb (hpb.trans hprev.symm), hk, hprev⟩
      · intro k hk a ha hka
        have hdig : DigestOrNone N (prevKey record) := by
          rw [hprev]
          cases hlast : m.getLast? with
          | none => exact nofun
          | some last => exact (hwl last (hm.subset (List.mem_of_getLast? hlast))).hashKey_digest
        rw [hw.hashKey] at hk
        rw [(hwl a ha).hashKey, ← hk] at hka
        exact hne a ha (computeHash_prev_inj hN (prevKey_digest hl hwl ha) hdig (Option.some.inj hka))
    · rw [List.filter_cons_of_neg hE, List.filter_nil, List.append_nil]
      exact hi.linear E

end

/-! ## One process -/

section
variable {ι : Type} [DecidableEq ι]

/-- The events that process `p` inserted. -/
def AuditDb.contributed (db : AuditDb ι) (p : ι) : List AuditEvent :=
  db.events.filterMap fun e => if e.1 = p then some e.2 else none

theorem contributed_insert (db : AuditDb ι) (p q : ι) (record : AuditEvent) :
    ({ db with events := db.events ++ [(q, record)] } : AuditDb ι).contributed p =
      db.contributed p ++ if q = p then [record] else [] := by
  by_cases h : q = p <;> simp [AuditDb.contributed, h]

theorem contributed_of_events {db db' : AuditDb ι} (h : db'.events = db.events) (p : ι) :
    db'.contributed p = db.contributed p := by unfold AuditDb.contributed; rw [h]

def chainSpec (N : Node) (envs : Env → Prop) : Spec ι (AuditDb ι) AuditOp AuditOp.Res where
  exec := AuditExec
  pre _ _ _ := True
  inv := ChainInv N envs
  rely p _ db db' := db.events <+: db'.events ∧ db'.contributed p = db.contributed p

theorem chainSpec_closed (N : Node) (envs : Env → Prop) :
    (chainSpec N envs : Spec ι (AuditDb ι) AuditOp AuditOp.Res).Closed where
  refl _ _ _ := ⟨List.prefix_rfl, rfl⟩
  trans _ _ _ _ _ h h' := ⟨h.1.trans h'.1, h'.2.trans h.2⟩

omit [DecidableEq ι] in
theorem epochEvents_prefix {db db' : AuditDb ι} (h : db.events <+: db'.events) (epochId : String) :
    db.epochEvents epochId <+: db'.epochEvents epochId := (h.map Prod.snd).filter _

variable {N : Node} {envs : Env → Prop} {p : ι} {α : Type} {Q : α → AuditDb ι → Prop}
  {E : AuditError → AuditDb ι → Prop}

abbrev Has (p : ι) (l : List AuditEvent) (db : AuditDb ι) : Prop := db.contributed p = l

theorem ok_quiet {o : AuditOp} {k : o.Res → AuditM α} {l : List AuditEvent} {db : AuditDb ι} (h : Has p l db)
    (hE : ∀ e db, Has p l db → E e db)
    (hk : ∀ r db' db'', ChainInv N envs db'' → AuditExec p db' o r db'' → Has p l db'' →
      Ok (chainSpec N envs) p Q E (k r) db'') (ho : o.inserts = false := by rfl) :
    Ok (chainSpec N envs) p Q E (Prog.op o >>= k) db := by
  refine Ok_op (fun _ _ _ _ => trivial) (fun e db' hr _ => hE e db' (hr.2.trans h)) fun db' r db'' hr hi _ hx => ?_
  rcases exec_events hx with he | ⟨record, rfl, _⟩
  · have hi' := chainInv_of_events hi he
    exact ⟨hi', hk r db' db'' hi' hx ((contributed_of_events he p).trans (hr.2.trans h))⟩
  · cases ho

theorem reads_ok {reader : EpochReader} {now : JsDate} {m : AuditM α} (hm : m.Uses (Reads reader now))
    {l : List AuditEvent} {db : AuditDb ι} (h : Has p l db) :
    Ok (chainSpec N envs) p (fun _ => Has p l) (fun _ => Has p l) m db := by
  refine Ok_uses ?_ (fun _ _ _ _ _ _ => trivial) ?_ m db hm h
  · intro o db db' _ h hr _
    exact hr.2.trans h
  intro o db r db' ho hi h _ hx
  rcases exec_events hx with he | ⟨record, rfl, _⟩
  · exact ⟨chainInv_of_events hi he, (contributed_of_events he p).trans h⟩
  · exact absurd ho id

def CreateCall.Recorded (N : Node) (env : Env) (call : CreateCall) (event : AuditEvent) : Prop :=
  ∃ (epochId : String) (eventTimestamp : JsDate) (prevHash : Option String),
    call.eventTimestamp N = some eventTimestamp ∧
    event = appendRecord N (getSigningSecret env) epochId call.eventId eventTimestamp call.dto prevHash

section
variable (hN : Digest.CollisionFree N.sha256)
include hN

/-- Each attempt either inserts the one record or leaves no trace. -/
theorem appendAttempts_ok {env : Env} (henv : envs env) (epochId : String) {call : CreateCall}
    {eventTimestamp : JsDate}
    (ht : call.eventTimestamp N = some eventTimestamp) {l : List AuditEvent} : ∀ (attempts : Nat) (db : AuditDb ι),
    Has p l db → Ok (chainSpec N envs) p (fun event db => call.Recorded N env event ∧ Has p (l ++ [event]) db)
      (fun _ => Has p l)
      (appendAttempts N (getSigningSecret env) epochId call.eventId eventTimestamp call.dto attempts) db
  | 0, _, h => h
  | attempts + 1, db, h => by
    refine ok_quiet h (fun _ _ h => h) fun events db₁ db' hi hx h => ?_
    obtain ⟨hp, rfl⟩ := hx
    have hl := hi.linear epochId
    rw [getCurrentChainTail_of_chain epochId hl hp fun e he => ⟨_, (hi.of_mem he).1.hashKey⟩, Prog.ofExcept_ok,
      Prog.ret_bind]
    -- what was read stays a beginning of the chain until the insertion
    have hm := fun (db₂ : AuditDb ι) (hr : db'.events <+: db₂.events) => epochEvents_prefix hr epochId
    generalize db'.epochEvents epochId = m at hm
    refine Ok_op (fun _ _ _ _ => trivial) (fun e db₂ hr _ => hr.2.trans h) fun db₂ r db₃ hr hi₂ _ hx => ?_
    have hw : Written N envs (appendRecord N (getSigningSecret env) epochId call.eventId eventTimestamp call.dto
        (m.getLast?.bind fun e => e.hash.toOption)) := ⟨env, _, _, _, _, _, henv, rfl⟩
    rcases insert_cases hx with ⟨rfl, _, hfree, rfl⟩ | ⟨hne, rfl⟩
    · refine ⟨hi₂.insert hN (hm db₂ hr.1) hw rfl (prevKey_appendRecord ..) hfree p, ?_⟩
      refine ⟨⟨epochId, eventTimestamp, _, ht, rfl⟩, ?_⟩
      rw [Has, contributed_insert, if_pos rfl, hr.2, h]
    · refine ⟨hi₂, ?_⟩
      cases r with
      | saved => exact absurd rfl hne
      | duplicatePrevHash => exact appendAttempts_ok henv epochId ht attempts db₃ (hr.2.trans h)
      | invalid => exact hr.2.trans h

theorem appendEvent_ok {env : Env} {l : List AuditEvent} {db : AuditDb ι} (hi : ChainInv N envs db) (h : Has p l db)
    (henv : envs env) (call : CreateCall) :
    Ok (chainSpec N envs) p (fun event db => call.Recorded N env event ∧ Has p (l ++ [event]) db) (fun _ => Has p l)
      (appendEvent N env call) db := by
  have hread : Ok (chainSpec N envs) p (fun _ => Has p l) (fun _ => Has p l) (getActiveEpochId call.epochNow) db :=
    Ok_bind (fun _ _ _ h => h) _ db hi (reads_ok (getActiveEpochRecord_uses .append call.epochNow) h)
  refine Ok_bind (fun epochId db' _ h => ?_) _ db hi hread
  cases ht : call.eventTimestamp N with
  | none => exact h
  | some eventTimestamp => exact appendAttempts_ok hN henv epochId ht _ db' h

theorem sealChain_ok {env : Env} (henv : envs env) (call : SealCall) {db : AuditDb ι} (hi : ChainInv N envs db)
    (h : Has p [] db) : Ok (chainSpec N envs) p (fun result => Has p [result.event]) (fun _ => Has p [])
      (sealCompromisedChainAndStartEpoch N env call) db := by
  refine Ok_bind (fun _ db hi h => ?_) _ db hi (reads_ok (getActiveEpochRecord_uses .sealChain call.epochNow) h)
  refine Ok_bind (fun verification db hi h => ?_) _ db hi
    (reads_ok (verifyChain_uses N env .sealChain 5000 call.epochNow) h)
  by_cases hv : verification.chain.valid = true
  · rw [if_pos hv]; exact h
  · rw [if_neg hv]
    refine ok_quiet h (fun _ _ h => h) fun r _ db' _ _ h => ?_
    cases r with
    | duplicateKey => exact h
    | saved =>
      refine ok_quiet h (fun _ _ h => h) fun r _ db' _ _ h => ?_
      refine ok_quiet h (fun _ _ h => h) fun r _ db' hi _ h => ?_
      cases r with
      | duplicateKey => exact h
      | saved =>
        have happ := appendEvent_ok hN hi h henv (call.createCall verification.chain verification.epochId)
        simp only [List.nil_append] at happ
        exact Ok_bind (fun event _ _ h => h.2) _ db' hi happ

end

/-! ## Every interleaving -/

def emptyDb (ι : Type) : AuditDb ι := ⟨[], [], []⟩

/-- The instances at the start: nothing stored, each process before its first operation. -/
def start (N : Node) (tasks : ι → Task) : Config ι (AuditDb ι) AuditOp AuditOp.Res AuditError Outcome :=
  ⟨emptyDb ι, fun p => (tasks p).prog N⟩

def Task.env : Task → Env
  | create env _ => env
  | verify env _ _ => env
  | sealChain env _ => env

def Outcome.events : Outcome → List AuditEvent
  | created event => [event]
  | verified _ => []
  | sealed result => [result.event]

def Task.yields (N : Node) : Task → Outcome → Prop
  | create env call, .created event => call.Recorded N env event
  | verify _ _ _, .verified _ => True
  | sealChain _ _, .sealed _ => True
  | _, _ => False

theorem task_ok (hN : Digest.CollisionFree N.sha256) (t : Task) (henv : envs t.env) {db : AuditDb ι}
    (hi : ChainInv N envs db) (h : Has p [] db) :
    Ok (chainSpec N envs) p (fun o db => t.yields N o ∧ Has p o.events db) (fun _ => Has p []) (t.prog N) db := by
  cases t with
  | create env call =>
    refine Ok_bind (fun event db' _ h => ?_) _ db hi (appendEvent_ok hN hi h henv call)
    exact h
  | verify env limit now =>
    refine Ok_bind (fun result db' _ h => ?_) _ db hi (reads_ok (verifyChain_uses N env .verify limit now) h)
    exact ⟨trivial, h⟩
  | sealChain env call =>
    refine Ok_bind (fun result db' _ h => ?_) _ db hi (sealChain_ok hN henv call hi h)
    exact ⟨trivial, h⟩

omit [DecidableEq ι] in
theorem chainInv_empty : ChainInv N envs (emptyDb ι) where
  written _ he := absurd he List.not_mem_nil
  linear _ := Linked.chain_nil

theorem reach_chain (envs : Env → Prop) (hN : Digest.CollisionFree N.sha256) {tasks : ι → Task}
    (henv : ∀ p, envs (tasks p).env) {c : Config ι (AuditDb ι) AuditOp AuditOp.Res AuditError Outcome}
    (hr : Reach AuditExec (fun _ _ _ => True) (start N tasks) c) : ChainInv N envs c.store ∧
      ∀ p, Ok (chainSpec N envs) p (fun o db => (tasks p).yields N o ∧ Has p o.events db)
        (fun _ => Has p []) (c.procs p) c.store := by
  refine Reach.ok (S := chainSpec N envs) (Q := fun p o db => (tasks p).yields N o ∧ Has p o.events db)
    (E := fun p _ => Has p []) hr (chainSpec_closed N envs) chainInv_empty
    (fun p => task_ok hN (tasks p) (henv p) chainInv_empty rfl)
    (fun _ _ _ _ => trivial) (fun p o db db' h hr _ => ⟨h.1, hr.2.trans h.2⟩)
    (fun p e db db' h hr _ => hr.2.trans h) ?_
  intro c p q o k r db' _ _ hx _ _ hpq
  rcases exec_events hx with he | ⟨record, _, _, _, rfl⟩
  · exact ⟨⟨[], by rw [List.append_nil, he]⟩, contributed_of_events he p⟩
  · refine ⟨List.prefix_append .., ?_⟩
    rw [contributed_insert, if_neg (Ne.symm hpq), List.append_nil]

/-- A fork-free chain, read from the records alone: one genesis, every other
record names one other record, no two name the same. -/
structure Linear (events : List AuditEvent) : Prop where
  genesis : events ≠ [] → ∃ g ∈ events, prevKey g = none ∧ ∀ e ∈ events, prevKey e = none → e = g
  named : ∀ e ∈ events, ∀ k, prevKey e = some k →
    ∃ a ∈ events, a ≠ e ∧ hashKey a = some k ∧ ∀ b ∈ events, hashKey b = some k → b = a
  unshared : (events.map prevKey).Nodup

theorem linear_of_chain {l : List AuditEvent} (hl : AuditChain l) : Linear l where
  genesis hne := by
    cases l with
    | nil => exact absurd rfl hne
    | cons g l =>
      refine ⟨g, List.mem_cons_self .., hl.root g rfl, fun e he hp => ?_⟩
      obtain ⟨i, hi⟩ := List.mem_iff_getElem?.mp he
      rw [hl.index_zero hi hp] at hi
      exact (Option.some.inj hi).symm
  named e he k hk := by
    obtain ⟨i, hi⟩ := List.mem_iff_getElem?.mp he
    cases i with
    | zero => rw [hl.root e hi] at hk; cases hk
    | succ i =>
      obtain ⟨a, k', ha, hka, hpk⟩ := hl.step i e hi
      rw [hk] at hpk
      obtain rfl := Option.some.inj hpk
      refine ⟨a, List.mem_of_getElem? ha, ?_, hka, fun b hb hkb => ?_⟩
      · rintro rfl
        exact absurd (hl.pred_inj ha hi rfl) (by omega)
      · obtain ⟨j, hj⟩ := List.mem_iff_getElem?.mp hb
        rw [hl.keys j i b a k hj ha hkb hka, ha] at hj
        exact (Option.some.inj hj).symm
  unshared := hl.nodup

/-- In every reachable state each epoch is one linear chain, in the order of
insertion; a create that returned has inserted the event it returned and
nothing else, one that threw has inserted nothing. -/
theorem reach_linear (hN : Digest.CollisionFree N.sha256) {tasks : ι → Task}
    {c : Config ι (AuditDb ι) AuditOp AuditOp.Res AuditError Outcome}
    (hr : Reach AuditExec (fun _ _ _ => True) (start N tasks) c) :
    (∀ epochId, AuditChain (c.store.epochEvents epochId) ∧ Linear (c.store.epochEvents epochId)) ∧
      ∀ p env call, tasks p = .create env call →
        (∀ o, c.procs p = .ret o → ∃ event, o = .created event ∧ call.Recorded N env event ∧
          c.store.contributed p = [event]) ∧
        ∀ e, c.procs p = .throw e → c.store.contributed p = [] := by
  obtain ⟨hi, hok⟩ := reach_chain (fun _ => True) hN (fun _ => trivial) hr
  refine ⟨fun epochId => ⟨hi.linear epochId, linear_of_chain (hi.linear epochId)⟩, fun p env call ht =>
    ⟨fun o ho => ?_, fun e he => ?_⟩⟩
  · have h := hok p
    rw [ho, ht] at h
    cases o with
    | created event => exact ⟨event, rfl, h.1, h.2⟩
    | verified _ => exact absurd h.1 id
    | sealed _ => exact absurd h.1 id
  · have h := hok p
    rw [he] at h
    exact h

end

/-! Two writers that read the same empty tail: the second is refused once and links to the first. -/

def sampleCall (eventId : String) : CreateCall where
  dto := { downloadDto with eventId := some eventId }
  uuid := ""
  now := sampleTime
  epochNow := sampleTime

def sampleTasks (p : Bool) : Task := .create noEnv (sampleCall (if p then "e-1" else "e-2"))

theorem reach_linear_sample :
    let c := schedule auditRun (start sampleNode sampleTasks) [true, true, false, true, false,
      true, false, false, false]
    (∀ epochId, AuditChain (c.store.epochEvents epochId) ∧ Linear (c.store.epochEvents epochId)) ∧
      ∀ p env call, sampleTasks p = .create env call →
        (∀ o, c.procs p = .ret o → ∃ event, o = .created event ∧ call.Recorded sampleNode env event ∧
          c.store.contributed p = [event]) ∧
        ∀ e, c.procs p = .throw e → c.store.contributed p = [] :=
  reach_linear sampleNode_collisionFree
    (Reach.schedule auditRun_exec _ _ .refl (meets_true _ _))

end DocVault
