import DocVault.AppendSound
import Mathlib.Data.List.Induction

/-!
# Append, then verify

Requests one after another on one instance. What `appendEvent` writes,
`verifyChain` accepts record by record; the chain is valid exactly as long as
no two successful requests carried one `eventId`, which the store does not
keep unique.
-/

namespace DocVault

open Interleave

/-! ## The verifier accepts what the writer wrote -/

section
variable {N : Node} {env : Env}

def lastHash (last : Nullable String) (l : List AuditEvent) : Nullable String := (l.getLast?.map (·.hash)).getD last

theorem verified_concat {l : List AuditEvent} {b : AuditEvent} : ∀ {last : Nullable String},
    Verified N env last l → b.hash = .val (expectedHash N (lastHash last l) b) → b.prevHash = lastHash last l →
      checkSignature N env b ≠ .mismatch → Verified N env last (l ++ [b]) := by
  induction l with
  | nil => intro last _ hh hp hs; exact ⟨hh, hp, hs, trivial⟩
  | cons e l ih =>
    intro last hv hh hp hs
    have hlast : lastHash last (e :: l) = lastHash e.hash l := by
      rw [lastHash, lastHash, List.getLast?_cons]
      cases l.getLast? <;> rfl
    rw [hlast] at hh hp
    exact ⟨hv.1, hv.2.1, hv.2.2.1, ih hv.2.2.2 hh hp hs⟩

theorem Written.prevHash {envs : Env → Prop} {event : AuditEvent} (h : Written N envs event) :
    event.prevHash = match prevKey event with | some k => .val k | none => .null := by
  obtain ⟨_, _, _, _, _, prevHash, _, rfl⟩ := h
  rw [prevKey_appendRecord]
  rfl

theorem Written.checkSignature {event : AuditEvent} (h : Written N (· = env) event) :
    DocVault.checkSignature N env event ≠ .mismatch := by
  obtain ⟨env', epochId, eventId, eventTimestamp, dto, prevHash, henv, rfl⟩ := h
  rw [show env' = env from henv]
  unfold DocVault.checkSignature
  simp only [appendRecord, signatureFields]
  cases hs : getSigningSecret env with
  | none => simp
  | some key =>
    by_cases he : signHash N
      (computeHash N prevHash (buildCanonicalPayload (appendFields eventId eventTimestamp dto)))
        key.secret = ""
    · simp [he]
    · simp [he, getVerifySecret_of_signing hs, Nullable.show]

theorem verified_of_written {l : List AuditEvent} (hl : AuditChain l) (hw : ∀ e ∈ l, Written N (· = env) e) :
    Verified N env .null l := by
  induction l using List.reverseRecOn with
  | nil => trivial
  | append_singleton l b ih =>
    have hb := hw b (List.mem_append_right l (List.mem_singleton.mpr rfl))
    have hv := ih (hl.of_prefix (List.prefix_append l [b])) fun e he => hw e (List.mem_append_left _ he)
    have hidx : (l ++ [b])[l.length]? = some b := by simp
    have hprev : b.prevHash = lastHash .null l ∧ (lastHash .null l).toOption = prevKey b := by
      rw [hb.prevHash]
      cases hlen : l.length with
      | zero =>
        rw [List.length_eq_zero_iff.mp hlen] at hidx ⊢
        rw [hl.root b (by simp [List.length_eq_zero_iff.mp hlen])]
        exact ⟨rfl, rfl⟩
      | succ i =>
        obtain ⟨a, k, ha, hka, hpk⟩ := hl.step i b (hlen ▸ hidx)
        rw [List.getElem?_append_left (by omega)] at ha
        have hlast : l.getLast? = some a := by rw [List.getLast?_eq_getElem?, hlen]; exact ha
        have hah : a.hash = .val k := by
          cases hh : a.hash <;> simp [hashKey, hh] at hka
          rw [hka]
        rw [lastHash, hlast, hpk]
        exact ⟨hah.symm, by simp [hah]⟩
    refine verified_concat hv ?_ hprev.1 hb.checkSignature
    rw [hb.hash, expectedHash, hprev.2]

theorem Written.identity {envs : Env → Prop} {event : AuditEvent} (h : Written N envs event) :
    event.eventId = some (eventIdentity event) := by
  obtain ⟨_, _, _, _, _, _, _, rfl⟩ := h
  rfl

end

/-! ## What verifyChain reads -/

section
variable {ι : Type} {N : Node} {p : ι}

def frozenSpec (events : List (ι × AuditEvent)) : Spec ι (AuditDb ι) AuditOp AuditOp.Res where
  exec := AuditExec
  pre _ _ _ := True
  inv db := db.events = events
  rely _ _ db db' := db' = db

theorem frozenSpec_closed (events : List (ι × AuditEvent)) : (frozenSpec events).Closed where
  refl _ _ _ := rfl
  trans _ _ _ _ _ h h' := h'.trans h

theorem ok_frozen {α : Type} {Q : α → AuditDb ι → Prop} {events : List (ι × AuditEvent)} {o : AuditOp}
    {k : o.Res → AuditM α} {db : AuditDb ι}
    (hk : ∀ r db', db.events = events → AuditExec p db o r db' →
      Ok (frozenSpec events) p Q (fun _ _ => True) (k r) db')
    (ho : o.inserts = false := by rfl) : Ok (frozenSpec events) p Q (fun _ _ => True) (Prog.op o >>= k) db := by
  refine Ok_op (fun _ _ _ _ => trivial) (fun _ _ _ _ => trivial) fun db₁ r db' hr hi _ hx => ?_
  rw [show db₁ = db from hr] at hi hx
  rcases exec_events hx with he | ⟨_, rfl, _⟩
  · exact ⟨he.trans hi, hk r db' hi hx⟩
  · cases ho

theorem verifyChain_reads {env : Env} {reader : EpochReader} {limit : Nat} {now : JsDate} {db db' : AuditDb ι}
    {result : ChainVerification} (hx : Eval AuditExec p (verifyChain N env reader limit now) db (.ok result) db') :
    ∃ records : List AuditEvent, records.Perm (db.epochEvents result.epochId) ∧
      result.chain = verifyEvents N env limit records := by
  have hread : Ok (frozenSpec db.events) p (fun _ _ => True) (fun _ _ => True)
    (getActiveEpochRecord reader now) db := by
    refine Ok_uses (fun _ _ _ _ _ _ _ => trivial) (fun _ _ _ _ _ _ => trivial) ?_ _ db
      (getActiveEpochRecord_uses reader now) trivial
    intro o db₁ r db₂ ho hi _ _ hx
    rcases exec_events hx with he | ⟨_, rfl, _⟩
    · exact ⟨he.trans hi, trivial⟩
    · exact absurd ho id
  have hok : Ok (frozenSpec db.events) p (fun result _ => ∃ records : List AuditEvent,
      records.Perm (db.epochEvents result.epochId) ∧ result.chain = verifyEvents N env limit records)
        (fun _ _ => True)
      (verifyChain N env reader limit now) db := by
    refine Ok_bind (fun activeEpoch db₁ hi _ => ?_) _ db rfl hread
    refine ok_frozen fun records _ _ hx => ok_frozen fun _ _ _ _ => ⟨records, ?_, rfl⟩
    have hp := hx.1
    unfold AuditDb.epochEvents at hp ⊢
    rw [← show db₁.events = db.events from hi]
    exact hp
  exact (Ok.eval (frozenSpec_closed db.events) (fun _ _ => trivial) hx rfl hok).2.1 result rfl

theorem verifyChain_result (N : Node) (env : Env) (reader : EpochReader) (limit : Nat) (now : JsDate) (p : ι)
    (db : AuditDb ι) :
    ∃ result db', (verifyChain N env reader limit now).result auditRun p db = (.ok result, db') := by
  cases ha : db.activeEpoch with
  | some activeEpoch =>
    simp [verifyChain, getActiveEpochRecord, Prog.result, auditRun, ha]
  | none =>
    cases hc : db.create (initialEpoch now) with
    | mk r db₁ =>
      cases r with
      | saved => simp [verifyChain, getActiveEpochRecord, Prog.result, auditRun, ha, hc]
      | duplicateKey => simp [verifyChain, getActiveEpochRecord, Prog.result, auditRun, ha, hc]

end

/-! ## Only the default epoch -/

section
variable {ι : Type} {N : Node} {p : ι} {α : Type} {Q : α → AuditDb ι → Prop}

def DefaultOnly (db : AuditDb ι) : Prop :=
  (∀ e ∈ db.epochs, e.epochId = DEFAULT_EPOCH_ID) ∧ ∀ e ∈ db.events, e.2.epochId = some DEFAULT_EPOCH_ID

def aloneSpec (ι : Type) : Spec ι (AuditDb ι) AuditOp AuditOp.Res where
  exec := AuditExec
  pre _ _ _ := True
  inv := DefaultOnly
  rely _ _ db db' := db' = db

theorem aloneSpec_closed : (aloneSpec ι).Closed where
  refl _ _ _ := rfl
  trans _ _ _ _ _ h h' := h'.trans h

theorem ok_alone {o : AuditOp} {k : o.Res → AuditM α} {db : AuditDb ι}
    (hk : ∀ r db', DefaultOnly db → AuditExec p db o r db' →
      DefaultOnly db' ∧ Ok (aloneSpec ι) p Q (fun _ _ => True) (k r) db') :
    Ok (aloneSpec ι) p Q (fun _ _ => True) (Prog.op o >>= k) db := by
  refine Ok_op (fun _ _ _ _ => trivial) (fun _ _ _ _ => trivial) fun db₁ r db' hr hi _ hx => ?_
  rw [show db₁ = db from hr] at hi hx
  exact hk r db' hi hx

theorem getActiveEpochRecord_alone (reader : EpochReader) (now : JsDate) {db : AuditDb ι} :
    Ok (aloneSpec ι) p (fun activeEpoch _ => epochIdOf activeEpoch = DEFAULT_EPOCH_ID) (fun _ _ => True)
      (getActiveEpochRecord reader now) db := by
  have hfound : ∀ (r : Option AuditChainEpoch) (db : AuditDb ι), DefaultOnly db → FindsActive db r →
      epochIdOf r = DEFAULT_EPOCH_ID := by
    intro r db hd hf
    cases r with
    | none => rfl
    | some activeEpoch => exact hd.1 activeEpoch hf.1
  refine ok_alone fun r db' hd hx => ?_
  obtain ⟨hf, rfl⟩ := hx
  refine ⟨hd, ?_⟩
  cases r with
  | some activeEpoch => exact hfound (some activeEpoch) _ hd hf
  | none =>
    refine ok_alone fun r db₁ hd hx => ?_
    rcases create_cases hx with ⟨rfl, _, rfl⟩ | ⟨rfl, _, rfl⟩
    · refine ⟨⟨fun e he => ?_, hd.2⟩, rfl⟩
      rcases List.mem_append.mp he with h | h
      · exact hd.1 e h
      · rw [List.mem_singleton.mp h]; rfl
    · refine ⟨hd, ok_alone (k := .ret) fun r db₂ hd hx => ?_⟩
      obtain ⟨hf, rfl⟩ := hx
      exact ⟨hd, hfound r _ hd hf⟩

theorem appendEvent_alone (env : Env) (call : CreateCall) {db : AuditDb ι} (hd : DefaultOnly db) :
    Ok (aloneSpec ι) p (fun _ _ => True) (fun _ _ => True) (appendEvent N env call) db := by
  refine Ok_bind (Q := fun epochId _ => epochId = DEFAULT_EPOCH_ID) (fun epochId db' _ he => ?_) _ db hd
    (Ok_bind (fun activeEpoch _ _ h => h) _ db hd (getActiveEpochRecord_alone .append call.epochNow))
  subst he
  cases call.eventTimestamp N with
  | none => trivial
  | some eventTimestamp =>
    refine Ok_uses (fun _ _ _ _ _ _ _ => trivial) (fun _ _ _ _ _ _ => trivial) ?_ _ db'
      (appendAttempts_uses N _ DEFAULT_EPOCH_ID call.eventId eventTimestamp call.dto _) trivial
    intro o db r db'' ho hd _ _ hx
    refine ⟨?_, trivial⟩
    rcases exec_events hx with he | ⟨record, rfl, _, _, rfl⟩
    · exact ⟨(appends_epochs ho hx).symm ▸ hd.1, he.symm ▸ hd.2⟩
    · refine ⟨hd.1, fun e he => ?_⟩
      rcases List.mem_append.mp he with h | h
      · exact hd.2 e h
      · rw [List.mem_singleton.mp h]; exact ho

theorem verifyChain_alone (env : Env) (reader : EpochReader) (limit : Nat) (now : JsDate) {db : AuditDb ι}
    (hd : DefaultOnly db) : Ok (aloneSpec ι) p (fun result _ => result.epochId = DEFAULT_EPOCH_ID) (fun _ _ => True)
      (verifyChain N env reader limit now) db := by
  refine Ok_bind (fun activeEpoch db' _ h => ?_) _ db hd (getActiveEpochRecord_alone reader now)
  refine ok_alone fun events db₁ hd hx => ⟨by rw [hx.2]; exact hd, ?_⟩
  exact ok_alone fun _ db₂ hd hx => ⟨by rw [hx.2]; exact hd, h⟩

end

/-! ## A sequence of requests -/

/-- Requests that the request type accepts, one after another, each with what
it was answered, and the store they leave. -/
inductive CreateRun (N : Node) (env : Env) (isISO8601 : String → Bool) :
    List (CreateCall × Except AuditError AuditEvent) → AuditDb Unit → Prop
  | nil : CreateRun N env isISO8601 [] (emptyDb Unit)
  | create {done : List (CreateCall × Except AuditError AuditEvent)} {db db' : AuditDb Unit} {call : CreateCall}
      {out : Except AuditError AuditEvent} : CreateRun N env isISO8601 done db → call.dto.accepts isISO8601 = true →
      Eval AuditExec () (appendEvent N env call) db out db' → CreateRun N env isISO8601 (done ++ [(call, out)]) db'

def succeeded (d : CreateCall × Except AuditError AuditEvent) : Option (CreateCall × AuditEvent) :=
  match d.2 with
  | .ok event => some (d.1, event)
  | .error _ => none

def successes (done : List (CreateCall × Except AuditError AuditEvent)) : List (CreateCall × AuditEvent) :=
  done.filterMap succeeded

/-- What the store holds after the requests `done`. -/
structure Holds (N : Node) (env : Env) (done : List (CreateCall × Except AuditError AuditEvent))
    (db : AuditDb Unit) : Prop where
  chain : ChainInv N (· = env) db
  default : DefaultOnly db
  events : db.contributed () = (successes done).map Prod.snd
  recorded : ∀ d ∈ successes done, d.1.Recorded N env d.2

/-- `verifyChain` has an answer, and every answer is that all of `count` events are valid. -/
def Verifies (N : Node) (env : Env) (limit : Nat) (now : JsDate) (db : AuditDb Unit) (count : Nat) : Prop :=
  (∃ result db', Eval AuditExec () (verifyChain N env .verify limit now) db (.ok result) db') ∧
    ∀ result db', Eval AuditExec () (verifyChain N env .verify limit now) db (.ok result) db' →
      result.chain.valid = true ∧ result.chain.checked = count

section
variable {N : Node} {env : Env} {isISO8601 : String → Bool}
  {done : List (CreateCall × Except AuditError AuditEvent)} {db : AuditDb Unit}

theorem CreateRun.holds (hN : Digest.CollisionFree N.sha256) (hr : CreateRun N env isISO8601 done db) :
    Holds N env done db := by
  induction hr with
  | nil => exact ⟨chainInv_empty,
      ⟨fun _ he => absurd he List.not_mem_nil, fun _ he => absurd he List.not_mem_nil⟩, rfl,
      fun _ hd => absurd hd List.not_mem_nil⟩
  | @create done db db' call out _ _ hx ih =>
    obtain ⟨hc, ho, he⟩ := Ok.eval (chainSpec_closed N (· = env)) (fun _ _ => trivial) hx ih.chain
      (appendEvent_ok hN ih.chain ih.events rfl call)
    have hd := (Ok.eval aloneSpec_closed (fun _ _ => trivial) hx ih.default
      (appendEvent_alone env call ih.default)).1
    cases out with
    | ok event =>
      have hs : successes (done ++ [(call, .ok event)]) = successes done ++ [(call, event)] := by
        simp [successes, succeeded]
      obtain ⟨hrec, hcon⟩ := ho event rfl
      refine ⟨hc, hd, by rw [hs, List.map_append]; exact hcon, fun d hd => ?_⟩
      rw [hs] at hd
      rcases List.mem_append.mp hd with h | h
      · exact ih.recorded d h
      · rw [List.mem_singleton.mp h]; exact hrec
    | error e =>
      have hs : successes (done ++ [(call, .error e)]) = successes done := by simp [successes, succeeded]
      exact ⟨hc, hd, by rw [hs]; exact he e rfl, by rw [hs]; exact ih.recorded⟩

theorem Holds.epochEvents (h : Holds N env done db) :
    db.epochEvents DEFAULT_EPOCH_ID = (successes done).map Prod.snd := by
  have hall : db.epochEvents DEFAULT_EPOCH_ID = db.events.map Prod.snd := by
    refine List.filter_eq_self.mpr fun e he => ?_
    obtain ⟨x, hx, rfl⟩ := List.mem_map.mp he
    exact ((h.chain.written x hx).inEpoch_iff DEFAULT_EPOCH_ID).mpr (h.default.2 x hx)
  have hcon : db.contributed () = db.events.map Prod.snd := by
    unfold AuditDb.contributed
    rw [← List.filterMap_eq_map]
    exact List.filterMap_congr fun _ _ => rfl
  rw [hall, ← hcon, h.events]

theorem Holds.identities (h : Holds N env done db) {events : List AuditEvent}
    (hp : events.Perm (db.epochEvents DEFAULT_EPOCH_ID)) :
    (events.map eventIdentity).Nodup ↔ ((successes done).map fun d => d.1.eventId).Nodup := by
  rw [h.epochEvents] at hp
  rw [(hp.map eventIdentity).nodup_iff, List.map_map]
  refine iff_of_eq (congrArg List.Nodup (List.map_congr_left fun d hd => ?_))
  obtain ⟨_, _, _, _, he⟩ := h.recorded d hd
  rw [Function.comp_apply, he]
  rfl

theorem Holds.valid_iff (h : Holds N env done db) {limit : Nat} (hl : (successes done).length ≤ limit)
    {events : List AuditEvent} (hp : events.Perm (db.epochEvents DEFAULT_EPOCH_ID)) :
    (verifyEvents N env limit events).valid = true ↔ ((successes done).map fun d => d.1.eventId).Nodup := by
  have hlen : events.length ≤ limit := by rw [hp.length_eq, h.epochEvents, List.length_map]; exact hl
  rw [verifyEvents_valid_iff hlen, h.identities hp]
  refine and_iff_left ⟨_, hp.symm, h.chain.linear DEFAULT_EPOCH_ID, ?_⟩
  exact verified_of_written (h.chain.linear DEFAULT_EPOCH_ID) fun e he => (h.chain.of_mem he).1

theorem Holds.verifyChain_reads (h : Holds N env done db) {limit : Nat} {now : JsDate} {result : ChainVerification}
    {db' : AuditDb Unit} (hx : Eval AuditExec () (verifyChain N env .verify limit now) db (.ok result) db') :
    ∃ events : List AuditEvent, events.Perm (db.epochEvents DEFAULT_EPOCH_ID) ∧
      result.chain = verifyEvents N env limit events := by
  obtain ⟨events, hp, hc⟩ := DocVault.verifyChain_reads hx
  have he := (Ok.eval aloneSpec_closed (fun _ _ => trivial) hx h.default
    (verifyChain_alone env .verify limit now h.default)).2.1 result rfl
  exact ⟨events, he ▸ hp, hc⟩

theorem verifyChain_answers (N : Node) (env : Env) (limit : Nat) (now : JsDate) (db : AuditDb Unit) :
    ∃ result db', Eval AuditExec () (verifyChain N env .verify limit now) db (.ok result) db' := by
  obtain ⟨result, db', hr⟩ := verifyChain_result N env .verify limit now () db
  have hx := eval_result auditRun () auditRun_exec (verifyChain N env .verify limit now) db
  rw [hr] at hx
  exact ⟨result, db', hx⟩

theorem verify_of_fresh (h : Holds N env done db) {limit : Nat}
    (hl : (successes done).length ≤ limit) (now : JsDate)
    (hn : ((successes done).map fun d => d.1.eventId).Nodup) :
    Verifies N env limit now db (successes done).length := by
  refine ⟨verifyChain_answers N env limit now db, fun result db' hx => ?_⟩
  obtain ⟨events, hp, hc⟩ := h.verifyChain_reads hx
  have hv := (h.valid_iff hl hp).mpr hn
  have hlen : events.length = (successes done).length := by rw [hp.length_eq, h.epochEvents, List.length_map]
  rw [hc, verifyEvents_checked (by omega) hv, hlen]
  exact ⟨hv, rfl⟩

theorem fresh_of_verify (h : Holds N env done db) {limit : Nat}
    (hl : (successes done).length ≤ limit) {now : JsDate}
    (hv : Verifies N env limit now db (successes done).length) :
    ((successes done).map fun d => d.1.eventId).Nodup := by
  obtain ⟨⟨result, db', hx⟩, hall⟩ := hv
  obtain ⟨events, hp, hc⟩ := h.verifyChain_reads hx
  exact (h.valid_iff hl hp).mp (hc ▸ (hall result db' hx).1)

/-- After any sequence of requests the chain verifies, with every successful
request counted, exactly when the successful requests had distinct ids. -/
theorem append_verifies_iff (hN : Digest.CollisionFree N.sha256)
    (hr : CreateRun N env isISO8601 done db) {limit : Nat} (hl : (successes done).length ≤ limit) (now : JsDate) :
    Verifies N env limit now db (successes done).length ↔ ((successes done).map fun d => d.1.eventId).Nodup := by
  have h := hr.holds hN
  exact ⟨fresh_of_verify h hl, verify_of_fresh h hl now⟩

end

/-! A client that repeats a request with its `eventId`, as against one that does not. -/

def sampleRequest (eventId : String) (db : AuditDb Unit) : Except AuditError AuditEvent × AuditDb Unit :=
  (appendEvent sampleNode noEnv (sampleCall eventId)).result auditRun () db

def sampleOne : Except AuditError AuditEvent × AuditDb Unit := sampleRequest "e-1" (emptyDb Unit)

def sampleTwo : Except AuditError AuditEvent × AuditDb Unit := sampleRequest "e-2" sampleOne.2

def sampleDone : List (CreateCall × Except AuditError AuditEvent) :=
  [(sampleCall "e-1", sampleOne.1), (sampleCall "e-2", sampleTwo.1)]

theorem sampleDone_run : CreateRun sampleNode noEnv (fun _ => false) sampleDone sampleTwo.2 :=
  .create (.create .nil (by decide) (eval_result auditRun () auditRun_exec _ _)) (by decide)
    (eval_result auditRun () auditRun_exec _ _)

theorem append_verifies_iff_sample :
    Verifies sampleNode noEnv 2 sampleTime sampleTwo.2 (successes sampleDone).length ↔
      ((successes sampleDone).map fun d => d.1.eventId).Nodup :=
  append_verifies_iff sampleNode_collisionFree sampleDone_run
    (List.length_filterMap_le succeeded sampleDone) sampleTime

def repeatedDigests : List (String × String) :=
  [("|" ++ buildCanonicalPayload (appendFields "e-1" sampleTime downloadDto), sampleHash₁),
    (sampleHash₁ ++ "|" ++ buildCanonicalPayload (appendFields "e-1" sampleTime downloadDto),
      "09c8670c2ba36106681c0ff522aa10b43a75258ef36780832cc5f89ae42fcc25")]

theorem repeatedDigests_valid : Digest.Valid repeatedDigests :=
  have hsecond := Digest.valid_cons rfl (by decide +kernel) List.not_mem_nil Digest.valid_nil
  Digest.valid_cons rfl (by decide +kernel) (by simp [sampleHash₁]) hsecond

def repeatedNode : Node := { sampleNode with sha256 := Digest.ofTable repeatedDigests }

def repeatedRequest (db : AuditDb Unit) : Except AuditError AuditEvent × AuditDb Unit :=
  (appendEvent repeatedNode noEnv (sampleCall "e-1")).result auditRun () db

def repeatedDone : List (CreateCall × Except AuditError AuditEvent) :=
  [(sampleCall "e-1", (repeatedRequest (emptyDb Unit)).1),
    (sampleCall "e-1", (repeatedRequest (repeatedRequest (emptyDb Unit)).2).1)]

theorem append_verifies_fails :
    ¬ ∀ (N : Node) (env : Env) (isISO8601 : String → Bool) (done : List (CreateCall × Except AuditError AuditEvent))
      (db : AuditDb Unit) (limit : Nat) (now : JsDate),
      Digest.CollisionFree N.sha256 → CreateRun N env isISO8601 done db → (successes done).length ≤ limit →
      Verifies N env limit now db (successes done).length := by
  intro h
  have hN : Digest.CollisionFree repeatedNode.sha256 :=
    Digest.ofTable_collisionFree repeatedDigests repeatedDigests_valid
  have hr : CreateRun repeatedNode noEnv (fun _ => false) repeatedDone
      (repeatedRequest (repeatedRequest (emptyDb Unit)).2).2 :=
    .create (.create .nil (by decide) (eval_result auditRun () auditRun_exec _ _)) (by decide)
      (eval_result auditRun () auditRun_exec _ _)
  have hl : (successes repeatedDone).length ≤ 2 := List.length_filterMap_le succeeded repeatedDone
  have hn := fresh_of_verify (hr.holds hN) hl (h _ _ _ _ _ 2 sampleTime hN hr hl)
  revert hn
  decide +kernel

end DocVault
