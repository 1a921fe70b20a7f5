import DocVault.AuditChain
import DocVault.Interleave

/-!
# The audit service over its store

The three collections of `audit-service`, the operations the service executes
on them one at a time, and `appendEvent`, `verifyChain` and
`sealCompromisedChainAndStartEpoch` as programs over these operations. Each
stored event carries the process that inserted it, which no operation reads.
-/

namespace DocVault

open Interleave

def DEFAULT_EPOCH_ID : String := "default"

def MAX_CHAIN_APPEND_ATTEMPTS : Nat := 25

inductive AuditChainEpochStatus where
  | ACTIVE
  | SEALED
  | COMPROMISED
  deriving DecidableEq

inductive AuditChainEpochGenesisReason where
  | INITIAL
  | ROTATION
  | COMPROMISE_RECOVERY
  deriving DecidableEq

structure AuditChainEpoch where
  epochId : String
  status : AuditChainEpochStatus
  startedAt : JsDate
  endedAt : Option JsDate := none
  genesisReason : AuditChainEpochGenesisReason
  previousEpochId : Option String := none
  lastTrustedHash : Option String := none
  firstBrokenIndex : Option Nat := none
  firstBrokenEventId : Option String := none
  incidentId : Option String := none
  createdBy : String
  reason : String
  deriving DecidableEq

structure AuditChainIncident where
  incidentId : String
  detectedAt : JsDate
  detectedBy : String
  affectedEpochId : String
  firstBrokenIndex : Nat
  firstBrokenEventId : Option String
  lastTrustedHash : Option String
  verifyMessage : String
  reason : String
  deriving DecidableEq

structure AuditDb (ι : Type) where
  epochs : List AuditChainEpoch
  incidents : List AuditChainIncident
  events : List (ι × AuditEvent)

/-- `epochEventFilter`: the default epoch also holds the records without an epoch. -/
def inEpoch (epochId : String) (event : AuditEvent) : Bool :=
  event.epochId = some epochId || (epochId = DEFAULT_EPOCH_ID && event.epochId.isNone)

def AuditDb.epochEvents {ι : Type} (db : AuditDb ι) (epochId : String) : List AuditEvent :=
  (db.events.map Prod.snd).filter (inEpoch epochId)

/-! ## Operations -/

-- Which function reads the active epoch: the reads are the same, the callers are not.
inductive EpochReader where
  | append
  | verify
  | sealChain
  deriving DecidableEq

inductive Projection where
  | tail
  | all
  deriving DecidableEq

structure CompromiseFields where
  endedAt : JsDate
  firstBrokenIndex : Nat
  firstBrokenEventId : Option String
  lastTrustedHash : Option String
  incidentId : String
  reason : String

def CompromiseFields.set (fields : CompromiseFields) (epoch : AuditChainEpoch) : AuditChainEpoch :=
  { epoch with
    status := .COMPROMISED
    endedAt := some fields.endedAt
    firstBrokenIndex := some fields.firstBrokenIndex
    firstBrokenEventId := fields.firstBrokenEventId.orElse fun _ => epoch.firstBrokenEventId
    lastTrustedHash := fields.lastTrustedHash.orElse fun _ => epoch.lastTrustedHash
    incidentId := some fields.incidentId
    reason := fields.reason }

inductive AuditOp where
  | findActiveEpoch (reader : EpochReader)
  | findActiveEpochAgain (reader : EpochReader)
  | createEpoch (epoch : AuditChainEpoch)
  | loadEpochEvents (epochId : String) (projection : Projection)
  | insertEvent (event : AuditEvent)
  | createIncident (incident : AuditChainIncident)
  | markCompromised (epochId : String) (fields : CompromiseFields)
  | findCompromisedEpochs

inductive CreateResult where
  | saved
  | duplicateKey
  deriving DecidableEq

inductive InsertResult where
  | saved
  | duplicatePrevHash
  | invalid
  deriving DecidableEq

abbrev AuditOp.Res : AuditOp → Type
  | findActiveEpoch _ => Option AuditChainEpoch
  | findActiveEpochAgain _ => Option AuditChainEpoch
  | createEpoch _ => CreateResult
  | loadEpochEvents _ _ => List AuditEvent
  | insertEvent _ => InsertResult
  | createIncident _ => CreateResult
  | markCompromised _ _ => Unit
  | findCompromisedEpochs => List AuditChainEpoch

def AuditOp.inserts : AuditOp → Bool
  | insertEvent _ => true
  | _ => false

section
variable {ι : Type}

/-- `findOne({ status: 'ACTIVE' }).sort({ startedAt: -1, _id: -1 })`. Object ids
are drawn by the instances, so epochs started in one millisecond come in any order. -/
def FindsActive (db : AuditDb ι) : Option AuditChainEpoch → Prop
  | some epoch => epoch ∈ db.epochs ∧ epoch.status = .ACTIVE ∧
      ∀ other ∈ db.epochs, other.status = .ACTIVE → other.startedAt.ms ≤ epoch.startedAt.ms
  | none => ∀ epoch ∈ db.epochs, epoch.status ≠ .ACTIVE

-- The unique index on `(epochId, prevHash)`, where an absent value counts as `null`.
def sameIndexKey (event other : AuditEvent) : Bool :=
  event.epochId = other.epochId && normalizePrevHash event.prevHash = normalizePrevHash other.prevHash

def AuditDb.create (db : AuditDb ι) (epoch : AuditChainEpoch) : CreateResult × AuditDb ι :=
  if db.epochs.any (·.epochId = epoch.epochId) then (.duplicateKey, db)
  else (.saved, { db with epochs := db.epochs ++ [epoch] })

def AuditDb.insert (db : AuditDb ι) (p : ι) (event : AuditEvent) : InsertResult × AuditDb ι :=
  if !event.schemaValid then (.invalid, db)
  else if db.events.any (sameIndexKey event ·.2) then (.duplicatePrevHash, db)
  else (.saved, { db with events := db.events ++ [(p, event)] })

def AuditDb.report (db : AuditDb ι) (incident : AuditChainIncident) : CreateResult × AuditDb ι :=
  if db.incidents.any (·.incidentId = incident.incidentId) then (.duplicateKey, db)
  else (.saved, { db with incidents := db.incidents ++ [incident] })

def AuditDb.mark (db : AuditDb ι) (epochId : String) (fields : CompromiseFields) : AuditDb ι :=
  { db with epochs := db.epochs.map fun epoch => if epoch.epochId = epochId then fields.set epoch else epoch }

def AuditExec : Exec ι (AuditDb ι) AuditOp AuditOp.Res := fun p db o r db' =>
  match o, r with
  | .findActiveEpoch _, r => FindsActive db r ∧ db' = db
  | .findActiveEpochAgain _, r => FindsActive db r ∧ db' = db
  | .createEpoch epoch, r => (r, db') = db.create epoch
  | .loadEpochEvents epochId _, r => r.Perm (db.epochEvents epochId) ∧ db' = db
  | .insertEvent event, r => (r, db') = db.insert p event
  | .createIncident incident, r => (r, db') = db.report incident
  | .markCompromised epochId fields, _ => db' = db.mark epochId fields
  | .findCompromisedEpochs, r => (∀ epoch ∈ r, epoch ∈ db.epochs ∧ epoch.status = .COMPROMISED) ∧ db' = db

/-! ## What an operation does -/

theorem insert_cases {db db' : AuditDb ι} {p : ι} {event : AuditEvent} {r : InsertResult}
    (h : (r, db') = db.insert p event) :
    (r = .saved ∧ event.schemaValid = true ∧ (∀ e ∈ db.events, sameIndexKey event e.2 = false) ∧
      db' = { db with events := db.events ++ [(p, event)] }) ∨
    (r ≠ .saved ∧ db' = db) := by
  unfold AuditDb.insert at h
  split at h
  · exact .inr ⟨by rw [(Prod.mk.inj h).1]; exact nofun, (Prod.mk.inj h).2⟩
  · rename_i hv
    split at h
    · exact .inr ⟨by rw [(Prod.mk.inj h).1]; exact nofun, (Prod.mk.inj h).2⟩
    · rename_i hd
      refine .inl ⟨(Prod.mk.inj h).1, by simpa using hv, fun e he => ?_, (Prod.mk.inj h).2⟩
      rw [Bool.not_eq_true, List.any_eq_false] at hd
      simpa using hd e he

theorem create_cases {db db' : AuditDb ι} {epoch : AuditChainEpoch} {r : CreateResult}
    (h : (r, db') = db.create epoch) :
    (r = .saved ∧ (∀ e ∈ db.epochs, e.epochId ≠ epoch.epochId) ∧ db' = { db with epochs := db.epochs ++ [epoch] }) ∨
    (r = .duplicateKey ∧ (∃ e ∈ db.epochs, e.epochId = epoch.epochId) ∧ db' = db) := by
  unfold AuditDb.create at h
  split at h
  · rename_i hd
    exact .inr ⟨(Prod.mk.inj h).1, by simpa using hd, (Prod.mk.inj h).2⟩
  · rename_i hd
    exact .inl ⟨(Prod.mk.inj h).1, by simpa using hd, (Prod.mk.inj h).2⟩

theorem report_cases {db db' : AuditDb ι} {incident : AuditChainIncident} {r : CreateResult}
    (h : (r, db') = db.report incident) : db'.epochs = db.epochs ∧ db'.events = db.events := by
  unfold AuditDb.report at h
  split at h
  · rw [(Prod.mk.inj h).2]; exact ⟨rfl, rfl⟩
  · rw [(Prod.mk.inj h).2]; exact ⟨rfl, rfl⟩

theorem exec_events {p : ι} {db db' : AuditDb ι} {o : AuditOp} {r : o.Res} (h : AuditExec p db o r db') :
    db'.events = db.events ∨ ∃ event, o = .insertEvent event ∧ event.schemaValid = true ∧
      (∀ e ∈ db.events, sameIndexKey event e.2 = false) ∧
      db' = { db with events := db.events ++ [(p, event)] } := by
  cases o with
  | findActiveEpoch _ => rw [h.2]; exact .inl rfl
  | findActiveEpochAgain _ => rw [h.2]; exact .inl rfl
  | createEpoch epoch => rcases create_cases h with ⟨_, _, rfl⟩ | ⟨_, _, rfl⟩ <;> exact .inl rfl
  | loadEpochEvents _ _ => rw [h.2]; exact .inl rfl
  | insertEvent event =>
    rcases insert_cases h with ⟨_, hv, hd, rfl⟩ | ⟨_, rfl⟩
    · exact .inr ⟨event, rfl, hv, hd, rfl⟩
    · exact .inl rfl
  | createIncident incident => exact .inl (report_cases h).2
  | markCompromised _ _ => rw [show db' = _ from h]; exact .inl rfl
  | findCompromisedEpochs => rw [h.2]; exact .inl rfl

theorem exec_epochs {p : ι} {db db' : AuditDb ι} {o : AuditOp} {r : o.Res} (h : AuditExec p db o r db') :
    db'.epochs = db.epochs ∨
    (∃ epoch, o = .createEpoch epoch ∧ (∀ e ∈ db.epochs, e.epochId ≠ epoch.epochId) ∧
      db' = { db with epochs := db.epochs ++ [epoch] }) ∨
    ∃ epochId fields, o = .markCompromised epochId fields ∧ db' = db.mark epochId fields := by
  cases o with
  | findActiveEpoch _ => rw [h.2]; exact .inl rfl
  | findActiveEpochAgain _ => rw [h.2]; exact .inl rfl
  | createEpoch epoch =>
    rcases create_cases h with ⟨_, hn, rfl⟩ | ⟨_, _, rfl⟩
    · exact .inr (.inl ⟨epoch, rfl, hn, rfl⟩)
    · exact .inl rfl
  | loadEpochEvents _ _ => rw [h.2]; exact .inl rfl
  | insertEvent event => rcases insert_cases h with ⟨_, _, _, rfl⟩ | ⟨_, rfl⟩ <;> exact .inl rfl
  | createIncident incident => exact .inl (report_cases h).1
  | markCompromised epochId fields => exact .inr (.inr ⟨epochId, fields, rfl, h⟩)
  | findCompromisedEpochs => rw [h.2]; exact .inl rfl

/-! ## A deterministic store -/

/-- The epoch started last; of several, the one created first. -/
def latest : List AuditChainEpoch → Option AuditChainEpoch
  | [] => none
  | epoch :: epochs =>
    match latest epochs with
    | none => some epoch
    | some other => if epoch.startedAt.ms < other.startedAt.ms then some other else some epoch

def AuditDb.activeEpoch (db : AuditDb ι) : Option AuditChainEpoch := latest (db.epochs.filter (·.status = .ACTIVE))

/-- The store that answers every read in the order of insertion. -/
def auditRun (p : ι) (db : AuditDb ι) : (o : AuditOp) → o.Res × AuditDb ι
  | .findActiveEpoch _ => (db.activeEpoch, db)
  | .findActiveEpochAgain _ => (db.activeEpoch, db)
  | .createEpoch epoch => db.create epoch
  | .loadEpochEvents epochId _ => (db.epochEvents epochId, db)
  | .insertEvent event => db.insert p event
  | .createIncident incident => db.report incident
  | .markCompromised epochId fields => ((), db.mark epochId fields)
  | .findCompromisedEpochs => (db.epochs.filter (·.status = .COMPROMISED), db)

theorem latest_none : ∀ {epochs : List AuditChainEpoch}, latest epochs = none → epochs = []
  | [], _ => rfl
  | epoch :: epochs, h => by
    unfold latest at h
    split at h
    · cases h
    · split at h <;> cases h

theorem latest_some : ∀ {epochs : List AuditChainEpoch} {epoch : AuditChainEpoch}, latest epochs = some epoch →
    epoch ∈ epochs ∧ ∀ other ∈ epochs, other.startedAt.ms ≤ epoch.startedAt.ms
  | [], _, h => by cases h
  | e :: epochs, epoch, h => by
    unfold latest at h
    split at h
    · rename_i hn
      obtain rfl := Option.some.inj h
      rw [latest_none hn]
      exact ⟨List.mem_singleton.mpr rfl, fun o ho => by rw [List.mem_singleton.mp ho]⟩
    · rename_i l hl
      obtain ⟨hm, hmax⟩ := latest_some hl
      split at h
      · rename_i hlt
        obtain rfl := Option.some.inj h
        exact ⟨List.mem_cons_of_mem _ hm, List.forall_mem_cons.mpr ⟨Int.le_of_lt hlt, hmax⟩⟩
      · rename_i hle
        obtain rfl := Option.some.inj h
        refine ⟨List.mem_cons_self, List.forall_mem_cons.mpr ⟨Int.le_refl _, fun o ho => ?_⟩⟩
        exact Int.le_trans (hmax o ho) (Int.not_lt.mp hle)

theorem activeEpoch_finds (db : AuditDb ι) : FindsActive db db.activeEpoch := by
  cases h : db.activeEpoch with
  | none =>
    have hnone := List.filter_eq_nil_iff.mp (latest_none h)
    exact fun epoch he hs => hnone epoch he (by simpa using hs)
  | some epoch =>
    obtain ⟨hm, hmax⟩ := latest_some h
    obtain ⟨hmem, hs⟩ := List.mem_filter.mp hm
    exact ⟨hmem, by simpa using hs, fun other ho hso => hmax other (List.mem_filter.mpr ⟨ho, by simpa using hso⟩)⟩

theorem auditRun_exec (p : ι) (db : AuditDb ι) (o : AuditOp) :
    AuditExec p db o (auditRun p db o).1 (auditRun p db o).2 := by
  cases o with
  | findActiveEpoch _ => exact ⟨activeEpoch_finds db, rfl⟩
  | findActiveEpochAgain _ => exact ⟨activeEpoch_finds db, rfl⟩
  | createEpoch epoch => exact rfl
  | loadEpochEvents _ _ => exact ⟨List.Perm.refl _, rfl⟩
  | insertEvent event => exact rfl
  | createIncident incident => exact rfl
  | markCompromised _ _ => exact rfl
  | findCompromisedEpochs =>
    refine ⟨fun epoch he => ?_, rfl⟩
    obtain ⟨hm, hs⟩ := List.mem_filter.mp he
    exact ⟨hm, by simpa using hs⟩

end

abbrev AuditM := Prog AuditOp AuditOp.Res AuditError

abbrev findActiveEpoch (reader : EpochReader) : AuditM (Option AuditChainEpoch) :=
  Prog.op (AuditOp.findActiveEpoch reader)

abbrev findActiveEpochAgain (reader : EpochReader) : AuditM (Option AuditChainEpoch) :=
  Prog.op (AuditOp.findActiveEpochAgain reader)

abbrev createEpoch (epoch : AuditChainEpoch) : AuditM CreateResult := Prog.op (AuditOp.createEpoch epoch)

abbrev loadEpochEvents (epochId : String) (projection : Projection) : AuditM (List AuditEvent) :=
  Prog.op (AuditOp.loadEpochEvents epochId projection)

abbrev insertEvent (event : AuditEvent) : AuditM InsertResult := Prog.op (AuditOp.insertEvent event)

abbrev createIncident (incident : AuditChainIncident) : AuditM CreateResult :=
  Prog.op (AuditOp.createIncident incident)

abbrev markCompromised (epochId : String) (fields : CompromiseFields) : AuditM Unit :=
  Prog.op (AuditOp.markCompromised epochId fields)

abbrev findCompromisedEpochs : AuditM (List AuditChainEpoch) := Prog.op AuditOp.findCompromisedEpochs

/-! ## getActiveEpochRecord -/

def initialEpoch (now : JsDate) : AuditChainEpoch where
  epochId := DEFAULT_EPOCH_ID
  status := .ACTIVE
  startedAt := now
  genesisReason := .INITIAL
  createdBy := "system"
  reason := "Initial audit chain epoch"

def getActiveEpochRecord (reader : EpochReader) (now : JsDate) : AuditM (Option AuditChainEpoch) := do
  match ← findActiveEpoch reader with
  | some activeEpoch => pure (some activeEpoch)
  | none =>
    match ← createEpoch (initialEpoch now) with
    | .saved => pure (some (initialEpoch now))
    | .duplicateKey => findActiveEpochAgain reader

def epochIdOf (activeEpoch : Option AuditChainEpoch) : String := (activeEpoch.map (·.epochId)).getD DEFAULT_EPOCH_ID

def getActiveEpochId (now : JsDate) : AuditM String := do
  let activeEpoch ← getActiveEpochRecord .append now
  pure (epochIdOf activeEpoch)

/-! ## appendEvent -/

def appendAttempts (N : Node) (signing : Option SigningKey) (epochId eventId : String) (eventTimestamp : JsDate)
    (dto : CreateAuditEventDto) : Nat → AuditM AuditEvent
  | 0 => .throw (.serviceUnavailable
      s!"Could not append audit event after {MAX_CHAIN_APPEND_ATTEMPTS} attempts due to write contention.")
  | attempts + 1 => do
    let events ← loadEpochEvents epochId .tail
    let lastEvent ← Prog.ofExcept (getCurrentChainTail epochId events)
    let record := appendRecord N signing epochId eventId eventTimestamp dto
      (lastEvent.bind fun e => e.hash.toOption)
    match ← insertEvent record with
    | .saved => pure record
    | .duplicatePrevHash => appendAttempts N signing epochId eventId eventTimestamp dto attempts
    | .invalid => .throw .validation

section
variable (N : Node)

/-- A call of `create`, with what it draws from its instance: a random UUID,
the time of the event and the time at which it would create the initial epoch. -/
structure CreateCall where
  dto : CreateAuditEventDto
  uuid : String
  now : JsDate
  epochNow : JsDate

def CreateCall.eventId (call : CreateCall) : String := call.dto.eventId.getD call.uuid

-- `dto.timestamp ? new Date(dto.timestamp) : new Date()`; `none` is an invalid date.
def CreateCall.eventTimestamp (call : CreateCall) : Option JsDate :=
  match call.dto.timestamp with
  | some timestamp => if timestamp = "" then some call.now else N.newDate timestamp
  | none => some call.now

def appendEvent (env : Env) (call : CreateCall) : AuditM AuditEvent := do
  let epochId ← getActiveEpochId call.epochNow
  match call.eventTimestamp N with
  | none => .throw .rangeError
  | some eventTimestamp =>
    appendAttempts N (getSigningSecret env) epochId call.eventId eventTimestamp call.dto MAX_CHAIN_APPEND_ATTEMPTS

/-! ## verifyChain -/

structure ChainVerification where
  chain : AuditChainVerificationResult
  epochId : String
  activeEpoch : Option AuditChainEpoch
  compromisedEpochs : List AuditChainEpoch

def verifyChain (env : Env) (reader : EpochReader) (limit : Nat) (now : JsDate) : AuditM ChainVerification := do
  let activeEpoch ← getActiveEpochRecord reader now
  let events ← loadEpochEvents (epochIdOf activeEpoch) .all
  let compromisedEpochs ← findCompromisedEpochs
  pure ⟨verifyEvents N env limit events, epochIdOf activeEpoch, activeEpoch, compromisedEpochs⟩

/-! ## sealCompromisedChainAndStartEpoch -/

structure Viewer where
  actorId : Option String
  roles : Option (List String)
  ip : Option String
  traceId : Option String

/-- A call of `sealCompromisedChainAndStartEpoch`: the reason and the viewer,
the random UUIDs and the times it draws. It ends with a call of `create`
(`createCall`). -/
structure SealCall where
  reason : String
  viewer : Viewer
  incidentUuid : String
  epochUuid : String
  eventUuid : String
  now : JsDate
  epochNow : JsDate

def SealCall.actorId (call : SealCall) : String := call.viewer.actorId.getD "unknown"

def SealCall.incidentId (call : SealCall) : String := "AUDIT-INC-" ++ call.incidentUuid

def SealCall.epochId (call : SealCall) : String := "epoch-" ++ call.epochUuid

def SealCall.fields (call : SealCall) (verification : AuditChainVerificationResult) : CompromiseFields where
  endedAt := call.now
  firstBrokenIndex := verification.firstBrokenIndex.getD 0
  firstBrokenEventId := verification.firstBrokenEventId
  lastTrustedHash := verification.lastTrustedHash
  incidentId := call.incidentId
  reason := call.reason

def SealCall.incident (call : SealCall) (verification : AuditChainVerificationResult) (previousEpochId : String) :
    AuditChainIncident where
  incidentId := call.incidentId
  detectedAt := call.now
  detectedBy := call.actorId
  affectedEpochId := previousEpochId
  firstBrokenIndex := verification.firstBrokenIndex.getD 0
  firstBrokenEventId := verification.firstBrokenEventId
  lastTrustedHash := verification.lastTrustedHash
  verifyMessage := verification.message.getD "Audit chain verification failed."
  reason := call.reason

def SealCall.newEpoch (call : SealCall) (previousEpochId : String) : AuditChainEpoch where
  epochId := call.epochId
  status := .ACTIVE
  startedAt := call.now
  genesisReason := .COMPROMISE_RECOVERY
  previousEpochId := some previousEpochId
  incidentId := some call.incidentId
  createdBy := call.actorId
  reason := call.reason

-- A property that is `undefined` is neither printed nor stored.
def definedFields (fields : List (String × Option Json)) : Metadata :=
  fields.filterMap fun f => f.2.map (f.1, ·)

def SealCall.createCall (call : SealCall) (verification : AuditChainVerificationResult) (previousEpochId : String) :
    CreateCall where
  dto :=
    { timestamp := some call.now.toISOString
      actorId := call.actorId
      actorRoles := call.viewer.roles.getD []
      action := "AUDIT_CHAIN_EPOCH_STARTED"
      resourceType := "AUDIT_CHAIN_EPOCH"
      resourceId := some call.epochId
      result := "SUCCESS"
      reason := some call.reason
      ip := call.viewer.ip
      traceId := call.viewer.traceId
      metadata := some (definedFields
        [("previousEpochId", some (.str previousEpochId)), ("incidentId", some (.str call.incidentId)),
          ("firstBrokenIndex", verification.firstBrokenIndex.map fun i => .num (toString i)),
          ("firstBrokenEventId", verification.firstBrokenEventId.map .str),
          ("lastTrustedHash", verification.lastTrustedHash.map .str)]) }
  uuid := call.eventUuid
  now := call.now
  epochNow := call.epochNow

structure SealResult where
  incident : AuditChainIncident
  previousEpochId : String
  newEpoch : AuditChainEpoch
  event : AuditEvent

def sealCompromisedChainAndStartEpoch (env : Env) (call : SealCall) : AuditM SealResult := do
  let _ ← getActiveEpochRecord .sealChain call.epochNow
  let verification ← verifyChain N env .sealChain 5000 call.epochNow
  if verification.chain.valid then .throw (.badRequest "Audit chain is valid; no recovery epoch is needed.")
  else
    let previousEpochId := verification.epochId
    match ← createIncident (call.incident verification.chain previousEpochId) with
    | .duplicateKey => .throw .store
    | .saved =>
      let _ ← markCompromised previousEpochId (call.fields verification.chain)
      match ← createEpoch (call.newEpoch previousEpochId) with
      | .duplicateKey => .throw .store
      | .saved =>
        let event ← appendEvent N env (call.createCall verification.chain previousEpochId)
        pure ⟨call.incident verification.chain previousEpochId, previousEpochId,
          call.newEpoch previousEpochId, event⟩

/-! ## Instances at work -/

inductive Task where
  | create (env : Env) (call : CreateCall)
  | verify (env : Env) (limit : Nat) (now : JsDate)
  | sealChain (env : Env) (call : SealCall)

inductive Outcome where
  | created (event : AuditEvent)
  | verified (result : ChainVerification)
  | sealed (result : SealResult)

def Task.prog : Task → AuditM Outcome
  | create env call => do
    let event ← appendEvent N env call
    pure (.created event)
  | verify env limit now => do
    let result ← verifyChain N env .verify limit now
    pure (.verified result)
  | sealChain env call => do
    let result ← sealCompromisedChainAndStartEpoch N env call
    pure (.sealed result)

/-! ## The operations of each function -/

-- Everything `verifyChain` does: it may create the initial epoch, and reads.
def Reads (reader : EpochReader) (now : JsDate) : AuditOp → Prop
  | .findActiveEpoch r => r = reader
  | .findActiveEpochAgain r => r = reader
  | .createEpoch epoch => epoch = initialEpoch now
  | .loadEpochEvents _ projection => projection = .all
  | .findCompromisedEpochs => True
  | _ => False

def Appends (epochId : String) : AuditOp → Prop
  | .loadEpochEvents e projection => e = epochId ∧ projection = .tail
  | .insertEvent event => event.epochId = some epochId
  | _ => False

theorem appends_epochs {ι : Type} {p : ι} {db db' : AuditDb ι} {epochId : String} {o : AuditOp} {r : o.Res}
    (ho : Appends epochId o) (hx : AuditExec p db o r db') : db'.epochs = db.epochs := by
  rcases exec_epochs hx with he | ⟨_, rfl, _⟩ | ⟨_, _, rfl, _⟩
  · exact he
  · exact absurd ho id
  · exact absurd ho id

theorem getActiveEpochRecord_uses (reader : EpochReader) (now : JsDate) :
    (getActiveEpochRecord reader now).Uses (Reads reader now) := by
  refine .bind (fun r => ?_) (.op rfl)
  cases r with
  | some activeEpoch => trivial
  | none =>
    refine .bind (fun r => ?_) (.op rfl)
    cases r with
    | saved => trivial
    | duplicateKey => exact .op rfl

theorem verifyChain_uses (env : Env) (reader : EpochReader) (limit : Nat) (now : JsDate) :
    (verifyChain N env reader limit now).Uses (Reads reader now) := by
  refine .bind (fun activeEpoch => ?_) (getActiveEpochRecord_uses reader now)
  refine .bind (fun events => ?_) (.op rfl)
  refine .bind (fun compromisedEpochs => ?_) (.op trivial)
  trivial

theorem appendAttempts_uses (signing : Option SigningKey) (epochId eventId : String) (eventTimestamp : JsDate)
    (dto : CreateAuditEventDto) : ∀ (attempts : Nat),
      (appendAttempts N signing epochId eventId eventTimestamp dto attempts).Uses (Appends epochId)
  | 0 => trivial
  | attempts + 1 => by
    refine .bind (fun events => ?_) (.op ⟨rfl, rfl⟩)
    refine .bind (fun lastEvent => ?_) (.ofExcept _)
    refine .bind (fun r => ?_) (.op rfl)
    cases r with
    | saved => trivial
    | duplicatePrevHash => exact appendAttempts_uses signing epochId eventId eventTimestamp dto attempts
    | invalid => trivial

end

end DocVault
