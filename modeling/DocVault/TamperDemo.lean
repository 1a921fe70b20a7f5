import DocVault.RepairSound
import DocVault.AuditTamper
import Mathlib.Algebra.GroupWithZero.Nat

/-!
# The tamper demonstration

`scripts/audit-tamper-demo.ts` checks the chain with a verifier of its own,
overwrites the reason of one event and checks again. Its verifier, the one of
the repair script and the service's are one function; and when the script
writes at all, the check that follows fails at the event it has written.
-/

namespace DocVault

open RepairAuditChain

namespace TamperDemo

def DEMO_FLAG : String := "DOCVAULT_ALLOW_AUDIT_TAMPER_DEMO"

def NONLOCAL_OVERRIDE_FLAG : String := "DOCVAULT_ALLOW_NONLOCAL_AUDIT_TAMPER_DEMO"

def MIN_EVENTS_FOR_TAMPER : Nat := 2

def LOCAL_MONGO_HOSTS : List String :=
  ["localhost", "127.0.0.1", "::1", "mongo", "docvault-mongo", "host.docker.internal"]

structure ChainVerificationResult where
  valid : Bool
  checked : Nat
  firstBrokenIndex : Option Nat := none
  message : Option String := none
  deriving DecidableEq

structure DemoOptions where
  apply : Bool
  limit : Nat

def DemoOptions.dryRun (options : DemoOptions) : Bool := !options.apply

/-! ## The guards -/

section
variable (toLowerCase : String → String)

def isExplicitTrue (value : Option String) : Bool := value.any fun v => toLowerCase v = "true"

def assertDemoEnabled (env : Env) : Except String Unit :=
  if isExplicitTrue toLowerCase (env DEMO_FLAG) then .ok ()
  else .error s!"Refusing to run audit tamper demo. Set {DEMO_FLAG}=true for local/dev demo use."

-- A prefix of a pattern with the flag `i`.
def dropPrefix (pre : String) (text : List Char) : Option (List Char) :=
  if (text.take pre.length).map Char.toLower = pre.toList then some (text.drop pre.length) else none

/-- `mongoUrl.match(/^mongodb(?:\+srv)?:\/\/([^/?#]+)/i)` and its group. -/
def mongoAuthority (mongoUrl : String) : Option (List Char) := do
  let rest ← dropPrefix "mongodb" mongoUrl.toList
  let rest ← dropPrefix "://" ((dropPrefix "+srv" rest).getD rest)
  let authority := rest.takeWhile fun c => c ∉ ['/', '?', '#']
  if authority.isEmpty then none else some authority

def normalizeMongoHost (hostAndPort : String) : String :=
  let value := (toLowerCase (trim hostAndPort)).toList
  match value with
  | '[' :: rest => if ']' ∈ rest then String.ofList (rest.takeWhile (· ≠ ']')) else String.ofList value
  | _ =>
    let host := value.takeWhile (· ≠ ':')
    String.ofList (if host.getLast? = some '.' then host.dropLast else host)

def extractMongoHosts (mongoUrl : String) : List String :=
  match mongoAuthority mongoUrl with
  | none => []
  | some authority =>
    -- what follows the last `@`
    let hostsPart := (authority.reverse.takeWhile (· ≠ '@')).reverse
    (((hostsPart.splitOn ',').map String.ofList).map (normalizeMongoHost toLowerCase)).filter (· ≠ "")

/-- `/^127(?:\.\d{1,3}){3}$/` -/
def isLoopback (host : String) : Bool :=
  match host.toList.splitOn '.' with
  | [a, b, c, d] =>
      a = ['1', '2', '7'] && [b, c, d].all fun part => part ≠ [] && part.length ≤ 3 && part.all Char.isDigit
  | _ => false

def isLocalMongoHost (host : String) : Bool := host ∈ LOCAL_MONGO_HOSTS || isLoopback host

structure UrlGuard where
  hosts : List String
  overrideUsed : Bool

def assertLocalMongoUrl (mongoUrl : String) (env : Env) : Except String UrlGuard :=
  let hosts := extractMongoHosts toLowerCase mongoUrl
  let nonLocalHosts := hosts.filter fun host => !isLocalMongoHost host
  if hosts.length = 0 then .error "Refusing to use an invalid or unsupported MongoDB URL."
  else if nonLocalHosts.length > 0 then
    if isExplicitTrue toLowerCase (env NONLOCAL_OVERRIDE_FLAG) then .ok ⟨hosts, true⟩
    else
      let listed := join ", " nonLocalHosts
      .error s!"Refusing to use non-local MongoDB host(s): {listed}. Use localhost/127.0.0.1/local Docker Mongo only, or set {NONLOCAL_OVERRIDE_FLAG}=true for an explicit override."
  else .ok ⟨hosts, false⟩

end

/-! ## verifyAuditChain -/

section
variable (N : Node)

/-- The loop from index `i` on, after an event with hash `last` (`null` at the start). -/
def verifyFrom (i : Nat) (last : Nullable String) : List AuditEventRecord → ChainVerificationResult
  | [] => { valid := true, checked := i }
  | event :: events =>
    let expectedHash := computeHash N last.toOption (payload event)
    if event.hash ≠ .val expectedHash then
      { valid := false, checked := i + 1, firstBrokenIndex := some i
        message := some
          s!"Hash mismatch at event index {i} (eventId={showOpt event.eventId}). Expected={expectedHash}, got={event.hash.show}" }
    else if event.prevHash ≠ last then
      { valid := false, checked := i + 1, firstBrokenIndex := some i
        message := some
          s!"prevHash mismatch at event index {i} (eventId={showOpt event.eventId}). Expected={last.show}, got={event.prevHash.show}" }
    else verifyFrom (i + 1) event.hash events

def verifyAuditChain (events : List AuditEventRecord) : ChainVerificationResult :=
  if events.length = 0 then { valid := true, checked := 0 } else verifyFrom N 0 .null events

/-! ## runDemo -/

def selectNonHeadTamperTarget (events : List AuditEventRecord) : Except String AuditEventRecord :=
  if h : events.length < MIN_EVENTS_FOR_TAMPER then
    .error s!"Need at least {MIN_EVENTS_FOR_TAMPER} audit events to mutate a non-head event; found {events.length}."
  else .ok (events.get ⟨events.length - 2, by unfold MIN_EVENTS_FOR_TAMPER at h; omega⟩)

def buildTamperedReason (event : AuditEventRecord) (now : JsDate) : String :=
  let currentReason := (event.reason.filter (· ≠ "")).getD "none"
  currentReason ++ " | tamper-demo " ++ now.toISOString

def loadAuditEvents (collection : AuditCollection) (limit : Nat) : List AuditEventRecord :=
  (load collection.records).take limit

def setReason (id : Nat) (reason : String) (event : AuditEventRecord) : AuditEventRecord :=
  if event.id = id then { event with reason := some reason } else event

-- `updateOne({ _id }, { $set: { reason } })`: how many documents it has modified, and the collection.
def updateOne (collection : AuditCollection) (id : Nat) (reason : String) : Nat × AuditCollection :=
  (collection.records.countP fun event => event.id = id && event.reason ≠ some reason,
    { records := collection.records.map (setReason id reason)
      ids := by
        rw [List.map_map]
        have hid : (fun e : AuditEventRecord => e.id) ∘ setReason id reason = fun e => e.id := by
          funext e
          unfold setReason
          simp only [Function.comp_apply]
          split <;> rfl
        rw [hid]
        exact collection.ids })

def runDemo (toLowerCase : String → String) (env : Env) (options : DemoOptions) (now : JsDate)
    (collection : AuditCollection) : Except String Nat × AuditCollection :=
  match assertDemoEnabled toLowerCase env with
  | .error e => (.error e, collection)
  | .ok _ =>
    match (env "MONGODB_URI").filter (· ≠ "") with
    | none => (.error "Missing MONGODB_URI.", collection)
    | some mongoUrl =>
      match assertLocalMongoUrl toLowerCase mongoUrl env with
      | .error e => (.error e, collection)
      | .ok _ =>
        let beforeEvents := loadAuditEvents collection options.limit
        if !(verifyAuditChain N beforeEvents).valid then (.ok 1, collection)
        else if beforeEvents.length < MIN_EVENTS_FOR_TAMPER then (.ok 0, collection)
        else
          match selectNonHeadTamperTarget beforeEvents with
          | .error e => (.error e, collection)
          | .ok target =>
            if options.dryRun then (.ok 0, collection)
            else
              let update := updateOne collection target.id (buildTamperedReason target now)
              if update.1 ≠ 1 then
                (.error s!"Expected to mutate exactly one audit event; modified {update.1}.", update.2)
              else if (verifyAuditChain N (loadAuditEvents update.2 options.limit)).valid then (.ok 1, update.2)
              else (.ok 0, update.2)

end

/-! ## Three verifiers -/

/-- The record as the demonstration looks at it. -/
def unsigned (event : AuditEventRecord) : AuditEvent :=
  { event.toAuditEvent with signature := none }

def verdict (r : AuditChainVerificationResult) : ChainVerificationResult where
  valid := r.valid
  checked := r.checked
  firstBrokenIndex := r.firstBrokenIndex
  message := r.message

section
variable {N : Node}

theorem verifyFrom_eq (env : Env) :
    ∀ (events : List AuditEventRecord) (i : Nat) (last : Nullable String) (s u : Nat),
    verdict (DocVault.verifyFrom N env i last s u (events.map unsigned)) = verifyFrom N i last events
  | [], _, _, _, _ => rfl
  | event :: events, i, last, s, u => by
    have hcheck : checkSignature N env (unsigned event) = .unsigned := rfl
    have hhash : expectedHash N last (unsigned event) = computeHash N last.toOption (payload event) := by
      rw [expectedHash, payload_eq]
      rfl
    rw [List.map_cons, DocVault.verifyFrom, verifyFrom, hhash, hcheck]
    by_cases hh : event.hash ≠ .val (computeHash N last.toOption (payload event))
    · rw [if_pos hh, if_pos (show (unsigned event).hash ≠ _ from hh)]
      rfl
    · rw [if_neg hh, if_neg (show ¬ (unsigned event).hash ≠ _ from hh)]
      by_cases hp : event.prevHash ≠ last
      · rw [if_pos hp, if_pos (show (unsigned event).prevHash ≠ last from hp)]
        rfl
      · rw [if_neg hp, if_neg (show ¬ (unsigned event).prevHash ≠ last from hp)]
        exact verifyFrom_eq env events (i + 1) event.hash s (u + 1)

theorem verifyFrom_broken : ∀ (events : List AuditEventRecord) (i : Nat) (last : Nullable String),
    (verifyFrom N i last events).firstBrokenIndex = (RepairAuditChain.firstBrokenIndex N last events).map (· + i)
  | [], _, _ => rfl
  | event :: events, i, last => by
    rw [verifyFrom, RepairAuditChain.firstBrokenIndex]
    by_cases hh : event.hash ≠ .val (computeHash N last.toOption (payload event))
    · simp [hh]
    · by_cases hp : event.prevHash ≠ last
      · simp [hh, hp]
      · simp only [hh, hp, if_false, decide_false, Bool.or_self, Bool.false_eq_true]
        rw [verifyFrom_broken events (i + 1) event.hash, Option.map_map]
        congr 1
        funext j
        simp only [Function.comp_apply]
        omega

/-- The verifiers of the demonstration and of the repair script are the service's on records without signatures. -/
theorem verifyAuditChain_eq (N : Node) (env : Env) (events : List AuditEventRecord) :
    verifyAuditChain N events = verdict (verifyEventSequence N env (events.map unsigned)) ∧
      (verifyAuditChain N events).firstBrokenIndex = RepairAuditChain.firstBrokenIndex N .null events := by
  unfold verifyAuditChain verifyEventSequence
  cases events with
  | nil => exact ⟨rfl, rfl⟩
  | cons event events =>
    refine ⟨(verifyFrom_eq env (event :: events) 0 .null 0 0).symm, ?_⟩
    have hb := verifyFrom_broken (N := N) (event :: events) 0 .null
    simpa using hb

/-! ## The overwritten reason -/

theorem length_intercalate (c : Char) (l : List (List Char)) :
    ([c].intercalate l).length = (l.map List.length).sum + (l.length - 1) := by
  induction l with
  | nil => rfl
  | cons x l ih =>
    cases l with
    | nil => simp
    | cons y l =>
      rw [List.intercalate_cons_cons, List.length_append, List.length_append, ih]
      simp only [List.map_cons, List.sum_cons, List.length_cons, List.length_nil]
      omega

def fieldLength (f : String × FieldValue) : Nat := f.1.length + 1 + f.2.render.length

-- The length does not depend on the order of the keys.
theorem payload_length (fields : List (String × FieldValue)) :
    (buildCanonicalPayload fields).length = (fields.map fieldLength).sum + (fields.length - 1) := by
  have hperm : (sortByKey fields).Perm fields := List.perm_insertionSort _ _
  rw [buildCanonicalPayload, join, ← String.length_toList, String.toList_intercalate]
  rw [show "|".toList = ['|'] from rfl, length_intercalate, List.length_map, List.length_map, hperm.length_eq,
    List.map_map, List.map_map, ← (hperm.map fieldLength).sum_nat]
  congr 2
  refine List.map_congr_left fun f _ => ?_
  simp only [Function.comp_apply, fieldLength, String.length_toList, String.length_append]
  rfl

theorem tampered_longer (event : AuditEventRecord) (now : JsDate) :
    (FieldValue.ofOption event.reason).render.length < (buildTamperedReason event now).length := by
  have hmark : " | tamper-demo ".length = 15 := rfl
  have hcurrent : (FieldValue.ofOption event.reason).render.length ≤
      ((event.reason.filter (· ≠ "")).getD "none").length := by
    cases event.reason with
    | none => exact Nat.zero_le _
    | some reason =>
      by_cases he : reason = ""
      · rw [he]
        exact Nat.zero_le _
      · rw [Option.filter_some_pos (by simpa using he)]
        exact Nat.le_refl _
  unfold buildTamperedReason
  rw [String.length_append, String.length_append, hmark]
  omega

theorem reason_ne (event : AuditEventRecord) (now : JsDate) :
    event.reason ≠ some (buildTamperedReason event now) := by
  intro h
  have hlt := tampered_longer event now
  rw [h, FieldValue.ofOption, FieldValue.render] at hlt
  exact Nat.lt_irrefl _ hlt

theorem payload_ne (event : AuditEventRecord) (now : JsDate) :
    payload event ≠ payload { event with reason := some (buildTamperedReason event now) } := by
  intro h
  have hlt := tampered_longer event now
  have hlen := congrArg String.length h
  rw [payload, payload, payload_length, payload_length] at hlen
  simp only [getCanonicalFields, List.map_append, List.sum_append, List.length_append, List.map_cons, List.sum_cons,
    List.length_cons, fieldLength, FieldValue.ofOption, FieldValue.render] at hlen hlt
  omega

/-! ## The chain afterwards -/

theorem load_setReason (id : Nat) (reason : String) (records : List AuditEventRecord) :
    load (records.map (setReason id reason)) = (load records).map (setReason id reason) := by
  have hbefore : ∀ a b : AuditEventRecord, before (setReason id reason a) (setReason id reason b) = before a b := by
    intro a b
    unfold setReason
    split <;> split <;> rfl
  refine (List.map_insertionSort _ _ _ _ fun a _ b _ => ?_).symm
  rw [hbefore]

theorem map_setReason {l m : List AuditEventRecord} {target : AuditEventRecord} (reason : String)
    (hn : ((l ++ target :: m).map (·.id)).Nodup) :
    (l ++ target :: m).map (setReason target.id reason) = l ++ { target with reason := some reason } :: m := by
  have hne : ∀ e ∈ l ++ m, e.id ≠ target.id := by
    have hperm : ((l ++ target :: m).map (·.id)).Perm ((target :: (l ++ m)).map (·.id)) :=
      List.perm_middle.map AuditEventRecord.id
    have hcons := hperm.nodup_iff.mp hn
    rw [List.map_cons, List.nodup_cons] at hcons
    exact fun e he heq => hcons.1 (heq ▸ List.mem_map_of_mem he)
  have hkeep : ∀ k : List AuditEventRecord, (∀ e ∈ k, e.id ≠ target.id) →
    k.map (setReason target.id reason) = k := by
    intro k hk
    conv_rhs => rw [← List.map_id k]
    exact List.map_congr_left fun e he => if_neg (hk e he)
  rw [List.map_append, List.map_cons, hkeep l fun e he => hne e (List.mem_append_left _ he),
    hkeep m fun e he => hne e (List.mem_append_right _ he), setReason, if_pos rfl]

/-- With another payload under the same hash the check ends at that event. -/
theorem verifyFrom_tampered (hN : Function.Injective N.sha256) {e e' : AuditEventRecord} (hhash : e'.hash = e.hash)
    (hpay : payload e ≠ payload e') (rest rest' : List AuditEventRecord) : ∀ {l : List AuditEventRecord} {i : Nat}
    {last : Nullable String}, (verifyFrom N i last (l ++ e :: rest)).valid = true →
      (verifyFrom N i last (l ++ e' :: rest')).valid = false ∧
        (verifyFrom N i last (l ++ e' :: rest')).checked = i + l.length + 1 ∧
        (verifyFrom N i last (l ++ e' :: rest')).firstBrokenIndex = some (i + l.length)
  | [], i, last, hv => by
    rw [List.nil_append, verifyFrom] at hv
    have hval : e.hash = .val (computeHash N last.toOption (payload e)) := by
      by_contra hh
      rw [if_pos hh] at hv
      cases hv
    have hbad : e'.hash ≠ .val (computeHash N last.toOption (payload e')) := by
      rw [hhash, hval]
      exact fun h => hpay ((computeHash_inj hN _ _ _).mp (Nullable.val.inj h))
    rw [List.nil_append, verifyFrom, if_pos hbad]
    exact ⟨rfl, rfl, rfl⟩
  | x :: l, i, last, hv => by
    rw [List.cons_append, verifyFrom] at hv
    by_cases hh : x.hash ≠ .val (computeHash N last.toOption (payload x))
    · rw [if_pos hh] at hv
      cases hv
    · rw [if_neg hh] at hv
      by_cases hp : x.prevHash ≠ last
      · rw [if_pos hp] at hv
        cases hv
      · rw [if_neg hp] at hv
        have ih := verifyFrom_tampered hN hhash hpay rest rest' hv
        rw [List.cons_append, verifyFrom, if_neg hh, if_neg hp, ih.1, ih.2.1, ih.2.2, List.length_cons]
        refine ⟨rfl, by omega, congrArg some (by omega)⟩

theorem epochEvents_middle {l m : List AuditEventRecord} {e : AuditEventRecord} {epochId : String}
    (he : epochOf e.toAuditEvent = epochId) : (epochEvents (l ++ e :: m) epochId).Perm
      (e.toAuditEvent :: epochEvents (l ++ m) epochId) := by
  have hperm : (epochEvents (l ++ e :: m) epochId).Perm (epochEvents (e :: (l ++ m)) epochId) :=
    (List.perm_middle.map _).filter _
  refine hperm.trans (List.Perm.of_eq ?_)
  rw [epochEvents, List.map_cons, List.filter_cons_of_pos (inEpoch_iff.mpr he)]
  rfl

/-- The service notices it too. -/
theorem service_notices (hN : Function.Injective N.sha256) (env : Env) {l m : List AuditEventRecord}
    {target : AuditEventRecord} (now : JsDate)
    (hv : EpochVerifies N env (l ++ target :: m) (epochOf target.toAuditEvent)) :
    ¬ EpochVerifies N env (l ++ { target with reason := some (buildTamperedReason target now) } :: m)
      (epochOf target.toAuditEvent) := by
  have hbefore : (epochEvents (l ++ target :: m) (epochOf target.toAuditEvent)).Perm
      (target.toAuditEvent :: epochEvents (l ++ m) (epochOf target.toAuditEvent)) := epochEvents_middle rfl
  have hafter : (epochEvents (l ++ { target with reason := some (buildTamperedReason target now) } :: m)
        (epochOf target.toAuditEvent)).Perm
      (target.toAuditEvent.withContent
        { target.toAuditContent with reason := some (buildTamperedReason target now) } ::
        epochEvents (l ++ m) (epochOf target.toAuditEvent)) := epochEvents_middle rfl
  have hfalse := (verifyEvents_alteration_iff hN le_rfl hv hbefore hafter).mpr (.inl fun hrecut => ?_)
  · have hlen := hafter.length_eq.trans hbefore.length_eq.symm
    rw [EpochVerifies, hlen, hfalse]
    exact Bool.false_ne_true
  · have hpay := payload_ne target now
    rw [payload_eq, payload_eq] at hpay
    exact hpay ((payload_eq_iff _ _).mpr hrecut)

end

/-! ## A run of the script -/

section
variable (N : Node) (toLowerCase : String → String) (env : Env) (options : DemoOptions)
  (collection : AuditCollection)

/-- Everything the script asks for before it writes. -/
structure Ready : Prop where
  enabled : isExplicitTrue toLowerCase (env DEMO_FLAG) = true
  allowed : ∃ mongoUrl guarded, (env "MONGODB_URI").filter (· ≠ "") = some mongoUrl ∧
    assertLocalMongoUrl toLowerCase mongoUrl env = .ok guarded
  valid : (verifyAuditChain N (loadAuditEvents collection options.limit)).valid = true
  enough : MIN_EVENTS_FOR_TAMPER ≤ (loadAuditEvents collection options.limit).length
  applied : options.apply = true

/-- What a run has done that wrote: it has ended with 0, one reason is
overwritten, and every verifier that reads the event stops there. -/
structure Tampered (now : JsDate) (result : Except String Nat × AuditCollection) (front : List AuditEventRecord)
    (target last : AuditEventRecord) : Prop where
  loaded : loadAuditEvents collection options.limit = front ++ [target, last]
  success : result.1 = .ok 0
  written : result.2.records = collection.records.map (setReason target.id (buildTamperedReason target now))
  changed : buildTamperedReason target now ≠ target.reason.getD ""
  broken : ∀ limit, front.length < limit → (verifyAuditChain N (loadAuditEvents result.2 limit)).valid = false ∧
    (verifyAuditChain N (loadAuditEvents result.2 limit)).checked = front.length + 1 ∧
    (verifyAuditChain N (loadAuditEvents result.2 limit)).firstBrokenIndex = some front.length
  noticed : ∀ env, EpochVerifies N env collection.records (epochOf target.toAuditEvent) →
    ¬ EpochVerifies N env result.2.records (epochOf target.toAuditEvent)

end

section
variable {N : Node} {toLowerCase : String → String} {env : Env} {options : DemoOptions}
  {collection : AuditCollection} {now : JsDate}

theorem updateOne_count {target : AuditEventRecord} (h : target ∈ collection.records) :
    (updateOne collection target.id (buildTamperedReason target now)).1 = 1 := by
  obtain ⟨l, m, hl⟩ := List.append_of_mem h
  have hids := collection.ids
  rw [hl] at hids
  have hne : ∀ e ∈ l ++ m, e.id ≠ target.id := by
    have hperm : ((l ++ target :: m).map (·.id)).Perm ((target :: (l ++ m)).map (·.id)) :=
      List.perm_middle.map AuditEventRecord.id
    have hcons := hperm.nodup_iff.mp hids
    rw [List.map_cons, List.nodup_cons] at hcons
    exact fun e he heq => hcons.1 (heq ▸ List.mem_map_of_mem he)
  have hnone : ∀ k : List AuditEventRecord, (∀ e ∈ k, e.id ≠ target.id) →
      (k.countP fun event => event.id = target.id && event.reason ≠ some (buildTamperedReason target now)) = 0 :=
    fun k hk => List.countP_eq_zero.mpr fun e he => by simp [hk e he]
  show collection.records.countP _ = 1
  rw [hl, List.countP_append, List.countP_cons, hnone l fun e he => hne e (List.mem_append_left _ he),
    hnone m fun e he => hne e (List.mem_append_right _ he)]
  simp [reason_ne target now]

theorem verifyAuditChain_eq_from (events : List AuditEventRecord) :
    verifyAuditChain N events = verifyFrom N 0 .null events := by
  cases events with
  | nil => rfl
  | cons e events => rfl

/-- After the update the check ends at the event written, for every limit that reaches it. -/
theorem updateOne_broken (hN : Function.Injective N.sha256) {front : List AuditEventRecord}
    {target last : AuditEventRecord} (hload : loadAuditEvents collection options.limit = front ++ [target, last])
    (hv : (verifyAuditChain N (front ++ [target, last])).valid = true) {limit : Nat}
    (hlimit : front.length < limit) :
    let after := verifyAuditChain N
      (loadAuditEvents (updateOne collection target.id (buildTamperedReason target now)).2 limit)
    after.valid = false ∧ after.checked = front.length + 1 ∧ after.firstBrokenIndex = some front.length := by
  have hall : load collection.records =
    front ++ target :: (last :: (load collection.records).drop options.limit) := by
    have hsplit := List.take_append_drop options.limit (load collection.records)
    rw [show (load collection.records).take options.limit = _ from hload, List.append_assoc] at hsplit
    exact hsplit.symm
  have hids : ((load collection.records).map (·.id)).Nodup :=
    ((load_perm collection.records).map _).nodup_iff.mpr collection.ids
  generalize (load collection.records).drop options.limit = rest at hall
  rw [hall] at hids
  have hafter : loadAuditEvents (updateOne collection target.id (buildTamperedReason target now)).2 limit =
      front ++ { target with reason := some (buildTamperedReason target now) } ::
        (last :: rest).take (limit - front.length - 1) := by
    rw [loadAuditEvents, updateOne, load_setReason, hall, map_setReason _ hids, List.take_append,
      List.take_of_length_le (Nat.le_of_lt hlimit)]
    obtain ⟨n, rfl⟩ := Nat.exists_eq_add_of_lt hlimit
    rw [show front.length + n + 1 - front.length = n + 1 by omega, List.take_succ_cons]
    rfl
  dsimp only
  rw [hafter, verifyAuditChain_eq_from]
  rw [verifyAuditChain_eq_from] at hv
  have hhash : ({ target with reason := some (buildTamperedReason target now) } : AuditEventRecord).hash =
    target.hash := rfl
  simpa using verifyFrom_tampered hN hhash (payload_ne target now) [last]
    ((last :: rest).take (limit - front.length - 1)) hv

theorem runDemo_ready (hN : Function.Injective N.sha256) (hr : Ready N toLowerCase env options collection) :
    ∃ front target last, Tampered N options collection now
      (runDemo N toLowerCase env options now collection) front target last := by
  obtain ⟨mongoUrl, guarded, hurl, hguard⟩ := hr.allowed
  have henough := hr.enough
  have hv := hr.valid
  obtain ⟨front, target, last, hload⟩ : ∃ front target last,
      loadAuditEvents collection options.limit = front ++ [target, last] := by
    rcases List.eq_nil_or_concat (loadAuditEvents collection options.limit) with h | ⟨l, last, h⟩
    · rw [h] at henough
      exact absurd henough (by decide)
    · rcases List.eq_nil_or_concat l with h' | ⟨front, target, h'⟩
      · rw [h, h'] at henough
        exact absurd henough (by simp [MIN_EVENTS_FOR_TAMPER])
      · exact ⟨front, target, last, by rw [h, h']; simp⟩
  have hmem : target ∈ collection.records := by
    refine (load_perm collection.records).subset (List.mem_of_mem_take (i := options.limit) ?_)
    rw [show (load collection.records).take options.limit = _ from hload]
    simp
  have hselect : selectNonHeadTamperTarget (loadAuditEvents collection options.limit) = .ok target := by
    rw [hload, selectNonHeadTamperTarget, dif_neg (by simp [MIN_EVENTS_FOR_TAMPER])]
    simp
  rw [hload] at hv
  have hbroken := fun limit (hl : front.length < limit) =>
    @updateOne_broken N options collection now hN front target last hload hv limit hl
  have hreach : front.length < options.limit := by
    have hlen := congrArg List.length hload
    rw [loadAuditEvents, List.length_take] at hlen
    simp only [List.length_append, List.length_cons, List.length_nil] at hlen
    omega
  have hafter := (hbroken options.limit hreach).1
  have hrun : runDemo N toLowerCase env options now collection =
      (.ok 0, (updateOne collection target.id (buildTamperedReason target now)).2) := by
    simp only [runDemo, assertDemoEnabled, hr.enabled, if_true, hurl, hguard, hr.valid,
      Bool.not_true, Bool.false_eq_true,
      if_false, if_neg (Nat.not_lt.mpr henough), hselect, DemoOptions.dryRun, hr.applied, updateOne_count hmem,
        ne_eq, not_true, hafter]
  rw [hrun]
  refine ⟨front, target, last, hload, rfl, rfl, ?_, hbroken, ?_⟩
  · intro heq
    have hlt := tampered_longer target now
    rw [heq] at hlt
    cases hreason : target.reason <;> simp [hreason, FieldValue.ofOption, FieldValue.render] at hlt
  · intro env hv
    obtain ⟨l, m, hl⟩ := List.append_of_mem hmem
    have hids := collection.ids
    rw [hl] at hids
    show ¬ EpochVerifies N env (collection.records.map _) _
    rw [hl, map_setReason _ hids]
    rw [hl] at hv
    exact service_notices hN env now hv

theorem runDemo_idle (h : ¬ Ready N toLowerCase env options collection) :
    (runDemo N toLowerCase env options now collection).2 = collection := by
  unfold runDemo assertDemoEnabled
  by_cases henabled : isExplicitTrue toLowerCase (env DEMO_FLAG) = true
  · rw [if_pos henabled]
    dsimp only
    cases hurl : (env "MONGODB_URI").filter (· ≠ "") with
    | none => rfl
    | some mongoUrl =>
      dsimp only
      cases hguard : assertLocalMongoUrl toLowerCase mongoUrl env with
      | error e => rfl
      | ok guarded =>
        dsimp only
        split
        · rfl
        · rename_i hv
          split
          · rfl
          · rename_i henough
            split
            · rfl
            · split
              · rfl
              · rename_i hdry
                refine absurd ⟨henabled, ⟨mongoUrl, guarded, hurl, hguard⟩, ?_, Nat.not_lt.mp henough, ?_⟩ h
                · simpa using hv
                · simpa [DemoOptions.dryRun] using hdry
  · rw [if_neg henabled]

/-- The script writes exactly when everything it asks for holds, and then it always breaks the
chain where it has written, so that its own last check never fails and no second run writes. -/
theorem runDemo_effect (hN : Function.Injective N.sha256) (toLowerCase : String → String)
    (env : Env) (options : DemoOptions) (now : JsDate) (collection : AuditCollection) :
    (Ready N toLowerCase env options collection → ∃ front target last, Tampered N options collection now
      (runDemo N toLowerCase env options now collection) front target last) ∧
    (¬ Ready N toLowerCase env options collection →
      (runDemo N toLowerCase env options now collection).2 = collection) :=
  ⟨runDemo_ready hN, runDemo_idle⟩

end

/-! The sample epoch on a local host; its settings are in lower case. -/

def intact : AuditCollection where
  records := [{ sampleFirst with id := 1 }, { sampleSecond with id := 2 }]
  ids := by decide

def demoEnv : Env := fun key =>
  if key = DEMO_FLAG then some "true"
    else if key = "MONGODB_URI" then some "mongodb://localhost:27017/docvault_audit" else none

theorem demo_ready : Ready sampleNode id demoEnv ⟨true, 1000⟩ intact where
  enabled := by decide
  allowed := ⟨"mongodb://localhost:27017/docvault_audit", ⟨["localhost"], false⟩, by decide, rfl⟩
  valid := by decide +kernel
  enough := by decide
  applied := rfl

theorem runDemo_effect_sample : ∃ front target last, Tampered sampleNode ⟨true, 1000⟩ intact sampleTime
    (runDemo sampleNode id demoEnv ⟨true, 1000⟩ sampleTime intact) front target last :=
  (runDemo_effect sampleNode_injective id demoEnv ⟨true, 1000⟩ sampleTime intact).1 demo_ready

end TamperDemo

end DocVault
