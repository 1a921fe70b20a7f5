import DocVault.IsoDate
import DocVault.Recommendations

/-!
# A recommendation's state and the head of its history

The summary reads the newest update alone, the history the newest that has a
status. They are one unless the newest update has none, which an update of the
service always has, and an event of another service need not have.
-/

namespace DocVault

open Interleave

/-! ## The states -/

section
variable {N : Node} {states states' : WorkflowStates} {event : AuditEvent} {id : String}

def stateOf (N : Node) (event : AuditEvent) : Except AuditError (Option SecurityRecommendationWorkflow) :=
  match workflowStatus event with
  | none => .ok none
  | some status =>
    match stampDate N event.timestamp with
    | none => .error .rangeError
    | some updatedAt => .ok (some
      { status := status
        note := event.metadataText "note"
        updatedAt := some updatedAt.toISOString
        updatedBy := some event.actorId })

def latestState (N : Node) : Option AuditEvent → Except AuditError (Option SecurityRecommendationWorkflow)
  | none => .ok none
  | some event => stateOf N event

/-- What one newest update does to the states. -/
structure Sets (N : Node) (event : Option AuditEvent) (id : String) (states states' : WorkflowStates) : Prop where
  others : ∀ other, other ≠ id → states'.lookup other = states.lookup other
  kept : ∀ workflow, states.lookup id = some workflow → states'.lookup id = some workflow
  new : states.lookup id = none → latestState N event = .ok (states'.lookup id)

theorem addWorkflowState_sets (hid : event.resourceId = some id) (hne : id ≠ "")
    (h : addWorkflowState N states (some event) = .ok states') : Sets N (some event) id states states' := by
  have hkey : truthy (stateRecommendationId event) = some id := by
    rw [stateRecommendationId, hid]
    simp [truthy, hne]
  rw [addWorkflowState, hkey] at h
  cases hstatus : workflowStatus event with
  | none =>
    rw [hstatus] at h
    obtain rfl := Except.ok.inj h
    refine ⟨fun _ _ => rfl, fun _ hw => hw, fun hnone => ?_⟩
    rw [latestState, stateOf, hstatus, hnone]
  | some status =>
    rw [hstatus] at h
    simp only at h
    cases hlookup : states.lookup id with
    | some workflow =>
      rw [hlookup, Option.isSome_some, if_pos rfl] at h
      obtain rfl := Except.ok.inj h
      exact ⟨fun _ _ => rfl, fun _ hw => hw, fun hnone => absurd (hlookup.symm.trans hnone) (by simp)⟩
    | none =>
      rw [hlookup, Option.isSome_none, if_neg Bool.false_ne_true] at h
      cases hdate : stampDate N event.timestamp with
      | none =>
        rw [hdate] at h
        cases h
      | some updatedAt =>
        rw [hdate] at h
        obtain rfl := Except.ok.inj h
        refine ⟨fun other hother => ?_, fun _ hw => absurd (hlookup.symm.trans hw) (by simp), fun _ => ?_⟩
        · simp [List.lookup_append, List.lookup_cons, beq_eq_false_iff_ne.mpr hother]
        · rw [latestState, stateOf, hstatus]
          simp [hdate, List.lookup_append, hlookup]

theorem addWorkflowState_none (h : addWorkflowState N states none = .ok states') :
    Sets N none id states states' := by
  obtain rfl := Except.ok.inj h
  exact ⟨fun _ _ => rfl, fun _ hw => hw, fun hnone => by rw [latestState, hnone]⟩

/-- The run over the recommendations: an id has the state of its newest update. -/
theorem states_run {newest : String → Option AuditEvent} {ids : List String} {result : WorkflowStates}
    (hids : ∀ id ∈ ids, id ≠ "" ∧ ∀ event, newest id = some event → event.resourceId = some id)
    (h : (ids.map newest).foldlM (addWorkflowState N) states = .ok result) (id : String) :
    (∀ workflow, states.lookup id = some workflow → result.lookup id = some workflow) ∧
      (states.lookup id = none → id ∈ ids → latestState N (newest id) = .ok (result.lookup id)) ∧
        (states.lookup id = none → id ∉ ids → result.lookup id = none) := by
  induction ids generalizing states with
  | nil =>
    obtain rfl := Except.ok.inj h
    exact ⟨fun _ hw => hw, fun _ hin => absurd hin List.not_mem_nil, fun hnone _ => hnone⟩
  | cons first ids ih =>
    rw [List.map_cons, List.foldlM_cons] at h
    cases hstep : addWorkflowState N states (newest first) with
    | error e =>
      rw [hstep] at h
      cases h
    | ok middle =>
      rw [hstep] at h
      obtain ⟨hkept, hnew, habsent⟩ := ih (fun id hin => hids id (List.mem_cons_of_mem _ hin)) h
      obtain ⟨hne, hresource⟩ := hids first List.mem_cons_self
      have hsets : Sets N (newest first) first states middle := by
        cases hnewest : newest first with
        | none =>
          rw [hnewest] at hstep
          exact addWorkflowState_none hstep
        | some event =>
          rw [hnewest] at hstep
          exact addWorkflowState_sets (hresource event hnewest) hne hstep
      by_cases hid : id = first
      · subst hid
        refine ⟨fun workflow hw => hkept workflow (hsets.kept workflow hw), fun hnone _ => ?_,
          fun _ hout => absurd List.mem_cons_self hout⟩
        have hlatest := hsets.new hnone
        cases hlookup : middle.lookup id with
        | some workflow => rw [hlatest, hlookup, hkept workflow hlookup]
        | none =>
          by_cases hin : id ∈ ids
          · exact hnew hlookup hin
          · rw [hlatest, hlookup, habsent hlookup hin]
      · rw [← hsets.others id hid]
        refine ⟨hkept, fun hnone hin => ?_, fun hnone hout => ?_⟩
        · exact hnew hnone ((List.mem_cons.mp hin).resolve_left hid)
        · exact habsent hnone fun hin => hout (List.mem_cons_of_mem _ hin)

end

/-! ## State and history of one recommendation -/

def SecurityRecommendationWorkflowHistoryEntry.workflow (entry : SecurityRecommendationWorkflowHistoryEntry) :
    SecurityRecommendationWorkflow where
  status := entry.status
  note := entry.note
  updatedAt := some entry.updatedAt
  updatedBy := some entry.updatedBy

/-- The state is that of the first entry, and plain `OPEN` if and only if there is none. -/
structure IsHead (workflow : SecurityRecommendationWorkflow)
    (history : List SecurityRecommendationWorkflowHistoryEntry) : Prop where
  head : ∀ entry, history.head? = some entry → workflow = entry.workflow
  plain : workflow = { status := .OPEN } ↔ history = []

/-- The newest update has a status, or none of the updates that the history reads does. -/
def NewestCounts (updates : List AuditEvent) : Prop :=
  ∀ newest, updates.head? = some newest →
    (workflowStatus newest).isSome = true ∨ ∀ event ∈ updates.take 50, workflowStatus event = none

section
variable {N : Node} {updates : List AuditEvent} {event : AuditEvent}

theorem toEventDate_of_stampDate {d : JsDate} (h : stampDate N event.timestamp = some d) :
    toEventDate N event.timestamp = d := by
  cases hstamp : event.timestamp with
  | date t =>
    rw [hstamp] at h
    exact Option.some.inj h
  | text s =>
    rw [hstamp, stampDate] at h
    rw [toEventDate, h, Option.getD_some]
  | missing =>
    rw [hstamp] at h
    cases h

theorem stateOf_some {state : Option SecurityRecommendationWorkflow} {status : SecurityRecommendationWorkflowStatus}
    (hstatus : workflowStatus event = some status) (h : stateOf N event = .ok state) :
    ∃ entry, historyEntryOf N event = some entry ∧ state = some entry.workflow ∧ entry.status = status := by
  rw [stateOf, hstatus] at h
  cases hdate : stampDate N event.timestamp with
  | none =>
    rw [hdate] at h
    cases h
  | some d =>
    rw [hdate] at h
    obtain rfl := Except.ok.inj h
    refine ⟨_, by rw [historyEntryOf, hstatus]; rfl, ?_, rfl⟩
    rw [SecurityRecommendationWorkflowHistoryEntry.workflow, toEventDate_of_stampDate hdate]

theorem historyEntryOf_none : historyEntryOf N event = none ↔ workflowStatus event = none := Option.map_eq_none_iff

theorem isHead_iff {state : Option SecurityRecommendationWorkflow} (h : latestState N updates.head? = .ok state) :
    IsHead (state.getD { status := .OPEN }) ((updates.take 50).filterMap (historyEntryOf N)) ↔
    NewestCounts updates := by
  have hempty : (updates.take 50).filterMap (historyEntryOf N) = [] ↔
      ∀ event ∈ updates.take 50, workflowStatus event = none := by
    rw [List.filterMap_eq_nil_iff]
    exact forall₂_congr fun event _ => historyEntryOf_none
  cases updates with
  | nil =>
    obtain rfl := Except.ok.inj h
    rw [List.take_nil, List.filterMap_nil, Option.getD_none]
    exact ⟨fun _ _ hnewest => absurd hnewest (by simp), fun _ => ⟨nofun, ⟨fun _ => rfl, fun _ => rfl⟩⟩⟩
  | cons newest rest =>
    rw [List.head?_cons, latestState] at h
    cases hstatus : workflowStatus newest with
    | some status =>
      -- the newest update is the head of both
      obtain ⟨entry, hentry, rfl, -⟩ := stateOf_some hstatus h
      have hcounts : NewestCounts (newest :: rest) := fun e he => by
        obtain rfl := Option.some.inj he
        exact .inl (by rw [hstatus]; rfl)
      refine ⟨fun _ => hcounts, fun _ => ?_⟩
      rw [List.take_succ_cons, List.filterMap_cons_some hentry, Option.getD_some]
      refine ⟨fun first hfirst => by rw [Option.some.inj hfirst], ⟨fun hplain => ?_, nofun⟩⟩
      cases congrArg SecurityRecommendationWorkflow.updatedAt hplain
    | none =>
      rw [stateOf, hstatus] at h
      obtain rfl := Except.ok.inj h
      rw [Option.getD_none]
      apply Iff.intro
      · intro hhead e _
        exact .inr (hempty.mp (hhead.plain.mp rfl))
      · intro hcounts
        have hnone := (hcounts newest rfl).resolve_left (by rw [hstatus]; exact Bool.false_ne_true)
        rw [hempty.mpr hnone]
        exact ⟨nofun, ⟨fun _ => rfl, fun _ => rfl⟩⟩

end

/-! ## The updates among the events -/

section
variable {N : Node} {sorts : Sorts} {events : List AuditEvent} {id : String}

theorem workflowFilter_accepts {event : AuditEvent} : matchesFilter (workflowFilter id) event = true ↔
    event.action = "SECURITY_RECOMMENDATION_STATUS_UPDATED" ∧ event.resourceType = "SECURITY_RECOMMENDATION" ∧
      event.resourceId = some id := by
  simp only [matchesFilter, workflowFilter, Filters.accepts_fields, List.all_cons, List.all_nil, Bool.and_true,
    Bool.and_eq_true, Filters.Test.accepts, auditDoc_paths event, decide_eq_true_eq, List.mem_singleton,
    Scalar.text.injEq, mem_ofOption]
  exact and_congr eq_comm (and_congr_left' eq_comm)

theorem mem_updates (hsort : ∀ l, Paging.Arranged Newer (sorts.byTimeAndId l) l) {event : AuditEvent} :
    event ∈ workflowUpdates sorts events id ↔ event ∈ events ∧ matchesFilter (workflowFilter id) event = true := by
  rw [workflowUpdates, (hsort _).perm.mem_iff, List.mem_filter]

theorem interpolated_ne {a : String} (ha : a ≠ "") (b : String) : a ++ b ≠ "" := by
  intro h
  exact ha (String.append_eq_empty_iff.mp h).1

theorem recommendation_id_ne {chain : AuditChainVerificationResult} {totals : SecurityTotals}
    {actors : List DenyActor} {documents : List RiskyDocumentSummary} {signals : List BehaviorSignalSummary}
    {recommendation : SecurityRecommendationSummary}
    (h : recommendation ∈ buildSecurityRecommendations chain totals actors documents signals) :
    recommendation.id ≠ "" := by
  have hin := List.mem_of_mem_take h
  simp only [List.mem_append, List.mem_ite_nil_right, List.mem_singleton, List.mem_map] at hin
  obtain ((((⟨-, rfl⟩ | ⟨document, -, rfl⟩) | ⟨signal, -, rfl⟩) | ⟨actor, -, rfl⟩) | ⟨-, rfl⟩) | ⟨-, rfl⟩ := hin
  · exact (by decide : "audit-chain-review" ≠ "")
  · exact interpolated_ne (by decide : "document-access-review:" ≠ "") _
  · exact interpolated_ne (interpolated_ne (interpolated_ne (by decide : "actor-access-review:" ≠ "") _) _) _
  · exact interpolated_ne (by decide : "actor-access-review:repeated-deny:" ≠ "") _
  · exact (by decide : "dlp-classification-review" ≠ "")
  · exact (by decide : "malware-upload-review" ≠ "")

/-- The workflow of a recommendation in a summary is the state of the newest update. -/
theorem summary_workflow (hsort : ∀ l, Paging.Arranged Newer (sorts.byTimeAndId l) l)
    {chain : AuditChainVerificationResult}
    {windowStart : JsDate} {summary : SecuritySummary}
    (h : securitySummary N sorts chain windowStart events = .ok summary)
    {recommendation : SecurityRecommendationSummary} (hin : recommendation ∈ summary.recommendations) :
    ∃ state, latestState N (workflowUpdates sorts events recommendation.id).head? = .ok state ∧
      recommendation.workflow = state.getD { status := .OPEN } := by
  simp only [securitySummary] at h
  generalize hstates : getRecommendationWorkflowStates N sorts events _ = outcome at h
  cases outcome with
  | error e => cases h
  | ok states =>
    obtain rfl := Except.ok.inj h
    obtain ⟨built, hbuilt, rfl⟩ := List.mem_map.mp hin
    refine ⟨states.lookup built.id, ?_, rfl⟩
    refine (states_run (fun id hid => ?_) hstates built.id).2.1 rfl (List.mem_map_of_mem hbuilt)
    obtain ⟨other, hother, rfl⟩ := List.mem_map.mp hid
    refine ⟨recommendation_id_ne hother, fun event hevent => ?_⟩
    exact (workflowFilter_accepts.mp ((mem_updates hsort).mp (List.mem_of_head? hevent)).2).2.2

end

/-! ## What an update leaves -/

section
variable {ι : Type} {N : Node} {sorts : Sorts} {p : ι} {db db' : AuditDb ι} {event : AuditEvent}

def AuditDb.stored (db : AuditDb ι) : List AuditEvent := db.events.map Prod.snd

theorem eval_getActiveEpochId {now : JsDate} {epochId : String}
    (h : Eval AuditExec p (getActiveEpochId now) db (.ok epochId) db') :
    db'.events = db.events := by
  obtain ⟨record, middle, hrecord, hret⟩ := eval_bind.mp h
  cases hret
  obtain ⟨found, first, hfind, hrest⟩ := eval_op_bind.mp hrecord
  obtain rfl : first = db := hfind.2
  cases found with
  | some activeEpoch =>
    cases hrest
    rfl
  | none =>
    obtain ⟨created, second, hcreate, hlast⟩ := eval_op_bind.mp hrest
    obtain ⟨rfl, -, rfl⟩ | ⟨rfl, -, rfl⟩ := create_cases hcreate
    · cases hlast
      rfl
    · cases hlast with
      | exec hfind hret =>
        cases hret
        rw [hfind.2]

theorem eval_appendAttempts {signing : Option SigningKey} {epochId eventId : String} {eventTimestamp : JsDate}
    {dto : CreateAuditEventDto} {attempts : Nat}
    (h : Eval AuditExec p (appendAttempts N signing epochId eventId eventTimestamp dto attempts) db
      (.ok event) db') :
    db'.stored = db.stored ++ [event] ∧ event.toAuditContent = appendContent eventId eventTimestamp dto := by
  induction attempts generalizing db with
  | zero => cases h
  | succ attempts ih =>
    obtain ⟨events, first, hload, htail⟩ := eval_op_bind.mp h
    obtain rfl : first = db := hload.2
    obtain ⟨lastEvent, -, hattempt⟩ := eval_ofExcept_bind.mp htail
    obtain ⟨inserted, second, hinsert, hlast⟩ := eval_op_bind.mp hattempt
    obtain ⟨rfl, -, -, rfl⟩ | ⟨hne, rfl⟩ := insert_cases hinsert
    · cases hlast
      exact ⟨by simp [AuditDb.stored], rfl⟩
    · cases inserted with
      | saved => exact absurd rfl hne
      | duplicatePrevHash => exact ih hlast
      | invalid => cases hlast

theorem eval_appendEvent {env : Env} {call : CreateCall}
    (h : Eval AuditExec p (appendEvent N env call) db (.ok event) db') :
    ∃ eventTimestamp, call.eventTimestamp N = some eventTimestamp ∧ db'.stored = db.stored ++ [event] ∧
      event.toAuditContent = appendContent call.eventId eventTimestamp call.dto := by
  obtain ⟨epochId, middle, hepoch, h⟩ := eval_bind.mp h
  have hmiddle : middle.stored = db.stored := congrArg (List.map Prod.snd) (eval_getActiveEpochId hepoch)
  cases htime : call.eventTimestamp N with
  | none =>
    rw [htime] at h
    cases h
  | some eventTimestamp =>
    rw [htime] at h
    obtain ⟨hstored, hcontent⟩ := eval_appendAttempts h
    exact ⟨eventTimestamp, rfl, by rw [hstored, hmiddle], hcontent⟩

theorem status_text (status : SecurityRecommendationWorkflowStatus) :
    tryRecommendationWorkflowStatus (some (.str status.text)) = some status := by
  cases status <;> decide +kernel

/-- What a successful update stores. -/
structure Updates (update : WorkflowUpdate) (status : SecurityRecommendationWorkflowStatus)
    (event : AuditEvent) : Prop where
  matching : matchesFilter (workflowFilter update.recommendationId) event = true
  timestamp : event.timestamp = .date update.now
  status : workflowStatus event = some status

theorem eval_update (hiso : ∀ d : JsDate, N.newDate d.toISOString = some d) {env : Env} {update : WorkflowUpdate}
    {status : SecurityRecommendationWorkflowStatus}
    (hstatus : tryRecommendationWorkflowStatus update.dto.status = some status)
    (h : Eval AuditExec p (updateSecurityRecommendationWorkflow N env update) db (.ok event) db') :
    db'.stored = db.stored ++ [event] ∧ Updates update status event := by
  rw [updateSecurityRecommendationWorkflow, hstatus] at h
  obtain ⟨eventTimestamp, htime, hstored, hcontent⟩ := eval_appendEvent h
  have hnow : eventTimestamp = update.now := by
    simp only [CreateCall.eventTimestamp, WorkflowUpdate.createCall, toISOString_ne_empty update.now, if_false,
      hiso] at htime
    exact (Option.some.inj htime).symm
  subst hnow
  refine ⟨hstored, ?_, ?_, ?_⟩
  · rw [workflowFilter_accepts]
    exact ⟨congrArg AuditContent.action hcontent, congrArg AuditContent.resourceType hcontent,
      congrArg AuditContent.resourceId hcontent⟩
  · exact congrArg AuditContent.timestamp hcontent
  · have hmetadata : event.metadata = (update.createCall status).dto.metadata :=
      congrArg AuditContent.metadata hcontent
    have hfield : event.metadataField "status" = some (.str status.text) := by
      rw [AuditEvent.metadataField, hmetadata]
      rfl
    rw [workflowStatus, hfield, status_text]

/-- The clock of an update is later than every stored event. -/
def Later (now : JsDate) (events : List AuditEvent) : Prop :=
  ∀ event ∈ events, ∀ d, event.timestamp = .date d → d.ms < now.ms

/-- The update is the newest one. -/
theorem update_newest (hsort : ∀ l, Paging.Arranged Newer (sorts.byTimeAndId l) l) {events : List AuditEvent}
    {update : WorkflowUpdate} {status : SecurityRecommendationWorkflowStatus}
    (hupdates : Updates update status event) (hlater : Later update.now events) :
    (workflowUpdates sorts (events ++ [event]) update.recommendationId).head? = some event := by
  refine (hsort _).head_eq ?_ fun other hother hnewer => ?_
  · exact List.mem_filter.mpr ⟨List.mem_append_right _ (List.mem_singleton_self event), hupdates.matching⟩
  · obtain hstored | hnew := List.mem_append.mp (List.mem_filter.mp hother).1
    · have hle : (Stamp.date update.now).le other.timestamp = true := by
        rw [← hupdates.timestamp]
        exact hnewer
      cases hstamp : other.timestamp with
      | date d =>
        have hlt := hlater other hstored d hstamp
        rw [hstamp, Stamp.le, decide_eq_true_eq] at hle
        omega
      | text s =>
        rw [hstamp] at hle
        cases hle
      | missing =>
        rw [hstamp] at hle
        cases hle
    · exact List.mem_singleton.mp hnew

end

/-! ## The claims of a summary -/

section
variable {ι : Type} (N : Node) (sorts : Sorts)

/-- Right after an update with a later clock, the history's head and any summary have its status. -/
def UpdatesReported (env : Env) (db : AuditDb ι) : Prop :=
  ∀ (p : ι) (update : WorkflowUpdate) (status : SecurityRecommendationWorkflowStatus)
    (event : AuditEvent) (db' : AuditDb ι),
    tryRecommendationWorkflowStatus update.dto.status = some status → Later update.now db.stored →
    Eval AuditExec p (updateSecurityRecommendationWorkflow N env update) db (.ok event) db' →
      (getSecurityRecommendationWorkflowHistory N sorts db'.stored update.recommendationId).head?.map (·.status) =
        some status ∧
      ∀ chain windowStart summary, securitySummary N sorts chain windowStart db'.stored = .ok summary →
        ∀ recommendation ∈ summary.recommendations, recommendation.id = update.recommendationId →
          recommendation.workflow.status = status

variable {N sorts}

theorem updates_reported (hsort : ∀ l, Paging.Arranged Newer (sorts.byTimeAndId l) l)
    (hiso : ∀ d : JsDate, N.newDate d.toISOString = some d) (env : Env) (db : AuditDb ι) :
    UpdatesReported N sorts env db := by
  intro p update status event db' hstatus hlater heval
  obtain ⟨hstored, hupdates⟩ := eval_update hiso hstatus heval
  have hnewest := update_newest hsort hupdates hlater
  rw [← hstored] at hnewest
  obtain ⟨rest, hrest⟩ := List.head?_eq_some_iff.mp hnewest
  refine ⟨?_, fun chain windowStart summary hsummary recommendation hin hid => ?_⟩
  · have hentry : historyEntryOf N event = some
        ⟨event.eventId, status, event.metadataText "note", (toEventDate N event.timestamp).toISOString,
          event.actorId⟩ := by
      rw [historyEntryOf, hupdates.status]
      rfl
    rw [getSecurityRecommendationWorkflowHistory, hrest, List.take_succ_cons, List.filterMap_cons_some hentry]
    rfl
  · obtain ⟨state, hstate, hworkflow⟩ := summary_workflow hsort hsummary hin
    rw [hid, hnewest] at hstate
    obtain ⟨entry, -, rfl, rfl⟩ := stateOf_some hupdates.status hstate
    rw [hworkflow]
    rfl

/-- The state of a recommendation is the head of its history exactly if its newest update has a
status, or none of those that the history reads; an update is always reported by both. -/
theorem workflow_head_iff (hsort : ∀ l, Paging.Arranged Newer (sorts.byTimeAndId l) l)
    (hiso : ∀ d : JsDate, N.newDate d.toISOString = some d) (env : Env) (db : AuditDb ι)
    (chain : AuditChainVerificationResult)
    (windowStart : JsDate) {summary : SecuritySummary}
    (hsummary : securitySummary N sorts chain windowStart db.stored = .ok summary) :
    ((∀ recommendation ∈ summary.recommendations,
        IsHead recommendation.workflow
          (getSecurityRecommendationWorkflowHistory N sorts db.stored recommendation.id)) ∧
      UpdatesReported N sorts env db) ↔
      ∀ recommendation ∈ summary.recommendations,
        NewestCounts (workflowUpdates sorts db.stored recommendation.id) := by
  have heach : ∀ recommendation ∈ summary.recommendations,
      (IsHead recommendation.workflow
        (getSecurityRecommendationWorkflowHistory N sorts db.stored recommendation.id) ↔
        NewestCounts (workflowUpdates sorts db.stored recommendation.id)) := fun recommendation hin => by
    obtain ⟨state, hstate, hworkflow⟩ := summary_workflow hsort hsummary hin
    rw [hworkflow]
    exact isHead_iff hstate
  rw [and_iff_left (updates_reported hsort hiso env db)]
  exact forall₂_congr heach

end

/-! A detection of the DLP scanner, and updates of its recommendation that another service has sent. -/

def sampleSorts : Sorts where
  byTime := List.insertionSort Newer
  byTimeAndId := List.insertionSort Newer
  byCount := List.insertionSort fun a b => b.denyCount ≤ a.denyCount

theorem sampleSorts_arranged (l : List AuditEvent) : Paging.Arranged Newer (sampleSorts.byTimeAndId l) l :=
  ⟨List.perm_insertionSort _ _, List.pairwise_insertionSort _ _⟩

theorem nextTime_valid : (sampleTime.ms + 1).natAbs ≤ 8640000000000000 := by decide

def nextTime : JsDate := ⟨sampleTime.ms + 1, nextTime_valid⟩

def detectionDto : CreateAuditEventDto where
  actorId := "dlp-service"
  actorRoles := []
  action := "DLP_PATTERN_DETECTED"
  resourceType := "DOCUMENT"
  result := "SUCCESS"

def statusDto (status : String) : CreateAuditEventDto where
  actorId := "dlp-service"
  actorRoles := []
  action := "SECURITY_RECOMMENDATION_STATUS_UPDATED"
  resourceType := "SECURITY_RECOMMENDATION"
  resourceId := some "dlp-classification-review"
  result := "SUCCESS"
  metadata := some [("status", .str status)]

def ingested (eventId : String) (timestamp : JsDate) (dto : CreateAuditEventDto) (prevHash : Option String) :
    Unit × AuditEvent :=
  ((), appendRecord sampleReader none DEFAULT_EPOCH_ID eventId timestamp dto prevHash)

def investigatedDb : AuditDb Unit where
  epochs := []
  incidents := []
  events := [ingested "e-1" sampleTime detectionDto none,
    ingested "e-2" sampleTime (statusDto "INVESTIGATING") (some "h-1")]

def doneDb : AuditDb Unit :=
  { investigatedDb with events := investigatedDb.events ++
    [ingested "e-3" nextTime (statusDto "DONE") (some "h-2")] }

def validChain : AuditChainVerificationResult := { valid := true, checked := 0 }

def summaryWith (workflow : SecurityRecommendationWorkflow) : SecuritySummary where
  chain := validChain
  totals := ⟨0, 0, 1, 0⟩
  repeatedDenyActors := []
  riskyDocuments := []
  behaviorSignals := []
  recommendations := [{ dlpRecommendation 1 with workflow := workflow }]

def investigating : SecurityRecommendationWorkflow where
  status := .INVESTIGATING
  updatedAt := some sampleTime.toISOString
  updatedBy := some "dlp-service"

theorem investigated_summary :
    securitySummary sampleReader sampleSorts validChain nextTime investigatedDb.stored =
      .ok (summaryWith investigating) := by
  rfl

theorem done_summary :
    securitySummary sampleReader sampleSorts validChain nextTime doneDb.stored =
      .ok (summaryWith { status := .OPEN }) := by
  rfl

theorem investigated_reported :
    ((∀ recommendation ∈ (summaryWith investigating).recommendations, IsHead recommendation.workflow
        (getSecurityRecommendationWorkflowHistory sampleReader sampleSorts
          investigatedDb.stored recommendation.id)) ∧
      UpdatesReported sampleReader sampleSorts noEnv investigatedDb) ↔
      ∀ recommendation ∈ (summaryWith investigating).recommendations,
        NewestCounts (workflowUpdates sampleSorts investigatedDb.stored recommendation.id) :=
  workflow_head_iff sampleSorts_arranged sampleReader_iso.newDate noEnv investigatedDb validChain nextTime
    investigated_summary

/-- The summary shows `OPEN`, and the history begins with `INVESTIGATING`. -/
theorem done_hides_investigating :
    ¬∀ (N : Node) (sorts : Sorts) (env : Env) (db : AuditDb Unit) (chain : AuditChainVerificationResult)
      (windowStart : JsDate)
        (summary : SecuritySummary), (∀ l, Paging.Arranged Newer (sorts.byTimeAndId l) l) →
      (∀ d : JsDate, N.newDate d.toISOString = some d) →
      securitySummary N sorts chain windowStart db.stored = .ok summary →
        (∀ recommendation ∈ summary.recommendations,
          IsHead recommendation.workflow
            (getSecurityRecommendationWorkflowHistory N sorts db.stored recommendation.id)) ∧
        UpdatesReported N sorts env db := by
  intro h
  obtain ⟨hheads, -⟩ :=
    h sampleReader sampleSorts noEnv doneDb validChain nextTime (summaryWith { status := .OPEN })
    sampleSorts_arranged sampleReader_iso.newDate done_summary
  have hhistory : (getSecurityRecommendationWorkflowHistory sampleReader sampleSorts doneDb.stored
      "dlp-classification-review").map (·.status) = [.INVESTIGATING] := by
    rfl
  have hhead := hheads _ (List.mem_singleton_self _)
  have hempty := hhead.plain.mp rfl
  rw [show getSecurityRecommendationWorkflowHistory sampleReader sampleSorts doneDb.stored
    "dlp-classification-review" = [] from hempty] at hhistory
  cases hhistory

end DocVault
