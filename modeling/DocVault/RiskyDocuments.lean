import DocVault.BehaviorSignals

/-!
# Risky documents

`getRiskyDocuments`: the recent grants of contents, counted for each document,
and the score that the counts give. The score of a document depends on which
events there are and not on their order, and an event more never lowers it.
-/

namespace DocVault

open Filters (DocFilter)

structure RiskBucket where
  documentId : String
  classification : String
  accessCount : Nat
  actors : List String
  downloadCount : Nat
  latestAccessAt : JsDate

structure RiskyDocumentSummary where
  documentId : String
  classification : String
  accessCount : Nat
  actorCount : Nat
  latestAccessAt : String
  riskScore : Nat
  reasons : List String

def classificationWeight (classification : String) : Nat :=
  if classification = "SECRET" then 45
  else if classification = "CONFIDENTIAL" then 30
  else if classification = "INTERNAL" then 10
  else 0

section
variable (N : Node)

/-! ## The loop -/

namespace RiskBucket

def start (event : AuditEvent) : RiskBucket where
  documentId := (extractDocumentId event).getD ""
  classification := extractClassification event.metadata
  accessCount := 0
  actors := []
  downloadCount := 0
  latestAccessAt := toEventDate N event.timestamp

def add (bucket : RiskBucket) (event : AuditEvent) : RiskBucket :=
  let classification := extractClassification event.metadata
  let timestamp := toEventDate N event.timestamp
  { bucket with
    accessCount := bucket.accessCount + 1
    actors := addDocument bucket.actors (truthy (some event.actorId))
    downloadCount := bucket.downloadCount + if event.action = "DOCUMENT_DOWNLOAD_AUTHORIZED" then 1 else 0
    latestAccessAt := if timestamp.ms > bucket.latestAccessAt.ms then timestamp else bucket.latestAccessAt
    classification :=
      if classificationWeight classification > classificationWeight bucket.classification then classification
      else bucket.classification }

end RiskBucket

def riskBuckets (events : List AuditEvent) : List (String × RiskBucket) :=
  Buckets.collect (fun event => (extractDocumentId event).getD "") (RiskBucket.start N) (RiskBucket.add N)
    (events.filter fun event => (extractDocumentId event).isSome)

/-! ## The score of a bucket -/

def buildRiskyDocumentSummary (bucket : RiskBucket) : RiskyDocumentSummary :=
  let actorCount := bucket.actors.length
  let riskScore := min 100 (classificationWeight bucket.classification + min (bucket.accessCount * 8) 30 +
    min ((actorCount - 1) * 10) 20 + min (bucket.downloadCount * 5) 15)
  { documentId := bucket.documentId
    classification := bucket.classification
    accessCount := bucket.accessCount
    actorCount := actorCount
    latestAccessAt := bucket.latestAccessAt.toISOString
    riskScore := riskScore
    reasons :=
      (if classificationWeight bucket.classification > 0 then [bucket.classification ++ " classification"]
        else []) ++
      (if bucket.accessCount ≥ 2 then [s!"{bucket.accessCount} successful preview/download grants"] else []) ++
      (if actorCount ≥ 2 then [s!"{actorCount} distinct actors"] else []) ++
      if bucket.downloadCount > 0 then
        [s!"{bucket.downloadCount} download grant" ++ if bucket.downloadCount = 1 then "" else "s"] else [] }

def riskFilter (windowStart : JsDate) : DocFilter Scalar :=
  .fields [("action", .among (AUTHORIZED_CONTENT_ACTIONS.map .text)), ("result", .eq (.text "SUCCESS")),
    ("timestamp", .range (some (.date windowStart)) none)]

-- `b.riskScore - a.riskScore`, then the latest access first.
def riskierDocument (a b : RiskyDocumentSummary) : Bool :=
  if a.riskScore ≠ b.riskScore then a.riskScore ≥ b.riskScore
  else ((N.newDate b.latestAccessAt).map (·.ms)).getD 0 ≤ ((N.newDate a.latestAccessAt).map (·.ms)).getD 0

/-- The events that are loaded; `sort` is what the database makes of `sort({ timestamp: -1 })`. -/
def riskEvents (sort : List AuditEvent → List AuditEvent) (windowStart : JsDate) (events : List AuditEvent) :
    List AuditEvent :=
  (sort (events.filter (matchesFilter (riskFilter windowStart)))).take 500

def getRiskyDocuments (sort : List AuditEvent → List AuditEvent) (windowStart : JsDate) (events : List AuditEvent) :
    List RiskyDocumentSummary :=
  ((((riskBuckets N (riskEvents sort windowStart events)).map fun row => buildRiskyDocumentSummary row.2).filter
    fun document => document.riskScore > 0).insertionSort fun a b => riskierDocument N a b).take 5

end

/-! ## What a bucket knows of its events -/

structure RiskOf (events : List AuditEvent) (bucket : RiskBucket) : Prop where
  accesses : bucket.accessCount = events.length
  downloads : bucket.downloadCount = events.countP fun event => event.action = "DOCUMENT_DOWNLOAD_AUTHORIZED"
  nodup : bucket.actors.Nodup
  actors : ∀ actorId, actorId ∈ bucket.actors ↔ actorId ≠ "" ∧ ∃ event ∈ events, event.actorId = actorId
  weight : ∀ w, classificationWeight bucket.classification ≤ w ↔
    ∀ event ∈ events, classificationWeight (extractClassification event.metadata) ≤ w

/-- No measure of the first bucket is above that of the second. -/
structure RiskAtMost (a b : RiskBucket) : Prop where
  score : (buildRiskyDocumentSummary a).riskScore ≤ (buildRiskyDocumentSummary b).riskScore
  accesses : a.accessCount ≤ b.accessCount
  actors : a.actors.length ≤ b.actors.length
  downloads : a.downloadCount ≤ b.downloadCount

section
variable {N : Node} {bucket bucket' : RiskBucket} {events events' : List AuditEvent} {event : AuditEvent}

theorem truthy_eq_some {text id : String} : truthy (some text) = some id ↔ id ≠ "" ∧ text = id := by
  rw [truthy, Option.filter_eq_some_iff, Option.some.injEq, and_comm, decide_eq_true_eq]

theorem mem_addDocument {documents : List String} {id : Option String} {d : String} :
    d ∈ addDocument documents id ↔ d ∈ documents ∨ id = some d := by
  cases id with
  | none => simp [addDocument]
  | some id => simp [addDocument, List.mem_insert_iff, or_comm, eq_comm]

theorem nodup_addDocument {documents : List String} (h : documents.Nodup) (id : Option String) :
    (addDocument documents id).Nodup := by
  cases id with
  | none => exact h
  | some id => exact h.insert

theorem heavier_weight (a b : String) :
    classificationWeight (if classificationWeight b > classificationWeight a then b else a) =
      max (classificationWeight a) (classificationWeight b) := by
  by_cases h : classificationWeight b > classificationWeight a
  · rw [if_pos h, Nat.max_eq_right (Nat.le_of_lt h)]
  · rw [if_neg h, Nat.max_eq_left (Nat.le_of_not_lt h)]

theorem weight_add (bucket : RiskBucket) (event : AuditEvent) :
    classificationWeight (bucket.add N event).classification =
      max (classificationWeight bucket.classification)
        (classificationWeight (extractClassification event.metadata)) := by
  simp only [RiskBucket.add, heavier_weight]

theorem documentId_add (bucket : RiskBucket) (event : AuditEvent) :
    (bucket.add N event).documentId = bucket.documentId := by
  simp only [RiskBucket.add]

theorem RiskOf.add (h : RiskOf events bucket) (event : AuditEvent) :
    RiskOf (events ++ [event]) (bucket.add N event) where
  accesses := by simp [RiskBucket.add, h.accesses]
  downloads := by simp [RiskBucket.add, h.downloads, List.countP_append, List.countP_singleton]
  nodup := nodup_addDocument h.nodup _
  actors actorId := by
    simp only [RiskBucket.add, mem_addDocument, h.actors, truthy_eq_some, ← and_or_left, List.mem_append,
      List.mem_singleton, or_and_right, exists_or, exists_eq_left]
  weight w := by
    rw [weight_add, Nat.max_le, h.weight]
    simp [or_imp, forall_and]

theorem RiskOf.foldl (h : RiskOf events bucket) (rest : List AuditEvent) :
    RiskOf (events ++ rest) (rest.foldl (RiskBucket.add N) bucket) := by
  induction rest generalizing events bucket with
  | nil => simpa using h
  | cons event rest ih =>
    rw [List.append_cons, List.foldl_cons]
    exact ih (h.add event)

/-- A bucket starts with the label of its first event, and the event is counted as any other. -/
theorem riskOf_first (event : AuditEvent) : RiskOf [event] ((RiskBucket.start N event).add N event) where
  accesses := rfl
  downloads := by simp [RiskBucket.add, RiskBucket.start, List.countP_singleton]
  nodup := nodup_addDocument List.nodup_nil _
  actors actorId := by
    simp only [RiskBucket.add, RiskBucket.start, mem_addDocument, truthy_eq_some, List.not_mem_nil, false_or,
      List.mem_singleton, exists_eq_left]
  weight w := by
    rw [weight_add, RiskBucket.start, Nat.max_self]
    simp

/-- More events of a document, in whatever order, lower no measure. -/
theorem RiskOf.atMost (h : RiskOf events bucket) (h' : RiskOf events' bucket') (hsub : events.Subperm events') :
    RiskAtMost bucket bucket' := by
  have haccess : bucket.accessCount ≤ bucket'.accessCount := by
    rw [h.accesses, h'.accesses]
    exact hsub.length_le
  have hdownload : bucket.downloadCount ≤ bucket'.downloadCount := by
    rw [h.downloads, h'.downloads]
    exact hsub.countP_le _
  have hactors : bucket.actors.length ≤ bucket'.actors.length := by
    refine (List.subperm_of_subset h.nodup fun actorId hin => ?_).length_le
    obtain ⟨hne, event, hevent, hid⟩ := (h.actors actorId).mp hin
    exact (h'.actors actorId).mpr ⟨hne, event, hsub.subset hevent, hid⟩
  have hweight : classificationWeight bucket.classification ≤ classificationWeight bucket'.classification :=
    (h.weight _).mpr fun event hevent => (h'.weight _).mp le_rfl event (hsub.subset hevent)
  refine ⟨?_, haccess, hactors, hdownload⟩
  have haccessScore : min (bucket.accessCount * 8) 30 ≤ min (bucket'.accessCount * 8) 30 := by omega
  have hactorScore : min ((bucket.actors.length - 1) * 10) 20 ≤
    min ((bucket'.actors.length - 1) * 10) 20 := by omega
  have hdownloadScore : min (bucket.downloadCount * 5) 15 ≤ min (bucket'.downloadCount * 5) 15 := by omega
  have hsum := Nat.add_le_add (Nat.add_le_add (Nat.add_le_add hweight haccessScore) hactorScore) hdownloadScore
  exact Nat.le_min.mpr ⟨Nat.min_le_left _ _, (Nat.min_le_right _ _).trans hsum⟩

/-! ## The bucket of a document -/

def riskBucket (N : Node) (events : List AuditEvent) (documentId : String) : Option RiskBucket :=
  (riskBuckets N events).lookup documentId

def eventsOfDocument (events : List AuditEvent) (documentId : String) : List AuditEvent :=
  events.filter fun event => extractDocumentId event = some documentId

theorem riskBucket_eq (events : List AuditEvent) (documentId : String) : riskBucket N events documentId =
    Buckets.total (RiskBucket.start N) (RiskBucket.add N) (eventsOfDocument events documentId) := by
  unfold riskBucket riskBuckets
  rw [(Buckets.collect_holds _).lookup, List.filter_filter]
  congr 1
  refine List.filter_congr fun event _ => ?_
  cases extractDocumentId event <;> simp

theorem riskOf_bucket {documentId : String} (h : riskBucket N events documentId = some bucket) :
    RiskOf (eventsOfDocument events documentId) bucket := by
  rw [riskBucket_eq] at h
  cases hevents : eventsOfDocument events documentId with
  | nil =>
    rw [hevents] at h
    nomatch h
  | cons event rest =>
    rw [hevents] at h
    obtain rfl := Option.some.inj h
    rw [List.foldl_cons, ← List.singleton_append]
    exact (riskOf_first event).foldl rest

theorem riskBucket_eq_none {documentId : String} :
    riskBucket N events documentId = none ↔ eventsOfDocument events documentId = [] := by
  rw [riskBucket_eq]
  cases eventsOfDocument events documentId with
  | nil => simp [Buckets.total]
  | cons event rest => simp [Buckets.total]

theorem RiskAtMost.score_eq (h : RiskAtMost bucket bucket') (h' : RiskAtMost bucket' bucket) :
    (buildRiskyDocumentSummary bucket).riskScore = (buildRiskyDocumentSummary bucket').riskScore :=
  Nat.le_antisymm h.score h'.score

theorem riskBucket_atMost {documentId : String} (hsub : events.Subperm events')
    (h : riskBucket N events documentId = some bucket) :
    ∃ bucket', riskBucket N events' documentId = some bucket' ∧ RiskAtMost bucket bucket' := by
  have hown : (eventsOfDocument events documentId).Subperm (eventsOfDocument events' documentId) := hsub.filter _
  cases h' : riskBucket N events' documentId with
  | none =>
    rw [riskBucket_eq_none] at h'
    rw [h', List.subperm_nil] at hown
    rw [riskBucket_eq_none.mpr hown] at h
    nomatch h
  | some bucket' => exact ⟨bucket', rfl, (riskOf_bucket h).atMost (riskOf_bucket h') hown⟩

theorem foldl_documentId (rest : List AuditEvent) :
    (rest.foldl (RiskBucket.add N) bucket).documentId = bucket.documentId := by
  induction rest generalizing bucket with
  | nil => rfl
  | cons event rest ih =>
    rw [List.foldl_cons, ih, documentId_add]

theorem riskBucket_documentId {documentId : String} (h : riskBucket N events documentId = some bucket) :
    bucket.documentId = documentId := by
  rw [riskBucket_eq] at h
  obtain ⟨event, hevent, rfl⟩ := Buckets.total_mem h
  have hid : extractDocumentId event = some documentId := of_decide_eq_true (List.mem_filter.mp hevent).2
  rw [foldl_documentId, RiskBucket.start, hid]
  rfl

/-- What `getRiskyDocuments` shows of a document is read off its bucket. -/
theorem mem_getRiskyDocuments {sort : List AuditEvent → List AuditEvent} {windowStart : JsDate}
    {summary : RiskyDocumentSummary} (h : summary ∈ getRiskyDocuments N sort windowStart events) :
    ∃ bucket, riskBucket N (riskEvents sort windowStart events) summary.documentId = some bucket ∧
      summary = buildRiskyDocumentSummary bucket ∧ 0 < summary.riskScore := by
  have hmem := List.mem_of_mem_take h
  rw [List.mem_insertionSort, List.mem_filter, List.mem_map] at hmem
  obtain ⟨⟨row, hrow, rfl⟩, hscore⟩ := hmem
  have hholds : Buckets.Holds (fun event => (extractDocumentId event).getD "") (RiskBucket.start N)
    (RiskBucket.add N) _ _ :=
    Buckets.collect_holds ((riskEvents sort windowStart events).filter fun event =>
      (extractDocumentId event).isSome)
  have hlookup : riskBucket N (riskEvents sort windowStart events) row.1 = some row.2 :=
    (hholds.lookup row.1).trans ((hholds.totals row.1 row.2).mp hrow)
  refine ⟨row.2, ?_, rfl, of_decide_eq_true hscore⟩
  rw [buildRiskyDocumentSummary, riskBucket_documentId hlookup]
  exact hlookup

end

/-- The measures of a document among some events. -/
structure RiskScored (N : Node) (events : List AuditEvent) (documentId : String) : Prop where
  bounded : ∀ bucket, riskBucket N events documentId = some bucket →
    (buildRiskyDocumentSummary bucket).riskScore ≤ 100
  orderFree : ∀ events', events.Perm events' →
    (riskBucket N events' documentId).map (fun bucket => (buildRiskyDocumentSummary bucket).riskScore) =
      (riskBucket N events documentId).map fun bucket => (buildRiskyDocumentSummary bucket).riskScore
  monotone : ∀ before event after, events = before ++ after → extractDocumentId event = some documentId →
    ∃ bucket', riskBucket N (before ++ event :: after) documentId = some bucket' ∧
      ∀ bucket, riskBucket N events documentId = some bucket → RiskAtMost bucket bucket'

theorem risk_scored (N : Node) (events : List AuditEvent) (documentId : String) :
    RiskScored N events documentId where
  bounded bucket _ := Nat.min_le_left _ _
  orderFree events' hperm := by
    cases h : riskBucket N events documentId with
    | none =>
      have hnil : eventsOfDocument events' documentId = [] :=
        ((hperm.filter _).symm.trans (riskBucket_eq_none.mp h ▸ .refl _)).eq_nil
      rw [riskBucket_eq_none.mpr hnil]
    | some bucket =>
      obtain ⟨bucket', h', hle⟩ := riskBucket_atMost hperm.subperm h
      obtain ⟨bucket'', h'', hge⟩ := riskBucket_atMost hperm.symm.subperm h'
      obtain rfl := Option.some.inj (h.symm.trans h'')
      rw [h', Option.map_some, Option.map_some, hge.score_eq hle]
  monotone before event after hevents hid := by
    subst hevents
    have hsub : (before ++ after).Subperm (before ++ event :: after) :=
      ((List.sublist_cons_self event after).append_left before).subperm
    cases h' : riskBucket N (before ++ event :: after) documentId with
    | none =>
      have hmem : event ∈ eventsOfDocument (before ++ event :: after) documentId :=
        List.mem_filter.mpr ⟨by simp, decide_eq_true hid⟩
      rw [riskBucket_eq_none.mp h'] at hmem
      nomatch hmem
    | some bucket' =>
      refine ⟨bucket', rfl, fun bucket h => ?_⟩
      obtain ⟨bucket'', h'', hle⟩ := riskBucket_atMost hsub h
      rwa [Option.some.inj (h'.symm.trans h'')]

end DocVault
