import DocVault.AuditChainSound
import DocVault.Filters

/-!
# Audit queries

`QueryAuditDto`, and the filter that `AuditService.query` builds from it:
criteria set keys of the filter or add scopes to it. What the filter accepts is
the conjunction of the criteria.
-/

namespace DocVault

open Filters (DocFilter Test)

inductive AuditActionGroup where
  | AUTHORIZED_CONTENT_ACCESS
  | DESTRUCTIVE_ACTIVITY
  deriving DecidableEq

structure QueryAuditDto where
  actorId : Option String := none
  action : Option String := none
  actionGroup : Option AuditActionGroup := none
  resourceType : Option String := none
  resourceId : Option String := none
  documentId : Option String := none
  aclId : Option String := none
  recommendationId : Option String := none
  result : Option String := none
  from_ : Option String := none
  to_ : Option String := none
  page : Option Nat := none
  pageSize : Option Nat := none
  limit : Option Nat := none
  excludeActions : Option (List String) := none

def AUTHORIZED_CONTENT_ACTIONS : List String := ["DOCUMENT_DOWNLOAD_AUTHORIZED", "DOCUMENT_PREVIEW_AUTHORIZED"]

def DESTRUCTIVE_ACTIVITY_ACTIONS : List String :=
  ["DOCUMENT_ACL_DELETED", "DOCUMENT_ARCHIVE", "DOCUMENT_AUTO_ARCHIVED"]

def AUDIT_ACTION_GROUP_ACTIONS : AuditActionGroup → List String
  | .AUTHORIZED_CONTENT_ACCESS => AUTHORIZED_CONTENT_ACTIONS
  | .DESTRUCTIVE_ACTIVITY => DESTRUCTIVE_ACTIVITY_ACTIONS

/-! ## Events as documents -/

inductive Scalar where
  | text (s : String)
  | date (d : JsDate)
  deriving DecidableEq

-- Values of different types do not compare.
def Scalar.le : Scalar → Scalar → Bool
  | text a, text b => a ≤ b
  | date a, date b => a.ms ≤ b.ms
  | _, _ => false

def Scalar.ofOption (s : Option String) : List Scalar := (s.map Scalar.text).toList

-- A path that ends in an array also reaches its elements.
def reachedBy : Json → List Scalar
  | .str s => [.text s]
  | .arr l => l.filterMap fun
    | .str s => some (.text s)
    | _ => none
  | _ => []

def metadataValues (event : AuditEvent) (key : String) : List Scalar :=
  ((event.metadata.bind (·.lookup key)).map reachedBy).getD []

def Stamp.values : Stamp → List Scalar
  | missing => []
  | date d => [.date d]
  | text s => [.text s]

def auditDoc (event : AuditEvent) : Filters.Doc Scalar
  | "eventId" => Scalar.ofOption event.eventId
  | "timestamp" => event.timestamp.values
  | "actorId" => [.text event.actorId]
  | "action" => [.text event.action]
  | "resourceType" => [.text event.resourceType]
  | "resourceId" => Scalar.ofOption event.resourceId
  | "result" => [.text event.result]
  | "metadata.docId" => metadataValues event "docId"
  | "metadata.aclId" => metadataValues event "aclId"
  | "metadata.removedAclId" => metadataValues event "removedAclId"
  | "metadata.recommendationId" => metadataValues event "recommendationId"
  | _ => []

/-- What the filters of this service find at a path. -/
theorem auditDoc_paths (event : AuditEvent) :
    auditDoc event "timestamp" = event.timestamp.values ∧ auditDoc event "actorId" = [.text event.actorId] ∧
      auditDoc event "action" = [.text event.action] ∧ auditDoc event "resourceType" = [.text event.resourceType] ∧
      auditDoc event "resourceId" = Scalar.ofOption event.resourceId ∧
      auditDoc event "result" = [.text event.result] ∧
      auditDoc event "metadata.docId" = metadataValues event "docId" ∧
      auditDoc event "metadata.aclId" = metadataValues event "aclId" ∧
      auditDoc event "metadata.removedAclId" = metadataValues event "removedAclId" ∧
      auditDoc event "metadata.recommendationId" = metadataValues event "recommendationId" :=
  ⟨rfl, rfl, rfl, rfl, rfl, rfl, rfl, rfl, rfl, rfl⟩

def matchesFilter (filter : DocFilter Scalar) (event : AuditEvent) : Bool :=
  filter.accepts Scalar.le (auditDoc event)

/-! ## query -/

def addAuditScope (filter scope : DocFilter Scalar) : DocFilter Scalar :=
  match filter with
  | .mk fields (some and) or => .mk fields (some (and ++ [scope])) or
  | .mk fields none (some or) => .mk fields (some [.either or, scope]) none
  | .mk fields none none => .mk fields (some [scope]) none

-- `if (value)`: the empty string is no value.
def truthy (value : Option String) : Option String := value.filter (· ≠ "")

def assign (key : String) (value : Option String) (filter : DocFilter Scalar) : DocFilter Scalar :=
  match truthy value with
  | some v => filter.set key (.eq (.text v))
  | none => filter

def withScope {α : Type} (value : Option α) (scope : α → DocFilter Scalar) (filter : DocFilter Scalar) :
    DocFilter Scalar :=
  match value with
  | some v => addAuditScope filter (scope v)
  | none => filter

def groupScope (group : AuditActionGroup) : DocFilter Scalar :=
  .field "action" (.among ((AUDIT_ACTION_GROUP_ACTIONS group).map .text))

def documentScope (documentId : String) : DocFilter Scalar :=
  .either [.fields [("resourceType", .eq (.text "DOCUMENT")), ("resourceId", .eq (.text documentId))],
    .field "metadata.docId" (.eq (.text documentId))]

def withDocument (documentId : Option String) (filter : DocFilter Scalar) : DocFilter Scalar :=
  match truthy documentId with
  | some id => if filter.isEmpty then documentScope id else addAuditScope filter (documentScope id)
  | none => filter

def aclScope (aclId : String) : DocFilter Scalar :=
  .either [.field "metadata.aclId" (.eq (.text aclId)), .field "metadata.removedAclId" (.eq (.text aclId))]

def recommendationScope (recommendationId : String) : DocFilter Scalar :=
  .either [
    .fields [("resourceType", .eq (.text "SECURITY_RECOMMENDATION")), ("resourceId", .eq (.text recommendationId))],
    .field "metadata.recommendationId" (.eq (.text recommendationId))]

def excludeScope (actions : List String) : DocFilter Scalar := .field "action" (.notAmong (actions.map .text))

/-- The filter up to `recommendationId`. -/
def scopesFilter (dto : QueryAuditDto) : DocFilter Scalar :=
  let filter := assign "actorId" dto.actorId .empty
  let filter := assign "action" dto.action filter
  let filter := withScope dto.actionGroup groupScope filter
  let filter := assign "resourceType" dto.resourceType filter
  let filter := assign "resourceId" dto.resourceId filter
  let filter := assign "result" dto.result filter
  let filter := withDocument dto.documentId filter
  let filter := withScope (truthy dto.aclId) aclScope filter
  withScope (truthy dto.recommendationId) recommendationScope filter

section
variable (N : Node)

-- The database refuses a filter with an invalid date.
def dateOf : Option String → Except AuditError (Option Scalar)
  | none => .ok none
  | some text =>
    match N.newDate text with
    | some d => .ok (some (.date d))
    | none => .error .store

def queryFilter (dto : QueryAuditDto) : Except AuditError (DocFilter Scalar) := do
  let gte ← dateOf N (truthy dto.from_)
  let lte ← dateOf N (truthy dto.to_)
  let filter := scopesFilter dto
  let filter := if gte.isSome || lte.isSome then filter.set "timestamp" (.range gte lte) else filter
  pure (withScope (dto.excludeActions.filter (· ≠ [])) excludeScope filter)

/-! ## What the criteria mean -/

/-- The key of the metadata holds the text, or a list with it. -/
def AuditEvent.carries (event : AuditEvent) (key text : String) : Prop :=
  Scalar.text text ∈ metadataValues event key

structure SatisfiesScopes (dto : QueryAuditDto) (event : AuditEvent) : Prop where
  actorId : ∀ v, dto.actorId = some v → event.actorId = v
  action : ∀ v, dto.action = some v → event.action = v
  actionGroup : ∀ group, dto.actionGroup = some group → event.action ∈ AUDIT_ACTION_GROUP_ACTIONS group
  resourceType : ∀ v, dto.resourceType = some v → event.resourceType = v
  resourceId : ∀ v, dto.resourceId = some v → event.resourceId = some v
  result : ∀ v, dto.result = some v → event.result = v
  documentId : ∀ v, dto.documentId = some v →
    (event.resourceType = "DOCUMENT" ∧ event.resourceId = some v) ∨ event.carries "docId" v
  aclId : ∀ v, dto.aclId = some v → event.carries "aclId" v ∨ event.carries "removedAclId" v
  recommendationId : ∀ v, dto.recommendationId = some v →
    (event.resourceType = "SECURITY_RECOMMENDATION" ∧ event.resourceId = some v) ∨
    event.carries "recommendationId" v

/-- The event satisfies every criterion of the query. -/
structure Satisfies (dto : QueryAuditDto) (event : AuditEvent) : Prop extends SatisfiesScopes dto event where
  from_ : ∀ v, dto.from_ = some v → ∃ d t, N.newDate v = some d ∧ event.timestamp = .date t ∧ d.ms ≤ t.ms
  to_ : ∀ v, dto.to_ = some v → ∃ d t, N.newDate v = some d ∧ event.timestamp = .date t ∧ t.ms ≤ d.ms
  excludeActions : ∀ actions, dto.excludeActions = some actions → event.action ∉ actions

/-- The query without its empty texts. -/
def QueryAuditDto.nonBlank (dto : QueryAuditDto) : QueryAuditDto :=
  { dto with
    actorId := truthy dto.actorId
    action := truthy dto.action
    resourceType := truthy dto.resourceType
    resourceId := truthy dto.resourceId
    documentId := truthy dto.documentId
    aclId := truthy dto.aclId
    recommendationId := truthy dto.recommendationId
    result := truthy dto.result
    from_ := truthy dto.from_
    to_ := truthy dto.to_ }

end

/-! ## The filter, criterion by criterion -/

/-- The filter has set no keys but these, and accepts the events that `P` tells. -/
structure Builds (filter : DocFilter Scalar) (keys : List String) (P : AuditEvent → Prop) : Prop where
  keys : ∀ k ∈ filter.keys, k ∈ keys
  accepts : ∀ event, matchesFilter filter event = true ↔ P event

section
variable {filter : DocFilter Scalar} {keys : List String} {P : AuditEvent → Prop}

theorem builds_empty : Builds .empty [] fun _ => True where
  keys k h := h
  accepts event := by simp [matchesFilter]

theorem addAuditScope_keys (filter scope : DocFilter Scalar) : (addAuditScope filter scope).keys = filter.keys := by
  obtain ⟨fields, and, or⟩ := filter
  cases and with
  | some and => rfl
  | none => cases or <;> rfl

theorem addAuditScope_accepts (filter scope : DocFilter Scalar) (event : AuditEvent) :
    matchesFilter (addAuditScope filter scope) event = true ↔
      matchesFilter filter event = true ∧ matchesFilter scope event = true := by
  unfold matchesFilter
  obtain ⟨fields, and, or⟩ := filter
  cases and with
  | some and =>
    simp only [addAuditScope, Filters.accepts_mk, Option.some.injEq, forall_eq', List.forall_mem_append,
      List.forall_mem_singleton]
    constructor
    · intro h
      obtain ⟨hf, ⟨ha, hs⟩, ho⟩ := h
      exact ⟨⟨hf, ha, ho⟩, hs⟩
    · intro h
      obtain ⟨⟨hf, ha, ho⟩, hs⟩ := h
      exact ⟨hf, ⟨ha, hs⟩, ho⟩
  | none =>
    cases or with
    | none => simp [addAuditScope, Filters.accepts_mk]
    | some or =>
      -- the `$or` of the filter has moved into its `$and`
      simp only [addAuditScope, Filters.accepts_mk, Option.some.injEq, forall_eq', List.forall_mem_cons,
        Filters.accepts_either, reduceCtorEq, false_implies, implies_true, and_true, true_and, List.not_mem_nil]
      exact and_assoc.symm

theorem Builds.assign (h : Builds filter keys P) {key : String} (hk : key ∉ keys) (value : Option String) :
    Builds (assign key value filter) (key :: keys) fun event =>
      P event ∧ ∀ v, truthy value = some v → Scalar.text v ∈ auditDoc event key := by
  unfold DocVault.assign
  cases truthy value with
  | none => exact ⟨fun k hk => List.mem_cons_of_mem _ (h.keys k hk), fun event => by simp [h.accepts event]⟩
  | some v =>
    refine ⟨fun k hkey => ?_, fun event => ?_⟩
    · rcases Filters.keys_set hkey with rfl | hkey
      · exact List.mem_cons_self
      · exact List.mem_cons_of_mem _ (h.keys k hkey)
    · rw [matchesFilter, Filters.accepts_set (fun hin => hk (h.keys key hin))]
      simp only [Option.some.injEq, forall_eq', Test.accepts, decide_eq_true_eq]
      exact and_congr_left fun _ => h.accepts event

theorem Builds.withScope {α : Type} {scope : α → DocFilter Scalar} {Q : α → AuditEvent → Prop}
    (h : Builds filter keys P)
    (hs : ∀ v event, matchesFilter (scope v) event = true ↔ Q v event) (value : Option α) :
    Builds (withScope value scope filter) keys fun event => P event ∧ ∀ v, value = some v → Q v event := by
  cases value with
  | none => exact ⟨h.keys, fun event => by simp [DocVault.withScope, h.accepts event]⟩
  | some v =>
    refine ⟨fun k hk => h.keys k ?_, fun event => ?_⟩
    · rwa [DocVault.withScope, addAuditScope_keys] at hk
    · rw [DocVault.withScope, addAuditScope_accepts, h.accepts, hs]
      simp

@[simp] theorem mem_ofOption {v : String} {s : Option String} : Scalar.text v ∈ Scalar.ofOption s ↔ s = some v := by
  simp [Scalar.ofOption]

theorem groupScope_accepts (group : AuditActionGroup) (event : AuditEvent) :
    matchesFilter (groupScope group) event = true ↔ event.action ∈ AUDIT_ACTION_GROUP_ACTIONS group := by
  simp [matchesFilter, groupScope, Test.accepts, auditDoc_paths event]

theorem documentScope_accepts (documentId : String) (event : AuditEvent) :
    matchesFilter (documentScope documentId) event = true ↔
      (event.resourceType = "DOCUMENT" ∧ event.resourceId = some documentId) ∨
      event.carries "docId" documentId := by
  simp [matchesFilter, documentScope, Test.accepts, auditDoc_paths event, AuditEvent.carries,
    eq_comm (b := event.resourceType)]

theorem aclScope_accepts (aclId : String) (event : AuditEvent) :
    matchesFilter (aclScope aclId) event = true ↔
    event.carries "aclId" aclId ∨ event.carries "removedAclId" aclId := by
  simp [matchesFilter, aclScope, Test.accepts, auditDoc_paths event, AuditEvent.carries]

theorem recommendationScope_accepts (recommendationId : String) (event : AuditEvent) :
    matchesFilter (recommendationScope recommendationId) event = true ↔
      (event.resourceType = "SECURITY_RECOMMENDATION" ∧ event.resourceId = some recommendationId) ∨
        event.carries "recommendationId" recommendationId := by
  simp [matchesFilter, recommendationScope, Test.accepts, auditDoc_paths event, AuditEvent.carries,
    eq_comm (b := event.resourceType)]

theorem excludeScope_accepts (actions : List String) (event : AuditEvent) :
    matchesFilter (excludeScope actions) event = true ↔ event.action ∉ actions := by
  simp [matchesFilter, excludeScope, Test.accepts, auditDoc_paths event]

theorem isEmpty_eq (h : filter.isEmpty = true) : filter = .empty := by
  obtain ⟨fields, and, or⟩ := filter
  cases fields <;> cases and <;> cases or <;> first | rfl | cases h

theorem Builds.withDocument (h : Builds filter keys P) (documentId : Option String) :
    Builds (withDocument documentId filter) keys fun event => P event ∧ ∀ v, truthy documentId = some v →
      (event.resourceType = "DOCUMENT" ∧ event.resourceId = some v) ∨ event.carries "docId" v := by
  have hscope : Builds (DocVault.withScope (truthy documentId) documentScope filter) keys fun event =>
      P event ∧ ∀ v, truthy documentId = some v →
        (event.resourceType = "DOCUMENT" ∧ event.resourceId = some v) ∨ event.carries "docId" v :=
    h.withScope documentScope_accepts (truthy documentId)
  unfold DocVault.withDocument
  unfold DocVault.withScope at hscope
  cases hv : truthy documentId with
  | none =>
    rw [hv] at hscope
    exact hscope
  | some v =>
    rw [hv] at hscope
    by_cases he : filter.isEmpty = true
    · obtain rfl := isEmpty_eq he
      have hall : ∀ event, P event := fun event => (h.accepts event).mp (by simp [matchesFilter])
      refine ⟨fun k hk => absurd hk List.not_mem_nil, fun event => ?_⟩
      simp only [if_pos he, documentScope_accepts, hall event, true_and, Option.some.injEq, forall_eq']
    · simpa only [if_neg he] using hscope

/-! ## The conjunction -/

theorem builds_scopes (dto : QueryAuditDto) :
    Builds (scopesFilter dto) ["result", "resourceId", "resourceType", "action", "actorId"]
      (SatisfiesScopes dto.nonBlank) := by
  have hactor := builds_empty.assign (List.not_mem_nil : "actorId" ∉ []) dto.actorId
  have haction := hactor.assign (by decide : "action" ∉ ["actorId"]) dto.action
  have hgroup := haction.withScope groupScope_accepts dto.actionGroup
  have htype := hgroup.assign (by decide : "resourceType" ∉ ["action", "actorId"]) dto.resourceType
  have hid := htype.assign (by decide : "resourceId" ∉ ["resourceType", "action", "actorId"]) dto.resourceId
  have hresult := hid.assign (by decide : "result" ∉ ["resourceId", "resourceType", "action", "actorId"]) dto.result
  have hdocument := hresult.withDocument dto.documentId
  have hacl := hdocument.withScope aclScope_accepts (truthy dto.aclId)
  have hall := hacl.withScope recommendationScope_accepts (truthy dto.recommendationId)
  refine ⟨hall.keys, fun event => (hall.accepts event).trans ?_⟩
  simp only [auditDoc_paths event, List.mem_singleton, Scalar.text.injEq, mem_ofOption, true_and]
  constructor
  · intro ⟨⟨⟨⟨⟨⟨⟨⟨h1, h2⟩, h3⟩, h4⟩, h5⟩, h6⟩, h7⟩, h8⟩, h9⟩
    exact ⟨fun v hv => (h1 v hv).symm, fun v hv => (h2 v hv).symm, h3, fun v hv => (h4 v hv).symm, h5,
      fun v hv => (h6 v hv).symm, h7, h8, h9⟩
  · intro h
    exact ⟨⟨⟨⟨⟨⟨⟨⟨fun v hv => (h.actorId v hv).symm, fun v hv => (h.action v hv).symm⟩, h.actionGroup⟩,
      fun v hv => (h.resourceType v hv).symm⟩, h.resourceId⟩, fun v hv => (h.result v hv).symm⟩,
        h.documentId⟩, h.aclId⟩,
      h.recommendationId⟩

variable {N : Node}

theorem dateOf_ok {value : Option String} {bound : Option Scalar} (h : dateOf N value = .ok bound) :
    (value = none ∧ bound = none) ∨ ∃ v d, value = some v ∧ N.newDate v = some d ∧ bound = some (.date d) := by
  cases value with
  | none => exact .inl ⟨rfl, (Except.ok.inj h).symm⟩
  | some v =>
    simp only [dateOf] at h
    split at h
    · rename_i d hd
      exact .inr ⟨v, d, rfl, hd, (Except.ok.inj h).symm⟩
    · cases h

theorem dateOf_error {value : Option String} {e : AuditError} (h : dateOf N value = .error e) :
    e = .store ∧ ∃ v, value = some v ∧ N.newDate v = none := by
  cases value with
  | none => cases h
  | some v =>
    simp only [dateOf] at h
    split at h
    · cases h
    · rename_i hd
      exact ⟨(Except.error.inj h).symm, v, rfl, hd⟩

theorem le_date {x : Scalar} {d : JsDate} : Scalar.le (.date d) x = true ↔ ∃ t, x = .date t ∧ d.ms ≤ t.ms := by
  cases x <;> simp [Scalar.le]

theorem date_le {x : Scalar} {d : JsDate} : Scalar.le x (.date d) = true ↔ ∃ t, x = .date t ∧ t.ms ≤ d.ms := by
  cases x <;> simp [Scalar.le]

theorem mem_values {stamp : Stamp} {t : JsDate} : Scalar.date t ∈ stamp.values ↔ stamp = .date t := by
  cases stamp <;> simp [Stamp.values, eq_comm]

/-- The bounds of the filter are the bounds of the query. -/
theorem range_accepts {dto : QueryAuditDto} {gte lte : Option Scalar} (hg : dateOf N dto.from_ = .ok gte)
    (hl : dateOf N dto.to_ = .ok lte) (event : AuditEvent) :
    (Test.range gte lte).accepts Scalar.le (auditDoc event "timestamp") = true ↔
      (∀ v, dto.from_ = some v → ∃ d t, N.newDate v = some d ∧ event.timestamp = .date t ∧ d.ms ≤ t.ms) ∧
        ∀ v, dto.to_ = some v → ∃ d t, N.newDate v = some d ∧ event.timestamp = .date t ∧ t.ms ≤ d.ms := by
  have hgte : (gte.all fun a => (auditDoc event "timestamp").any fun v => Scalar.le a v) = true ↔
      ∀ v, dto.from_ = some v → ∃ d t, N.newDate v = some d ∧ event.timestamp = .date t ∧ d.ms ≤ t.ms := by
    rcases dateOf_ok hg with ⟨hv, rfl⟩ | ⟨v, d, hv, hd, rfl⟩
    · simp [hv]
    · simp only [hv, Option.all_some, List.any_eq_true, le_date, auditDoc_paths event,
        Option.some.injEq, forall_eq', hd]
      constructor
      · intro ⟨x, hx, t, ht, hle⟩
        rw [ht] at hx
        exact ⟨d, t, rfl, mem_values.mp hx, hle⟩
      · intro ⟨_, t, rfl, ht, hle⟩
        exact ⟨.date t, mem_values.mpr ht, t, rfl, hle⟩
  have hlte : (lte.all fun b => (auditDoc event "timestamp").any fun v => Scalar.le v b) = true ↔
      ∀ v, dto.to_ = some v → ∃ d t, N.newDate v = some d ∧ event.timestamp = .date t ∧ t.ms ≤ d.ms := by
    rcases dateOf_ok hl with ⟨hv, rfl⟩ | ⟨v, d, hv, hd, rfl⟩
    · simp [hv]
    · simp only [hv, Option.all_some, List.any_eq_true, date_le, auditDoc_paths event,
        Option.some.injEq, forall_eq', hd]
      constructor
      · intro ⟨x, hx, t, ht, hle⟩
        rw [ht] at hx
        exact ⟨d, t, rfl, mem_values.mp hx, hle⟩
      · intro ⟨_, t, rfl, ht, hle⟩
        exact ⟨.date t, mem_values.mpr ht, t, rfl, hle⟩
  rw [Test.accepts, Bool.and_eq_true, hgte, hlte]

theorem builds_query {dto : QueryAuditDto} {built : DocFilter Scalar} (h : queryFilter N dto = .ok built)
    (event : AuditEvent) : matchesFilter built event = true ↔ Satisfies N dto.nonBlank event := by
  unfold queryFilter at h
  cases hg : dateOf N (truthy dto.from_) with
  | error e => rw [hg] at h; cases h
  | ok gte =>
    cases hl : dateOf N (truthy dto.to_) with
    | error e => rw [hg, hl] at h; cases h
    | ok lte =>
      rw [hg, hl] at h
      obtain rfl := Except.ok.inj h
      have hscopes := builds_scopes dto
      have hrange := @range_accepts N dto.nonBlank gte lte hg hl event
      have hexclude : (∀ actions, dto.excludeActions.filter (· ≠ []) = some actions → event.action ∉ actions) ↔
          ∀ actions, dto.excludeActions = some actions → event.action ∉ actions := by
        cases dto.excludeActions with
        | none => simp
        | some actions => cases actions <;> simp
      have htimed : Builds (if gte.isSome || lte.isSome then (scopesFilter dto).set "timestamp" (.range gte lte)
          else scopesFilter dto) ["timestamp", "result", "resourceId", "resourceType",
            "action", "actorId"] fun event =>
            SatisfiesScopes dto.nonBlank event ∧
              (Test.range gte lte).accepts Scalar.le (auditDoc event "timestamp") = true := by
        by_cases hb : (gte.isSome || lte.isSome) = true
        · rw [if_pos hb]
          refine ⟨fun k hk => ?_, fun event => ?_⟩
          · rcases Filters.keys_set hk with rfl | hk
            · exact List.mem_cons_self
            · exact List.mem_cons_of_mem _ (hscopes.keys k hk)
          · rw [matchesFilter, Filters.accepts_set fun hin => absurd (hscopes.keys _ hin) (by decide)]
            exact and_congr_left fun _ => hscopes.accepts event
        · rw [if_neg hb]
          simp only [Bool.or_eq_true, not_or, Option.not_isSome_iff_eq_none] at hb
          refine ⟨fun k hk => List.mem_cons_of_mem _ (hscopes.keys k hk), fun event => ?_⟩
          simp [hscopes.accepts event, hb.1, hb.2, Test.accepts]
      rw [(htimed.withScope excludeScope_accepts _).accepts event, hexclude, hrange]
      constructor
      · intro h
        obtain ⟨⟨hs, hf, ht⟩, he⟩ := h
        exact ⟨hs, hf, ht, he⟩
      · intro hs
        exact ⟨⟨hs.toSatisfiesScopes, hs.from_, hs.to_⟩, hs.excludeActions⟩

/-- The filter of a query accepts the events that satisfy all its criteria, where
an empty text is none; a bound that is no date makes the query fail instead. -/
theorem query_conjunction (N : Node) (dto : QueryAuditDto) :
    (∃ filter, queryFilter N dto = .ok filter ∧
      ∀ event, matchesFilter filter event = true ↔ Satisfies N dto.nonBlank event) ∨
    queryFilter N dto = .error .store ∧
      ∃ v, (dto.nonBlank.from_ = some v ∨ dto.nonBlank.to_ = some v) ∧ N.newDate v = none := by
  cases hq : queryFilter N dto with
  | ok filter => exact .inl ⟨filter, rfl, builds_query hq⟩
  | error e =>
    refine .inr ?_
    unfold queryFilter at hq
    cases hg : dateOf N (truthy dto.from_) with
    | error e' =>
      rw [hg] at hq
      obtain rfl := Except.error.inj hq
      obtain ⟨rfl, v, hv, hd⟩ := dateOf_error hg
      exact ⟨rfl, v, .inl hv, hd⟩
    | ok gte =>
      cases hl : dateOf N (truthy dto.to_) with
      | error e' =>
        rw [hg, hl] at hq
        obtain rfl := Except.error.inj hq
        obtain ⟨rfl, v, hv, hd⟩ := dateOf_error hl
        exact ⟨rfl, v, .inr hv, hd⟩
      | ok lte =>
        rw [hg, hl] at hq
        cases hq

-- An empty actor is no criterion.
theorem blank_is_no_criterion : ¬ ∀ (N : Node) (dto : QueryAuditDto) (filter : DocFilter Scalar),
    queryFilter N dto = .ok filter → ∀ event, matchesFilter filter event = true ↔ Satisfies N dto event := by
  intro h
  have hmatch := (h sampleNode { actorId := some "" } .empty rfl sampleFirst).mp (by decide)
  exact absurd (hmatch.actorId "" rfl) (by decide)

end

end DocVault
