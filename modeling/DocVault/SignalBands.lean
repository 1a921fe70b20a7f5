import DocVault.AuditDrillDown
import DocVault.BehaviorSignals
import DocVault.IsoOrder
import DocVault.MetadataCanon
import Mathlib.Algebra.GroupWithZero.Nat

/-!
# The drill-down of a risk band

The dashboard counts the behaviour signals of each risk band, and links the count
to the audit events behind it. The filters of the link are put together field by
field from the filters of the signals.
-/

namespace DocVault.SecurityDashboard

/-! ## The rows of the signals -/

inductive SecurityRiskBand where
  | critical
  | warning
  | watch
  deriving DecidableEq

/-- A signal as the client reads it. -/
structure BehaviorSignalSummary where
  type : BehaviorSignalType
  actorId : String
  windowStartedAt : String
  windowEndedAt : String
  riskScore : JsNumber

structure SecurityBehaviorSignalRow extends BehaviorSignalSummary where
  typeLabel : String
  riskBand : SecurityRiskBand
  riskLabel : String
  auditFilters : AuditQueryFilters

def getRiskBand (riskScore : JsNumber) : SecurityRiskBand :=
  if (JsNumber.finite 80).le riskScore then .critical
  else if (JsNumber.finite 50).le riskScore then .warning
  else .watch

def getRiskLabel : SecurityRiskBand → String
  | .critical => "Critical risk"
  | .warning => "Elevated risk"
  | .watch => "Watch"

def getBehaviorSignalLabel : BehaviorSignalType → String
  | .MASS_CONTENT_ACCESS => "Mass content access"
  | .DENY_BURST => "Denied access burst"
  | .DESTRUCTIVE_ACTIVITY => "Destructive activity"

def getBehaviorSignalAuditFilters (signal : BehaviorSignalSummary) : AuditQueryFilters :=
  let windowFilters : AuditQueryFilters :=
    { actorId := some signal.actorId, from_ := some signal.windowStartedAt, to_ := some signal.windowEndedAt }
  match signal.type with
  | .MASS_CONTENT_ACCESS => { windowFilters with actionGroup := some .AUTHORIZED_CONTENT_ACCESS }
  | .DESTRUCTIVE_ACTIVITY => { windowFilters with actionGroup := some .DESTRUCTIVE_ACTIVITY }
  | .DENY_BURST => { windowFilters with result := some .DENY }

def behaviorSignalRow (signal : BehaviorSignalSummary) : SecurityBehaviorSignalRow :=
  { signal with
    typeLabel := getBehaviorSignalLabel signal.type
    riskBand := getRiskBand signal.riskScore
    riskLabel := getRiskLabel (getRiskBand signal.riskScore)
    auditFilters := getBehaviorSignalAuditFilters signal }

def buildBehaviorSignalRows (signals : List BehaviorSignalSummary) : List SecurityBehaviorSignalRow :=
  signals.map behaviorSignalRow

/-! ## The filters of a band -/

/-- `values.length === 1 ? values[0] : undefined` -/
def single {α : Type} : List α → Option α
  | [value] => some value
  | _ => none

-- `uniqueStrings`
def uniqueStrings {α : Type} [BEq α] (values : List α) : List α := values.eraseDups

def sortTexts (texts : List String) : List String := texts.insertionSort fun a b => keyLe a b

def buildBehaviorSignalBandFilters (rows : List SecurityBehaviorSignalRow) (riskBand : SecurityRiskBand) :
    AuditQueryFilters :=
  let bandRows := rows.filter fun row => row.riskBand = riskBand
  let actorIds := uniqueStrings (bandRows.map (·.actorId))
  let actionGroups := uniqueStrings (bandRows.filterMap (·.auditFilters.actionGroup))
  let results := uniqueStrings (bandRows.filterMap (·.auditFilters.result))
  let starts := sortTexts (bandRows.filterMap fun row => truthy row.auditFilters.from_)
  let ends := sortTexts (bandRows.filterMap fun row => truthy row.auditFilters.to_)
  { result := single results
    actionGroup := single actionGroups
    actorIds := some actorIds
    from_ := starts.head?
    to_ := ends.getLast? }

/-! ## The segments of the chart -/

inductive SecurityDashboardTone where
  | critical
  | warning
  | info
  | success
  deriving DecidableEq

structure SecurityDashboardSegment where
  key : String
  label : String
  value : Nat
  percentage : JsNumber
  tone : SecurityDashboardTone
  href : Option String

def ROUTES_AUDIT : String := "/audit"

def buildAuditHref (filters : AuditQueryFilters) : String :=
  let query := buildAuditFilterQuery filters
  if query = "" then ROUTES_AUDIT else s!"{ROUTES_AUDIT}?{query}"

def toPercentage (value total : Nat) : JsNumber :=
  if total ≤ 0 then .finite 0
  else (((JsNumber.finite value).div (.finite total)).mul (.finite 100)).round

def countRiskBand (rows : List SecurityBehaviorSignalRow) (riskBand : SecurityRiskBand) : Nat :=
  rows.countP fun row => row.riskBand = riskBand

def anomalyBandSegment (rows : List SecurityBehaviorSignalRow) (riskBand : SecurityRiskBand) (key label : String)
    (tone : SecurityDashboardTone) : SecurityDashboardSegment where
  key := key
  label := label
  value := countRiskBand rows riskBand
  percentage := toPercentage (countRiskBand rows riskBand) rows.length
  tone := tone
  href := some (buildAuditHref (buildBehaviorSignalBandFilters rows riskBand))

def buildAnomalyBandSegments (rows : List SecurityBehaviorSignalRow) : List SecurityDashboardSegment := [
  anomalyBandSegment rows .critical "critical" "Critical" .critical,
  anomalyBandSegment rows .warning "warning" "Elevated" .warning,
  anomalyBandSegment rows .watch "watch" "Watch" .info]

/-! ## What a band covers -/

/-- An event that the filters of a signal of the band let through, the filters of the band let through. -/
def BandCovers (N : Node) (signals : List BehaviorSignalSummary) (riskBand : SecurityRiskBand) : Prop :=
  ∀ row ∈ buildBehaviorSignalRows signals, row.riskBand = riskBand → ∀ event, row.auditFilters.Holds N event →
    (buildBehaviorSignalBandFilters (buildBehaviorSignalRows signals) riskBand).Holds N event

def bandSignals (signals : List BehaviorSignalSummary) (riskBand : SecurityRiskBand) : List BehaviorSignalSummary :=
  signals.filter fun signal => getRiskBand signal.riskScore = riskBand

/-- Denied events are not mixed with others: a burst of denied events has no other signals beside it or
both of their types, and another signal has no burst beside it. -/
def Unmixed (band : List BehaviorSignalSummary) : BehaviorSignalType → Prop
  | .DENY_BURST =>
    (∃ signal ∈ band, signal.type = .MASS_CONTENT_ACCESS) ↔ ∃ signal ∈ band, signal.type = .DESTRUCTIVE_ACTIVITY
  | _ => ∀ signal ∈ band, signal.type ≠ .DENY_BURST

/-- The start whose text comes first is not later than `first`, and the end whose text comes
last not earlier than `last`. -/
structure TextsInTime (N : Node) (band : List BehaviorSignalSummary) (first last : JsDate) : Prop where
  start : ∀ signal ∈ band, signal.windowStartedAt ≠ "" →
    (∀ other ∈ band, other.windowStartedAt ≠ "" → keyLe signal.windowStartedAt other.windowStartedAt = true) →
      ∃ d, N.newDate signal.windowStartedAt = some d ∧ d.ms ≤ first.ms
  ends : ∀ signal ∈ band, signal.windowEndedAt ≠ "" →
    (∀ other ∈ band, other.windowEndedAt ≠ "" → keyLe other.windowEndedAt signal.windowEndedAt = true) →
      ∃ d, N.newDate signal.windowEndedAt = some d ∧ last.ms ≤ d.ms

/-! ## Merged values -/

theorem single_unique {α : Type} [BEq α] [LawfulBEq α] {values : List α} {a : α} :
    single (uniqueStrings values) = some a ↔ a ∈ values ∧ ∀ b ∈ values, b = a := by
  have hmem : ∀ b, b ∈ uniqueStrings values ↔ b ∈ values := fun b => List.mem_eraseDups
  have hnodup : (uniqueStrings values).Nodup := nodup_eraseDups values
  apply Iff.intro
  · intro h
    obtain ⟨b, hb⟩ : ∃ b, uniqueStrings values = [b] := by
      unfold single at h
      split at h
      · exact ⟨_, ‹_›⟩
      · cases h
    rw [hb] at h hmem
    obtain rfl := Option.some.inj h
    exact ⟨(hmem b).mp (List.mem_singleton_self b), fun c hc => List.mem_singleton.mp ((hmem c).mpr hc)⟩
  · intro h
    have hone : uniqueStrings values = [a] := by
      refine List.perm_singleton.mp ((List.perm_ext_iff_of_nodup hnodup (List.nodup_singleton a)).mpr fun b => ?_)
      rw [hmem, List.mem_singleton]
      exact ⟨h.2 b, fun hb => hb ▸ h.1⟩
    rw [hone]
    rfl

abbrev TextLe (a b : String) : Prop := keyLe a b = true

instance : Std.Total TextLe := ⟨fun a b => lexLe_total (utf16 a) (utf16 b)⟩

instance : IsTrans String TextLe := ⟨fun _ _ _ h h' => lexLe_trans h h'⟩

theorem sortTexts_arranged (texts : List String) : Paging.Arranged TextLe (sortTexts texts) texts :=
  ⟨List.perm_insertionSort _ _, List.pairwise_insertionSort TextLe texts⟩

theorem keyLe_refl (text : String) : keyLe text text = true := (lexLe_total (utf16 text) (utf16 text)).elim id id

theorem sortTexts_head {texts : List String} {text : String} :
    (sortTexts texts).head? = some text ↔ text ∈ texts ∧ ∀ other ∈ texts, keyLe text other = true :=
  (sortTexts_arranged texts).head_iff keyLe_refl fun _ _ => keyLe_antisymm

theorem sortTexts_getLast {texts : List String} {text : String} :
    (sortTexts texts).getLast? = some text ↔ text ∈ texts ∧ ∀ other ∈ texts, keyLe other text = true := by
  have harranged : Paging.Arranged (fun a b => TextLe b a) (sortTexts texts).reverse texts :=
    ⟨(List.reverse_perm _).trans (sortTexts_arranged texts).perm,
      List.pairwise_reverse.mpr (sortTexts_arranged texts).sorted⟩
  rw [List.getLast?_eq_head?_reverse]
  exact harranged.head_iff keyLe_refl fun _ _ hab hba => keyLe_antisymm hba hab

/-! ## The filters of a band, by its signals -/

section
variable {N : Node} {signals : List BehaviorSignalSummary} {riskBand : SecurityRiskBand}

/-- The filters of a band as its signals give them. -/
structure BandFilters (band : List BehaviorSignalSummary) (filters : AuditQueryFilters) : Prop where
  result : ∀ v, filters.result = some v ↔ v = .DENY ∧ ∃ signal ∈ band, signal.type = .DENY_BURST
  content : filters.actionGroup = some .AUTHORIZED_CONTENT_ACCESS ↔
    (∃ signal ∈ band, signal.type = .MASS_CONTENT_ACCESS) ∧ ∀ signal ∈ band, signal.type ≠ .DESTRUCTIVE_ACTIVITY
  destructive : filters.actionGroup = some .DESTRUCTIVE_ACTIVITY ↔
    (∃ signal ∈ band, signal.type = .DESTRUCTIVE_ACTIVITY) ∧ ∀ signal ∈ band, signal.type ≠ .MASS_CONTENT_ACCESS
  actorIds : ∃ actorIds, filters.actorIds = some actorIds ∧ ∀ signal ∈ band, signal.actorId ∈ actorIds
  start : ∀ text, filters.from_ = some text ↔ (∃ signal ∈ band, signal.windowStartedAt = text ∧ text ≠ "") ∧
    ∀ other ∈ band, other.windowStartedAt ≠ "" → keyLe text other.windowStartedAt = true
  ends : ∀ text, filters.to_ = some text ↔ (∃ signal ∈ band, signal.windowEndedAt = text ∧ text ≠ "") ∧
    ∀ other ∈ band, other.windowEndedAt ≠ "" → keyLe other.windowEndedAt text = true

theorem bandRows_eq : ((buildBehaviorSignalRows signals).filter fun row => row.riskBand = riskBand) =
    (bandSignals signals riskBand).map behaviorSignalRow := by
  rw [buildBehaviorSignalRows, List.filter_map]
  rfl

theorem mem_merged {β : Type} {band : List BehaviorSignalSummary}
    (field : AuditQueryFilters → Option β) {value : β} :
    value ∈ (band.map behaviorSignalRow).filterMap (fun row => field row.auditFilters) ↔
      ∃ signal ∈ band, field (getBehaviorSignalAuditFilters signal) = some value := by
  rw [List.filterMap_map, List.mem_filterMap]
  rfl

theorem signal_result {signal : BehaviorSignalSummary} {v : AuditResult} :
    (getBehaviorSignalAuditFilters signal).result = some v ↔ v = .DENY ∧ signal.type = .DENY_BURST := by
  unfold getBehaviorSignalAuditFilters
  cases signal.type <;> simp [eq_comm]

theorem signal_content {signal : BehaviorSignalSummary} :
    (getBehaviorSignalAuditFilters signal).actionGroup = some .AUTHORIZED_CONTENT_ACCESS ↔
      signal.type = .MASS_CONTENT_ACCESS := by
  unfold getBehaviorSignalAuditFilters
  cases signal.type <;> simp

theorem signal_destructive {signal : BehaviorSignalSummary} :
    (getBehaviorSignalAuditFilters signal).actionGroup = some .DESTRUCTIVE_ACTIVITY ↔
      signal.type = .DESTRUCTIVE_ACTIVITY := by
  unfold getBehaviorSignalAuditFilters
  cases signal.type <;> simp

theorem signal_window (signal : BehaviorSignalSummary) :
    (getBehaviorSignalAuditFilters signal).from_ = some signal.windowStartedAt ∧
      (getBehaviorSignalAuditFilters signal).to_ = some signal.windowEndedAt ∧
        (getBehaviorSignalAuditFilters signal).actorId = some signal.actorId := by
  unfold getBehaviorSignalAuditFilters
  cases signal.type <;> exact ⟨rfl, rfl, rfl⟩

theorem mem_truthy {band : List BehaviorSignalSummary} {field : AuditQueryFilters → Option String}
    {window : BehaviorSignalSummary → String}
    (hfield : ∀ signal, field (getBehaviorSignalAuditFilters signal) = some (window signal)) {text : String} :
    text ∈ (band.map behaviorSignalRow).filterMap (fun row => truthy (field row.auditFilters)) ↔
      ∃ signal ∈ band, window signal = text ∧ text ≠ "" := by
  rw [mem_merged fun filters => truthy (field filters)]
  refine exists_congr fun signal => and_congr_right fun _ => ?_
  rw [hfield, truthy, Option.filter_eq_some_iff, Option.some.injEq, decide_eq_true_eq]

/-- A bound on the merged values is one on the windows of the signals. -/
theorem forall_truthy {band : List BehaviorSignalSummary} {window : BehaviorSignalSummary → String}
    {P : String → Prop} : (∀ text, (∃ signal ∈ band, window signal = text ∧ text ≠ "") → P text) ↔
      ∀ signal ∈ band, window signal ≠ "" → P (window signal) := by
  apply Iff.intro
  · intro h signal hin hne
    exact h _ ⟨signal, hin, rfl, hne⟩
  · intro h text htext
    obtain ⟨signal, hin, rfl, hne⟩ := htext
    exact h signal hin hne

theorem other_group {group other : AuditActionGroup} {asked : Option AuditActionGroup}
    (h : ∀ g, g ≠ group ↔ g = other) : (∃ g, asked = some g ∧ g ≠ group) ↔ asked = some other := by
  simp only [h, exists_eq_right]

/-- The band has one group if some signal asks for it and none for the other. -/
theorem single_group {band : List BehaviorSignalSummary} {group : AuditActionGroup}
    {type other : BehaviorSignalType}
    (htype : ∀ signal, (getBehaviorSignalAuditFilters signal).actionGroup = some group ↔ signal.type = type)
    (hother : ∀ signal, (∃ g, (getBehaviorSignalAuditFilters signal).actionGroup = some g ∧ g ≠ group) ↔
      signal.type = other) :
    single (uniqueStrings ((band.map behaviorSignalRow).filterMap (·.auditFilters.actionGroup))) = some group ↔
      (∃ signal ∈ band, signal.type = type) ∧ ∀ signal ∈ band, signal.type ≠ other := by
  rw [single_unique]
  simp only [mem_merged AuditQueryFilters.actionGroup, htype]
  refine and_congr_right fun _ => ?_
  apply Iff.intro
  · intro hall signal hin heq
    obtain ⟨g, hg, hne⟩ := (hother signal).mpr heq
    exact hne (hall g ⟨signal, hin, hg⟩)
  · intro hnone g hg
    obtain ⟨signal, hin, hg⟩ := hg
    by_contra hne
    exact hnone signal hin ((hother signal).mp ⟨g, hg, hne⟩)

theorem bandFilters (signals : List BehaviorSignalSummary) (riskBand : SecurityRiskBand) :
    BandFilters (bandSignals signals riskBand)
      (buildBehaviorSignalBandFilters (buildBehaviorSignalRows signals) riskBand) := by
  have hstart : ∀ signal, (getBehaviorSignalAuditFilters signal).from_ = some signal.windowStartedAt :=
    fun signal => (signal_window signal).1
  have hends : ∀ signal, (getBehaviorSignalAuditFilters signal).to_ = some signal.windowEndedAt := fun signal =>
    (signal_window signal).2.1
  constructor
  all_goals simp only [buildBehaviorSignalBandFilters, bandRows_eq]
  · intro v
    rw [single_unique]
    simp only [mem_merged AuditQueryFilters.result, signal_result]
    apply Iff.intro
    · intro h
      obtain ⟨⟨signal, hin, hv, hdeny⟩, -⟩ := h
      exact ⟨hv, signal, hin, hdeny⟩
    · intro h
      obtain ⟨hv, signal, hin, hdeny⟩ := h
      exact ⟨⟨signal, hin, hv, hdeny⟩, fun _ hother => hother.elim fun _ hother => hother.2.1.trans hv.symm⟩
  · refine single_group (fun _ => signal_content) fun signal => ?_
    rw [← signal_destructive]
    exact other_group fun g => by cases g <;> simp
  · refine single_group (fun _ => signal_destructive) fun signal => ?_
    rw [← signal_content]
    exact other_group fun g => by cases g <;> simp
  · refine ⟨_, rfl, fun signal hin => List.mem_eraseDups.mpr ?_⟩
    rw [List.map_map]
    exact List.mem_map.mpr ⟨signal, hin, rfl⟩
  · intro text
    rw [sortTexts_head]
    simp only [mem_truthy hstart]
    exact and_congr_right fun _ => forall_truthy
  · intro text
    rw [sortTexts_getLast]
    simp only [mem_truthy hends]
    exact and_congr_right fun _ => forall_truthy

/-! ## The events of a signal and of a band -/

/-- The fields that the filters of a chart have. -/
structure Shows (N : Node) (filters : AuditQueryFilters) (event : AuditEvent) : Prop where
  result : ∀ v, filters.result = some v → event.result = v.text
  actionGroup : ∀ group, filters.actionGroup = some group → event.action ∈ AUDIT_ACTION_GROUP_ACTIONS group
  actorId : ∀ v, filters.actorId = some v → event.actorId = v
  actorIds : ∀ l, filters.actorIds = some l → event.actorId ∈ l
  from_ : ∀ v, filters.from_ = some v → ∃ d t, N.newDate v = some d ∧ event.timestamp = .date t ∧ d.ms ≤ t.ms
  to_ : ∀ v, filters.to_ = some v → ∃ d t, N.newDate v = some d ∧ event.timestamp = .date t ∧ t.ms ≤ d.ms

theorem holds_iff {result : Option AuditResult} {actionGroup : Option AuditActionGroup}
    {actorId from_ to_ : Option String} {actorIds : Option (List String)} {event : AuditEvent} :
    AuditQueryFilters.Holds N { result, actionGroup, actorId, actorIds, from_, to_ } event ↔
      Shows N { result, actionGroup, actorId, actorIds, from_, to_ } event := by
  apply Iff.intro
  · intro h
    exact ⟨h.result, h.actionGroup, h.actorId, h.actorIds, h.from_, h.to_⟩
  · intro h
    exact
      { result := h.result
        action := nofun
        actions := nofun
        actionGroup := h.actionGroup
        actorId := h.actorId
        actorIds := h.actorIds
        resourceType := nofun
        resourceId := nofun
        documentId := nofun
        documentIds := nofun
        aclId := nofun
        recommendationId := nofun
        recommendationIds := nofun
        classifications := nofun
        from_ := h.from_
        to_ := h.to_ }

def signalAsks : BehaviorSignalType → AuditEvent → Prop
  | .MASS_CONTENT_ACCESS, event => event.action ∈ AUTHORIZED_CONTENT_ACTIONS
  | .DESTRUCTIVE_ACTIVITY, event => event.action ∈ DESTRUCTIVE_ACTIVITY_ACTIONS
  | .DENY_BURST, event => event.result = "DENY"

theorem signal_holds {signal : BehaviorSignalSummary} {event : AuditEvent} :
    (getBehaviorSignalAuditFilters signal).Holds N event ↔
    event.actorId = signal.actorId ∧ signalAsks signal.type event ∧
      ∃ first last t, N.newDate signal.windowStartedAt = some first ∧ N.newDate signal.windowEndedAt = some last ∧
        event.timestamp = .date t ∧ first.ms ≤ t.ms ∧ t.ms ≤ last.ms := by
  have hshows : (getBehaviorSignalAuditFilters signal).Holds N event ↔
      Shows N (getBehaviorSignalAuditFilters signal) event := by
    unfold getBehaviorSignalAuditFilters
    cases signal.type <;> exact holds_iff
  obtain ⟨hfrom, hto, hactor⟩ := signal_window signal
  have hactors : (getBehaviorSignalAuditFilters signal).actorIds = none := by
    unfold getBehaviorSignalAuditFilters
    cases signal.type <;> rfl
  rw [hshows]
  apply Iff.intro
  · intro h
    obtain ⟨first, t, hfirst, ht, hle⟩ := h.from_ _ hfrom
    obtain ⟨last, t', hlast, ht', hle'⟩ := h.to_ _ hto
    obtain rfl : t = t' := Stamp.date.inj (ht.symm.trans ht')
    refine ⟨h.actorId _ hactor, ?_, first, last, t, hfirst, hlast, ht, hle, hle'⟩
    cases htype : signal.type with
    | MASS_CONTENT_ACCESS => exact h.actionGroup _ (signal_content.mpr htype)
    | DESTRUCTIVE_ACTIVITY => exact h.actionGroup _ (signal_destructive.mpr htype)
    | DENY_BURST => exact h.result _ (signal_result.mpr ⟨rfl, htype⟩)
  · intro h
    obtain ⟨hactorId, hasks, first, last, t, hfirst, hlast, ht, hle, hle'⟩ := h
    refine ⟨fun v hv => ?_, fun group hgroup => ?_, fun v hv => ?_, fun l hl => ?_, fun v hv => ?_, fun v hv => ?_⟩
    · obtain ⟨rfl, htype⟩ := signal_result.mp hv
      rw [htype] at hasks
      exact hasks
    · cases group with
      | AUTHORIZED_CONTENT_ACCESS =>
        rw [signal_content.mp hgroup] at hasks
        exact hasks
      | DESTRUCTIVE_ACTIVITY =>
        rw [signal_destructive.mp hgroup] at hasks
        exact hasks
    · rw [hactorId]
      exact Option.some.inj (hactor.symm.trans hv)
    · cases hactors.symm.trans hl
    · obtain rfl := Option.some.inj (hfrom.symm.trans hv)
      exact ⟨first, t, hfirst, ht, hle⟩
    · obtain rfl := Option.some.inj (hto.symm.trans hv)
      exact ⟨last, t, hlast, ht, hle'⟩

/-- An event of a signal that has no more than the signal asks for. -/
def signalEvent (signal : BehaviorSignalSummary) (t : JsDate) : AuditEvent where
  eventId := none
  timestamp := .date t
  actorId := signal.actorId
  actorRoles := []
  action := match signal.type with
    | .MASS_CONTENT_ACCESS => "DOCUMENT_DOWNLOAD_AUTHORIZED"
    | .DESTRUCTIVE_ACTIVITY => "DOCUMENT_ARCHIVE"
    | .DENY_BURST => "DOCUMENT_DOWNLOAD_DENIED"
  resourceType := "DOCUMENT"
  resourceId := none
  result := match signal.type with
    | .DENY_BURST => "DENY"
    | _ => "SUCCESS"
  reason := none
  ip := none
  traceId := none
  metadata := none
  epochId := none
  prevHash := .null
  hash := .null
  signature := none
  signatureKid := none

theorem signalEvent_asked (signal : BehaviorSignalSummary) (t : JsDate) :
    signalAsks signal.type (signalEvent signal t) := by
  unfold signalEvent
  cases signal.type <;> simp [signalAsks, AUTHORIZED_CONTENT_ACTIONS, DESTRUCTIVE_ACTIVITY_ACTIONS]

section
variable {signal : BehaviorSignalSummary} {first last t : JsDate}

/-- The filters of the band let the signal's events through. -/
theorem shows_of_covers (hcovers : BandCovers N signals riskBand) (hin : signal ∈ bandSignals signals riskBand)
    (hfirst : N.newDate signal.windowStartedAt = some first) (hlast : N.newDate signal.windowEndedAt = some last)
    (hafter : first.ms ≤ t.ms) (hbefore : t.ms ≤ last.ms) :
    Shows N (buildBehaviorSignalBandFilters (buildBehaviorSignalRows signals) riskBand) (signalEvent signal t) := by
  obtain ⟨hsignal, hrisk⟩ := List.mem_filter.mp hin
  refine holds_iff.mp (hcovers _ (List.mem_map_of_mem hsignal) (of_decide_eq_true hrisk) _ (signal_holds.mpr ?_))
  exact ⟨rfl, signalEvent_asked signal t, first, last, t, hfirst, hlast, rfl, hafter, hbefore⟩

theorem unmixed_of_shows
    (hshows : Shows N (buildBehaviorSignalBandFilters (buildBehaviorSignalRows signals) riskBand)
      (signalEvent signal t)) :
    Unmixed (bandSignals signals riskBand) signal.type := by
  have hband := bandFilters signals riskBand
  have hnodeny : signal.type ≠ .DENY_BURST → ∀ other ∈ bandSignals signals riskBand, other.type ≠ .DENY_BURST := by
    intro htype other hother hdeny
    have hresult := hshows.result .DENY ((hband.result .DENY).mpr ⟨rfl, other, hother, hdeny⟩)
    revert hresult htype
    cases htype : signal.type <;> simp [signalEvent, htype, AuditResult.text]
  cases htype : signal.type with
  | MASS_CONTENT_ACCESS => exact hnodeny (by simp [htype])
  | DESTRUCTIVE_ACTIVITY => exact hnodeny (by simp [htype])
  | DENY_BURST =>
    have haction : (signalEvent signal t).action = "DOCUMENT_DOWNLOAD_DENIED" := by
      simp [signalEvent, htype]
    apply Iff.intro
    · intro hcontent
      by_contra hnone
      have hgroup := hshows.actionGroup _ (hband.content.mpr ⟨hcontent, fun s hs hd => hnone ⟨s, hs, hd⟩⟩)
      rw [haction] at hgroup
      exact absurd hgroup (by decide)
    · intro hdestructive
      by_contra hnone
      have hgroup := hshows.actionGroup _ (hband.destructive.mpr ⟨hdestructive, fun s hs hc => hnone ⟨s, hs, hc⟩⟩)
      rw [haction] at hgroup
      exact absurd hgroup (by decide)

theorem textsInTime_of_shows
    (hfirst : Shows N (buildBehaviorSignalBandFilters (buildBehaviorSignalRows signals) riskBand)
      (signalEvent signal first))
    (hlast : Shows N (buildBehaviorSignalBandFilters (buildBehaviorSignalRows signals) riskBand)
      (signalEvent signal last)) :
    TextsInTime N (bandSignals signals riskBand) first last := by
  have hband := bandFilters signals riskBand
  refine ⟨fun other hother hne hleast => ?_, fun other hother hne hgreatest => ?_⟩
  · obtain ⟨d, t, hd, ht, hbound⟩ := hfirst.from_ _ ((hband.start _).mpr ⟨⟨other, hother, rfl, hne⟩, hleast⟩)
    obtain rfl := Stamp.date.inj ht
    exact ⟨d, hd, hbound⟩
  · obtain ⟨d, t, hd, ht, hbound⟩ := hlast.to_ _ ((hband.ends _).mpr ⟨⟨other, hother, rfl, hne⟩, hgreatest⟩)
    obtain rfl := Stamp.date.inj ht
    exact ⟨d, hd, hbound⟩

end

theorem unmixed_result {band : List BehaviorSignalSummary} {filters : AuditQueryFilters} {type : BehaviorSignalType}
    {event : AuditEvent} {v : AuditResult} (hband : BandFilters band filters) (hunmixed : Unmixed band type)
    (hasks : signalAsks type event) (hv : filters.result = some v) : event.result = v.text := by
  obtain ⟨rfl, other, hother, hdeny⟩ := (hband.result v).mp hv
  cases type with
  | DENY_BURST => exact hasks
  | MASS_CONTENT_ACCESS | DESTRUCTIVE_ACTIVITY => exact absurd hdeny (hunmixed other hother)

theorem unmixed_group {band : List BehaviorSignalSummary} {filters : AuditQueryFilters}
    {signal : BehaviorSignalSummary}
    {event : AuditEvent} {group : AuditActionGroup} (hband : BandFilters band filters) (hin : signal ∈ band)
    (hunmixed : Unmixed band signal.type) (hasks : signalAsks signal.type event)
    (hgroup : filters.actionGroup = some group) : event.action ∈ AUDIT_ACTION_GROUP_ACTIONS group := by
  cases htype : signal.type with
  | DENY_BURST =>
    -- the filters have a group only if there is one, and then the band is mixed
    rw [htype] at hunmixed
    cases group with
    | AUTHORIZED_CONTENT_ACCESS =>
      obtain ⟨hcontent, hnone⟩ := hband.content.mp hgroup
      obtain ⟨other, hother, hdestructive⟩ := hunmixed.mp hcontent
      exact absurd hdestructive (hnone other hother)
    | DESTRUCTIVE_ACTIVITY =>
      obtain ⟨hdestructive, hnone⟩ := hband.destructive.mp hgroup
      obtain ⟨other, hother, hcontent⟩ := hunmixed.mpr hdestructive
      exact absurd hcontent (hnone other hother)
  | MASS_CONTENT_ACCESS =>
    rw [htype] at hasks
    cases group with
    | AUTHORIZED_CONTENT_ACCESS => exact hasks
    | DESTRUCTIVE_ACTIVITY => exact absurd htype ((hband.destructive.mp hgroup).2 signal hin)
  | DESTRUCTIVE_ACTIVITY =>
    rw [htype] at hasks
    cases group with
    | AUTHORIZED_CONTENT_ACCESS => exact absurd htype ((hband.content.mp hgroup).2 signal hin)
    | DESTRUCTIVE_ACTIVITY => exact hasks

theorem covers_of (hall : ∀ signal ∈ bandSignals signals riskBand, ∀ first last,
    N.newDate signal.windowStartedAt = some first → N.newDate signal.windowEndedAt = some last →
    first.ms ≤ last.ms →
      Unmixed (bandSignals signals riskBand) signal.type ∧
      TextsInTime N (bandSignals signals riskBand) first last) :
    BandCovers N signals riskBand := by
  have hband := bandFilters signals riskBand
  intro row hrow hrisk event hholds
  obtain ⟨signal, hsignal, rfl⟩ := List.mem_map.mp hrow
  obtain ⟨hactor, hasks, first, last, t, hfirst, hlast, ht, hle, hle'⟩ := signal_holds.mp hholds
  have hin : signal ∈ bandSignals signals riskBand := List.mem_filter.mpr ⟨hsignal, decide_eq_true hrisk⟩
  obtain ⟨hunmixed, htexts⟩ := hall signal hin first last hfirst hlast (Int.le_trans hle hle')
  refine holds_iff.mpr ⟨fun v hv => ?_, fun group hgroup => ?_, nofun, fun l hl => ?_,
    fun v hv => ?_, fun v hv => ?_⟩
  · exact unmixed_result hband hunmixed hasks hv
  · exact unmixed_group hband hin hunmixed hasks hgroup
  · obtain ⟨actorIds, hactorIds, hmem⟩ := hband.actorIds
    obtain rfl := Option.some.inj (hactorIds.symm.trans hl)
    rw [hactor]
    exact hmem signal hin
  · obtain ⟨⟨other, hother, rfl, hne⟩, hleast⟩ := (hband.start v).mp hv
    obtain ⟨d, hd, hbound⟩ := htexts.start other hother hne hleast
    exact ⟨d, t, hd, ht, Int.le_trans hbound hle⟩
  · obtain ⟨⟨other, hother, rfl, hne⟩, hgreatest⟩ := (hband.ends v).mp hv
    obtain ⟨d, hd, hbound⟩ := htexts.ends other hother hne hgreatest
    exact ⟨d, t, hd, ht, Int.le_trans hle' hbound⟩

/-- A band covers its signals exactly if no signal that some event satisfies is mixed with denied events, and no
text of a window comes before one of an earlier time. -/
theorem band_covers_iff (N : Node) (signals : List BehaviorSignalSummary) (riskBand : SecurityRiskBand) :
    BandCovers N signals riskBand ↔
      ∀ signal ∈ bandSignals signals riskBand, ∀ first last, N.newDate signal.windowStartedAt = some first →
        N.newDate signal.windowEndedAt = some last → first.ms ≤ last.ms →
          Unmixed (bandSignals signals riskBand) signal.type ∧
          TextsInTime N (bandSignals signals riskBand) first last := by
  apply Iff.intro
  · intro hcovers signal hin first last hfirst hlast hle
    have hshown := fun t => shows_of_covers hcovers hin hfirst hlast (t := t)
    exact ⟨unmixed_of_shows (hshown first (Int.le_refl _) hle),
      textsInTime_of_shows (hshown first (Int.le_refl _) hle) (hshown last hle (Int.le_refl _))⟩
  · intro hall
    exact covers_of hall

/-! ## Windows that the service writes -/

/-- The windows of the signals are texts of `toISOString`, of the years 0 to 9999. -/
def IsoWindows (band : List BehaviorSignalSummary) : Prop :=
  ∀ signal ∈ band, ∃ first last : JsDate, first.fourDigitYear ∧ last.fourDigitYear ∧
    signal.windowStartedAt = first.toISOString ∧ signal.windowEndedAt = last.toISOString

theorem iso_le_of_keyLe (hiso : ∀ d : JsDate, N.newDate d.toISOString = some d)
    {a b : JsDate} (ha : a.fourDigitYear)
    (hb : b.fourDigitYear) (h : keyLe a.toISOString b.toISOString = true) : a.ms ≤ b.ms := by
  by_contra hlt
  have hback := iso_mono hb ha (Int.le_of_lt (Int.not_le.mp hlt))
  have hsame := congrArg N.newDate (keyLe_antisymm h hback)
  rw [hiso, hiso] at hsame
  rw [Option.some.inj hsame] at hlt
  exact hlt (Int.le_refl _)

theorem textsInTime_iso (hiso : ∀ d : JsDate, N.newDate d.toISOString = some d) {band : List BehaviorSignalSummary}
    (hband : IsoWindows band) {signal : BehaviorSignalSummary} (hin : signal ∈ band) {first last : JsDate}
    (hfirst : N.newDate signal.windowStartedAt = some first) (hlast : N.newDate signal.windowEndedAt = some last) :
    TextsInTime N band first last := by
  obtain ⟨a, b, ha, hb, hstart, hend⟩ := hband signal hin
  rw [hstart, hiso] at hfirst
  rw [hend, hiso] at hlast
  obtain rfl := Option.some.inj hfirst
  obtain rfl := Option.some.inj hlast
  refine ⟨fun other hother _ hleast => ?_, fun other hother _ hgreatest => ?_⟩
  · obtain ⟨d, _, hd, -, htext, -⟩ := hband other hother
    have hle := hleast signal hin (by rw [hstart]; exact toISOString_ne_empty a)
    rw [htext, hstart] at hle
    exact ⟨d, by rw [htext, hiso], iso_le_of_keyLe hiso hd ha hle⟩
  · obtain ⟨_, d, -, hd, -, htext⟩ := hband other hother
    have hle := hgreatest signal hin (by rw [hend]; exact toISOString_ne_empty b)
    rw [htext, hend] at hle
    exact ⟨d, by rw [htext, hiso], iso_le_of_keyLe hiso hb hd hle⟩

/-- Of such signals, those with a window are covered exactly if they are not mixed with denied events. -/
theorem band_covers_iff_unmixed (hiso : ∀ d : JsDate, N.newDate d.toISOString = some d)
    (hwindows : IsoWindows (bandSignals signals riskBand)) :
    BandCovers N signals riskBand ↔
      ∀ signal ∈ bandSignals signals riskBand, ∀ first last, N.newDate signal.windowStartedAt = some first →
        N.newDate signal.windowEndedAt = some last → first.ms ≤ last.ms →
          Unmixed (bandSignals signals riskBand) signal.type := by
  apply Iff.intro
  · intro hcovers signal hin first last hfirst hlast hle
    exact unmixed_of_shows (shows_of_covers hcovers hin hfirst hlast (Int.le_refl _) hle)
  · intro hall
    exact covers_of fun signal hin first last hfirst hlast hle =>
      ⟨hall signal hin first last hfirst hlast hle, textsInTime_iso hiso hwindows hin hfirst hlast⟩

/-! ## The segments -/

/-- Every signal is counted in one segment. -/
theorem segments_count (rows : List SecurityBehaviorSignalRow) :
    ((buildAnomalyBandSegments rows).map fun segment => segment.value).sum = rows.length := by
  induction rows with
  | nil => rfl
  | cons row rows ih =>
    simp only [buildAnomalyBandSegments, anomalyBandSegment, countRiskBand, List.map_cons,
      List.map_nil, List.sum_cons, List.sum_nil, List.countP_cons, List.length_cons] at ih ⊢
    cases hrisk : row.riskBand <;> simp <;> omega

/-- A segment counts the signals of a band, and where these are not mixed with denied events its
link shows the events of each. -/
theorem segment_covers (hiso : ∀ d : JsDate, N.newDate d.toISOString = some d) {segment : SecurityDashboardSegment}
    (h : segment ∈ buildAnomalyBandSegments (buildBehaviorSignalRows signals)) :
    ∃ riskBand, segment.value = (bandSignals signals riskBand).length ∧
      segment.href = some (buildAuditHref
        (buildBehaviorSignalBandFilters (buildBehaviorSignalRows signals) riskBand)) ∧
      (IsoWindows (bandSignals signals riskBand) →
        (∀ signal ∈ bandSignals signals riskBand, Unmixed (bandSignals signals riskBand) signal.type) →
          BandCovers N signals riskBand) := by
  have hsegment : ∀ riskBand key label tone,
      segment = anomalyBandSegment (buildBehaviorSignalRows signals) riskBand key label tone →
      segment.value = (bandSignals signals riskBand).length ∧ segment.href = some (buildAuditHref
        (buildBehaviorSignalBandFilters (buildBehaviorSignalRows signals) riskBand)) := by
    rintro riskBand key label tone rfl
    refine ⟨?_, rfl⟩
    show countRiskBand (buildBehaviorSignalRows signals) riskBand = _
    rw [countRiskBand, buildBehaviorSignalRows, List.countP_map, bandSignals, ← List.countP_eq_length_filter]
    rfl
  have hcovers : ∀ riskBand, IsoWindows (bandSignals signals riskBand) →
      (∀ signal ∈ bandSignals signals riskBand, Unmixed (bandSignals signals riskBand) signal.type) →
        BandCovers N signals riskBand := fun riskBand hwindows hunmixed =>
    covers_of fun signal hin first last hfirst hlast _ =>
      ⟨hunmixed signal hin, textsInTime_iso hiso hwindows hin hfirst hlast⟩
  simp only [buildAnomalyBandSegments, List.mem_cons, List.not_mem_nil, or_false] at h
  rcases h with h | h | h
  · exact ⟨.critical, (hsegment _ _ _ _ h).1, (hsegment _ _ _ _ h).2, hcovers .critical⟩
  · exact ⟨.warning, (hsegment _ _ _ _ h).1, (hsegment _ _ _ _ h).2, hcovers .warning⟩
  · exact ⟨.watch, (hsegment _ _ _ _ h).1, (hsegment _ _ _ _ h).2, hcovers .watch⟩

end

/-! A user who downloads much, and another who is denied much, in one window. -/

def signalOf (type : BehaviorSignalType) (actorId : String) : BehaviorSignalSummary where
  type := type
  actorId := actorId
  windowStartedAt := sampleTime.toISOString
  windowEndedAt := sampleTime.toISOString
  riskScore := .finite 90

def mixedSignals : List BehaviorSignalSummary := [signalOf .MASS_CONTENT_ACCESS "u-1", signalOf .DENY_BURST "u-2"]

/-- The critical band asks for denied events, which the downloads are not. -/
theorem downloads_not_covered :
    ¬∀ (N : Node) (signals : List BehaviorSignalSummary) (riskBand : SecurityRiskBand),
      BandCovers N signals riskBand := by
  intro h
  have hdate : sampleReader.newDate sampleTime.toISOString = some sampleTime := readInstant_iso sampleTime
  have hcritical : getRiskBand (.finite 90) = .critical := by decide +kernel
  have hin : ∀ signal ∈ mixedSignals, signal ∈ bandSignals mixedSignals .critical := fun signal hsignal => by
    refine List.mem_filter.mpr ⟨hsignal, decide_eq_true ?_⟩
    simp only [mixedSignals, List.mem_cons, List.not_mem_nil, or_false] at hsignal
    obtain rfl | rfl := hsignal
    · exact hcritical
    · exact hcritical
  have hmass : signalOf .MASS_CONTENT_ACCESS "u-1" ∈ mixedSignals := List.mem_cons_self
  have hdeny : signalOf .DENY_BURST "u-2" ∈ mixedSignals := List.mem_cons_of_mem _ (List.mem_singleton_self _)
  have hunmixed : Unmixed (bandSignals mixedSignals .critical) .MASS_CONTENT_ACCESS :=
    unmixed_of_shows
      (shows_of_covers (h sampleReader mixedSignals .critical) (hin _ hmass) hdate hdate (Int.le_refl _)
      (Int.le_refl _))
  exact hunmixed _ (hin _ hdeny) rfl

end DocVault.SecurityDashboard
