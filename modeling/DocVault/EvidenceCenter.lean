import DocVault.ActorNames
import DocVault.Recommendations
import DocVault.Redaction
import DocVault.SavedViews
import DocVault.Workflow

/-!
# The evidence center

The model of recommendation and document packets, the bundle of those a user has
selected, and the case narrative that is written about a bundle. The rows of
recommendations are those of the security dashboard.
-/

namespace DocVault.EvidenceCenter

open Regex Search SavedViews

/-! ## What the center is made from -/

structure AuditChainStatus where
  valid : Bool
  checked : Nat

structure SecurityRecommendationPlaybook where
  ownerLabel : Text

structure SecurityRecommendationRow where
  id : Text
  title : Text
  severity : SecurityRecommendationSeverity
  workflow : SecurityRecommendationWorkflow
  playbook : SecurityRecommendationPlaybook
  affectedActorIds : List Text

structure RetentionEvidenceRow where
  docId : Text
  title : Text
  status : DocumentStatus
  classification : ClassificationLevel
  retentionStatus : RetentionStatus

structure RetentionSummary where
  tracked : Nat
  active : Nat
  dueSoon : Nat
  overdue : Nat
  archived : Nat

structure RetentionEvidenceResult where
  summary : RetentionSummary
  records : List RetentionEvidenceRow

/-! ## Targets -/

section
variable (R : Runtime)

def slugify (value : Text) : Text :=
  (stripDashes (replaceAll isWord (plus fun u => !(isDigit u || (97 ≤ u && u ≤ 122))) (fun _ => utf16 "-")
    (R.toLowerCase value))).take 80

/-- `text || other` -/
def orElseText (t other : Text) : Text := if t = [] then other else t

def timestampSlug (value : Text) : Text :=
  match R.newDate value with
  | none => orElseText (slugify R value) (utf16 "manual")
  | some date => (replaceAll isWord (.one fun u => !isDigit u) (fun _ => []) (utf16 date.toISOString)).take 14

structure EvidenceRecommendationTarget where
  id : Text
  title : Text
  severity : SecurityRecommendationSeverity
  workflowStatus : SecurityRecommendationWorkflowStatus
  ownerLabel : Text
  affectedActorIds : List Text
  packetFilename : Text

structure EvidenceDocumentPacketTarget where
  docId : Text
  title : Text
  status : DocumentStatus
  classification : ClassificationLevel
  retentionStatus : RetentionStatus
  packetFilename : Text

structure EvidenceCenterModel where
  generatedAt : Text
  auditChain : AuditChainStatus
  recommendationTargets : List EvidenceRecommendationTarget
  documentPacketTargets : List EvidenceDocumentPacketTarget
  retentionSummary : RetentionSummary

def buildRecommendationTarget (recommendation : SecurityRecommendationRow) : EvidenceRecommendationTarget where
  id := recommendation.id
  title := recommendation.title
  severity := recommendation.severity
  workflowStatus := recommendation.workflow.status
  ownerLabel := recommendation.playbook.ownerLabel
  affectedActorIds := recommendation.affectedActorIds
  packetFilename := slugify R recommendation.id ++ utf16 "-recommendation-evidence.json"

def buildDocumentPacketTarget (record : RetentionEvidenceRow) : EvidenceDocumentPacketTarget where
  docId := record.docId
  title := record.title
  status := record.status
  classification := record.classification
  retentionStatus := record.retentionStatus
  packetFilename := utf16 "docvault-evidence-" ++ orElseText (slugify R record.title) record.docId ++ utf16 ".json"

/-- `items` are the rows that the security dashboard makes of the summary. -/
def buildEvidenceCenterModel (items : List SecurityRecommendationRow) (chain : AuditChainStatus)
    (retentionEvidence : RetentionEvidenceResult) (generatedAt : Text) : EvidenceCenterModel where
  generatedAt := generatedAt
  auditChain := chain
  recommendationTargets := items.map (buildRecommendationTarget R)
  documentPacketTargets := retentionEvidence.records.map (buildDocumentPacketTarget R)
  retentionSummary := retentionEvidence.summary

end

/-! ## Bundles -/

structure EvidenceBundleRecommendationReference where
  id : Text
  title : Text
  packetFilename : Text
  severity : SecurityRecommendationSeverity
  workflowStatus : SecurityRecommendationWorkflowStatus
  ownerLabel : Text
  affectedActorIds : List Text

structure EvidenceBundleDocumentReference where
  id : Text
  title : Text
  packetFilename : Text
  status : DocumentStatus
  classification : ClassificationLevel
  retentionStatus : RetentionStatus

inductive EvidenceBundleChecklistId where
  | manifest | auditChain | recommendationPackets | documentPackets | retentionEvidence

structure EvidenceBundleChecklistItem where
  id : EvidenceBundleChecklistId
  label : Text
  complete : Bool
  evidenceCount : Nat

structure EvidenceBundleSummary where
  recommendationPackets : Nat
  documentPackets : Nat
  totalPackets : Nat
  missingSelections : Nat

structure EvidenceBundlePackets where
  recommendations : List EvidenceBundleRecommendationReference
  documents : List EvidenceBundleDocumentReference

structure EvidenceBundleManifest where
  bundleId : Text
  bundleFilename : Text
  generatedAt : Text
  metadataOnly : Bool
  excludedSensitiveFields : List Text
  auditChain : AuditChainStatus
  summary : EvidenceBundleSummary
  retentionSummary : RetentionSummary
  packets : EvidenceBundlePackets
  checklist : List EvidenceBundleChecklistItem
  missingSelectionIds : List Text

structure EvidenceBundleSelection where
  selectedRecommendationIds : List Text
  selectedDocumentIds : List Text
  generatedAt : Option Text := none

def recommendationReference (item : EvidenceRecommendationTarget) : EvidenceBundleRecommendationReference where
  id := item.id
  title := item.title
  severity := item.severity
  workflowStatus := item.workflowStatus
  ownerLabel := item.ownerLabel
  affectedActorIds := item.affectedActorIds
  packetFilename := item.packetFilename

def documentReference (item : EvidenceDocumentPacketTarget) : EvidenceBundleDocumentReference where
  id := item.docId
  title := item.title
  status := item.status
  classification := item.classification
  retentionStatus := item.retentionStatus
  packetFilename := item.packetFilename

def bundleChecklist (model : EvidenceCenterModel) (selection : EvidenceBundleSelection)
    (recommendations : List EvidenceBundleRecommendationReference)
    (documents : List EvidenceBundleDocumentReference) : List EvidenceBundleChecklistItem :=
  [{ id := .manifest
     label := utf16 "Bundle manifest exported"
     complete := true
     evidenceCount := recommendations.length + documents.length },
   { id := .auditChain
     label := utf16 "Audit chain verified"
     complete := model.auditChain.valid
     evidenceCount := model.auditChain.checked },
   { id := .recommendationPackets
     label := utf16 "Recommendation packets selected"
     complete := 0 < selection.selectedRecommendationIds.length &&
       recommendations.length = selection.selectedRecommendationIds.length
     evidenceCount := recommendations.length },
   { id := .documentPackets
     label := utf16 "Document packets selected"
     complete := 0 < selection.selectedDocumentIds.length && documents.length = selection.selectedDocumentIds.length
     evidenceCount := documents.length },
   { id := .retentionEvidence
     label := utf16 "Retention evidence linked"
     complete := 0 < model.retentionSummary.tracked
     evidenceCount := model.retentionSummary.tracked }]

def buildEvidenceBundle (R : Runtime) (model : EvidenceCenterModel) (selection : EvidenceBundleSelection) :
    EvidenceBundleManifest :=
  let generatedAt := selection.generatedAt.getD model.generatedAt
  let bundleId := utf16 "docvault-evidence-bundle-" ++ timestampSlug R generatedAt
  let recommendations := (model.recommendationTargets.filter fun item =>
    selection.selectedRecommendationIds.contains item.id).map recommendationReference
  let documents := (model.documentPacketTargets.filter fun item =>
    selection.selectedDocumentIds.contains item.docId).map documentReference
  let resolvedRecommendationIds := recommendations.map (·.id)
  let resolvedDocumentIds := documents.map (·.id)
  let missingSelectionIds :=
    selection.selectedRecommendationIds.filter (fun id => !resolvedRecommendationIds.contains id) ++
    selection.selectedDocumentIds.filter (fun id => !resolvedDocumentIds.contains id)
  { bundleId
    bundleFilename := bundleId ++ utf16 ".json"
    generatedAt
    metadataOnly := true
    excludedSensitiveFields := EVIDENCE_CENTER_EXCLUDED_SENSITIVE_FIELDS.map utf16
    auditChain := model.auditChain
    summary :=
      { recommendationPackets := recommendations.length
        documentPackets := documents.length
        totalPackets := recommendations.length + documents.length
        missingSelections := missingSelectionIds.length }
    retentionSummary := model.retentionSummary
    packets := { recommendations, documents }
    checklist := bundleChecklist model selection recommendations documents
    missingSelectionIds }

/-! ## Case narratives -/

inductive EvidenceCaseStatus where
  | ready | incomplete | blocked
  deriving DecidableEq

inductive EvidenceCaseSectionState where
  | verified | ready | attention | blocked
  deriving DecidableEq

inductive EvidenceCaseSectionId where
  | metadata | workflow | retention | audit
  deriving DecidableEq

structure EvidenceCaseAuditChain where
  state : EvidenceCaseSectionState
  label : Text
  checkedEvents : Nat

structure EvidenceCaseIntegrityBadge where
  state : EvidenceCaseSectionState
  label : Text
  detail : Text

structure EvidenceCaseRetentionPosture where
  state : EvidenceCaseSectionState
  label : Text
  tracked : Nat
  dueSoon : Nat
  overdue : Nat
  archived : Nat

structure EvidenceCaseTimelineItem extends EvidenceBundleRecommendationReference where
  eventLabel : Text
  sequence : Nat

structure EvidenceCaseSectionItem where
  label : Text
  value : Text

structure EvidenceCaseSection where
  id : EvidenceCaseSectionId
  label : Text
  state : EvidenceCaseSectionState
  summary : Text
  evidenceCount : Nat
  items : List EvidenceCaseSectionItem

structure EvidenceCaseVisualTimelineItem where
  sequence : Nat
  sectionId : EvidenceCaseSectionId
  label : Text
  description : Text
  state : EvidenceCaseSectionState
  evidenceCount : Nat

structure EvidenceCaseNarrative where
  caseId : Text
  generatedAt : Text
  status : EvidenceCaseStatus
  headline : Text
  metadataOnly : Bool
  excludedSensitiveFields : List Text
  auditChain : EvidenceCaseAuditChain
  integrityBadge : EvidenceCaseIntegrityBadge
  retentionPosture : EvidenceCaseRetentionPosture
  sections : List EvidenceCaseSection
  visualTimeline : List EvidenceCaseVisualTimelineItem
  checklist : List EvidenceBundleChecklistItem
  timeline : List EvidenceCaseTimelineItem
  documents : List EvidenceBundleDocumentReference
  warnings : List Text
  blockers : List Text

def formatCount (count : Nat) (singular : String) : Text :=
  utf16 s!"{count} {singular}" ++ if count = 1 then [] else utf16 "s"

def buildRetentionPosture (summary : RetentionSummary) : EvidenceCaseRetentionPosture :=
  let posture (state : EvidenceCaseSectionState) (label : Text) : EvidenceCaseRetentionPosture :=
    { state, label
      tracked := summary.tracked
      dueSoon := summary.dueSoon
      overdue := summary.overdue
      archived := summary.archived }
  if 0 < summary.overdue then posture .blocked (formatCount summary.overdue "retention record" ++ utf16 " overdue")
  else if 0 < summary.dueSoon then
    posture .attention (formatCount summary.dueSoon "retention record" ++ utf16 " due soon")
  else
    posture (if 0 < summary.tracked then .ready else .attention)
      (if 0 < summary.tracked then formatCount summary.tracked "retention record" ++ utf16 " tracked"
      else utf16 "No retention evidence linked")

def buildIntegrityBadge (auditChain : AuditChainStatus) : EvidenceCaseIntegrityBadge where
  state := if auditChain.valid then .verified else .blocked
  label := utf16 (if auditChain.valid then "Audit chain valid" else "Audit chain invalid")
  detail := formatCount auditChain.checked "audit event" ++ utf16 " checked"

/-- `[...new Set(statuses)].join(', ')` -/
def formatWorkflowStatuses (recommendations : List EvidenceBundleRecommendationReference) : Text :=
  if recommendations.length = 0 then utf16 "None"
  else utf16 (join ", " ((recommendations.map (·.workflowStatus)).eraseDups.map (·.text)))

def number (n : Nat) : Text := utf16 (toString n)

def buildEvidenceCaseSections (bundle : EvidenceBundleManifest) (retentionPosture : EvidenceCaseRetentionPosture)
    (integrityBadge : EvidenceCaseIntegrityBadge) : List EvidenceCaseSection :=
  [{ id := .metadata
     label := utf16 "Metadata"
     state := if 0 < bundle.summary.totalPackets && bundle.summary.missingSelections = 0 then .verified
       else .attention
     summary := formatCount bundle.summary.totalPackets "metadata-only packet" ++ utf16 " selected with " ++
       formatCount bundle.summary.missingSelections "missing selection" ++ utf16 "."
     evidenceCount := bundle.summary.totalPackets
     items :=
       [{ label := utf16 "Bundle filename", value := bundle.bundleFilename },
        { label := utf16 "Generated at", value := bundle.generatedAt },
        { label := utf16 "Sensitive fields excluded", value := number bundle.excludedSensitiveFields.length }] },
   { id := .workflow
     label := utf16 "Workflow"
     state := if 0 < bundle.summary.recommendationPackets then .verified else .attention
     summary := formatCount bundle.summary.recommendationPackets "recommendation packet" ++
       utf16 " linked with workflow status and owner context."
     evidenceCount := bundle.summary.recommendationPackets
     items :=
       [{ label := utf16 "Recommendation packets", value := number bundle.summary.recommendationPackets },
        { label := utf16 "Document packets", value := number bundle.summary.documentPackets },
        { label := utf16 "Workflow statuses", value := formatWorkflowStatuses bundle.packets.recommendations }] },
   { id := .retention
     label := utf16 "Retention"
     state := if retentionPosture.state = .ready then .verified else retentionPosture.state
     summary := retentionPosture.label
     evidenceCount := retentionPosture.tracked
     items :=
       [{ label := utf16 "Tracked", value := number retentionPosture.tracked },
        { label := utf16 "Due soon", value := number retentionPosture.dueSoon },
        { label := utf16 "Overdue", value := number retentionPosture.overdue },
        { label := utf16 "Archived", value := number retentionPosture.archived }] },
   { id := .audit
     label := utf16 "Audit"
     state := integrityBadge.state
     summary := integrityBadge.label
     evidenceCount := bundle.auditChain.checked
     items :=
       [{ label := utf16 "Integrity", value := integrityBadge.label },
        { label := utf16 "Checked events", value := number bundle.auditChain.checked },
        { label := utf16 "Hash chain", value := utf16 (if bundle.auditChain.valid then "Valid" else "Invalid") }] }]

def timelineLabels : EvidenceCaseSectionId → String
  | .metadata => "Metadata packet selected"
  | .workflow => "Workflow evidence linked"
  | .retention => "Retention posture checked"
  | .audit => "Audit chain valid"

def buildEvidenceVisualTimeline (sections : List EvidenceCaseSection) : List EvidenceCaseVisualTimelineItem :=
  sections.mapIdx fun index item =>
    { sequence := index + 1
      sectionId := item.id
      label := utf16 (if item.id = .audit && item.state = .blocked then "Audit chain invalid"
        else timelineLabels item.id)
      description := item.summary
      state := item.state
      evidenceCount := item.evidenceCount }

def narrativeWarnings (bundle : EvidenceBundleManifest) : List Text :=
  bundle.missingSelectionIds.map (utf16 "Missing selected packet: " ++ ·) ++
  (if bundle.summary.recommendationPackets = 0 then [utf16 "No recommendation packet selected."] else []) ++
  (if bundle.summary.documentPackets = 0 then [utf16 "No document packet selected."] else [])

def narrativeBlockers (bundle : EvidenceBundleManifest)
    (retentionPosture : EvidenceCaseRetentionPosture) : List Text :=
  (if bundle.auditChain.valid then []
  else [utf16 "Audit chain is not verified. Resolve tamper evidence before presenting this case."]) ++
  (if retentionPosture.state = .blocked then
    [utf16 ("Retention evidence has overdue records. Resolve or explain retention exceptions before " ++
      "presenting this case.")]
  else [])

def buildEvidenceCaseNarrative (R : Runtime) (bundle : EvidenceBundleManifest) : EvidenceCaseNarrative :=
  let retentionPosture := buildRetentionPosture bundle.retentionSummary
  let integrityBadge := buildIntegrityBadge bundle.auditChain
  let sections := buildEvidenceCaseSections bundle retentionPosture integrityBadge
  let warnings := narrativeWarnings bundle
  let blockers := narrativeBlockers bundle retentionPosture
  { caseId := R.toUpperCase bundle.bundleId
    generatedAt := bundle.generatedAt
    status := if 0 < blockers.length then .blocked else if 0 < warnings.length then .incomplete else .ready
    headline := utf16 "Audit case with " ++
      formatCount bundle.summary.recommendationPackets "recommendation packet" ++
      utf16 " and " ++ formatCount bundle.summary.documentPackets "document packet" ++ utf16 "."
    metadataOnly := true
    excludedSensitiveFields := bundle.excludedSensitiveFields
    auditChain :=
      { state := if bundle.auditChain.valid then .verified else .blocked
        label := utf16 (if bundle.auditChain.valid then "Audit chain verified" else "Audit chain needs review")
        checkedEvents := bundle.auditChain.checked }
    integrityBadge
    retentionPosture
    sections
    visualTimeline := buildEvidenceVisualTimeline sections
    checklist := bundle.checklist
    timeline := bundle.packets.recommendations.mapIdx fun index item =>
      { item with
        eventLabel := utf16 "Recommendation packet selected"
        sequence := index + 1 }
    documents := bundle.packets.documents
    warnings
    blockers }

end DocVault.EvidenceCenter
