import DocVault.EvidenceCenter
import DocVault.SearchAgreement

/-!
# Bundles and their case narrative

A bundle holds the selected packets and names the selected ids it has no packet
for. The narrative reads its readiness from warnings and blockers, the checklist
from the selection: they say the same.
-/

namespace DocVault.EvidenceCenter

open Search

/-- A model as the server's summaries make it. -/
structure EvidenceCenterModel.Distinct (model : EvidenceCenterModel) : Prop where
  recommendations : (model.recommendationTargets.map (·.id)).Nodup
  documents : (model.documentPacketTargets.map (·.docId)).Nodup
  tracked : model.retentionSummary.tracked = model.documentPacketTargets.length

theorem distinct_buildEvidenceCenterModel {R : Runtime} {items : List SecurityRecommendationRow}
    {chain : AuditChainStatus} {retentionEvidence : RetentionEvidenceResult} {generatedAt : Text}
    (hitems : (items.map (·.id)).Nodup) (hrecords : (retentionEvidence.records.map (·.docId)).Nodup)
    (htracked : retentionEvidence.summary.tracked = retentionEvidence.records.length) :
    (buildEvidenceCenterModel R items chain retentionEvidence generatedAt).Distinct where
  recommendations := by
    rw [buildEvidenceCenterModel, List.map_map]
    exact hitems
  documents := by
    rw [buildEvidenceCenterModel, List.map_map]
    exact hrecords
  tracked := by
    rw [buildEvidenceCenterModel, List.length_map]
    exact htracked

structure EvidenceBundleSelection.Distinct (selection : EvidenceBundleSelection) : Prop where
  recommendations : selection.selectedRecommendationIds.Nodup
  documents : selection.selectedDocumentIds.Nodup

/-! ## Selecting -/

section
variable {τ : Type} {id : τ → Text} {targets : List τ} {selected : List Text}

def chosen (id : τ → Text) (targets : List τ) (selected : List Text) : List τ :=
  targets.filter fun item => selected.contains (id item)

theorem mem_chosen {item : τ} : item ∈ chosen id targets selected ↔ item ∈ targets ∧ id item ∈ selected := by
  simp [chosen]

theorem missing_eq : selected.filter (fun i => !((chosen id targets selected).map id).contains i)
    = selected.filter (fun i => !(targets.map id).contains i) := by
  apply List.filter_congr
  intro i hi
  have hiff : i ∈ (chosen id targets selected).map id ↔ i ∈ targets.map id := by
    simp only [List.mem_map, mem_chosen]
    apply Iff.intro
    · intro ⟨item, ⟨hitem, _⟩, heq⟩
      exact ⟨item, hitem, heq⟩
    · intro ⟨item, hitem, heq⟩
      exact ⟨item, ⟨hitem, heq ▸ hi⟩, heq⟩
  simp only [List.contains_eq_mem, hiff]

theorem chosen_nodup (h : (targets.map id).Nodup) : ((chosen id targets selected).map id).Nodup :=
  h.sublist (List.filter_sublist.map id)

theorem chosen_add_missing (h : (targets.map id).Nodup) (hsel : selected.Nodup) :
    (chosen id targets selected).length + (selected.filter fun i => !(targets.map id).contains i).length
      = selected.length := by
  have hfound : ((chosen id targets selected).map id).Perm (selected.filter (targets.map id).contains) := by
    apply (List.perm_ext_iff_of_nodup (chosen_nodup h) (hsel.filter _)).mpr
    intro i
    simp only [List.mem_map, mem_chosen, List.mem_filter, List.contains_iff_mem]
    apply Iff.intro
    · intro ⟨item, ⟨hitem, hsel⟩, heq⟩
      exact ⟨heq ▸ hsel, item, hitem, heq⟩
    · intro ⟨hi, item, hitem, heq⟩
      exact ⟨item, ⟨hitem, heq ▸ hi⟩, heq⟩
  have hlen := hfound.length_eq
  rw [List.length_map] at hlen
  rw [hlen, ← List.length_append]
  exact (List.filter_append_perm _ _).length_eq

theorem length_chosen_iff (h : (targets.map id).Nodup) (hsel : selected.Nodup) :
    (chosen id targets selected).length = selected.length ↔
      selected.filter (fun i => !(targets.map id).contains i) = [] := by
  have hsum := chosen_add_missing h hsel
  rw [← List.length_eq_zero_iff]
  omega

end

section
variable {model : EvidenceCenterModel} {selection : EvidenceBundleSelection} {R : Runtime}

def chosenRecommendations (model : EvidenceCenterModel) (selection : EvidenceBundleSelection) :
    List EvidenceRecommendationTarget :=
  chosen (·.id) model.recommendationTargets selection.selectedRecommendationIds

def chosenDocuments (model : EvidenceCenterModel) (selection : EvidenceBundleSelection) :
    List EvidenceDocumentPacketTarget :=
  chosen (·.docId) model.documentPacketTargets selection.selectedDocumentIds

/-- The selected ids that the model has no target for, recommendations first. -/
def missingIds (model : EvidenceCenterModel) (selection : EvidenceBundleSelection) : List Text :=
  selection.selectedRecommendationIds.filter (fun id => !(model.recommendationTargets.map (·.id)).contains id) ++
  selection.selectedDocumentIds.filter (fun id => !(model.documentPacketTargets.map (·.docId)).contains id)

theorem bundle_recommendations : (buildEvidenceBundle R model selection).packets.recommendations
    = (chosenRecommendations model selection).map recommendationReference := rfl

theorem bundle_documents : (buildEvidenceBundle R model selection).packets.documents
    = (chosenDocuments model selection).map documentReference := rfl

theorem bundle_missing :
    (buildEvidenceBundle R model selection).missingSelectionIds = missingIds model selection := by
  have hmap : (buildEvidenceBundle R model selection).missingSelectionIds
      = selection.selectedRecommendationIds.filter
          (fun id => !(((chosenRecommendations model selection).map recommendationReference).map
            (·.id)).contains id) ++
        selection.selectedDocumentIds.filter
          (fun id => !(((chosenDocuments model selection).map documentReference).map (·.id)).contains id) := rfl
  rw [hmap, List.map_map, List.map_map]
  exact congr (congrArg (· ++ ·) missing_eq) missing_eq

theorem bundle_summary : (buildEvidenceBundle R model selection).summary =
    { recommendationPackets := (chosenRecommendations model selection).length
      documentPackets := (chosenDocuments model selection).length
      totalPackets := (chosenRecommendations model selection).length + (chosenDocuments model selection).length
      missingSelections := (missingIds model selection).length } := by
  rw [← bundle_missing (R := R)]
  simp [buildEvidenceBundle, chosenRecommendations, chosenDocuments, chosen]

end

/-! ## The packets of a bundle -/

/-- What a bundle holds of its model. -/
structure Bundles (model : EvidenceCenterModel) (selection : EvidenceBundleSelection)
    (bundle : EvidenceBundleManifest) : Prop where
  recommendations : ∀ packet, packet ∈ bundle.packets.recommendations ↔
    ∃ target ∈ model.recommendationTargets, target.id ∈ selection.selectedRecommendationIds ∧
      packet = recommendationReference target
  recommendations_once : (bundle.packets.recommendations.map (·.id)).Nodup
  documents : ∀ packet, packet ∈ bundle.packets.documents ↔
    ∃ target ∈ model.documentPacketTargets, target.docId ∈ selection.selectedDocumentIds ∧
      packet = documentReference target
  documents_once : (bundle.packets.documents.map (·.id)).Nodup
  missing : bundle.missingSelectionIds = missingIds model selection
  total : bundle.summary.totalPackets + bundle.summary.missingSelections
    = selection.selectedRecommendationIds.length + selection.selectedDocumentIds.length

/-- What a narrative may claim of its model and checklist. -/
structure StatusAgrees (model : EvidenceCenterModel) (narrative : EvidenceCaseNarrative) : Prop where
  blocked : narrative.status = .blocked ↔ model.auditChain.valid = false ∨ 0 < model.retentionSummary.overdue
  ready : narrative.status = .ready ↔
    (∀ item ∈ narrative.checklist, item.complete = true) ∧ model.retentionSummary.overdue = 0

section
variable {model : EvidenceCenterModel} {selection : EvidenceBundleSelection} {R : Runtime}

theorem bundle_bundles (hmodel : model.Distinct) (hsel : selection.Distinct) :
    Bundles model selection (buildEvidenceBundle R model selection) where
  recommendations packet := by
    simp only [bundle_recommendations, chosenRecommendations, List.mem_map, mem_chosen, and_assoc, eq_comm]
  recommendations_once := by
    rw [bundle_recommendations, List.map_map]
    exact chosen_nodup hmodel.recommendations
  documents packet := by
    simp only [bundle_documents, chosenDocuments, List.mem_map, mem_chosen, and_assoc, eq_comm]
  documents_once := by
    rw [bundle_documents, List.map_map]
    exact chosen_nodup hmodel.documents
  missing := bundle_missing
  total := by
    have hrecommendations := chosen_add_missing hmodel.recommendations hsel.recommendations
    have hdocuments := chosen_add_missing hmodel.documents hsel.documents
    rw [bundle_summary, missingIds, List.length_append]
    simp only [chosenRecommendations, chosenDocuments]
    omega

theorem posture_blocked_iff (summary : RetentionSummary) :
    (buildRetentionPosture summary).state = .blocked ↔ 0 < summary.overdue := by
  unfold buildRetentionPosture
  by_cases hoverdue : 0 < summary.overdue
  · simp [hoverdue]
  · by_cases hsoon : 0 < summary.dueSoon
    · simp [hoverdue, hsoon]
    · by_cases htracked : 0 < summary.tracked
      · simp [hoverdue, hsoon, htracked]
      · simp [hoverdue, hsoon, htracked]

theorem blockers_nil_iff (bundle : EvidenceBundleManifest) :
    narrativeBlockers bundle (buildRetentionPosture bundle.retentionSummary) = [] ↔
      bundle.auditChain.valid = true ∧ bundle.retentionSummary.overdue = 0 := by
  have hposture := posture_blocked_iff bundle.retentionSummary
  simp only [narrativeBlockers, List.append_eq_nil_iff, ite_eq_left_iff, ite_eq_right_iff, hposture]
  simp

theorem warnings_nil_iff (bundle : EvidenceBundleManifest) :
    narrativeWarnings bundle = [] ↔ bundle.missingSelectionIds = [] ∧
      bundle.summary.recommendationPackets ≠ 0 ∧ bundle.summary.documentPackets ≠ 0 := by
  simp [narrativeWarnings]

theorem status_cases (bundle : EvidenceBundleManifest) :
    ((buildEvidenceCaseNarrative R bundle).status = .blocked ↔
      narrativeBlockers bundle (buildRetentionPosture bundle.retentionSummary) ≠ []) ∧
    ((buildEvidenceCaseNarrative R bundle).status = .ready ↔
      narrativeBlockers bundle (buildRetentionPosture bundle.retentionSummary) = [] ∧
      narrativeWarnings bundle = []) := by
  simp only [buildEvidenceCaseNarrative, List.length_pos_iff]
  by_cases hblockers : narrativeBlockers bundle (buildRetentionPosture bundle.retentionSummary) = []
  · by_cases hwarnings : narrativeWarnings bundle = []
    · simp [hblockers, hwarnings]
    · simp [hblockers, hwarnings]
  · simp [hblockers]

theorem status_blocked_iff {bundle : EvidenceBundleManifest} :
    (buildEvidenceCaseNarrative R bundle).status = .blocked ↔
      bundle.auditChain.valid = false ∨ 0 < bundle.retentionSummary.overdue := by
  rw [(status_cases bundle).1, Ne, blockers_nil_iff, Nat.pos_iff_ne_zero, ← Bool.not_eq_true]
  exact not_and_or

theorem status_ready_iff {bundle : EvidenceBundleManifest} :
    (buildEvidenceCaseNarrative R bundle).status = .ready ↔
      (bundle.auditChain.valid = true ∧ bundle.retentionSummary.overdue = 0) ∧
      bundle.missingSelectionIds = [] ∧ bundle.summary.recommendationPackets ≠ 0 ∧
      bundle.summary.documentPackets ≠ 0 := by
  rw [(status_cases bundle).2, blockers_nil_iff, warnings_nil_iff]

/-- The checklist of a bundle, for selections without repeated ids. -/
theorem checklist_complete_iff (hmodel : model.Distinct) (hsel : selection.Distinct) :
    (∀ item ∈ (buildEvidenceBundle R model selection).checklist, item.complete = true) ↔
      model.auditChain.valid = true ∧ missingIds model selection = [] ∧
      (chosenRecommendations model selection).length ≠ 0 ∧ (chosenDocuments model selection).length ≠ 0 := by
  have hrecommendations := length_chosen_iff hmodel.recommendations hsel.recommendations
  have hdocuments := length_chosen_iff hmodel.documents hsel.documents
  have htracked : (chosenDocuments model selection).length ≤ model.retentionSummary.tracked := by
    rw [hmodel.tracked]
    exact List.length_filter_le _ _
  have hlist : (buildEvidenceBundle R model selection).checklist = bundleChecklist model selection
      ((chosenRecommendations model selection).map recommendationReference)
      ((chosenDocuments model selection).map documentReference) := rfl
  rw [hlist, missingIds, List.append_eq_nil_iff, ← hrecommendations, ← hdocuments]
  simp only [bundleChecklist, List.forall_mem_cons, List.length_map, Bool.and_eq_true, decide_eq_true_eq,
    List.not_mem_nil, false_imp_iff, implies_true, chosenRecommendations, chosenDocuments, true_and, and_true]
    at htracked ⊢
  cases model.auditChain.valid with
  | false => simp
  | true =>
    simp only [true_and]
    omega

theorem narrative_agrees (hmodel : model.Distinct) (hsel : selection.Distinct) :
    StatusAgrees model (buildEvidenceCaseNarrative R (buildEvidenceBundle R model selection)) where
  blocked := status_blocked_iff
  ready := by
    have hcomplete := checklist_complete_iff (R := R) hmodel hsel
    rw [status_ready_iff, bundle_missing, bundle_summary]
    have hsame : (buildEvidenceCaseNarrative R (buildEvidenceBundle R model selection)).checklist
        = (buildEvidenceBundle R model selection).checklist := rfl
    rw [hsame, hcomplete]
    apply Iff.intro
    · intro ⟨⟨hvalid, hoverdue⟩, hrest⟩
      exact ⟨⟨hvalid, hrest⟩, hoverdue⟩
    · intro ⟨⟨hvalid, hrest⟩, hoverdue⟩
      exact ⟨⟨hvalid, hoverdue⟩, hrest⟩

end

/-! ## Bundles and narratives -/

theorem evidence_bundle_faithful (R : Runtime) (model : EvidenceCenterModel) (selection : EvidenceBundleSelection)
    (hmodel : model.Distinct) (hsel : selection.Distinct) :
    Bundles model selection (buildEvidenceBundle R model selection) ∧
      StatusAgrees model (buildEvidenceCaseNarrative R (buildEvidenceBundle R model selection)) :=
  ⟨bundle_bundles hmodel hsel, narrative_agrees hmodel hsel⟩

def sampleTarget : EvidenceRecommendationTarget where
  id := utf16 "document-access-review:doc-secret"
  title := utf16 "Review document access"
  severity := .critical
  workflowStatus := .OPEN
  ownerLabel := utf16 "Unassigned"
  affectedActorIds := []
  packetFilename := utf16 "document-access-review-doc-secret-recommendation-evidence.json"

def sampleModel : EvidenceCenterModel where
  generatedAt := utf16 "2026-06-02T09:00:00.000Z"
  auditChain := { valid := true, checked := 42 }
  recommendationTargets := [sampleTarget]
  documentPacketTargets := []
  retentionSummary := { tracked := 0, active := 0, dueSoon := 0, overdue := 0, archived := 0 }

def sampleSelection : EvidenceBundleSelection where
  selectedRecommendationIds := [sampleTarget.id]
  selectedDocumentIds := [utf16 "doc-gone"]

theorem evidence_bundle_faithful_sample : sampleModel.Distinct ∧ sampleSelection.Distinct ∧
    Bundles sampleModel sampleSelection (buildEvidenceBundle sampleRuntime sampleModel sampleSelection) ∧
    StatusAgrees sampleModel
      (buildEvidenceCaseNarrative sampleRuntime
        (buildEvidenceBundle sampleRuntime sampleModel sampleSelection)) := by
  have hmodel : sampleModel.Distinct := ⟨List.nodup_singleton _, List.nodup_nil, rfl⟩
  have hsel : sampleSelection.Distinct := ⟨List.nodup_singleton _, List.nodup_singleton _⟩
  exact ⟨hmodel, hsel, evidence_bundle_faithful sampleRuntime sampleModel sampleSelection hmodel hsel⟩

end DocVault.EvidenceCenter
