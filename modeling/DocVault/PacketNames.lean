import DocVault.EvidenceBundle
import DocVault.IsoOrder
import DocVault.SlugWords

/-!
# Packet file names

A packet is named by the slug of a recommendation's id or of a document's title.
Two packets of a bundle have one name exactly when what they are named by has the
same words, as far as a slug keeps them.
-/

namespace DocVault.EvidenceCenter

open Regex Search Words

/-! ## Slugs -/

def isSeparator (u : Nat) : Bool := !(isDigit u || (97 ≤ u && u ≤ 122))

/-- The words of the text in lower case with a dash between them, cut at eighty units. -/
def slugOf (R : Runtime) (value : Text) : Text :=
  ([45].intercalate (wordsOf isSeparator (R.toLowerCase value))).take 80

theorem slugify_eq (R : Runtime) (value : Text) : slugify R value = slugOf R value := by
  have hsep (u : Nat) (hu : decide (u = 45) = true) : isSeparator u = true := by
    rw [of_decide_eq_true hu]
    rfl
  have hstrip : SavedViews.stripDashes (replaceAll isWord (plus isSeparator) (fun _ => [45]) (R.toLowerCase value))
      = [45].intercalate (wordsOf isSeparator (R.toLowerCase value)) :=
    @strip_replaceAll Nat isSeparator 45 isWord (fun u => decide (u = 45)) rfl hsep (R.toLowerCase value)
  rw [slugOf, ← hstrip]
  rfl

/-! ## Names of a bundle -/

inductive PacketReference where
  | recommendation (item : EvidenceBundleRecommendationReference)
  | document (item : EvidenceBundleDocumentReference)

def PacketReference.packetFilename : PacketReference → Text
  | .recommendation item => item.packetFilename
  | .document item => item.packetFilename

def packetReferences (bundle : EvidenceBundleManifest) : List PacketReference :=
  bundle.packets.recommendations.map .recommendation ++ bundle.packets.documents.map .document

def documentBase (R : Runtime) (item : EvidenceBundleDocumentReference) : Text :=
  orElseText (slugOf R item.title) item.id

/-- A recommendation and a document have one name when the words of the id begin as the
names of documents do and the base of the document ends as those of recommendations do. -/
def SameBase (R : Runtime) : PacketReference → PacketReference → Prop
  | .recommendation a, .recommendation b => slugOf R a.id = slugOf R b.id
  | .document a, .document b => documentBase R a = documentBase R b
  | .recommendation a, .document b | .document b, .recommendation a =>
    slugOf R a.id ++ utf16 "-recommendation-evidence" = utf16 "docvault-evidence-" ++ documentBase R b

section
variable {R : Runtime} {items : List SecurityRecommendationRow} {chain : AuditChainStatus}
variable {retentionEvidence : RetentionEvidenceResult} {generatedAt : Text} {selection : EvidenceBundleSelection}

theorem recommendation_packetFilename {item : EvidenceBundleRecommendationReference}
    (h : item ∈ (buildEvidenceBundle R (buildEvidenceCenterModel R items chain retentionEvidence generatedAt)
      selection).packets.recommendations) :
    item.packetFilename = slugOf R item.id ++ utf16 "-recommendation-evidence" ++ utf16 ".json" := by
  obtain ⟨target, htarget, rfl⟩ := List.mem_map.mp h
  obtain ⟨row, -, rfl⟩ := List.mem_map.mp (List.mem_filter.mp htarget).1
  rw [← slugify_eq, List.append_assoc, ← utf16_append]
  rfl

theorem document_packetFilename {item : EvidenceBundleDocumentReference}
    (h : item ∈ (buildEvidenceBundle R (buildEvidenceCenterModel R items chain retentionEvidence generatedAt)
      selection).packets.documents) :
    item.packetFilename = utf16 "docvault-evidence-" ++ documentBase R item ++ utf16 ".json" := by
  obtain ⟨target, htarget, rfl⟩ := List.mem_map.mp h
  obtain ⟨record, -, rfl⟩ := List.mem_map.mp (List.mem_filter.mp htarget).1
  rw [documentBase, ← slugify_eq]
  rfl

end

/-- Two packets of a bundle have one name exactly when they have one base. -/
theorem packet_filenames_iff (R : Runtime) (items : List SecurityRecommendationRow) (chain : AuditChainStatus)
    (retentionEvidence : RetentionEvidenceResult) (generatedAt : Text) (selection : EvidenceBundleSelection) :
    ∀ a ∈ packetReferences (buildEvidenceBundle R
        (buildEvidenceCenterModel R items chain retentionEvidence generatedAt) selection),
      ∀ b ∈ packetReferences (buildEvidenceBundle R
          (buildEvidenceCenterModel R items chain retentionEvidence generatedAt) selection),
        a.packetFilename = b.packetFilename ↔ SameBase R a b := by
  intro a ha b hb
  rw [packetReferences, List.mem_append, List.mem_map, List.mem_map] at ha hb
  obtain ⟨a, ha, rfl⟩ | ⟨a, ha, rfl⟩ := ha
  · have hname := recommendation_packetFilename ha
    obtain ⟨b, hb, rfl⟩ | ⟨b, hb, rfl⟩ := hb
    · have hname' := recommendation_packetFilename hb
      simp only [PacketReference.packetFilename, SameBase, hname, hname', List.append_left_inj]
    · have hname' := document_packetFilename hb
      simp only [PacketReference.packetFilename, SameBase, hname, hname', List.append_left_inj]
  · have hname := document_packetFilename ha
    obtain ⟨b, hb, rfl⟩ | ⟨b, hb, rfl⟩ := hb
    · have hname' := recommendation_packetFilename hb
      simp only [PacketReference.packetFilename, SameBase, hname, hname', List.append_left_inj]
      exact eq_comm
    · have hname' := document_packetFilename hb
      simp only [PacketReference.packetFilename, SameBase, hname, hname',
        List.append_left_inj, List.append_right_inj]

def samplePlan (docId : String) : RetentionEvidenceRow where
  docId := utf16 docId
  title := utf16 "Plan"
  status := .PUBLISHED
  classification := .SECRET
  retentionStatus := .ACTIVE

def samplePlans : RetentionEvidenceResult where
  summary := { tracked := 2, active := 2, dueSoon := 0, overdue := 0, archived := 0 }
  records := [samplePlan "1", samplePlan "2"]

def samplePlanBundle : EvidenceBundleManifest :=
  buildEvidenceBundle sampleRuntime
    (buildEvidenceCenterModel sampleRuntime [] { valid := true, checked := 0 } samplePlans [])
    { selectedRecommendationIds := [], selectedDocumentIds := [utf16 "1", utf16 "2"] }

def samplePlanPacket (docId : String) : PacketReference :=
  .document (documentReference (buildDocumentPacketTarget sampleRuntime (samplePlan docId)))

theorem samplePlanBundle_packets :
    packetReferences samplePlanBundle = [samplePlanPacket "1", samplePlanPacket "2"] := rfl

theorem packet_filenames_sample :
    samplePlanPacket "1" ∈ packetReferences samplePlanBundle ∧
    samplePlanPacket "2" ∈ packetReferences samplePlanBundle ∧
    ((samplePlanPacket "1").packetFilename = (samplePlanPacket "2").packetFilename ↔
      SameBase sampleRuntime (samplePlanPacket "1") (samplePlanPacket "2")) := by
  have hfirst : samplePlanPacket "1" ∈ packetReferences samplePlanBundle := by simp [samplePlanBundle_packets]
  have hsecond : samplePlanPacket "2" ∈ packetReferences samplePlanBundle := by simp [samplePlanBundle_packets]
  exact ⟨hfirst, hsecond, packet_filenames_iff sampleRuntime _ _ _ _ _ _ hfirst _ hsecond⟩

theorem titles_share_a_name :
    ¬ ∀ (items : List SecurityRecommendationRow) (chain : AuditChainStatus)
      (retentionEvidence : RetentionEvidenceResult) (generatedAt : Text) (selection : EvidenceBundleSelection),
      (items.map (·.id)).Nodup → (retentionEvidence.records.map (·.docId)).Nodup →
      ∀ a ∈ packetReferences (buildEvidenceBundle sampleRuntime
          (buildEvidenceCenterModel sampleRuntime items chain retentionEvidence generatedAt) selection),
        ∀ b ∈ packetReferences (buildEvidenceBundle sampleRuntime
            (buildEvidenceCenterModel sampleRuntime items chain retentionEvidence generatedAt) selection),
          a ≠ b → a.packetFilename ≠ b.packetFilename := by
  intro h
  have hdocs : (samplePlans.records.map (·.docId)).Nodup := by decide
  have hfirst : samplePlanPacket "1" ∈ packetReferences samplePlanBundle := by simp [samplePlanBundle_packets]
  have hsecond : samplePlanPacket "2" ∈ packetReferences samplePlanBundle := by simp [samplePlanBundle_packets]
  have hne : samplePlanPacket "1" ≠ samplePlanPacket "2" := by
    intro heq
    injection heq with heq
    have hids : utf16 "1" = utf16 "2" := congrArg (·.id) heq
    revert hids
    decide
  have hslug : slugify sampleRuntime (utf16 "Plan") ≠ [] := by decide
  have hname : (samplePlanPacket "1").packetFilename = (samplePlanPacket "2").packetFilename := by
    simp [samplePlanPacket, PacketReference.packetFilename, documentReference,
      buildDocumentPacketTarget, samplePlan, orElseText, hslug]
  exact h [] _ samplePlans [] _ List.nodup_nil hdocs _ hfirst _ hsecond hne hname

end DocVault.EvidenceCenter
