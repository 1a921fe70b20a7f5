import DocVault.Lifecycle

/-!
# The scan result of the current version

A document carries the scan result of its current version, and a label no
lower than `CONFIDENTIAL` while that is `DETECTED`, unless an admin has given a
reason for a downgrade. Registrations and metadata updates keep it so. A
restored version brings the scan result of its source, which the restore does
not write to the document.
-/

namespace DocVault

open Interleave

/-! ## The floor -/

def DocumentTask.overrides (docId : String) (overridden : Bool) : DocumentTask → Bool
  | .createVersion id _ _ | .restoreVersion id _ _ => overridden && id ≠ docId
  | .update id dto request => overridden || (id = docId && request.user.roles.contains "admin" &&
      (dto.classification = some .PUBLIC || dto.classification = some .INTERNAL) &&
      DocumentsService.overrideReason dto ≠ "")
  | _ => overridden

/-- Whether an admin has given a reason for a downgrade of the document since its current version became current. -/
def overridden (docId : String) (done : List (DocumentTask × Except HttpError DocumentOutcome)) : Bool :=
  done.foldl (fun b d => match d.2 with
    | .ok _ => d.1.overrides docId b
    | .error _ => b) false

def atLeastConfidential (classification : ClassificationLevel) : Bool :=
  classification = .CONFIDENTIAL || classification = .SECRET

section
variable {ι : Type} {p : ι}

/-- A document with a current version has its scan result and, if that is `DETECTED`, its label. -/
def DlpFloor (overridden : Bool) (db : MetadataDb ι) (document : Document) : Prop :=
  document.currentVersion ≠ 0 → ∃ row, db.version document.id document.currentVersion = some row ∧
    document.dlpStatus = row.dlpStatus ∧
    (row.dlpStatus = .DETECTED → atLeastConfidential document.classification = true ∨ overridden = true)

/-- A restore that the guards let through finds the scan result of its source
on the document, and the label that this calls for. -/
def RestoreFinds (db : MetadataDb ι) : DocumentTask → Prop
  | .restoreVersion docId version request => ∀ document, db.find docId = some document →
      ∀ source, db.version docId version = some source → request.organizationId = some document.organizationId →
      VersionsService.assertCanManage document.ownerId request.user = .ok () →
      VersionsService.restoreGuard version document = .ok () →
      source.dlpStatus = document.dlpStatus ∧
        (source.dlpStatus = .DETECTED → atLeastConfidential document.classification = true)
  | _ => True

def Floor (overridden : String → Bool) (db : MetadataDb ι) : Prop :=
  ∀ id document, db.find id = some document → DlpFloor (overridden id) db document

/-! ## One write -/

theorem DlpFloor.mono {b b' : Bool} (hb : b = true → b' = true) {db db' : MetadataDb ι} {document : Document}
    (hv : db'.version document.id document.currentVersion = db.version document.id document.currentVersion)
    (hf : DlpFloor b db document) : DlpFloor b' db' document := by
  intro hc
  obtain ⟨row, hrow, hs, hl⟩ := hf hc
  exact ⟨row, hv.trans hrow, hs, fun hd => (hl hd).imp_right hb⟩

theorem updateGuard_ok {dto : UpdateDocumentDto} {request : Request} {document : Document} {u : Unit}
    (h : DocumentsService.updateGuard dto request document = .ok u) (hd : document.dlpStatus = .DETECTED)
    (hc : dto.classification = some .PUBLIC ∨ dto.classification = some .INTERNAL) :
    request.user.roles.contains "admin" = true ∧ DocumentsService.overrideReason dto ≠ "" := by
  unfold DocumentsService.updateGuard at h
  dsimp only at h
  cases hm : DocumentsService.assertCanManage document.ownerId request.context.actorId request.context.roles with
  | error e => rw [hm] at h; cases h
  | ok u =>
    rw [hm] at h
    have hdown : (document.dlpStatus = .DETECTED &&
        (dto.classification = some .PUBLIC || dto.classification = some .INTERNAL)) = true := by simp [hd, hc]
    simp only [bind, Except.bind, hdown, if_true] at h
    split at h
    · cases h
    · rename_i hadmin
      split at h
      · cases h
      · rename_i hreason
        exact ⟨by simpa [Request.context] using hadmin, hreason⟩

theorem floor_updated {db : MetadataDb ι} {docId : String} {dto : UpdateDocumentDto} {request : Request}
    {document : Document} {b : Bool}
    (guard : DocumentsService.updateGuard dto request document = .ok ()) (hf : DlpFloor b db document) :
    DlpFloor ((DocumentTask.update docId dto request).overrides docId b) db
      (DocumentUpdate.set { classification := dto.classification } document) := by
  intro hc
  obtain ⟨row, hrow, hs, hl⟩ := hf hc
  refine ⟨row, hrow, hs, fun hd => ?_⟩
  show atLeastConfidential (dto.classification.getD document.classification) = true ∨ _
  simp only [DocumentTask.overrides, Bool.or_eq_true]
  cases hclass : dto.classification with
  | none => exact (hl hd).imp_right .inl
  | some classification =>
    cases classification with
    | CONFIDENTIAL | SECRET => exact .inl rfl
    | PUBLIC | INTERNAL =>
      obtain ⟨hadmin, hreason⟩ := updateGuard_ok guard (hs.trans hd) (by simp [hclass])
      have hadmin' : "admin" ∈ request.user.roles := by simpa using hadmin
      exact .inr (.inr (by simp [hadmin', hreason]))

theorem floor_registered {db : MetadataDb ι} {docId : String} {dto : CreateVersionDto} {request : Request}
    {document : Document} (found : db.find docId = some document)
    (new : db.version docId dto.version = none) (b : Bool) :
    DlpFloor b (db.createVersion p (VersionsService.createRow docId dto request.user)
        (VersionsService.createData dto document request.now) document)
      ((VersionsService.createData dto document request.now).set document) := by
  intro _
  refine ⟨VersionsService.createRow docId dto request.user, ?_, rfl, fun hd => .inl ?_⟩
  · rw [version_createVersion new]
    exact if_pos ⟨(find_id found).symm, rfl⟩
  · have hd' : dto.dlpStatus.getD .NOT_SCANNED = .DETECTED := hd
    simp only [VersionsService.createData, DocumentUpdate.set, hd', decide_true, Bool.true_and]
    cases document.classification <;> rfl

theorem floor_versionRestored {db : MetadataDb ι} {docId : String} {request : Request}
    {document : Document} {source : DocumentVersion} (found : db.find docId = some document)
    (hr : source.dlpStatus = document.dlpStatus ∧
      (source.dlpStatus = .DETECTED → atLeastConfidential document.classification = true))
    (new : db.version docId (document.currentVersion + 1) = none) (b : Bool) :
    DlpFloor b (db.createVersion p (VersionsService.restoreRow docId source request.user document)
        { currentVersion := some (document.currentVersion + 1) } document)
      (DocumentUpdate.set { currentVersion := some (document.currentVersion + 1) } document) := by
  intro _
  refine ⟨VersionsService.restoreRow docId source request.user document, ?_, hr.1.symm, fun hd => .inl (hr.2 hd)⟩
  rw [version_createVersion new]
  exact if_pos ⟨(find_id found).symm, rfl⟩

theorem overrides_mono {t : DocumentTask} {id : String} {b : Bool}
    (h : ∀ docId dto request, t = .createVersion docId dto request → docId ≠ id)
    (h' : ∀ docId version request, t = .restoreVersion docId version request → docId ≠ id) (hb : b = true) :
    t.overrides id b = true := by
  cases t <;> simp_all [DocumentTask.overrides]

/-- A write that sets neither the scan result, the version nor the label. -/
theorem DlpFloor.kept {b b' : Bool} (hb : b = true → b' = true) {db : MetadataDb ι} {document : Document}
    {data : DocumentUpdate} (hd : data.dlp = none) (hv : data.currentVersion = none)
    (hc : data.classification = none) (hf : DlpFloor b db document) : DlpFloor b' db (data.set document) := by
  have hm : DlpFloor b' db document := hf.mono hb rfl
  unfold DlpFloor at *
  simpa only [DocumentUpdate.set, hd, hv, hc, Option.map_none, Option.getD_none] using hm

variable {t : DocumentTask} {ov : String → Bool}

theorem floor_update {db : MetadataDb ι} {id : String} {notDeleted : Bool} {data : DocumentUpdate}
    {row : Option DocumentWorkflowHistory} {document : Document} (found : db.target id notDeleted = some document)
    (ha : Allowed db t (.updateDocument id notDeleted data row)) (hf : Floor ov db) :
    Floor (fun id => t.overrides id (ov id)) (db.update p id notDeleted data row document) := by
  have hkeep : ∀ id', ov id' = true → t.overrides id' (ov id') = true := fun id' => overrides_mono
    (by rintro _ _ _ rfl; cases ha <;> contradiction) (by rintro _ _ _ rfl; cases ha <;> contradiction)
  intro id' d hd
  rw [find_update (target_find found)] at hd
  split at hd
  · rename_i hid
    subst hid
    obtain rfl := Option.some.inj hd
    have hdoc := hf _ document (target_find found)
    cases ha with
    | moved | chained | restored | held | retired | marked => exact hdoc.kept (hkeep _) rfl rfl rfl
    | updated hfound _ guard =>
      obtain rfl := Option.some.inj (hfound.symm.trans (target_find found))
      exact floor_updated guard hdoc
  · exact (hf id' d hd).mono (hkeep id') rfl

theorem floor_createVersion {db : MetadataDb ι} {row : DocumentVersion}
    {data : DocumentUpdate} {document : Document}
    (hr : RestoreFinds db t) (found : db.find row.docId = some document)
    (new : db.version row.docId row.version = none) (ha : Allowed db t (.createVersion row data))
    (hf : Floor ov db) : Floor (fun id => t.overrides id (ov id)) (db.createVersion p row data document) := by
  intro id' d hd
  rw [find_createVersion found] at hd
  split at hd
  · rename_i hid
    subst hid
    obtain rfl := Option.some.inj hd
    cases ha with
    | registered hfound _ guard =>
      obtain rfl := Option.some.inj (hfound.symm.trans found)
      exact floor_registered found new _
    | versionRestored hfound member manages hsource guard =>
      obtain rfl := Option.some.inj (hfound.symm.trans found)
      exact floor_versionRestored found (hr _ hfound _ hsource member manages guard) new _
  · rename_i hid
    refine (hf id' d hd).mono (overrides_mono ?_ ?_) ?_
    · rintro _ _ _ rfl; cases ha; exact hid
    · rintro _ _ _ rfl; cases ha; exact hid
    · rw [version_createVersion new, if_neg (fun h => hid (h.1.trans (find_id hd)))]

theorem floor_does {db db' : MetadataDb ι} (hr : RestoreFinds db t) (h : Does p t db db') (hf : Floor ov db) :
    Floor (fun id => t.overrides id (ov id)) db' := by
  obtain ⟨o, ha, hw⟩ := h
  cases hw with
  | create new =>
    intro id d hd
    rw [find_create new] at hd
    cases ha
    split at hd
    · obtain rfl := Option.some.inj hd
      exact fun h => absurd rfl h
    · exact hf id d hd
  | update found => exact floor_update found ha hf
  | delete found =>
    intro id d hd
    rw [find_delete] at hd
    cases ha
    split at hd
    · cases hd
    · rename_i hid
      refine (hf id d hd).mono (fun h => h) ?_
      rw [version_delete, if_neg (fun h => hid (h.trans (find_id hd)))]
  | createVersion found new => exact floor_createVersion hr found new ha hf

theorem floor_job {db db' : MetadataDb ι} (hj : t.isJob = true) (h : Did p t db db')
    (hf : Floor ov db) : Floor ov db' := by
  induction h with
  | refl => exact hf
  | tail _ hstep ih =>
    cases t with
    | runRetention now => exact floor_does (t := .runRetention now) trivial hstep ih
    | purgeExpiredTrash now => exact floor_does (t := .purgeExpiredTrash now) trivial hstep ih
    | _ => cases hj

end

/-! ## Runs -/

theorem overridden_append (docId : String) (done : List (DocumentTask × Except HttpError DocumentOutcome))
    (t : DocumentTask) (out : Except HttpError DocumentOutcome) : overridden docId (done ++ [(t, out)]) =
      match out with
      | .ok _ => t.overrides docId (overridden docId done)
      | .error _ => overridden docId done := by
  rw [overridden, List.foldl_append]
  rfl

/-- After any requests and jobs one after another, of which each restore of a
version finds on the document what its source says, every document keeps the floor. -/
theorem dlp_floor {done : List (DocumentTask × Except HttpError DocumentOutcome)} {db : MetadataDb DocumentTask}
    (hr : DocumentRuns RestoreFinds done db) :
    ∀ document ∈ db.documents, DlpFloor (overridden document.id done) db document := by
  have hi : db.Unique ∧ Floor (fun id => overridden id done) db := by
    refine Serial.invariant (I := fun done db => db.Unique ∧ Floor (fun id => overridden id done) db) hr
      ⟨List.nodup_nil, fun _ _ h => nomatch h⟩ ?_
    rintro done db t out db' ⟨hU, hf⟩ hc hx
    have hd : Did t t db db' := task_did hU hx
    refine ⟨hd.unique hU, ?_⟩
    simp only [overridden_append]
    rcases task_alone (p := t) hU hx with ⟨hj, hdid⟩ | ⟨_, ⟨_, rfl, hdoes⟩ | ⟨_, rfl, rfl⟩⟩
    · have hf' := floor_job hj hdid hf
      cases out with
      | error e => exact hf'
      | ok a =>
        cases t with
        | runRetention now | purgeExpiredTrash now => exact hf'
        | _ => cases hj
    · exact floor_does hc hdoes hf
    · exact hf
  intro document hm
  exact hi.2 document.id document (hi.1.find hm)

instance {ι : Type} (db : MetadataDb ι) : DecidablePred (RestoreFinds db)
  | .restoreVersion docId version request => inferInstanceAs (Decidable (∀ document ∈ db.find docId,
      ∀ source ∈ db.version docId version, request.organizationId = some document.organizationId →
      VersionsService.assertCanManage document.ownerId request.user = .ok () →
      VersionsService.restoreGuard version document = .ok () →
      source.dlpStatus = document.dlpStatus ∧
        (source.dlpStatus = .DETECTED → atLeastConfidential document.classification = true)))
  | .create _ _ _ | .updateStatus _ _ _ | .submit _ _ | .approve _ _ | .reject _ _ _ | .archive _ _ | .delete _ _
  | .setApprovalChain _ _ _ | .advanceApprovalStep _ _ | .restoreFromTrash _ _ | .update _ _ _ | .setLegalHold _ _ _
  | .createVersion _ _ _ | .runRetention _ | .purgeExpiredTrash _ | .markDeleted _ _ => isTrue trivial

def scanned (version : Int) (dlpStatus : DlpStatus) : CreateVersionDto where
  version := version
  objectKey := s!"doc/d-1/v{version}/plan.txt"
  checksum := s!"sum-{version}"
  size := 1
  filename := "plan.txt"
  dlpStatus := some dlpStatus

-- Two versions, and then the first one again.
def scannedTasks (first second : DlpStatus) : List DocumentTask :=
  let owner := requestOf "u-1" "editor" 0
  [.create {} owner "d-1", .createVersion "d-1" (scanned 1 first) owner,
    .createVersion "d-1" (scanned 2 second) owner, .restoreVersion "d-1" 1 owner]

def scannedRun (first second : DlpStatus) :
    List (DocumentTask × Except HttpError DocumentOutcome) × MetadataDb DocumentTask :=
  serially documentRun DocumentTask.prog (scannedTasks first second) [] (emptyMetadata DocumentTask)

theorem dlp_floor_sample : ∃ document ∈ (scannedRun .DETECTED .DETECTED).2.documents,
    document.currentVersion = 3 ∧
      DlpFloor (overridden document.id (scannedRun .DETECTED .DETECTED).1)
        (scannedRun .DETECTED .DETECTED).2 document := by
  have hs : ((scannedRun .DETECTED .DETECTED).2.documents.find? (·.currentVersion = 3)).isSome =
    true := by decide +kernel
  obtain ⟨document, hf⟩ := Option.isSome_iff_exists.mp hs
  have hr : DocumentRuns RestoreFinds (scannedRun .DETECTED .DETECTED).1 (scannedRun .DETECTED .DETECTED).2 :=
    Serial.serially documentRun DocumentTask.prog documentRun_exec _ _ _ .nil (by decide +kernel)
  exact ⟨document, List.mem_of_find?_eq_some hf, by simpa using List.find?_some hf,
    dlp_floor hr document (List.mem_of_find?_eq_some hf)⟩

-- The clear first version is current again, and the document still counts as detected.
theorem dlp_floor_broken :
    ¬ ∀ (done : List (DocumentTask × Except HttpError DocumentOutcome)) (db : MetadataDb DocumentTask),
      DocumentRuns (fun _ _ => True) done db →
        ∀ document ∈ db.documents, DlpFloor (overridden document.id done) db document := by
  intro h
  have hr : DocumentRuns (fun _ _ => True) (scannedRun .CLEAR .DETECTED).1 (scannedRun .CLEAR .DETECTED).2 :=
    Serial.serially documentRun DocumentTask.prog documentRun_exec _ _ _ .nil ⟨trivial, trivial,
      trivial, trivial, trivial⟩
  have hs : ((scannedRun .CLEAR .DETECTED).2.documents.find? fun document => document.currentVersion = 3 &&
      ((scannedRun .CLEAR .DETECTED).2.version document.id 3).all fun row =>
        document.dlpStatus ≠ row.dlpStatus).isSome = true := by decide +kernel
  obtain ⟨document, hf⟩ := Option.isSome_iff_exists.mp hs
  have hbad := List.find?_some hf
  simp only [Bool.and_eq_true, decide_eq_true_eq, Option.all_eq_true] at hbad
  obtain ⟨row, hrow, hsame, _⟩ := h _ _ hr document (List.mem_of_find?_eq_some hf) (by rw [hbad.1]; decide)
  rw [hbad.1] at hrow
  exact absurd hsame (by simpa using hbad.2 row hrow)

end DocVault
