import Mathlib.Logic.Relation
import DocVault.Workflow

/-!
# A task alone

What a request or a job does to the store while nothing else runs. A request
writes at most once, and the document that the write finds is the one its
guards have read. A job writes any number of times.
-/

namespace DocVault

open Interleave

/-! ## The allowed writes -/

def DocumentTask.now : DocumentTask → Time
  | create _ request _ | updateStatus _ _ request | submit _ request | approve _ request | reject _ _ request
  | archive _ request | delete _ request | setApprovalChain _ _ request | advanceApprovalStep _ request
  | restoreFromTrash _ request | update _ _ request | setLegalHold _ _ request | createVersion _ _ request
  | restoreVersion _ _ request => request.now
  | runRetention now | purgeExpiredTrash now | markDeleted _ now => now

def DocumentTask.isWorkflow : DocumentTask → Bool
  | updateStatus _ _ _ | submit _ _ | approve _ _ | reject _ _ _ | archive _ _ | delete _ _ | setApprovalChain _ _ _
  | advanceApprovalStep _ _ => true
  | _ => false

def DocumentTask.isJob : DocumentTask → Bool
  | runRetention _ | purgeExpiredTrash _ => true
  | _ => false

section
variable {ι : Type} {p : ι}

/-- The writes that the guards of a task let through on what the store holds. -/
inductive Allowed (db : MetadataDb ι) : DocumentTask → DocumentOp → Prop
  | created {dto : CreateDocumentDto} {request : Request} {uuid organizationId : String} :
    Allowed db (.create dto request uuid) (.createDocument
      { id := uuid, organizationId := organizationId, ownerId := request.context.actorId
        classification := dto.classification.getD .INTERNAL })
  | moved {t : DocumentTask} {docId : String} {dto : UpdateStatusDto} {document : Document}
    {row : DocumentWorkflowHistory} (workflow : t.isWorkflow = true) (found : db.find docId = some document)
    (edge : TRANSITION_MAP dto.action = some (document.status, dto.status)) :
    Allowed db t (.updateDocument docId false
      (StatusService.updateData dto.action dto.status document t.now) (some row))
  | chained {t : DocumentTask} {docId : String} {approvalChain : Option (List String)} {approvalStep : Option Nat}
    (workflow : t.isWorkflow = true) :
    Allowed db t (.updateDocument docId false { approvalChain := approvalChain, approvalStep := approvalStep } none)
  | restored {docId : String} {request : Request} {document : Document} (found : db.find docId = some document)
    (member : request.organizationId = some document.organizationId)
    (guard : DocumentsService.restoreGuard request document = .ok ()) :
    Allowed db (.restoreFromTrash docId request)
      (.updateDocument docId false { status := some .DRAFT, deletedAt := some none } none)
  | updated {docId : String} {dto : UpdateDocumentDto} {request : Request} {document : Document}
    (found : db.find docId = some document) (member : request.organizationId = some document.organizationId)
    (guard : DocumentsService.updateGuard dto request document = .ok ()) :
    Allowed db (.update docId dto request)
      (.updateDocument docId false { classification := dto.classification } none)
  | held {docId : String} {dto : LegalHoldDto} {request : Request} {hold : LegalHold} :
    Allowed db (.setLegalHold docId dto request) (.updateDocument docId false { legalHold := some hold } none)
  | registered {docId : String} {dto : CreateVersionDto} {request : Request} {document : Document}
    (found : db.find docId = some document) (member : request.organizationId = some document.organizationId)
    (guard : VersionsService.createGuard dto request.user document = .ok ()) :
    Allowed db (.createVersion docId dto request) (.createVersion (VersionsService.createRow docId dto request.user)
      (VersionsService.createData dto document request.now))
  | versionRestored {docId : String} {version : Int} {request : Request} {document : Document}
    {source : DocumentVersion} (found : db.find docId = some document)
    (member : request.organizationId = some document.organizationId)
    (manages : VersionsService.assertCanManage document.ownerId request.user = .ok ())
    (foundVersion : db.version docId version = some source)
    (guard : VersionsService.restoreGuard version document = .ok ()) :
    Allowed db (.restoreVersion docId version request)
      (.createVersion (VersionsService.restoreRow docId source request.user document)
        { currentVersion := some (document.currentVersion + 1) })
  | retired {now : Time} {document : Document} {row : DocumentWorkflowHistory}
    (found : db.find document.id = some document) (candidate : isCandidate document = true) :
    Allowed db (.runRetention now)
      (.updateDocument document.id false { status := some .ARCHIVED, archivedAt := some now } (some row))
  | purged {now : Time} {id : String} : Allowed db (.purgeExpiredTrash now) (.deleteDocument id)
  | marked {docId : String} {now : Time} :
    Allowed db (.markDeleted docId now)
      (.updateDocument docId true { status := some .DELETED, deletedAt := some (some now) } none)

variable (p) in
def Does (t : DocumentTask) (db db' : MetadataDb ι) : Prop := ∃ o, Allowed db t o ∧ Writes p db o db'

/-! ## Requests -/

abbrev Untouched (db : MetadataDb ι) : HttpError → MetadataDb ι → Prop := fun _ db' => db' = db

variable {α : Type} {Q : α → MetadataDb ι → Prop} {db : MetadataDb ι} {t : DocumentTask} {request : Request}

theorem ok_guard {β : Type} {x : Except HttpError β} {f : β → DocumentM α}
    (hf : ∀ b, x = .ok b → Ok (alone DocumentExec) p Q (Untouched db) (f b) db) :
    Ok (alone DocumentExec) p Q (Untouched db) (Prog.ofExcept x >>= f) db :=
  Ok_ofExcept_bind hf fun _ _ => rfl

theorem ok_find {docId organizationId : String} {k : Option Document → DocumentM α}
    (hnone : Ok (alone DocumentExec) p Q (Untouched db) (k none) db)
    (hk : ∀ document, db.find docId = some document → document.organizationId = organizationId →
      Ok (alone DocumentExec) p Q (Untouched db) (k (some document)) db) :
    Ok (alone DocumentExec) p Q (Untouched db) (findDocument docId organizationId >>= k) db := by
  refine alone_op (fun _ => rfl) fun r db' hx => ?_
  obtain ⟨hr, rfl⟩ := Prod.mk.inj hx
  cases r with
  | none => exact hnone
  | some document =>
    obtain ⟨found, hsame⟩ := Option.filter_eq_some_iff.mp hr.symm
    exact hk document found (of_decide_eq_true hsame)

theorem ok_findInOrg {f : Document → DocumentM α} {docId : String}
    (hf : ∀ document, db.find docId = some document → request.organizationId = some document.organizationId →
      Ok (alone DocumentExec) p Q (Untouched db) (f document) db) :
    Ok (alone DocumentExec) p Q (Untouched db) (findInOrg docId request >>= f) db := by
  refine Ok_bind (Q := fun document db' => db' = db ∧ db.find docId = some document ∧
    request.organizationId = some document.organizationId) ?_ _ db trivial ?_
  · rintro document _ _ ⟨rfl, found, member⟩
    exact hf document found member
  · refine ok_guard fun organizationId horg => ok_find rfl fun document found hsame => ⟨rfl, found, ?_⟩
    rw [requireOrgId_ok.mp horg, hsame]

theorem ok_findOne {f : Document → DocumentM α} {docId : String}
    (hf : ∀ document, Ok (alone DocumentExec) p Q (Untouched db) (f document) db) :
    Ok (alone DocumentExec) p Q (Untouched db) (DocumentsController.findOne docId request >>= f) db := by
  refine Ok_bind (Q := fun _ db' => db' = db) ?_ _ db trivial ?_
  · rintro document _ _ rfl
    exact hf document
  · refine ok_guard fun _ _ => ok_guard fun organizationId _ => ok_find rfl fun document found _ => ?_
    dsimp only
    split <;> exact rfl

theorem ok_update {docId : String} {notDeleted : Bool} {data : DocumentUpdate}
    {row : Option DocumentWorkflowHistory} (h : Allowed db t (.updateDocument docId notDeleted data row)) :
    Ok (alone DocumentExec) p (fun _ => Does p t db) (Untouched db)
      (updateDocument docId notDeleted data row >>= fun result => Prog.ofExcept (updated result)) db := by
  refine alone_op (fun _ => rfl) fun r db' hx => ?_
  rcases hx with hx | ⟨rfl, rfl⟩
  · simp only [documentRun] at hx
    split at hx
    · obtain ⟨rfl, rfl⟩ := Prod.mk.inj hx
      exact rfl
    · rename_i document found
      obtain ⟨rfl, rfl⟩ := Prod.mk.inj hx
      exact ⟨_, h, .update found⟩
  · exact rfl

theorem ok_createVersion {row : DocumentVersion} {data : DocumentUpdate}
    (h : Allowed db t (.createVersion row data)) : Ok (alone DocumentExec) p (fun _ => Does p t db) (Untouched db)
      (Prog.op (DocumentOp.createVersion row data) >>= fun result => Prog.ofExcept (updated result)) db := by
  refine alone_op (fun _ => rfl) fun r db' hx => ?_
  rcases hx with hx | ⟨rfl, rfl⟩
  · simp only [documentRun] at hx
    split at hx
    · obtain ⟨rfl, rfl⟩ := Prod.mk.inj hx
      exact rfl
    · rename_i document found
      split at hx
      · obtain ⟨rfl, rfl⟩ := Prod.mk.inj hx
        exact rfl
      · rename_i hnew
        obtain ⟨rfl, rfl⟩ := Prod.mk.inj hx
        exact ⟨_, h, .createVersion found (by simpa using hnew)⟩
  · exact rfl

theorem ok_answered {m : DocumentM Document}
    (h : Ok (alone DocumentExec) p (fun _ => Does p t db) (Untouched db) m db) :
    Ok (alone DocumentExec) p (fun _ => Does p t db) (Untouched db) (answered m) db :=
  Ok_bind (fun _ _ _ h => h) m db trivial h

theorem ok_registered {m : DocumentM DocumentVersion}
    (h : Ok (alone DocumentExec) p (fun _ => Does p t db) (Untouched db) m db) :
    Ok (alone DocumentExec) p (fun _ => Does p t db) (Untouched db) (registered m) db :=
  Ok_bind (fun _ _ _ h => h) m db trivial h

theorem ok_create {dto : CreateDocumentDto} {uuid : String} :
    Ok (alone DocumentExec) p (fun _ => Does p (.create dto request uuid) db) (Untouched db)
      (DocumentsController.create dto request uuid) db := by
  refine ok_guard fun _ _ => ok_guard fun organizationId _ => alone_op (fun _ => rfl) fun r db' hx => ?_
  rcases hx with hx | ⟨rfl, rfl⟩
  · simp only [documentRun] at hx
    split at hx
    · obtain ⟨rfl, rfl⟩ := Prod.mk.inj hx
      exact rfl
    · rename_i hnew
      obtain ⟨rfl, rfl⟩ := Prod.mk.inj hx
      exact ⟨_, .created, .create (by simpa using hnew)⟩
  · exact rfl

theorem ok_updateStatus (hw : t.isWorkflow = true) (ht : t.now = request.now) (docId : String)
    (dto : UpdateStatusDto) :
    Ok (alone DocumentExec) p (fun _ => Does p t db) (Untouched db)
      (DocumentsController.updateStatus docId dto request)
      db := by
  refine ok_guard fun _ _ => ok_guard fun organizationId _ => ok_find rfl fun document found _ => ?_
  refine ok_guard fun transition hguard => ?_
  obtain ⟨_, hmap, rfl⟩ := StatusService.guard_ok.mp hguard
  rw [← ht]
  exact ok_update (.moved hw found hmap)

theorem ok_guarded (hw : t.isWorkflow = true) (ht : t.now = request.now) {required : List String} {docId : String}
    {dto : UpdateStatusDto} {guard : Document → Except HttpError Unit} :
    Ok (alone DocumentExec) p (fun _ => Does p t db) (Untouched db) (do
      let _ ← Prog.ofExcept (RolesGuard required request.user)
      let document ← DocumentsController.findOne docId request
      let _ ← Prog.ofExcept (guard document)
      DocumentsController.updateStatus docId dto request : DocumentM Document) db :=
  ok_guard fun _ _ => ok_findOne fun _ => ok_guard fun _ _ => ok_updateStatus hw ht docId dto

theorem ok_advance (hw : t.isWorkflow = true) (docId : String) :
    Ok (alone DocumentExec) p (fun _ => Does p t db) (Untouched db)
      (DocumentsController.advanceApprovalStep docId request)
      db :=
  ok_guard fun _ _ => ok_findInOrg fun _ _ _ => ok_update (.chained hw)

theorem ok_approve (docId : String) :
    Ok (alone DocumentExec) p (fun _ => Does p (.approve docId request) db) (Untouched db)
      (WorkflowController.approve docId request) db := by
  refine ok_guard fun _ _ => ok_findOne fun document => ok_guard fun publishes _ => ?_
  split
  · exact ok_updateStatus rfl rfl docId _
  · exact Ok_bind (fun _ _ _ h => h) _ db trivial (ok_advance rfl docId)

theorem ok_setLegalHold (docId : String) (dto : LegalHoldDto) :
    Ok (alone DocumentExec) p (fun _ => Does p (.setLegalHold docId dto request) db) (Untouched db)
      (DocumentsController.setLegalHold docId dto request) db := by
  refine ok_guard fun _ _ => ?_
  unfold DocumentsService.setLegalHold
  split
  · exact rfl
  · exact ok_findInOrg fun _ _ _ => ok_guard fun hold _ => ok_update .held

theorem ok_restoreVersion (docId : String) (version : Int) :
    Ok (alone DocumentExec) p (fun _ => Does p (.restoreVersion docId version request) db) (Untouched db)
      (DocumentsController.restoreVersion docId version request) db := by
  refine ok_guard fun _ _ => ok_findInOrg fun document found member => ok_guard fun _ manages => ?_
  refine alone_op (fun _ => rfl) fun r db' hx => ?_
  obtain ⟨hr, rfl⟩ := Prod.mk.inj hx
  cases r with
  | none => exact rfl
  | some source =>
      exact ok_guard fun _ guard => ok_createVersion (.versionRestored found member manages hr.symm guard)

theorem ok_request (t : DocumentTask) (ht : t.isJob = false) :
    Ok (alone DocumentExec) p (fun _ => Does p t db) (Untouched db) t.prog db := by
  cases t with
  | create _ _ _ => exact ok_answered ok_create
  | updateStatus docId dto _ => exact ok_answered (ok_updateStatus rfl rfl docId dto)
  | submit _ _ => exact ok_answered (ok_guarded rfl rfl)
  | approve docId _ => exact ok_answered (ok_approve docId)
  | reject _ _ _ => exact ok_answered (ok_guarded rfl rfl)
  | archive _ _ => exact ok_answered (ok_guarded rfl rfl)
  | delete docId request =>
    rw [DocumentTask.prog, deleted_eq]
    exact Ok_bind (fun _ _ _ h => h) _ db trivial (ok_guarded rfl rfl)
  | setApprovalChain _ _ _ =>
    exact ok_answered (ok_guard fun _ _ => ok_findInOrg fun _ _ _ => ok_guard fun _ _ => ok_update (.chained rfl))
  | advanceApprovalStep docId _ => exact ok_answered (ok_advance rfl docId)
  | restoreFromTrash _ _ =>
    exact ok_answered (ok_guard fun _ _ => ok_findInOrg fun _ found member => ok_guard fun _ guard =>
      ok_update (.restored found member guard))
  | update _ _ _ =>
    exact ok_answered (ok_guard fun _ _ => ok_findInOrg fun _ found member => ok_guard fun _ guard =>
      ok_update (.updated found member guard))
  | setLegalHold docId dto _ => exact ok_answered (ok_setLegalHold docId dto)
  | createVersion _ _ _ =>
    exact ok_registered (ok_guard fun _ _ => ok_findInOrg fun _ found member => ok_guard fun _ guard =>
      ok_createVersion (.registered found member guard))
  | restoreVersion docId version _ => exact ok_registered (ok_restoreVersion docId version)
  | markDeleted _ _ => exact ok_answered (ok_update .marked)
  | _ => cases ht

/-! ## Jobs -/

def MetadataDb.Unique (db : MetadataDb ι) : Prop := (db.documents.map (·.id)).Nodup

theorem MetadataDb.Unique.find (hU : db.Unique) {document : Document} (h : document ∈ db.documents) :
    db.find document.id = some document :=
  find?_of_nodup hU h (by simp) fun d hd => by simpa using hd

theorem MetadataDb.Unique.writes {db' : MetadataDb ι} {o : DocumentOp} (hU : db.Unique) (h : Writes p db o db') :
    db'.Unique := by
  unfold MetadataDb.Unique at *
  have hmap : ∀ (id : String) (data : DocumentUpdate) (document : Document), document.id = id →
      (db.documents.map fun d => if d.id = id then data.set document else d).map (·.id) =
      db.documents.map (·.id) := by
    intro id data document hid
    rw [List.map_map]
    refine List.map_congr_left fun d _ => ?_
    by_cases hd : d.id = id <;> simp [hd, hid, DocumentUpdate.set_id]
  cases h with
  | @create document new =>
    simp only [MetadataDb.create, List.map_append, List.map_cons, List.map_nil]
    refine List.nodup_append.mpr ⟨hU, List.nodup_singleton _, ?_⟩
    rintro _ hmem _ hlast rfl
    obtain ⟨d, hd, hid⟩ := List.mem_map.mp hmem
    have hnone := List.find?_eq_none.mp new d hd
    exact hnone (by simpa using hid.trans (List.mem_singleton.mp hlast))
  | update found =>
    simpa only [MetadataDb.update, hmap _ _ _ (find_id (target_find found))] using hU
  | delete found => exact hU.sublist (List.Sublist.map _ List.filter_sublist)
  | createVersion found => simpa only [MetadataDb.createVersion, hmap _ _ _ (find_id found)] using hU

variable (p) in
abbrev Did (t : DocumentTask) : MetadataDb ι → MetadataDb ι → Prop := Relation.ReflTransGen (Does p t)

-- The candidates that are left are still as they were read.
theorem ok_archiveOverdue (now : Time) :
    ∀ (candidates : List Document) (result : RetentionService.RetentionRunResult)
    (db' : MetadataDb ι), (candidates.map (·.id)).Nodup →
    (∀ document ∈ candidates, db'.find document.id = some document ∧ isCandidate document = true) →
    Did p (.runRetention now) db db' →
    Ok (alone DocumentExec) p (fun _ => Did p (.runRetention now) db) (fun _ => Did p (.runRetention now) db)
      (RetentionService.archiveOverdue now candidates result) db'
  | [], _, _, _, _, hd => hd
  | document :: candidates, result, db', hn, hc, hd => by
    rw [List.map_cons, List.nodup_cons] at hn
    have hrest := fun d hm => hc d (List.mem_cons_of_mem _ hm)
    unfold RetentionService.archiveOverdue
    split
    · exact ok_archiveOverdue now candidates result db' hn.2 hrest hd
    · split
      · exact ok_archiveOverdue now candidates result db' hn.2 hrest hd
      · refine alone_op (fun _ => hd) fun r db'' hx => ?_
        obtain ⟨hfound, hcand⟩ := hc document (List.mem_cons_self ..)
        rcases exec_writes hx with rfl | hw
        · cases r with
          | some _ => exact ok_archiveOverdue now candidates _ _ hn.2 hrest hd
          | none => exact ok_archiveOverdue now candidates _ _ hn.2 hrest hd
        · have hd' : Did p (.runRetention now) db db'' := hd.tail ⟨_, .retired hfound hcand, hw⟩
          have hrest' : ∀ d ∈ candidates, db''.find d.id = some d ∧ isCandidate d = true := by
            intro d hm
            cases hw with
            | update found =>
              have hne : document.id ≠ d.id := fun e => hn.1 (e ▸ List.mem_map_of_mem hm)
              rw [find_update (target_find found), if_neg hne]
              exact hrest d hm
          cases r with
          | some _ => exact ok_archiveOverdue now candidates _ _ hn.2 hrest' hd'
          | none => exact ok_archiveOverdue now candidates _ _ hn.2 hrest' hd'

theorem ok_purge (now : Time) :
    ∀ (expired : List Document) (result : DocumentsService.PurgeResult) (db' : MetadataDb ι),
    Did p (.purgeExpiredTrash now) db db' →
    Ok (alone DocumentExec) p (fun _ => Did p (.purgeExpiredTrash now) db)
      (fun _ => Did p (.purgeExpiredTrash now) db) (DocumentsService.purge expired result) db'
  | [], _, _, hd => hd
  | document :: expired, result, db', hd => by
    refine alone_op (fun _ => hd) fun r db'' hx => ?_
    have hd' : Did p (.purgeExpiredTrash now) db db'' := by
      rcases exec_writes hx with rfl | hw
      · exact hd
      · exact hd.tail ⟨_, .purged, hw⟩
    cases r with
    | some _ => exact ok_purge now expired _ _ hd'
    | none => exact ok_purge now expired _ _ hd'

theorem ok_job (hU : db.Unique) (t : DocumentTask) (ht : t.isJob = true) :
    Ok (alone DocumentExec) p (fun _ => Did p t db) (fun _ => Did p t db) t.prog db := by
  cases t with
  | runRetention now =>
    refine Ok_bind (fun _ _ _ h => h) _ db trivial (alone_op (fun _ => .refl) fun candidates db' hx => ?_)
    obtain ⟨hperm, rfl⟩ := hx
    have hmem : ∀ d ∈ candidates, d ∈ db'.documents ∧ isCandidate d = true := fun d hd =>
      List.mem_filter.mp (hperm.mem_iff.mp hd)
    refine ok_archiveOverdue now candidates _ db' ?_ (fun d hd => ⟨hU.find (hmem d hd).1, (hmem d hd).2⟩) .refl
    exact (hperm.map _).nodup_iff.mpr (hU.sublist (List.Sublist.map _ List.filter_sublist))
  | purgeExpiredTrash now =>
    refine Ok_bind (fun _ _ _ h => h) _ db trivial (alone_op (fun _ => .refl) fun expired db' hx => ?_)
    obtain ⟨_, rfl⟩ := hx
    exact ok_purge now expired _ db' .refl
  | _ => cases ht

/-- A request that answers has done one allowed write, and one that does not
has done none; a job has done some. -/
theorem task_alone (hU : db.Unique) {db' : MetadataDb ι} {out : Except HttpError DocumentOutcome}
    (hx : Eval DocumentExec p t.prog db out db') :
    (t.isJob = true ∧ Did p t db db') ∨
      t.isJob = false ∧ ((∃ a, out = .ok a ∧ Does p t db db') ∨ ∃ e, out = .error e ∧ db' = db) := by
  cases hj : t.isJob with
  | false => exact .inr ⟨rfl, (ok_request t hj).alone hx⟩
  | true =>
    rcases (ok_job hU t hj).alone hx with ⟨_, _, h⟩ | ⟨_, _, h⟩
    · exact .inl ⟨rfl, h⟩
    · exact .inl ⟨rfl, h⟩

theorem task_did (hU : db.Unique) {db' : MetadataDb ι} {out : Except HttpError DocumentOutcome}
    (hx : Eval DocumentExec p t.prog db out db') : Did p t db db' := by
  rcases task_alone hU hx with ⟨_, h⟩ | ⟨_, ⟨_, _, h⟩ | ⟨_, _, rfl⟩⟩
  · exact h
  · exact .single h
  · exact .refl

end

end DocVault
