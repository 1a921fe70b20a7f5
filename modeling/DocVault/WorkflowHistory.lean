import DocVault.Sections
import DocVault.TaskAlone
import Mathlib.Data.Fintype.Basic

/-!
# Workflow history as a path

The rows of `document_workflow_history` of a document lead from `DRAFT` to its
status, in any run in which nobody sets the status between the read of another
process and its write, and every write of the status has a row. The guards read
the document before the transaction, and `restoreFromTrash` writes no row, so
neither is a matter of course.
-/

namespace DocVault

open Interleave

/-! ## Paths -/

def path (s : DocumentStatus) : List DocumentWorkflowHistory → DocumentStatus → Bool
  | [], t => s = t
  | row :: rows, t => row.fromStatus = s && isEdge row && path row.toStatus rows t

theorem path_append (row : DocumentWorkflowHistory) (hedge : isEdge row = true) :
    ∀ (rows : List DocumentWorkflowHistory) (s : DocumentStatus), path s rows row.fromStatus = true →
      path s (rows ++ [row]) row.toStatus = true
  | [], s, h => by
    have hs : s = row.fromStatus := by simpa [path] using h
    simp [path, hs, hedge]
  | r :: rows, s, h => by
    simp only [path, Bool.and_eq_true, List.cons_append] at h ⊢
    exact ⟨h.1, path_append row hedge rows r.toStatus h.2⟩

/-! ## The invariant -/

section
variable {ι : Type} {p : ι}

/-- The status that a write is recorded from: for a write without a row, the one it writes. -/
def recordedFrom (data : DocumentUpdate) (row : Option DocumentWorkflowHistory) : Option DocumentStatus :=
  match row with
  | some row => some row.fromStatus
  | none => data.status

def FindsRecorded (db : MetadataDb ι) : DocumentOp → Prop
  | .updateDocument id notDeleted data row => ∀ document, db.target id notDeleted = some document →
      ∀ status, recordedFrom data row = some status → document.status = status
  | _ => True

structure HistoryPath (db : MetadataDb ι) : Prop where
  leads : ∀ id document, db.find id = some document → path .DRAFT (db.rows id) document.status = true
  absent : ∀ id, db.find id = none → db.rows id = []

theorem HistoryPath.create {db : MetadataDb ι} (hi : HistoryPath db) {document : Document}
    (new : db.find document.id = none) (hs : document.status = .DRAFT) : HistoryPath (db.create p document) where
  leads id d hd := by
    rw [find_create new] at hd
    rw [rows_create]
    split at hd
    · rename_i hid
      obtain rfl := Option.some.inj hd
      rw [← hid, hi.absent _ new, hs]
      rfl
    · exact hi.leads id d hd
  absent id hd := by
    rw [find_create new] at hd
    split at hd
    · cases hd
    · exact hi.absent id hd

theorem HistoryPath.update {db : MetadataDb ι} (hi : HistoryPath db) {id : String} {notDeleted : Bool}
    {data : DocumentUpdate} {row : Option DocumentWorkflowHistory} {document : Document}
    (found : db.target id notDeleted = some document) (hu : UpdateIssued id data row)
    (hf : ∀ status, recordedFrom data row = some status → document.status = status) :
    HistoryPath (db.update p id notDeleted data row document) where
  leads id' d hd := by
    rw [find_update (target_find found)] at hd
    rw [rows_update]
    have hpath := hi.leads id document (target_find found)
    cases row with
    | none =>
      rw [Option.toList_none, List.filter_nil, List.append_nil]
      split at hd
      · rename_i hid
        obtain rfl := Option.some.inj hd
        have hkept : (data.set document).status = document.status := by
          show data.status.getD document.status = document.status
          cases hs : data.status with
          | none => rfl
          | some status => exact (hf status hs).symm
        rw [hkept, ← hid]
        exact hpath
      · exact hi.leads id' d hd
    | some row =>
      obtain ⟨hdoc, hedge, hs, _⟩ := hu.recorded row rfl
      split at hd
      · rename_i hid
        obtain rfl := Option.some.inj hd
        have hto : (data.set document).status = row.toStatus := by
          show data.status.getD document.status = row.toStatus
          rw [hs, Option.getD_some]
        rw [Option.toList_some, List.filter_cons_of_pos (by simpa using hdoc.trans hid),
          List.filter_nil, hto, ← hid]
        rw [hf row.fromStatus rfl] at hpath
        exact path_append row hedge _ _ hpath
      · rename_i hid
        rw [Option.toList_some, List.filter_cons_of_neg (by simpa [hdoc] using hid),
          List.filter_nil, List.append_nil]
        exact hi.leads id' d hd
  absent id' hd := by
    rw [find_update (target_find found)] at hd
    split at hd
    · cases hd
    · rename_i hid
      rw [rows_update, hi.absent id' hd, List.nil_append, List.filter_eq_nil_iff]
      intro r hr
      have hdoc := (hu.recorded r (Option.mem_toList.mp hr)).1
      simpa [hdoc] using hid

theorem HistoryPath.delete {db : MetadataDb ι} (hi : HistoryPath db) (id : String) (document : Document) :
    HistoryPath (db.delete p id document) where
  leads id' d hd := by
    rw [find_delete] at hd
    split at hd
    · cases hd
    · rename_i hid
      rw [rows_delete, if_neg hid]
      exact hi.leads id' d hd
  absent id' hd := by
    rw [find_delete] at hd
    rw [rows_delete]
    split
    · rfl
    · rename_i hid
      rw [if_neg hid] at hd
      exact hi.absent id' hd

theorem HistoryPath.createVersion {db : MetadataDb ι} (hi : HistoryPath db) {row : DocumentVersion}
    {data : DocumentUpdate} {document : Document} (found : db.find row.docId = some document)
    (hs : data.status = none) : HistoryPath (db.createVersion p row data document) where
  leads id d hd := by
    rw [find_createVersion found] at hd
    split at hd
    · rename_i hid
      obtain rfl := Option.some.inj hd
      have hkept : (data.set document).status = document.status := by
        show data.status.getD document.status = document.status
        rw [hs, Option.getD_none]
      rw [hkept]
      exact hi.leads id document (hid ▸ found)
    · exact hi.leads id d hd
  absent id hd := by
    rw [find_createVersion found] at hd
    split at hd
    · cases hd
    · exact hi.absent id hd

theorem HistoryPath.step {db db' : MetadataDb ι} {o : DocumentOp} {r : o.Res} (hi : HistoryPath db) (hu : Issued o)
    (hf : FindsRecorded db o) (hx : DocumentExec p db o r db') : HistoryPath db' := by
  rcases exec_writes hx with rfl | hw
  · exact hi
  · cases hw with
    | create new => exact hi.create new hu.1
    | update found => exact hi.update found hu (hf _ found)
    | delete found => exact hi.delete _ _
    | createVersion found => exact hi.createVersion found hu.workflow.1

end

/-! ## From the read to the write -/

def DocumentOp.records : DocumentOp → Option String
  | .updateDocument id _ _ (some _) => some id
  | _ => none

def DocumentOp.setsStatus : DocumentOp → Option String
  | .createDocument document => some document.id
  | .updateDocument id _ data _ => if data.status.isSome then some id else none
  | _ => none

section
variable {α β : Type}

/-- The process has read the status of the document and has still to write it with a row, itself or after others. -/
abbrev Recording (id : String) (m : DocumentM α) : Prop :=
  m.Amid (fun o => o.records ≠ none) (fun o => o.records = some id)

def From (id : String) (status : DocumentStatus) : DocumentOp → Prop
  | .updateDocument id' _ _ (some row) => id' = id → row.fromStatus = status
  | _ => True

def Possible : (o : DocumentOp) → o.Res → Prop
  | .findDocument id _, r => ∀ document, r = some document → document.id = id
  | .findCandidates, r => (r.map (·.id)).Nodup ∧ ∀ document ∈ r, document.status = .PUBLISHED
  | _, _ => True

def ReadsStatus : (o : DocumentOp) → o.Res → String → DocumentStatus → Prop
  | .findDocument _ _, r, id, status => ∃ document, r = some document ∧ document.id = id ∧ document.status = status
  | .findCandidates, r, id, status => ∃ document ∈ r, document.id = id ∧ document.status = status
  | _, _, _, _ => False

/-- A process records the status of a document from the read that tells it, and once only. -/
def Heeds : DocumentM α → Prop
  | .call o k => (∀ id, o.records = some id → ∀ r, ¬(k r).May fun o => o.records = some id) ∧ ∀ r, Possible o r →
      (o.records = none → ∀ id, Recording id (k r) → ∃ status, ReadsStatus o r id status ∧
        (k r).Uses (From id status)) ∧ Heeds (k r)
  | _ => True

theorem not_recording {id : String} {m : DocumentM α} (h : m.Uses fun o => o.records = none) : ¬Recording id m := by
  refine fun hm => Prog.Uses.not_may (h.mono fun o ho => ?_) hm.2
  rw [ho]
  exact nofun

theorem heeds_of_uses : ∀ {m : DocumentM α}, m.Uses (fun o => o.records = none) → Heeds m
  | .ret _, _ => trivial
  | .throw _, _ => trivial
  | .call o k, h => by
    refine ⟨fun id ho => ?_, fun r _ => ⟨fun _ id hr => absurd hr (not_recording (h.2 r)), heeds_of_uses (h.2 r)⟩⟩
    rw [h.1] at ho
    cases ho

theorem heeds_then {f : α → DocumentM β} (hf : ∀ a, (f a).Uses fun o => o.records = none) :
    ∀ {m : DocumentM α}, Heeds m → Heeds (m >>= f)
  | .ret a, _ => heeds_of_uses (hf a)
  | .throw _, _ => trivial
  | .call o k, h => by
    have hmay : ∀ id a, ¬(f a).May fun o => o.records = some id := fun id a =>
      Prog.Uses.not_may ((hf a).mono fun o ho => by rw [ho]; exact nofun)
    refine ⟨fun id ho r hm => h.1 id ho r (hm.of_bind (hmay id)), fun r hr => ⟨fun ho id hrec => ?_, ?_⟩⟩
    · obtain ⟨status, hreads, hfrom⟩ := (h.2 r hr).1 ho id (hrec.of_bind (hmay id))
      refine ⟨status, hreads, hfrom.bind fun a => (hf a).mono fun o ho => ?_⟩
      cases o with
      | updateDocument _ _ _ row => cases row <;> trivial
      | _ => trivial
    · exact heeds_then hf (h.2 r hr).2

theorem not_recording_after {f : α → DocumentM β} {id : String} (hf : ∀ a, ¬Recording id (f a)) :
    ∀ {m : DocumentM α}, m.Uses (fun o => o.records = none) → ¬Recording id (m >>= f)
  | .ret a, _, h => hf a h
  | .throw _, _, h => h.2.elim
  | .call o k, hu, h => by
    obtain ⟨⟨o', hn, hr⟩, _⟩ := h
    obtain rfl : o = o' := Option.some.inj hn
    exact hr hu.1

theorem heeds_after {f : α → DocumentM β} (hf : ∀ a, Heeds (f a) ∧ ∀ id, ¬Recording id (f a)) :
    ∀ {m : DocumentM α}, m.Uses (fun o => o.records = none) → Heeds (m >>= f)
  | .ret a, _ => (hf a).1
  | .throw _, _ => trivial
  | .call o k, h => by
    refine ⟨fun id ho => ?_, fun r _ => ⟨fun _ id hr => ?_, heeds_after hf (h.2 r)⟩⟩
    · rw [h.1] at ho
      cases ho
    · exact absurd hr (not_recording_after (fun a => (hf a).2 id) (h.2 r))

theorem heeds_ofExcept {x : Except HttpError α} {f : α → DocumentM β}
    (hf : ∀ a, x = .ok a → Heeds (f a) ∧ ∀ id, ¬Recording id (f a)) :
    Heeds (Prog.ofExcept x >>= f) ∧ ∀ id, ¬Recording id (Prog.ofExcept x >>= f) := by
  cases x with
  | ok a => exact hf a rfl
  | error e => exact ⟨trivial, fun _ h => h.2.elim⟩

theorem heeds_read {docId organizationId : String} {k : Option Document → DocumentM α}
    (hnone : (k none).Uses fun o => o.records = none) (hsome : ∀ document, document.id = docId →
      Heeds (k (some document)) ∧
      ∀ id, Recording id (k (some document)) → id = docId ∧ (k (some document)).Uses (From id document.status)) :
    Heeds (findDocument docId organizationId >>= k) ∧
    ∀ id, ¬Recording id (findDocument docId organizationId >>= k) := by
  refine ⟨⟨nofun, fun r hr => ?_⟩, fun id ⟨⟨o, hn, ho⟩, _⟩ => ?_⟩
  · cases r with
    | none => exact ⟨fun _ id h => absurd h (not_recording hnone), heeds_of_uses hnone⟩
    | some document =>
      have hid : document.id = docId := hr document rfl
      obtain ⟨hheeds, hrec⟩ := hsome document hid
      refine ⟨fun _ id h => ?_, hheeds⟩
      obtain ⟨rfl, hfrom⟩ := hrec id h
      exact ⟨document.status, ⟨document, rfl, hid, rfl⟩, hfrom⟩
  · obtain rfl : DocumentOp.findDocument docId organizationId = o := Option.some.inj hn
    exact ho rfl

theorem updated_no_may {U : DocumentOp → Prop} (result : Option α) :
    ¬(Prog.ofExcept (updated result) : DocumentM α).May U := by
  cases result <;> exact fun h => h

/-! ### The tasks -/

/-- After the read the guard lets through one write, whose row starts at the status that was read. -/
theorem statusUpdate_heeds (docId : String) (dto : UpdateStatusDto) (request : Request) :
    Heeds (StatusService.update docId dto request) ∧
    ∀ id, ¬Recording id (StatusService.update docId dto request) := by
  refine heeds_ofExcept fun organizationId _ => heeds_read trivial fun document hid => ?_
  cases hguard : StatusService.guard dto request.user document with
  | error e => simpa only [hguard] using ⟨trivial, fun _ h => h.2.elim⟩
  | ok transition =>
    simp only [hguard]
    refine ⟨⟨fun id _ r => updated_no_may r, fun r _ => ⟨nofun, heeds_of_uses (.ofExcept _)⟩⟩, fun id h => ⟨?_, ?_⟩⟩
    · rcases h.2 with h | ⟨r, h⟩
      · exact (Option.some.inj h).symm
      · exact absurd h (updated_no_may r)
    · exact ⟨fun _ => rfl, fun r => .ofExcept _⟩

/-- The candidates of the retention job are published, and each is archived once. -/
theorem archiveOverdue_heeds (now : Time) :
    ∀ (candidates : List Document) (result : RetentionService.RetentionRunResult),
    (candidates.map (·.id)).Nodup → Heeds (RetentionService.archiveOverdue now candidates result) := by
  intro candidates
  induction candidates with
  | nil => exact fun _ _ => trivial
  | cons document candidates ih =>
    intro result hn
    rw [List.map_cons, List.nodup_cons] at hn
    cases hd : RetentionService.isOverdue now document with
    | false =>
      rw [RetentionService.archiveOverdue_skip hd]
      exact ih result hn.2
    | true =>
      rw [RetentionService.archiveOverdue_take hd]
      refine ⟨fun id hid r hm => hn.1 ?_, fun r _ => ⟨nofun, ?_⟩⟩
      · have hrest : ∃ result', (RetentionService.archiveOverdue now candidates result').May fun o =>
          o.records = some id := by
          cases r with
          | none => exact ⟨_, hm⟩
          | some _ => exact ⟨_, hm⟩
        obtain ⟨_, hrest⟩ := hrest
        obtain ⟨d, hmem, hrec⟩ := archiveOverdue_may now hrest
        exact List.mem_map.mpr ⟨d, hmem, (Option.some.inj hrec).trans (Option.some.inj hid).symm⟩
      · cases r with
        | none => exact ih _ hn.2
        | some _ => exact ih _ hn.2

theorem archiveOverdue_from (now : Time) (id : String) :
    ∀ (candidates : List Document) (result : RetentionService.RetentionRunResult),
      (RetentionService.archiveOverdue now candidates result).Uses (From id .PUBLISHED) := by
  intro candidates
  induction candidates with
  | nil => exact fun _ => trivial
  | cons document candidates ih =>
    intro result
    cases hd : RetentionService.isOverdue now document with
    | false =>
      rw [RetentionService.archiveOverdue_skip hd]
      exact ih result
    | true =>
      rw [RetentionService.archiveOverdue_take hd]
      refine .bind (fun r => ?_) (.op fun _ => rfl)
      cases r with
      | none => exact ih _
      | some _ => exact ih _

theorem runRetention_heeds (now : Time) : Heeds (RetentionService.runRetention now) := by
  refine ⟨nofun, fun candidates hr => ⟨fun _ id h => ?_, archiveOverdue_heeds now candidates _ hr.1⟩⟩
  obtain ⟨document, hm, hrec⟩ := archiveOverdue_may now h.2
  have hid : document.id = id := Option.some.inj hrec
  exact ⟨.PUBLISHED, ⟨document, hm, hid, hr.2 document hm⟩, archiveOverdue_from now id candidates _⟩

def DocumentTask.isRecorded : DocumentTask → Bool
  | updateStatus _ _ _ | submit _ _ | approve _ _ | reject _ _ _ | archive _ _ | delete _ _ | runRetention _ => true
  | _ => false

theorem DocumentTask.unrecorded (t : DocumentTask) (ht : t.isRecorded = false) :
    t.prog.Uses fun o => o.records = none :=
  t.issues.mono fun o h => by
    cases h with
    | read h => cases o <;> trivial
    | @status _ _ _ _ _ h _ =>
      have hsome : t.transition ≠ none := by simp [h]
      cases t with
      | updateStatus | submit | approve | reject | archive | delete => cases ht
      | _ => exact absurd rfl hsome
    | runRetention => cases ht
    | _ => rfl

theorem controller_heeds (docId : String) (dto : UpdateStatusDto) (request : Request) :
    Heeds (DocumentsController.updateStatus docId dto request) ∧
      ∀ id, ¬Recording id (DocumentsController.updateStatus docId dto request) :=
  heeds_ofExcept fun _ _ => statusUpdate_heeds docId dto request

theorem answered_heeds {m : DocumentM Document} (hm : Heeds m) : Heeds (answered m) :=
  heeds_then (fun _ => .pure _) hm

theorem findOne_heeds {docId : String} {request : Request} {f : Document → DocumentM α}
    (hf : ∀ document, Heeds (f document) ∧ ∀ id, ¬Recording id (f document)) :
    Heeds (DocumentsController.findOne docId request >>= f) :=
  heeds_after hf (findOne_uses (U := fun o => o.records = none) (fun _ _ => rfl) docId request)

theorem guarded_heeds {required : List String} {docId : String} {request : Request} {dto : UpdateStatusDto}
    {guard : Document → Except HttpError Unit} : Heeds (do
      let _ ← Prog.ofExcept (RolesGuard required request.user)
      let document ← DocumentsController.findOne docId request
      let _ ← Prog.ofExcept (guard document)
      DocumentsController.updateStatus docId dto request : DocumentM Document) := by
  cases RolesGuard required request.user with
  | error e => trivial
  | ok u => exact findOne_heeds fun document => heeds_ofExcept fun _ _ => controller_heeds docId dto request

theorem approve_heeds (docId : String) (request : Request) : Heeds (WorkflowController.approve docId request) := by
  unfold WorkflowController.approve
  cases RolesGuard ["approver", "admin"] request.user with
  | error e => trivial
  | ok u =>
    refine findOne_heeds fun document => heeds_ofExcept fun publishes _ => ?_
    split
    · exact controller_heeds docId _ request
    · have hrest : (DocumentsController.advanceApprovalStep docId request >>= fun _ =>
          pure { document with status := .PENDING } : DocumentM Document).Uses fun o => o.records = none :=
        .bind (fun _ => .pure _) (advanceApprovalStep_uses (fun _ _ => rfl) fun _ => rfl)
      exact ⟨heeds_of_uses hrest, fun _ => not_recording hrest⟩

theorem DocumentTask.heeds (t : DocumentTask) : Heeds t.prog := by
  cases ht : t.isRecorded with
  | false => exact heeds_of_uses (t.unrecorded ht)
  | true =>
    cases t with
    | updateStatus docId dto request => exact answered_heeds (controller_heeds docId dto request).1
    | submit docId request => exact answered_heeds guarded_heeds
    | approve docId request => exact answered_heeds (approve_heeds docId request)
    | reject docId reason request => exact answered_heeds guarded_heeds
    | archive docId request => exact answered_heeds guarded_heeds
    | delete docId request =>
      rw [DocumentTask.prog, deleted_eq]
      exact heeds_then (fun _ => .pure _) guarded_heeds
    | runRetention now => exact heeds_then (fun _ => .pure _) (runRetention_heeds now)
    | _ => cases ht

end

/-! ## Runs -/

section
variable {ι : Type} {p : ι}

/-- Nobody sets the status of a document that another process has read and will write, and every write of the status
has a row. -/
structure StatusesApart (c : Config ι (MetadataDb ι) DocumentOp DocumentOp.Res HttpError DocumentOutcome) (p : ι)
    (o : DocumentOp) : Prop where
  alone : ∀ id, o.setsStatus = some id → ∀ q, q ≠ p → ¬Recording id (c.procs q)
  recorded : ∀ id notDeleted data, o = .updateDocument id notDeleted data none → data.status = none

structure RecordsKept (m : DocumentM DocumentOutcome) (db : MetadataDb ι) : Prop where
  issued : m.Uses Issued
  heeds : Heeds m
  due : ∀ id, Recording id m → ∀ document, db.find id = some document → m.Uses (From id document.status)

theorem records_sets {o : DocumentOp} {id id' : String} (h : o.records = some id) (h' : o.setsStatus = some id') :
    id' = id := by
  cases o with
  | updateDocument docId notDeleted data row =>
    cases row with
    | none => cases h
    | some row =>
      simp only [DocumentOp.setsStatus] at h'
      split at h'
      · exact (Option.some.inj h').symm.trans (Option.some.inj h)
      · cases h'
  | _ => cases h

theorem status_kept {db db' : MetadataDb ι} {o : DocumentOp} {r : o.Res}
    (hx : DocumentExec p db o r db') (hu : Issued o)
    {id : String} (ho : o.setsStatus ≠ some id) {d' : Document} (hd : db'.find id = some d') :
    ∃ d, db.find id = some d ∧ d.status = d'.status := by
  rcases exec_writes hx with rfl | hw
  · exact ⟨d', hd, rfl⟩
  · cases hw with
    | @create document new =>
      rw [find_create new, if_neg fun h => ho (congrArg some h)] at hd
      exact ⟨d', hd, rfl⟩
    | @update docId notDeleted data row document found =>
      rw [find_update (target_find found)] at hd
      split at hd
      · rename_i hid
        subst hid
        obtain rfl := Option.some.inj hd
        have hnone : data.status = none := by
          cases hs : data.status with
          | none => rfl
          | some status => exact absurd (by simp [DocumentOp.setsStatus, hs]) ho
        refine ⟨document, target_find found, ?_⟩
        rw [DocumentUpdate.set, hnone, Option.getD_none]
      · exact ⟨d', hd, rfl⟩
    | @delete docId document found =>
      rw [find_delete] at hd
      split at hd
      · cases hd
      · exact ⟨d', hd, rfl⟩
    | @createVersion row data document found new =>
      rw [find_createVersion found] at hd
      split at hd
      · rename_i hid
        subst hid
        obtain rfl := Option.some.inj hd
        refine ⟨document, found, ?_⟩
        rw [DocumentUpdate.set, hu.workflow.1, Option.getD_none]
      · exact ⟨d', hd, rfl⟩

theorem readsStatus_true {db db' : MetadataDb ι} {o : DocumentOp} {r : o.Res} (hU : db.Unique)
    (hx : DocumentExec p db o r db')
    {id : String} {status : DocumentStatus} (h : ReadsStatus o r id status) {document : Document}
    (hd : db'.find id = some document) : document.status = status := by
  cases o with
  | findDocument docId organizationId =>
    obtain ⟨hr, rfl⟩ := Prod.mk.inj hx
    obtain ⟨read, rfl, hid, rfl⟩ := h
    have hfound := (Option.filter_eq_some_iff.mp hr.symm).1
    rw [← find_id hfound, hid, hd] at hfound
    rw [Option.some.inj hfound]
  | findCandidates =>
    obtain ⟨hperm, rfl⟩ := hx
    obtain ⟨read, hm, rfl, rfl⟩ := h
    rw [hU.find (List.mem_filter.mp (hperm.mem_iff.mp hm)).1] at hd
    rw [Option.some.inj hd]
  | _ => exact h.elim

theorem exec_possible {db db' : MetadataDb ι} {o : DocumentOp} {r : o.Res} (hU : db.Unique)
    (hx : DocumentExec p db o r db') : Possible o r := by
  cases o with
  | findDocument docId organizationId =>
    rintro document rfl
    exact find_id (Option.filter_eq_some_iff.mp (Prod.mk.inj hx).1.symm).1
  | findCandidates =>
    refine ⟨(hx.1.map _).nodup_iff.mpr (hU.sublist (List.filter_sublist.map _)), fun document hm => ?_⟩
    have hcandidate := (List.mem_filter.mp (hx.1.mem_iff.mp hm)).2
    simp only [isCandidate, Bool.and_eq_true, decide_eq_true_eq] at hcandidate
    exact hcandidate.1.1.1
  | _ => trivial

theorem RecordsKept.finds {c : Config ι (MetadataDb ι) DocumentOp DocumentOp.Res HttpError DocumentOutcome}
    {o : DocumentOp}
    {k : o.Res → DocumentM DocumentOutcome} (hk : RecordsKept (.call o k) c.store) (hc : StatusesApart c p o) :
    FindsRecorded c.store o := by
  cases o with
  | updateDocument id notDeleted data row =>
    intro document found status hs
    cases row with
    | none =>
      rw [recordedFrom, hc.recorded id notDeleted data rfl] at hs
      cases hs
    | some row =>
      obtain rfl := Option.some.inj hs
      exact ((hk.due id ⟨⟨_, rfl, nofun⟩, .inl rfl⟩ document (target_find found)).1 rfl).symm
  | _ => trivial

variable [DecidableEq ι] {tasks : ι → DocumentTask}
  {c : Config ι (MetadataDb ι) DocumentOp DocumentOp.Res HttpError DocumentOutcome}

theorem reach_recordsKept (hr : Reach DocumentExec StatusesApart (startTasks tasks) c) :
    (c.store.Unique ∧ HistoryPath c.store) ∧ ∀ p, RecordsKept (c.procs p) c.store := by
  refine hr.assertions (I := fun db => db.Unique ∧ HistoryPath db) (J := fun _ m db => RecordsKept m db)
    ⟨List.nodup_nil, fun _ _ => nofun, fun _ _ => rfl⟩
      (fun p => ⟨(tasks p).uses, (tasks p).heeds, fun _ _ _ => nofun⟩)
    (fun _ _ _ _ _ _ => ⟨trivial, trivial, fun _ h => h.2.elim⟩) ?_ ?_
  · intro c p o k r db' ⟨hU, hi⟩ _ hk hx hc
    have hU' : db'.Unique := by
      rcases exec_writes hx with rfl | hw
      · exact hU
      · exact hU.writes hw
    obtain ⟨hread, hheeds⟩ := hk.heeds.2 r (exec_possible hU hx)
    refine ⟨⟨hU', hi.step hk.issued.1 (hk.finds hc) hx⟩, hk.issued.2 r, hheeds, fun id hrec document hd => ?_⟩
    cases ho : o.records with
    | none =>
      obtain ⟨status, hreads, hfrom⟩ := hread ho id hrec
      rw [readsStatus_true hU hx hreads hd]
      exact hfrom
    | some recorded =>
      -- in the loop of a job: what is left to write was so before
      have hne : id ≠ recorded := fun h => hk.heeds.1 recorded ho r (h ▸ hrec.2)
      obtain ⟨d, hd₀, hs⟩ := status_kept hx hk.issued.1 (fun hsets => hne (records_sets ho hsets)) hd
      rw [← hs]
      have hwrites : o.records ≠ none := fun h => nomatch ho.symm.trans h
      exact (hk.due id ⟨⟨o, rfl, hwrites⟩, .inr ⟨r, hrec.2⟩⟩ d hd₀).2 r
  · intro c p q o k r db' _ _ hq hx hc hpq hp
    refine ⟨hp.issued, hp.heeds, fun id hrec document hd => ?_⟩
    obtain ⟨d, hd₀, hs⟩ := status_kept hx hq.issued.1 (fun hsets => hc.alone id hsets p hpq hrec) hd
    rw [← hs]
    exact hp.due id hrec d hd₀

/-- As long as nobody sets the status between the read of another process and its write, and every write of the
status has a row, the history of each document is a path from `DRAFT` to its status. -/
theorem history_path (hr : Reach DocumentExec StatusesApart (startTasks tasks) c)
    {id : String} {document : Document}
    (h : c.store.find id = some document) : path .DRAFT (c.store.rows id) document.status = true :=
  (reach_recordsKept hr).1.2.leads id document h

end

/-! A document is created, submitted and rejected. -/

def recordsAlone {ι : Type} [Fintype ι] [DecidableEq ι]
    (c : Config ι (MetadataDb ι) DocumentOp DocumentOp.Res HttpError DocumentOutcome) (p : ι)
    (o : DocumentOp) : Bool :=
  o.setsStatus.isNone || decide (∀ q, q ≠ p → (c.procs q).next.all (·.records = none) = true) &&
    match o with
    | .updateDocument _ _ _ row => row.isSome
    | _ => true

theorem apart_of_alone {ι : Type} [Fintype ι] [DecidableEq ι]
    {c : Config ι (MetadataDb ι) DocumentOp DocumentOp.Res HttpError DocumentOutcome} {p : ι} {o : DocumentOp}
    (h : recordsAlone c p o = true) : StatusesApart c p o := by
  simp only [recordsAlone, Bool.or_eq_true, Bool.and_eq_true, decide_eq_true_eq, Option.isNone_iff_eq_none] at h
  refine ⟨fun id hid q hq ⟨⟨o', hn, ho'⟩, _⟩ => ?_, ?_⟩
  · rcases h with h | h
    · rw [hid] at h
      cases h
    · have hall := h.1 q hq
      rw [hn, Option.all_some, decide_eq_true_eq] at hall
      exact ho' hall
  · rintro id notDeleted data rfl
    rcases h with h | h
    · simpa [DocumentOp.setsStatus] using h
    · cases h.2

def reviewTasks : Fin 3 → DocumentTask
  | 0 => .create {} ownerRequest "d-1"
  | 1 => .submit "d-1" ownerRequest
  | 2 => .reject "d-1" (some "incomplete") approverRequest

def reviewed : Config (Fin 3) (MetadataDb (Fin 3)) DocumentOp DocumentOp.Res HttpError DocumentOutcome :=
  schedule documentRun (startTasks reviewTasks) ((List.finRange 3).flatMap (List.replicate 3))

theorem history_path_sample : ∃ document, reviewed.store.find "d-1" = some document ∧
    path .DRAFT (reviewed.store.rows "d-1") document.status = true := by
  obtain ⟨document, h⟩ :=
    Option.isSome_iff_exists.mp (show (reviewed.store.find "d-1").isSome = true by decide +kernel)
  have halone : Meets documentRun (fun c p o => recordsAlone c p o = true) (startTasks reviewTasks)
      ((List.finRange 3).flatMap (List.replicate 3)) :=
    meets_iff _ _ (by decide +kernel)
  have hr := Reach.schedule documentRun_exec _ _ .refl (halone.mono fun _ _ _ => apart_of_alone)
  exact ⟨document, h, history_path hr h⟩

def trashTasks : Nat → DocumentTask
  | 0 => .create {} ownerRequest "d-1"
  | 1 => .delete "d-1" ownerRequest
  | _ => .restoreFromTrash "d-1" ownerRequest

-- The restored document is a draft again, and its history ends with its deletion.
def restored : Config Nat (MetadataDb Nat) DocumentOp DocumentOp.Res HttpError DocumentOutcome :=
  schedule documentRun (startTasks trashTasks) [0, 1, 1, 1, 2, 2]

theorem history_no_path :
    ¬ ∀ (tasks : Nat → DocumentTask)
      (c : Config Nat (MetadataDb Nat) DocumentOp DocumentOp.Res HttpError DocumentOutcome) (id : String)
      (document : Document), Reach DocumentExec (fun _ _ _ => True) (startTasks tasks) c →
      c.store.find id = some document → path .DRAFT (c.store.rows id) document.status = true := by
  intro h
  have hr : Reach DocumentExec (fun _ _ _ => True) (startTasks trashTasks) restored :=
    Reach.schedule documentRun_exec _ _ .refl (meets_true _ _)
  have hfalse : (restored.store.find "d-1").all (fun d => path .DRAFT (restored.store.rows "d-1") d.status) =
    false := by
    decide +kernel
  rw [Option.all_eq_false] at hfalse
  obtain ⟨document, hfind, hpath⟩ := hfalse
  rw [h trashTasks restored "d-1" document hr hfind] at hpath
  cases hpath

end DocVault
