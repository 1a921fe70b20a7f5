import DocVault.TenantDecisions

/-!
# The routes stay in the organization

Every route that finds its document in the organization of the caller is
isolated: it answers as it does without the rows of other organizations, and
leaves these as they were.
-/

namespace DocVault

open Isolation (Action Isolated Local action isolated_bind isolated_guard isolated_op isolated_ofExcept)
open Interleave (Prog)
open TenantM TenantDb

section
variable {α β : Type} {env : TenantEnv} {A docId : String} {db : TenantDb} {Q : α → TenantDb → Prop}
  {R : β → TenantDb → Prop}

/-- What a route returns is of no interest. -/
abbrev Any : α → TenantDb → Prop := fun _ _ => True

theorem org_eq {request : Request} (h : request.organizationId = some A) {organizationId : String}
    (horg : requireOrgId request = .ok organizationId) : organizationId = A :=
  Option.some.inj ((requireOrgId_ok.mp horg).symm.trans h)

/-! ## Programs on documents -/

section
variable {request : Request}

theorem isolated_find {f : Option Document → DocumentM β}
    (hnone : Isolated (tenant A) (action runDocument (f none)) db R)
    (hsome : ∀ document, document.id = docId → db.Own A docId →
      Isolated (tenant A) (action runDocument (f (some document))) db R) :
    Isolated (tenant A) (action runDocument (findDocument docId A >>= f)) db R := by
  refine isolated_op local_findDocument ?_
  have hrun : (db.runDocument (.findDocument docId A)).2 = db := rfl
  rw [hrun]
  cases found : (db.runDocument (.findDocument docId A)).1 with
  | none => exact hnone
  | some document =>
    obtain ⟨hfind, horg⟩ := Option.filter_eq_some_iff.mp found
    obtain ⟨hmem, rfl⟩ := mem_of_find hfind
    exact hsome document rfl (own_of_mem hmem (of_decide_eq_true horg))

theorem isolated_findInOrg (h : request.organizationId = some A) :
    Isolated (tenant A) (action runDocument (findInOrg docId request)) db
      fun document db' => db' = db ∧ document.id = docId ∧ db.Own A docId := by
  refine isolated_guard fun organizationId horg => ?_
  obtain rfl := org_eq h horg
  exact isolated_find (.throw _) fun document hid hown => .pure ⟨rfl, hid, hown⟩

theorem isolated_findInOrg_bind {f : Document → DocumentM β} (h : request.organizationId = some A)
    (hf : ∀ document, document.id = docId → db.Own A docId →
      Isolated (tenant A) (action runDocument (f document)) db R) :
    Isolated (tenant A) (action runDocument (findInOrg docId request >>= f)) db R := by
  refine isolated_bind (isolated_findInOrg h) ?_
  rintro document _ ⟨rfl, hid, hown⟩
  exact hf document hid hown

/-- The document that an update returns is one of the organization. -/
theorem isolated_update {notDeleted : Bool} {data : DocumentUpdate} {row : Option DocumentWorkflowHistory}
    (hown : db.Own A docId) (hrow : ∀ r ∈ row, r.docId = docId) :
    Isolated (tenant A) (action runDocument (updateDocument docId notDeleted data row >>= fun result =>
      Prog.ofExcept (updated result))) db fun document db' => db'.Own A document.id := by
  refine isolated_op (local_update hown hrow) (isolated_ofExcept fun document hupdated => ?_)
  cases found : db.metadata.target docId notDeleted with
  | none =>
    rw [runDocument_missing found] at hupdated
    cases hupdated
  | some old =>
    rw [runDocument_update found] at hupdated ⊢
    obtain rfl := Except.ok.inj hupdated
    obtain ⟨hmem, rfl⟩ := mem_of_find (target_find found)
    exact (congrFun (foreign_set hmem _ _) old.id).trans hown

theorem isolated_createVersion {row : DocumentVersion} {data : DocumentUpdate} (hown : db.Own A row.docId) :
    Isolated (tenant A) (action runDocument (Prog.op (DocumentOp.createVersion row data) >>= fun result =>
      Prog.ofExcept (updated result))) db Any :=
  isolated_op (local_createVersion hown) (isolated_ofExcept fun _ _ => trivial)

/-- The document that a program returns is one of the organization. -/
abbrev ReturnsOwn (A : String) : Document → TenantDb → Prop := fun document db => db.Own A document.id

theorem isolated_restoreFromTrash (h : request.organizationId = some A) :
    Isolated (tenant A) (action runDocument (DocumentsController.restoreFromTrash docId request)) db
      (ReturnsOwn A) :=
  isolated_guard fun _ _ => isolated_findInOrg_bind h fun _ _ hown => isolated_guard fun _ _ =>
    isolated_update hown (by simp)

theorem isolated_setApprovalChain (h : request.organizationId = some A) (dto : ApprovalChainDto) :
    Isolated (tenant A) (action runDocument (DocumentsController.setApprovalChain docId dto request)) db
      (ReturnsOwn A) :=
  isolated_guard fun _ _ => isolated_findInOrg_bind h fun _ _ hown => isolated_guard fun _ _ =>
    isolated_update hown (by simp)

theorem isolated_advanceApprovalStep (h : request.organizationId = some A) :
    Isolated (tenant A) (action runDocument (DocumentsController.advanceApprovalStep docId request)) db
      (ReturnsOwn A) :=
  isolated_guard fun _ _ => isolated_findInOrg_bind h fun _ _ hown => isolated_update hown (by simp)

theorem isolated_setLegalHold (h : request.organizationId = some A) (dto : LegalHoldDto) :
    Isolated (tenant A) (action runDocument (DocumentsController.setLegalHold docId dto request)) db
      (ReturnsOwn A) := by
  refine isolated_guard fun _ _ => ?_
  unfold DocumentsService.setLegalHold
  split
  · exact .throw _
  · exact isolated_findInOrg_bind h fun _ _ hown => isolated_guard fun _ _ => isolated_update hown (by simp)

theorem isolated_updateDocument (h : request.organizationId = some A) (dto : UpdateDocumentDto) :
    Isolated (tenant A) (action runDocument (DocumentsController.update docId dto request)) db (ReturnsOwn A) :=
  isolated_guard fun _ _ => isolated_findInOrg_bind h fun _ _ hown => isolated_guard fun _ _ =>
    isolated_update hown (by simp)

theorem isolated_updateStatus (h : request.organizationId = some A) (dto : UpdateStatusDto) :
    Isolated (tenant A) (action runDocument (DocumentsController.updateStatus docId dto request)) db
      (ReturnsOwn A) := by
  refine isolated_guard fun _ _ => isolated_guard fun organizationId horg => ?_
  obtain rfl := org_eq h horg
  refine isolated_find (.throw _) fun document _ hown => isolated_guard fun transition _ => isolated_update hown ?_
  intro r hr
  obtain rfl := Option.some.inj hr
  rfl

theorem isolated_createVersionRoute (h : request.organizationId = some A) (dto : CreateVersionDto) :
    Isolated (tenant A) (action runDocument (DocumentsController.createVersion docId dto request)) db Any :=
  isolated_guard fun _ _ => isolated_findInOrg_bind h fun _ _ hown => isolated_guard fun _ _ =>
    isolated_createVersion hown

theorem isolated_restoreVersion (h : request.organizationId = some A) (version : Int) :
    Isolated (tenant A) (action runDocument (DocumentsController.restoreVersion docId version request)) db Any := by
  refine isolated_guard fun _ _ => isolated_findInOrg_bind h fun document _ hown => isolated_guard fun _ _ => ?_
  refine isolated_op (local_findVersion hown version) ?_
  have hrun : (db.runDocument (.findVersion docId version)).2 = db := rfl
  rw [hrun]
  cases (db.runDocument (.findVersion docId version)).1 with
  | none => exact .throw _
  | some source => exact isolated_guard fun _ _ => isolated_createVersion hown

theorem isolated_create {document : Document} (horg : document.organizationId = A)
    (new : db.metadata.find document.id = none) :
    Isolated (tenant A) (action runDocument (Prog.op (DocumentOp.createDocument document) >>= fun result =>
      Prog.ofExcept (updated result))) db (ReturnsOwn A) := by
  refine isolated_op (local_create horg new) ?_
  rw [runDocument_create new]
  refine isolated_ofExcept fun created hupdated => ?_
  obtain rfl := Except.ok.inj hupdated
  exact own_of_mem (List.mem_append_right _ List.mem_cons_self) horg

-- The generated id is a new one.
theorem isolated_createDocument (h : request.organizationId = some A) (dto : CreateDocumentDto) {uuid : String}
    (new : db.documents.find uuid = none) :
    Isolated (tenant A) (action runDocument (DocumentsController.create dto request uuid)) db (ReturnsOwn A) := by
  refine isolated_guard fun _ _ => isolated_guard fun organizationId horg => ?_
  obtain rfl := org_eq h horg
  exact isolated_create rfl new

end

/-! ## Routes on documents -/

section
variable {caller : PolicyRequest} {request : Request}

theorem isolated_guarded {required : List String} {m : TenantM β} (hm : Isolated (tenant A) m db R) :
    Isolated (tenant A) (guarded required caller m) db R := .ofExcept_bind fun _ _ => hm

theorem isolated_answer {response : α → TenantResponse} {m : TenantM α} (hm : Isolated (tenant A) m db Q) :
    Isolated (tenant A) (answer response m) db Any := hm.bind fun _ _ _ => .pure trivial

theorem isolated_decide {f : PolicyDb → Except HttpError α} (hf : f (db.within A).policy = f db.policy) :
    Isolated (tenant A) (decide f) db Any := .read hf fun _ _ => trivial

theorem isolated_withText {document : Document} (hown : db.Own A document.id) :
    Isolated (tenant A) (withText document) db Any :=
  .read (congrArg (fun text => Except.ok (TenantDocument.mk document text)) (text_own hown)) fun _ _ => trivial

theorem isolated_withTextOf {m : DocumentM Document}
    (hm : Isolated (tenant A) (action runDocument m) db (ReturnsOwn A)) :
    Isolated (tenant A) (TenantDocuments.withTextOf m) db Any :=
  hm.bind fun _ _ hown => isolated_withText hown

theorem isolated_findOwn {f : Document → TenantM β} (h : request.organizationId = some A)
    (hf : ∀ document, document.id = docId → db.Own A docId → Isolated (tenant A) (f document) db R) :
    Isolated (tenant A) (findInTenant docId request >>= f) db R := by
  refine Isolated.bind (isolated_findInOrg h) ?_
  rintro document _ ⟨rfl, hid, hown⟩
  exact hf document hid hown

theorem isolated_assertCanRead {f : Document → TenantM β} (h : caller.organizationId = some A)
    (hf : ∀ document, document.id = docId → db.Own A docId → Isolated (tenant A) (f document) db R) :
    Isolated (tenant A) (assertCanRead env docId caller >>= f) db R := by
  refine .read_bind (PolicyService.assertCanReadMetadata_within h) fun document hr => ?_
  obtain ⟨hown, hid⟩ := PolicyService.own_of_read hr h
  exact hf document hid hown

end

theorem isolated_write {W : Unit → TenantDb → Prop} {f : TenantDb → TenantDb}
    (hin : f (db.within A) = (f db).within A)
    (hout : (f db).beyond A = db.beyond A) (hw : W () (f db)) : Isolated (tenant A) (write f) db W :=
  .act ⟨Prod.ext rfl hin, hout⟩ hw

/-! ## A table of the store -/

section
variable {κ : Type} [DecidableEq κ] {key : α → κ}

structure TenantTable (key : α → κ) where
  get : TenantDb → Keyed.Table key
  set : TenantDb → Keyed.Table key → TenantDb

/-- The rows of the table that are `mine` are the ones of the organization's part. -/
structure TenantTable.Sided (t : TenantTable key) (A : String) (db : TenantDb) (mine : α → Bool) : Prop where
  get_within : t.get (db.within A) = (t.get db).filter mine
  set_within : ∀ rows, t.set (db.within A) (rows.filter mine) = (t.set db rows).within A
  set_beyond : ∀ rows, rows.filter (fun row => !mine row) = (t.get db).filter (fun row => !mine row) →
    (t.set db rows).beyond A = db.beyond A

namespace TenantTable
variable {t : TenantTable key} {mine : α → Bool} {row : α}

-- A new key is the key of no row.
theorem isolated_insert (hs : t.Sided A db mine) (hmine : mine row = true)
    (new : (t.get db).find (key row) = none) :
    Isolated (tenant A) (TenantM.create row fun db => ((t.get db).insert row).map (t.set db)) db Any := by
  have hnone : ∀ r ∈ (t.get db).rows, key r = key row → mine r = true := fun r hr hk =>
    absurd hk (Keyed.find_none.mp new r hr)
  have hin : ((t.get (db.within A)).insert row).map (t.set (db.within A)) =
      (((t.get db).insert row).map (t.set db)).map (·.within A) := by
    rw [hs.get_within, Keyed.Table.insert_filter hmine hnone, Option.map_map, Option.map_map]
    exact Option.map_congr fun rows _ => hs.set_within rows
  refine .act_bind ?_ (.ofExcept fun _ _ => trivial)
  cases h : (t.get db).insert row with
  | none =>
    rw [h, Option.map_none, Option.map_none] at hin
    exact .same (a := none) (by simp only [tenant, hin]) (by simp only [h, Option.map_none])
  | some rows =>
    rw [h, Option.map_some, Option.map_some] at hin
    refine .of_eq (a := some row) (by simp only [tenant, hin]; rfl) (by simp only [h, Option.map_some]) rfl ?_
    exact hs.set_beyond rows (Keyed.Table.insert_filter_ne (by simp [hmine]) h)

theorem isolated_put (hs : t.Sided A db mine) (hmine : mine row = true)
    (h : ∀ r ∈ (t.get db).rows, key r = key row → mine r = true) :
    Isolated (tenant A) (write fun db => t.set db ((t.get db).put row)) db Any := by
  refine isolated_write ?_ (hs.set_beyond _ ?_) trivial
  · rw [hs.get_within, ← Keyed.Table.put_filter fun r hr hk => (h r hr hk).trans hmine.symm]
    exact hs.set_within _
  · exact Keyed.Table.put_filter_ne (by simp [hmine]) fun r hr hk => by simp [h r hr hk]

theorem isolated_remove (hs : t.Sided A db mine) {k : κ} (h : ∀ r ∈ (t.get db).rows, key r = k → mine r = true) :
    Isolated (tenant A) (write fun db => t.set db ((t.get db).remove k)) db Any := by
  refine isolated_write ?_ (hs.set_beyond _ ?_) trivial
  · rw [hs.get_within, ← Keyed.Table.remove_filter]
    exact hs.set_within _
  · exact Keyed.Table.remove_filter_ne fun r hr hk => by simp [h r hr hk]

end TenantTable

end

def aclTable : TenantTable fun row : DocumentAclRow => row.id :=
  ⟨fun db => db.aclEntries, fun db rows => { db with aclEntries := rows }⟩

def commentTable : TenantTable fun comment : DocumentComment => comment.id :=
  ⟨fun db => db.comments, fun db rows => { db with comments := rows }⟩

def viewTable : TenantTable fun view : DocumentSavedView => view.id :=
  ⟨fun db => db.savedViews, fun db rows => { db with savedViews := rows }⟩

theorem aclTable_sided : aclTable.Sided A db fun row => !db.foreign A row.docId where
  get_within := rfl
  set_within _ := rfl
  set_beyond rows h := by
    simp only [Bool.not_not] at h
    exact TenantDb.ext rfl rfl rfl rfl h rfl rfl rfl

theorem commentTable_sided : commentTable.Sided A db fun comment => !db.foreign A comment.docId where
  get_within := rfl
  set_within _ := rfl
  set_beyond rows h := by
    simp only [Bool.not_not] at h
    exact TenantDb.ext rfl rfl rfl rfl rfl h rfl rfl

theorem viewTable_sided : viewTable.Sided A db fun view => view.organizationId = A where
  get_within := rfl
  set_within _ := rfl
  set_beyond rows h := by
    simp only [← decide_not] at h
    exact TenantDb.ext rfl rfl rfl rfl rfl rfl rfl h

/-! ## ACL entries -/

section
variable {caller : PolicyRequest} {request : Request}

theorem isolated_upsertAcl (h : request.organizationId = some A) (dto : UpsertAclDto) {aclId : String}
    (new : db.aclEntries.find aclId = none) :
    Isolated (tenant A) (AclService.upsert docId dto aclId request) db Any := by
  refine .ofExcept_bind fun _ _ => isolated_findOwn h fun document _ hown => ?_
  refine .ofExcept_bind fun _ _ => .ofExcept_bind fun _ _ => ?_
  exact TenantTable.isolated_insert aclTable_sided (congrArg not hown) new

theorem isolated_listAcl (h : caller.organizationId = some A) :
    Isolated (tenant A) (AclService.list env docId caller) db Any := by
  refine .ofExcept_bind fun _ _ => isolated_assertCanRead h fun _ _ hown => .read ?_ fun _ _ => trivial
  have hrows : (db.within A).aclEntries.rows.filter (·.docId = docId) =
    db.aclEntries.rows.filter (·.docId = docId) :=
    filter_child hown (fun _ => of_decide_eq_true) db.aclEntries.rows
  exact congrArg (fun rows => Except.ok (rows.insertionSort fun a b : DocumentAclRow => a.id ≤ b.id)) hrows

theorem entryOf_ok {row : Option DocumentAclRow} {entry : DocumentAclRow} :
    AclService.entryOf docId row = .ok entry ↔ row = some entry ∧ entry.docId = docId := by
  cases row with
  | none => simp [AclService.entryOf]
  | some row =>
    by_cases hid : row.docId = docId
    · simp only [AclService.entryOf, hid, ne_eq, not_true_eq_false, if_false, Except.ok.injEq, Option.some.injEq]
      exact ⟨fun he => ⟨he, he ▸ hid⟩, fun he => he.1⟩
    · simp only [AclService.entryOf, hid, ne_eq, not_false_eq_true, if_true, reduceCtorEq,
        Option.some.injEq, false_iff]
      rintro ⟨rfl, he⟩
      exact hid he

theorem entryOf_within (hown : db.Own A docId) (aclId : String) :
    AclService.entryOf docId ((db.within A).aclEntries.find aclId) = AclService.entryOf docId
      (db.aclEntries.find aclId) := by
  have hfind : (db.within A).aclEntries.find aclId = (db.aclEntries.find aclId).filter fun row =>
    !db.foreign A row.docId :=
    Keyed.Table.find_filter
  rw [hfind]
  cases db.aclEntries.find aclId with
  | none => rfl
  | some row =>
    cases hf : db.foreign A row.docId with
    | false => simp [Option.filter, hf]
    | true =>
      have hne : row.docId ≠ docId := by
        rintro rfl
        exact Bool.false_ne_true (hown.symm.trans hf)
      simp [Option.filter, hf, AclService.entryOf, hne]

theorem isolated_deleteAcl (h : request.organizationId = some A) (aclId : String) :
    Isolated (tenant A) (AclService.delete docId aclId request) db Any := by
  refine .ofExcept_bind fun _ _ => isolated_findOwn h fun document _ hown => .ofExcept_bind fun _ _ => ?_
  refine .read_bind (entryOf_within hown aclId) fun row hrow => ?_
  obtain ⟨found, rfl⟩ := entryOf_ok.mp hrow
  refine TenantTable.isolated_remove aclTable_sided fun r hr hk => ?_
  obtain ⟨hmem, hid⟩ := Keyed.find_some found
  obtain rfl := db.aclEntries.unique.eq hr hmem (hk.trans hid.symm)
  exact congrArg not hown

/-! ## Comments -/

theorem isolated_addComment (h : caller.organizationId = some A) (content : String) {commentId : String}
    (new : db.comments.find commentId = none) :
    Isolated (tenant A) (CommentsService.create env docId content commentId caller) db Any := by
  refine .ofExcept_bind fun _ _ => isolated_assertCanRead h fun _ _ hown => ?_
  exact TenantTable.isolated_insert commentTable_sided (congrArg not hown) new

theorem isolated_listComments (h : caller.organizationId = some A) :
    Isolated (tenant A) (CommentsService.findByDoc env docId caller) db Any := by
  refine .ofExcept_bind fun _ _ => isolated_assertCanRead h fun _ _ hown => .read ?_ fun _ _ => trivial
  have hrows : (db.within A).comments.rows.filter (·.docId = docId) = db.comments.rows.filter (·.docId = docId) :=
    filter_child hown (fun _ => of_decide_eq_true) db.comments.rows
  exact congrArg (fun rows =>
    Except.ok (rows.insertionSort fun a b : DocumentComment => b.createdAt ≤ a.createdAt)) hrows

/-- The comment that is found is one of the document, and of no other. -/
theorem isolated_findComment {f : DocumentComment → TenantM β} {commentId : String} (hown : db.Own A docId)
    (hf : ∀ comment ∈ db.comments.rows, comment.id = commentId → comment.docId = docId →
      Isolated (tenant A) (f comment) db R) :
    Isolated (tenant A) (CommentsService.findCommentForDocument docId commentId >>= f) db R := by
  have hfind : (db.within A).comments.rows.find? (fun comment => comment.id = commentId && comment.docId = docId) =
      db.comments.rows.find? fun comment => comment.id = commentId && comment.docId = docId :=
    find_child hown (fun _ hrow => of_decide_eq_true ((Bool.and_eq_true _ _).mp hrow).2) db.comments.rows
  refine .read_bind ?_ fun comment hcomment => ?_
  · simp only [tenant, hfind]
  · split at hcomment
    · rename_i found
      obtain rfl := Except.ok.inj hcomment
      have hp := List.find?_some found
      simp only [Bool.and_eq_true, decide_eq_true_eq] at hp
      exact hf _ (List.mem_of_find?_eq_some found) hp.1 hp.2
    · cases hcomment

theorem isolated_updateComment (h : caller.organizationId = some A) (commentId content : String) :
    Isolated (tenant A) (CommentsService.update env docId commentId content caller) db Any := by
  refine .ofExcept_bind fun _ _ => isolated_assertCanRead h fun _ _ hown => ?_
  refine isolated_findComment hown fun comment hmem hid hdoc => .ofExcept_bind fun _ _ => ?_
  have hforeign : (!db.foreign A comment.docId) = true := hdoc ▸ congrArg not hown
  refine Isolated.bind (TenantTable.isolated_put commentTable_sided hforeign fun r hr hk => ?_)
    fun _ _ _ => .pure trivial
  obtain rfl := db.comments.unique.eq hr hmem hk
  exact hforeign

theorem isolated_deleteComment (h : caller.organizationId = some A) (commentId : String) :
    Isolated (tenant A) (CommentsService.delete env docId commentId caller) db Any := by
  refine .ofExcept_bind fun _ _ => isolated_assertCanRead h fun _ _ hown => ?_
  refine isolated_findComment hown fun comment hmem hid hdoc => .ofExcept_bind fun _ _ => ?_
  refine TenantTable.isolated_remove commentTable_sided fun r hr hk => ?_
  obtain rfl := db.comments.unique.eq hr hmem (hk.trans hid.symm)
  exact hdoc ▸ congrArg not hown

/-! ## Saved views -/

theorem isolated_createSavedView (h : request.organizationId = some A) (dto : CreateDocumentSavedViewDto)
    {viewId : String} (new : db.savedViews.find viewId = none) :
    Isolated (tenant A) (DocumentSavedViewsService.create dto viewId request) db Any := by
  refine .ofExcept_bind fun _ _ => .ofExcept_bind fun _ _ => .ofExcept_bind fun organizationId horg => ?_
  obtain rfl := org_eq h horg
  exact TenantTable.isolated_insert viewTable_sided (decide_eq_true rfl) new

theorem isolated_findSavedViews (h : request.organizationId = some A) :
    Isolated (tenant A) (DocumentSavedViewsService.findAll request) db Any := by
  refine .ofExcept_bind fun _ _ => .ofExcept_bind fun organizationId horg => .read ?_ fun _ _ => trivial
  obtain rfl := org_eq h horg
  have hrows : (db.within organizationId).savedViews.rows.filter
        (DocumentSavedViewsService.shows organizationId request.context.actorId) =
      db.savedViews.rows.filter (DocumentSavedViewsService.shows organizationId request.context.actorId) := by
    have hwithin : (db.within organizationId).savedViews.rows =
        db.savedViews.rows.filter fun view => view.organizationId = organizationId := rfl
    rw [hwithin, List.filter_filter]
    refine List.filter_congr fun view _ => ?_
    unfold DocumentSavedViewsService.shows
    by_cases horg : view.organizationId = organizationId <;> simp [horg]
  exact congrArg (fun rows =>
    Except.ok (rows.insertionSort fun a b => DocumentSavedViewsService.viewOrder a b)) hrows

theorem viewOf_ok {view : Option DocumentSavedView} {found : DocumentSavedView} :
    DocumentSavedViewsService.viewOf A view = .ok found ↔ view = some found ∧ found.organizationId = A := by
  cases view with
  | none => simp [DocumentSavedViewsService.viewOf]
  | some view =>
    by_cases horg : view.organizationId = A
    · simp only [DocumentSavedViewsService.viewOf, horg, if_true, Except.ok.injEq, Option.some.injEq]
      exact ⟨fun he => ⟨he, he ▸ horg⟩, fun he => he.1⟩
    · simp only [DocumentSavedViewsService.viewOf, horg, if_false, reduceCtorEq, Option.some.injEq, false_iff]
      rintro ⟨rfl, he⟩
      exact horg he

theorem viewOf_within (viewId : String) :
    DocumentSavedViewsService.viewOf A ((db.within A).savedViews.find viewId) =
    DocumentSavedViewsService.viewOf A (db.savedViews.find viewId) := by
  have hfind : (db.within A).savedViews.find viewId = (db.savedViews.find viewId).filter fun view =>
    view.organizationId = A :=
    Keyed.Table.find_filter
  rw [hfind]
  cases db.savedViews.find viewId with
  | none => rfl
  | some view =>
    by_cases horg : view.organizationId = A <;> simp [Option.filter, DocumentSavedViewsService.viewOf, horg]

theorem isolated_deleteSavedView (h : request.organizationId = some A) (viewId : String) :
    Isolated (tenant A) (DocumentSavedViewsService.delete viewId request) db Any := by
  refine .ofExcept_bind fun _ _ => .ofExcept_bind fun organizationId horg => ?_
  obtain rfl := org_eq h horg
  refine .read_bind (viewOf_within viewId) fun view hview => .ofExcept_bind fun _ _ => ?_
  obtain ⟨found, horg⟩ := viewOf_ok.mp hview
  refine Isolated.bind (TenantTable.isolated_remove viewTable_sided fun r hr hk => ?_) fun _ _ _ => .pure trivial
  obtain ⟨hmem, hid⟩ := Keyed.find_some found
  obtain rfl := db.savedViews.unique.eq hr hmem (hk.trans hid.symm)
  exact decide_eq_true horg

/-! ## Documents -/

theorem filter_org {p : Document → Bool}
    (hp : ∀ document ∈ db.documents.rows, p document = true → document.organizationId = A) :
    (db.within A).documents.rows.filter p = db.documents.rows.filter p := by
  have hwithin : (db.within A).documents.rows = db.documents.rows.filter fun document =>
    document.organizationId = A := rfl
  rw [hwithin, List.filter_filter]
  refine List.filter_congr fun document hmem => ?_
  cases hd : p document with
  | false => rfl
  | true => simp [hp document hmem hd]

theorem isolated_findAll (h : caller.organizationId = some A) (searchFilter : Option TenantDocuments.SearchFilter) :
    Isolated (tenant A) (TenantDocuments.findAll searchFilter caller) db Any := by
  refine .read ?_ fun _ _ => trivial
  refine bind_same (TenantDocuments.findAll_within h searchFilter) fun summaries hs => ?_
  refine congrArg Except.ok (List.map_congr_left fun summary hsummary => ?_)
  exact congrArg (TenantDocuments.TenantSummary.mk summary)
    (text_own (TenantDocuments.findAll_own h hs summary hsummary))

theorem inTrash_org {context : RequestContext} {document : Document}
    (h : TenantDocuments.inTrash A context document = true) : document.organizationId = A := by
  simp only [TenantDocuments.inTrash, Bool.and_eq_true, decide_eq_true_eq] at h
  exact h.1.1

theorem isolated_listTrash (h : request.organizationId = some A) :
    Isolated (tenant A) (TenantDocuments.listTrash request) db Any := by
  refine .ofExcept_bind fun organizationId horg => .read ?_ fun _ _ => trivial
  obtain rfl := org_eq h horg
  have hrows : (db.within organizationId).documents.rows.filter
    (TenantDocuments.inTrash organizationId request.context) =
      db.documents.rows.filter (TenantDocuments.inTrash organizationId request.context) :=
        filter_org fun _ _ => inTrash_org
  refine congrArg Except.ok ?_
  simp only [tenant, hrows]
  refine List.map_congr_left fun document hd => ?_
  obtain ⟨hmem, hin⟩ := List.mem_filter.mp ((List.mem_insertionSort _).mp hd)
  rw [title_own (own_of_mem hmem (inTrash_org hin))]

theorem isolated_findDetail (h : caller.organizationId = some A) :
    Isolated (tenant A) (findDetail env docId caller) db Any := by
  refine .read_bind (PolicyService.assertCanReadMetadata_within h) fun document hr => .read ?_ fun _ _ => trivial
  obtain ⟨hown, rfl⟩ := PolicyService.own_of_read hr h
  have hversions := TenantDocuments.versions_own hown
  have hacl : (db.within A).aclEntries.rows.filter (·.docId = document.id) =
      db.aclEntries.rows.filter (·.docId = document.id) :=
        filter_child hown (fun _ => of_decide_eq_true) db.aclEntries.rows
  simp only [tenant, text_own hown, hversions, hacl]

theorem isolated_getAiGuardrails (h : caller.organizationId = some A) :
    Isolated (tenant A) (decide fun db => PolicyService.getAiGuardrails env.policy db docId caller) db Any :=
  isolated_decide (PolicyService.getAiGuardrails_within h)

theorem isolated_getAccessImpactPreview (h : caller.organizationId = some A)
    (classification : ClassificationLevel) : Isolated (tenant A)
      (decide fun db => PolicyService.getAccessImpactPreview env.policy db docId classification caller) db Any :=
  isolated_decide (PolicyService.getAccessImpactPreview_within h classification)

theorem isolated_authorizeDownload (caller : PolicyRequest) (h : caller.organizationId = some A) (dto : GrantDto) :
    Isolated (tenant A) (decide fun db => PolicyService.authorizeDownload env.policy db docId dto caller) db Any :=
  isolated_decide (PolicyService.authorizeDownload_within h dto)

theorem isolated_authorizePreview (caller : PolicyRequest) (h : caller.organizationId = some A) (dto : GrantDto) :
    Isolated (tenant A) (decide fun db => PolicyService.authorizePreview env.policy db docId dto caller) db Any :=
  isolated_decide (PolicyService.authorizePreview_within h dto)

theorem isolated_workflowHistory (h : caller.organizationId = some A) :
    Isolated (tenant A) (TenantDocuments.workflowHistory env docId caller) db Any := by
  refine .ofExcept_bind fun _ _ => isolated_assertCanRead h fun _ _ hown => .read ?_ fun _ _ => trivial
  have hrows : (db.within A).history.filter (·.docId = docId) = db.history.filter (·.docId = docId) :=
    filter_child hown (fun _ => of_decide_eq_true) db.history
  exact congrArg (fun rows => Except.ok rows.reverse) hrows

theorem isolated_newText {text : DocumentText} (hown : db.Own A text.docId) :
    Isolated (tenant A) (write fun db => { db with texts := db.texts ++ [text] }) db fun _ db' =>
      db'.Own A text.docId := by
  have hforeign : db.foreign A text.docId = false := hown
  refine isolated_write ?_ ?_ hown
  · refine TenantDb.ext rfl ?_ rfl rfl rfl rfl rfl rfl
    exact (Keyed.append_filter fun r hr => List.mem_singleton.mp hr ▸ congrArg not hforeign).symm
  · refine TenantDb.ext rfl ?_ rfl rfl rfl rfl rfl rfl
    exact Keyed.append_filter_ne fun r hr => List.mem_singleton.mp hr ▸ hforeign

theorem isolated_createRoute (h : request.organizationId = some A) (dto : CreateDocumentDto)
    (text : TenantDocuments.TextDto) {uuid : String} (new : db.documents.find uuid = none) :
    Isolated (tenant A) (TenantDocuments.create dto text uuid request) db Any := by
  refine Isolated.bind (isolated_createDocument h dto new) fun document db' hown => ?_
  exact Isolated.bind (isolated_newText hown) fun _ _ hown => isolated_withText hown

theorem isolated_setText (data : TenantDocuments.TextUpdate) (hown : db.Own A docId) :
    Isolated (tenant A) (write fun db => { db with
      texts := db.texts.map fun text => if text.docId = docId then data.set text else text }) db
      fun _ db' => db'.Own A docId := by
  have hdoc : ∀ text : DocumentText, (if text.docId = docId then data.set text else text).docId = text.docId := by
    intro text
    split <;> rfl
  refine isolated_write ?_ ?_ hown
  · refine TenantDb.ext rfl ?_ rfl rfl rfl rfl rfl rfl
    refine Eq.symm ((List.filter_map ..).trans ?_)
    refine congrArg (List.map _) (List.filter_congr fun text _ => ?_)
    exact congrArg (fun docId => !db.foreign A docId) (hdoc text)
  · refine TenantDb.ext rfl ?_ rfl rfl rfl rfl rfl rfl
    refine (List.filter_map ..).trans ?_
    have hfilter : db.texts.filter ((fun text : DocumentText => db.foreign A text.docId) ∘ fun text =>
        if text.docId = docId then data.set text else text) = db.texts.filter fun text => db.foreign A text.docId :=
      List.filter_congr fun text _ => congrArg (db.foreign A) (hdoc text)
    refine (congrArg (List.map _) hfilter).trans ((List.map_congr_left fun text ht => ?_).trans (List.map_id _))
    have hne : text.docId ≠ docId := by
      rintro rfl
      exact Bool.false_ne_true (hown.symm.trans (List.mem_filter.mp ht).2)
    rw [if_neg hne, id]

theorem isolated_updateRoute (h : request.organizationId = some A) (dto : UpdateDocumentDto)
    (data : TenantDocuments.TextUpdate) :
    Isolated (tenant A) (TenantDocuments.update docId dto data request) db Any := by
  refine Isolated.bind (isolated_updateDocument h dto) fun document db' hown => ?_
  exact Isolated.bind (isolated_setText data hown) fun _ _ hown => isolated_withText hown

end

end

end DocVault
