import DocVault.TenantRequests

/-!
# The recovery window of the trash

`listTrash`, `restoreFromTrash` and `purgeExpiredTrash` each compute the end of
the thirty days in a way of its own. Restoring and purging divide the instants
between them; the list disagrees with them at the last instant, and about
documents that have no time of deletion.
-/

namespace DocVault

open Isolation Interleave TenantM

/-- The answer of `listTrash` has the document as recoverable. -/
def ListedRecoverable (db : TenantDb) (docId : String) (request : Request) : Prop :=
  ∃ entries db', TenantDocuments.listTrash request db = (.ok entries, db') ∧
    ∃ entry ∈ entries, entry.docId = docId ∧ entry.recoverable = true

def Restores (db : TenantDb) (docId : String) (request : Request) : Prop :=
  ∃ document db', documents (DocumentsService.restoreFromTrash docId request) db = (.ok document, db')

/-- `purgeExpiredTrash` selects the document at the instant. -/
def SelectedForPurge (db : TenantDb) (docId : String) (now : Time) : Prop :=
  ∃ document ∈ (db.runDocument (.findExpired (now - DocumentsService.trashRecoveryDays * DAY_MS))).1,
    document.id = docId

/-- The document is in the trash, and the actor of the request may manage it. -/
structure ManagesTrash (db : TenantDb) (document : Document) (request : Request) : Prop where
  stored : document ∈ db.documents.rows
  deleted : document.status = .DELETED
  organization : request.organizationId = some document.organizationId
  actor : "admin" ∈ request.user.roles ∨ document.ownerId = buildActorId request.user

structure WindowsAgree (db : TenantDb) (document : Document) (request : Request) : Prop where
  listed : ListedRecoverable db document.id request ↔ Restores db document.id request
  exclusive : Restores db document.id request ↔ ¬SelectedForPurge db document.id request.now

section
variable {db : TenantDb} {document : Document} {request : Request}

theorem ceil_pos {a d : Int} (hd : 0 < d) : 0 < -(-a / d) ↔ 0 < a := by
  have hdiv : -a / d < 0 ↔ -a < 0 := by
    rw [Int.ediv_lt_iff_lt_mul hd, Int.zero_mul]
  omega

theorem recoverable_iff {title : String} {now : Time} :
    (TenantDocuments.trashEntry title now document).recoverable = true ↔
      ∃ deletedAt, document.deletedAt = some deletedAt ∧
        now < deletedAt + DocumentsService.trashRecoveryDays * DAY_MS := by
  cases hd : document.deletedAt with
  | none => simp [TenantDocuments.trashEntry, hd]
  | some deletedAt =>
    have hceil := ceil_pos (a := deletedAt + DocumentsService.trashRecoveryDays * DAY_MS - now)
      (d := DAY_MS) (by decide)
    rw [Int.neg_sub] at hceil
    simp only [TenantDocuments.trashEntry, hd, Option.map_some, Option.any_some,
      decide_eq_true_eq, Option.some.injEq, exists_eq_left']
    exact hceil.trans Int.sub_pos

namespace ManagesTrash

theorem manages (h : ManagesTrash db document request) :
    request.context.roles.contains "admin" = true ∨ document.ownerId = request.context.actorId := by
  simpa [Request.context] using h.actor

theorem listed_iff (h : ManagesTrash db document request) : ListedRecoverable db document.id request ↔
    ∃ deletedAt, document.deletedAt = some deletedAt ∧
      request.now < deletedAt + DocumentsService.trashRecoveryDays * DAY_MS := by
  have hrun : TenantDocuments.listTrash request db = (.ok (((db.documents.rows.filter
      (TenantDocuments.inTrash document.organizationId request.context)).insertionSort fun a b =>
        TenantDocuments.laterDeleted a b).map fun document =>
          TenantDocuments.trashEntry (db.title document.id) request.now document), db) := by
    unfold TenantDocuments.listTrash
    exact Action.bind_ok
      (show guard (requireOrgId request) db = (.ok document.organizationId,
        db) by rw [requireOrgId_ok.mpr h.organization]; rfl)
  have hin : TenantDocuments.inTrash document.organizationId request.context document = true := by
    simpa [TenantDocuments.inTrash, h.deleted] using h.manages
  constructor
  · intro hlisted
    obtain ⟨entries, db', hentries, entry, he, hid, hr⟩ := hlisted
    rw [hrun] at hentries
    obtain ⟨hentries, -⟩ := Prod.mk.inj hentries
    obtain rfl := Except.ok.inj hentries
    obtain ⟨d, hd, rfl⟩ := List.mem_map.mp he
    have hmem := (List.mem_filter.mp ((List.perm_insertionSort _ _).subset hd)).1
    obtain rfl := db.documents.unique.eq hmem h.stored hid
    exact recoverable_iff.mp hr
  · intro hr
    refine ⟨_, db, hrun, _, List.mem_map.mpr ⟨document, ?_, rfl⟩, rfl, recoverable_iff.mpr hr⟩
    exact (List.perm_insertionSort _ _).symm.subset (List.mem_filter.mpr ⟨h.stored, hin⟩)

theorem restoreGuard_eq (h : ManagesTrash db document request) : DocumentsService.restoreGuard request document =
    if document.deletedAt.any fun deletedAt =>
      request.now > deletedAt + DocumentsService.trashRecoveryDays * DAY_MS then
      .error (.badRequest "The recovery window for this document has elapsed")
    else .ok () := by
  have hactor : (!request.context.roles.contains "admin" &&
    document.ownerId ≠ request.context.actorId) = false := by
    rcases h.manages with hadmin | howner
    · rw [hadmin]
      rfl
    · simp [howner]
  unfold DocumentsService.restoreGuard
  rw [if_neg (not_not.mpr h.deleted), hactor, if_neg Bool.false_ne_true]

theorem found (h : ManagesTrash db document request) :
    action TenantDb.runDocument (findInOrg document.id request) db = (.ok document, db) := by
  have hfind : db.metadata.find document.id = some document := db.documents.unique.find h.stored
  have hrun : db.runDocument (.findDocument document.id document.organizationId) = (some document, db) := by
    simp only [TenantDb.runDocument, documentRun, hfind, Option.filter_some, decide_true, if_true]
    rfl
  unfold findInOrg
  rw [action_guard_ok (requireOrgId_ok.mpr h.organization)]
  exact action_op hrun

theorem restore_run (h : ManagesTrash db document request) {e : Except HttpError Unit}
    (hguard : DocumentsService.restoreGuard request document = e) :
    Restores db document.id request ↔ e = .ok () := by
  have hfind : db.metadata.find document.id = some document := db.documents.unique.find h.stored
  have hrun : documents (DocumentsService.restoreFromTrash document.id request) db = action TenantDb.runDocument
      (Prog.ofExcept e >>= fun _ => do
        let result ← updateDocument document.id false { status := some .DRAFT, deletedAt := some none } none
        Prog.ofExcept (updated result)) db := by
    rw [← hguard]
    exact (congrFun (action_bind _ _) db).trans (Action.bind_ok h.found)
  constructor
  · intro hrestores
    obtain ⟨restored, db', hok⟩ := hrestores
    rw [hrun] at hok
    cases e with
    | error e =>
      rw [action_guard_error rfl] at hok
      simp at hok
    | ok u => rfl
  · intro he
    have hwrite : ∃ restored db', db.runDocument (.updateDocument document.id false
        { status := some .DRAFT, deletedAt := some none } none) = (some restored, db') := by
      simp only [TenantDb.runDocument, documentRun, MetadataDb.target, hfind, Option.filter_some, Bool.not_false,
        Bool.true_or, if_true]
      exact ⟨_, _, rfl⟩
    obtain ⟨restored, db', hwrite⟩ := hwrite
    refine ⟨restored, db', ?_⟩
    rw [hrun, action_guard_ok he, action_op hwrite]
    rfl

theorem restores_iff (h : ManagesTrash db document request) : Restores db document.id request ↔
    ∀ deletedAt, document.deletedAt = some deletedAt →
      request.now ≤ deletedAt + DocumentsService.trashRecoveryDays * DAY_MS := by
  rw [h.restore_run h.restoreGuard_eq]
  cases document.deletedAt with
  | none => simp
  | some deletedAt => simp

theorem selected_iff (h : ManagesTrash db document request) : SelectedForPurge db document.id request.now ↔
    ∃ deletedAt, document.deletedAt = some deletedAt ∧
      deletedAt + DocumentsService.trashRecoveryDays * DAY_MS < request.now := by
  have hexpired : isExpired (request.now - DocumentsService.trashRecoveryDays * DAY_MS) document = true ↔
      ∃ deletedAt, document.deletedAt = some deletedAt ∧
        deletedAt + DocumentsService.trashRecoveryDays * DAY_MS < request.now := by
    simp [isExpired, h.deleted, Option.any_eq_true, Int.lt_sub_right_iff_add_lt]
  rw [← hexpired]
  constructor
  · intro hsel
    obtain ⟨d, hd, hid⟩ := hsel
    obtain ⟨hmem, hexp⟩ := List.mem_filter.mp hd
    obtain rfl := db.documents.unique.eq hmem h.stored hid
    exact hexp
  · intro hexp
    exact ⟨document, List.mem_filter.mpr ⟨h.stored, hexp⟩, rfl⟩

end ManagesTrash

end

/-- The three agree on a document that has a time of deletion, at every instant but the last of its window. -/
theorem windows_agree_iff {db : TenantDb} {document : Document} {request : Request}
    (h : ManagesTrash db document request) : WindowsAgree db document request ↔ ∃ deletedAt,
      document.deletedAt = some deletedAt ∧
      request.now ≠ deletedAt + DocumentsService.trashRecoveryDays * DAY_MS := by
  constructor
  · intro hagree
    have hlisted := hagree.listed
    rw [h.listed_iff, h.restores_iff] at hlisted
    cases hd : document.deletedAt with
    | none =>
      -- Without a time of deletion the document can be restored for ever, and is listed as lost.
      simp [hd] at hlisted
    | some deletedAt =>
      simp only [hd, Option.some.injEq, exists_eq_left', forall_eq'] at hlisted
      refine ⟨deletedAt, rfl, fun hlast => ?_⟩
      rw [hlast] at hlisted
      exact lt_irrefl _ (hlisted.mpr le_rfl)
  · intro hinside
    obtain ⟨deletedAt, hd, hnow⟩ := hinside
    refine ⟨?_, ?_⟩
    · rw [h.listed_iff, h.restores_iff, hd]
      simp only [Option.some.injEq, exists_eq_left', forall_eq']
      exact ⟨le_of_lt, fun hle => lt_of_le_of_ne hle hnow⟩
    · rw [h.restores_iff, h.selected_iff, hd]
      simp only [Option.some.injEq, exists_eq_left', forall_eq', not_lt]

def trashed : Document :=
  { id := "d-1", organizationId := "o-1", ownerId := "u-1", status := .DELETED, deletedAt := some 0 }

def trashDb : TenantDb where
  documents := ⟨[trashed], by decide⟩
  texts := []
  versions := []
  history := []
  aclEntries := .empty _
  comments := .empty _
  shareLinks := .empty _
  savedViews := .empty _
  tokenHashes := List.nodup_nil

def trashRequest (now : Time) : Request where
  user := { sub := some "u-1", roles := ["editor"] }
  organizationId := some "o-1"
  now := now

theorem trashed_managed (now : Time) : ManagesTrash trashDb trashed (trashRequest now) where
  stored := List.mem_singleton_self trashed
  deleted := rfl
  organization := rfl
  actor := .inr rfl

theorem windows_agree_first_day : WindowsAgree trashDb trashed (trashRequest DAY_MS) :=
  (windows_agree_iff (trashed_managed DAY_MS)).mpr ⟨0, rfl, by decide⟩

/-- At the last instant the document can still be restored, and is no longer listed as recoverable. -/
theorem windows_disagree : ¬∀ (db : TenantDb) (document : Document) (request : Request),
    ManagesTrash db document request → WindowsAgree db document request := by
  intro hall
  have hmanaged := trashed_managed (30 * DAY_MS)
  have hlisted := (hall _ _ _ hmanaged).listed
  rw [hmanaged.listed_iff, hmanaged.restores_iff] at hlisted
  obtain ⟨deletedAt, hd, hlt⟩ := hlisted.mpr fun deletedAt hd => by
    obtain rfl := Option.some.inj hd
    decide
  obtain rfl := Option.some.inj hd
  exact absurd hlt (by decide)

end DocVault
