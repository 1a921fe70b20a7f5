import DocVault.TenantRetention

/-!
# What a run of the retention job does

A run archives the documents that the list of the evidence shows as overdue,
as far as they are neither held nor archived before, and leaves nothing for a
second run. The order in which the database answers is a parameter.
-/

namespace DocVault

open Isolation (Action action action_op)
open Keyed (Table)
open TenantDb RetentionService

/-- The store whose answer to the query for candidates is in some order. -/
def TenantDb.runOrdered (order : List Document → List Document) (db : TenantDb) :
    (o : DocumentOp) → o.Res × TenantDb
  | .findCandidates => (order (db.documents.rows.filter isCandidate), db)
  | o => db.runDocument o

namespace RetentionService

def archivedBy (now : Time) (document : Document) : Document :=
  { document with status := .ARCHIVED, archivedAt := some now }

def ListedOverdue (now : Time) (db : TenantDb) (document : Document) : Prop :=
  ∃ record ∈ (listRetentionEvidence now "" db).records, record.docId = document.id ∧
  record.retentionStatus = .OVERDUE

structure PastDue (now : Time) (db : TenantDb) (document : Document) : Prop where
  overdue : ListedOverdue now db document
  free : document.legalHold = false
  kept : document.archivedAt = none

/-- What is due is archived with a row of history for each, and the rest is as before. -/
structure ArchivesDue (now : Time) (db db' : TenantDb) (result : RetentionRunResult) : Prop where
  documents : List.Forall₂ (fun document document' =>
    (PastDue now db document → document' = archivedBy now document) ∧
    (¬PastDue now db document → document' = document)) db.documents.rows db'.documents.rows
  history : ∃ archived : List Document, (archived.map (·.id)).Nodup ∧
    (∀ document, document ∈ archived ↔ document ∈ db.documents.rows ∧ PastDue now db document) ∧
    db'.history = db.history ++ archived.map (fun document => archiveRow document now) ∧
    result = ⟨archived.length, 0, now⟩
  rest : db' = db.writeDocuments db'.documents db'.history db.versions

end RetentionService

section
variable {now : Time} {db : TenantDb} {document : Document} {order : List Document → List Document}

/-! ## What is due -/

theorem mem_records {record' : TenantRetentionRecord} {organizationId : String} :
    record' ∈ (listRetentionEvidence now organizationId db).records ↔
      ∃ document ∈ db.documents.rows, inScope organizationId document = true ∧
      record db now document = record' := by
  simp [listRetentionEvidence, and_assoc]

theorem overdue_status (h : (toEvidenceRecord document now).retentionStatus = .OVERDUE) :
    document.status ≠ .ARCHIVED ∧ (toEvidenceRecord document now).retentionUntil.isNone = false := by
  simp only [toEvidenceRecord] at h ⊢
  by_cases harchived : document.status = .ARCHIVED
  · rw [if_pos harchived] at h
    nomatch h
  · refine ⟨harchived, ?_⟩
    rw [if_neg harchived] at h
    cases huntil : document.retentionUntil.orElse fun _ =>
      (document.publishedAt.map (buildRetentionEvidence document.classification)).map (·.retentionUntil) with
    | none =>
      rw [huntil] at h
      nomatch h
    | some deadline => rfl

theorem listedOverdue_iff (h : document ∈ db.documents.rows) : ListedOverdue now db document ↔
    document.status = .PUBLISHED ∧ document.publishedAt.isSome = true ∧
      (toEvidenceRecord document now).retentionStatus = .OVERDUE := by
  constructor
  · intro hlisted
    obtain ⟨row, hrow, hid, hstatus⟩ := hlisted
    obtain ⟨d, hd, hscope, rfl⟩ := mem_records.mp hrow
    obtain rfl := db.documents.unique.eq hd h hid
    have htracked : isTracked d = true := by simpa [inScope] using hscope
    simp only [isTracked, Bool.and_eq_true, List.contains_iff_mem, List.mem_cons,
      List.not_mem_nil, or_false] at htracked
    obtain ⟨hpublished | harchived, hat⟩ := htracked
    · exact ⟨hpublished, hat, hstatus⟩
    · exact absurd harchived (overdue_status hstatus).1
  · intro hdue
    obtain ⟨hpublished, hat, hstatus⟩ := hdue
    exact ⟨record db now document,
      mem_records.mpr ⟨document, h, by simp [inScope, isTracked, hpublished, hat], rfl⟩,
      rfl, hstatus⟩

theorem due_iff (h : document ∈ db.documents.rows) : PastDue now db document ↔ isDue now document = true := by
  have hoverdue : isOverdue now document = true ↔
      document.legalHold = false ∧ (toEvidenceRecord document now).retentionStatus = .OVERDUE := by
    simp only [isOverdue, Bool.and_eq_true, Bool.not_eq_true', Bool.or_eq_false_iff,
      decide_eq_false_iff_not, not_not]
    exact and_congr_right fun _ => and_iff_right_of_imp fun hstatus => (overdue_status hstatus).2
  have hcandidate : isCandidate document = true ↔
    ((document.status = .PUBLISHED ∧ document.publishedAt.isSome = true) ∧
      document.archivedAt = none) ∧ document.legalHold = false := by
    simp [isCandidate, and_assoc]
  rw [isDue, Bool.and_eq_true, hoverdue, hcandidate]
  constructor
  · intro hdue
    obtain ⟨hpublished, hat, hstatus⟩ := (listedOverdue_iff h).mp hdue.overdue
    exact ⟨⟨⟨⟨hpublished, hat⟩, hdue.kept⟩, hdue.free⟩, hdue.free, hstatus⟩
  · intro hdue
    obtain ⟨⟨⟨⟨hpublished, hat⟩, hkept⟩, hfree⟩, -, hstatus⟩ := hdue
    exact ⟨(listedOverdue_iff h).mpr ⟨hpublished, hat, hstatus⟩, hfree, hkept⟩

/-! ## The run -/

theorem put_archived (h : document ∈ db.documents.rows) : (db.documents.put (archivedBy now document)).rows =
    db.documents.rows.map fun d => if d.id = document.id then archivedBy now d else d := by
  refine List.map_congr_left fun d hd => ?_
  by_cases hid : d.id = document.id
  · obtain rfl := db.documents.unique.eq hd h hid
    exact (if_pos rfl).trans (if_pos rfl).symm
  · exact (if_neg hid).trans (if_neg hid).symm

theorem put_archived_map {ids : List String} (h : document ∈ db.documents.rows) (hnew : document.id ∉ ids) :
    (db.documents.put (archivedBy now document)).rows.map (fun d => if d.id ∈ ids then archivedBy now d else d) =
      db.documents.rows.map fun d => if d.id ∈ document.id :: ids then archivedBy now d else d := by
  rw [put_archived h, List.map_map]
  refine List.map_congr_left fun d _ => ?_
  rw [Function.comp_apply]
  by_cases hid : d.id = document.id
  · have hnot : (archivedBy now d).id ∉ ids := by
      intro hin
      rw [show (archivedBy now d).id = document.id from hid] at hin
      exact hnew hin
    rw [if_pos hid, if_neg hnot, if_pos (List.mem_cons.mpr (.inl hid))]
  · rw [if_neg hid]
    simp only [List.mem_cons, hid, false_or]

/-- The loop archives every document that it is given. -/
theorem archiveOverdue_run : ∀ (candidates : List Document) (result : RetentionRunResult) (db : TenantDb),
    (∀ document ∈ candidates, isOverdue now document = true ∧ document ∈ db.documents.rows) →
    (candidates.map (·.id)).Nodup →
    ∃ documents : Table fun document : Document => document.id,
      documents.rows = db.documents.rows.map
        (fun d => if d.id ∈ candidates.map (·.id) then archivedBy now d else d) ∧
      action (runOrdered order) (archiveOverdue now candidates result) db =
        (.ok { result with archived := result.archived + candidates.length },
          db.writeDocuments documents
            (db.history ++ candidates.map fun document => archiveRow document now) db.versions)
  | [], result, db, _, _ => by
    refine ⟨db.documents, by simp, ?_⟩
    rw [List.map_nil, List.append_nil]
    rfl
  | document :: candidates, result, db, h, hn => by
    obtain ⟨hdue, hmem⟩ := h document List.mem_cons_self
    have hnew : document.id ∉ candidates.map (·.id) := (List.nodup_cons.mp hn).1
    have htarget : db.metadata.target document.id false = some document := by
      have hfind : db.metadata.find document.id = some document := db.documents.unique.find hmem
      simp [MetadataDb.target, hfind, Option.filter]
    have hrun : db.runOrdered order
      (.updateDocument document.id false { status := some .ARCHIVED, archivedAt := some now }
        (some (archiveRow document now))) = (some (archivedBy now document), _) := runDocument_update htarget
    have hrest : ∀ d ∈ candidates, isOverdue now d = true ∧
      d ∈ (db.documents.put (archivedBy now document)).rows := by
      intro d hd
      obtain ⟨hd', hmem'⟩ := h d (List.mem_cons_of_mem _ hd)
      have hne : d.id ≠ document.id := by
        intro hid
        exact hnew (List.mem_map.mpr ⟨d, hd, hid⟩)
      refine ⟨hd', ?_⟩
      rw [put_archived hmem]
      exact List.mem_map.mpr ⟨d, hmem', if_neg hne⟩
    obtain ⟨documents, hrows, hrun'⟩ :=
      archiveOverdue_run candidates { result with archived := result.archived + 1 }
      (db.writeDocuments (db.documents.put (archivedBy now document))
        (db.history ++ [archiveRow document now]) db.versions)
      hrest (List.nodup_cons.mp hn).2
    refine ⟨documents, ?_, ?_⟩
    · exact hrows.trans (put_archived_map hmem hnew)
    · rw [archiveOverdue_take hdue, archiveDocument, action_op hrun]
      refine hrun'.trans ?_
      simp only [writeDocuments, List.length_cons, List.map_cons, List.append_assoc, List.singleton_append]
      congr 3
      omega

theorem runRetention_run (horder : ∀ documents, (order documents).Perm documents) (now : Time) (db : TenantDb) :
    ∃ (archived : List Document) (documents : Table fun document : Document => document.id),
      archived.Perm (db.documents.rows.filter (isDue now)) ∧
      documents.rows = db.documents.rows.map (fun d => if isDue now d then archivedBy now d else d) ∧
      action (runOrdered order) (runRetention now) db = (.ok ⟨archived.length, 0, now⟩,
        db.writeDocuments documents (db.history ++ archived.map fun document => archiveRow document now)
          db.versions) := by
  have hperm : ((order (db.documents.rows.filter isCandidate)).filter (isOverdue now)).Perm
      (db.documents.rows.filter (isDue now)) := by
    refine ((horder _).filter _).trans (.of_eq ?_)
    rw [List.filter_filter]
    exact List.filter_congr fun document _ => Bool.and_comm ..
  have hmem : ∀ document ∈ (order (db.documents.rows.filter isCandidate)).filter (isOverdue now),
      isOverdue now document = true ∧ document ∈ db.documents.rows := fun document hd =>
    ⟨(List.mem_filter.mp hd).2, (List.mem_filter.mp (hperm.subset hd)).1⟩
  have hrun : db.runOrdered order .findCandidates = (order (db.documents.rows.filter isCandidate), db) := rfl
  obtain ⟨documents, hrows, hloop⟩ := @archiveOverdue_run now order _ ⟨0, 0, now⟩ db hmem
    ((hperm.map _).nodup_iff.mpr (db.documents.unique.filter _))
  refine ⟨_, documents, hperm, ?_, ?_⟩
  · rw [hrows]
    refine List.map_congr_left fun d hd => ?_
    have hin : d.id ∈ ((order (db.documents.rows.filter isCandidate)).filter (isOverdue now)).map (·.id) ↔
        isDue now d = true := by
      rw [(hperm.map _).mem_iff, List.mem_map]
      constructor
      · intro h
        obtain ⟨document, hdocument, hid⟩ := h
        obtain ⟨hmem, hdue⟩ := List.mem_filter.mp hdocument
        rwa [← db.documents.unique.eq hmem hd hid]
      · intro hdue
        exact ⟨d, List.mem_filter.mpr ⟨hd, hdue⟩, rfl⟩
    simp only [hin]
  · unfold runRetention
    rw [action_op hrun, archiveOverdue_filter, hloop, Nat.zero_add]

theorem isDue_archived {d : Document} : isDue now (if isDue now d then archivedBy now d else d) = false := by
  cases h : isDue now d with
  | false => rw [if_neg Bool.false_ne_true, h]
  | true => rfl

theorem archivesDue {archived : List Document} {documents : Table fun document : Document => document.id}
    (hperm : archived.Perm (db.documents.rows.filter (isDue now)))
    (hrows : documents.rows = db.documents.rows.map fun d => if isDue now d then archivedBy now d else d) :
    ArchivesDue now db
      (db.writeDocuments documents (db.history ++ archived.map fun document => archiveRow document now) db.versions)
      ⟨archived.length, 0, now⟩ where
  documents := by
    change List.Forall₂ _ db.documents.rows documents.rows
    rw [hrows, List.forall₂_map_right_iff, List.forall₂_same]
    intro document hd
    rw [due_iff hd]
    exact ⟨fun hdue => if_pos hdue, fun hnot => if_neg hnot⟩
  history := by
    refine ⟨archived, (hperm.map _).nodup_iff.mpr (db.documents.unique.filter _), fun document => ?_, rfl, rfl⟩
    rw [hperm.mem_iff, List.mem_filter]
    exact and_congr_right fun hd => (due_iff hd).symm
  rest := rfl

/-- A second run finds nothing due. -/
theorem runRetention_idle (horder : ∀ documents, (order documents).Perm documents)
    (h : db.documents.rows.filter (isDue now) = []) :
    action (runOrdered order) (runRetention now) db = (.ok ⟨0, 0, now⟩, db) := by
  obtain ⟨archived, documents, hperm, hrows, hrun⟩ := runRetention_run horder now db
  rw [h] at hperm
  obtain rfl := hperm.eq_nil
  have hsame : documents = db.documents := by
    refine Table.ext (hrows.trans ((List.map_congr_left fun d hd => ?_).trans (List.map_id _)))
    have hnot : isDue now d ≠ true := List.filter_eq_nil_iff.mp h d hd
    rw [if_neg hnot]
    rfl
  rw [hrun, hsame, List.map_nil, List.append_nil]
  rfl

/-! ## The summary -/

theorem tracked_status (h : isTracked document = true) :
    (toEvidenceRecord document now).retentionStatus ≠ .UNSET := by
  have hat : document.publishedAt.isSome = true := ((Bool.and_eq_true _ _).mp h).2
  obtain ⟨publishedAt, hat⟩ := Option.isSome_iff_exists.mp hat
  simp only [toEvidenceRecord, hat]
  cases document.retentionUntil <;> simp <;> split_ifs <;> simp

theorem summarize_tracked {records : List TenantRetentionRecord}
    (h : ∀ row ∈ records, row.retentionStatus ≠ .UNSET) :
    (summarize records).tracked = (summarize records).active + (summarize records).dueSoon +
      (summarize records).overdue + (summarize records).archived := by
  induction records with
  | nil => rfl
  | cons row records ih =>
    have ih := ih fun r hr => h r (List.mem_cons_of_mem _ hr)
    have hne := h row List.mem_cons_self
    simp only [summarize, List.length_cons, List.filter_cons] at ih ⊢
    cases hs : row.retentionStatus with
    | UNSET => exact absurd hs hne
    | ACTIVE => simp; omega
    | DUE_SOON => simp; omega
    | OVERDUE => simp; omega
    | ARCHIVED => simp; omega

end

theorem retention_run {order order' : List Document → List Document}
    (horder : ∀ documents, (order documents).Perm documents)
    (horder' : ∀ documents, (order' documents).Perm documents) (now : Time) (db : TenantDb) :
    (∃ result db', action (runOrdered order) (runRetention now) db = (.ok result, db') ∧
      ArchivesDue now db db' result ∧ action (runOrdered order') (runRetention now) db' = (.ok ⟨0, 0, now⟩, db')) ∧
    ∀ organizationId, (listRetentionEvidence now organizationId db).summary.tracked =
      (listRetentionEvidence now organizationId db).summary.active +
      (listRetentionEvidence now organizationId db).summary.dueSoon +
      (listRetentionEvidence now organizationId db).summary.overdue +
      (listRetentionEvidence now organizationId db).summary.archived := by
  refine ⟨?_, fun organizationId => ?_⟩
  · obtain ⟨archived, documents, hperm, hrows, hrun⟩ := runRetention_run horder now db
    refine ⟨_, _, hrun, archivesDue hperm hrows, runRetention_idle horder' ?_⟩
    change documents.rows.filter (isDue now) = []
    rw [List.filter_eq_nil_iff, hrows]
    intro document hd
    obtain ⟨d, -, rfl⟩ := List.mem_map.mp hd
    rw [isDue_archived]
    exact Bool.false_ne_true
  · refine summarize_tracked fun row hrow => ?_
    obtain ⟨document, -, hscope, rfl⟩ := mem_records.mp hrow
    exact tracked_status ((Bool.and_eq_true _ _).mp hscope).2

def publishedDb : TenantDb where
  documents := ⟨[
    { id := "d-1", organizationId := "o-1", ownerId := "u-1", status := .PUBLISHED, publishedAt := some 0 },
    { id := "d-2", organizationId := "o-1", ownerId := "u-1", status := .PUBLISHED, publishedAt := some 0,
      legalHold := true }], by decide⟩
  texts := []
  versions := []
  history := []
  aclEntries := .empty _
  comments := .empty _
  shareLinks := .empty _
  savedViews := .empty _
  tokenHashes := List.nodup_nil

theorem retention_run_sample :
    (∃ result db', action (runOrdered List.reverse) (runRetention (400 * DAY_MS)) publishedDb = (.ok result, db') ∧
      ArchivesDue (400 * DAY_MS) publishedDb db' result ∧
      action (runOrdered id) (runRetention (400 * DAY_MS)) db' = (.ok ⟨0, 0, 400 * DAY_MS⟩, db')) ∧
    ∀ organizationId, (listRetentionEvidence (400 * DAY_MS) organizationId publishedDb).summary.tracked =
      (listRetentionEvidence (400 * DAY_MS) organizationId publishedDb).summary.active +
      (listRetentionEvidence (400 * DAY_MS) organizationId publishedDb).summary.dueSoon +
      (listRetentionEvidence (400 * DAY_MS) organizationId publishedDb).summary.overdue +
      (listRetentionEvidence (400 * DAY_MS) organizationId publishedDb).summary.archived :=
  retention_run List.reverse_perm (fun _ => .refl _) (400 * DAY_MS) publishedDb

end DocVault
