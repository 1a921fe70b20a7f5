import DocVault.TenantLinks

/-!
# Retention across organizations

The run of the retention job archives what is overdue, whoever's it is: it is
isolated exactly when nothing of another organization is. The list of the
evidence names the organization, unless its id is the empty string.
-/

namespace DocVault

open Isolation (Action Isolated Local action action_op isolated_op)
open Interleave (Prog)
open TenantDb RetentionService

namespace RetentionService

/-- What the job archives. -/
def isDue (now : Time) (document : Document) : Bool := isCandidate document && isOverdue now document

theorem archiveOverdue_filter (now : Time) (candidates : List Document) (result : RetentionRunResult) :
    archiveOverdue now candidates result = archiveOverdue now (candidates.filter (isOverdue now)) result := by
  induction candidates generalizing result with
  | nil => rfl
  | cons document candidates ih =>
    cases h : isOverdue now document with
    | false => rw [archiveOverdue_skip h, ih, List.filter_cons_of_neg (by simp [h])]
    | true =>
      rw [List.filter_cons_of_pos h, archiveOverdue_take h, archiveOverdue_take h]
      congr 1
      funext archived
      cases archived <;> exact ih _

end RetentionService

section
variable {A : String} {db : TenantDb} {now : Time}

/-! ## The run -/

theorem runRetention_eq (db : TenantDb) : action runDocument (runRetention now) db =
    action runDocument (archiveOverdue now (db.documents.rows.filter (isDue now)) ⟨0, 0, now⟩) db := by
  have hrun : db.runDocument .findCandidates = (db.documents.rows.filter isCandidate, db) := rfl
  have hfilter : (db.documents.rows.filter isCandidate).filter (isOverdue now) =
    db.documents.rows.filter (isDue now) := by
    rw [List.filter_filter]
    exact List.filter_congr fun document _ => Bool.and_comm ..
  unfold runRetention
  rw [action_op hrun, archiveOverdue_filter, hfilter]

theorem update_keys {κ : Type} {f : Document → κ} {id : String} {notDeleted : Bool} {data : DocumentUpdate}
    {row : Option DocumentWorkflowHistory} (hf : ∀ document, f (data.set document) = f document) :
    (db.runDocument (.updateDocument id notDeleted data row)).2.documents.rows.map f = db.documents.rows.map f := by
  cases found : db.metadata.target id notDeleted with
  | none => rw [runDocument_missing found]
  | some document =>
    rw [runDocument_update found]
    have hfind : Keyed.find (fun d : Document => d.id) db.documents.rows (data.set document).id = some document :=
      db.documents.unique.find (mem_of_find (target_find found)).1
    exact Keyed.map_put db.documents.unique hfind (hf document)

theorem isolated_archiveOverdue : ∀ (candidates : List Document) (result : RetentionRunResult) (db : TenantDb),
    (∀ document ∈ candidates, db.Own A document.id) →
    Isolated (tenant A) (action runDocument (archiveOverdue now candidates result)) db Any
  | [], _, _, _ => .pure trivial
  | document :: candidates, result, db, hown => by
    have hrest : ∀ d ∈ candidates, db.Own A d.id := fun d hd => hown d (List.mem_cons_of_mem _ hd)
    cases h : isOverdue now document with
    | false =>
      rw [archiveOverdue_skip h]
      exact isolated_archiveOverdue candidates result db hrest
    | true =>
      rw [archiveOverdue_take h]
      refine isolated_op (local_update (hown document List.mem_cons_self) (by simp [archiveRow])) ?_
      have hkept : ∀ d ∈ candidates, Own A (db.runDocument (.updateDocument document.id false
          { status := some .ARCHIVED, archivedAt := some now } (some (archiveRow document now)))).2 d.id :=
        fun d hd => (congrFun (foreign_congr (update_keys (f := whose) fun _ => rfl)) d.id).trans (hrest d hd)
      split
      · exact isolated_archiveOverdue candidates _ _ hkept
      · exact isolated_archiveOverdue candidates _ _ hkept

theorem isolated_runRetention (h : ∀ document ∈ db.documents.rows, isDue now document = true →
    document.organizationId = A) : Isolated (tenant A) (action runDocument (runRetention now)) db Any := by
  have hrows : (db.within A).documents.rows.filter (isDue now) = db.documents.rows.filter (isDue now) :=
    filter_org h
  have hin : action runDocument (runRetention now) (db.within A) =
      action runDocument (archiveOverdue now (db.documents.rows.filter (isDue now)) ⟨0, 0, now⟩) (db.within A) := by
    rw [runRetention_eq, hrows]
  refine .congr hin (runRetention_eq db) ?_
  refine isolated_archiveOverdue _ _ db fun document hd => ?_
  obtain ⟨hmem, hdue⟩ := List.mem_filter.mp hd
  exact own_of_mem hmem (h document hmem hdue)

theorem target_of_id {id : String} (h : id ∈ db.documents.rows.map (·.id)) :
    ∃ document, db.metadata.target id false = some document := by
  obtain ⟨document, hmem, rfl⟩ := List.mem_map.mp h
  have hfind : db.metadata.find document.id = some document := db.documents.unique.find hmem
  exact ⟨document, by simp [MetadataDb.target, hfind, Option.filter]⟩

/-- The job archives every document that it takes. -/
theorem archiveOverdue_archived : ∀ (candidates : List Document) (result : RetentionRunResult) (db : TenantDb),
    (∀ document ∈ candidates, isOverdue now document = true ∧ document.id ∈ db.documents.rows.map (·.id)) →
    (action runDocument (archiveOverdue now candidates result) db).1 =
      .ok { result with archived := result.archived + candidates.length }
  | [], _, _, _ => rfl
  | document :: candidates, result, db, h => by
    obtain ⟨hdue, hid⟩ := h document List.mem_cons_self
    obtain ⟨found, htarget⟩ := target_of_id hid
    have hrun : db.runDocument
      (.updateDocument document.id false { status := some .ARCHIVED, archivedAt := some now }
        (some (archiveRow document now))) = (some _, _) := runDocument_update htarget
    have hids : (db.runDocument
      (.updateDocument document.id false { status := some .ARCHIVED, archivedAt := some now }
        (some (archiveRow document now)))).2.documents.rows.map (·.id) = db.documents.rows.map (·.id) :=
      update_keys fun _ => rfl
    rw [archiveOverdue_take hdue, archiveDocument, action_op hrun]
    rw [hrun] at hids
    refine (archiveOverdue_archived candidates _ _ fun d hd => ?_).trans ?_
    · obtain ⟨hd', hid'⟩ := h d (List.mem_cons_of_mem _ hd)
      exact ⟨hd', by rw [hids]; exact hid'⟩
    · simp only [List.length_cons]
      congr 2
      omega

theorem runRetention_archived (db : TenantDb) : (action runDocument (runRetention now) db).1 =
    .ok ⟨(db.documents.rows.filter (isDue now)).length, 0, now⟩ := by
  rw [runRetention_eq, archiveOverdue_archived _ _ db fun document hd => ?_]
  · rw [Nat.zero_add]
  · obtain ⟨hmem, hdue⟩ := List.mem_filter.mp hd
    exact ⟨((Bool.and_eq_true _ _).mp hdue).2, List.mem_map_of_mem hmem⟩

/-- What is due elsewhere is counted in the whole store only. -/
theorem filter_org_lt {p : Document → Bool}
    (h : ∃ document ∈ db.documents.rows, p document = true ∧ document.organizationId ≠ A) :
    ((db.within A).documents.rows.filter p).length < (db.documents.rows.filter p).length := by
  obtain ⟨document, hmem, hp, horg⟩ := h
  have hwithin : (db.within A).documents.rows.filter p =
      (db.documents.rows.filter p).filter fun document => document.organizationId = A := List.filter_comm ..
  rw [hwithin, List.length_filter_lt_length_iff_exists]
  exact ⟨document, List.mem_filter.mpr ⟨hmem, hp⟩, by simp [horg]⟩

/-! ## The list -/

theorem listRetention_within (h : ∀ document ∈ db.documents.rows, inScope A document = true →
    document.organizationId = A) : listRetentionEvidence now A (db.within A) = listRetentionEvidence now A db := by
  have hrows : (db.within A).documents.rows.filter (inScope A) = db.documents.rows.filter (inScope A) :=
    filter_org h
  have hrecords : ((db.documents.rows.filter (inScope A)).insertionSort fun a b => retentionOrder a b).map
        (record (db.within A) now) =
      ((db.documents.rows.filter (inScope A)).insertionSort fun a b => retentionOrder a b).map (record db now) := by
    refine List.map_congr_left fun document hd => ?_
    obtain ⟨hmem, hscope⟩ := List.mem_filter.mp ((List.mem_insertionSort _).mp hd)
    unfold record
    rw [title_own (own_of_mem hmem (h document hmem hscope))]
  simp only [listRetentionEvidence, hrows, hrecords]

theorem listRetention_tracked (db : TenantDb) : (listRetentionEvidence now A db).summary.tracked =
    (db.documents.rows.filter (inScope A)).length := by
  simp only [listRetentionEvidence, summarize, List.length_insertionSort, List.length_map]

end

end DocVault
