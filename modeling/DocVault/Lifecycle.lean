import DocVault.TaskAlone

/-!
# Timestamps over the life of a document

The four timestamps of a document are written by the status route, the
retention job and the trash, each of its own. Run after one another these keep
them in agreement with the status.
-/

namespace DocVault

open Interleave

/-- The timestamps of a document in each status; `ordered` is what the order of the last two rests on. -/
def TimestampsAgree (ordered : Prop) (document : Document) : Prop :=
  match document.status with
  | .DRAFT | .PENDING => document.publishedAt = none ∧ document.archivedAt = none ∧ document.deletedAt = none
  | .PUBLISHED => document.publishedAt.isSome ∧ document.retentionClass.isSome ∧ document.retentionUntil.isSome ∧
      document.archivedAt = none ∧ document.deletedAt = none
  | .ARCHIVED => (∃ published archived, document.publishedAt = some published ∧
      document.archivedAt = some archived ∧ (ordered → published ≤ archived)) ∧ document.deletedAt = none
  | .DELETED => document.deletedAt.isSome ∧ document.publishedAt = none ∧ document.archivedAt = none

def NonDecreasing (times : List Time) : Prop := times.Pairwise (· ≤ ·)

structure Lived (times : List Time) (document : Document) : Prop where
  agree : TimestampsAgree (NonDecreasing times) document
  past : ∀ published, document.publishedAt = some published → published ∈ times

theorem TimestampsAgree.mono {ordered ordered' : Prop} (h : ordered' → ordered) {document : Document}
    (ha : TimestampsAgree ordered document) : TimestampsAgree ordered' document := by
  unfold TimestampsAgree at *
  cases hs : document.status <;> rw [hs] at ha
  case ARCHIVED =>
    obtain ⟨⟨published, archived, hp, har, hle⟩, hd⟩ := ha
    exact ⟨⟨published, archived, hp, har, fun ho => hle (h ho)⟩, hd⟩
  all_goals exact ha

theorem Lived.later {times : List Time} {document : Document} (hl : Lived times document) (now : Time) :
    Lived (times ++ [now]) document where
  agree := hl.agree.mono fun h => (List.pairwise_append.mp h).1
  past published hp := List.mem_append_left _ (hl.past published hp)

theorem Lived.le {times : List Time} {now : Time} {document : Document} (hl : Lived (times ++ [now]) document)
    {published : Time} (hp : document.publishedAt = some published) (ho : NonDecreasing (times ++ [now])) :
    published ≤ now := by
  rcases List.mem_append.mp (hl.past published hp) with hm | hm
  · exact (List.pairwise_append.mp ho).2.2 published hm now (List.mem_singleton_self now)
  · exact (List.mem_singleton.mp hm).le

theorem Lived.same {times : List Time} {document document' : Document} (hl : Lived times document)
    (hs : document'.status = document.status) (hp : document'.publishedAt = document.publishedAt)
    (ha : document'.archivedAt = document.archivedAt) (hd : document'.deletedAt = document.deletedAt)
    (hc : document'.retentionClass = document.retentionClass)
    (hu : document'.retentionUntil = document.retentionUntil) : Lived times document' where
  agree := by
    have h := hl.agree
    unfold TimestampsAgree at *
    rw [hs, hp, ha, hd, hc, hu]
    exact h
  past := by rw [hp]; exact hl.past

theorem restoreGuard_deleted {request : Request} {document : Document} {u : Unit}
    (h : DocumentsService.restoreGuard request document = .ok u) : document.status = .DELETED := by
  unfold DocumentsService.restoreGuard at h
  by_contra hs
  rw [if_pos hs] at h
  cases h

section
variable {ι : Type} {p : ι} {db : MetadataDb ι} {t : DocumentTask} {times : List Time}

def DocumentOp.sets : DocumentOp → Option (String × DocumentUpdate)
  | .updateDocument id _ data _ => some (id, data)
  | .createVersion row data => some (row.docId, data)
  | _ => none

/-! ## One write -/

theorem lived_moved {dto : UpdateStatusDto} {document : Document}
    (edge : TRANSITION_MAP dto.action = some (document.status, dto.status)) {now : Time}
    (hl : Lived (times ++ [now]) document) :
    Lived (times ++ [now]) ((StatusService.updateData dto.action dto.status document now).set document) := by
  have ha := hl.agree
  cases hact : dto.action <;> rw [hact] at edge <;> cases hs : document.status <;> rw [hs] at edge <;>
    simp only [TRANSITION_MAP, Option.some.injEq, Prod.mk.injEq, reduceCtorEq, false_and, true_and] at edge
  all_goals
    rw [← edge]
    unfold TimestampsAgree at ha
    rw [hs] at ha
  case SUBMIT.DRAFT => exact ⟨ha, hl.past⟩
  case REJECT.PENDING => exact ⟨ha, hl.past⟩
  case DELETE.DRAFT => exact ⟨⟨rfl, ha.1, ha.2.1⟩, hl.past⟩
  case APPROVE.PENDING =>
    refine ⟨⟨rfl, rfl, rfl, ha.2.1, ha.2.2⟩, fun published hp => ?_⟩
    obtain rfl := Option.some.inj hp
    exact List.mem_append_right _ (List.mem_singleton_self _)
  case ARCHIVE.PUBLISHED =>
    obtain ⟨published, hp⟩ := Option.isSome_iff_exists.mp ha.1
    exact ⟨⟨⟨published, now, hp, rfl, hl.le hp⟩, ha.2.2.2.2⟩, hl.past⟩

theorem lived_retired {document : Document} (candidate : isCandidate document = true) {now : Time}
    (hl : Lived (times ++ [now]) document) :
    Lived (times ++ [now]) (DocumentUpdate.set { status := some .ARCHIVED, archivedAt := some now } document) := by
  have ha := hl.agree
  simp only [isCandidate, Bool.and_eq_true, decide_eq_true_eq] at candidate
  obtain ⟨⟨⟨hs, hpub⟩, _⟩, _⟩ := candidate
  obtain ⟨published, hp⟩ := Option.isSome_iff_exists.mp hpub
  unfold TimestampsAgree at ha
  rw [hs] at ha
  exact ⟨⟨⟨published, now, hp, rfl, hl.le hp⟩, ha.2.2.2.2⟩, hl.past⟩

theorem lived_restored {document : Document} (deleted : document.status = .DELETED) (hl : Lived times document) :
    Lived times (DocumentUpdate.set { status := some .DRAFT, deletedAt := some none } document) := by
  have ha := hl.agree
  unfold TimestampsAgree at ha
  rw [deleted] at ha
  exact ⟨⟨ha.2.1, ha.2.2, rfl⟩, hl.past⟩

theorem lived_set (hm : ∀ docId now, t ≠ .markDeleted docId now) {o : DocumentOp}
    {docId : String} {data : DocumentUpdate}
    {document : Document} (ha : Allowed db t o) (hs : o.sets = some (docId, data))
    (hf : db.find docId = some document)
    (hl : Lived (times ++ [t.now]) document) : Lived (times ++ [t.now]) (data.set document) := by
  cases ha with
  | created => cases hs
  | moved _ found edge =>
    cases hs
    obtain rfl := Option.some.inj (found.symm.trans hf)
    exact lived_moved edge hl
  | restored found _ guard =>
    cases hs
    obtain rfl := Option.some.inj (found.symm.trans hf)
    exact lived_restored (restoreGuard_deleted guard) hl
  | retired found candidate =>
    cases hs
    obtain rfl := Option.some.inj (found.symm.trans hf)
    exact lived_retired candidate hl
  | chained | updated | held | registered | versionRestored => cases hs; exact hl.same rfl rfl rfl rfl rfl rfl
  | purged => cases hs
  | marked => exact absurd rfl (hm _ _)

theorem mem_set {documents : List Document} {id : String} {data : DocumentUpdate} {document d : Document}
    (h : d ∈ documents.map fun d => if d.id = id then data.set document else d) :
    d = data.set document ∨ d ∈ documents := by
  obtain ⟨d', hm, rfl⟩ := List.mem_map.mp h
  split
  · exact .inl rfl
  · exact .inr hm

theorem lived_does (hm : ∀ docId now, t ≠ .markDeleted docId now) {db' : MetadataDb ι} (h : Does p t db db')
    (hl : ∀ d ∈ db.documents, Lived (times ++ [t.now]) d) : ∀ d ∈ db'.documents, Lived (times ++ [t.now]) d := by
  obtain ⟨o, ha, hw⟩ := h
  intro d hd
  cases hw with
  | create new =>
    rcases List.mem_append.mp hd with hd | hd
    · exact hl d hd
    · obtain rfl := List.mem_singleton.mp hd
      cases ha
      exact ⟨⟨rfl, rfl, rfl⟩, nofun⟩
  | update found =>
    have hf := target_find found
    rcases mem_set hd with rfl | hd
    · exact lived_set hm ha rfl hf (hl _ (List.mem_of_find?_eq_some hf))
    · exact hl d hd
  | delete found => exact hl d (List.mem_filter.mp hd).1
  | createVersion found =>
    rcases mem_set hd with rfl | hd
    · exact lived_set hm ha rfl found (hl _ (List.mem_of_find?_eq_some found))
    · exact hl d hd

/-! ## Runs -/

theorem Does.unique {db' : MetadataDb ι} (h : Does p t db db') (hU : db.Unique) : db'.Unique := by
  obtain ⟨o, _, hw⟩ := h
  exact hU.writes hw

theorem lived_did (hm : ∀ docId now, t ≠ .markDeleted docId now) {db' : MetadataDb ι} (h : Did p t db db')
    (hl : ∀ d ∈ db.documents, Lived (times ++ [t.now]) d) : ∀ d ∈ db'.documents, Lived (times ++ [t.now]) d := by
  induction h with
  | refl => exact hl
  | tail _ hstep ih => exact lived_does hm hstep ih

theorem Did.unique {db' : MetadataDb ι} (h : Did p t db db') (hU : db.Unique) : db'.Unique := by
  induction h with
  | refl => exact hU
  | tail _ hstep ih => exact hstep.unique ih

end

abbrev DocumentRuns (cond : MetadataDb DocumentTask → DocumentTask → Prop) :=
  Serial DocumentExec DocumentTask.prog cond (emptyMetadata DocumentTask)

theorem DocumentRuns.unique {cond : MetadataDb DocumentTask → DocumentTask → Prop}
    {done : List (DocumentTask × Except HttpError DocumentOutcome)} {db : MetadataDb DocumentTask}
    (hr : DocumentRuns cond done db) : db.Unique := by
  refine Serial.invariant (I := fun _ db => db.Unique) hr List.nodup_nil ?_
  intro done db t out db' hU _ hx
  have hd : Did t t db db' := task_did hU hx
  exact hd.unique hU

/-- After any requests and jobs one after another, the timestamps of every
document agree with its status. No request calls `markDeleted`. -/
theorem timestamps_agree {done : List (DocumentTask × Except HttpError DocumentOutcome)}
    {db : MetadataDb DocumentTask}
    (hr : DocumentRuns (fun _ t => ∀ docId now, t ≠ .markDeleted docId now) done db) :
    ∀ document ∈ db.documents, TimestampsAgree (NonDecreasing (done.map (·.1.now))) document := by
  have hi : db.Unique ∧ ∀ document ∈ db.documents, Lived (done.map (·.1.now)) document := by
    refine Serial.invariant (I := fun done db => db.Unique ∧
      ∀ document ∈ db.documents, Lived (done.map (·.1.now)) document)
      hr ⟨List.nodup_nil, fun _ h => absurd h List.not_mem_nil⟩ ?_
    rintro done db t out db' ⟨hU, hl⟩ hm hx
    have hd : Did t t db db' := task_did hU hx
    refine ⟨hd.unique hU, ?_⟩
    rw [List.map_append]
    exact lived_did hm hd fun d h => (hl d h).later t.now
  exact fun document h => (hi.2 document h).agree

def requestOf (actor role : String) (now : Time) : Request := ⟨⟨some actor, none, [role]⟩, some "o-1", now⟩

-- A document is published and archived.
def archival : List (DocumentTask × Except HttpError DocumentOutcome) × MetadataDb DocumentTask :=
  serially documentRun DocumentTask.prog
    [.create {} (requestOf "u-1" "editor" 10) "d-1", .submit "d-1" (requestOf "u-1" "editor" 20),
      .approve "d-1" (requestOf "u-7" "approver" 30),
        .setLegalHold "d-1" ⟨false, none⟩ (requestOf "u-9" "admin" 35),
      .archive "d-1" (requestOf "u-1" "editor" 40)] [] (emptyMetadata DocumentTask)

theorem timestamps_agree_sample : ∃ document ∈ archival.2.documents, document.status = .ARCHIVED ∧
    TimestampsAgree (NonDecreasing (archival.1.map (·.1.now))) document := by
  have hs : (archival.2.documents.find? (·.status = .ARCHIVED)).isSome = true := by decide +kernel
  obtain ⟨document, hf⟩ := Option.isSome_iff_exists.mp hs
  refine ⟨document, List.mem_of_find?_eq_some hf, by simpa using List.find?_some hf, ?_⟩
  have hr : DocumentRuns (fun _ t => ∀ docId now, t ≠ .markDeleted docId now) archival.1 archival.2 :=
    Serial.serially documentRun DocumentTask.prog documentRun_exec _ _ _ .nil
      ⟨nofun, nofun, nofun, nofun, nofun, trivial⟩
  exact timestamps_agree hr document (List.mem_of_find?_eq_some hf)

end DocVault
