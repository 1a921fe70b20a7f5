import DocVault.Sections
import DocVault.TaskAlone

/-!
# Legal hold against the jobs

The retention job and the trash purge read their candidates once and then write
them one after another; `setLegalHold` may run between any two of these steps.
The jobs do not look at the hold again before they write, and the purge does
not look at it at all.
-/

namespace DocVault

open Interleave

/-! ## Dispositions and holds -/

/-- The document that an operation archives for the retention job, or deletes. -/
def DocumentOp.disposes : DocumentOp → Option String
  | .updateDocument id _ _ row => if row.any (·.action = .RETENTION) then some id else none
  | .deleteDocument id => some id
  | _ => none

/-- The document that an operation puts under hold. -/
def DocumentOp.places : DocumentOp → Option String
  | .createDocument document => if document.legalHold then some document.id else none
  | .updateDocument id _ data _ => if data.legalHold.any (·.legalHold) then some id else none
  | .createVersion row data => if data.legalHold.any (·.legalHold) then some row.docId else none
  | _ => none

inductive HoldTask where
  | setLegalHold (docId : String) (dto : LegalHoldDto) (request : Request)
  | runRetention (now : Time)
  | purgeExpiredTrash (now : Time)

def HoldTask.prog : HoldTask → DocumentM DocumentOutcome
  | setLegalHold docId dto request => (DocumentTask.setLegalHold docId dto request).prog
  | runRetention now => (DocumentTask.runRetention now).prog
  | purgeExpiredTrash now => (DocumentTask.purgeExpiredTrash now).prog

section
variable {α β : Type}

/-- The process is a job in its loop that has still to write the document. -/
abbrev Pending (id : String) (m : DocumentM α) : Prop :=
  m.Amid (fun o => o.disposes ≠ none) (fun o => o.disposes = some id)

theorem not_mayDispose {id : String} {m : DocumentM α} (h : m.Uses fun o => o.disposes = none) :
    ¬m.May fun o => o.disposes = some id :=
  Prog.Uses.not_may (h.mono fun o ho => by rw [ho]; exact nofun)

theorem pending_bind {id : String} {f : α → DocumentM β} (hf : ∀ a, (f a).Uses fun o => o.disposes = none)
    {m : DocumentM α} (h : Pending id (m >>= f)) : Pending id m := h.of_bind fun a => not_mayDispose (hf a)

/-! ## The jobs write what they have read -/

def Selects : (o : DocumentOp) → o.Res → String → Prop
  | .findCandidates, r, id => ∃ document ∈ r, document.id = id
  | .findExpired _, r, id => ∃ document ∈ r, document.id = id
  | _, _, _ => False

/-- A process enters the loop of a job from the query that has selected what the loop writes. -/
def Snapshots : DocumentM α → Prop
  | .call o k => (o.disposes = none → ∀ r id, Pending id (k r) → Selects o r id) ∧ ∀ r, Snapshots (k r)
  | _ => True

theorem snapshots_of_uses : ∀ {m : DocumentM α}, m.Uses (fun o => o.disposes = none) → Snapshots m
  | .ret _, _ => trivial
  | .throw _, _ => trivial
  | .call _ _, h => ⟨fun _ r _ hp => absurd hp.2 (not_mayDispose (h.2 r)), fun r => snapshots_of_uses (h.2 r)⟩

theorem snapshots_bind {f : α → DocumentM β} (hf : ∀ a, (f a).Uses fun o => o.disposes = none) :
    ∀ {m : DocumentM α}, Snapshots m → Snapshots (m >>= f)
  | .ret a, _ => snapshots_of_uses (hf a)
  | .throw _, _ => trivial
  | .call _ _, h => ⟨fun ho r id hp => h.1 ho r id (pending_bind hf hp), fun r => snapshots_bind hf (h.2 r)⟩

end

section
variable {now : Time} {id : String}

theorem archiveOverdue_disposes {candidates : List Document} {result : RetentionService.RetentionRunResult}
    (h : (RetentionService.archiveOverdue now candidates result).May fun o => o.disposes = some id) :
    ∃ document ∈ candidates, document.id = id :=
  (archiveOverdue_may now h).imp fun _ hd => ⟨hd.1, Option.some.inj hd.2⟩

theorem archiveOverdue_snapshots : ∀ (candidates : List Document) (result : RetentionService.RetentionRunResult),
    Snapshots (RetentionService.archiveOverdue now candidates result) := by
  intro candidates
  induction candidates with
  | nil => exact fun _ => trivial
  | cons document candidates ih =>
    intro result
    cases hd : RetentionService.isOverdue now document with
    | false =>
      rw [RetentionService.archiveOverdue_skip hd]
      exact ih result
    | true =>
      rw [RetentionService.archiveOverdue_take hd]
      refine ⟨fun h => absurd h nofun, fun r => ?_⟩
      cases r with
      | none => exact ih _
      | some _ => exact ih _

theorem purge_disposes : ∀ {expired : List Document} {result : DocumentsService.PurgeResult},
    ((DocumentsService.purge expired result).May fun o => o.disposes = some id) →
    ∃ document ∈ expired, document.id = id := by
  intro expired
  induction expired with
  | nil => exact fun h => h.elim
  | cons document expired ih =>
    intro result h
    rcases h with h | ⟨r, h⟩
    · exact ⟨document, List.mem_cons_self, Option.some.inj h⟩
    · have hrest : ∃ result', (DocumentsService.purge expired result').May fun o => o.disposes = some id := by
        cases r with
        | none => exact ⟨_, h⟩
        | some _ => exact ⟨_, h⟩
      obtain ⟨result', h⟩ := hrest
      obtain ⟨d, hm, he⟩ := ih h
      exact ⟨d, List.mem_cons_of_mem _ hm, he⟩

theorem purge_snapshots : ∀ (expired : List Document) (result : DocumentsService.PurgeResult),
    Snapshots (DocumentsService.purge expired result) := by
  intro expired
  induction expired with
  | nil => exact fun _ => trivial
  | cons document expired ih =>
    intro result
    refine ⟨fun h => absurd h nofun, fun r => ?_⟩
    cases r with
    | none => exact ih _
    | some _ => exact ih _

theorem HoldTask.snapshots (t : HoldTask) : Snapshots t.prog := by
  cases t with
  | setLegalHold docId dto request =>
    exact snapshots_of_uses (.bind (fun _ => .pure _) (setLegalHold_uses (fun _ _ => rfl) fun _ => rfl))
  | runRetention now =>
    exact snapshots_bind (fun _ => .pure _) (m := RetentionService.runRetention now)
      ⟨fun _ _ _ hp => archiveOverdue_disposes hp.2, fun candidates => archiveOverdue_snapshots candidates _⟩
  | purgeExpiredTrash now =>
    exact snapshots_bind (fun _ => .pure _) (m := DocumentsService.purgeExpiredTrash now)
      ⟨fun _ _ _ hp => purge_disposes hp.2, fun expired => purge_snapshots expired _⟩

theorem HoldTask.not_pending (t : HoldTask) (id : String) : ¬ Pending id t.prog := by
  intro h
  cases t with
  | setLegalHold docId dto request =>
    exact not_mayDispose (.bind (fun _ => .pure _) (setLegalHold_uses (fun _ _ => rfl) fun _ => rfl)) h.2
  | runRetention now =>
    obtain ⟨⟨o, hn, hd⟩, _⟩ := pending_bind (m := RetentionService.runRetention now) (fun _ => .pure _) h
    obtain rfl : DocumentOp.findCandidates = o := Option.some.inj hn
    exact hd rfl
  | purgeExpiredTrash now =>
    obtain ⟨⟨o, hn, hd⟩, _⟩ := pending_bind (m := DocumentsService.purgeExpiredTrash now) (fun _ => .pure _) h
    obtain rfl : DocumentOp.findExpired _ = o := Option.some.inj hn
    exact hd rfl

end

/-! ## Runs -/

section
variable {ι : Type}

abbrev HoldConfig (ι : Type) := Config ι (MetadataDb ι) DocumentOp DocumentOp.Res HttpError DocumentOutcome

-- The log starts empty: it lists the writes of the run.
def startHolds (db : MetadataDb ι) (tasks : ι → HoldTask) : HoldConfig ι :=
  ⟨{ db with log := [] }, fun p => (tasks p).prog⟩

/-- What the jobs need of a step: nobody puts a document under hold while a job has still to write it, and the trash
that a purge reads has no expired document under hold. -/
structure HoldOrderly (c : HoldConfig ι) (_ : ι) (o : DocumentOp) : Prop where
  placed : ∀ id, o.places = some id → ∀ q, ¬ Pending id (c.procs q)
  purged : ∀ cutoff, o = .findExpired cutoff →
    ∀ document ∈ c.store.documents, isExpired cutoff document = true → document.legalHold = false

/-- No job has written a document under hold. -/
def HoldsRespected (db : MetadataDb ι) : Prop :=
  ∀ w ∈ db.log, w.op.disposes ≠ none → w.document.legalHold = false

def Unheld (db : MetadataDb ι) (id : String) : Prop :=
  ∀ document, db.find id = some document → document.legalHold = false

theorem set_unheld {data : DocumentUpdate} {document : Document} (hp : data.legalHold.any (·.legalHold) ≠ true)
    (hd : document.legalHold = false) : (data.set document).legalHold = false := by
  cases hl : data.legalHold with
  | none => simpa [DocumentUpdate.set, hl] using hd
  | some hold => simpa [DocumentUpdate.set, hl] using hp

/-- A write puts a document under hold, or leaves it as little held as it was. -/
theorem unheld_writes {p : ι} {db db' : MetadataDb ι} {o : DocumentOp} (h : Writes p db o db') {id : String}
    (hu : Unheld db id) (hp : o.places ≠ some id) : Unheld db' id := by
  intro d hd
  cases h with
  | @create document new =>
    rw [find_create new] at hd
    by_cases he : document.id = id
    · rw [if_pos he] at hd
      obtain rfl := Option.some.inj hd
      by_contra hh
      exact hp (by simp [DocumentOp.places, hh, he])
    · rw [if_neg he] at hd
      exact hu d hd
  | @update id' _ data _ document found =>
    rw [find_update (target_find found)] at hd
    by_cases he : id' = id
    · rw [if_pos he] at hd
      obtain rfl := Option.some.inj hd
      refine set_unheld (fun hh => hp ?_) (hu document (he ▸ target_find found))
      simp [DocumentOp.places, hh, he]
    · rw [if_neg he] at hd
      exact hu d hd
  | @delete id' _ _ =>
    rw [find_delete] at hd
    by_cases he : id' = id
    · rw [if_pos he] at hd
      cases hd
    · rw [if_neg he] at hd
      exact hu d hd
  | @createVersion row data document found _ =>
    rw [find_createVersion found] at hd
    by_cases he : row.docId = id
    · rw [if_pos he] at hd
      obtain rfl := Option.some.inj hd
      refine set_unheld (fun hh => hp ?_) (hu document (he ▸ found))
      simp [DocumentOp.places, hh, he]
    · rw [if_neg he] at hd
      exact hu d hd

theorem unheld_exec {p : ι} {db db' : MetadataDb ι} {o : DocumentOp} {r : o.Res} (h : DocumentExec p db o r db')
    {id : String} (hu : Unheld db id) (hp : o.places ≠ some id) : Unheld db' id := by
  rcases exec_writes h with rfl | hw
  · exact hu
  · exact unheld_writes hw hu hp

-- What a query of a job selects is not under hold.
theorem unheld_selected {p : ι} {db db' : MetadataDb ι} {o : DocumentOp} {r : o.Res} (hU : db.Unique)
    (h : DocumentExec p db o r db') {id : String} (hs : Selects o r id)
    (hp : ∀ cutoff, o = .findExpired cutoff →
      ∀ document ∈ db.documents, isExpired cutoff document = true →
      document.legalHold = false) : Unheld db' id := by
  have hrow : ∀ {f : Document → Bool} {documents : List Document}, documents.Perm (db.documents.filter f) →
      (∃ document ∈ documents, document.id = id) →
      (∀ document ∈ db.documents, f document = true → document.legalHold = false) →
      Unheld db id := by
    rintro f documents hperm ⟨document, hm, rfl⟩ hf d hd
    obtain ⟨hmem, hsel⟩ := List.mem_filter.mp (hperm.mem_iff.mp hm)
    rw [hU.find hmem] at hd
    obtain rfl := Option.some.inj hd
    exact hf document hmem hsel
  cases o with
  | findCandidates =>
    obtain ⟨hperm, rfl⟩ := h
    refine hrow hperm hs fun document _ hc => ?_
    simp only [isCandidate, Bool.and_eq_true, Bool.not_eq_true'] at hc
    exact hc.2
  | findExpired cutoff =>
    obtain ⟨hperm, rfl⟩ := h
    exact hrow hperm hs (hp cutoff rfl)
  | _ => exact hs.elim

/-- What holds after every step: a job has only documents left that are not under hold. -/
structure HoldSafe (c : HoldConfig ι) : Prop where
  unique : c.store.Unique
  snapshots : ∀ q, Snapshots (c.procs q)
  pending : ∀ q id, Pending id (c.procs q) → Unheld c.store id
  respected : HoldsRespected c.store

theorem holdSafe_log {c : HoldConfig ι} (hs : HoldSafe c) {p : ι} {o : DocumentOp}
    {k : o.Res → DocumentM DocumentOutcome}
    (hp : c.procs p = .call o k) {db' : MetadataDb ι} (h : Writes p c.store o db') : HoldsRespected db' := by
  have hlast : ∀ {id : String} {document : Document}, o.disposes = some id → c.store.find id = some document →
      document.legalHold = false := fun {id document} hd hf => by
    refine hs.pending p id ?_ document hf
    rw [hp]
    exact ⟨⟨o, rfl, fun h => nomatch hd.symm.trans h⟩, .inl hd⟩
  intro w hw hd
  cases h with
  | create new =>
    rcases List.mem_append.mp hw with hw | hw
    · exact hs.respected w hw hd
    · obtain rfl := List.mem_singleton.mp hw
      exact absurd rfl hd
  | @update id _ data row document found =>
    rcases List.mem_append.mp hw with hw | hw
    · exact hs.respected w hw hd
    · obtain rfl := List.mem_singleton.mp hw
      refine @hlast id _ ?_ (target_find found)
      simp only [DocumentOp.disposes] at hd ⊢
      split at hd
      · rename_i hrow
        rw [if_pos hrow]
      · exact absurd rfl hd
  | delete found =>
    rcases List.mem_append.mp hw with hw | hw
    · exact hs.respected w hw hd
    · obtain rfl := List.mem_singleton.mp hw
      exact hlast rfl found
  | createVersion found =>
    rcases List.mem_append.mp hw with hw | hw
    · exact hs.respected w hw hd
    · obtain rfl := List.mem_singleton.mp hw
      exact absurd rfl hd

theorem holdSafe_start {db : MetadataDb ι} (hU : db.Unique) (tasks : ι → HoldTask) :
    HoldSafe (startHolds db tasks) where
  unique := hU
  snapshots q := (tasks q).snapshots
  pending q id hq := absurd hq ((tasks q).not_pending id)
  respected _ hw := absurd hw List.not_mem_nil

variable [DecidableEq ι]

theorem holdSafe_exec {c : HoldConfig ι} (hs : HoldSafe c) {p : ι} {o : DocumentOp}
    {k : o.Res → DocumentM DocumentOutcome}
    {r : o.Res} {db' : MetadataDb ι} (hp : c.procs p = .call o k) (hx : DocumentExec p c.store o r db')
    (ho : HoldOrderly c p o) : HoldSafe ⟨db', Function.update c.procs p (k r)⟩ := by
  have hsnap := hs.snapshots p
  rw [hp] at hsnap
  have hkept : ∀ q id, Pending id (c.procs q) → Unheld db' id := fun q id hq =>
    unheld_exec hx (hs.pending q id hq) fun hpl => ho.placed id hpl q hq
  refine ⟨?_, fun q => ?_, fun q id hq => ?_, ?_⟩
  · rcases exec_writes hx with rfl | hw
    · exact hs.unique
    · exact hs.unique.writes hw
  · by_cases he : q = p
    · subst he
      simpa using hsnap.2 r
    · simpa [Function.update_of_ne he] using hs.snapshots q
  · by_cases he : q = p
    · subst he
      simp only [Function.update_self] at hq
      -- a job that goes on had the document left before the step too, and one that starts has just selected it
      by_cases hd : o.disposes = none
      · exact unheld_selected hs.unique hx (hsnap.1 hd r id hq) ho.purged
      · refine hkept q id ?_
        rw [hp]
        exact ⟨⟨o, rfl, hd⟩, .inr ⟨r, hq.2⟩⟩
    · simp only [Function.update_of_ne he] at hq
      exact hkept q id hq
  · rcases exec_writes hx with rfl | hw
    · exact hs.respected
    · exact holdSafe_log hs hp hw

theorem holdSafe_fail {c : HoldConfig ι} (hs : HoldSafe c) (p : ι) (e : HttpError) :
    HoldSafe ⟨c.store, Function.update c.procs p (.throw e)⟩ := by
  refine ⟨hs.unique, fun q => ?_, fun q id hq => ?_, hs.respected⟩
  · by_cases he : q = p
    · subst he
      simp [Snapshots]
    · simpa [Function.update_of_ne he] using hs.snapshots q
  · by_cases he : q = p
    · subst he
      simp only [Function.update_self] at hq
      exact hq.2.elim
    · simp only [Function.update_of_ne he] at hq
      exact hs.pending q id hq

/-- In every run in which no document is put under hold while a job has still to write it and no purge finds an
expired document under hold, no job writes a document under hold. -/
theorem holds_respected {db : MetadataDb ι} {tasks : ι → HoldTask} {c : HoldConfig ι} (hU : db.Unique)
    (hr : Reach DocumentExec HoldOrderly (startHolds db tasks) c) : HoldsRespected c.store := by
  have hs : HoldSafe c := by
    induction hr with
    | refl => exact holdSafe_start hU tasks
    | exec _ hp hx ho ih => exact holdSafe_exec ih hp hx ho
    | fail e _ _ ih => exact holdSafe_fail ih _ e
  exact hs.respected

end

-- One document for each job, and one that neither job will write.
def retiringDb : MetadataDb Nat where
  documents := [
    { id := "d-1", organizationId := "o-1", ownerId := "u-1", status := .PUBLISHED, publishedAt := some 0,
      retentionUntil := some DAY_MS },
    { id := "d-2", organizationId := "o-1", ownerId := "u-1" },
    { id := "d-3", organizationId := "o-1", ownerId := "u-1", status := .DELETED, deletedAt := some 0 }]
  history := []
  versions := []
  log := []

def holdRequest : Request := ⟨⟨some "u-9", none, ["admin"]⟩, some "o-1", 50 * DAY_MS⟩

def retiringTasks (docId : String) : Nat → HoldTask
  | 0 => .setLegalHold docId ⟨true, some "litigation"⟩ holdRequest
  | 1 => .runRetention (50 * DAY_MS)
  | _ => .purgeExpiredTrash (50 * DAY_MS)

def isOrderly (c : HoldConfig Nat) (o : DocumentOp) : Bool :=
  o.places.isNone &&
    match o with
    | .findExpired cutoff => c.store.documents.all fun document => !isExpired cutoff document || !document.legalHold
    | _ => true

theorem orderly_of {c : HoldConfig Nat} {p : Nat} {o : DocumentOp} (h : isOrderly c o = true) :
    HoldOrderly c p o where
  placed id hp := by
    simp only [isOrderly, hp, Option.isNone_some, Bool.false_and, Bool.false_eq_true] at h
  purged cutoff ho document hm he := by
    subst ho
    simp only [isOrderly, Bool.and_eq_true, List.all_eq_true, Bool.or_eq_true, Bool.not_eq_true'] at h
    rcases h.2 document hm with hx | hx
    · rw [he] at hx
      cases hx
    · exact hx

theorem holds_respected_sample :
    HoldsRespected (schedule documentRun (startHolds retiringDb (retiringTasks "d-2")) [0, 0,
      1, 1, 2, 2]).store := by
  have hfind : Reach DocumentExec HoldOrderly (startHolds retiringDb (retiringTasks "d-2"))
      (turn documentRun (startHolds retiringDb (retiringTasks "d-2")) 0) :=
    Reach.turn documentRun_exec .refl fun o ho => orderly_of (by cases ho; rfl)
  have hplace := hfind.turn (p := 0) documentRun_exec fun o ho => by
    refine ⟨fun id hp q hq => ?_, fun cutoff hc => ?_⟩
    · by_cases h0 : q = 0
      · subst h0
        obtain ⟨⟨o', hn, hd⟩, _⟩ := hq
        cases hn
        exact hd rfl
      · rw [turn_procs h0] at hq
        exact (retiringTasks "d-2" q).not_pending id hq
    · subst hc
      cases ho
  have hrest : Meets documentRun (fun c _ o => isOrderly c o = true)
      (turn documentRun (turn documentRun (startHolds retiringDb (retiringTasks "d-2")) 0) 0) [1, 1, 2, 2] :=
    meets_iff _ _ (by decide +kernel)
  exact holds_respected (show (retiringDb.documents.map (·.id)).Nodup by decide)
    (Reach.schedule documentRun_exec [1, 1, 2, 2] _ hplace (hrest.mono fun _ _ _ => orderly_of))

theorem held_archived :
    ¬ ∀ (db : MetadataDb Nat) (tasks : Nat → HoldTask) (c : HoldConfig Nat), db.Unique →
      Reach DocumentExec (fun _ _ _ => True) (startHolds db tasks) c → HoldsRespected c.store := by
  intro h
  have hr : Reach DocumentExec (fun _ _ _ => True) (startHolds retiringDb (retiringTasks "d-1"))
      (schedule documentRun (startHolds retiringDb (retiringTasks "d-1")) [1, 0, 0, 1]) :=
    Reach.schedule documentRun_exec _ _ .refl (meets_true _ _)
  have hbad : (schedule documentRun (startHolds retiringDb (retiringTasks "d-1")) [1, 0, 0, 1]).store.log.any
      (fun w => w.op.disposes.isSome && w.document.legalHold) = true := by decide +kernel
  obtain ⟨w, hw, hd⟩ := List.any_eq_true.mp hbad
  simp only [Bool.and_eq_true] at hd
  have hfree := h _ _ _ (show (retiringDb.documents.map (·.id)).Nodup by decide) hr w hw
    (Option.isSome_iff_ne_none.mp hd.1)
  rw [hfree] at hd
  exact Bool.false_ne_true hd.2

end DocVault
