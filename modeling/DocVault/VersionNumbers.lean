import DocVault.Workflow
import Mathlib.Data.Set.Defs

/-!
# Version numbers

Registrations and restores of versions read `currentVersion` before they write,
so the number they insert may be outdated. The unique index over document and
number then refuses it: the numbers of a document's rows stay `1` to
`currentVersion`, in any interleaving.
-/

namespace DocVault

open Interleave

section
variable {ι : Type} {p : ι}

/-- The document is in the store, or has been. -/
def MetadataDb.Known (db : MetadataDb ι) (id : String) : Prop := ∃ write ∈ db.log, write.document.id = id

structure Numbered (db : MetadataDb ι) : Prop where
  counted : ∀ id document, db.find id = some document → 0 ≤ document.currentVersion
  numbers : ∀ id document, db.find id = some document → ∀ n,
    db.version id n ≠ none ↔ 1 ≤ n ∧ n ≤ document.currentVersion
  absent : ∀ id, db.find id = none → ∀ n, db.version id n = none
  known : ∀ id document, db.find id = some document → db.Known id

/-- A document counts up, or goes for good. -/
structure Ages (db db' : MetadataDb ι) : Prop where
  known : ∀ id, db.Known id → db'.Known id
  documents : ∀ id document', db.Known id → db'.find id = some document' →
    ∃ document, db.find id = some document ∧ document.currentVersion ≤ document'.currentVersion

theorem Ages.refl (db : MetadataDb ι) : Ages db db := ⟨fun _ => id, fun _ document _ h => ⟨document, h, le_rfl⟩⟩

theorem Ages.trans {db db' db'' : MetadataDb ι} (h : Ages db db') (h' : Ages db' db'') : Ages db db'' where
  known id hk := h'.known id (h.known id hk)
  documents id document'' hk hf'' := by
    obtain ⟨document', hf', hle'⟩ := h'.documents id document'' (h.known id hk) hf''
    obtain ⟨document, hf, hle⟩ := h.documents id document' hk hf'
    exact ⟨document, hf, hle.trans hle'⟩

/-- A registered number is at most the next one, and nothing else writes `currentVersion`. -/
def NextVersion (db : MetadataDb ι) : DocumentOp → Prop
  | .createDocument document => document.currentVersion = 0
  | .updateDocument _ _ data _ => data.currentVersion = none
  | .createVersion row data => data.currentVersion = some row.version ∧ 1 ≤ row.version ∧
      ∀ document, db.find row.docId = some document → row.version ≤ document.currentVersion + 1
  | _ => True

/-- No document is created under the id of a deleted one. -/
def NewId (db : MetadataDb ι) : DocumentOp → Prop
  | .createDocument document => db.find document.id = none → ¬db.Known document.id
  | _ => True

/-! ## One operation -/

theorem Numbered.next {db : MetadataDb ι} (hi : Numbered db) {row : DocumentVersion} {document : Document}
    (found : db.find row.docId = some document) (new : db.version row.docId row.version = none)
    (hone : 1 ≤ row.version) (hle : row.version ≤ document.currentVersion + 1) :
    row.version = document.currentVersion + 1 := by
  have hnot : ¬ (1 ≤ row.version ∧ row.version ≤ document.currentVersion) := fun h =>
    (hi.numbers _ document found row.version).mpr h new
  omega

theorem known_append {db db' : MetadataDb ι} {write : Write ι} (hlog : db'.log = db.log ++ [write]) (id : String) :
    db'.Known id ↔ db.Known id ∨ write.document.id = id := by
  unfold MetadataDb.Known
  rw [hlog]
  simp

theorem known_step {db db' : MetadataDb ι} {o : DocumentOp} {r : o.Res}
    (hx : DocumentExec p db o r db') (id : String) (h : db.Known id) : db'.Known id := by
  rcases exec_writes hx with rfl | hw
  · exact h
  · cases hw <;> exact (known_append rfl id).mpr (.inl h)

/-- A write of one row, whose document is known afterwards. -/
theorem known_of_find {db db' : MetadataDb ι} (hi : Numbered db) {write : Write ι}
    {id : String} {document' : Document} (hlog : db'.log = db.log ++ [write]) (hknown : db'.Known id)
    (hfind : ∀ id', db'.find id' = if id = id' then some document' else db.find id')
    (id' : String) (document : Document) (hd : db'.find id' = some document) : db'.Known id' := by
  rw [hfind] at hd
  split at hd
  · rename_i hid
    exact hid ▸ hknown
  · exact (known_append hlog id').mpr (.inl (hi.known id' document hd))

theorem numbered_create {db : MetadataDb ι} (hi : Numbered db) {document : Document}
    (new : db.find document.id = none) (hv : document.currentVersion = 0) : Numbered (db.create p document) := by
  refine ⟨?_, ?_, ?_, ?_⟩
  · intro id d hd
    rw [find_create new] at hd
    split at hd
    · obtain rfl := Option.some.inj hd
      exact hv.ge
    · exact hi.counted id d hd
  · intro id d hd n
    rw [find_create new] at hd
    split at hd
    · rename_i hid
      obtain rfl := Option.some.inj hd
      have hnone : (db.create p document).version id n = none := hi.absent id (hid ▸ new) n
      rw [hnone, hv]
      exact ⟨fun h => absurd rfl h, fun h => by omega⟩
    · exact hi.numbers id d hd n
  · intro id hd n
    rw [find_create new] at hd
    split at hd
    · cases hd
    · exact hi.absent id hd n
  · exact known_of_find hi rfl ((known_append rfl _).mpr (.inr rfl)) (find_create new)

theorem ages_create {db : MetadataDb ι} {document : Document} (new : db.find document.id = none)
    (hnew : ¬db.Known document.id) : Ages db (db.create p document) where
  known id hk := (known_append rfl id).mpr (.inl hk)
  documents id d hk hd := by
    have hid : document.id ≠ id := fun h => hnew (h ▸ hk)
    rw [find_create new, if_neg hid] at hd
    exact ⟨d, hd, le_rfl⟩

/-- An update of one row that does not count it down. -/
theorem ages_of_find {db db' : MetadataDb ι} {write : Write ι} {id : String} {document document' : Document}
    (hlog : db'.log = db.log ++ [write]) (found : db.find id = some document)
    (hfind : ∀ id', db'.find id' = if id = id' then some document' else db.find id')
    (hle : document.currentVersion ≤ document'.currentVersion) : Ages db db' where
  known id hk := (known_append hlog id).mpr (.inl hk)
  documents id' d _ hd := by
    rw [hfind] at hd
    split at hd
    · rename_i hid
      obtain rfl := Option.some.inj hd
      exact ⟨document, hid ▸ found, hle⟩
    · exact ⟨d, hd, le_rfl⟩

theorem numbered_update {db : MetadataDb ι} (hi : Numbered db) {id : String}
    {notDeleted : Bool} {data : DocumentUpdate}
    {row : Option DocumentWorkflowHistory} {document : Document} (found : db.find id = some document)
    (hv : data.currentVersion = none) : Numbered (db.update p id notDeleted data row document) ∧
      Ages db (db.update p id notDeleted data row document) := by
  have hset : (data.set document).currentVersion = document.currentVersion := by
    show data.currentVersion.getD document.currentVersion = document.currentVersion
    rw [hv, Option.getD_none]
  refine ⟨⟨?_, ?_, ?_, ?_⟩, ages_of_find rfl found (find_update found) hset.ge⟩
  · intro id' d hd
    rw [find_update found] at hd
    split at hd
    · obtain rfl := Option.some.inj hd
      rw [hset]
      exact hi.counted id document found
    · exact hi.counted id' d hd
  · intro id' d hd n
    rw [find_update found] at hd
    split at hd
    · rename_i hid
      obtain rfl := Option.some.inj hd
      rw [hset, ← hid]
      exact hi.numbers id document found n
    · exact hi.numbers id' d hd n
  · intro id' hd n
    rw [find_update found] at hd
    split at hd
    · cases hd
    · exact hi.absent id' hd n
  · exact known_of_find hi rfl ((known_append rfl id).mpr (.inl (hi.known id document found))) (find_update found)

theorem numbered_delete {db : MetadataDb ι} (hi : Numbered db) {id : String} {document : Document} :
    Numbered (db.delete p id document) ∧ Ages db (db.delete p id document) := by
  have hkept : ∀ id' d, (db.delete p id document).find id' = some d → id ≠ id' ∧ db.find id' = some d := by
    intro id' d hd
    rw [find_delete] at hd
    split at hd
    · cases hd
    · exact ⟨‹_›, hd⟩
  refine ⟨⟨fun id' d hd => hi.counted id' d (hkept id' d hd).2, fun id' d hd n => ?_,
    fun id' hd n => ?_, fun id' d hd => ?_⟩,
    ⟨fun id' hk => (known_append rfl id').mpr (.inl hk), fun id' d _ hd => ⟨d, (hkept id' d hd).2, le_rfl⟩⟩⟩
  · rw [version_delete, if_neg (hkept id' d hd).1]
    exact hi.numbers id' d (hkept id' d hd).2 n
  · rw [version_delete]
    rw [find_delete] at hd
    split
    · rfl
    · rename_i hid
      exact hi.absent id' (by rwa [if_neg hid] at hd) n
  · exact (known_append rfl id').mpr (.inl (hi.known id' d (hkept id' d hd).2))

theorem numbered_createVersion {db : MetadataDb ι} (hi : Numbered db)
    {row : DocumentVersion} {data : DocumentUpdate}
    {document : Document} (found : db.find row.docId = some document)
    (new : db.version row.docId row.version = none)
    (hv : data.currentVersion = some row.version) (hn : row.version = document.currentVersion + 1) :
    Numbered (db.createVersion p row data document) ∧ Ages db (db.createVersion p row data document) := by
  have hset : (data.set document).currentVersion = document.currentVersion + 1 := by
    show data.currentVersion.getD document.currentVersion = document.currentVersion + 1
    rw [hv, Option.getD_some, hn]
  have hcount := hi.counted _ document found
  refine ⟨⟨?_, ?_, ?_, ?_⟩, ages_of_find rfl found (find_createVersion found) (by omega)⟩
  · intro id d hd
    rw [find_createVersion found] at hd
    split at hd
    · obtain rfl := Option.some.inj hd
      omega
    · exact hi.counted id d hd
  · intro id d hd n
    rw [find_createVersion found] at hd
    rw [version_createVersion new]
    split at hd
    · rename_i hid
      obtain rfl := Option.some.inj hd
      have hnum := hi.numbers _ document found n
      rw [hset, ← hid]
      by_cases he : row.version = n
      · rw [if_pos ⟨rfl, he⟩]
        exact ⟨fun _ => by omega, fun _ => nofun⟩
      · rw [if_neg fun h => he h.2, hnum]
        omega
    · rename_i hid
      rw [if_neg fun h => hid h.1]
      exact hi.numbers id d hd n
  · intro id hd n
    rw [find_createVersion found] at hd
    split at hd
    · cases hd
    · rename_i hid
      rw [version_createVersion new, if_neg fun h => hid h.1]
      exact hi.absent id hd n
  · exact known_of_find hi rfl ((known_append rfl _).mpr (.inl (hi.known _ document found)))
      (find_createVersion found)

theorem numbered_step {db db' : MetadataDb ι} {o : DocumentOp} {r : o.Res}
    (hi : Numbered db) (hn : NextVersion db o)
    (hnew : NewId db o) (hx : DocumentExec p db o r db') : Numbered db' ∧ Ages db db' := by
  rcases exec_writes hx with rfl | hw
  · exact ⟨hi, .refl _⟩
  · cases hw with
    | create new => exact ⟨numbered_create hi new hn, ages_create new (hnew new)⟩
    | update found => exact numbered_update hi (target_find found) hn
    | delete found => exact numbered_delete hi
    | createVersion found new =>
      exact numbered_createVersion hi found new hn.1 (hi.next found new hn.2.1 (hn.2.2 _ found))

/-! ## Tasks -/

def numbering (ι : Type) : Spec ι (MetadataDb ι) DocumentOp DocumentOp.Res where
  exec := DocumentExec
  pre _ := NewId
  inv := Numbered
  rely _ _ := Ages
  guar _ := NextVersion

theorem numbering_closed : (numbering ι).Closed := ⟨fun _ _ => Ages.refl, fun _ _ _ _ _ => Ages.trans⟩

variable {α : Type}

/-- Process `p` warrants its operations, and ends anyhow. -/
abbrev Warrants (p : ι) (m : DocumentM α) (db : MetadataDb ι) : Prop :=
  Ok (numbering ι) p (fun _ _ => True) (fun _ _ => True) m db

-- What a process knows of a document after it has read `currentVersion`.
def ReadVersion (docId : String) (n : Int) (db : MetadataDb ι) : Prop :=
  0 ≤ n ∧ db.Known docId ∧ ∀ document, db.find docId = some document → n ≤ document.currentVersion

theorem ReadVersion.ages {docId : String} {n : Int} {db db' : MetadataDb ι} (h : ReadVersion docId n db)
    (hg : Ages db db') : ReadVersion docId n db' := by
  obtain ⟨hn, hk, hle⟩ := h
  refine ⟨hn, hg.known docId hk, fun document' hf' => ?_⟩
  obtain ⟨document, hf, hle'⟩ := hg.documents docId document' hk hf'
  exact (hle document hf).trans hle'

theorem ReadVersion.next {db : MetadataDb ι} {row : DocumentVersion} {data : DocumentUpdate} {n : Int}
    (h : ReadVersion row.docId n db) (hn : row.version = n + 1) (hv : data.currentVersion = some row.version) :
    NextVersion db (.createVersion row data) := by
  obtain ⟨hpos, _, hle⟩ := h
  refine ⟨hv, by omega, fun d hd => ?_⟩
  have := hle d hd
  omega

theorem warrants_findInOrg {f : Document → DocumentM α} {docId : String} {request : Request} {db : MetadataDb ι}
    (hf : ∀ document db', ReadVersion docId document.currentVersion db' → Warrants p (f document) db')
    (hi : Numbered db) : Warrants p (findInOrg docId request >>= f) db := by
  refine Ok_bind (Q := fun document db' => ReadVersion docId document.currentVersion db')
    (fun document db' _ h => hf document db' h) _ db hi ?_
  refine Ok_ofExcept_bind (fun organizationId _ => ?_) fun _ _ => trivial
  refine Ok_op (fun _ _ _ _ => trivial) (fun _ _ _ _ => trivial) fun db' r db'' _ hi' _ hx => ?_
  obtain ⟨hr, rfl⟩ := Prod.mk.inj hx
  refine ⟨hi', ?_⟩
  cases r with
  | none => trivial
  | some document =>
    have found := (Option.filter_eq_some_iff.mp hr.symm).1
    refine ⟨hi'.counted docId document found, hi'.known docId document found, fun d hd => ?_⟩
    obtain rfl := Option.some.inj (found.symm.trans hd)
    exact le_rfl

theorem warrants_createVersion (row : DocumentVersion) {data : DocumentUpdate} {n : Int} {db : MetadataDb ι}
    (h : ReadVersion row.docId n db) (hn : row.version = n + 1) (hv : data.currentVersion = some row.version) :
    Warrants p (Prog.op (DocumentOp.createVersion row data) >>=
      fun result => Prog.ofExcept (updated result)) db := by
  have hnext : ∀ db', Ages db db' → NextVersion db' (.createVersion row data) :=
    fun db' hg => (h.ages hg).next hn hv
  refine Ok_op (fun db' hg _ _ => hnext db' hg) (fun _ _ _ _ => trivial) fun db' r db'' hg hi hnew hx => ?_
  exact ⟨(numbered_step hi (hnext db' hg) hnew hx).1, Ok_ofExcept (fun _ _ => trivial) fun _ _ => trivial⟩

theorem warrants_guard {β : Type} {x : Except HttpError β} {f : β → DocumentM α} {db : MetadataDb ι}
    (hf : ∀ b, x = .ok b → Warrants p (f b) db) : Warrants p (Prog.ofExcept x >>= f) db :=
  Ok_ofExcept_bind hf fun _ _ => trivial

theorem warrants_registered {m : DocumentM DocumentVersion} {db : MetadataDb ι}
    (hi : Numbered db) (h : Warrants p m db) : Warrants p (registered m) db := by
  refine Ok_bind (Q := fun _ _ => True) (fun _ _ _ _ => ?_) m db hi h
  trivial

theorem warrants_create (docId : String) (dto : CreateVersionDto) (request : Request) {db : MetadataDb ι}
    (hi : Numbered db) : Warrants p (DocumentsController.createVersion docId dto request) db := by
  refine warrants_guard fun _ _ => warrants_findInOrg (fun document db' hread => ?_) hi
  refine warrants_guard fun _ hguard => ?_
  exact warrants_createVersion _ hread (VersionsService.createGuard_ok.mp hguard).2 rfl

theorem warrants_restore (docId : String) (version : Int) (request : Request)
    {db : MetadataDb ι} (hi : Numbered db) :
    Warrants p (DocumentTask.restoreVersion docId version request).prog db := by
  refine warrants_registered hi (warrants_guard fun _ _ => warrants_findInOrg (fun document db' hread => ?_) hi)
  refine warrants_guard fun _ _ => ?_
  refine Ok_op (fun _ _ _ _ => trivial) (fun _ _ _ _ => trivial) fun db'' r _ hg hi'' _ hx => ?_
  obtain ⟨_, rfl⟩ := Prod.mk.inj hx
  refine ⟨hi'', ?_⟩
  cases r with
  | none => trivial
  | some source =>
    refine warrants_guard fun _ _ => ?_
    exact warrants_createVersion (VersionsService.restoreRow docId source request.user document)
      (hread.ages hg) rfl rfl

theorem Plain.next {o : DocumentOp} (h : Plain o) (db : MetadataDb ι) : NextVersion db o := by
  cases o with
  | createDocument document => exact h.2.2
  | updateDocument id notDeleted data row => exact UpdateIssued.version h
  | deleteDocument id | createVersion row data => exact h.elim
  | _ => trivial

theorem warrants_uses {U : DocumentOp → Prop} (hU : ∀ o db, U o → NextVersion (ι := ι) db o) {m : DocumentM α}
    (hm : m.Uses U) (db : MetadataDb ι) : Warrants p m db :=
  Ok_uses (J := fun _ => True) (fun _ _ _ _ _ _ _ => trivial) (fun o db hu _ _ _ => hU o db hu)
    (fun o db _ _ hu hi _ hnew hx => ⟨(numbered_step hi (hU o db hu) hnew hx).1, trivial⟩) m db hm trivial

theorem warrants_task (t : DocumentTask) {db : MetadataDb ι} (hi : Numbered db) : Warrants p t.prog db := by
  cases hp : t.isPlain with
  | true => exact warrants_uses (fun o db hu => hu.next db) (t.plain_uses hp) db
  | false =>
    cases t with
    | createVersion docId dto request => exact warrants_registered hi (warrants_create docId dto request hi)
    | restoreVersion docId version request => exact warrants_restore docId version request hi
    | purgeExpiredTrash now =>
      refine warrants_uses (U := fun o => ∀ db : MetadataDb ι, NextVersion db o) (fun _ db hu => hu db) ?_ db
      exact .bind (fun _ => .pure _)
        (.bind (fun expired => purge_uses (fun _ _ => trivial) expired _) (.op fun _ => trivial))
    | _ => cases hp

/-! ## Without the purge job -/

def Undeleting (o : DocumentOp) : Prop := ∀ id, o ≠ .deleteDocument id

/-- No document has gone. -/
def Undeleted (db : MetadataDb ι) : Prop := ∀ id, db.Known id → db.find id ≠ none

theorem Undeleted.newId {db : MetadataDb ι} (h : Undeleted db) (o : DocumentOp) : NewId db o := by
  cases o with
  | createDocument document => exact fun hnone hknown => h document.id hknown hnone
  | _ => trivial

theorem undeleted_step {db db' : MetadataDb ι} {o : DocumentOp} {r : o.Res} (hs : Undeleted db) (ho : Undeleting o)
    (hx : DocumentExec p db o r db') : Undeleted db' ∧ db.versions <+: db'.versions := by
  have hplaced : ∀ {write : Write ι} {id : String} {document : Document}, db'.log = db.log ++ [write] →
      write.document.id = id → (∀ id', db'.find id' = if id = id' then some document else db.find id') →
      Undeleted db' := by
    intro write id document hlog hid hfind id' hk
    rw [hfind]
    split
    · exact Option.some_ne_none _
    · rename_i hne
      exact hs id' (((known_append hlog id').mp hk).resolve_right fun h => hne (hid.symm.trans h))
  rcases exec_writes hx with rfl | hw
  · exact ⟨hs, List.prefix_rfl⟩
  · cases hw with
    | create new => exact ⟨hplaced rfl rfl (find_create new), List.prefix_rfl⟩
    | update found =>
      have found := target_find found
      exact ⟨hplaced rfl (find_id found) (find_update found), List.prefix_rfl⟩
    | delete found => exact absurd rfl (ho _)
    | createVersion found new =>
        exact ⟨hplaced rfl (find_id found) (find_createVersion found), List.prefix_append ..⟩

theorem DocumentTask.undeleting (t : DocumentTask) (ht : ∀ now, t ≠ .purgeExpiredTrash now) :
    t.prog.Uses Undeleting :=
  t.issues.mono fun o h id ho => by
    subst ho
    cases h with
    | read h => cases h
    | purgeExpiredTrash => exact ht _ rfl

/-! ## Runs -/

theorem numbered_empty : Numbered (emptyMetadata ι) :=
  ⟨fun _ _ => nofun, fun _ _ => nofun, fun _ _ _ => rfl, fun _ _ => nofun⟩

variable [DecidableEq ι] {tasks : ι → DocumentTask}
  {c c' : Config ι (MetadataDb ι) DocumentOp DocumentOp.Res HttpError DocumentOutcome}

theorem reach_numbered (hr : Reach DocumentExec (fun c _ o => NewId c.store o) (startTasks tasks) c) :
    Numbered c.store ∧ ∀ p, Warrants p (c.procs p) c.store := by
  refine Reach.ok (S := numbering ι) (Q := fun _ _ _ => True)
    (E := fun _ _ _ => True) hr numbering_closed numbered_empty
    (fun p => warrants_task (tasks p) numbered_empty) (fun _ _ _ => id) (fun _ _ _ _ _ _ _ => trivial)
    (fun _ _ _ _ _ _ _ => trivial) ?_
  intro c p q o k r db' hi _ hx hnew hn _
  exact (numbered_step hi hn hnew hx).2

theorem reach_ages (hr : Reach DocumentExec (fun c _ o => NewId c.store o) (startTasks tasks) c)
    (h : Reach DocumentExec (fun c _ o => NewId c.store o) c c') : Ages c.store c'.store := by
  induction h with
  | refl => exact .refl _
  | @exec d p o k r db' hd hp hx hnew ih =>
    obtain ⟨hi, hok⟩ := reach_numbered (hr.trans hd)
    have hown := hok p
    rw [hp] at hown
    exact ih.trans (numbered_step hi (hown.guar numbering_closed hi hnew) hnew hx).2
  | fail _ _ _ ih => exact ih

theorem reach_undeleted (ht : ∀ p now, tasks p ≠ .purgeExpiredTrash now)
    (hr : Reach DocumentExec (fun _ _ _ => True) (startTasks tasks) c) : Undeleted c.store := by
  refine hr.invariant (U := fun _ => Undeleting) (fun p => (tasks p).undeleting (ht p)) ?_
    fun c p o r db' hs hu _ hx => (undeleted_step hs hu hx).1
  rintro id ⟨write, hwrite, _⟩
  cases hwrite

theorem reach_newId (ht : ∀ p now, tasks p ≠ .purgeExpiredTrash now)
    (hr : Reach DocumentExec (fun _ _ _ => True) (startTasks tasks) c)
    (h : Reach DocumentExec (fun _ _ _ => True) c c') : Reach DocumentExec (fun c _ o => NewId c.store o) c c' :=
  h.refine fun _ _ o _ _ _ hd _ hx _ => ⟨hx, (reach_undeleted ht (hr.trans hd)).newId o⟩

theorem reach_extends (ht : ∀ p now, tasks p ≠ .purgeExpiredTrash now)
    (hr : Reach DocumentExec (fun _ _ _ => True) (startTasks tasks) c)
    (h : Reach DocumentExec (fun _ _ _ => True) c c') : c.store.versions <+: c'.store.versions := by
  have hundeleting := hr.uses (U := fun _ => Undeleting) fun p => (tasks p).undeleting (ht p)
  exact (h.invariant (I := fun db => Undeleted db ∧ c.store.versions <+: db.versions) hundeleting
    ⟨reach_undeleted ht hr, List.prefix_rfl⟩ fun _ _ _ _ _ hi hu _ hx =>
      ⟨(undeleted_step hi.1 hu hx).1, hi.2.trans (undeleted_step hi.1 hu hx).2⟩).2

/-- In any interleaving without the purge job, the numbers of a document's rows
are `1` to `currentVersion`, and from then on `currentVersion` only grows and
the rows only gain new ones. -/
theorem versions_numbered (ht : ∀ p now, tasks p ≠ .purgeExpiredTrash now)
    (hr : Reach DocumentExec (fun _ _ _ => True) (startTasks tasks) c) {id : String} {document : Document}
    (hf : c.store.find id = some document) :
    {n | ∃ row ∈ c.store.versions, row.docId = id ∧ row.version = n} = {n | 1 ≤ n ∧ n ≤ document.currentVersion} ∧
      ∀ c', Reach DocumentExec (fun _ _ _ => True) c c' → c.store.versions <+: c'.store.versions ∧
        ∃ document', c'.store.find id = some document' ∧ document.currentVersion ≤ document'.currentVersion := by
  have hnumbered := (reach_numbered (reach_newId ht .refl hr)).1
  refine ⟨?_, fun c' h => ⟨reach_extends ht hr h, ?_⟩⟩
  · ext n
    rw [Set.mem_ofPred_eq, Set.mem_ofPred_eq, ← hnumbered.numbers id document hf n, MetadataDb.version,
      ne_eq, List.find?_eq_none]
    simp
  · have hages := reach_ages (reach_newId ht .refl hr) (reach_newId ht hr h)
    have hknown := hnumbered.known id document hf
    obtain ⟨document', hf'⟩ :=
      Option.ne_none_iff_exists'.mp (reach_undeleted ht (hr.trans h) id (hages.known id hknown))
    obtain ⟨d, hd, hle⟩ := hages.documents id document' hknown hf'
    obtain rfl := Option.some.inj (hf.symm.trans hd)
    exact ⟨document', hf', hle⟩

end

-- All the others register a first version.
def firstVersions : Nat → DocumentTask
  | 0 => .create {} ownerRequest "d-1"
  | n => .createVersion "d-1" ⟨1, s!"doc/d-1/v1/{n}", "sum", 1, "plan.txt", none, none⟩ ownerRequest

-- Both have read the document before either writes.
def raced : Config Nat (MetadataDb Nat) DocumentOp DocumentOp.Res HttpError DocumentOutcome :=
  schedule documentRun (startTasks firstVersions) [0, 1, 2, 2, 1]

theorem versions_numbered_sample : ∃ document, raced.store.find "d-1" = some document ∧
    {n | ∃ row ∈ raced.store.versions, row.docId = "d-1" ∧ row.version = n} =
      {n | 1 ≤ n ∧ n ≤ document.currentVersion} := by
  obtain ⟨document, hf⟩ :=
    Option.isSome_iff_exists.mp (show (raced.store.find "d-1").isSome = true by decide +kernel)
  have ht : ∀ p now, firstVersions p ≠ .purgeExpiredTrash now := by
    rintro (_ | p) now <;> nofun
  exact ⟨document, hf,
    (versions_numbered ht (Reach.schedule documentRun_exec _ _ .refl (meets_true _ _)) hf).1⟩

end DocVault
