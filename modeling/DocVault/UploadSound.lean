import DocVault.Uploads
import DocVault.VersionNumbers

/-!
# The objects of registered versions

An upload makes its key of the document that it has read, puts its object there
and registers it, or deletes it again. The versions that are registered when
the document is read have lower numbers, so nothing has the key yet, and
nothing gets it meanwhile as long as no other upload is on the way with the same
key (`UploadsApart`): every version that an upload has registered keeps its
bytes. Two uploads of one file name to one document that overlap share a key,
and the one that loses deletes the object of the one that wins.
-/

namespace DocVault

open Interleave

variable {ι : Type} (env : UploadEnv) (tasks : ι → UploadTask)

def committed (db : MetadataDb ι) : List DocumentVersion :=
  db.log.filterMap fun write =>
    match write.op with
    | .createVersion row _ => if (tasks write.process).isUpload then some row else none
    | _ => none

def Backed (objects : String → Option Bytes) (row : DocumentVersion) : Prop :=
  ∃ body, objects row.objectKey = some body ∧ env.sha256Hex body = row.checksum

abbrev UploadConfig (ι : Type) : Type := Config ι (UploadDb ι) UploadOp UploadOp.Res HttpError DocumentOutcome

/-! ## Uploads that do not overlap -/

-- After the read of the document every operation of an upload is on its object.
def workingOn (c : UploadConfig ι) (p : ι) : Option String := (c.procs p).next.bind UploadOp.objectKey

def UploadOp.NewId (db : MetadataDb ι) : UploadOp → Prop
  | .metadata _ o => DocVault.NewId db o
  | _ => True

/-- No other upload is on the way with the object, and no document is created under the id of a deleted one. -/
def UploadsApart (c : UploadConfig ι) (p : ι) (o : UploadOp) : Prop :=
  (∀ q, q ≠ p → o.objectKey ≠ none → workingOn c q ≠ o.objectKey) ∧ o.NewId c.store.metadata

instance (db : MetadataDb ι) (id : String) : Decidable (db.Known id) := inferInstanceAs (Decidable (∃ _ ∈ _, _))

instance (db : MetadataDb ι) (o : UploadOp) : Decidable (o.NewId db) :=
  match o with
  | .metadata _ (.createDocument _) => inferInstanceAs (Decidable (_ = none → ¬_))
  | .metadata _ (.findDocument _ _) | .metadata _ .findCandidates | .metadata _ (.findExpired _)
  | .metadata _ (.updateDocument _ _ _ _) | .metadata _ (.deleteDocument _) | .metadata _ (.findVersion _ _)
  | .metadata _ (.createVersion _ _) | .putObject _ _ | .deleteObject _ => inferInstanceAs (Decidable True)

instance {n : Nat} (c : UploadConfig (Fin n)) (p : Fin n) (o : UploadOp) : Decidable (UploadsApart c p o) :=
  inferInstanceAs (Decidable (_ ∧ _))

/-- One operation of process `p`, where a registration that an upload has made is answered. -/
def AnsweredExec : Exec ι (UploadDb ι) UploadOp UploadOp.Res := fun p db o r db' =>
  UploadExec p db o r db' ∧
    match o, r with
    | .metadata (some _) (.createVersion _ _), none => db' = db
    | _, _ => True

theorem uploadRun_answered (p : ι) (db : UploadDb ι) (o : UploadOp) :
    AnsweredExec p db o (uploadRun p db o).1 (uploadRun p db o).2 := by
  refine ⟨uploadRun_exec p db o, ?_⟩
  rcases o with ⟨_ | held, _ | _⟩ | _ | _ <;> trivial

variable {env tasks}

/-! ## The numbers of versions -/

def numberingStore (ι : Type) : Spec ι (UploadDb ι) UploadOp UploadOp.Res where
  exec := UploadExec
  pre _ db o := o.NewId db.metadata
  inv db := Numbered db.metadata
  rely _ _ db db' := Ages db.metadata db'.metadata
  guar _ db o := ∀ held o', o = .metadata held o' → NextVersion db.metadata o'

theorem numberingStore_closed : (numberingStore ι).Closed :=
  ⟨fun _ _ _ => Ages.refl _, fun _ _ _ _ _ => Ages.trans⟩

section
variable {p : ι} {α : Type}

abbrev Registers (p : ι) (m : UploadM α) (db : UploadDb ι) : Prop :=
  Ok (numberingStore ι) p (fun _ _ => True) (fun _ _ => True) m db

theorem registers_request (held : Option (String × Bytes)) {m : DocumentM α} {db : UploadDb ι}
    (h : Warrants p m db.metadata) : Registers p (MetadataClient.request held m) db := by
  refine Ok_lift (S := numbering ι) (Q := fun _ _ => True) UploadDb.metadata (fun _ _ _ => id) (fun _ => id)
    (fun _ _ => id) ?_ (fun _ _ _ _ _ _ hi => hi) ?_ m db h
  · rintro o db hn _ _ ⟨⟩
    exact hn
  · intro o db r db' hx
    rcases hx with ⟨r', metadata, hx, rfl, rfl | rfl⟩ | ⟨rfl, rfl⟩
    · exact hx
    · exact .inr ⟨r', hx⟩
    · exact .inl rfl

theorem registers_storage {o : UploadOp} (ho : ∀ held o', o ≠ .metadata held o') {k : o.Res → UploadM α}
    (hk : ∀ r db, Numbered db.metadata → Registers p (k r) db) (db : UploadDb ι) :
    Registers p (Prog.op o >>= k) db := by
  refine Ok_op (fun _ _ _ _ held o' h => absurd h (ho held o')) (fun _ _ _ _ => trivial)
    fun db' r db'' _ hi _ hx => ?_
  have hsame : db''.metadata = db'.metadata := by
    cases o with
    | metadata held o' => exact absurd rfl (ho held o')
    | putObject objectKey body => rcases hx with rfl | ⟨_, rfl⟩ <;> rfl
    | deleteObject objectKey => rcases hx with rfl | ⟨_, rfl⟩ <;> rfl
  have hi : Numbered db''.metadata := hsame ▸ hi
  exact ⟨hi, hk r db'' hi⟩

theorem registers_upload (docId : String) (file : Option UploadedFile) (request : Request) {db : UploadDb ι}
    (hi : Numbered db.metadata) : Registers p (UploadService.upload env docId file request) db := by
  refine Ok_ofExcept_bind (fun file _ => ?_) fun _ _ => trivial
  refine Ok_bind (Q := fun _ _ => True) (fun document db hi _ => ?_) _ db hi (registers_request none
    (warrants_uses (fun o db hu => hu.next db)
      (findOne_uses (U := Plain) (fun _ _ => trivial) docId request) db.metadata))
  refine Ok_ofExcept_bind (fun _ _ => Ok_ofExcept_bind (fun _ _ => ?_) fun _ _ => trivial) fun _ _ => trivial
  refine registers_storage (fun _ _ h => by cases h) (fun stored db hi => ?_) db
  refine Ok_ofExcept_bind (fun _ _ => ?_) fun _ _ => trivial
  refine Ok_bind (Q := fun _ _ => True) (fun result db _ _ => ?_) _ db hi ?_
  · cases result with
    | ok versionRecord => trivial
    | error error =>
        exact registers_storage (fun _ _ h => by cases h) (fun _ db _ => (Ok_throw error db).mpr trivial) db
  · refine Ok_mono (fun _ _ _ => trivial) (fun _ _ _ => trivial) _ db
      (Ok_attempt (Q := fun _ _ => True) (E := fun _ _ => True) _ db ?_)
    exact Ok_ofExcept_bind (fun _ _ => registers_request _ (warrants_create docId _ request hi)) fun _ _ => trivial

theorem registers_task (t : UploadTask) {db : UploadDb ι} (hi : Numbered db.metadata) :
    Registers p (t.prog env) db := by
  cases t with
  | upload docId file request =>
    refine Ok_bind (Q := fun _ _ => True) (fun row db _ _ => (Ok_ret _ db).mpr trivial) _ db hi ?_
    exact Ok_ofExcept_bind (fun _ _ => registers_upload docId file request hi) fun _ _ => trivial
  | metadata task => exact registers_request none (warrants_task task hi)

theorem uploads_numbered [DecidableEq ι] {c : UploadConfig ι}
    (hr : Reach UploadExec (fun c _ o => o.NewId c.store.metadata) (startUploads env tasks) c) :
    Numbered c.store.metadata := by
  refine (Reach.ok (S := numberingStore ι) (Q := fun _ _ _ => True)
    (E := fun _ _ _ => True) hr numberingStore_closed
    numbered_empty (fun p => registers_task (tasks p) numbered_empty) (fun _ _ _ => id)
      (fun _ _ _ _ _ _ _ => trivial)
    (fun _ _ _ _ _ _ _ => trivial) ?_).1
  intro c p q o k r db' hi _ hx hnew hn _
  cases o with
  | metadata held o =>
    rcases hx with ⟨r', metadata, hx, rfl, _⟩ | ⟨_, rfl⟩
    · exact (numbered_step hi (hn held o rfl) hnew hx).2
    · exact .refl _
  | putObject objectKey body => rcases hx with rfl | ⟨_, rfl⟩ <;> exact .refl _
  | deleteObject objectKey => rcases hx with rfl | ⟨_, rfl⟩ <;> exact .refl _

end

/-! ## What the operations keep -/

variable (tasks) in
theorem committed_exec {p : ι} {db db' : MetadataDb ι} {o : DocumentOp} {r : o.Res}
    (hx : DocumentExec p db o r db') :
    committed tasks db' = committed tasks db ∨ ∃ row data document, o = .createVersion row data ∧
      (tasks p).isUpload = true ∧ db.find row.docId = some document ∧ db' = db.createVersion p row data document ∧
      committed tasks db' = committed tasks db ++ [row] := by
  rcases exec_writes hx with rfl | hw
  · exact .inl rfl
  · cases hw with
    | create new => exact .inl (by simp [committed, MetadataDb.create])
    | update found => exact .inl (by simp [committed, MetadataDb.update])
    | delete found => exact .inl (by simp [committed, MetadataDb.delete])
    | @createVersion row data document found new =>
      cases hu : (tasks p).isUpload with
      | false => exact .inl (by simp [committed, MetadataDb.createVersion, hu])
      | true => exact .inr ⟨row, data, document, rfl, rfl, found,
          rfl, by simp [committed, MetadataDb.createVersion, hu]⟩

variable (tasks) in
theorem metadata_exec {p : ι} {db db' : UploadDb ι} {held : Option (String × Bytes)}
    {o : DocumentOp} {r : Option o.Res} (hx : UploadExec p db (.metadata held o) r db') :
    db'.objects = db.objects ∧ (committed tasks db'.metadata = committed tasks db.metadata ∨ ∃ row data,
      o = .createVersion row data ∧ (tasks p).isUpload = true ∧
        committed tasks db'.metadata = committed tasks db.metadata ++ [row]) := by
  rcases hx with ⟨r', metadata, hx, rfl, _⟩ | ⟨_, rfl⟩
  · refine ⟨rfl, (committed_exec tasks hx).imp_right ?_⟩
    rintro ⟨row, data, _, rfl, hup, _, _, hnew⟩
    exact ⟨row, data, rfl, hup, hnew⟩
  · exact ⟨rfl, .inl rfl⟩

/-- A registered version has its bytes under a key of its own, and its document counts it while it is there. -/
structure Held (env : UploadEnv) (db : UploadDb ι) (row : DocumentVersion) : Prop where
  backed : Backed env db.objects row
  keyed : ∃ filename, row.objectKey = buildObjectKey row.docId row.version filename
  known : db.metadata.Known row.docId
  listed : db.metadata.find row.docId ≠ none → row ∈ db.metadata.versions

def Unregistered (tasks : ι → UploadTask) (objectKey : String) (db : UploadDb ι) : Prop :=
  ∀ row ∈ committed tasks db.metadata, row.objectKey ≠ objectKey

-- The key is made of a number that no version of the document has yet.
theorem unregistered_read {db : UploadDb ι} {docId : String} {document : Document}
    (hi : ∀ row ∈ committed tasks db.metadata, Held env db row) (hn : Numbered db.metadata)
    (found : db.metadata.find docId = some document) (filename : String) :
    Unregistered tasks (buildObjectKey docId (document.currentVersion + 1) filename) db := by
  intro row hrow hkey
  obtain ⟨filename', hkey'⟩ := (hi row hrow).keyed
  obtain ⟨rfl, hversion⟩ := buildObjectKey_inj (hkey'.symm.trans hkey)
  have hlisted := (hi row hrow).listed (by simp [found])
  have hsome : db.metadata.version row.docId row.version ≠ none := by
    simpa [MetadataDb.version] using ⟨row, hlisted, rfl, rfl⟩
  have hle := ((hn.numbers row.docId document found row.version).mp hsome).2
  omega

theorem Held.write {p : ι} {db : UploadDb ι} {row : DocumentVersion} {o : DocumentOp} {r : o.Res}
    {metadata : MetadataDb ι}
    (h : Held env db row) (hnew : NewId db.metadata o) (hx : DocumentExec p db.metadata o r metadata) :
    Held env { db with metadata := metadata } row := by
  refine ⟨h.backed, h.keyed, known_step hx _ h.known, fun hfind => ?_⟩
  have hlisted := h.listed
  rcases exec_writes hx with rfl | hw
  · exact hlisted hfind
  · cases hw with
    | @create document new =>
      have hid : document.id ≠ row.docId := fun hid => hnew new (hid ▸ h.known)
      simp only [find_create new, if_neg hid] at hfind
      exact hlisted hfind
    | @update id notDeleted data r document found =>
      have found := target_find found
      refine hlisted fun hnone => ?_
      have hid : id ≠ row.docId := fun hid => Option.some_ne_none document (found.symm.trans (hid ▸ hnone))
      simp only [find_update found, if_neg hid] at hfind
      exact hfind hnone
    | @delete id document found =>
      have hid : id ≠ row.docId := fun hid => hfind (by simp only [find_delete, if_pos hid])
      simp only [find_delete, if_neg hid] at hfind
      exact List.mem_filter.mpr ⟨hlisted hfind, by simpa using Ne.symm hid⟩
    | @createVersion new data document found _ =>
      refine List.mem_append_left _ (hlisted fun hnone => ?_)
      have hid : new.docId ≠ row.docId := fun hid => Option.some_ne_none document (found.symm.trans (hid ▸ hnone))
      simp only [find_createVersion found, if_neg hid] at hfind
      exact hfind hnone

theorem held_metadata {p : ι} {db db' : UploadDb ι} {held : Option (String × Bytes)}
    {o : DocumentOp} {r : Option o.Res}
    (hi : ∀ row ∈ committed tasks db.metadata, Held env db row) (hnew : NewId db.metadata o)
    (hrow : ∀ row data, o = .createVersion row data → (tasks p).isUpload = true →
      Backed env db.objects row ∧ ∃ filename, row.objectKey = buildObjectKey row.docId row.version filename)
    (hx : UploadExec p db (.metadata held o) r db') : ∀ row ∈ committed tasks db'.metadata, Held env db' row := by
  rcases hx with ⟨r', metadata, hx, rfl, _⟩ | ⟨_, rfl⟩
  · intro row hmem
    rcases committed_exec tasks hx with hsame | ⟨new, data, document, rfl, hup, found, rfl, happ⟩
    · exact (hi row (hsame ▸ hmem)).write hnew hx
    · rw [happ, List.mem_append, List.mem_singleton] at hmem
      rcases hmem with hmem | rfl
      · exact (hi row hmem).write hnew hx
      · obtain ⟨hbacked, hkeyed⟩ := hrow row data rfl hup
        exact ⟨hbacked, hkeyed, (known_append rfl row.docId).mpr (.inr (find_id found)),
          fun _ => List.mem_append_right _ (List.mem_singleton_self row)⟩
  · exact hi

theorem held_objects {db : UploadDb ι} {objectKey : String} (object : Option Bytes)
    (hi : ∀ row ∈ committed tasks db.metadata, Held env db row) (hfree : Unregistered tasks objectKey db) :
    ∀ row ∈ committed tasks db.metadata,
      Held env { db with objects := Function.update db.objects objectKey object } row := by
  intro row hrow
  obtain ⟨⟨body, hbody, hsum⟩, hkeyed, hknown, hlisted⟩ := hi row hrow
  exact ⟨⟨body, by simpa [Function.update_of_ne (hfree row hrow)] using hbody, hsum⟩, hkeyed, hknown, hlisted⟩

/-! ## Processes -/

variable (env tasks) in
def storing : Spec ι (UploadDb ι) UploadOp UploadOp.Res where
  exec := AnsweredExec
  pre _ db o := o.NewId db.metadata ∧ Numbered db.metadata
  inv db := ∀ row ∈ committed tasks db.metadata, Held env db row
  rely _ o db db' := ∀ objectKey, o.bind UploadOp.objectKey = some objectKey →
    db'.objects objectKey = db.objects objectKey ∧
    (Unregistered tasks objectKey db → Unregistered tasks objectKey db')
  guar p _ o := ∀ held row data, o = .metadata held (.createVersion row data) → (tasks p).isUpload = true →
    o.objectKey = some row.objectKey

theorem storing_closed : (storing env tasks).Closed := by
  refine ⟨fun _ _ _ _ _ => ⟨rfl, id⟩, fun _ _ _ _ _ h₁ h₂ objectKey hkey => ?_⟩
  exact ⟨(h₂ objectKey hkey).1.trans (h₁ objectKey hkey).1, (h₂ objectKey hkey).2 ∘ (h₁ objectKey hkey).2⟩

section
variable {p : ι} {α : Type}

abbrev Keeps (env : UploadEnv) (tasks : ι → UploadTask) (p : ι) (m : UploadM α) (db : UploadDb ι) : Prop :=
  Ok (storing env tasks) p (fun _ _ => True) (fun _ _ => True) m db

/-- An operation that registers no upload's version. -/
def Registerless (tasks : ι → UploadTask) (p : ι) : UploadOp → Prop
  | .metadata _ o => ∀ row data, o = .createVersion row data → (tasks p).isUpload = false
  | _ => False

theorem registerless_exec {o : UploadOp} {db db' : UploadDb ι} {r : o.Res} (hu : Registerless tasks p o)
    (hi : (storing env tasks).inv db) (hp : (storing env tasks).pre p db o) (hx : AnsweredExec p db o r db') :
    (storing env tasks).inv db' ∧ db'.objects = db.objects ∧
      committed tasks db'.metadata = committed tasks db.metadata := by
  cases o with
  | metadata held o =>
    have hnone : ∀ row data, o = .createVersion row data → (tasks p).isUpload ≠ true := fun row data h =>
      Bool.eq_false_iff.mp (hu row data h)
    obtain ⟨hobjects, hsame | ⟨row, data, rfl, hup, _⟩⟩ := metadata_exec tasks hx.1
    · exact ⟨held_metadata hi hp.1 (fun row data h hup => absurd hup (hnone row data h)) hx.1, hobjects, hsame⟩
    · exact absurd hup (hnone row data rfl)
  | putObject _ _ => exact hu.elim
  | deleteObject _ => exact hu.elim

theorem registerless_guar {o : UploadOp} (hu : Registerless tasks p o) (db : UploadDb ι) :
    (storing env tasks).guar p db o := by
  rintro held row data rfl hup
  exact absurd hup (by simp [hu row data rfl])

theorem keeps_registerless {m : UploadM α} (hm : m.Uses (Registerless tasks p)) (db : UploadDb ι) :
    Keeps env tasks p m db :=
  Ok_uses (J := fun _ => True) (fun _ _ _ _ _ _ _ => trivial) (fun _ db hu _ _ _ => registerless_guar hu db)
    (fun _ _ _ _ hu hi _ hp hx => ⟨(registerless_exec hu hi hp hx).1, trivial⟩) m db hm trivial

-- The upload has put its object, which is not registered.
structure Put (tasks : ι → UploadTask) (held : String × Bytes) (db : UploadDb ι) : Prop where
  stored : db.objects held.1 = some held.2
  free : Unregistered tasks held.1 db

theorem Put.rely {held : String × Bytes} {o : UploadOp} {db db' : UploadDb ι} (h : Put tasks held db)
    (ho : o.objectKey = some held.1) (hs : (storing env tasks).rely p (some o) db db') : Put tasks held db' := by
  obtain ⟨hobject, hfree⟩ := hs held.1 ho
  exact ⟨hobject.trans h.stored, hfree h.free⟩

theorem keeps_reading {held : String × Bytes} {m : DocumentM α} {db : UploadDb ι} (h : Put tasks held db)
    (hm : m.Uses fun o => ∀ row data, o ≠ .createVersion row data) :
    Ok (storing env tasks) p (fun _ => Put tasks held) (fun _ => Put tasks held)
      (MetadataClient.request (some held) m) db := by
  refine Ok_uses (U := fun o => o.objectKey = some held.1 ∧ Registerless tasks p o) (J := Put tasks held)
    (fun _ _ _ hu hj hs _ => hj.rely hu.1 hs) (fun _ db hu _ _ _ => registerless_guar hu.2 db)
    (fun o db r db' hu hi hj hp hx => ?_) _ db ?_ h
  · obtain ⟨hi', hobjects, hsame⟩ := registerless_exec hu.2 hi hp hx
    exact ⟨hi', by rw [hobjects, hj.stored], fun row hrow => hj.free row (hsame ▸ hrow)⟩
  · exact Prog.Uses.lift (fun o ho => ⟨rfl, fun row data h => absurd h (ho row data)⟩) hm

theorem refused {db db' : MetadataDb ι} {row : DocumentVersion} {data : DocumentUpdate}
    (hx : DocumentExec p db (.createVersion row data) none db') : db' = db := by
  rcases hx with h | ⟨_, h⟩
  · simp only [documentRun] at h
    split at h
    · exact (Prod.mk.inj h).2
    · split at h
      · exact (Prod.mk.inj h).2
      · cases (Prod.mk.inj h).1
  · exact h

-- A refused registration leaves the object unregistered.
theorem keeps_register {held : String × Bytes} {row : DocumentVersion} (data : DocumentUpdate) {db : UploadDb ι}
    (h : Put tasks held db) (hrow : row.objectKey = held.1 ∧ row.checksum = env.sha256Hex held.2)
    (hkeyed : ∃ filename, row.objectKey = buildObjectKey row.docId row.version filename) :
    Ok (storing env tasks) p (fun _ _ => True) (fun _ => Unregistered tasks held.1)
      (MetadataClient.request (some held)
      (Prog.op (.createVersion row data) >>= fun result => Prog.ofExcept (updated result))) db := by
  rw [MetadataClient.request, Prog.op_bind, Prog.lift]
  intro db' hs hi
  have hput := h.rely rfl hs
  refine ⟨fun _ => ?_, fun _ => hput.free, fun r db'' hp hx => ⟨?_, ?_⟩⟩
  · rintro _ _ _ ⟨⟩ _
    rw [hrow.1]
    rfl
  · refine held_metadata (o := .createVersion row data) hi hp.1 ?_ hx.1
    rintro _ _ ⟨⟩ _
    exact ⟨⟨held.2, by rw [hrow.1, hput.stored], hrow.2.symm⟩, hkeyed⟩
  · cases r with
    | none =>
      obtain rfl := hx.2
      exact hput.free
    | some answer =>
      cases answer with
      | some row => trivial
      | none =>
        rcases hx.1 with ⟨r', metadata, hx, rfl, h | h⟩ | ⟨h, _⟩
        · obtain rfl := Option.some.inj h
          rw [refused hx]
          exact hput.free
        · cases h
        · cases h


theorem keeps_createVersion (held : String × Bytes) {docId : String} {dto : CreateVersionDto} (request : Request)
    {db : UploadDb ι} (hi : (storing env tasks).inv db) (h : Put tasks held db)
    (hdto : dto.objectKey = held.1 ∧ dto.checksum = env.sha256Hex held.2)
    (hkeyed : ∃ filename, dto.objectKey = buildObjectKey docId dto.version filename) :
    Ok (storing env tasks) p (fun _ _ => True) (fun _ => Unregistered tasks held.1)
      (MetadataClient.createVersion held docId dto request) db := by
  refine Ok_ofExcept_bind (fun _ _ => ?_) fun _ _ => h.free
  unfold MetadataClient.request DocumentsController.createVersion VersionsService.create
  rw [Prog.lift_bind, Prog.lift_ofExcept]
  refine Ok_ofExcept_bind (fun _ _ => ?_) fun _ _ => h.free
  rw [Prog.lift_bind]
  refine Ok_bind (Q := fun _ => Put tasks held) (fun document db hi h => ?_) _ db hi
    (Ok_mono (fun _ _ => id) (fun _ _ h => h.free) _ db (keeps_reading h ?_))
  · rw [Prog.lift_bind, Prog.lift_ofExcept]
    exact Ok_ofExcept_bind (fun _ _ => keeps_register _ h hdto hkeyed) fun _ _ => h.free
  · refine .bind (fun organizationId => .bind (fun found => ?_) (.op fun _ _ => nofun)) (.ofExcept _)
    cases found <;> trivial

theorem keeps_read (docId organizationId filename : String) (db : UploadDb ι) : Ok (storing env tasks) p
    (fun found db => ∀ document : Document, found = some document →
      Unregistered tasks (buildObjectKey docId (document.currentVersion + 1) filename) db) (fun _ _ => True)
    (MetadataClient.request none (findDocument docId organizationId)) db := by
  rw [MetadataClient.request, findDocument, Prog.lift_op]
  refine Ok_op (fun _ _ _ _ _ _ _ => nofun) (fun _ _ _ _ => trivial) fun db' r db'' _ hi hp hx => ?_
  have hless : Registerless tasks p (.metadata none (.findDocument docId organizationId)) := fun _ _ => nofun
  refine ⟨(registerless_exec hless hi hp hx).1, ?_⟩
  cases r with
  | none => trivial
  | some found =>
    rintro document rfl
    rcases hx.1 with ⟨r', metadata, hread, rfl, h | h⟩ | ⟨h, _⟩
    · obtain rfl := Option.some.inj h
      obtain ⟨hr, rfl⟩ := Prod.mk.inj hread
      exact unregistered_read hi hp.2 (Option.filter_eq_some_iff.mp hr.symm).1 filename
    · cases h
    · cases h

theorem keeps_getDocument (docId filename : String) (request : Request) {db : UploadDb ι}
    (hi : (storing env tasks).inv db) : Ok (storing env tasks) p
      (fun document => Unregistered tasks (buildObjectKey docId (document.currentVersion + 1) filename))
      (fun _ _ => True) (MetadataClient.getDocument docId request) db := by
  unfold MetadataClient.getDocument MetadataClient.request DocumentsController.findOne
  rw [Prog.lift_bind, Prog.lift_ofExcept]
  refine Ok_ofExcept_bind (fun _ _ => ?_) fun _ _ => trivial
  rw [Prog.lift_bind, Prog.lift_ofExcept]
  refine Ok_ofExcept_bind (fun organizationId _ => ?_) fun _ _ => trivial
  rw [Prog.lift_bind]
  refine Ok_bind (fun found db _ h => ?_) _ db hi (keeps_read docId organizationId filename db)
  cases found with
  | none => trivial
  | some document =>
    dsimp only
    split
    · trivial
    · exact h document rfl

theorem keeps_settle {objectKey : String} {result : Except HttpError DocumentVersion} {db : UploadDb ι}
    (h : ∀ error, result = .error error → Unregistered tasks objectKey db) :
    Keeps env tasks p (UploadService.settle objectKey result) db := by
  cases result with
  | ok versionRecord => trivial
  | error error =>
    refine Ok_op (fun _ _ _ _ _ _ _ => nofun) (fun _ _ _ _ => trivial) fun db' r db'' hs hi _ hx => ⟨?_, trivial⟩
    rcases hx.1 with rfl | ⟨_, rfl⟩
    · exact held_objects _ hi ((hs objectKey rfl).2 (h error rfl))
    · exact hi

theorem keeps_upload (docId : String) (file : Option UploadedFile) (request : Request) {db : UploadDb ι}
    (hi : (storing env tasks).inv db) : Keeps env tasks p (UploadService.upload env docId file request) db := by
  refine Ok_ofExcept_bind (fun file _ => ?_) fun _ _ => trivial
  refine Ok_bind (fun document db hi hfree => ?_) _ db hi (keeps_getDocument docId file.originalname request hi)
  refine Ok_ofExcept_bind (fun _ _ => Ok_ofExcept_bind (fun _ _ => ?_) fun _ _ => trivial) fun _ _ => trivial
  refine Ok_op (fun _ _ _ _ _ _ _ => nofun) (fun _ _ _ _ => trivial) fun db' r db'' hs hi' _ hx => ?_
  have hfree := (hs _ rfl).2 hfree
  cases r with
  | false =>
    refine ⟨?_, trivial⟩
    rcases hx.1 with rfl | ⟨_, rfl⟩
    · exact held_objects _ hi' hfree
    · exact hi'
  | true =>
    obtain rfl := hx.1.resolve_right fun h => absurd h.1 (by simp)
    have hi'' := held_objects (some file.buffer) hi' hfree
    refine ⟨hi'', ?_⟩
    refine Ok_bind (fun result db _ h => keeps_settle h) _ _ hi'' ?_
    refine Ok_mono ?_ (fun _ _ _ => trivial) _ _ (Ok_attempt _ _ (keeps_createVersion
      ((UploadService.versionDto env docId document file).objectKey, file.buffer) request hi''
      ⟨by simp [UploadDb.put], hfree⟩ ⟨rfl, rfl⟩ ⟨_, rfl⟩))
    rintro result db h error rfl
    exact h

theorem keeps_task (t : UploadTask) (ht : tasks p = t) {db : UploadDb ι} (hi : (storing env tasks).inv db) :
    Keeps env tasks p (t.prog env) db := by
  cases t with
  | upload docId file request =>
    refine Ok_bind (Q := fun _ _ => True) (fun row db _ _ => (Ok_ret _ db).mpr trivial) _ db hi ?_
    exact Ok_ofExcept_bind (fun _ _ => keeps_upload docId file request hi) fun _ _ => trivial
  | metadata task =>
    have hup : (tasks p).isUpload = false := by rw [ht]; rfl
    exact keeps_registerless (Prog.Uses.lift (fun _ _ _ _ _ => hup) task.prog.uses_true) db

end

/-! ## Runs -/

section
variable [DecidableEq ι] {c : UploadConfig ι}

theorem uploads_numbered_apart (hr : Reach AnsweredExec UploadsApart (startUploads env tasks) c) :
    Numbered c.store.metadata :=
  uploads_numbered (hr.refine fun _ _ _ _ _ _ _ _ hx hc => ⟨hx.1, hc.2⟩)

theorem reach_held (hr : Reach AnsweredExec UploadsApart (startUploads env tasks) c) :
    ∀ row ∈ committed tasks c.store.metadata, Held env c.store row := by
  have hr' : Reach AnsweredExec (fun c p o => UploadsApart c p o ∧ Numbered c.store.metadata)
    (startUploads env tasks) c :=
    hr.refine fun _ _ _ _ _ _ hr _ hx hc => ⟨hx, hc, uploads_numbered_apart hr⟩
  have h₀ : (storing env tasks).inv (startUploads env tasks).store := fun row hrow => absurd hrow List.not_mem_nil
  refine (Reach.ok (S := storing env tasks) (Q := fun _ _ _ => True) (E := fun _ _ _ => True) hr' storing_closed h₀
    (fun p => keeps_task (tasks p) rfl h₀) (fun c p o hc => ⟨hc.1.2, hc.2⟩) (fun _ _ _ _ _ _ _ => trivial)
    (fun _ _ _ _ _ _ _ => trivial) ?_).1
  -- Process `q` writes only the object that its operation is on, and that is not the one of `p`.
  intro c p q o k r db' _ _ hx hc hg hne objectKey hworking
  have hother : o.objectKey ≠ some objectKey := fun h =>
    hc.1.1 p hne (by simp [h]) (hworking.trans h.symm)
  cases o with
  | metadata held o =>
    obtain ⟨hobjects, hsame | ⟨row, data, rfl, hup, happ⟩⟩ := metadata_exec tasks hx.1
    · exact ⟨by rw [hobjects], fun hfree row hrow => hfree row (hsame ▸ hrow)⟩
    · refine ⟨by rw [hobjects], fun hfree row' hrow => ?_⟩
      rw [happ, List.mem_append, List.mem_singleton] at hrow
      rcases hrow with hrow | rfl
      · exact hfree row' hrow
      · exact fun hkey => hother ((hg held row' data rfl hup).trans (congrArg some hkey))
  | putObject objectKey' body =>
    have hkey : objectKey ≠ objectKey' := fun h => hother (congrArg some h.symm)
    rcases hx.1 with rfl | ⟨_, rfl⟩
    · exact ⟨Function.update_of_ne hkey _ _, id⟩
    · exact ⟨rfl, id⟩
  | deleteObject objectKey' =>
    have hkey : objectKey ≠ objectKey' := fun h => hother (congrArg some h.symm)
    rcases hx.1 with rfl | ⟨_, rfl⟩
    · exact ⟨Function.update_of_ne hkey _ _, id⟩
    · exact ⟨rfl, id⟩

theorem committed_reach {cond : UploadConfig ι → ι → UploadOp → Prop} {c' : UploadConfig ι}
    (h : Reach AnsweredExec cond c c') : committed tasks c.store.metadata ⊆ committed tasks c'.store.metadata := by
  induction h with
  | refl => exact fun _ => id
  | @exec d p o k r db' _ _ hx _ ih =>
    refine fun row hrow => ?_
    have hrow := ih hrow
    cases o with
    | metadata held o =>
      rcases (metadata_exec tasks hx.1).2 with hsame | ⟨_, _, _, _, hnew⟩
      · exact hsame ▸ hrow
      · exact hnew ▸ List.mem_append_left _ hrow
    | putObject objectKey body => rcases hx.1 with rfl | ⟨_, rfl⟩ <;> exact hrow
    | deleteObject objectKey => rcases hx.1 with rfl | ⟨_, rfl⟩ <;> exact hrow
  | fail _ _ _ ih => exact ih

/-- Every version that an upload has registered has its bytes, and no later step touches them. -/
theorem uploads_keep (hsha : Function.Injective env.sha256Hex)
    (hr : Reach AnsweredExec UploadsApart (startUploads env tasks) c) :
    (∀ row ∈ committed tasks c.store.metadata, Backed env c.store.objects row) ∧
      ∀ c', Reach AnsweredExec UploadsApart c c' → ∀ row ∈ committed tasks c.store.metadata,
        c'.store.objects row.objectKey = c.store.objects row.objectKey := by
  refine ⟨fun row hrow => (reach_held hr row hrow).backed, fun c' h row hrow => ?_⟩
  obtain ⟨body, hbody, hsum⟩ := (reach_held hr row hrow).backed
  obtain ⟨body', hbody', hsum'⟩ := (reach_held (hr.trans h) row (committed_reach h hrow)).backed
  rw [hbody, hbody', hsha (hsum'.trans hsum.symm)]

end

/-! ## Two uploads of one file -/

def plainEnv : UploadEnv where
  sha256Hex bytes := String.ofList (bytes.map fun byte => Char.ofNat byte.toNat)
  malwareClean _ := true
  dlpStatus _ _ := .CLEAR

theorem plainEnv_injective : Function.Injective plainEnv.sha256Hex := by
  have hchar : ∀ n < 256, (Char.ofNat n).toNat = n := by decide +kernel
  have hbyte : Function.Injective fun byte : UInt8 => Char.ofNat byte.toNat := fun a b h =>
    UInt8.toNat_inj.mp ((hchar _ a.toNat_lt).symm.trans ((congrArg Char.toNat h).trans (hchar _ b.toNat_lt)))
  intro l m h
  exact List.map_injective_iff.mpr hbyte (String.ofList_injective h)

-- The first process creates the document, the others upload a file each.
def rivals : Fin 3 → UploadTask
  | 0 => .metadata (.create {} ownerRequest "d-1")
  | 1 => .upload "d-1" (some ⟨"plan.pdf", "application/pdf", 2, [1, 2]⟩) ownerRequest
  | 2 => .upload "d-1" (some ⟨"plan.pdf", "application/pdf", 2, [3, 4]⟩) ownerRequest

-- The second upload starts after the first one has ended.
def uploadedInTurn : UploadConfig (Fin 3) :=
  schedule uploadRun (startUploads plainEnv rivals) ((List.finRange 3).flatMap (List.replicate 4))

theorem uploads_keep_sample : (committed rivals uploadedInTurn.store.metadata).map (·.objectKey) =
      ["doc/d-1/v1/plan.pdf", "doc/d-1/v2/plan.pdf"] ∧
    ∀ row ∈ committed rivals uploadedInTurn.store.metadata, Backed plainEnv uploadedInTurn.store.objects row := by
  have hm : meets uploadRun UploadsApart (startUploads plainEnv rivals)
      ((List.finRange 3).flatMap (List.replicate 4)) = true := by
    decide +kernel
  exact ⟨by decide +kernel, (uploads_keep plainEnv_injective
    (Reach.schedule uploadRun_answered _ _ .refl (meets_iff _ _ hm))).1⟩

-- Both have put their file under the key of the first version before either registers it.
def uploadedAtOnce : UploadConfig (Fin 3) :=
  schedule uploadRun (startUploads plainEnv rivals) (List.replicate 5 (List.finRange 3)).flatten

theorem uploads_lose : ¬∀ c, Reach UploadExec (fun _ _ _ => True) (startUploads plainEnv rivals) c →
    ∀ row ∈ committed rivals c.store.metadata, Backed plainEnv c.store.objects row := by
  intro h
  have hmem : (committed rivals uploadedAtOnce.store.metadata).any
      (fun row => (uploadedAtOnce.store.objects row.objectKey).isNone) = true := by
    decide +kernel
  obtain ⟨row, hrow, hnone⟩ := List.any_eq_true.mp hmem
  obtain ⟨body, hbody, _⟩ := h _ (Reach.schedule uploadRun_exec _ _ .refl (meets_true _ _)) row hrow
  rw [show schedule uploadRun _ _ = uploadedAtOnce from rfl] at hbody
  rw [hbody] at hnone
  cases hnone

end DocVault
