import DocVault.PolicyRules
import DocVault.TaskAlone
import DocVault.UploadSound

/-!
# Whose object a version names

`buildObjectKey` puts the document first, so a key tells its document. Uploads
register keys of their own document and a restore copies the key of a version
of the same document. A version registered by a request of its own carries the
key of that request: as long as those are keys of the document too (`OwnKey`),
every grant is for an object of its document.
-/

namespace DocVault

open Interleave

/-! ## Keys -/

def KeyOf (docId objectKey : String) : Prop := ∃ version filename, objectKey = buildObjectKey docId version filename

theorem keyOf_inj {docId docId' objectKey : String} (h : KeyOf docId objectKey) (h' : KeyOf docId' objectKey) :
    docId = docId' := by
  obtain ⟨version, filename, rfl⟩ := h
  obtain ⟨version', filename', hkey⟩ := h'
  exact (buildObjectKey_inj hkey).1

/-! ## Versions with keys of their own document -/

variable {ι : Type}

structure Owned (db : MetadataDb ι) : Prop where
  unique : db.Unique
  keys : ∀ row ∈ db.versions, KeyOf row.docId row.objectKey

/-- A version is registered under a key of its document. -/
def Keyed (o : DocumentOp) : Prop := ∀ row data, o = .createVersion row data → KeyOf row.docId row.objectKey

theorem owned_exec {p : ι} {db db' : MetadataDb ι} {o : DocumentOp} {r : o.Res} (hi : Owned db) (hk : Keyed o)
    (hx : DocumentExec p db o r db') : Owned db' := by
  rcases exec_writes hx with rfl | hw
  · exact hi
  · refine ⟨hi.unique.writes hw, ?_⟩
    cases hw with
    | create new => exact hi.keys
    | update found => exact hi.keys
    | delete found => exact fun row hrow => hi.keys row (List.mem_filter.mp hrow).1
    | @createVersion row data document found new =>
      intro row' hrow
      rcases List.mem_append.mp hrow with hrow | hrow
      · exact hi.keys row' hrow
      · obtain rfl := List.mem_singleton.mp hrow
        exact hk _ data rfl

variable (tasks : ι → UploadTask)

/-- If process `p` is a request of its own to register a version, it is given a key of its document. -/
def GivenOwn (p : ι) : Prop :=
  ∀ docId dto request, tasks p = .metadata (.createVersion docId dto request) → KeyOf docId dto.objectKey

def owning : Spec ι (MetadataDb ι) DocumentOp DocumentOp.Res where
  exec := DocumentExec
  pre p _ o := (∃ row data, o = .createVersion row data) → GivenOwn tasks p
  inv := Owned
  rely _ _ _ _ := True

def owningStore : Spec ι (UploadDb ι) UploadOp UploadOp.Res where
  exec := UploadExec
  pre p _ o := (∃ held row data, o = .metadata held (.createVersion row data)) → GivenOwn tasks p
  inv db := Owned db.metadata
  rely _ _ _ _ := True

theorem owningStore_closed : (owningStore tasks).Closed := ⟨fun _ _ _ => trivial, fun _ _ _ _ _ _ _ => trivial⟩

variable {tasks} {p : ι} {α : Type}

/-- Process `p` keeps the keys apart, and ends anyhow. -/
abbrev Owns (tasks : ι → UploadTask) (p : ι) (m : DocumentM α) (db : MetadataDb ι) : Prop :=
  Ok (owning tasks) p (fun _ _ => True) (fun _ _ => True) m db

theorem owns_uses {U : DocumentOp → Prop}
    (hU : ∀ o, U o → ((∃ row data, o = .createVersion row data) → GivenOwn tasks p) →
    Keyed o) {m : DocumentM α} (hm : m.Uses U) (db : MetadataDb ι) : Owns tasks p m db :=
  Ok_uses (J := fun _ => True) (fun _ _ _ _ _ _ _ => trivial) (fun _ _ _ _ _ _ => trivial)
    (fun o _ _ _ hu hi _ hp hx => ⟨owned_exec hi (hU o hu hp) hx, trivial⟩) m db hm trivial

theorem owns_createVersion {docId : String} {dto : CreateVersionDto} {request : Request}
    (ht : tasks p = .metadata (.createVersion docId dto request)) (db : MetadataDb ι) :
    Owns tasks p (DocumentsController.createVersion docId dto request) db := by
  refine owns_uses (U := fun o => ∀ row data, o = .createVersion row data →
    row.docId = docId ∧ row.objectKey = dto.objectKey)
    (fun o hu hp row data ho => ?_) (createVersion_uses (fun _ _ _ _ h => by cases h) fun document => ?_) db
  · obtain ⟨hid, hkey⟩ := hu row data ho
    rw [hid, hkey]
    exact hp ⟨row, data, ho⟩ docId dto request ht
  · rintro _ _ ⟨⟩
    exact ⟨rfl, rfl⟩

-- The source is a version of the document, whose key the restore copies.
theorem owns_restore (docId : String) (version : Int) (request : Request) {db : MetadataDb ι} (hi : Owned db) :
    Owns tasks p (DocumentsController.restoreVersion docId version request) db := by
  refine Ok_ofExcept_bind (fun _ _ => ?_) fun _ _ => trivial
  refine Ok_bind (Q := fun _ _ => True) (fun document db hi _ => ?_) _ db hi
    (owns_uses (U := Keyed) (fun _ hu _ => hu) ?_ db)
  · refine Ok_ofExcept_bind (fun _ _ => ?_) fun _ _ => trivial
    refine Ok_op (fun _ _ _ _ => trivial) (fun _ _ _ _ => trivial) fun db' r db'' _ hi' _ hx => ?_
    obtain ⟨hr, rfl⟩ := Prod.mk.inj hx
    refine ⟨hi', ?_⟩
    cases r with
    | none => trivial
    | some source =>
      have hsource : KeyOf docId source.objectKey := by
        obtain ⟨hsource, hdoc, _⟩ := version_some hr.symm
        exact hdoc ▸ hi'.keys source hsource
      refine Ok_ofExcept_bind (fun _ _ => ?_) fun _ _ => trivial
      refine Ok_op (fun _ _ _ _ => trivial) (fun _ _ _ _ => trivial) fun db' r db'' _ hi' _ hx => ?_
      have hkeyed : Keyed (.createVersion (VersionsService.restoreRow docId source request.user document)
          { currentVersion := some (document.currentVersion + 1) }) := by
        rintro _ _ ⟨⟩
        exact hsource
      exact ⟨owned_exec hi' hkeyed hx, Ok_ofExcept (fun _ _ => trivial) fun _ _ => trivial⟩
  · refine .bind (fun organizationId => .bind (fun found => ?_) (.op fun _ _ h => by cases h)) (.ofExcept _)
    cases found <;> trivial

theorem owns_task (t : DocumentTask) (ht : tasks p = .metadata t) {db : MetadataDb ι} (hi : Owned db) :
    Owns tasks p t.prog db := by
  cases hplain : t.isPlain with
  | true =>
    refine owns_uses (fun o hu _ row data ho => ?_) (t.plain_uses hplain) db
    subst ho
    exact hu.elim
  | false =>
    cases t with
    | createVersion docId dto request =>
      exact Ok_bind (Q := fun _ _ => True) (fun _ db _ _ => (Ok_ret _ db).mpr trivial) _ db hi
        (owns_createVersion ht db)
    | restoreVersion docId version request =>
      exact Ok_bind (Q := fun _ _ => True) (fun _ db _ _ => (Ok_ret _ db).mpr trivial) _ db hi
        (owns_restore docId version request hi)
    | purgeExpiredTrash now =>
      refine owns_uses (U := Keyed) (fun _ hu _ => hu) ?_ db
      exact .bind (fun _ => .pure _) (.bind (fun expired => purge_uses (fun _ _ _ h => by cases h) expired _)
        (.op fun _ _ h => by cases h))
    | _ => cases hplain

/-! ## Uploads -/

def KeyedOp : UploadOp → Prop
  | .metadata _ o => Keyed o
  | _ => True

theorem request_keyed {held : Option (String × Bytes)} {m : DocumentM α} (hm : m.Uses Keyed) :
    (MetadataClient.request held m).Uses KeyedOp := Prog.Uses.lift (V := KeyedOp) (fun _ ho => ho) hm

theorem settle_keyed (objectKey : String) (result : Except HttpError DocumentVersion) :
    (UploadService.settle objectKey result).Uses KeyedOp := by
  cases result with
  | ok versionRecord => trivial
  | error error =>
    refine .bind (fun _ => ?_) (.op trivial)
    trivial

theorem upload_keyed (env : UploadEnv) (docId : String) (file : Option UploadedFile) (request : Request) :
    (UploadController.upload env docId file request).Uses KeyedOp := by
  have hget : (MetadataClient.getDocument docId request).Uses KeyedOp := by
    refine request_keyed ((findOne_uses (U := Plain) (fun _ _ => trivial) docId request).mono
      fun o ho row data h => ?_)
    subst h
    exact ho.elim
  have hcreate : ∀ file document, (MetadataClient.createVersion
      ((UploadService.versionDto env docId document file).objectKey, file.buffer) docId
      (UploadService.versionDto env docId document file) request).Uses KeyedOp := by
    refine fun file document => .bind (fun _ => request_keyed (createVersion_uses (fun _ _ _ _ h => by cases h) ?_))
      (.ofExcept _)
    rintro _ _ _ ⟨⟩
    exact ⟨_, _, rfl⟩
  refine .bind (fun _ => .bind (fun file => .bind (fun document => ?_) hget) (.ofExcept _)) (.ofExcept _)
  refine .bind (fun _ => .bind (fun _ => .bind (fun stored => ?_) (.op trivial)) (.ofExcept _)) (.ofExcept _)
  exact .bind (fun _ => .bind (fun result => settle_keyed _ result) (hcreate file document).attempt) (.ofExcept _)

variable {env : UploadEnv}

theorem owns_upload {m : UploadM α} (hm : m.Uses KeyedOp) (db : UploadDb ι) :
    Ok (owningStore tasks) p (fun _ _ => True) (fun _ _ => True) m db := by
  refine Ok_uses (J := fun _ => True) (fun _ _ _ _ _ _ _ => trivial) (fun _ _ _ _ _ _ => trivial) ?_ m db hm trivial
  intro o db r db' hu hi _ _ hx
  cases o with
  | metadata held o =>
    rcases hx with ⟨r', metadata, hx, rfl, _⟩ | ⟨_, rfl⟩
    · exact ⟨owned_exec hi hu hx, trivial⟩
    · exact ⟨hi, trivial⟩
  | putObject objectKey body => rcases hx with rfl | ⟨_, rfl⟩ <;> exact ⟨hi, trivial⟩
  | deleteObject objectKey => rcases hx with rfl | ⟨_, rfl⟩ <;> exact ⟨hi, trivial⟩

theorem owns_request {held : Option (String × Bytes)} {m : DocumentM α} {db : UploadDb ι}
    (h : Owns tasks p m db.metadata) :
    Ok (owningStore tasks) p (fun _ _ => True) (fun _ _ => True) (MetadataClient.request held m) db := by
  refine Ok_lift (S := owning tasks) (Q := fun _ _ => True) UploadDb.metadata
    (fun _ _ _ _ => trivial) (fun _ hi => hi) ?_ (fun _ _ _ => trivial) (fun _ _ _ _ _ _ hi => hi) ?_ m db h
  · rintro o db hp ⟨row, data, rfl⟩
    exact hp ⟨held, row, data, rfl⟩
  · intro o db r db' hx
    rcases hx with ⟨r', metadata, hx, rfl, rfl | rfl⟩ | ⟨rfl, rfl⟩
    · exact hx
    · exact .inr ⟨r', hx⟩
    · exact .inl rfl

theorem owns_start (t : UploadTask) (ht : tasks p = t) {db : UploadDb ι} (hi : Owned db.metadata) :
    Ok (owningStore tasks) p (fun _ _ => True) (fun _ _ => True) (t.prog env) db := by
  cases t with
  | upload docId file request =>
      exact owns_upload (.bind (fun _ => .pure _) (upload_keyed env docId file request)) db
  | metadata task => exact owns_request (owns_task task ht hi)

/-! ## Grants -/

/-- The service's view of the store, with any ACL and any share links. -/
def MetadataDb.policyDb (db : MetadataDb ι) (hu : db.Unique) (aclEntries : List DocumentAcl)
    (shareLinks : List DocumentShareLink) : PolicyDb where
  documents := db.documents
  versions := db.versions
  aclEntries := aclEntries
  shareLinks := shareLinks
  unique := hu

/-- The grant, and the token that `sign` makes of its payload, are for an object of the document and of no other. -/
def OwnGrant (sign : GrantPayload → String) (docId : String) (a : Authorization) : Prop :=
  ∃ payload, a.grantToken = sign payload ∧ a.objectKey = payload.objectKey ∧ payload.docId = docId ∧
    KeyOf docId payload.objectKey ∧ ∀ other, KeyOf other payload.objectKey → other = docId

theorem ownGrant_of_row {db : PolicyDb} {sign : GrantPayload → String} {docId : String} {n : Int}
    {request : PolicyRequest}
    {document : Document} {row : DocumentVersion} {watermark : Option Bool} (hid : document.id = docId)
    (hrow : db.version docId n = some row) (hkeys : ∀ row ∈ db.versions, KeyOf row.docId row.objectKey) :
    OwnGrant sign docId (PolicyService.grant sign (PolicyService.grantPayload request document row watermark)) := by
  obtain ⟨hrow, hdoc, _⟩ := PolicyDb.version_some hrow
  have hkey : KeyOf docId row.objectKey := hdoc ▸ hkeys row hrow
  exact ⟨_, rfl, rfl, hid, hkey, fun other ho => keyOf_inj ho hkey⟩

variable (tasks) in
/-- A request that registers a version is given a key of its document. -/
def OwnKey (_ : UploadConfig ι) (p : ι) (o : UploadOp) : Prop :=
  (∃ held row data, o = .metadata held (.createVersion row data)) → GivenOwn tasks p

section
variable [DecidableEq ι] {c : UploadConfig ι}

theorem reach_owned (hr : Reach UploadExec (OwnKey tasks) (startUploads env tasks) c) : Owned c.store.metadata := by
  have h₀ : Owned (emptyMetadata ι) := ⟨List.nodup_nil, fun _ h => absurd h List.not_mem_nil⟩
  exact (Reach.ok (S := owningStore tasks) (Q := fun _ _ _ => True) (E := fun _ _ _ => True) hr
    (owningStore_closed tasks)
    h₀ (fun p => owns_start (tasks p) rfl h₀) (fun _ _ _ hc => hc) (fun _ _ _ _ _ _ _ => trivial)
    (fun _ _ _ _ _ _ _ => trivial) fun _ _ _ _ _ _ _ _ _ _ _ _ _ => trivial).1

/-- Every version names an object of its document, and so does every grant. -/
theorem grants_own_objects (hr : Reach UploadExec (OwnKey tasks) (startUploads env tasks) c) :
    (∀ row ∈ c.store.metadata.versions, KeyOf row.docId row.objectKey) ∧
      ∃ hu : c.store.metadata.Unique, ∀ (penv : PolicyEnv) (aclEntries : List DocumentAcl)
        (shareLinks : List DocumentShareLink) (docId : String) (dto : GrantDto)
        (request : PolicyRequest) (a : Authorization),
        (PolicyService.authorizeDownload penv (c.store.metadata.policyDb hu aclEntries shareLinks)
          docId dto request = .ok a → OwnGrant (createGrantToken penv) docId a) ∧
        (PolicyService.authorizePreview penv (c.store.metadata.policyDb hu aclEntries shareLinks)
          docId dto request = .ok a → OwnGrant (createPreviewGrantToken penv) docId a) := by
  obtain ⟨hu, hkeys⟩ := reach_owned hr
  refine ⟨hkeys, hu, fun penv aclEntries shareLinks docId dto request a => ⟨fun ha => ?_, fun ha => ?_⟩⟩
  · obtain ⟨document, row, hf, _, hrow, _, _, _, rfl⟩ := PolicyService.authorizeDownload_ok.mp ha
    exact ownGrant_of_row (PolicyService.findInOrg_ok.mp hf).2.1 hrow hkeys
  · obtain ⟨document, row, hf, _, hrow, _, _, rfl⟩ := PolicyService.authorizePreview_ok.mp ha
    exact ownGrant_of_row (PolicyService.findInOrg_ok.mp hf).2.1 hrow hkeys

end

/-! ## A version registered by request -/

def givenDto (objectKey : String) : CreateVersionDto := ⟨1, objectKey, "5e4f", 3, "plan.pdf", none, none⟩

-- The document's first version is registered by request, the second one uploaded.
def givenKey (objectKey : String) : Nat → UploadTask
  | 0 => .metadata (.create {} ownerRequest "d-1")
  | 1 => .metadata (.createVersion "d-1" (givenDto objectKey) ownerRequest)
  | _ => .upload "d-1" (some ⟨"plan v2.pdf", "application/pdf", 2, [1, 2]⟩) ownerRequest

def givenRun (objectKey : String) : UploadConfig Nat :=
  schedule uploadRun (startUploads plainEnv (givenKey objectKey)) [0, 1, 1, 2, 2, 2, 2]

theorem grants_own_objects_sample : ((givenRun "doc/d-1/v1/plan.pdf").store.metadata.versions.map (·.objectKey)) =
      ["doc/d-1/v1/plan.pdf", "doc/d-1/v2/plan-v2.pdf"] ∧
    ∀ row ∈ (givenRun "doc/d-1/v1/plan.pdf").store.metadata.versions, KeyOf row.docId row.objectKey := by
  have hgiven : ∀ p, GivenOwn (givenKey "doc/d-1/v1/plan.pdf") p := by
    intro p docId dto request h
    match p, h with
    | 0, h => cases h
    | n + 2, h => cases h
    | 1, h =>
      obtain ⟨rfl, rfl, _⟩ := DocumentTask.createVersion.inj (UploadTask.metadata.inj h)
      exact ⟨1, "plan.pdf", by decide⟩
  exact ⟨by decide +kernel, (grants_own_objects
    (Reach.schedule uploadRun_exec _ _ .refl (Meets.of (fun _ p _ _ => hgiven p) _ _))).1⟩

theorem given_key_kept : (givenDto "doc/d-2/v1/plan.pdf").accepts = true ∧
    ¬∀ c, Reach UploadExec (fun _ _ _ => True) (startUploads plainEnv (givenKey "doc/d-2/v1/plan.pdf")) c →
      ∀ row ∈ c.store.metadata.versions, KeyOf row.docId row.objectKey := by
  refine ⟨by decide, fun h => ?_⟩
  have hrows := h _ (Reach.schedule uploadRun_exec [0, 1, 1] _ .refl (meets_true _ _))
  have hfirst : ((schedule uploadRun (startUploads plainEnv (givenKey "doc/d-2/v1/plan.pdf")) [0, 1,
    1]).store.metadata.version
      "d-1" 1).map (·.objectKey) = some "doc/d-2/v1/plan.pdf" := by
    decide +kernel
  obtain ⟨row, hrow, hkey⟩ := Option.map_eq_some_iff.mp hfirst
  obtain ⟨hrow, hdoc, _⟩ := version_some hrow
  have hown := hrows row hrow
  rw [hdoc, hkey] at hown
  exact absurd (keyOf_inj hown ⟨1, "plan.pdf", by decide⟩) (by decide : "d-1" ≠ "d-2")

end DocVault
