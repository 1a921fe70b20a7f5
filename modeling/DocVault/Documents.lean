import DocVault.Interleave
import DocVault.Js

/-!
# Documents and their store

The rows of `metadata-service` that carry a document's status and its versions,
what a request brings with it, and the operations the services execute on the
rows one at a time. A write of a row and of its workflow history is one
transaction, and so is the insert of a version with the write of its document.
Each write is logged with its process and the row it found, which no operation reads.
-/

namespace DocVault

open Interleave

/-! ## Rows -/

-- `Date.prototype.getTime()`.
abbrev Time := Int

def DAY_MS : Int := 24 * 60 * 60 * 1000

inductive DocumentStatus where
  | DRAFT
  | PENDING
  | PUBLISHED
  | ARCHIVED
  | DELETED
  deriving DecidableEq

inductive WorkflowAction where
  | SUBMIT
  | APPROVE
  | REJECT
  | ARCHIVE
  | DELETE
  | RETENTION
  deriving DecidableEq

inductive ClassificationLevel where
  | PUBLIC
  | INTERNAL
  | CONFIDENTIAL
  | SECRET
  deriving DecidableEq

inductive DlpStatus where
  | NOT_SCANNED
  | CLEAR
  | DETECTED
  deriving DecidableEq

instance : ToString DocumentStatus where
  toString
    | .DRAFT => "DRAFT"
    | .PENDING => "PENDING"
    | .PUBLISHED => "PUBLISHED"
    | .ARCHIVED => "ARCHIVED"
    | .DELETED => "DELETED"

instance : ToString WorkflowAction where
  toString
    | .SUBMIT => "SUBMIT"
    | .APPROVE => "APPROVE"
    | .REJECT => "REJECT"
    | .ARCHIVE => "ARCHIVE"
    | .DELETE => "DELETE"
    | .RETENTION => "RETENTION"

structure Document where
  id : String
  organizationId : String
  ownerId : String
  classification : ClassificationLevel := .INTERNAL
  dlpStatus : DlpStatus := .NOT_SCANNED
  dlpDetectedAt : Option Time := none
  retentionClass : Option String := none
  retentionUntil : Option Time := none
  retentionReason : Option String := none
  legalHold : Bool := false
  legalHoldReason : Option String := none
  legalHoldBy : Option String := none
  legalHoldAt : Option Time := none
  approvalChain : List String := []
  approvalStep : Nat := 0
  status : DocumentStatus := .DRAFT
  currentVersion : Int := 0
  publishedAt : Option Time := none
  archivedAt : Option Time := none
  deletedAt : Option Time := none
  deriving DecidableEq

structure DocumentVersion where
  docId : String
  version : Int
  objectKey : String
  checksum : String
  size : Int
  filename : String
  contentType : Option String := none
  dlpStatus : DlpStatus := .NOT_SCANNED
  createdBy : String
  deriving DecidableEq

structure DocumentWorkflowHistory where
  docId : String
  fromStatus : DocumentStatus
  toStatus : DocumentStatus
  action : WorkflowAction
  actorId : String
  reason : Option String
  deriving DecidableEq

/-! ## Retention policy -/

structure RetentionPolicy where
  days : Int
  retentionClass : String
  reason : String

def RETENTION_POLICY_BY_CLASSIFICATION : ClassificationLevel → RetentionPolicy
  | .PUBLIC => ⟨730, "PUBLIC_730D", "PUBLIC records are retained for 730 days after publication"⟩
  | .INTERNAL => ⟨365, "INTERNAL_365D", "INTERNAL records are retained for 365 days after publication"⟩
  | .CONFIDENTIAL => ⟨180, "CONFIDENTIAL_180D", "CONFIDENTIAL records are retained for 180 days after publication"⟩
  | .SECRET => ⟨90, "SECRET_90D", "SECRET records are retained for 90 days after publication"⟩

structure RetentionEvidence where
  retentionClass : String
  retentionUntil : Time
  retentionReason : String
  deriving DecidableEq

def buildRetentionEvidence (classification : ClassificationLevel) (publishedAt : Time) : RetentionEvidence :=
  let policy := RETENTION_POLICY_BY_CLASSIFICATION classification
  ⟨policy.retentionClass, publishedAt + policy.days * DAY_MS, policy.reason⟩

/-! ## Requests -/

inductive HttpError where
  | badRequest (message : String)
  | forbidden (message : String)
  | notFound (message : String)
  | conflict (message : String)
  | internal
  deriving DecidableEq

structure ServiceUser where
  sub : Option String
  username : Option String := none
  roles : List String

def buildActorId (user : ServiceUser) : String := user.sub.getD (user.username.getD "unknown")

/-- A request of an authenticated user, with the organization that the user's
membership resolves to and the time on the clock. -/
structure Request where
  user : ServiceUser
  organizationId : Option String
  now : Time

structure RequestContext where
  actorId : String
  roles : List String

def Request.context (request : Request) : RequestContext := ⟨buildActorId request.user, request.user.roles⟩

def hasSome (required roles : List String) : Bool := required.any fun role => roles.contains role

def RolesGuard (required : List String) (user : ServiceUser) : Except HttpError Unit :=
  if hasSome required user.roles then .ok () else .error (.forbidden "Forbidden resource")

theorem hasSome_comm (l m : List String) : hasSome l m = hasSome m l := by
  rw [Bool.eq_iff_iff]
  simp only [hasSome, List.any_eq_true, List.contains_iff_mem]
  constructor <;> rintro ⟨a, ha, hb⟩ <;> exact ⟨a, hb, ha⟩

theorem rolesGuard_ok {required : List String} {user : ServiceUser} {u : Unit} :
    RolesGuard required user = .ok u ↔ hasSome required user.roles = true := by
  unfold RolesGuard
  split <;> simp_all

def requireOrgId (request : Request) : Except HttpError String :=
  match request.organizationId with
  | some organizationId => .ok organizationId
  | none => .error (.forbidden "You are not assigned to any organization. Ask an administrator to add you.")

theorem requireOrgId_ok {request : Request} {organizationId : String} :
    requireOrgId request = .ok organizationId ↔ request.organizationId = some organizationId := by
  unfold requireOrgId
  split <;> simp_all

/-- An admin, and an editor who owns the document. -/
def assertOwnerEditor (refusal ownerId actorId : String) (roles : List String) : Except HttpError Unit :=
  if (!roles.contains "editor" && !roles.contains "admin") || (ownerId ≠ actorId && !roles.contains "admin") then
    .error (.forbidden refusal)
  else .ok ()

/-! ## The store -/

structure LegalHold where
  legalHold : Bool
  legalHoldReason : Option String
  legalHoldBy : Option String
  legalHoldAt : Option Time
  deriving DecidableEq

structure DlpResult where
  dlpStatus : DlpStatus
  dlpDetectedAt : Option Time
  deriving DecidableEq

structure DocumentUpdate where
  status : Option DocumentStatus := none
  publishedAt : Option Time := none
  archivedAt : Option Time := none
  deletedAt : Option (Option Time) := none
  retention : Option RetentionEvidence := none
  approvalChain : Option (List String) := none
  approvalStep : Option Nat := none
  classification : Option ClassificationLevel := none
  legalHold : Option LegalHold := none
  dlp : Option DlpResult := none
  currentVersion : Option Int := none
  deriving DecidableEq

def DocumentUpdate.set (data : DocumentUpdate) (document : Document) : Document :=
  { document with
    status := data.status.getD document.status
    publishedAt := data.publishedAt.orElse fun _ => document.publishedAt
    archivedAt := data.archivedAt.orElse fun _ => document.archivedAt
    deletedAt := data.deletedAt.getD document.deletedAt
    retentionClass := (data.retention.map (·.retentionClass)).orElse fun _ => document.retentionClass
    retentionUntil := (data.retention.map (·.retentionUntil)).orElse fun _ => document.retentionUntil
    retentionReason := (data.retention.map (·.retentionReason)).orElse fun _ => document.retentionReason
    approvalChain := data.approvalChain.getD document.approvalChain
    approvalStep := data.approvalStep.getD document.approvalStep
    classification := data.classification.getD document.classification
    legalHold := (data.legalHold.map (·.legalHold)).getD document.legalHold
    legalHoldReason := (data.legalHold.map (·.legalHoldReason)).getD document.legalHoldReason
    legalHoldBy := (data.legalHold.map (·.legalHoldBy)).getD document.legalHoldBy
    legalHoldAt := (data.legalHold.map (·.legalHoldAt)).getD document.legalHoldAt
    dlpStatus := (data.dlp.map (·.dlpStatus)).getD document.dlpStatus
    dlpDetectedAt := (data.dlp.map (·.dlpDetectedAt)).getD document.dlpDetectedAt
    currentVersion := data.currentVersion.getD document.currentVersion }

/-- `updateDocument` is `document.update`, where the document may have to be
one that is not deleted, in one transaction with its history row if it has one.
`createVersion` inserts the row of a version and updates its document. -/
inductive DocumentOp where
  | findDocument (id organizationId : String)
  | findCandidates
  | findExpired (cutoff : Time)
  | createDocument (document : Document)
  | updateDocument (id : String) (notDeleted : Bool) (data : DocumentUpdate) (row : Option DocumentWorkflowHistory)
  | deleteDocument (id : String)
  | findVersion (docId : String) (version : Int)
  | createVersion (row : DocumentVersion) (data : DocumentUpdate)

/-- The row found or written, or nothing when there is none or the write fails. -/
abbrev DocumentOp.Res : DocumentOp → Type
  | findDocument _ _ => Option Document
  | findCandidates => List Document
  | findExpired _ => List Document
  | createDocument _ => Option Document
  | updateDocument _ _ _ _ => Option Document
  | deleteDocument _ => Option Document
  | findVersion _ _ => Option DocumentVersion
  | createVersion _ _ => Option DocumentVersion

structure Write (ι : Type) where
  process : ι
  op : DocumentOp
  document : Document

structure MetadataDb (ι : Type) where
  documents : List Document
  history : List DocumentWorkflowHistory
  versions : List DocumentVersion
  log : List (Write ι)

section
variable {ι : Type}

def MetadataDb.find (db : MetadataDb ι) (id : String) : Option Document := db.documents.find? (·.id = id)

def MetadataDb.rows (db : MetadataDb ι) (id : String) : List DocumentWorkflowHistory :=
  db.history.filter (·.docId = id)

def MetadataDb.version (db : MetadataDb ι) (docId : String) (version : Int) : Option DocumentVersion :=
  db.versions.find? fun row => row.docId = docId && row.version = version

def MetadataDb.create (db : MetadataDb ι) (p : ι) (document : Document) : MetadataDb ι :=
  { db with
    documents := db.documents ++ [document]
    log := db.log ++ [⟨p, .createDocument document, document⟩] }

def MetadataDb.update (db : MetadataDb ι) (p : ι) (id : String) (notDeleted : Bool) (data : DocumentUpdate)
    (row : Option DocumentWorkflowHistory) (document : Document) : MetadataDb ι where
  documents := db.documents.map fun d => if d.id = id then data.set document else d
  history := db.history ++ row.toList
  versions := db.versions
  log := db.log ++ [⟨p, .updateDocument id notDeleted data row, document⟩]

-- The history rows and the versions of a document are deleted with it.
def MetadataDb.delete (db : MetadataDb ι) (p : ι) (id : String) (document : Document) : MetadataDb ι where
  documents := db.documents.filter (·.id ≠ id)
  history := db.history.filter (·.docId ≠ id)
  versions := db.versions.filter (·.docId ≠ id)
  log := db.log ++ [⟨p, .deleteDocument id, document⟩]

def MetadataDb.createVersion (db : MetadataDb ι) (p : ι) (row : DocumentVersion) (data : DocumentUpdate)
    (document : Document) : MetadataDb ι where
  documents := db.documents.map fun d => if d.id = row.docId then data.set document else d
  history := db.history
  versions := db.versions ++ [row]
  log := db.log ++ [⟨p, .createVersion row data, document⟩]

def MetadataDb.target (db : MetadataDb ι) (id : String) (notDeleted : Bool) : Option Document :=
  (db.find id).filter fun document => !notDeleted || document.status ≠ .DELETED

def isCandidate (document : Document) : Bool :=
  document.status = .PUBLISHED && document.publishedAt.isSome && document.archivedAt.isNone && !document.legalHold

def isExpired (cutoff : Time) (document : Document) : Bool :=
  document.status = .DELETED && document.deletedAt.any (· < cutoff)

/-- The store that answers every read in the order of insertion and fails no write that it need not fail. -/
def documentRun (p : ι) (db : MetadataDb ι) : (o : DocumentOp) → o.Res × MetadataDb ι
  | .findDocument id organizationId => ((db.find id).filter (·.organizationId = organizationId), db)
  | .findCandidates => (db.documents.filter isCandidate, db)
  | .findExpired cutoff => (db.documents.filter (isExpired cutoff), db)
  | .createDocument document =>
    if (db.find document.id).isSome then (none, db) else (some document, db.create p document)
  | .updateDocument id notDeleted data row =>
    match db.target id notDeleted with
    | none => (none, db)
    | some document => (some (data.set document), db.update p id notDeleted data row document)
  | .deleteDocument id =>
    match db.find id with
    | none => (none, db)
    | some document => (some document, db.delete p id document)
  | .findVersion docId version => (db.version docId version, db)
  | .createVersion row data =>
    match db.find row.docId with
    | none => (none, db)
    | some document =>
      if (db.version row.docId row.version).isSome then (none, db)
      else (some row, db.createVersion p row data document)

/-- One operation of process `p` on the store. A write may fail without effect. -/
def DocumentExec : Exec ι (MetadataDb ι) DocumentOp DocumentOp.Res := fun p db o r db' =>
  match o, r with
  | .findDocument id organizationId, r => (r, db') = documentRun p db (.findDocument id organizationId)
  | .findCandidates, r => r.Perm (db.documents.filter isCandidate) ∧ db' = db
  | .findExpired cutoff, r => r.Perm (db.documents.filter (isExpired cutoff)) ∧ db' = db
  | .createDocument document, r => (r, db') = documentRun p db (.createDocument document) ∨ r = none ∧ db' = db
  | .updateDocument id notDeleted data row, r =>
    (r, db') = documentRun p db (.updateDocument id notDeleted data row) ∨ r = none ∧ db' = db
  | .deleteDocument id, r => (r, db') = documentRun p db (.deleteDocument id) ∨ r = none ∧ db' = db
  | .findVersion docId version, r => (r, db') = documentRun p db (.findVersion docId version)
  | .createVersion row data, r => (r, db') = documentRun p db (.createVersion row data) ∨ r = none ∧ db' = db

theorem documentRun_exec (p : ι) (db : MetadataDb ι) (o : DocumentOp) :
    DocumentExec p db o (documentRun p db o).1 (documentRun p db o).2 := by
  cases o with
  | findDocument id organizationId => exact rfl
  | findCandidates => exact ⟨List.Perm.refl _, rfl⟩
  | findExpired cutoff => exact ⟨List.Perm.refl _, rfl⟩
  | createDocument document => exact .inl rfl
  | updateDocument id notDeleted data row => exact .inl rfl
  | deleteDocument id => exact .inl rfl
  | findVersion docId version => exact rfl
  | createVersion row data => exact .inl rfl

/-! ## What an operation does -/

theorem find?_of_nodup {documents : List Document} {document : Document} {f : Document → Bool}
    (hn : (documents.map (·.id)).Nodup) (h : document ∈ documents) (hf : f document = true)
    (hid : ∀ d, f d = true → d.id = document.id) : documents.find? f = some document := by
  obtain ⟨d, hd⟩ := Option.isSome_iff_exists.mp (List.find?_isSome.mpr ⟨document, h, hf⟩)
  rw [hd, List.inj_on_of_nodup_map hn (List.mem_of_find?_eq_some hd) h (hid d (List.find?_some hd))]

theorem find_id {db : MetadataDb ι} {id : String} {document : Document} (h : db.find id = some document) :
    document.id = id := by
  simpa using List.find?_some h

theorem target_find {db : MetadataDb ι} {id : String} {notDeleted : Bool} {document : Document}
    (h : db.target id notDeleted = some document) : db.find id = some document :=
  (Option.filter_eq_some_iff.mp h).1

inductive Writes (p : ι) (db : MetadataDb ι) : DocumentOp → MetadataDb ι → Prop
  | create {document : Document} (new : db.find document.id = none) :
    Writes p db (.createDocument document) (db.create p document)
  | update {id : String} {notDeleted : Bool} {data : DocumentUpdate} {row : Option DocumentWorkflowHistory}
    {document : Document} (found : db.target id notDeleted = some document) :
    Writes p db (.updateDocument id notDeleted data row) (db.update p id notDeleted data row document)
  | delete {id : String} {document : Document} (found : db.find id = some document) :
    Writes p db (.deleteDocument id) (db.delete p id document)
  | createVersion {row : DocumentVersion} {data : DocumentUpdate} {document : Document}
    (found : db.find row.docId = some document) (new : db.version row.docId row.version = none) :
    Writes p db (.createVersion row data) (db.createVersion p row data document)

theorem exec_writes {p : ι} {db db' : MetadataDb ι} {o : DocumentOp} {r : o.Res} (h : DocumentExec p db o r db') :
    db' = db ∨ Writes p db o db' := by
  cases o with
  | findDocument id organizationId => exact .inl (Prod.mk.inj h).2
  | findCandidates => exact .inl h.2
  | findExpired cutoff => exact .inl h.2
  | createDocument document =>
    rcases h with h | ⟨_, h⟩
    · simp only [documentRun] at h
      split at h
      · exact .inl (Prod.mk.inj h).2
      · rename_i hnew
        rw [(Prod.mk.inj h).2]
        exact .inr (.create (by simpa using hnew))
    · exact .inl h
  | updateDocument id notDeleted data row =>
    rcases h with h | ⟨_, h⟩
    · simp only [documentRun] at h
      split at h
      · exact .inl (Prod.mk.inj h).2
      · rename_i document hfound
        rw [(Prod.mk.inj h).2]
        exact .inr (.update hfound)
    · exact .inl h
  | deleteDocument id =>
    rcases h with h | ⟨_, h⟩
    · simp only [documentRun] at h
      split at h
      · exact .inl (Prod.mk.inj h).2
      · rename_i document hfound
        rw [(Prod.mk.inj h).2]
        exact .inr (.delete hfound)
    · exact .inl h
  | findVersion docId version => exact .inl (Prod.mk.inj h).2
  | createVersion row data =>
    rcases h with h | ⟨_, h⟩
    · simp only [documentRun] at h
      split at h
      · exact .inl (Prod.mk.inj h).2
      · rename_i document hfound
        split at h
        · exact .inl (Prod.mk.inj h).2
        · rename_i hnew
          rw [(Prod.mk.inj h).2]
          exact .inr (.createVersion hfound (by simpa using hnew))
    · exact .inl h

theorem DocumentUpdate.set_id (data : DocumentUpdate) (document : Document) :
    (data.set document).id = document.id := rfl

theorem find_create {db : MetadataDb ι} {p : ι} {document : Document}
    (new : db.find document.id = none) (id : String) :
    (db.create p document).find id = if document.id = id then some document else db.find id := by
  unfold MetadataDb.find at *
  rw [MetadataDb.create, List.find?_append]
  by_cases h : document.id = id
  · subst h; simp [new]
  · simp [h]

theorem find_update {db : MetadataDb ι} {p : ι} {id : String} {notDeleted : Bool} {data : DocumentUpdate}
    {row : Option DocumentWorkflowHistory} {document : Document} (found : db.find id = some document)
    (id' : String) : (db.update p id notDeleted data row document).find id' =
      if id = id' then some (data.set document) else db.find id' := by
  have hid : (data.set document).id = id := (data.set_id document).trans (find_id found)
  unfold MetadataDb.find at *
  simp only [MetadataDb.update, List.find?_map]
  by_cases h : id = id'
  · subst h
    rw [if_pos rfl]
    have heq : ((fun d : Document => decide (d.id = id)) ∘ fun d => if d.id = id then data.set document else d) =
        fun d => decide (d.id = id) := by
      funext d
      by_cases hd : d.id = id <;> simp [hd, hid]
    have hdoc : document.id = id := by simpa using List.find?_some found
    rw [heq, found, Option.map_some, if_pos hdoc]
  · rw [if_neg h]
    have heq : ((fun d : Document => decide (d.id = id')) ∘ fun d => if d.id = id then data.set document else d) =
        fun d => decide (d.id = id') := by
      funext d
      by_cases hd : d.id = id
      · have : d.id ≠ id' := by rw [hd]; exact h
        simp [hd, hid, h]
      · simp [hd]
    rw [heq]
    cases hf : db.documents.find? fun d => decide (d.id = id') with
    | none => rfl
    | some d =>
      have hd : d.id = id' := by simpa using List.find?_some hf
      have hne : d.id ≠ id := fun e => h (e.symm.trans hd)
      simp [hne]

theorem find_delete {db : MetadataDb ι} {p : ι} {id : String} {document : Document} (id' : String) :
    (db.delete p id document).find id' = if id = id' then none else db.find id' := by
  simp only [MetadataDb.find, MetadataDb.delete, List.find?_filter]
  by_cases h : id = id'
  · subst h
    rw [if_pos rfl, List.find?_eq_none]
    intro d _
    simp
  · rw [if_neg h]
    congr 1
    funext d
    by_cases hd : d.id = id'
    · have : d.id ≠ id := fun e => h (e.symm.trans hd)
      simp [hd, Ne.symm h]
    · simp [hd]

theorem find_createVersion {db : MetadataDb ι} {p : ι} {row : DocumentVersion} {data : DocumentUpdate}
    {document : Document} (found : db.find row.docId = some document) (id' : String) :
    (db.createVersion p row data document).find id' =
      if row.docId = id' then some (data.set document) else db.find id' :=
  @find_update ι db p _ false data none document found id'

theorem rows_create (db : MetadataDb ι) (p : ι) (document : Document) (id : String) :
    (db.create p document).rows id = db.rows id := rfl

theorem rows_update (db : MetadataDb ι) (p : ι) (id : String) (notDeleted : Bool) (data : DocumentUpdate)
    (row : Option DocumentWorkflowHistory) (document : Document) (id' : String) :
    (db.update p id notDeleted data row document).rows id' =
      db.rows id' ++ row.toList.filter fun r => decide (r.docId = id') :=
  List.filter_append ..

theorem rows_delete (db : MetadataDb ι) (p : ι) (id : String) (document : Document) (id' : String) :
    (db.delete p id document).rows id' = if id = id' then [] else db.rows id' := by
  simp only [MetadataDb.rows, MetadataDb.delete, List.filter_filter]
  by_cases h : id = id'
  · subst h
    rw [if_pos rfl, List.filter_eq_nil_iff]
    intro row _
    simp
  · rw [if_neg h]
    refine List.filter_congr fun row _ => ?_
    by_cases hr : row.docId = id'
    · have : row.docId ≠ id := fun e => h (e.symm.trans hr)
      simp [hr, Ne.symm h]
    · simp [hr]

theorem version_some {db : MetadataDb ι} {docId : String} {n : Int} {row : DocumentVersion}
    (h : db.version docId n = some row) : row ∈ db.versions ∧ row.docId = docId ∧ row.version = n := by
  have hp := List.find?_some h
  simp only [Bool.and_eq_true, decide_eq_true_eq] at hp
  exact ⟨List.mem_of_find?_eq_some h, hp⟩

theorem version_createVersion {db : MetadataDb ι} {p : ι} {row : DocumentVersion} {data : DocumentUpdate}
    {document : Document} (new : db.version row.docId row.version = none) (docId : String) (n : Int) :
    (db.createVersion p row data document).version docId n =
      if row.docId = docId ∧ row.version = n then some row else db.version docId n := by
  unfold MetadataDb.version at *
  rw [MetadataDb.createVersion, List.find?_append]
  by_cases h : row.docId = docId ∧ row.version = n
  · obtain ⟨rfl, rfl⟩ := h
    simp [new]
  · rw [if_neg h, List.find?_cons_of_neg (by simpa using h), List.find?_nil, Option.or_none]

theorem version_delete {db : MetadataDb ι} {p : ι} {id : String} {document : Document} (docId : String) (n : Int) :
    (db.delete p id document).version docId n = if id = docId then none else db.version docId n := by
  simp only [MetadataDb.version, MetadataDb.delete, List.find?_filter]
  by_cases h : id = docId
  · subst h
    rw [if_pos rfl, List.find?_eq_none]
    intro row _
    simp +contextual
  · rw [if_neg h]
    congr 1
    funext row
    by_cases hr : row.docId = docId
    · have : row.docId ≠ id := fun e => h (e.symm.trans hr)
      simp [hr, Ne.symm h]
    · simp [hr]

end

abbrev DocumentM := Prog DocumentOp DocumentOp.Res HttpError

abbrev findDocument (id organizationId : String) : DocumentM (Option Document) :=
  Prog.op (DocumentOp.findDocument id organizationId)

abbrev updateDocument (id : String) (notDeleted : Bool) (data : DocumentUpdate)
    (row : Option DocumentWorkflowHistory) : DocumentM (Option Document) :=
  Prog.op (DocumentOp.updateDocument id notDeleted data row)

/-- `document.update` throws when it finds no row. -/
def updated {α : Type} (result : Option α) : Except HttpError α :=
  match result with
  | some row => .ok row
  | none => .error .internal

-- A document of another organization is not found.
def findInOrg (docId : String) (request : Request) : DocumentM Document := do
  let organizationId ← Prog.ofExcept (requireOrgId request)
  match ← findDocument docId organizationId with
  | none => .throw (.notFound "Document not found")
  | some document => pure document

end DocVault
