import DocVault.Workflow

/-!
# Uploads

`DocumentsService.upload` of `document-service`: it reads the document from
`metadata-service`, puts the file into the object storage under a key made of
the document, the next version and the file's name, registers the version, and
deletes the object again if that fails. Every call to the other service and to
the storage can fail, with or without effect. Hashing and the two scanners are
parameters (`UploadEnv`).
-/

namespace DocVault

open Interleave

structure UploadedFile where
  originalname : String
  mimetype : String
  size : Int
  buffer : Bytes

structure UploadEnv where
  sha256Hex : Bytes → String
  malwareClean : Bytes → Bool
  dlpStatus : Bytes → String → DlpStatus

/-! ## Object keys -/

def isSafe (c : Char) : Bool :=
  ('a' ≤ c && c ≤ 'z') || ('A' ≤ c && c ≤ 'Z') || ('0' ≤ c && c ≤ '9') || c = '.' || c = '_' || c = '-'

-- The expression replaces UTF-16 code units.
def safeFilename (filename : String) : String :=
  String.ofList (filename.toList.flatMap fun c => if isSafe c then [c] else (utf16Units c).map fun _ => '-')

def buildObjectKey (docId : String) (version : Int) (filename : String) : String :=
  s!"doc/{docId}/v{version}/{safeFilename filename}"

theorem split_last {α : Type} {c : α} {a b s t : List α} (hs : c ∉ s) (ht : c ∉ t) (h : a ++ c :: s = b ++ c :: t) :
    a = b ∧ s = t := by
  rcases List.append_eq_append_iff.mp h with ⟨m, rfl, hm⟩ | ⟨m, rfl, hm⟩ <;> cases m with
  | nil => simpa [eq_comm] using hm
  | cons x m =>
    obtain ⟨rfl, rfl⟩ := List.cons.inj hm
    simp at hs ht

theorem not_mem_repr {c : Char} (hc : c.isDigit = false) (n : Nat) : c ∉ n.repr.toList := by
  rw [Nat.toList_repr]
  exact fun h => absurd (Nat.isDigit_of_mem_toDigits (by omega) (by omega) h) (by simp [hc])

theorem slash_not_mem_toString (n : Int) : '/' ∉ (toString n).toList := by
  cases n with
  | ofNat n => exact not_mem_repr rfl n
  | negSucc n =>
    show '/' ∉ ("-" ++ (n + 1).repr).toList
    rw [String.toList_append]
    simpa using not_mem_repr rfl (n + 1)

theorem repr_inj {m n : Nat} (h : m.repr = n.repr) : m = n := by
  have hdigits := congrArg String.toList h
  rw [Nat.toList_repr, Nat.toList_repr] at hdigits
  simpa [Nat.ofDigitChars_ten_toDigits] using congrArg (Nat.ofDigitChars 10 · 0) hdigits

theorem toString_int_inj {m n : Int} (h : toString m = toString n) : m = n := by
  have hneg : ∀ a b : Nat, a.repr ≠ "-" ++ b.repr := by
    intro a b h
    refine not_mem_repr (c := '-') rfl a ?_
    rw [h, String.toList_append]
    simp
  cases m with
  | ofNat m =>
    cases n with
    | ofNat n => rw [repr_inj h]
    | negSucc n => exact absurd h (hneg m (n + 1))
  | negSucc m =>
    cases n with
    | ofNat n => exact absurd h.symm (hneg n (m + 1))
    | negSucc n =>
      have h : "-" ++ (m + 1).repr = "-" ++ (n + 1).repr := h
      have h : m + 1 = n + 1 := repr_inj (by simpa [← String.toList_inj] using h)
      rw [Nat.succ.inj h]

theorem slash_not_mem_safeFilename (filename : String) : '/' ∉ (safeFilename filename).toList := by
  intro h
  simp only [safeFilename, String.toList_ofList, List.mem_flatMap] at h
  obtain ⟨c, _, hc⟩ := h
  split at hc
  · rename_i hsafe
    obtain rfl := List.mem_singleton.mp hc
    exact absurd hsafe (by decide)
  · obtain ⟨_, _, hc⟩ := List.mem_map.mp hc
    exact absurd hc (by decide)

/-- A key tells its document and its version. -/
theorem buildObjectKey_inj {docId docId' filename filename' : String} {version version' : Int}
    (h : buildObjectKey docId version filename = buildObjectKey docId' version' filename') :
    docId = docId' ∧ version = version' := by
  have hlist : ∀ docId version filename, (buildObjectKey docId version filename).toList = "doc/".toList ++
      ((docId.toList ++ '/' :: 'v' :: (toString version).toList) ++ '/' :: (safeFilename filename).toList) := by
    intro docId version filename
    show ("doc/" ++ docId ++ "/v" ++ toString version ++ "/" ++ safeFilename filename).toList = _
    simp
  have hkey := congrArg String.toList h
  rw [hlist, hlist] at hkey
  obtain ⟨hdir, _⟩ := split_last (slash_not_mem_safeFilename _) (slash_not_mem_safeFilename _)
    (List.append_cancel_left hkey)
  have hv : ∀ version : Int, '/' ∉ 'v' :: (toString version).toList := by
    intro version h
    rcases List.mem_cons.mp h with h | h
    · exact absurd h (by decide)
    · exact slash_not_mem_toString version h
  obtain ⟨hdoc, hversion⟩ := split_last (hv _) (hv _) hdir
  have hversion : toString version = toString version' := String.toList_inj.mp (List.cons.inj hversion).2
  exact ⟨String.toList_inj.mp hdoc, toString_int_inj hversion⟩

/-! ## The storage and its operations -/

/-- `metadata` is an operation that `metadata-service` executes for the caller;
`registering` names the object that the caller has put and is registering
there, which the operation does not read. -/
inductive UploadOp where
  | metadata (registering : Option (String × Bytes)) (o : DocumentOp)
  | putObject (objectKey : String) (body : Bytes)
  | deleteObject (objectKey : String)

/-- The answer of `metadata-service`, or nothing when the call fails, and whether the storage reports success. -/
abbrev UploadOp.Res : UploadOp → Type
  | metadata _ o => Option o.Res
  | putObject _ _ => Bool
  | deleteObject _ => Bool

def UploadOp.registering : UploadOp → Option (String × Bytes)
  | metadata held _ => held
  | _ => none

/-- The object that the operation puts, registers or deletes. -/
def UploadOp.objectKey : UploadOp → Option String
  | metadata held _ => held.map Prod.fst
  | putObject objectKey _ | deleteObject objectKey => some objectKey

structure UploadDb (ι : Type) where
  metadata : MetadataDb ι
  objects : String → Option Bytes

section
variable {ι : Type}

def UploadDb.put (db : UploadDb ι) (objectKey : String) (body : Bytes) : UploadDb ι :=
  { db with objects := Function.update db.objects objectKey (some body) }

def UploadDb.remove (db : UploadDb ι) (objectKey : String) : UploadDb ι :=
  { db with objects := Function.update db.objects objectKey none }

/-- The store in which no call fails that need not fail. -/
def uploadRun (p : ι) (db : UploadDb ι) : (o : UploadOp) → o.Res × UploadDb ι
  | .metadata _ o => (some (documentRun p db.metadata o).1, { db with metadata := (documentRun p db.metadata o).2 })
  | .putObject objectKey body => (true, db.put objectKey body)
  | .deleteObject objectKey => (true, db.remove objectKey)

/-- One operation of process `p`. A call that fails may have had its effect. -/
def UploadExec : Exec ι (UploadDb ι) UploadOp UploadOp.Res := fun p db o r db' =>
  match o, r with
  | .metadata _ o, r => (∃ r' metadata, DocumentExec p db.metadata o r' metadata ∧
      db' = { db with metadata := metadata } ∧ (r = some r' ∨ r = none)) ∨ r = none ∧ db' = db
  | .putObject objectKey body, r => db' = db.put objectKey body ∨ r = false ∧ db' = db
  | .deleteObject objectKey, r => db' = db.remove objectKey ∨ r = false ∧ db' = db

theorem uploadRun_exec (p : ι) (db : UploadDb ι) (o : UploadOp) :
    UploadExec p db o (uploadRun p db o).1 (uploadRun p db o).2 := by
  cases o with
  | metadata _ o => exact .inl ⟨_, _, documentRun_exec p db.metadata o, rfl, .inl rfl⟩
  | putObject objectKey body => exact .inl rfl
  | deleteObject objectKey => exact .inl rfl

end

abbrev UploadM (α : Type) : Type := Prog UploadOp UploadOp.Res HttpError α

/-! ## document-service -/

namespace MetadataClient

def request (registering : Option (String × Bytes)) {α : Type} (m : DocumentM α) : UploadM α :=
  m.lift (UploadOp.metadata registering) fun _ answer =>
    match answer with
    | some r => .ok r
    | none => .error .internal

def getDocument (docId : String) (request : Request) : UploadM Document :=
  MetadataClient.request none (DocumentsController.findOne docId request)

-- The body is validated before the route is taken.
def createVersion (registering : String × Bytes) (docId : String) (dto : CreateVersionDto) (request : Request) :
    UploadM DocumentVersion := do
  let _ ← Prog.ofExcept (if dto.accepts then .ok () else .error (.badRequest "Bad Request"))
  MetadataClient.request (some registering) (DocumentsController.createVersion docId dto request)

end MetadataClient

namespace UploadService

def requireFile (file : Option UploadedFile) : Except HttpError UploadedFile :=
  match file with
  | none => .error (.badRequest "File is required")
  | some file => .ok file

def assertCanUpload (ownerId : String) (user : ServiceUser) : Except HttpError Unit :=
  assertOwnerEditor "Only the owner editor or admin can upload document blobs" ownerId
    (buildActorId user) user.roles

def malwareGuard (env : UploadEnv) (file : UploadedFile) : Except HttpError Unit :=
  if env.malwareClean file.buffer then .ok () else .error (.badRequest "Malware detected in upload")

def putGuard (stored : Bool) : Except HttpError Unit := if stored then .ok () else .error .internal

def versionDto (env : UploadEnv) (docId : String) (document : Document) (file : UploadedFile) :
    CreateVersionDto where
  version := document.currentVersion + 1
  objectKey := buildObjectKey docId (document.currentVersion + 1) file.originalname
  checksum := env.sha256Hex file.buffer
  size := file.size
  filename := file.originalname
  contentType := some file.mimetype
  dlpStatus := some (env.dlpStatus file.buffer file.mimetype)

/-- The answer of the registration; when it fails, the object goes before the error is thrown on. -/
def settle (objectKey : String) (result : Except HttpError DocumentVersion) : UploadM DocumentVersion :=
  match result with
  | .ok versionRecord => pure versionRecord
  | .error error => do
    let _ ← Prog.op (UploadOp.deleteObject objectKey)
    .throw error

def upload (env : UploadEnv) (docId : String) (file : Option UploadedFile) (request : Request) :
    UploadM DocumentVersion := do
  let file ← Prog.ofExcept (requireFile file)
  let document ← MetadataClient.getDocument docId request
  let _ ← Prog.ofExcept (assertCanUpload document.ownerId request.user)
  let _ ← Prog.ofExcept (malwareGuard env file)
  let dto := versionDto env docId document file
  let stored ← Prog.op (UploadOp.putObject dto.objectKey file.buffer)
  let _ ← Prog.ofExcept (putGuard stored)
  let result ← (MetadataClient.createVersion (dto.objectKey, file.buffer) docId dto request).attempt
  settle dto.objectKey result

end UploadService

namespace UploadController

def upload (env : UploadEnv) (docId : String) (file : Option UploadedFile) (request : Request) :
    UploadM DocumentVersion := do
  let _ ← Prog.ofExcept (RolesGuard ["editor", "admin"] request.user)
  UploadService.upload env docId file request

end UploadController

/-! ## Uploads among the requests to metadata-service -/

inductive UploadTask where
  | upload (docId : String) (file : Option UploadedFile) (request : Request)
  | metadata (task : DocumentTask)

def UploadTask.isUpload : UploadTask → Bool
  | upload _ _ _ => true
  | metadata _ => false

def UploadTask.prog (env : UploadEnv) : UploadTask → UploadM DocumentOutcome
  | upload docId file request => do
    let row ← UploadController.upload env docId file request
    pure (.version row)
  | metadata task => MetadataClient.request none task.prog

def startUploads {ι : Type} (env : UploadEnv) (tasks : ι → UploadTask) :
    Config ι (UploadDb ι) UploadOp UploadOp.Res HttpError DocumentOutcome :=
  ⟨⟨emptyMetadata ι, fun _ => none⟩, fun p => (tasks p).prog env⟩

end DocVault
