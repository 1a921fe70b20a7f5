import DocVault.AclEntries
import DocVault.Ledger
import DocVault.TenantRoutes

/-!
# ACL entries under concurrent requests

`AclService` and its routes as programs over the table of ACL entries: a request
asks for the document and for the entry, and writes afterwards. What the table
tells of the requests, and what the requests may do to the decisions of
`PolicyService`.
-/

namespace DocVault

open Interleave

/-! ## Decisions look at one document's entries -/

namespace PolicyDecision

theorem run_acl {env : PolicyEnv} {db : PolicyDb} {docId : String} {request : PolicyRequest}
    {decision : PolicyDecision} {entries entries' : List DocumentAcl}
    (h : (db.withEntries entries).acl docId = (db.withEntries entries').acl docId) :
    decision.run env (db.withEntries entries) docId request =
      decision.run env (db.withEntries entries') docId request := by
  have hfind : ∀ es, PolicyService.findInOrg (db.withEntries es) docId request =
    PolicyService.findInOrg db docId request := fun _ => rfl
  cases hf : PolicyService.findInOrg db docId request with
  | error e =>
    cases decision <;>
      simp only [run, PolicyService.authorizeDownload, PolicyService.authorizePreview,
        PolicyService.assertCanReadMetadata, hfind, hf] <;> rfl
  | ok document =>
    obtain rfl : document.id = docId := (PolicyService.findInOrg_ok.mp hf).2.1
    cases decision <;>
      simp only [run, PolicyService.authorizeDownload, PolicyService.authorizePreview,
        PolicyService.assertCanReadMetadata, hfind, hf, h, bind, Except.bind] <;> rfl

end PolicyDecision

namespace AclService

/-! ## What is sent to the audit log -/

inductive AclValue where
  | text (s : String)
  | subjectType (t : AclSubjectType)
  | subjectId (id : Option String)
  | permission (permission : DocumentPermission)
  | effect (effect : AclEffect)
  deriving DecidableEq

structure AclEvent where
  action : String
  resourceType : String := "DOCUMENT"
  resourceId : String
  result : String := "SUCCESS"
  metadata : List (String × AclValue)
  deriving DecidableEq

def updatedEvent (docId : String) (aclEntry : DocumentAclRow) : AclEvent where
  action := "DOCUMENT_ACL_UPDATED"
  resourceId := docId
  metadata := [("docId", .text docId), ("aclId", .text aclEntry.id),
    ("subjectType", .subjectType aclEntry.subjectType),
    ("subjectId", .subjectId aclEntry.subjectId), ("permission", .permission aclEntry.permission),
    ("effect", .effect aclEntry.effect)]

def deletedEvent (docId : String) (aclEntry : DocumentAclRow) (removedBy : String) : AclEvent where
  action := "DOCUMENT_ACL_DELETED"
  resourceId := docId
  metadata := [("docId", .text docId), ("removedAclId", .text aclEntry.id),
    ("removedSubjectId", .subjectId aclEntry.subjectId), ("removedSubjectType", .subjectType aclEntry.subjectType),
    ("removedPermission", .permission aclEntry.permission), ("removedEffect", .effect aclEntry.effect),
    ("removedBy", .text removedBy)]

/-! ## The table -/

/-- What the documents keep whatever happens to them, and what the policy may answer. -/
structure AclWorld where
  home : String → String
  owner : String → String
  canRead : String → PolicyRequest → Except HttpError Unit → Prop

inductive AclAsk where
  | document (docId organizationId : String)
  | canRead (docId : String) (request : PolicyRequest)

abbrev AclAsk.Answer : AclAsk → Type
  | .document _ _ => Option Document
  | .canRead _ _ => Except HttpError Unit

inductive AclQuery where
  | one (aclId : String)
  | all (docId : String)

def AclWorld.answers (world : AclWorld) : (q : AclAsk) → q.Answer → Prop
  | .document docId organizationId, r => ∀ document, r = some document →
      document.id = docId ∧ document.organizationId = organizationId ∧
        organizationId = world.home docId ∧ document.ownerId = world.owner docId
  | .canRead docId request, r => world.canRead docId request r

/-- The entries. An entry is never changed. -/
def aclDesk (world : AclWorld) : Ledger.Desk where
  Row := DocumentAclRow
  Key := String
  Fixed := DocumentAclRow
  Query := AclQuery
  Patch := Empty
  Note := AclEvent
  Ask := AclAsk
  Answer := AclAsk.Answer
  key := fun row => row.id
  fixed := id
  selects q row := match q with
    | .one aclId => row.id = aclId
    | .all docId => row.docId = docId
  order q a b := match q with
    | .one _ => True
    | .all _ => a.id ≤ b.id
  patch c _ := nomatch c
  answers := world.answers
  key_patch c _ := nomatch c
  fixed_patch c _ := nomatch c

instance (world : AclWorld) : DecidableEq (aclDesk world).Key := inferInstanceAs (DecidableEq String)

/-! ## The routes -/

inductive AclTask where
  | upsert (docId : String) (dto : UpsertAclDto) (aclId : String)
  | list (docId : String)
  | delete (docId aclId : String)

def AclTask.docId : AclTask → String
  | .upsert docId _ _ => docId
  | .list docId => docId
  | .delete docId _ => docId

inductive AclOutcome where
  | created (aclEntry : DocumentAclRow)
  | listed (entries : List DocumentAclRow)
  | deleted

section
variable {world : AclWorld}

abbrev AclM (world : AclWorld) := Prog (Ledger.Op (aclDesk world)) Ledger.Op.Res HttpError

abbrev askDocument (docId organizationId : String) : AclM world (Option Document) :=
  .call (Ledger.Op.ask (AclAsk.document docId organizationId)) .ret

abbrev askCanRead (docId : String) (request : PolicyRequest) : AclM world (Except HttpError Unit) :=
  .call (Ledger.Op.ask (AclAsk.canRead docId request)) .ret

abbrev emitEvent (event : AclEvent) : AclM world Unit := Prog.op (Ledger.Op.note event)

def foundDocument (found : Option Document) : Except HttpError Document :=
  match found with
  | some document => .ok document
  | none => .error (.notFound "Document not found")

-- The guards of `upsert` and `delete`, up to the entry.
def managed (docId : String) (request : PolicyRequest) : AclM world Unit := do
  let _ ← Prog.ofExcept (RolesGuard ["editor", "admin"] request.user)
  let organizationId ← Prog.ofExcept (requireOrgId request.toRequest)
  let found ← askDocument docId organizationId
  let document ← Prog.ofExcept (foundDocument found)
  Prog.ofExcept (assertCanManage document.ownerId request.user)

def upsertAcl (docId : String) (dto : UpsertAclDto) (aclId : String) (request : PolicyRequest) :
    AclM world AclOutcome := do
  let _ ← managed docId request
  let _ ← Prog.ofExcept (subjectGuard dto)
  let aclEntry := newEntry docId dto aclId
  let created ← Prog.op (Ledger.Op.create aclEntry)
  match created with
  | false => .throw .internal
  | true => do
    let _ ← emitEvent (updatedEvent docId aclEntry)
    pure (.created aclEntry)

def listAcl (docId : String) (request : PolicyRequest) : AclM world AclOutcome := do
  let _ ← Prog.ofExcept (RolesGuard ["editor", "approver", "compliance_officer", "admin"] request.user)
  let readable ← askCanRead docId request
  let _ ← Prog.ofExcept readable
  let entries ← Prog.op (Ledger.Op.findMany (AclQuery.all docId))
  pure (.listed entries)

def deleteAcl (docId aclId : String) (request : PolicyRequest) : AclM world AclOutcome := do
  let _ ← managed docId request
  let found ← Prog.op (Ledger.Op.findFirst (AclQuery.one aclId))
  let aclEntry ← Prog.ofExcept (entryOf docId found)
  let deleted ← Prog.op (Ledger.Op.delete aclId)
  match deleted with
  | none => .throw .internal
  | some _ => do
    let _ ← emitEvent (deletedEvent docId aclEntry (buildActorId request.user))
    pure .deleted

def AclTask.prog (request : PolicyRequest) : AclTask → AclM world AclOutcome
  | .upsert docId dto aclId => upsertAcl docId dto aclId request
  | .list docId => listAcl docId request
  | .delete docId aclId => deleteAcl docId aclId request

/-! ## What is due of a request -/

section
variable {ι : Type} (world : AclWorld) (origin : String → DocumentAclRow) (requests : ι → PolicyRequest)
  (tasks : ι → AclTask)

/-- The caller is the owner of the document, as an editor, or an admin, of the document's organization. -/
def Manages (request : PolicyRequest) (docId : String) : Prop :=
  requireOrgId request.toRequest = .ok (world.home docId) ∧
    (buildActorId request.user = world.owner docId ∧ request.user.roles.contains "editor" = true ∨
      request.user.roles.contains "admin" = true)

/-- The changes that the request of `p` may make. -/
def Due (p : ι) : Ledger.Change DocumentAclRow String → Prop
  | .insert row => ∃ docId dto, tasks p = .upsert docId dto row.id ∧ row = newEntry docId dto row.id ∧
      subjectGuard dto = .ok () ∧ Manages world (requests p) docId
  | .put _ => False
  | .remove k => ∃ docId, tasks p = .delete docId k ∧ (origin k).docId = docId ∧ Manages world (requests p) docId

/-- What the request of `p` tells the audit log of a change. -/
def eventOf (p : ι) : Ledger.Change DocumentAclRow String → AclEvent
  | .insert row => updatedEvent row.docId row
  | .put row => updatedEvent row.docId row
  | .remove k => deletedEvent (origin k).docId (origin k) (buildActorId (requests p).user)

def aclDuty : Ledger.Duty ι (aclDesk world) where
  origin := origin
  due := Due world origin requests tasks
  told p w event := ∃ change, w = [change] ∧ event = eventOf origin requests p change

/-- The changes that belong to an answer. -/
def Answers : AclTask → AclOutcome → List (Ledger.Change DocumentAclRow String) → Prop
  | .upsert _ _ _, .created aclEntry, w => w = [.insert aclEntry]
  | .list docId, .listed entries, w => w = [] ∧ ∀ aclEntry ∈ entries, aclEntry.docId = docId
  | .delete _ aclId, .deleted, w => w = [.remove aclId]
  | _, _, _ => False

end

/-! ## Every route keeps to its changes -/

section
variable {ι : Type} {origin : String → DocumentAclRow} {requests : ι → PolicyRequest} {tasks : ι → AclTask} {p : ι}

abbrev GuardedRoute (world : AclWorld) (origin : String → DocumentAclRow) (requests : ι → PolicyRequest)
    (tasks : ι → AclTask) (p : ι) : AclM world AclOutcome → Prop :=
  Ledger.Guarded (aclDuty world origin requests tasks) p (Answers (tasks p)) []

theorem manages_of_ok {docId ownerId organizationId : String} {request : PolicyRequest}
    (horg : requireOrgId request.toRequest = .ok organizationId) (hhome : organizationId = world.home docId)
    (howner : ownerId = world.owner docId) (h : assertCanManage ownerId request.user = .ok ()) :
    Manages world request docId := by
  refine ⟨hhome ▸ horg, ?_⟩
  unfold assertCanManage assertOwnerEditor at h
  split at h
  · cases h
  · rename_i hnot
    rw [← howner]
    by_cases hadmin : request.user.roles.contains "admin" = true
    · exact .inr hadmin
    · rw [Bool.not_eq_true] at hadmin
      simp only [hadmin, Bool.not_false, Bool.and_true, Bool.or_eq_true, Bool.not_eq_true',
        decide_eq_true_eq, not_or, Bool.not_eq_false, ne_eq, not_not] at hnot
      exact .inl ⟨hnot.2.symm, hnot.1⟩

theorem guarded_managed {docId : String} {request : PolicyRequest} {f : Unit → AclM world AclOutcome}
    (h : Manages world request docId → GuardedRoute world origin requests tasks p (f ())) :
    GuardedRoute world origin requests tasks p (managed docId request >>= f) := by
  refine Ledger.Guarded.bind (Q := fun _ w => w = [] ∧ Manages world request docId)
    (fun _ w hw => by obtain ⟨rfl, hm⟩ := hw; exact h hm) ?_
  unfold managed
  refine Ledger.Guarded.bind (Q := fun _ w => w = []) (fun _ w hw => ?_) (Ledger.guarded_ofExcept _ fun _ _ => rfl)
  subst hw
  refine Ledger.Guarded.bind (Q := fun organizationId w =>
    w = [] ∧ requireOrgId request.toRequest = .ok organizationId)
    (fun organizationId w hw => ?_) (Ledger.guarded_ofExcept _ fun _ horg => ⟨rfl, horg⟩)
  obtain ⟨rfl, horg⟩ := hw
  intro found hfound
  cases found with
  | none => trivial
  | some document =>
    obtain ⟨-, -, hhome, howner⟩ := hfound document rfl
    exact Ledger.guarded_ofExcept _ fun _ hok => ⟨rfl, manages_of_ok horg hhome howner hok⟩

theorem guarded_upsert {docId aclId : String} {dto : UpsertAclDto} (ht : tasks p = .upsert docId dto aclId)
    (ho : newEntry docId dto aclId = origin aclId) :
    GuardedRoute world origin requests tasks p (upsertAcl docId dto aclId (requests p)) := by
  refine guarded_managed fun hm => ?_
  refine Ledger.Guarded.bind (Q := fun _ w => w = [] ∧ subjectGuard dto = .ok ()) (fun _ w hw => ?_)
    (Ledger.guarded_ofExcept _ fun _ hok => ⟨rfl, hok⟩)
  obtain ⟨rfl, hok⟩ := hw
  refine ⟨rfl, ⟨docId, dto, ht, rfl, hok, hm⟩, ho, ⟨⟨_, rfl, rfl⟩, ?_⟩, trivial⟩
  rw [ht]
  exact rfl

theorem guarded_list {docId : String} (ht : tasks p = .list docId) (request : PolicyRequest) :
    GuardedRoute world origin requests tasks p (listAcl docId request) := by
  refine Ledger.Guarded.bind (Q := fun _ w => w = []) (fun _ w hw => ?_) (Ledger.guarded_ofExcept _ fun _ _ => rfl)
  subst hw
  intro readable _
  cases readable with
  | error e => trivial
  | ok _ =>
    intro entries hsel
    rw [ht]
    exact ⟨rfl, fun aclEntry hm => of_decide_eq_true (hsel aclEntry hm).1⟩

theorem entryOf_ok {docId : String} {found : Option DocumentAclRow} {aclEntry : DocumentAclRow}
    (h : entryOf docId found = .ok aclEntry) : found = some aclEntry ∧ aclEntry.docId = docId := by
  unfold entryOf at h
  split at h
  · split at h
    · cases h
    · rename_i hdoc
      obtain rfl := Except.ok.inj h
      exact ⟨rfl, not_not.mp hdoc⟩
  · cases h

theorem guarded_delete {docId aclId : String} (ht : tasks p = .delete docId aclId) :
    GuardedRoute world origin requests tasks p (deleteAcl docId aclId (requests p)) := by
  refine guarded_managed fun hm => ⟨trivial, fun row hsel hknown => ?_⟩
  refine Ledger.Guarded.bind (Q := fun aclEntry w => w = [] ∧ aclEntry = row ∧ row.docId = docId)
    (fun aclEntry w hw => ?_) (Ledger.guarded_ofExcept _ fun aclEntry hok => ?_)
  · obtain ⟨rfl, rfl, hdoc⟩ := hw
    obtain rfl : aclEntry.id = aclId := of_decide_eq_true hsel
    have hrow : aclEntry = origin aclEntry.id := hknown
    have hdue : Due world origin requests tasks p (.remove aclEntry.id) :=
      ⟨docId, ht, (congrArg (fun row => row.docId) hrow.symm).trans hdoc, hm⟩
    refine ⟨rfl, hdue, fun _ _ _ => ⟨⟨_, rfl, ?_⟩, ?_⟩, trivial⟩
    · simp only [eventOf, ← hrow, hdoc]
      rfl
    · rw [ht]
      exact rfl
  · obtain ⟨hsome, hdoc⟩ := entryOf_ok hok
    obtain rfl := Option.some.inj hsome
    exact ⟨rfl, rfl, hdoc⟩

/-- The ids name one entry each: of the start, or of one request to create it. -/
def Drawn (origin : String → DocumentAclRow) (start : List DocumentAclRow) (tasks : ι → AclTask) : Prop :=
  (∀ row ∈ start, row = origin row.id) ∧
    ∀ p docId dto aclId, tasks p = .upsert docId dto aclId → newEntry docId dto aclId = origin aclId

theorem guarded_task {start : List DocumentAclRow} (hd : Drawn origin start tasks) (p : ι) :
    GuardedRoute world origin requests tasks p ((tasks p).prog (requests p)) := by
  cases ht : tasks p with
  | upsert docId dto aclId => exact guarded_upsert ht (hd.2 p docId dto aclId ht)
  | list docId => exact guarded_list ht (requests p)
  | delete docId aclId => exact guarded_delete ht

/-! ## Every interleaving -/

def entries (rows : List DocumentAclRow) : List DocumentAcl := rows.map fun row => row.toDocumentAcl

/-- The requests add only entries of the effect and delete only entries of the other. -/
def Favours (origin : String → DocumentAclRow) (effect : AclEffect) (tasks : ι → AclTask) : Prop :=
  ∀ p, match tasks p with
    | .upsert _ dto _ => dto.effect = effect
    | .list _ => True
    | .delete _ aclId => (origin aclId).effect ≠ effect

/-- What holds of the entries, the audit events, the answers and the decisions of the policy, whatever
the requests have done so far. -/
structure AclHolds (world : AclWorld) (origin : String → DocumentAclRow) (start : List DocumentAclRow)
    (requests : ι → PolicyRequest) (tasks : ι → AclTask) [DecidableEq ι] (s : Ledger.Store ι (aclDesk world))
    (answered : ι → Option AclOutcome) : Prop where
  granted : ∀ row ∈ s.rows, row ∈ start ∨ ∃ p dto, tasks p = .upsert row.docId dto row.id ∧
    row = newEntry row.docId dto row.id ∧ subjectGuard dto = .ok () ∧ Manages world (requests p) row.docId
  revoked : ∀ row, (row ∈ start ∨ ∃ p, (p, .insert row) ∈ s.log) → row ∈ s.rows ∨
    ∃ p, tasks p = .delete row.docId row.id ∧ Manages world (requests p) row.docId
  answers : ∀ p outcome, answered p = some outcome → Answers (tasks p) outcome (s.wrote p)
  once : ∀ p, (s.wrote p).length ≤ 1
  events : ∀ p event, (p, event) ∈ s.notes →
    ∃ change, s.wrote p = [change] ∧ event = eventOf origin requests p change
  untouched : ∀ docId, (∀ p, (tasks p).docId = docId → ¬ Manages world (requests p) docId) →
    ∀ (env : PolicyEnv) (db : PolicyDb) (request : PolicyRequest) (decision : PolicyDecision),
      decision.run env (db.withEntries (entries s.rows)) docId request =
        decision.run env (db.withEntries (entries start)) docId request
  opened : Favours origin .ALLOW tasks →
    ∀ (env : PolicyEnv) (db : PolicyDb) (docId : String) (request : PolicyRequest) (decision : PolicyDecision),
      decision.Succeeds env (db.withEntries (entries start)) docId request →
      decision.Succeeds env (db.withEntries (entries s.rows)) docId request
  closed : Favours origin .DENY tasks →
    ∀ (env : PolicyEnv) (db : PolicyDb) (docId : String) (request : PolicyRequest) (decision : PolicyDecision),
      decision.Succeeds env (db.withEntries (entries s.rows)) docId request →
      decision.Succeeds env (db.withEntries (entries start)) docId request

section
variable [DecidableEq ι] {start : List DocumentAclRow} {s : Ledger.Store ι (aclDesk world)}

theorem granted_of_sound (hs : Ledger.Sound (aclDuty world origin requests tasks) start s) {row : DocumentAclRow}
    (hrow : row ∈ s.rows) : row ∈ start ∨ ∃ p dto, tasks p = .upsert row.docId dto row.id ∧
      row = newEntry row.docId dto row.id ∧ subjectGuard dto = .ok () ∧ Manages world (requests p) row.docId := by
  rw [hs.replayed] at hrow
  rcases Ledger.mem_replay hrow with h | ⟨p, change, hm, hc⟩
  · exact .inl h
  · have hd : Due world origin requests tasks p change := hs.due _ hm
    cases change with
    | insert row' =>
      obtain rfl := Option.some.inj hc
      obtain ⟨docId, dto, ht, hnew, hok, hmanages⟩ := hd
      obtain rfl : row'.docId = docId := congrArg (fun row => row.docId) hnew
      exact .inr ⟨p, dto, ht, hnew, hok, hmanages⟩
    | put row' => exact hd.elim
    | remove k => cases hc

theorem revoked_of_sound (hs : Ledger.Sound (aclDuty world origin requests tasks) start s)
    (hstart : ∀ row ∈ start, row = origin row.id) {row : DocumentAclRow}
    (hrow : row ∈ start ∨ ∃ p, (p, .insert row) ∈ s.log) :
    row ∈ s.rows ∨ ∃ p, tasks p = .delete row.docId row.id ∧ Manages world (requests p) row.docId := by
  have hkey := @Ledger.key_replay _ _ _ (aclDesk world).key _ start s.log row.id
    (hrow.imp (fun h => ⟨row, h, rfl⟩) fun ⟨p, h⟩ => ⟨p, row, h, rfl⟩)
  rw [← hs.replayed] at hkey
  have horigin : origin row.id = row :=
    (hrow.elim (hstart row) fun ⟨_, h⟩ => hs.entered _ h row rfl).symm
  rcases hkey with ⟨row', hm, hid⟩ | ⟨p, hp⟩
  · -- An entry is its id.
    have hid' : row'.id = row.id := hid
    have hknown : row' = origin row'.id := hs.known row' hm
    rw [hknown, hid', horigin] at hm
    exact .inl hm
  · obtain ⟨docId, ht, hdoc, hmanages⟩ := hs.due _ hp
    obtain rfl : row.docId = docId := (congrArg (fun row => row.docId) horigin).symm.trans hdoc
    exact .inr ⟨p, ht, hmanages⟩

theorem acl_untouched (hs : Ledger.Sound (aclDuty world origin requests tasks) start s)
    (hstart : ∀ row ∈ start, row = origin row.id) {docId : String}
    (hno : ∀ p, (tasks p).docId = docId → ¬ Manages world (requests p) docId) :
    s.rows.filter (fun row => row.docId = docId) = start.filter fun row => row.docId = docId := by
  refine hs.other (f := fun row : DocumentAclRow => row.docId = docId) hstart fun e he => ?_
  obtain ⟨p, change⟩ := e
  have hd : Due world origin requests tasks p change := hs.due _ he
  refine decide_eq_false fun hdoc => ?_
  cases change with
  | insert row =>
    obtain ⟨docId', dto, ht, hnew, -, hmanages⟩ := hd
    have hrow : row = origin row.id := hs.entered _ he row rfl
    have hdoc' : docId' = docId :=
      (congrArg (fun row => row.docId) hnew).symm.trans ((congrArg (fun row => row.docId) hrow).trans hdoc)
    subst hdoc'
    exact hno p (by rw [ht]; rfl) hmanages
  | put row => exact hd
  | remove k =>
    obtain ⟨docId', ht, hdoc', hmanages⟩ := hd
    obtain rfl : docId' = docId := hdoc'.symm.trans hdoc
    exact hno p (by rw [ht]; rfl) hmanages

omit [DecidableEq ι] in
theorem acl_entries (db : PolicyDb) (rows : List DocumentAclRow) (docId : String) :
    (db.withEntries (entries rows)).acl docId =
      (rows.filter fun row => row.docId = docId).map fun row => row.toDocumentAcl := by
  simp only [PolicyDb.acl, PolicyDb.withEntries, entries, List.filter_map]
  rfl

/-- However the requests interleave: entries come and go only by requests of those who manage the document,
each told of in one event, and the decisions about a document that nobody in the run manages stay as they
are, with a share link too. Where the requests only open, whoever was let in still is; where they only
close, whoever is let in was before. -/
theorem acl_requests_hold (hd : Drawn origin start tasks) (hu : (start.map fun row => row.id).Nodup)
    {c : Config ι (Ledger.Store ι (aclDesk world)) (Ledger.Op (aclDesk world)) Ledger.Op.Res HttpError AclOutcome}
    (hr : Reach Ledger.exec (fun _ _ _ => True) ⟨⟨start, [], []⟩, fun p => (tasks p).prog (requests p)⟩ c) :
    AclHolds world origin start requests tasks c.store (Ledger.ended c) := by
  obtain ⟨hs, hans⟩ := Ledger.reach_ledger (T := aclDuty world origin requests tasks) hu hd.1 (guarded_task hd) hr
  -- Of which effect entries can have come, and of which they can have gone.
  have hcome : ∀ effect, Favours origin effect tasks → ∀ e ∈ entries c.store.rows, e.effect ≠ effect →
    e ∈ entries start := by
    intro effect hfavours e he hne
    obtain ⟨row, hrow, rfl⟩ := List.mem_map.mp he
    rcases granted_of_sound hs hrow with h | ⟨p, dto, ht, hnew, -, -⟩
    · exact List.mem_map.mpr ⟨row, h, rfl⟩
    · have heffect := hfavours p
      rw [ht] at heffect
      exact absurd ((congrArg (fun row => row.effect) hnew).trans heffect) hne
  have hgo : ∀ effect, Favours origin effect tasks → ∀ e ∈ entries start, e.effect = effect →
    e ∈ entries c.store.rows := by
    intro effect hfavours e he heq
    obtain ⟨row, hrow, rfl⟩ := List.mem_map.mp he
    rcases revoked_of_sound hs hd.1 (.inl hrow) with h | ⟨p, ht, -⟩
    · exact List.mem_map.mpr ⟨row, h, rfl⟩
    · have heffect := hfavours p
      rw [ht] at heffect
      exact absurd ((congrArg (fun row => row.effect) (hd.1 row hrow)).symm.trans heq) heffect
  refine ⟨fun row hrow => granted_of_sound hs hrow, fun row hrow => revoked_of_sound hs hd.1 hrow, hans, hs.once,
    fun p event he => ?_, fun docId hno env db request decision => ?_,
      fun hfavours env db docId request decision h => ?_,
    fun hfavours env db docId request decision h => ?_⟩
  · obtain ⟨w, hpre, change, rfl, hevent⟩ := hs.told _ he
    exact ⟨change, (hpre.eq_of_length_le (hs.once p)).symm, hevent⟩
  · have hrows := congrArg (List.map fun row : DocumentAclRow => row.toDocumentAcl) (acl_untouched hs hd.1 hno)
    exact PolicyDecision.run_acl ((acl_entries db _ docId).trans (hrows.trans (acl_entries db start docId).symm))
  · refine @PolicyDecision.succeeds_wider env (db.withEntries (entries start)) docId request decision _
      (fun e he hdeny => ?_) (fun e he hallow => hgo .ALLOW hfavours e he hallow) h
    exact hcome .ALLOW hfavours e he (by rw [hdeny]; decide)
  · refine @PolicyDecision.succeeds_wider env (db.withEntries (entries c.store.rows)) docId request decision _
      (fun e he hdeny => hgo .DENY hfavours e he hdeny) (fun e he hallow => ?_) h
    exact hcome .DENY hfavours e he (by rw [hallow]; decide)

end

end

end

/-! The owner lifts a denial while another editor tries to add one. -/

section

def sampleEntry : DocumentAclRow := ⟨⟨"d-1", .USER, some "u-3", .READ, .DENY⟩, "a-1"⟩

def sampleAdded : UpsertAclDto := ⟨.ALL, none, .READ, .DENY⟩

def sampleWorld : AclWorld where
  home _ := "o-1"
  owner _ := "u-1"
  canRead _ _ r := r = .ok ()

def sampleEditors (owner : Bool) : PolicyRequest where
  user := ⟨some (if owner then "u-1" else "u-2"), none, ["editor"]⟩
  organizationId := some "o-1"
  now := 2

def sampleAclTasks (owner : Bool) : AclTask := if owner then .delete "d-1" "a-1"
    else .upsert "d-1" sampleAdded "a-2"

def sampleOrigin (aclId : String) : DocumentAclRow :=
  if aclId = "a-1" then sampleEntry else newEntry "d-1" sampleAdded aclId

def sampleDocument (docId organizationId : String) : Option Document :=
  if organizationId = "o-1" then
    some
      { id := docId, organizationId := "o-1", ownerId := "u-1", status := .PUBLISHED, classification := .INTERNAL,
        currentVersion := 1 }
  else none

theorem sampleWorld_answers (docId organizationId : String) :
    sampleWorld.answers (.document docId organizationId) (sampleDocument docId organizationId) := by
  intro document h
  by_cases horg : organizationId = "o-1"
  · rw [sampleDocument, if_pos horg] at h
    obtain rfl := Option.some.inj h
    exact ⟨rfl, horg.symm, horg, rfl⟩
  · rw [sampleDocument, if_neg horg] at h
    cases h

def sampleAclClerk : Ledger.Clerk (aclDesk sampleWorld) where
  answer q := match q with
    | .document docId organizationId => sampleDocument docId organizationId
    | .canRead _ _ => .ok ()
  sort q l := match q with
    | .one _ => l
    | .all _ => l.insertionSort fun a b : DocumentAclRow => a.id ≤ b.id
  answers q := match q with
    | .document docId organizationId => sampleWorld_answers docId organizationId
    | .canRead _ _ => rfl
  sorted q l := match q with
    | .one _ => ⟨.refl l, List.pairwise_of_forall fun _ _ => trivial⟩
    | .all _ => ⟨List.perm_insertionSort _ l,
        @List.pairwise_insertionSort _ (fun a b : DocumentAclRow => a.id ≤ b.id) _
          ⟨fun a b => String.le_total a.id b.id⟩ ⟨fun _ _ _ h h' => String.le_trans h h'⟩ l⟩

def sampleAclRun :=
  schedule (Ledger.run sampleAclClerk)
    (Config.mk (⟨[sampleEntry], [], []⟩ : Ledger.Store Bool (aclDesk sampleWorld))
      fun p => (sampleAclTasks p).prog (sampleEditors p))
    [true, false, true, false, true, true]

theorem sampleAcl_drawn : Drawn sampleOrigin [sampleEntry] sampleAclTasks := by
  refine ⟨fun row hm => by rw [List.mem_singleton.mp hm]; rfl, fun p docId dto aclId ht => ?_⟩
  cases p with
  | true => cases ht
  | false =>
    obtain ⟨rfl, rfl, rfl⟩ := AclTask.upsert.inj ht
    rfl

theorem acl_requests_hold_sample : AclHolds sampleWorld sampleOrigin [sampleEntry] sampleEditors sampleAclTasks
    sampleAclRun.store (Ledger.ended sampleAclRun) :=
  acl_requests_hold sampleAcl_drawn (by decide)
    (Reach.schedule (Ledger.run_exec sampleAclClerk) _ _ .refl (meets_true _ _))

end

end AclService

end DocVault
