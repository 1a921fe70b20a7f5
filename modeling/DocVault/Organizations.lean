import DocVault.Keyed
import DocVault.Documents

/-!
# Organizations and their members

`OrgService` of `metadata-service`: which organization a user belongs to, and
the three calls that change it. The database holds organizations, memberships
(one for each pair of organization and user, deleted with their organization)
and documents, whose organization is a plain column. Each instance of the
service keeps a cache of its own. Writes and dropped cache entries are logged
with their process and the memberships they take away, which no operation reads.
-/

namespace DocVault

open Interleave

inductive OrganizationRole where
  | MEMBER
  | ADMIN
  deriving DecidableEq

structure Organization where
  id : String
  ownerId : String
  deriving DecidableEq

structure OrganizationMembership where
  organizationId : String
  userId : String
  role : OrganizationRole := .MEMBER
  createdAt : Time
  deriving DecidableEq

def OrganizationMembership.key (membership : OrganizationMembership) : String × String :=
  (membership.organizationId, membership.userId)

structure CacheEntry where
  orgId : String
  expiresAt : Time

/-! ## The store -/

inductive OrgOp where
  | cacheGet (node : Nat) (actorId : String)
  | cacheSet (node : Nat) (actorId : String) (entry : CacheEntry)
  | invalidate (node : Nat) (actorId : String)
  | firstMembership (userId : String)
  | findMemberships (userId : String)
  | findMembership (organizationId userId : String)
  | countMembers (organizationId : String)
  | countAdmins (organizationId : String)
  | updateRole (organizationId userId : String) (role : OrganizationRole)
  | createMembership (membership : OrganizationMembership)
  | deleteMembership (organizationId userId : String)
  | deleteOrganization (id : String)

/-- What is found or written, or nothing when there is none or the write fails. -/
abbrev OrgOp.Res : OrgOp → Type
  | cacheGet _ _ => Option CacheEntry
  | cacheSet _ _ _ => Unit
  | invalidate _ _ => Unit
  | firstMembership _ => Option OrganizationMembership
  | findMemberships _ => List (OrganizationMembership × Option Organization)
  | findMembership _ _ => Option OrganizationMembership
  | countMembers _ => Nat
  | countAdmins _ => Nat
  | updateRole _ _ _ => Option OrganizationMembership
  | createMembership _ => Option OrganizationMembership
  | deleteMembership _ _ => Option OrganizationMembership
  | deleteOrganization _ => Option Organization

structure OrgWrite (ι : Type) where
  process : ι
  op : OrgOp
  taken : List OrganizationMembership := []

structure OrgDb (ι : Type) where
  organizations : List Organization
  memberships : List OrganizationMembership
  documents : List Document
  cache : Nat → String → Option CacheEntry
  log : List (OrgWrite ι)

namespace OrgDb
variable {ι : Type}

def organization (db : OrgDb ι) (id : String) : Option Organization := Keyed.find (·.id) db.organizations id

def membership (db : OrgDb ι) (organizationId userId : String) : Option OrganizationMembership :=
  Keyed.find (·.key) db.memberships (organizationId, userId)

def setCache (db : OrgDb ι) (node : Nat) (actorId : String) (entry : Option CacheEntry) : OrgDb ι :=
  { db with cache := fun n u => if n = node ∧ u = actorId then entry else db.cache n u }

def drop (db : OrgDb ι) (p : ι) (node : Nat) (actorId : String) : OrgDb ι :=
  { db.setCache node actorId none with log := db.log ++ [⟨p, .invalidate node actorId, []⟩] }

def updateRole (db : OrgDb ι) (p : ι) (organizationId userId : String) (role : OrganizationRole)
    (membership : OrganizationMembership) : OrgDb ι :=
  { db with
    memberships := Keyed.put (·.key) db.memberships (organizationId, userId) { membership with role := role }
    log := db.log ++ [⟨p, .updateRole organizationId userId role, []⟩] }

/-- Whether the unique index and the foreign key let the row in. -/
def admits (db : OrgDb ι) (membership : OrganizationMembership) : Bool :=
  (db.membership membership.organizationId membership.userId).isNone &&
    (db.organization membership.organizationId).isSome

def create (db : OrgDb ι) (p : ι) (membership : OrganizationMembership) : OrgDb ι :=
  { db with
    memberships := db.memberships ++ [membership]
    log := db.log ++ [⟨p, .createMembership membership, []⟩] }

def remove (db : OrgDb ι) (p : ι) (organizationId userId : String)
    (membership : OrganizationMembership) : OrgDb ι :=
  { db with
    memberships := Keyed.remove (·.key) db.memberships (organizationId, userId)
    log := db.log ++ [⟨p, .deleteMembership organizationId userId, [membership]⟩] }

-- The memberships go with the organization, its documents do not.
def deleteOrganization (db : OrgDb ι) (p : ι) (id : String) : OrgDb ι :=
  { db with
    organizations := Keyed.remove (·.id) db.organizations id
    memberships := Keyed.remove (·.organizationId) db.memberships id
    log := db.log ++ [⟨p, .deleteOrganization id, db.memberships.filter (·.organizationId = id)⟩] }

end OrgDb

def orgRun {ι : Type} (p : ι) (db : OrgDb ι) : (o : OrgOp) → o.Res × OrgDb ι
  | .cacheGet node actorId => (db.cache node actorId, db)
  | .cacheSet node actorId entry => ((), db.setCache node actorId (some entry))
  | .invalidate node actorId => ((), db.drop p node actorId)
  | .firstMembership userId =>
    (((db.memberships.filter (·.userId = userId)).insertionSort fun a b => a.createdAt ≤ b.createdAt).head?, db)
  | .findMemberships userId =>
    ((db.memberships.filter (·.userId = userId)).map fun membership =>
      (membership, db.organization membership.organizationId), db)
  | .findMembership organizationId userId => (db.membership organizationId userId, db)
  | .countMembers organizationId => (db.memberships.countP (·.organizationId = organizationId), db)
  | .countAdmins organizationId =>
    (db.memberships.countP fun membership => membership.organizationId = organizationId &&
      membership.role = .ADMIN, db)
  | .updateRole organizationId userId role =>
    match db.membership organizationId userId with
    | none => (none, db)
    | some membership =>
      (some { membership with role := role }, db.updateRole p organizationId userId role membership)
  | .createMembership membership =>
    if db.admits membership then (some membership, db.create p membership) else (none, db)
  | .deleteMembership organizationId userId =>
    match db.membership organizationId userId with
    | none => (none, db)
    | some membership => (some membership, db.remove p organizationId userId membership)
  | .deleteOrganization id =>
    match db.organization id with
    | none => (none, db)
    | some organization => (some organization, db.deleteOrganization p id)

def OrgExec {ι : Type} : Exec ι (OrgDb ι) OrgOp OrgOp.Res := fun p db o r db' => (r, db') = orgRun p db o

abbrev OrgM := Prog OrgOp OrgOp.Res HttpError

/-! ## OrgService -/

/-- A call at one instance of the service, with the times at which it looks at the clock. -/
structure OrgCall where
  user : ServiceUser
  node : Nat := 0
  now : Time
  storedAt : Time

structure MemberView where
  userId : String
  role : OrganizationRole
  joinedAt : Time

def memberView (membership : OrganizationMembership) : MemberView :=
  ⟨membership.userId, membership.role, membership.createdAt⟩

namespace OrgService

def CACHE_TTL_MS : Int := 60000

def resolveOrgId (actorId : String) : OrgM String := do
  match ← Prog.op (OrgOp.firstMembership actorId) with
  | none => .throw (.forbidden "You are not assigned to any organization. Ask an administrator to add you.")
  | some existing => pure existing.organizationId

def requireOrgId (call : OrgCall) (actorId : String) : OrgM String := do
  let cached ← Prog.op (OrgOp.cacheGet call.node actorId)
  match cached.filter (·.expiresAt > call.now) with
  | some cached => pure cached.orgId
  | none =>
    let orgId ← resolveOrgId actorId
    let _ ← Prog.op (OrgOp.cacheSet call.node actorId ⟨orgId, call.storedAt + CACHE_TTL_MS⟩)
    pure orgId

def invalidate (call : OrgCall) (actorId : String) : OrgM Unit := Prog.op (OrgOp.invalidate call.node actorId)

def assertNotLastAdmin (organizationId : String) : OrgM Unit := do
  let adminCount ← Prog.op (OrgOp.countAdmins organizationId)
  if adminCount ≤ 1 then .throw (.badRequest "Cannot remove or demote the last admin of an organization")
    else pure ()

def setRole (call : OrgCall) (organizationId targetUserId : String) (role : OrganizationRole) :
    OrgM MemberView := do
  let result ← Prog.op (OrgOp.updateRole organizationId targetUserId role)
  let membership ← Prog.ofExcept (updated result)
  let _ ← invalidate call targetUserId
  pure (memberView membership)

/-- The loop over the memberships elsewhere. -/
def dropOrphans (normalizedTarget : String) : List (OrganizationMembership × Option Organization) → OrgM Unit
  | [] => pure ()
  | membership :: otherMemberships => do
    let memberCount ← Prog.op (OrgOp.countMembers membership.1.organizationId)
    let isOrphanSoloOrg := memberCount = 1 && membership.2.map (·.ownerId) = some normalizedTarget
    if !isOrphanSoloOrg then
      .throw (.badRequest "User already belongs to another organization. Remove them there first.")
    else do
      let result ← Prog.op (OrgOp.deleteOrganization membership.1.organizationId)
      let _ ← Prog.ofExcept (updated result)
      dropOrphans normalizedTarget otherMemberships

def reassign (call : OrgCall) (organizationId normalizedTarget : String) (role : OrganizationRole)
    (otherMemberships : List (OrganizationMembership × Option Organization)) : OrgM MemberView := do
  let _ ← dropOrphans normalizedTarget otherMemberships
  let result ← Prog.op (OrgOp.createMembership ⟨organizationId, normalizedTarget, role, call.storedAt⟩)
  let created ← Prog.ofExcept (updated result)
  let _ ← invalidate call normalizedTarget
  pure (memberView created)

-- The role of a member who is already here is updated without `assertNotLastAdmin`.
def addMember (call : OrgCall) (targetUserId : String) (role : OrganizationRole) : OrgM MemberView := do
  let organizationId ← requireOrgId call (buildActorId call.user)
  let normalizedTarget := trim targetUserId
  if normalizedTarget = "" then .throw (.badRequest "targetUserId is required")
  else do
    let existingMemberships ← Prog.op (OrgOp.findMemberships normalizedTarget)
    match existingMemberships.find? (·.1.organizationId = organizationId) with
    | some alreadyHere =>
      if alreadyHere.1.role = role then pure (memberView alreadyHere.1)
      else setRole call organizationId normalizedTarget role
    | none =>
      let otherMemberships := existingMemberships.filter (·.1.organizationId ≠ organizationId)
      reassign call organizationId normalizedTarget role otherMemberships

def findMember (organizationId targetUserId : String) : OrgM OrganizationMembership := do
  match ← Prog.op (OrgOp.findMembership organizationId targetUserId) with
  | none => .throw (.notFound "Member not found in this organization")
  | some membership => pure membership

def updateMemberRole (call : OrgCall) (targetUserId : String) (role : OrganizationRole) : OrgM MemberView := do
  let organizationId ← requireOrgId call (buildActorId call.user)
  let membership ← findMember organizationId targetUserId
  let _ ← if membership.role = .ADMIN && role = .MEMBER then assertNotLastAdmin organizationId else pure ()
  setRole call organizationId targetUserId role

def removeMember (call : OrgCall) (targetUserId : String) : OrgM String := do
  let organizationId ← requireOrgId call (buildActorId call.user)
  let membership ← findMember organizationId targetUserId
  let _ ← if membership.role = .ADMIN then assertNotLastAdmin organizationId else pure ()
  let result ← Prog.op (OrgOp.deleteMembership organizationId targetUserId)
  let _ ← Prog.ofExcept (updated result)
  let _ ← invalidate call targetUserId
  pure targetUserId

end OrgService

/-! ## The routes -/

namespace OrgController

def addMember (call : OrgCall) (userId : String) (role : Option OrganizationRole) : OrgM MemberView := do
  let _ ← Prog.ofExcept (RolesGuard ["admin"] call.user)
  if trim userId = "" then .throw (.badRequest "userId is required")
  else OrgService.addMember call (trim userId) (role.getD .MEMBER)

def updateMemberRole (call : OrgCall) (userId : String) (role : OrganizationRole) : OrgM MemberView := do
  let _ ← Prog.ofExcept (RolesGuard ["admin"] call.user)
  OrgService.updateMemberRole call userId role

def removeMember (call : OrgCall) (userId : String) : OrgM String := do
  let _ ← Prog.ofExcept (RolesGuard ["admin"] call.user)
  OrgService.removeMember call userId

end OrgController

inductive OrgTask where
  | requireOrgId (call : OrgCall) (actorId : String)
  | addMember (call : OrgCall) (userId : String) (role : Option OrganizationRole)
  | updateMemberRole (call : OrgCall) (userId : String) (role : OrganizationRole)
  | removeMember (call : OrgCall) (userId : String)

inductive OrgOutcome where
  | organization (orgId : String)
  | member (view : MemberView)
  | removed (userId : String)

def OrgTask.prog : OrgTask → OrgM OrgOutcome
  | requireOrgId call actorId => do
    let orgId ← OrgService.requireOrgId call actorId
    pure (.organization orgId)
  | addMember call userId role => do
    let view ← OrgController.addMember call userId role
    pure (.member view)
  | updateMemberRole call userId role => do
    let view ← OrgController.updateMemberRole call userId role
    pure (.member view)
  | removeMember call userId => do
    let userId ← OrgController.removeMember call userId
    pure (.removed userId)

def OrgTask.isAdd : OrgTask → Bool
  | addMember _ _ _ => true
  | _ => false

/-! ## What an operation writes -/

section
variable {ι : Type} {p : ι} {db db' : OrgDb ι}

inductive OrgWrites (p : ι) (db : OrgDb ι) : OrgOp → OrgDb ι → Prop
  | store {node : Nat} {actorId : String} {entry : CacheEntry} :
    OrgWrites p db (.cacheSet node actorId entry) (db.setCache node actorId (some entry))
  | drop {node : Nat} {actorId : String} : OrgWrites p db (.invalidate node actorId) (db.drop p node actorId)
  | updateRole {organizationId userId : String} {role : OrganizationRole} {membership : OrganizationMembership}
    (found : db.membership organizationId userId = some membership) :
    OrgWrites p db (.updateRole organizationId userId role) (db.updateRole p organizationId userId role membership)
  | create {membership : OrganizationMembership} (new : db.admits membership = true) :
    OrgWrites p db (.createMembership membership) (db.create p membership)
  | remove {organizationId userId : String} {membership : OrganizationMembership}
    (found : db.membership organizationId userId = some membership) :
    OrgWrites p db (.deleteMembership organizationId userId) (db.remove p organizationId userId membership)
  | deleteOrganization {id : String} {organization : Organization}
      (found : db.organization id = some organization) :
    OrgWrites p db (.deleteOrganization id) (db.deleteOrganization p id)

theorem org_writes {o : OrgOp} {r : o.Res} (h : OrgExec p db o r db') : db' = db ∨ OrgWrites p db o db' := by
  cases o with
  | cacheSet node actorId entry =>
    rw [(Prod.mk.inj h).2]
    exact .inr .store
  | invalidate node actorId =>
    rw [(Prod.mk.inj h).2]
    exact .inr .drop
  | updateRole organizationId userId role =>
    simp only [OrgExec, orgRun] at h
    split at h
    · exact .inl (Prod.mk.inj h).2
    · rename_i membership hfound
      rw [(Prod.mk.inj h).2]
      exact .inr (.updateRole hfound)
  | createMembership membership =>
    simp only [OrgExec, orgRun] at h
    split at h
    · rename_i hnew
      rw [(Prod.mk.inj h).2]
      exact .inr (.create hnew)
    · exact .inl (Prod.mk.inj h).2
  | deleteMembership organizationId userId =>
    simp only [OrgExec, orgRun] at h
    split at h
    · exact .inl (Prod.mk.inj h).2
    · rename_i membership hfound
      rw [(Prod.mk.inj h).2]
      exact .inr (.remove hfound)
  | deleteOrganization id =>
    simp only [OrgExec, orgRun] at h
    split at h
    · exact .inl (Prod.mk.inj h).2
    · rename_i organization hfound
      rw [(Prod.mk.inj h).2]
      exact .inr (.deleteOrganization hfound)
  | _ => exact .inl (Prod.mk.inj h).2

end

/-- What the database enforces. -/
structure OrgDb.Valid {ι : Type} (db : OrgDb ι) : Prop where
  ids : Keyed.Unique (·.id) db.organizations
  keys : Keyed.Unique (·.key) db.memberships
  foreign : ∀ membership ∈ db.memberships, (db.organization membership.organizationId).isSome = true

section
variable {ι : Type} {p : ι} {db db' : OrgDb ι} {organizationId userId : String}

theorem membership_some {membership : OrganizationMembership}
    (h : db.membership organizationId userId = some membership) :
    membership ∈ db.memberships ∧ membership.organizationId = organizationId ∧ membership.userId = userId := by
  obtain ⟨hm, hk⟩ := Keyed.find_some h
  exact ⟨hm, (Prod.mk.inj hk).1, (Prod.mk.inj hk).2⟩

theorem admits_iff {membership : OrganizationMembership} : db.admits membership = true ↔
    db.membership membership.organizationId membership.userId = none ∧
      (db.organization membership.organizationId).isSome = true := by
  simp [OrgDb.admits]

theorem organization_remove {id id' : String} :
    (Keyed.find (·.id) (Keyed.remove (·.id) db.organizations id) id').isSome = true ↔
    id' ≠ id ∧ (db.organization id').isSome = true := by
  simp only [OrgDb.organization, Keyed.find_isSome, Keyed.remove, List.mem_filter, decide_eq_true_eq]
  constructor
  · rintro ⟨row, ⟨hrow, hne⟩, rfl⟩
    exact ⟨hne, row, hrow, rfl⟩
  · rintro ⟨hne, row, hrow, rfl⟩
    exact ⟨row, ⟨hrow, hne⟩, rfl⟩

theorem valid_step {o : OrgOp} {r : o.Res} (hv : db.Valid) (hx : OrgExec p db o r db') : db'.Valid := by
  rcases org_writes hx with rfl | hw
  · exact hv
  · cases hw with
    | store | drop => exact ⟨hv.ids, hv.keys, hv.foreign⟩
    | @updateRole organizationId userId role membership found =>
      obtain ⟨hm, horg, huser⟩ := membership_some found
      refine ⟨hv.ids, hv.keys.put found (Prod.ext horg huser), fun m hm' => ?_⟩
      rcases Keyed.mem_put_of_mem hm' with rfl | ⟨hm', _⟩
      · exact hv.foreign membership hm
      · exact hv.foreign m hm'
    | create new =>
      obtain ⟨hnew, horg⟩ := admits_iff.mp new
      refine ⟨hv.ids, hv.keys.append hnew, fun m hm => ?_⟩
      rcases List.mem_append.mp hm with hm | hm
      · exact hv.foreign m hm
      · rw [List.mem_singleton.mp hm]
        exact horg
    | remove found => exact ⟨hv.ids, hv.keys.filter _, fun m hm => hv.foreign m (List.mem_filter.mp hm).1⟩
    | deleteOrganization found =>
      refine ⟨hv.ids.filter _, hv.keys.filter _, fun m hm => ?_⟩
      obtain ⟨hm, hne⟩ := List.mem_filter.mp hm
      exact organization_remove.mpr ⟨of_decide_eq_true hne, hv.foreign m hm⟩

theorem log_step {o : OrgOp} {r : o.Res} (hx : OrgExec p db o r db') :
    db'.log = db.log ∨ ∃ taken, db'.log = db.log ++ [⟨p, o, taken⟩] := by
  rcases org_writes hx with rfl | hw
  · exact .inl rfl
  · cases hw with
    | store => exact .inl rfl
    | drop | updateRole | create | remove | deleteOrganization => exact .inr ⟨_, rfl⟩

/-- Process `p` has written nothing. -/
def Unwritten (db : OrgDb ι) (p : ι) : Prop := ∀ w ∈ db.log, w.process ≠ p

theorem unwritten_other {q : ι} {o : OrgOp} {r : o.Res} (hx : OrgExec q db o r db') (hp : p ≠ q) :
    Unwritten db' p ↔ Unwritten db p := by
  rcases log_step hx with h | ⟨taken, h⟩
  · simp only [Unwritten, h]
  · simp only [Unwritten, h, List.mem_append, List.mem_singleton]
    constructor
    · exact fun hu w hw => hu w (.inl hw)
    · rintro hu w (hw | rfl)
      · exact hu w hw
      · exact hp.symm

theorem written {o : OrgOp} {taken : List OrganizationMembership} (h : db'.log = db.log ++ [⟨p, o, taken⟩]) :
    ¬Unwritten db' p := fun hu => hu ⟨p, o, taken⟩ (by rw [h]; simp) rfl

end

/-! ## The lookup -/

def Lookup : OrgOp → Prop
  | .cacheGet _ _ | .cacheSet _ _ _ | .firstMembership _ => True
  | _ => False

theorem OrgService.requireOrgId_uses (call : OrgCall) (actorId : String) :
    (OrgService.requireOrgId call actorId).Uses Lookup := by
  refine .bind (fun cached => ?_) (.op trivial)
  cases cached.filter (·.expiresAt > call.now) with
  | some cached => trivial
  | none =>
    refine .bind (fun orgId => .bind (fun _ => .pure _) (.op trivial)) (.bind (fun existing => ?_) (.op trivial))
    cases existing <;> trivial

/-- A lookup writes only to the cache. -/
theorem Lookup.same {ι : Type} {p : ι} {db db' : OrgDb ι} {o : OrgOp} {r : o.Res} (ho : Lookup o)
    (hx : OrgExec p db o r db') : db' = { db with cache := db'.cache } := by
  cases o with
  | cacheGet | firstMembership => rw [(Prod.mk.inj hx).2]
  | cacheSet node actorId entry =>
    rw [(Prod.mk.inj hx).2]
    rfl
  | _ => exact ho.elim

/-! ## Runs -/

/-- The database as it stands, with no write logged yet. -/
def startOrgs {ι : Type} (db : OrgDb ι) (tasks : ι → OrgTask) :
    Config ι (OrgDb ι) OrgOp OrgOp.Res HttpError OrgOutcome :=
  ⟨{ db with log := [] }, fun p => (tasks p).prog⟩

def orgSchedule (db : OrgDb Nat) (tasks : Nat → OrgTask) (ps : List Nat) :
    Config Nat (OrgDb Nat) OrgOp OrgOp.Res HttpError OrgOutcome :=
  schedule orgRun (startOrgs db tasks) ps

def adminCall (actor : String) (now : Time) : OrgCall :=
  { user := ⟨some actor, none, ["admin"]⟩, now := now, storedAt := now }

end DocVault
