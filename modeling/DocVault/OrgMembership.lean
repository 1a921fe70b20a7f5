import DocVault.Faults
import DocVault.Organizations
import Mathlib.Data.Fintype.Basic

/-!
# One organization for each user

`addMember` looks at the memberships of a user, deletes the organizations that
only the user is in, and then inserts the new membership, each a step of its
own. While nobody else adds a membership of the user or removes the caller's in
between, no cache entry is out of date and no document is in an organization
that is found to have its owner as its only member, each user stays in one
organization and each document in an existing one. Then the loop deletes at most
once, the insert after it goes through, and a call that fails has written nothing.
-/

namespace DocVault

open Interleave

section
variable {ι : Type} {p : ι} {db db' : OrgDb ι}

structure SingleOrg (db : OrgDb ι) : Prop where
  valid : db.Valid
  single : ∀ m ∈ db.memberships, ∀ m' ∈ db.memberships, m.userId = m'.userId → m = m'
  documents : ∀ document ∈ db.documents, (db.organization document.organizationId).isSome = true

/-- An insert finds the user in no other organization, and after a deletion of the same call it finds the
organization and not the membership. A deletion finds no document of the organization. -/
def Orderly (p : ι) (db : OrgDb ι) : OrgOp → Prop
  | .createMembership membership =>
    (∀ m ∈ db.memberships, m.userId = membership.userId → m.organizationId = membership.organizationId) ∧
      (¬Unwritten db p → db.admits membership = true)
  | .deleteOrganization id => ∀ document ∈ db.documents, document.organizationId ≠ id
  | _ => True

/-! ## One operation -/

theorem single_updateRole (hi : SingleOrg db) {organizationId userId : String} {role : OrganizationRole}
    {membership : OrganizationMembership} (found : db.membership organizationId userId = some membership) :
    ∀ m ∈ (db.updateRole p organizationId userId role membership).memberships,
      ∀ m' ∈ (db.updateRole p organizationId userId role membership).memberships,
        m.userId = m'.userId → m = m' := by
  obtain ⟨hmem, horg, huser⟩ := membership_some found
  -- No other row of the user is left.
  have hother : ∀ m ∈ db.memberships, m.key ≠ (organizationId, userId) → m.userId ≠ membership.userId := by
    intro m hm hkey hu
    obtain rfl := hi.single m hm membership hmem hu
    exact hkey (Prod.ext horg huser)
  intro m hm m' hm' hu
  rcases Keyed.mem_put_of_mem hm with rfl | ⟨hm, hkey⟩ <;> rcases Keyed.mem_put_of_mem hm' with rfl | ⟨hm', hkey'⟩
  · rfl
  · exact absurd hu.symm (hother m' hm' hkey')
  · exact absurd hu (hother m hm hkey)
  · exact hi.single m hm m' hm' hu

theorem single_create (hi : SingleOrg db) {membership : OrganizationMembership} (new : db.admits membership = true)
    (ho : ∀ m ∈ db.memberships, m.userId = membership.userId → m.organizationId = membership.organizationId) :
    ∀ m ∈ (db.create p membership).memberships, ∀ m' ∈ (db.create p membership).memberships,
      m.userId = m'.userId → m = m' := by
  have hnew : ∀ m ∈ db.memberships, m.userId ≠ membership.userId := fun m hm hu =>
    Keyed.find_none.mp (admits_iff.mp new).1 m hm (Prod.ext (ho m hm hu) hu)
  intro m hm m' hm' hu
  rcases List.mem_append.mp hm with hold | hown <;> rcases List.mem_append.mp hm' with hold' | hown'
  · exact hi.single m hold m' hold' hu
  · rw [List.mem_singleton.mp hown'] at hu
    exact absurd hu (hnew m hold)
  · rw [List.mem_singleton.mp hown] at hu
    exact absurd hu.symm (hnew m' hold')
  · rw [List.mem_singleton.mp hown, List.mem_singleton.mp hown']

theorem single_step {o : OrgOp} {r : o.Res} (hi : SingleOrg db) (ho : Orderly p db o) (hx : OrgExec p db o r db') :
    SingleOrg db' := by
  have hv := valid_step hi.valid hx
  rcases org_writes hx with rfl | hw
  · exact hi
  · cases hw with
    | store | drop => exact ⟨hv, hi.single, hi.documents⟩
    | updateRole found => exact ⟨hv, single_updateRole hi found, hi.documents⟩
    | create new => exact ⟨hv, single_create hi new ho.1, hi.documents⟩
    | remove found =>
      exact ⟨hv, fun m hm m' hm' => hi.single m (List.mem_filter.mp hm).1 m' (List.mem_filter.mp hm').1,
        hi.documents⟩
    | deleteOrganization found =>
      refine ⟨hv, fun m hm m' hm' => hi.single m (List.mem_filter.mp hm).1 m' (List.mem_filter.mp hm').1, ?_⟩
      exact fun document hd => organization_remove.mpr ⟨ho document hd, hi.documents document hd⟩

def OrgDb.Member (db : OrgDb ι) (organizationId userId : String) : Prop :=
  ∃ membership ∈ db.memberships, membership.organizationId = organizationId ∧ membership.userId = userId

variable {organizationId userId : String}

theorem member_new {o : OrgOp} {r : o.Res} (hx : OrgExec p db o r db')
    (ho : ∀ membership, o = .createMembership membership → membership.userId ≠ userId)
    (h : db'.Member organizationId userId) : db.Member organizationId userId := by
  obtain ⟨m, hm, horg, huser⟩ := h
  rcases org_writes hx with rfl | hw
  · exact ⟨m, hm, horg, huser⟩
  · cases hw with
    | store | drop => exact ⟨m, hm, horg, huser⟩
    | updateRole found =>
      rcases Keyed.mem_put_of_mem hm with rfl | ⟨hm, _⟩
      · exact ⟨_, (membership_some found).1, horg, huser⟩
      · exact ⟨m, hm, horg, huser⟩
    | @create membership new =>
      rcases List.mem_append.mp hm with hm | hm
      · exact ⟨m, hm, horg, huser⟩
      · rw [List.mem_singleton.mp hm] at huser
        exact absurd huser (ho membership rfl)
    | remove | deleteOrganization => exact ⟨m, (List.mem_filter.mp hm).1, horg, huser⟩

theorem member_kept {o : OrgOp} {r : o.Res} (hx : OrgExec p db o r db')
    (hd : o ≠ .deleteMembership organizationId userId)
    (ho : o ≠ .deleteOrganization organizationId) (h : db.Member organizationId userId) :
    db'.Member organizationId userId := by
  obtain ⟨m, hm, rfl, rfl⟩ := h
  rcases org_writes hx with rfl | hw
  · exact ⟨m, hm, rfl, rfl⟩
  · cases hw with
    | store | drop => exact ⟨m, hm, rfl, rfl⟩
    | @updateRole org user role membership found =>
      obtain ⟨_, horg, huser⟩ := membership_some found
      by_cases hkey : m.key = (org, user)
      · obtain ⟨hmorg, hmuser⟩ := Prod.mk.inj hkey
        exact ⟨_, (Keyed.mem_put found).mpr (.inl rfl), horg.trans hmorg.symm, huser.trans hmuser.symm⟩
      · exact ⟨m, (Keyed.mem_put found).mpr (.inr ⟨hm, hkey⟩), rfl, rfl⟩
    | create new => exact ⟨m, List.mem_append_left _ hm, rfl, rfl⟩
    | @remove org user membership found =>
      refine ⟨m, List.mem_filter.mpr ⟨hm, decide_eq_true fun hkey => hd ?_⟩, rfl, rfl⟩
      rw [← (Prod.mk.inj hkey).1, ← (Prod.mk.inj hkey).2]
    | @deleteOrganization id organization found =>
      exact ⟨m, List.mem_filter.mpr ⟨hm, decide_eq_true fun h => ho (by rw [← h])⟩, rfl, rfl⟩

/-- Documents stay as they are, and organizations are only deleted. -/
structure OrgsShrink (db db' : OrgDb ι) : Prop where
  documents : db'.documents = db.documents
  organizations : ∀ organization ∈ db'.organizations, organization ∈ db.organizations

theorem orgs_shrink {o : OrgOp} {r : o.Res} (hx : OrgExec p db o r db') : OrgsShrink db db' := by
  rcases org_writes hx with rfl | hw
  · exact ⟨rfl, fun _ h => h⟩
  · cases hw with
    | deleteOrganization found => exact ⟨rfl, fun _ h => (List.mem_filter.mp h).1⟩
    | _ => exact ⟨rfl, fun _ h => h⟩

/-! ## Calls -/

def OrgTask.adding : OrgTask → Option (OrgCall × String)
  | addMember call userId _ => some (call, trim (trim userId))
  | _ => none

/-- The operations of `addMember` after its look at the memberships of the user, up to the insert. -/
def OrgOp.adds : OrgOp → Bool
  | .countMembers _ | .deleteOrganization _ | .createMembership _ => true
  | _ => false

/-- The operations of `addMember` after the lookup of the caller's organization, up to the insert. -/
def OrgOp.resolved : OrgOp → Bool
  | .cacheSet _ _ _ | .findMemberships _ => true
  | o => o.adds

/-- What a call of `addMember` for the user finds: its cache names an organization that the caller is a member
of, and an organization whose owner, the user, is its only member has no document. -/
def FindsInOrder (call : OrgCall) (userId : String) (db : OrgDb ι) : OrgOp → Prop
  | .cacheGet node actorId => ∀ entry, db.cache node actorId = some entry → entry.expiresAt > call.now →
      db.Member entry.orgId actorId
  | .countMembers id => db.memberships.countP (·.organizationId = id) = 1 →
      (db.organization id).map (·.ownerId) = some userId → ∀ document ∈ db.documents, document.organizationId ≠ id
  | _ => True

/-- Nobody else adds a membership of the user whom a call of `addMember` has looked at, or removes that of its
caller after the lookup of the organization. -/
def orderly (tasks : ι → OrgTask) : Spec ι (OrgDb ι) OrgOp OrgOp.Res where
  exec := OrgExec
  pre p db o := ∀ call userId, (tasks p).adding = some (call, userId) → FindsInOrder call userId db o
  inv := SingleOrg
  rely p o db db' := (Unwritten db' p ↔ Unwritten db p) ∧ OrgsShrink db db' ∧
    ∀ call userId, (tasks p).adding = some (call, userId) →
      (o.any OrgOp.adds = true → ∀ organizationId, db'.Member organizationId userId →
        db.Member organizationId userId) ∧
      (o.any OrgOp.resolved = true → ∀ organizationId, db.Member organizationId (buildActorId call.user) →
        db'.Member organizationId (buildActorId call.user))
  guar := Orderly

variable {tasks : ι → OrgTask}

theorem orderly_closed : (orderly tasks).Closed where
  refl _ _ _ := ⟨Iff.rfl, ⟨rfl, fun _ h => h⟩, fun _ _ _ => ⟨fun _ _ h => h, fun _ _ h => h⟩⟩
  trans _ _ _ _ _ h h' := by
    obtain ⟨hw, hs, hm⟩ := h
    obtain ⟨hw', hs', hm'⟩ := h'
    refine ⟨hw'.trans hw,
      ⟨hs'.documents.trans hs.documents, fun o ho => hs.organizations o (hs'.organizations o ho)⟩,
      fun call userId ht => ⟨fun ho org h => ?_, fun ho org h => ?_⟩⟩
    · exact (hm call userId ht).1 ho org ((hm' call userId ht).1 ho org h)
    · exact (hm' call userId ht).2 ho org ((hm call userId ht).2 ho org h)

def MayFail (p : ι) (db : OrgDb ι) (_ : OrgOp) : Prop := Unwritten db p

variable {α : Type} {call : OrgCall}

/-- The process fails only with nothing written, and ends with `Q`. -/
abbrev Reverts (tasks : ι → OrgTask) (p : ι) (Q : α → OrgDb ι → Prop) (m : OrgM α) (db : OrgDb ι) : Prop :=
  OkIf (orderly tasks) MayFail p Q (fun _ db => Unwritten db p) m db

variable {Q : α → OrgDb ι → Prop}

theorem reverts_op {o : OrgOp} {k : o.Res → OrgM α}
    (ho : ∀ db₁, (orderly tasks).rely p (some o) db db₁ → SingleOrg db₁ →
      (orderly tasks).pre p db₁ o → Orderly p db₁ o)
    (hk : ∀ db₁ r db₂, (orderly tasks).rely p (some o) db db₁ → SingleOrg db₁ → (orderly tasks).pre p db₁ o →
      (r, db₂) = orgRun p db₁ o → SingleOrg db₂ → Reverts tasks p Q (k r) db₂) :
    Reverts tasks p Q (Prog.op o >>= k) db := by
  refine OkIf_op (fun db₁ hr hi hp => ho db₁ hr hi hp) (fun _ _ _ _ hm => hm) fun db₁ r db₂ hr hi hp hx => ?_
  have hi' : SingleOrg db₂ := single_step hi (ho db₁ hr hi hp) hx
  exact ⟨hi', hk db₁ r db₂ hr hi hp hx hi'⟩

theorem reverts_end {actorId : String} {a : α} (hw : ¬Unwritten db p) :
    Reverts tasks p (fun _ _ => True) (OrgService.invalidate call actorId >>= fun _ => pure a) db := by
  refine OkIf_op (S := orderly tasks) (fun _ _ _ _ => trivial) (fun _ _ hr _ hm => absurd (hr.1.mp hm) hw)
    fun db₁ r db₂ _ hi ho hx => ?_
  exact ⟨single_step (o := .invalidate call.node actorId) hi trivial hx, trivial⟩

theorem reverts_setRole {role : OrganizationRole} (hu : Unwritten db p) :
    Reverts tasks p (fun _ _ => True) (OrgService.setRole call organizationId userId role) db := by
  refine reverts_op (fun _ _ _ _ => trivial) fun db₁ r db₂ hr _ _ hx _ => ?_
  simp only [orgRun] at hx
  split at hx
  · obtain ⟨rfl, rfl⟩ := Prod.mk.inj hx
    exact hr.1.mpr hu
  · obtain ⟨rfl, rfl⟩ := Prod.mk.inj hx
    exact reverts_end (written rfl)

theorem owner_stays {id ownerId : String} (hi : SingleOrg db) (hs : OrgsShrink db db') (hi' : SingleOrg db')
    (hone : db'.memberships.countP (·.organizationId = id) = 1)
    (ho : (db.organization id).map (·.ownerId) = some ownerId) :
    (db'.organization id).map (·.ownerId) = some ownerId := by
  obtain ⟨m, hm, hid⟩ := List.countP_pos_iff.mp (Nat.lt_of_lt_of_eq Nat.zero_lt_one hone.symm)
  obtain ⟨organization, hfound⟩ := Option.isSome_iff_exists.mp (hi'.valid.foreign m hm)
  rw [of_decide_eq_true hid] at hfound
  obtain ⟨hmem, hkey⟩ := Keyed.find_some hfound
  have hbefore : db.organization id = some organization :=
    hi.valid.ids.find_iff.mpr ⟨hs.organizations organization hmem, hkey⟩
  rw [hfound, ← hbefore, ho]

/-! ### The calls of `addMember` -/

section
variable (ht : (tasks p).adding = some (call, userId))
include ht

theorem reverts_requireOrgId (hu : Unwritten db p) :
    Reverts tasks p (fun orgId db' => Unwritten db' p ∧ db'.Member orgId (buildActorId call.user))
      (OrgService.requireOrgId call (buildActorId call.user)) db := by
  refine reverts_op (fun _ _ _ _ => trivial) fun db₁ cached db₂ hr _ hp hx hi₂ => ?_
  obtain ⟨hcached, rfl⟩ := Prod.mk.inj hx
  have hu₁ : Unwritten db₂ p := hr.1.mpr hu
  cases hfresh : cached.filter (·.expiresAt > call.now) with
  | some entry =>
    obtain ⟨rfl, hexp⟩ := Option.filter_eq_some_iff.mp hfresh
    exact ⟨hu₁, hp call userId ht entry hcached.symm (of_decide_eq_true hexp)⟩
  | none =>
    refine OkIf_bind (Q := fun orgId db' => Unwritten db' p ∧ db'.Member orgId (buildActorId call.user))
      (fun orgId db₃ _ h => ?_) _ db₂ hi₂ ?_
    · refine reverts_op (fun _ _ _ _ => trivial) fun db₄ _ db₅ hr _ _ hx _ => ?_
      obtain ⟨_, rfl⟩ := Prod.mk.inj hx
      exact ⟨hr.1.mpr h.1, (hr.2.2 call userId ht).2 rfl orgId h.2⟩
    · refine reverts_op (fun _ _ _ _ => trivial) fun db₃ existing db₄ hr _ _ hx _ => ?_
      obtain ⟨hfirst, rfl⟩ := Prod.mk.inj hx
      cases existing with
      | none => exact hr.1.mpr hu₁
      | some existing =>
        have hm := List.mem_of_mem_head? hfirst.symm
        rw [List.mem_insertionSort, List.mem_filter] at hm
        exact ⟨hr.1.mpr hu₁, existing, hm.1, rfl, of_decide_eq_true hm.2⟩

theorem reverts_create {role : OrganizationRole} (hn : ∀ id, ¬db.Member id userId)
    (hc : db.Member organizationId (buildActorId call.user)) :
    Reverts tasks p (fun _ _ => True) (OrgService.reassign call organizationId userId role []) db := by
  have hadmits : ∀ db₁,
    (orderly tasks).rely p (some (.createMembership ⟨organizationId, userId, role, call.storedAt⟩)) db db₁ →
      SingleOrg db₁ → (∀ id, ¬db₁.Member id userId) ∧ db₁.admits ⟨organizationId, userId, role,
        call.storedAt⟩ = true := by
    intro db₁ hr hi
    obtain ⟨hnew, hkept⟩ := hr.2.2 call userId ht
    have hnone : ∀ id, ¬db₁.Member id userId := fun id h => hn id (hnew rfl id h)
    obtain ⟨m, hm, rfl, _⟩ := hkept rfl organizationId hc
    refine ⟨hnone, admits_iff.mpr ⟨Keyed.find_none.mpr fun m' hm' hkey => ?_, hi.valid.foreign m hm⟩⟩
    exact hnone _ ⟨m', hm', (Prod.mk.inj hkey).1, (Prod.mk.inj hkey).2⟩
  refine reverts_op (fun db₁ hr hi _ => ?_) fun db₁ r db₂ hr hi _ hx _ => ?_
  · obtain ⟨hnone, hadm⟩ := hadmits db₁ hr hi
    exact ⟨fun m hm hu => absurd ⟨m, hm, rfl, hu⟩ (hnone m.organizationId), fun _ => hadm⟩
  · simp only [orgRun, (hadmits db₁ hr hi).2, if_true] at hx
    obtain ⟨rfl, rfl⟩ := Prod.mk.inj hx
    exact reverts_end (written rfl)

theorem reverts_dropOrphans (other : OrganizationMembership × Option Organization)
    (hi : SingleOrg db) (hu : Unwritten db p)
    (hother : other.2 = db.organization other.1.organizationId) (hne : other.1.organizationId ≠ organizationId)
    (honly : ∀ id, db.Member id userId → id = other.1.organizationId)
    (hc : db.Member organizationId (buildActorId call.user)) :
    Reverts tasks p (fun _ db' => (∀ id, ¬db'.Member id userId) ∧
      db'.Member organizationId (buildActorId call.user)) (OrgService.dropOrphans userId [other]) db := by
  refine reverts_op (fun _ _ _ _ => trivial) fun db₁ memberCount db₂ hr hi₁ hp hx _ => ?_
  obtain ⟨rfl, rfl⟩ := Prod.mk.inj hx
  obtain ⟨hnew, hkept⟩ := hr.2.2 call userId ht
  dsimp only
  split
  · exact hr.1.mpr hu
  · rename_i hsolo
    simp only [Bool.not_eq_true', Bool.not_eq_false, Bool.and_eq_true, decide_eq_true_eq, hother] at hsolo
    have hdocs := hp call userId ht hsolo.1 (owner_stays hi hr.2.1 hi₁ hsolo.1 hsolo.2)
    refine reverts_op (fun db₃ hr₃ _ _ => ?_) fun db₃ r db₄ hr₃ hi₃ _ hx _ => ?_
    · rw [Orderly, hr₃.2.1.documents]
      exact hdocs
    · obtain ⟨hnew₃, hkept₃⟩ := hr₃.2.2 call userId ht
      simp only [orgRun] at hx
      split at hx
      · obtain ⟨rfl, rfl⟩ := Prod.mk.inj hx
        exact hr₃.1.mpr (hr.1.mpr hu)
      · obtain ⟨rfl, rfl⟩ := Prod.mk.inj hx
        refine ⟨fun id hmember => ?_, ?_⟩
        · obtain ⟨m, hm, hid, huser⟩ := hmember
          obtain ⟨hm, hgone⟩ := List.mem_filter.mp hm
          have hmember : db₃.Member m.organizationId userId := ⟨m, hm, rfl, huser⟩
          exact of_decide_eq_true hgone (honly _ (hnew rfl _ (hnew₃ rfl _ hmember)))
        · obtain ⟨m, hm, horg, huser⟩ := hkept₃ rfl _ (hkept rfl _ hc)
          exact ⟨m, List.mem_filter.mpr ⟨hm, decide_eq_true fun h => hne (h.symm.trans horg)⟩, horg, huser⟩

theorem reverts_reassign {role : OrganizationRole} (hi : SingleOrg db) (hu : Unwritten db p)
    (hc : db.Member organizationId (buildActorId call.user))
    (hnone : ((db.memberships.filter (·.userId = userId)).map fun membership =>
      (membership, db.organization membership.organizationId)).find? (·.1.organizationId = organizationId) = none) :
    Reverts tasks p (fun _ _ => True) (OrgService.reassign call organizationId userId role
      (((db.memberships.filter (·.userId = userId)).map fun membership =>
        (membership, db.organization membership.organizationId)).filter
          (·.1.organizationId ≠ organizationId))) db := by
  have helse : ∀ m ∈ db.memberships, m.userId = userId → m.organizationId ≠ organizationId := by
    intro m hm huser horg
    have hin : (m, db.organization m.organizationId) ∈ (db.memberships.filter (·.userId = userId)).map
      fun membership =>
        (membership, db.organization membership.organizationId) :=
      List.mem_map.mpr ⟨m, List.mem_filter.mpr ⟨hm, decide_eq_true huser⟩, rfl⟩
    exact List.find?_eq_none.mp hnone _ hin (decide_eq_true horg)
  have hlen : (db.memberships.filter (·.userId = userId)).length ≤ 1 := by
    refine (hi.valid.keys.filter _).length_le_one fun m hm m' hm' => ?_
    obtain ⟨hm, hu⟩ := List.mem_filter.mp hm
    obtain ⟨hm', hu'⟩ := List.mem_filter.mp hm'
    rw [hi.single m hm m' hm' ((of_decide_eq_true hu).trans (of_decide_eq_true hu').symm)]
  cases hrows : db.memberships.filter (·.userId = userId) with
  | nil =>
    refine reverts_create ht (fun id ⟨m, hm, _, huser⟩ => ?_) hc
    have hin : m ∈ db.memberships.filter (·.userId = userId) := List.mem_filter.mpr ⟨hm, decide_eq_true huser⟩
    rw [hrows] at hin
    cases hin
  | cons m rest =>
    rw [hrows] at hlen
    obtain rfl : rest = [] := List.length_eq_zero_iff.mp (Nat.le_zero.mp (Nat.le_of_succ_le_succ hlen))
    have hin : m ∈ db.memberships.filter (·.userId = userId) := hrows ▸ List.mem_singleton_self m
    obtain ⟨hm, huser⟩ := List.mem_filter.mp hin
    have hne := helse m hm (of_decide_eq_true huser)
    rw [List.map_singleton, List.filter_cons_of_pos (by simpa using hne), List.filter_nil]
    have honly : ∀ id, db.Member id userId → id = m.organizationId := by
      rintro _ ⟨m', hm', rfl, huser'⟩
      rw [hi.single m' hm' m hm (huser'.trans (of_decide_eq_true huser).symm)]
    have hdrop := reverts_dropOrphans ht (m, db.organization m.organizationId) hi hu rfl hne honly hc
    exact OkIf_bind (fun _ db' _ h => reverts_create ht h.1 h.2) _ db hi hdrop

theorem reverts_addMember {target : String} {role : OrganizationRole} (hi : SingleOrg db) (hu : Unwritten db p)
    (htarget : trim target = userId) :
    Reverts tasks p (fun _ _ => True) (OrgService.addMember call target role) db := by
  refine OkIf_bind (fun orgId db₀ _ h => ?_) _ db hi (reverts_requireOrgId ht hu)
  dsimp only
  rw [htarget]
  split
  · exact h.1
  · refine reverts_op (fun _ _ _ _ => trivial) fun _ existing db₁ hr hi₁ _ hx _ => ?_
    obtain ⟨rfl, rfl⟩ := Prod.mk.inj hx
    have hu₁ : Unwritten db₁ p := hr.1.mpr h.1
    have hc₁ := (hr.2.2 call userId ht).2 rfl orgId h.2
    split
    · split
      · trivial
      · exact reverts_setRole hu₁
    · rename_i hnone
      exact reverts_reassign ht hi₁ hu₁ hc₁ hnone

end

/-! ### The other calls -/

def Unadding : OrgOp → Prop
  | .createMembership _ | .deleteOrganization _ => False
  | _ => True

theorem Unadding.orderly {o : OrgOp} (h : Unadding o) : Orderly p db o := by
  cases o <;> first | exact h.elim | trivial

theorem requireOrgId_unadding (actorId : String) : (OrgService.requireOrgId call actorId).Uses Unadding :=
  (OrgService.requireOrgId_uses call actorId).mono fun o hl => by cases o <;> first | exact hl.elim | trivial

theorem findMember_unadding (organizationId targetUserId : String) :
    (OrgService.findMember organizationId targetUserId).Uses Unadding :=
  .bind (fun membership => by cases membership <;> trivial) (.op trivial)

theorem assertNotLastAdmin_unadding (organizationId : String) :
    (OrgService.assertNotLastAdmin organizationId).Uses Unadding :=
  .bind (fun adminCount => by split <;> trivial) (.op trivial)

theorem OrgTask.unadding (t : OrgTask) (ht : t.isAdd = false) : t.prog.Uses Unadding := by
  cases t with
  | addMember => cases ht
  | requireOrgId call actorId => exact .bind (fun _ => .pure _) (requireOrgId_unadding actorId)
  | updateMemberRole call userId role =>
    refine .bind (fun _ => .pure _)
      (.bind (fun _ => .bind (fun orgId => ?_) (requireOrgId_unadding _)) (.ofExcept _))
    refine .bind (fun membership => ?_) (findMember_unadding orgId userId)
    have hset : (OrgService.setRole call orgId userId role).Uses Unadding :=
      .bind (fun _ => .bind (fun _ => .bind (fun _ => .pure _) (.op trivial)) (.ofExcept _)) (.op trivial)
    dsimp only
    split
    · exact .bind (fun _ => hset) (assertNotLastAdmin_unadding orgId)
    · exact hset
  | removeMember call userId =>
    refine .bind (fun _ => .pure _)
      (.bind (fun _ => .bind (fun orgId => ?_) (requireOrgId_unadding _)) (.ofExcept _))
    refine .bind (fun membership => ?_) (findMember_unadding orgId userId)
    dsimp only
    split
    · refine .bind (fun _ => ?_) (assertNotLastAdmin_unadding orgId)
      exact .bind (fun _ => .bind (fun _ => .bind (fun _ => .pure _) (.op trivial)) (.ofExcept _)) (.op trivial)
    · exact .bind (fun _ => .bind (fun _ => .bind (fun _ => .pure _) (.op trivial)) (.ofExcept _)) (.op trivial)

theorem task_reverts (t : OrgTask) (ht : tasks p = t) (hi : SingleOrg db) (hu : Unwritten db p) :
    OkIf (orderly tasks) MayFail p (fun _ _ => True) (fun _ db => t.isAdd = true → Unwritten db p) t.prog db := by
  cases hadd : t.isAdd with
  | true =>
    cases t with
    | addMember call userId role =>
      refine OkIf_mono (fun _ _ h => h) (fun _ _ h _ => h) _ db ?_
      refine OkIf_bind (Q := fun _ _ => True) (fun _ _ _ _ => ?_) _ db hi ?_
      · trivial
      · refine OkIf_ofExcept_bind (fun _ _ => ?_) fun _ _ => hu
        split
        · exact hu
        · exact reverts_addMember (by rw [ht]; rfl) hi hu rfl
    | _ => cases hadd
  | false =>
    refine OkIf_mono (fun _ _ h => h) (fun _ _ _ => nofun) _ db (OkIf_uses (J := fun _ => True)
      (fun _ _ _ _ _ _ _ => trivial) (fun o db ho _ _ _ => ho.orderly) ?_ _ db (t.unadding hadd) trivial)
    exact fun o db r db' ho hi _ _ hx => ⟨single_step hi ho.orderly hx, trivial⟩

/-! ## Runs -/

variable [DecidableEq ι] {c : Config ι (OrgDb ι) OrgOp OrgOp.Res HttpError OrgOutcome}

/-- The process has looked at the memberships of the user for a call of `addMember` and
has not added the user yet. -/
def Adding (tasks : ι → OrgTask) (c : Config ι (OrgDb ι) OrgOp OrgOp.Res HttpError OrgOutcome)
    (userId : String) (p : ι) :
    Prop :=
  (tasks p).adding.map Prod.snd = some userId ∧ (c.procs p).next.any OrgOp.adds = true

def AddingBy (tasks : ι → OrgTask) (c : Config ι (OrgDb ι) OrgOp OrgOp.Res HttpError OrgOutcome)
    (userId : String) (p : ι) :
    Prop :=
  (tasks p).adding.map (fun adding => buildActorId adding.1.user) = some userId ∧
    (c.procs p).next.any OrgOp.resolved = true

/-- Nobody adds a membership of a user whom another call of `addMember` is adding or removes that of its caller, and
such a call finds its cache up to date and no document of an organization that it takes for an orphan. -/
def MembersApart (tasks : ι → OrgTask) (c : Config ι (OrgDb ι) OrgOp OrgOp.Res HttpError OrgOutcome) (p : ι) :
    OrgOp → Prop
  | .createMembership membership => ∀ q, q ≠ p → ¬Adding tasks c membership.userId q
  | .deleteMembership _ userId => ∀ q, q ≠ p → ¬AddingBy tasks c userId q
  | .deleteOrganization id =>
      ∀ m ∈ c.store.memberships, m.organizationId = id → ∀ q, q ≠ p → ¬AddingBy tasks c m.userId q
  | o => ∀ adding ∈ (tasks p).adding, FindsInOrder adding.1 adding.2 c.store o

omit [DecidableEq ι] in
theorem MembersApart.finds {o : OrgOp} (h : MembersApart tasks c p o) : (orderly tasks).pre p c.store o := by
  intro call userId ht
  cases o with
  | createMembership | deleteMembership | deleteOrganization => trivial
  | _ => exact h (call, userId) ht

omit [DecidableEq ι] in
theorem MembersApart.rely {q : ι} {o : OrgOp} {r : o.Res} (h : MembersApart tasks c q o)
    (hx : OrgExec q c.store o r db') (hne : p ≠ q) : (orderly tasks).rely p (c.procs p).next c.store db' := by
  refine ⟨unwritten_other hx hne, orgs_shrink hx, fun call userId ht => ⟨fun ho id => ?_, fun ho id hm => ?_⟩⟩
  · refine member_new hx fun membership he huser => ?_
    subst he
    exact h p hne ⟨by rw [ht, huser]; rfl, ho⟩
  · have hcaller : AddingBy tasks c (buildActorId call.user) p := ⟨by rw [ht]; rfl, ho⟩
    refine member_kept hx ?_ ?_ hm
    · rintro rfl
      exact h p hne hcaller
    · rintro rfl
      obtain ⟨m, hmem, horg, huser⟩ := hm
      exact h m hmem horg p hne (huser ▸ hcaller)

/-- In every such interleaving each user is in one organization at most and each document in one that exists, and a
call of `addMember` that fails has written nothing. -/
theorem single_membership (h₀ : SingleOrg db)
    (hr : ReachIf OrgExec (MembersApart tasks) MayFail (startOrgs db tasks) c) :
    SingleOrg c.store ∧ ∀ p e, (tasks p).isAdd = true → c.procs p = .throw e → Unwritten c.store p := by
  have hs : SingleOrg (startOrgs db tasks).store :=
    ⟨⟨h₀.valid.ids, h₀.valid.keys, h₀.valid.foreign⟩, h₀.single, h₀.documents⟩
  obtain ⟨hi, hok⟩ := ReachIf.ok (S := orderly tasks) (Q := fun _ _ _ => True)
    (E := fun p _ db => (tasks p).isAdd = true → Unwritten db p) hr orderly_closed hs
    (fun p => task_reverts (tasks p) rfl hs fun _ hw => nomatch hw) (fun _ _ _ h => h.finds)
    (fun _ _ _ _ _ _ _ => trivial) (fun _ _ _ _ h hr _ ht => hr.1.mpr (h ht))
    (fun c p q o k r db' _ _ hx hc _ hne => hc.rely hx hne)
  refine ⟨hi, fun p e ht hp => ?_⟩
  have hown := hok p
  rw [hp] at hown
  exact hown ht

end

/-! ## A user with an organization of their own -/

section
variable {ι : Type}

instance (db : OrgDb ι) (organizationId userId : String) : Decidable (db.Member organizationId userId) :=
  inferInstanceAs (Decidable (∃ membership ∈ db.memberships, _))

instance [DecidableEq ι] (p : ι) (db : OrgDb ι) : Decidable (Unwritten db p) :=
  inferInstanceAs (Decidable (∀ w ∈ db.log, w.process ≠ p))

instance (call : OrgCall) (userId : String) (db : OrgDb ι) : DecidablePred (FindsInOrder call userId db)
  | .cacheGet node actorId =>
      inferInstanceAs (Decidable (∀ entry ∈ db.cache node actorId, entry.expiresAt > call.now →
      db.Member entry.orgId actorId))
  | .countMembers id => inferInstanceAs (Decidable (db.memberships.countP (·.organizationId = id) = 1 →
      (db.organization id).map (·.ownerId) = some userId → ∀ document ∈ db.documents, document.organizationId ≠ id))
  | .cacheSet _ _ _ | .invalidate _ _ | .firstMembership _ | .findMemberships _
      | .findMembership _ _ | .countAdmins _
  | .updateRole _ _ _ | .createMembership _ | .deleteMembership _ _ | .deleteOrganization _ => isTrue trivial

variable (tasks : ι → OrgTask) (c : Config ι (OrgDb ι) OrgOp OrgOp.Res HttpError OrgOutcome)

instance (userId : String) (p : ι) : Decidable (Adding tasks c userId p) := inferInstanceAs (Decidable (_ ∧ _))

instance (userId : String) (p : ι) : Decidable (AddingBy tasks c userId p) := inferInstanceAs (Decidable (_ ∧ _))

instance [Fintype ι] [DecidableEq ι] (p : ι) : DecidablePred (MembersApart tasks c p)
  | .createMembership membership => inferInstanceAs (Decidable (∀ q, q ≠ p → ¬Adding tasks c membership.userId q))
  | .deleteMembership _ userId => inferInstanceAs (Decidable (∀ q, q ≠ p → ¬AddingBy tasks c userId q))
  | .deleteOrganization id => inferInstanceAs (Decidable (∀ m ∈ c.store.memberships, m.organizationId = id →
      ∀ q, q ≠ p → ¬AddingBy tasks c m.userId q))
  | .cacheGet node actorId => inferInstanceAs (Decidable (∀ adding ∈ (tasks p).adding,
      FindsInOrder adding.1 adding.2 c.store (.cacheGet node actorId)))
  | .countMembers id => inferInstanceAs (Decidable (∀ adding ∈ (tasks p).adding,
      FindsInOrder adding.1 adding.2 c.store (.countMembers id)))
  | .cacheSet _ _ _ | .invalidate _ _ | .firstMembership _ | .findMemberships _
      | .findMembership _ _ | .countAdmins _
  | .updateRole _ _ _ => isTrue fun _ _ => trivial

end

def soloOrg {ι : Type} (documents : List Document) : OrgDb ι where
  organizations := [⟨"o-1", "u-1"⟩, ⟨"o-2", "u-2"⟩]
  memberships := [⟨"o-1", "u-1", .ADMIN, 0⟩, ⟨"o-2", "u-2", .ADMIN, 0⟩]
  documents := documents
  cache _ _ := none
  log := []

def reassigning {ι : Type} : ι → OrgTask := fun _ => .addMember (adminCall "u-1" 10) "u-2" none

theorem soloOrg_single : SingleOrg (soloOrg [] : OrgDb (Fin 2)) :=
  ⟨⟨by decide, by decide, by decide⟩, by decide, fun _ => nofun⟩

-- The second call looks at the memberships of the user when the first one has reassigned them.
def reassigned : Config (Fin 2) (OrgDb (Fin 2)) OrgOp OrgOp.Res HttpError OrgOutcome :=
  schedule orgRun (startOrgs (soloOrg []) reassigning) [0, 0, 1, 0, 1, 0, 0, 1, 0, 0, 1]

theorem single_membership_sample : SingleOrg reassigned.store ∧
    ∀ p e, (reassigning p).isAdd = true → reassigned.procs p = .throw e → Unwritten reassigned.store p :=
  single_membership soloOrg_single
    (ReachIf.schedule (fun _ _ _ => rfl) _ _ .refl (meets_iff _ _ (by decide +kernel)))

def soloDocument : Document := { id := "d-1", organizationId := "o-2", ownerId := "u-2" }

-- The organization goes, and its document stays.
theorem document_orphaned : ¬ ∀ (db : OrgDb Nat) (tasks : Nat → OrgTask)
    (c : Config Nat (OrgDb Nat) OrgOp OrgOp.Res HttpError OrgOutcome), SingleOrg db →
    Reach OrgExec (fun _ _ _ => True) (startOrgs db tasks) c →
      SingleOrg c.store ∧ ∀ p e, (tasks p).isAdd = true → c.procs p = .throw e → Unwritten c.store p := by
  intro h
  have hs : SingleOrg (soloOrg [soloDocument] : OrgDb Nat) :=
    ⟨⟨by decide, by decide, by decide⟩, by decide, by decide⟩
  have hr : Reach OrgExec (fun _ _ _ => True) (startOrgs (soloOrg [soloDocument]) reassigning)
      (orgSchedule (soloOrg [soloDocument]) reassigning [0, 0, 0, 0, 0, 0]) :=
    Reach.schedule (fun _ _ _ => rfl) _ _ .refl (meets_true _ _)
  exact absurd ((h _ _ _ hs hr).1.documents soloDocument (by decide +kernel)) (by decide +kernel)

end DocVault
