import DocVault.Organizations
import Mathlib.Data.Fintype.Basic

/-!
# The admins of an organization

A role update and a removal that hit an admin leave the organization without
one unless they find another admin there. The guarded calls see to that as long
as nobody else changes a role or removes a member of the organization between
their last look at it and their write; the role update of `addMember` has no
guard.
-/

namespace DocVault

open Interleave

section
variable {ι : Type} {p : ι} {db db' : OrgDb ι} {organizationId userId : String}

def HasAdmin (db : OrgDb ι) (organizationId : String) : Prop :=
  ∃ membership ∈ db.memberships, membership.organizationId = organizationId ∧ membership.role = .ADMIN

def OtherAdmin (db : OrgDb ι) (organizationId userId : String) : Prop :=
  ∃ membership ∈ db.memberships, membership.organizationId = organizationId ∧ membership.role = .ADMIN ∧
    membership.userId ≠ userId

def IsAdmin (db : OrgDb ι) (organizationId userId : String) : Prop :=
  ∃ membership ∈ db.memberships, membership.organizationId = organizationId ∧ membership.role = .ADMIN ∧
    membership.userId = userId

/-- A write that takes an admin away finds another one. -/
def AdminSpared (db : OrgDb ι) : OrgOp → Prop
  | .updateRole organizationId userId role =>
    role = .MEMBER → IsAdmin db organizationId userId → OtherAdmin db organizationId userId
  | .deleteMembership organizationId userId =>
      IsAdmin db organizationId userId → OtherAdmin db organizationId userId
  | _ => True

/-! ## One operation -/

theorem spared_elsewhere {id : String} (ha : HasAdmin db id)
    (hs : IsAdmin db organizationId userId → OtherAdmin db organizationId userId) :
    ∃ admin ∈ db.memberships, admin.key ≠ (organizationId, userId) ∧ admin.organizationId = id ∧
    admin.role = .ADMIN := by
  obtain ⟨admin, hm, rfl, hrole⟩ := ha
  by_cases hkey : admin.key = (organizationId, userId)
  · obtain ⟨horg, huser⟩ := Prod.mk.inj hkey
    obtain ⟨other, ho, hoorg, horole, hne⟩ := hs ⟨admin, hm, horg, hrole, huser⟩
    exact ⟨other, ho, fun hk => hne (Prod.mk.inj hk).2, hoorg.trans horg.symm, horole⟩
  · exact ⟨admin, hm, hkey, rfl, hrole⟩

theorem admin_updateRole {role : OrganizationRole} {membership : OrganizationMembership}
    (found : db.membership organizationId userId = some membership)
    (hs : AdminSpared db (.updateRole organizationId userId role)) {id : String} (ha : HasAdmin db id) :
    HasAdmin (db.updateRole p organizationId userId role membership) id := by
  obtain ⟨hm, horg, huser⟩ := membership_some found
  cases role with
  | MEMBER =>
    obtain ⟨admin, hadmin, hkey, ho, hrole⟩ := spared_elsewhere ha (hs rfl)
    exact ⟨admin, (Keyed.mem_put found).mpr (.inr ⟨hadmin, hkey⟩), ho, hrole⟩
  | ADMIN =>
    obtain ⟨admin, hadmin, rfl, hrole⟩ := ha
    by_cases hkey : admin.key = (organizationId, userId)
    · exact ⟨_, (Keyed.mem_put found).mpr (.inl rfl), horg.trans (Prod.mk.inj hkey).1.symm, rfl⟩
    · exact ⟨admin, (Keyed.mem_put found).mpr (.inr ⟨hadmin, hkey⟩), rfl, hrole⟩

theorem admin_step {o : OrgOp} {r : o.Res} (hx : OrgExec p db o r db') (hs : AdminSpared db o) {id : String}
    (ha : HasAdmin db id) (he : (db'.organization id).isSome = true) : HasAdmin db' id := by
  rcases org_writes hx with rfl | hw
  · exact ha
  · cases hw with
    | store | drop => exact ha
    | updateRole found => exact admin_updateRole found hs ha
    | create new =>
      obtain ⟨admin, hadmin, hr⟩ := ha
      exact ⟨admin, List.mem_append_left _ hadmin, hr⟩
    | @remove organizationId userId membership found =>
      obtain ⟨admin, hadmin, hkey, hr⟩ := spared_elsewhere ha hs
      exact ⟨admin, List.mem_filter.mpr ⟨hadmin, decide_eq_true hkey⟩, hr⟩
    | @deleteOrganization id' organization found =>
      obtain ⟨admin, hadmin, ho, hrole⟩ := ha
      have hne : id ≠ id' := (organization_remove.mp he).1
      exact ⟨admin, List.mem_filter.mpr ⟨hadmin, decide_eq_true fun h => hne (ho.symm.trans h)⟩, ho, hrole⟩

theorem organization_before {o : OrgOp} {r : o.Res} (hx : OrgExec p db o r db') {id : String}
    (he : (db'.organization id).isSome = true) : (db.organization id).isSome = true := by
  rcases org_writes hx with rfl | hw
  · exact he
  · cases hw with
    | deleteOrganization found => exact (organization_remove.mp he).2
    | _ => exact he

/-! ## The guard -/

theorem other_of_count (hu : Keyed.Unique (·.key) db.memberships)
    (hc : 1 < db.memberships.countP fun membership =>
      membership.organizationId = organizationId && membership.role = .ADMIN) (userId : String) :
    OtherAdmin db organizationId userId := by
  by_contra hother
  rw [List.countP_eq_length_filter] at hc
  have hsub : ((db.memberships.filter fun membership =>
      membership.organizationId = organizationId && membership.role = .ADMIN).map (·.key)) ⊆
      [(organizationId, userId)] := by
    intro k hk
    obtain ⟨m, hm, rfl⟩ := List.mem_map.mp hk
    obtain ⟨hm, hadmin⟩ := List.mem_filter.mp hm
    simp only [Bool.and_eq_true, decide_eq_true_eq] at hadmin
    refine List.mem_singleton.mpr (Prod.ext hadmin.1 ?_)
    by_contra huser
    exact hother ⟨m, hm, hadmin.1, hadmin.2, huser⟩
  have hle := (List.subperm_of_subset (hu.filter _) hsub).length_le
  rw [List.length_map, List.length_singleton] at hle
  omega

/-- As long as the organization exists, the user is a member without the role, or another one has it. -/
def Settled (db : OrgDb ι) (organizationId userId : String) : Prop :=
  (db.organization organizationId).isSome = true → OtherAdmin db organizationId userId ∨
    ∃ membership, db.membership organizationId userId = some membership ∧ membership.role = .MEMBER

theorem Settled.spares (hv : db.Valid) (h : Settled db organizationId userId) :
    IsAdmin db organizationId userId → OtherAdmin db organizationId userId := by
  rintro ⟨admin, hm, rfl, hrole, rfl⟩
  rcases h (hv.foreign admin hm) with hother | ⟨membership, found, hmember⟩
  · exact hother
  · obtain ⟨hmem, horg, huser⟩ := membership_some found
    obtain rfl := hv.keys.eq hm hmem (Prod.ext horg.symm huser.symm)
    exact absurd (hrole.symm.trans hmember) nofun

theorem rows_kept {o : OrgOp} {r : o.Res} (hx : OrgExec p db o r db')
    (ho : ∀ user role, o ≠ .updateRole organizationId user role) (hd : ∀ user,
      o ≠ .deleteMembership organizationId user)
    (he : (db'.organization organizationId).isSome = true) {m : OrganizationMembership} (hm : m ∈ db.memberships)
    (horg : m.organizationId = organizationId) : m ∈ db'.memberships := by
  rcases org_writes hx with rfl | hw
  · exact hm
  · cases hw with
    | store | drop => exact hm
    | create new => exact List.mem_append_left _ hm
    | @updateRole org user role membership found =>
      refine (Keyed.mem_put found).mpr (.inr ⟨hm, fun hkey => ho user role ?_⟩)
      rw [← horg, ← (Prod.mk.inj hkey).1]
    | @remove org user membership found =>
      refine List.mem_filter.mpr ⟨hm, decide_eq_true fun hkey => hd user ?_⟩
      rw [← horg, ← (Prod.mk.inj hkey).1]
    | @deleteOrganization id organization found =>
      have hne : organizationId ≠ id := (organization_remove.mp he).1
      exact List.mem_filter.mpr ⟨hm, decide_eq_true fun h => hne (horg.symm.trans h)⟩

theorem Settled.step {o : OrgOp} {r : o.Res} (hv : db.Valid) (hx : OrgExec p db o r db')
    (ho : ∀ user role, o ≠ .updateRole organizationId user role) (hd : ∀ user,
      o ≠ .deleteMembership organizationId user)
    (h : Settled db organizationId userId) : Settled db' organizationId userId := by
  intro he
  rcases h (organization_before hx he) with ⟨admin, hm, horg, hadmin⟩ | ⟨membership, found, hmember⟩
  · exact .inl ⟨admin, rows_kept hx ho hd he hm horg, horg, hadmin⟩
  · obtain ⟨hm, horg, huser⟩ := membership_some found
    have hkept : membership ∈ db'.memberships := rows_kept hx ho hd he hm horg
    exact .inr ⟨membership, (valid_step hv hx).keys.find_iff.mpr ⟨hkept, Prod.ext horg huser⟩, hmember⟩

/-! ## Calls -/

/-- The member that an operation demotes or removes. -/
def OrgOp.demotes : OrgOp → Option (String × String)
  | .updateRole organizationId userId .MEMBER => some (organizationId, userId)
  | .deleteMembership organizationId userId => some (organizationId, userId)
  | _ => none

/-- Each write spares an admin, where the others leave a call that stands before such a write a settled target. -/
def sparing (tasks : ι → OrgTask) : Spec ι (OrgDb ι) OrgOp OrgOp.Res where
  exec := OrgExec
  pre p db o := (tasks p).isAdd = true → ∀ organizationId userId, o = .updateRole organizationId userId .MEMBER →
    ¬IsAdmin db organizationId userId
  inv := OrgDb.Valid
  rely _ o db db' := ∀ key, o.bind OrgOp.demotes = some key → Settled db key.1 key.2 → Settled db' key.1 key.2
  guar _ := AdminSpared

variable {α : Type} {call : OrgCall} {tasks : ι → OrgTask}

theorem sparing_closed : (sparing tasks).Closed where
  refl _ _ _ _ _ h := h
  trans _ _ _ _ _ h h' key ho hs := h' key ho (h key ho hs)

abbrev Spares (tasks : ι → OrgTask) (p : ι) (m : OrgM α) (db : OrgDb ι) : Prop :=
  Ok (sparing tasks) p (fun _ _ => True) (fun _ _ => True) m db

theorem spares_op {o : OrgOp} {k : o.Res → OrgM α}
    (hs : ∀ db', db'.Valid → (sparing tasks).rely p (some o) db db' → AdminSpared db' o)
    (hk : ∀ r db' db'', (r, db'') = orgRun p db' o → db''.Valid → Spares tasks p (k r) db'') :
    Spares tasks p (Prog.op o >>= k) db := by
  refine Ok_op (fun db' hr hv _ => hs db' hv hr) (fun _ _ _ _ => trivial) fun db' r db'' _ hv _ hx => ?_
  exact ⟨valid_step hv hx, hk r db' db'' hx (valid_step hv hx)⟩

theorem spares_uses {U : OrgOp → Prop}
    (hU : ∀ o db, U o → (sparing tasks).pre p db o → AdminSpared db o) {m : OrgM α}
    (hm : m.Uses U) (db : OrgDb ι) : Spares tasks p m db :=
  Ok_uses (J := fun _ => True) (fun _ _ _ _ _ _ _ => trivial) (fun o db ho _ _ hp => hU o db ho hp)
    (fun _ _ _ _ _ hv _ _ hx => ⟨valid_step hv hx, trivial⟩) m db hm trivial

theorem spares_requireOrgId {f : String → OrgM α} {actorId : String} (hv : db.Valid)
    (hf : ∀ orgId db', db'.Valid → Spares tasks p (f orgId) db') :
    Spares tasks p (OrgService.requireOrgId call actorId >>= f) db := by
  refine Ok_bind (Q := fun _ _ => True) (fun orgId db' hv' _ => hf orgId db' hv') _ db hv ?_
  refine spares_uses (fun o db hl _ => ?_) (OrgService.requireOrgId_uses call actorId) db
  cases o with
  | cacheGet | cacheSet | firstMembership => trivial
  | _ => exact hl.elim

theorem spares_findMember {f : OrganizationMembership → OrgM α}
    (hf : ∀ db' membership, db'.Valid → db'.membership organizationId userId = some membership →
      Spares tasks p (f membership) db') :
    Spares tasks p (OrgService.findMember organizationId userId >>= f) db := by
  refine spares_op (fun _ _ _ => trivial) fun r db' db'' hx hv => ?_
  obtain ⟨hr, rfl⟩ := Prod.mk.inj hx
  cases r with
  | none => trivial
  | some membership => exact hf db'' membership hv hr.symm

theorem assertNotLastAdmin_bind (f : Unit → OrgM α) : OrgService.assertNotLastAdmin organizationId >>= f =
    Prog.op (OrgOp.countAdmins organizationId) >>= fun adminCount =>
      if adminCount ≤ 1 then .throw (.badRequest "Cannot remove or demote the last admin of an organization")
      else f () := by
  refine congrArg (Prog.call (OrgOp.countAdmins organizationId)) (funext fun adminCount => ?_)
  show (if adminCount ≤ 1 then _ else pure ()) >>= f = if adminCount ≤ 1 then _ else f ()
  split <;> rfl

theorem spares_guard {guarded : Prop} [Decidable guarded] {f : Unit → OrgM α} {membership : OrganizationMembership}
    (found : db.membership organizationId userId = some membership) (hg : ¬guarded → membership.role = .MEMBER)
    (hf : ∀ db', Settled db' organizationId userId → Spares tasks p (f ()) db') :
    Spares tasks p (if guarded then OrgService.assertNotLastAdmin organizationId >>= f else f ()) db := by
  split
  · rw [assertNotLastAdmin_bind]
    refine spares_op (fun _ _ _ => trivial) fun r db' db'' hx hv => ?_
    obtain ⟨rfl, rfl⟩ := Prod.mk.inj hx
    split
    · trivial
    · rename_i hc
      exact hf db'' fun _ => .inl (other_of_count hv.keys (Nat.lt_of_not_le hc) userId)
  · rename_i hn
    exact hf db fun _ => .inr ⟨membership, found, hg hn⟩

theorem spares_setRole {role : OrganizationRole} (hs : role = .MEMBER → Settled db organizationId userId) :
    Spares tasks p (OrgService.setRole call organizationId userId role) db := by
  refine spares_op (fun db' hv hr => ?_) fun r _ db'' _ _ => Ok_ofExcept_bind (fun _ _ => ?_) fun _ _ => trivial
  · rintro rfl
    exact (hr (organizationId, userId) rfl (hs rfl)).spares hv
  · exact spares_op (fun _ _ _ => trivial) fun _ _ _ _ _ => trivial

theorem spares_updateMemberRole {role : OrganizationRole} (hv : db.Valid) :
    Spares tasks p (OrgService.updateMemberRole call userId role) db := by
  refine spares_requireOrgId hv fun orgId db₁ _ => spares_findMember fun db₂ membership hv₂ found => ?_
  cases role with
  | ADMIN =>
    rw [if_neg (by simp)]
    exact spares_setRole nofun
  | MEMBER =>
    refine spares_guard found (fun hne => ?_) fun db₃ hs => spares_setRole fun _ => hs
    cases hrole : membership.role with
    | ADMIN => exact absurd (by simp [hrole]) hne
    | MEMBER => rfl

theorem spares_removeMember (hv : db.Valid) : Spares tasks p (OrgService.removeMember call userId) db := by
  refine spares_requireOrgId hv fun orgId db₁ _ => spares_findMember fun db₂ membership hv₂ found => ?_
  refine spares_guard found (fun hne => ?_) fun db₃ hs => ?_
  · cases hrole : membership.role with
    | ADMIN => exact absurd hrole hne
    | MEMBER => rfl
  · refine spares_op (fun db' hv' hr => (hr (orgId, userId) rfl hs).spares hv') fun r _ db' _ _ => ?_
    refine Ok_ofExcept_bind (fun _ _ => ?_) fun _ _ => trivial
    exact spares_op (fun _ _ _ => trivial) fun _ _ _ _ _ => trivial

def Adds : OrgOp → Prop
  | .deleteMembership _ _ => False
  | _ => True

theorem dropOrphans_adds (target : String) :
    ∀ others : List (OrganizationMembership × Option Organization), (OrgService.dropOrphans target others).Uses Adds
  | [] => trivial
  | other :: others => by
    refine .bind (fun memberCount => ?_) (.op trivial)
    dsimp only
    split
    · trivial
    · exact .bind (fun _ => .bind (fun _ => dropOrphans_adds target others) (.ofExcept _)) (.op trivial)

theorem setRole_adds (organizationId targetUserId : String) (role : OrganizationRole) :
    (OrgService.setRole call organizationId targetUserId role).Uses Adds :=
  .bind (fun _ => .bind (fun _ => .bind (fun _ => .pure _) (.op trivial)) (.ofExcept _)) (.op trivial)

theorem addMember_adds (targetUserId : String) (role : OrganizationRole) :
    (OrgService.addMember call targetUserId role).Uses Adds := by
  refine .bind (fun orgId => ?_) ((OrgService.requireOrgId_uses call _).mono fun o hl => ?_)
  · dsimp only
    split
    · trivial
    · refine .bind (fun existingMemberships => ?_) (.op trivial)
      split
      · split
        · trivial
        · exact setRole_adds orgId _ role
      · refine .bind (fun _ => .bind (fun _ => .bind (fun _ => ?_) (.ofExcept _)) (.op trivial))
          (dropOrphans_adds _ _)
        exact .bind (fun _ => .pure _) (.op trivial)
  · cases o with
    | deleteMembership => exact hl.elim
    | _ => trivial

theorem spares_answer {m : OrgM α} {answer : α → OrgOutcome} (hv : db.Valid) (h : Spares tasks p m db) :
    Spares tasks p (m >>= fun a => pure (answer a)) db := by
  refine Ok_bind (Q := fun _ _ => True) (fun _ _ _ _ => ?_) m db hv h
  trivial

theorem task_spares (t : OrgTask) (ht : tasks p = t) (hv : db.Valid) : Spares tasks p t.prog db := by
  cases t with
  | requireOrgId call actorId => exact spares_requireOrgId hv fun _ _ _ => trivial
  | updateMemberRole call userId role =>
    refine spares_answer hv (Ok_ofExcept_bind (fun _ _ => ?_) fun _ _ => trivial)
    exact spares_updateMemberRole hv
  | removeMember call userId =>
    refine spares_answer hv (Ok_ofExcept_bind (fun _ _ => ?_) fun _ _ => trivial)
    exact spares_removeMember hv
  | addMember call userId role =>
    refine spares_answer hv (Ok_ofExcept_bind (fun _ _ => ?_) fun _ _ => trivial)
    split
    · trivial
    · refine spares_uses (fun o db ho hp => ?_) (addMember_adds (trim userId) (role.getD .MEMBER)) db
      cases o with
      | updateRole organizationId userId role =>
        rintro rfl hadmin
        exact absurd hadmin (hp (by rw [ht]; rfl) organizationId userId rfl)
      | deleteMembership => exact ho.elim
      | _ => trivial

/-! ## Runs -/

variable [DecidableEq ι] {c c' : Config ι (OrgDb ι) OrgOp OrgOp.Res HttpError OrgOutcome}

/-- The process stands before a write that demotes or removes a member of the organization. -/
def Demoting (c : Config ι (OrgDb ι) OrgOp OrgOp.Res HttpError OrgOutcome)
    (organizationId : String) (p : ι) : Prop :=
  ((c.procs p).next.bind OrgOp.demotes).map Prod.fst = some organizationId

/-- Nobody changes a role or removes a member of an organization while another process stands before a demotion or a
removal there, and no call of `addMember` demotes an admin. -/
def RolesApart (tasks : ι → OrgTask) (c : Config ι (OrgDb ι) OrgOp OrgOp.Res HttpError OrgOutcome)
    (p : ι) : OrgOp → Prop
  | .updateRole organizationId userId role => (∀ q, q ≠ p → ¬Demoting c organizationId q) ∧
      ((tasks p).isAdd = true → role = .MEMBER → ¬IsAdmin c.store organizationId userId)
  | .deleteMembership organizationId _ => ∀ q, q ≠ p → ¬Demoting c organizationId q
  | _ => True

omit [DecidableEq ι] in
theorem RolesApart.addMember {o : OrgOp} (h : RolesApart tasks c p o) : (sparing tasks).pre p c.store o := by
  rintro ht organizationId userId rfl
  exact h.2 ht rfl

theorem reach_spared (h₀ : db.Valid) (hr : Reach OrgExec (RolesApart tasks) (startOrgs db tasks) c) :
    c.store.Valid ∧ ∀ p, Spares tasks p (c.procs p) c.store := by
  have hv : (startOrgs db tasks).store.Valid := ⟨h₀.ids, h₀.keys, h₀.foreign⟩
  refine Reach.ok (S := sparing tasks) (Q := fun _ _ _ => True) (E := fun _ _ _ => True) hr sparing_closed hv
    (fun p => task_spares (tasks p) rfl hv) (fun c p o hc => hc.addMember) (fun _ _ _ _ _ _ _ => trivial)
    (fun _ _ _ _ _ _ _ => trivial) ?_
  intro c p q o k r db' hv hq hx hc _ hpq key hkey hs
  have hdemoting : Demoting c key.1 p := by rw [Demoting, hkey]; rfl
  refine hs.step hv hx ?_ ?_
  · rintro user role rfl
    exact hc.1 p hpq hdemoting
  · rintro user rfl
    exact hc p hpq hdemoting

/-- An organization that has an admin keeps one as long as it exists, from any state of any calls on, in every
interleaving in which demotions and removals of one organization do not overlap and `addMember` demotes no admin. -/
theorem admin_kept (h₀ : db.Valid) (hr : Reach OrgExec (RolesApart tasks) (startOrgs db tasks) c)
    (h : Reach OrgExec (RolesApart tasks) c c') {id : String} (ha : HasAdmin c.store id)
    (he : (c'.store.organization id).isSome = true) : HasAdmin c'.store id := by
  induction h with
  | refl => exact ha
  | @exec d p o k r db' h hp hx hc ih =>
    obtain ⟨hv, hok⟩ := reach_spared h₀ (hr.trans h)
    have hown := hok p
    rw [hp] at hown
    have hs : AdminSpared d.store o := hown.guar sparing_closed hv hc.addMember
    exact admin_step hx hs (ih (organization_before hx he)) he
  | fail _ _ _ ih => exact ih he

end

/-! ## The only admin, added again as a member -/

section
variable {ι : Type} (db : OrgDb ι) (organizationId userId : String)

instance : Decidable (HasAdmin db organizationId) :=
  inferInstanceAs (Decidable (∃ membership ∈ db.memberships, _))

instance : Decidable (IsAdmin db organizationId userId) :=
  inferInstanceAs (Decidable (∃ membership ∈ db.memberships, _))

end

instance {ι : Type} (c : Config ι (OrgDb ι) OrgOp OrgOp.Res HttpError OrgOutcome)
    (organizationId : String) (p : ι) :
    Decidable (Demoting c organizationId p) := inferInstanceAs (Decidable (_ = _))

instance {ι : Type} [Fintype ι] [DecidableEq ι] (tasks : ι → OrgTask)
    (c : Config ι (OrgDb ι) OrgOp OrgOp.Res HttpError OrgOutcome) (p : ι) : DecidablePred (RolesApart tasks c p)
  | .updateRole organizationId userId role =>
    inferInstanceAs (Decidable ((∀ q, q ≠ p → ¬Demoting c organizationId q) ∧
      ((tasks p).isAdd = true → role = .MEMBER → ¬IsAdmin c.store organizationId userId)))
  | .deleteMembership organizationId _ => inferInstanceAs (Decidable (∀ q, q ≠ p → ¬Demoting c organizationId q))
  | .cacheGet _ _ | .cacheSet _ _ _ | .invalidate _ _ | .firstMembership _
      | .findMemberships _ | .findMembership _ _
  | .countMembers _ | .countAdmins _ | .createMembership _ | .deleteOrganization _ => isTrue trivial

def oneAdmin {ι : Type} : OrgDb ι where
  organizations := [⟨"o-1", "u-1"⟩]
  memberships := [⟨"o-1", "u-1", .ADMIN, 0⟩]
  documents := []
  cache _ _ := none
  log := []

-- The admin makes another user an admin, and leaves; a third call is refused to remove the one who stays.
def handingOver : Fin 3 → OrgTask
  | 0 => .addMember (adminCall "u-1" 10) "u-2" (some .ADMIN)
  | 1 => .removeMember (adminCall "u-1" 20) "u-1"
  | 2 => .removeMember (adminCall "u-2" 30) "u-2"

-- The two removals run side by side: the second one counts when the first one is done.
def handedOver : Config (Fin 3) (OrgDb (Fin 3)) OrgOp OrgOp.Res HttpError OrgOutcome :=
  schedule orgRun (startOrgs oneAdmin handingOver) [0, 0, 0, 0, 0, 0, 2, 1, 2, 1, 2, 1, 1, 2, 1, 1, 2]

theorem admin_kept_sample : HasAdmin handedOver.store "o-1" ∧ ¬IsAdmin handedOver.store "o-1" "u-1" :=
  have hr : Reach OrgExec (RolesApart handingOver) (startOrgs oneAdmin handingOver) handedOver :=
    Reach.schedule (fun _ _ _ => rfl) _ _ .refl (meets_iff _ _ (by decide +kernel))
  have hv : (oneAdmin : OrgDb (Fin 3)).Valid := ⟨by decide, by decide, by decide⟩
  ⟨admin_kept hv .refl hr (by decide +kernel) (by decide +kernel), by decide +kernel⟩

theorem admin_demoted : ¬ ∀ (db : OrgDb Nat) (tasks : Nat → OrgTask)
    (c c' : Config Nat (OrgDb Nat) OrgOp OrgOp.Res HttpError OrgOutcome) (id : String),
    Reach OrgExec (fun _ _ _ => True) (startOrgs db tasks) c → Reach OrgExec (fun _ _ _ => True) c c' →
      HasAdmin c.store id → (c'.store.organization id).isSome = true → HasAdmin c'.store id := by
  intro h
  have hr : Reach OrgExec (fun _ _ _ => True) (startOrgs oneAdmin fun _ =>
    .addMember (adminCall "u-1" 10) "u-1" none)
      (orgSchedule oneAdmin (fun _ => .addMember (adminCall "u-1" 10) "u-1" none) [0, 0, 0, 0, 0]) :=
    Reach.schedule (fun _ _ _ => rfl) _ _ .refl (meets_true _ _)
  exact absurd (h _ _ _ _ "o-1" .refl hr (by decide +kernel) (by decide +kernel)) (by decide +kernel)

end DocVault
