import DocVault.Organizations
import Mathlib.Data.List.Infix

/-!
# The cache of memberships

A call that takes a user out of an organization drops the user's cache entry
before it returns. A lookup that has read the membership before may store it
after that, and then serves it for a minute. While no lookup does, a removed
user is served the organization again only after they have been added again.
-/

namespace DocVault

open Interleave

section
variable {ι : Type}

namespace OrgWrite

def takes (w : OrgWrite ι) (orgId userId : String) : Bool :=
  w.taken.any fun m => m.organizationId = orgId && m.userId = userId

def adds (w : OrgWrite ι) (orgId userId : String) : Bool :=
  match w.op with
  | .createMembership m => m.organizationId = orgId && m.userId = userId
  | _ => false

def drops (w : OrgWrite ι) (node : Nat) (userId : String) : Bool :=
  match w.op with
  | .invalidate n u => n = node && u = userId
  | _ => false

end OrgWrite

/-- The log ends with a write that took the user out, and nothing has added them since. -/
def GoneFrom (orgId userId : String) : List (OrgWrite ι) → Prop
  | [] => False
  | w :: post => w.takes orgId userId = true ∧ ∀ v ∈ post, v.adds orgId userId = false

/-- And the process of that write has dropped the cache entry of the user. -/
def PurgedFrom (node : Nat) (orgId userId : String) : List (OrgWrite ι) → Prop
  | [] => False
  | w :: post => GoneFrom orgId userId (w :: post) ∧ ∃ v ∈ post, v.process = w.process ∧ v.drops node userId = true

def Gone (log : List (OrgWrite ι)) (orgId userId : String) : Prop := ∃ s ∈ log.tails, GoneFrom orgId userId s

def Purged (node : Nat) (log : List (OrgWrite ι)) (orgId userId : String) : Prop :=
  ∃ s ∈ log.tails, PurgedFrom node orgId userId s

structure FreshCache (db : OrgDb ι) : Prop where
  gone : ∀ orgId userId, Gone db.log orgId userId →
    ∀ m ∈ db.memberships, m.organizationId = orgId → m.userId ≠ userId
  purged : ∀ node orgId userId, Purged node db.log orgId userId →
    ∀ entry, db.cache node userId = some entry → entry.orgId ≠ orgId

/-- A lookup does not store what a call has already taken away and dropped. -/
def StoreFresh (db : OrgDb ι) : OrgOp → Prop
  | .cacheSet node actorId entry => ¬Purged node db.log entry.orgId actorId
  | _ => True

/-! ## The log -/

variable {p : ι} {db db' : OrgDb ι} {orgId userId : String} {node : Nat} {log : List (OrgWrite ι)} {w : OrgWrite ι}

theorem Purged.gone (h : Purged node log orgId userId) : Gone log orgId userId := by
  obtain ⟨s, hs, hp⟩ := h
  cases s with
  | nil => exact hp.elim
  | cons w post => exact ⟨_, hs, hp.1⟩

theorem tails_append {s : List (OrgWrite ι)} (h : s ∈ (log ++ [w]).tails) :
    s = [] ∨ ∃ t ∈ log.tails, s = t ++ [w] := by
  rw [List.mem_tails, List.suffix_concat_iff] at h
  rcases h with h | ⟨t, rfl, ht⟩
  · exact .inl h
  · exact .inr ⟨t, (List.mem_tails ..).mpr ht, by simp⟩

/-- What is gone after a write was gone before and not added, or is taken by it. -/
theorem gone_append (h : Gone (log ++ [w]) orgId userId) :
    Gone log orgId userId ∧ w.adds orgId userId = false ∨ w.takes orgId userId = true := by
  obtain ⟨s, hs, hg⟩ := h
  rcases tails_append hs with rfl | ⟨t, ht, rfl⟩
  · exact hg.elim
  · cases t with
    | nil => exact .inr hg.1
    | cons v post =>
      refine .inl ⟨⟨_, ht, hg.1, fun x hx => hg.2 x (List.mem_append_left _ hx)⟩, ?_⟩
      exact hg.2 w (List.mem_append_right _ (List.mem_singleton_self w))

theorem purged_append (h : Purged node (log ++ [w]) orgId userId) :
    Purged node log orgId userId ∨ w.drops node userId = true := by
  obtain ⟨s, hs, hg⟩ := h
  rcases tails_append hs with rfl | ⟨t, ht, rfl⟩
  · exact hg.elim
  · cases t with
    | nil =>
      obtain ⟨_, v, hv, _⟩ := hg
      cases hv
    | cons u post =>
      obtain ⟨hgone, v, hv, hproc, hdrops⟩ := hg
      rcases List.mem_append.mp hv with hv | hv
      · exact .inl ⟨_, ht, ⟨hgone.1, fun x hx => hgone.2 x (List.mem_append_left _ hx)⟩, v, hv, hproc, hdrops⟩
      · exact .inr (List.mem_singleton.mp hv ▸ hdrops)

theorem not_gone_of_member (hi : FreshCache db) {m : OrganizationMembership} (hm : m ∈ db.memberships) :
    ¬Purged node db.log m.organizationId m.userId := fun h => hi.gone _ _ h.gone m hm rfl rfl

/-! ## One operation -/

/-- A write to the memberships keeps out who is gone. -/
theorem fresh_write (hi : FreshCache db) {o : OrgOp} {memberships : List OrganizationMembership}
    {taken : List OrganizationMembership} (hcache : db'.cache = db.cache) (hmem : db'.memberships = memberships)
    (hlog : db'.log = db.log ++ [⟨p, o, taken⟩]) (ho : ∀ n u, (⟨p, o, taken⟩ : OrgWrite ι).drops n u = false)
    (htaken : ∀ m ∈ taken, ∀ m' ∈ memberships, m'.organizationId = m.organizationId → m'.userId ≠ m.userId)
    (hkept : ∀ m ∈ memberships,
      (∃ m' ∈ db.memberships, m'.organizationId = m.organizationId ∧ m'.userId = m.userId) ∨
      (⟨p, o, taken⟩ : OrgWrite ι).adds m.organizationId m.userId = true) : FreshCache db' where
  gone orgId userId hg m hm horg huser := by
    rw [hlog] at hg
    rw [hmem] at hm
    subst horg huser
    rcases gone_append hg with ⟨hold, hadds⟩ | htakes
    · rcases hkept m hm with ⟨m', hm', ho', hu'⟩ | h
      · exact hi.gone _ _ hold m' hm' ho' hu'
      · rw [h] at hadds
        cases hadds
    · obtain ⟨t, ht, h⟩ := List.any_eq_true.mp htakes
      simp only [Bool.and_eq_true, decide_eq_true_eq] at h
      exact htaken t ht m hm h.1.symm h.2.symm
  purged node orgId userId hp entry he := by
    rw [hlog] at hp
    rw [hcache] at he
    rcases purged_append hp with hold | hdrops
    · exact hi.purged node orgId userId hold entry he
    · rw [ho] at hdrops
      cases hdrops

theorem fresh_step {o : OrgOp} {r : o.Res} (hi : FreshCache db) (hs : StoreFresh db o) (hx : OrgExec p db o r db') :
    FreshCache db' := by
  rcases org_writes hx with rfl | hw
  · exact hi
  · cases hw with
    | @store node actorId entry =>
      refine ⟨hi.gone, fun n orgId userId hp e he => ?_⟩
      by_cases hsame : n = node ∧ userId = actorId
      · obtain ⟨rfl, rfl⟩ := hsame
        have he' : some entry = some e := by simpa [OrgDb.setCache] using he
        rintro rfl
        obtain rfl := Option.some.inj he'
        exact hs hp
      · have he' : db.cache n userId = some e := by simpa [OrgDb.setCache, hsame] using he
        exact hi.purged n orgId userId hp e he'
    | @drop node actorId =>
      refine ⟨fun orgId userId hg => ?_, fun n orgId userId hp e he => ?_⟩
      · rcases gone_append hg with ⟨hold, _⟩ | htakes
        · exact hi.gone orgId userId hold
        · cases htakes
      · by_cases hsame : n = node ∧ userId = actorId
        · simp [OrgDb.drop, OrgDb.setCache, hsame] at he
        · have he' : db.cache n userId = some e := by simpa [OrgDb.drop, OrgDb.setCache, hsame] using he
          rcases purged_append hp with hold | hdrops
          · exact hi.purged n orgId userId hold e he'
          · simp only [OrgWrite.drops, Bool.and_eq_true, decide_eq_true_eq] at hdrops
            exact absurd ⟨hdrops.1.symm, hdrops.2.symm⟩ hsame
    | @updateRole organizationId userId role membership found =>
      obtain ⟨hm, _⟩ := membership_some found
      refine fresh_write hi rfl rfl rfl (fun _ _ => rfl) (fun _ => nofun) fun m hm' => .inl ?_
      rcases Keyed.mem_put_of_mem hm' with rfl | ⟨hm', _⟩
      · exact ⟨membership, hm, rfl, rfl⟩
      · exact ⟨m, hm', rfl, rfl⟩
    | create new =>
      refine fresh_write hi rfl rfl rfl (fun _ _ => rfl) (fun _ => nofun) fun m hm => ?_
      rcases List.mem_append.mp hm with hm | hm
      · exact .inl ⟨m, hm, rfl, rfl⟩
      · rw [List.mem_singleton.mp hm]
        exact .inr (by simp [OrgWrite.adds])
    | @remove organizationId userId membership found =>
      obtain ⟨_, ho, hu⟩ := membership_some found
      refine fresh_write hi rfl rfl rfl (fun _ _ => rfl) (fun t ht m hm horg huser => ?_) fun m hm => .inl ?_
      · rw [List.mem_singleton.mp ht, ho] at horg
        rw [List.mem_singleton.mp ht, hu] at huser
        exact of_decide_eq_true (List.mem_filter.mp hm).2 (Prod.ext horg huser)
      · exact ⟨m, (List.mem_filter.mp hm).1, rfl, rfl⟩
    | @deleteOrganization id organization found =>
      refine fresh_write hi rfl rfl rfl (fun _ _ => rfl) (fun t ht m hm horg huser => ?_) fun m hm => .inl ?_
      · have ht' : t.organizationId = id := of_decide_eq_true (List.mem_filter.mp ht).2
        exact of_decide_eq_true (List.mem_filter.mp hm).2 (horg.trans ht')
      · exact ⟨m, (List.mem_filter.mp hm).1, rfl, rfl⟩

/-! ## The calls that remove -/

/-- Whatever process `p` has taken the user out of, it has dropped their cache entry since. -/
def Dropped (p : ι) (node : Nat) (userId : String) (db : OrgDb ι) : Prop :=
  ∀ w post, w :: post ∈ db.log.tails → w.process = p → ∀ orgId, w.takes orgId userId = true →
    ∃ v ∈ post, v.process = w.process ∧ v.drops node userId = true

theorem dropped_of_unwritten (h : Unwritten db p) : Dropped p node userId db := fun w _ hs hp =>
  absurd hp (h w (((List.mem_tails ..).mp hs).subset List.mem_cons_self))

theorem dropped_of_drop : Dropped p node userId (db.drop p node userId) := by
  intro w post hs hp orgId htakes
  rcases tails_append hs with h | ⟨t, _, h⟩
  · cases h
  · cases t with
    | nil =>
      obtain ⟨rfl, _⟩ := List.cons.inj h
      cases htakes
    | cons x t =>
      obtain ⟨rfl, rfl⟩ := List.cons.inj h
      exact ⟨_, List.mem_append_right _ (List.mem_singleton_self _), hp.symm, by simp [OrgWrite.drops]⟩

theorem dropped_other {q : ι} {o : OrgOp} {r : o.Res} (hx : OrgExec q db o r db') (hne : p ≠ q)
    (h : Dropped p node userId db) : Dropped p node userId db' := by
  intro w post hs hp orgId htakes
  rcases log_step hx with hlog | ⟨taken, hlog⟩ <;> rw [hlog] at hs
  · exact h w post hs hp orgId htakes
  · rcases tails_append hs with hs | ⟨t, ht, hs⟩
    · cases hs
    · cases t with
      | nil =>
        obtain ⟨rfl, _⟩ := List.cons.inj hs
        exact absurd hp hne.symm
      | cons x t =>
        obtain ⟨rfl, rfl⟩ := List.cons.inj hs
        obtain ⟨v, hv, hd⟩ := h w t ht hp orgId htakes
        exact ⟨v, List.mem_append_left _ hv, hd⟩

def dropping (ι : Type) : Spec ι (OrgDb ι) OrgOp OrgOp.Res where
  exec := OrgExec
  pre _ := StoreFresh
  inv := FreshCache
  rely p _ db db' := (∀ node userId, Dropped p node userId db → Dropped p node userId db') ∧
    (Unwritten db p → Unwritten db' p)

theorem dropping_closed : (dropping ι).Closed :=
  ⟨fun _ _ _ => ⟨fun _ _ h => h, id⟩, fun _ _ _ _ _ h h' => ⟨fun n u hd => h'.1 n u (h.1 n u hd), h'.2 ∘ h.2⟩⟩

variable {α β : Type} {call : OrgCall}

abbrev EndsDropped (p : ι) (node : Nat) (userId : String) (m : OrgM α) (db : OrgDb ι) : Prop :=
  Ok (dropping ι) p (fun _ db => Dropped p node userId db) (fun _ _ => True) m db

theorem dropping_any (m : OrgM α) (db : OrgDb ι) : Ok (dropping ι) p (fun _ _ => True) (fun _ _ => True) m db :=
  Ok_uses (J := fun _ => True) (fun _ _ _ _ _ _ _ => trivial) (fun _ _ _ _ _ _ => trivial)
    (fun _ _ _ _ _ hi _ hs hx => ⟨fresh_step hi hs hx, trivial⟩) m db m.uses_true trivial

theorem ends_bind {m : OrgM β} {f : β → OrgM α} (hi : FreshCache db)
    (hf : ∀ b db', FreshCache db' → EndsDropped p node userId (f b) db') : EndsDropped p node userId (m >>= f) db :=
  Ok_bind (Q := fun _ _ => True) (fun b db' hi' _ => hf b db' hi') m db hi (dropping_any m db)

theorem ends_invalidate {a : α} :
    EndsDropped p call.node userId (OrgService.invalidate call userId >>= fun _ => pure a) db := by
  refine Ok_op (S := dropping ι) (fun _ _ _ _ => trivial) (fun _ _ _ _ => trivial) fun db₁ r db₂ _ hi hs hx => ?_
  refine ⟨fresh_step (o := .invalidate call.node userId) hi hs hx, ?_⟩
  obtain ⟨_, rfl⟩ := Prod.mk.inj hx
  exact dropped_of_drop

theorem ends_unwritten {f : String → OrgM α} {actorId : String} (hi : FreshCache db) (hu : Unwritten db p)
    (hf : ∀ orgId db', FreshCache db' → Unwritten db' p → EndsDropped p node userId (f orgId) db') :
    EndsDropped p node userId (OrgService.requireOrgId call actorId >>= f) db := by
  refine Ok_bind (Q := fun _ db => Unwritten db p) (fun orgId db' hi' hu' => hf orgId db' hi' hu') _ db hi ?_
  refine Ok_mono (E := fun _ db => Unwritten db p) (fun _ _ h => h) (fun _ _ _ => trivial) _ db ?_
  refine Ok_uses (S := dropping ι) (fun _ _ _ _ hu hr _ => hr.2 hu) (fun _ _ _ _ _ _ => trivial)
    (fun o db r db' hl hi hu hs hx => ⟨fresh_step hi hs hx, ?_⟩) _ db (OrgService.requireOrgId_uses call actorId) hu
  rw [hl.same hx]
  exact hu

theorem ends_setRole {organizationId : String} {role : OrganizationRole} (hi : FreshCache db) :
    EndsDropped p call.node userId (OrgService.setRole call organizationId userId role) db :=
  ends_bind hi fun _ _ hi' => ends_bind hi' fun _ _ _ => ends_invalidate

theorem ends_addMember {target : String} {role : OrganizationRole} (hi : FreshCache db) (hu : Unwritten db p) :
    EndsDropped p call.node (trim target) (OrgService.addMember call target role) db := by
  refine ends_unwritten hi hu fun orgId db₀ hi₀ hu₀ => ?_
  dsimp only
  split
  · trivial
  · refine Ok_op (S := dropping ι) (fun _ _ _ _ => trivial) (fun _ _ _ _ => trivial) fun _ r db₁ hr hi₁ _ hx => ?_
    obtain ⟨_, rfl⟩ := Prod.mk.inj hx
    refine ⟨hi₁, ?_⟩
    split
    · split
      · exact dropped_of_unwritten (hr.2 hu₀)
      · exact ends_setRole hi₁
    · exact ends_bind hi₁ fun _ _ hi₂ => ends_bind hi₂ fun _ _ hi₃ => ends_bind hi₃ fun _ _ _ => ends_invalidate

theorem ends_removeMember (hi : FreshCache db) :
    EndsDropped p call.node userId (OrgService.removeMember call userId) db := by
  refine ends_bind hi fun orgId _ hi₁ => ends_bind hi₁ fun membership _ hi₂ => ?_
  have hdelete : ∀ db', FreshCache db' → EndsDropped p call.node userId (do
      let result ← Prog.op (OrgOp.deleteMembership orgId userId)
      let _ ← Prog.ofExcept (updated result)
      let _ ← OrgService.invalidate call userId
      pure userId) db' :=
    fun _ hi₃ => ends_bind hi₃ fun _ _ hi₄ => ends_bind hi₄ fun _ _ _ => ends_invalidate
  dsimp only
  split
  · exact ends_bind hi₂ fun _ db' hi₃ => hdelete db' hi₃
  · exact hdelete _ hi₂

/-- The user whom a call may take out of an organization, with the instance that it runs on. -/
def OrgTask.removes : OrgTask → Option (Nat × String)
  | addMember call userId _ => some (call.node, trim (trim userId))
  | removeMember call userId => some (call.node, userId)
  | _ => none

theorem ends_answer {m : OrgM α} {answer : α → OrgOutcome} (hi : FreshCache db)
    (h : EndsDropped p node userId m db) : EndsDropped p node userId (m >>= fun a => pure (answer a)) db := by
  refine Ok_bind (Q := fun _ db => Dropped p node userId db) (fun _ _ _ h => ?_) m db hi h
  exact h

theorem task_dropped (t : OrgTask) (hi : FreshCache db) (hu : Unwritten db p) :
    Ok (dropping ι) p (fun _ db => ∀ node userId, t.removes = some (node, userId) → Dropped p node userId db)
      (fun _ _ => True) t.prog db := by
  cases t with
  | addMember call userId role =>
    refine Ok_mono (Q := fun _ db => Dropped p call.node (trim (trim userId)) db) (E := fun _ _ => True)
      (fun _ _ h _ _ => ?_) (fun _ _ h => h) _ db
      (ends_answer hi (Ok_ofExcept_bind (fun _ _ => ?_) fun _ _ => trivial))
    · rintro ⟨⟩; exact h
    · split
      · trivial
      · exact ends_addMember hi hu
  | removeMember call userId =>
    refine Ok_mono (Q := fun _ db => Dropped p call.node userId db) (E := fun _ _ => True)
      (fun _ _ h _ _ => ?_) (fun _ _ h => h) _ db
      (ends_answer hi (Ok_ofExcept_bind (fun _ _ => ?_) fun _ _ => trivial))
    · rintro ⟨⟩; exact h
    · exact ends_removeMember hi
  | requireOrgId | updateMemberRole =>
    exact Ok_mono (Q := fun _ _ => True) (E := fun _ _ => True) (fun _ _ _ _ _ => nofun) (fun _ _ h => h) _ db
      (dropping_any _ db)

/-! ## A lookup -/

/-- What `log₀` takes from the user and drops has been added again in `log`. -/
def Back (log₀ log : List (OrgWrite ι)) (node : Nat) (orgId userId : String) : Prop :=
  ∀ pre w post, log₀ = pre ++ w :: post → w.takes orgId userId = true →
    (∃ v ∈ post, v.process = w.process ∧ v.drops node userId = true) →
    ∃ post', log = pre ++ w :: post' ∧ ∃ v ∈ post', v.adds orgId userId = true

theorem Back.extend {log₀ log' : List (OrgWrite ι)} (h : Back log₀ log node orgId userId) (hp : log <+: log') :
    Back log₀ log' node orgId userId := by
  intro pre w post hpre htakes hdrop
  obtain ⟨post', rfl, v, hv, hadds⟩ := h pre w post hpre htakes hdrop
  obtain ⟨rest, rfl⟩ := hp
  exact ⟨post' ++ rest, by simp, v, List.mem_append_left _ hv, hadds⟩

theorem back_of_not_purged {log₀ : List (OrgWrite ι)} (hp : log₀ <+: log) (h : ¬Purged node log orgId userId) :
    Back log₀ log node orgId userId := by
  rintro pre w post rfl htakes ⟨d, hd, hdrop⟩
  obtain ⟨rest, rfl⟩ := hp
  refine ⟨post ++ rest, by simp, ?_⟩
  by_contra hadds
  have hgone : ∀ v ∈ post ++ rest, v.adds orgId userId = false := fun v hv =>
    Bool.eq_false_iff.mpr fun ha => hadds ⟨v, hv, ha⟩
  refine h ⟨w :: (post ++ rest), ?_, ⟨htakes, hgone⟩, d, List.mem_append_left _ hd, hdrop⟩
  rw [List.mem_tails]
  exact ⟨pre, by simp⟩

/-- From a state with the log `log₀` on. -/
def serving (log₀ : List (OrgWrite ι)) : Spec ι (OrgDb ι) OrgOp OrgOp.Res where
  exec := OrgExec
  pre _ := StoreFresh
  inv db := FreshCache db ∧ log₀ <+: db.log
  rely _ _ db db' := db.log <+: db'.log

variable {log₀ : List (OrgWrite ι)}

theorem serving_closed : (serving log₀).Closed :=
  ⟨fun _ _ _ => List.prefix_rfl, fun _ _ _ _ _ h h' => h.trans h'⟩

theorem log_grows {o : OrgOp} {r : o.Res} (hx : OrgExec p db o r db') : db.log <+: db'.log := by
  rcases log_step hx with h | ⟨_, h⟩ <;> rw [h]
  exact List.prefix_append ..

theorem serving_step {o : OrgOp} {r : o.Res} (hi : (serving log₀).inv db) (hs : StoreFresh db o)
    (hx : OrgExec p db o r db') : (serving log₀).inv db' := ⟨fresh_step hi.1 hs hx, hi.2.trans (log_grows hx)⟩

theorem served_back {actorId : String} :
    Ok (serving log₀) p (fun orgId db => Back log₀ db.log call.node orgId actorId)
    (fun _ _ => True) (OrgService.requireOrgId call actorId) db := by
  refine Ok_op (S := serving log₀) (fun _ _ _ _ => trivial) (fun _ _ _ _ => trivial)
    fun _ cached db₁ _ hi hs hx => ?_
  have hi₁ := serving_step (o := .cacheGet call.node actorId) hi hs hx
  obtain ⟨hcached, rfl⟩ := Prod.mk.inj hx
  refine ⟨hi₁, ?_⟩
  split
  · rename_i entry hentry
    have he : cached = some entry := (Option.filter_eq_some_iff.mp hentry).1
    exact back_of_not_purged hi₁.2 fun hp => hi₁.1.purged _ _ _ hp entry (hcached.symm.trans he) rfl
  · refine Ok_op (S := serving log₀) (fun _ _ _ _ => trivial) (fun _ _ _ _ => trivial)
      fun _ existing db₂ _ hi hs hx => ?_
    have hi₂ := serving_step (o := .firstMembership actorId) hi hs hx
    obtain ⟨hexisting, rfl⟩ := Prod.mk.inj hx
    refine ⟨hi₂, ?_⟩
    cases existing with
    | none => trivial
    | some m =>
      have hm := List.mem_of_mem_head? (Option.mem_def.mpr hexisting.symm)
      rw [List.mem_insertionSort, List.mem_filter, decide_eq_true_eq] at hm
      obtain ⟨hm, rfl⟩ := hm
      have hback : Back log₀ db₂.log call.node m.organizationId m.userId :=
        back_of_not_purged hi₂.2 (not_gone_of_member hi₂.1 hm)
      refine Ok_op (S := serving log₀) (fun _ _ _ _ => trivial) (fun _ _ _ _ => trivial)
        fun db₃ r db₄ hr hi hs hx => ?_
      exact ⟨serving_step (o := .cacheSet call.node _ _) hi hs hx, hback.extend (hr.trans (log_grows hx))⟩

theorem serving_any {α : Type} (m : OrgM α) (db : OrgDb ι) :
    Ok (serving log₀) p (fun _ _ => True) (fun _ _ => True) m db :=
  Ok_uses (J := fun _ => True) (fun _ _ _ _ _ _ _ => trivial) (fun _ _ _ _ _ _ => trivial)
    (fun _ _ _ _ _ hi _ hs hx => ⟨serving_step hi hs hx, trivial⟩) m db m.uses_true trivial

/-! ## Runs -/

section
variable [DecidableEq ι] {tasks : ι → OrgTask} {c c' : Config ι (OrgDb ι) OrgOp OrgOp.Res HttpError OrgOutcome}

abbrev StoresFresh (c : Config ι (OrgDb ι) OrgOp OrgOp.Res HttpError OrgOutcome) (_ : ι) (o : OrgOp) : Prop :=
  StoreFresh c.store o

theorem reach_dropped (hr : Reach OrgExec StoresFresh (startOrgs db tasks) c) : FreshCache c.store ∧
    ∀ p out, c.procs p = .ret out → ∀ node userId, (tasks p).removes = some (node, userId) →
      Dropped p node userId c.store := by
  have hfresh : FreshCache (startOrgs db tasks).store := by
    refine ⟨fun _ _ h => ?_, fun _ _ _ h => ?_⟩ <;>
      · obtain ⟨s, hs, hg⟩ := h
        rw [List.mem_singleton.mp hs] at hg
        exact hg.elim
  obtain ⟨hi, hok⟩ := Reach.ok (S := dropping ι) (E := fun _ _ _ => True)
    (Q := fun p _ db => ∀ node userId, (tasks p).removes = some (node, userId) → Dropped p node userId db) hr
    dropping_closed hfresh (fun p => task_dropped (tasks p) hfresh fun _ => nofun) (fun _ _ _ h => h)
    (fun p _ s s' h hs _ node userId ht => hs.1 node userId (h node userId ht)) (fun _ _ _ _ _ _ _ => trivial)
    fun c p q o k r s' _ _ hx _ _ hne => ⟨fun _ _ => dropped_other hx hne, (unwritten_other hx hne).mpr⟩
  refine ⟨hi, fun p out hp => ?_⟩
  have hown := hok p
  rw [hp] at hown
  exact hown

/-- From a state on in which a call has taken a user out of an organization and returned, in every interleaving
whose lookups store fresh entries, a lookup that starts there is answered that organization only when the user
has been added to it again. -/
theorem revoked_not_served (hr : Reach OrgExec StoresFresh (startOrgs db tasks) c) {q : ι} {out : OrgOutcome}
    {node : Nat} (hq : (tasks q).removes = some (node, userId)) (hout : c.procs q = .ret out)
    {pre post : List (OrgWrite ι)} (hlog : c.store.log = pre ++ w :: post) (hw : w.process = q)
    (htakes : w.takes orgId userId = true) {p : ι} {call : OrgCall} (hp : tasks p = .requireOrgId call userId)
    (hnode : call.node = node) (hstart : c.procs p = (tasks p).prog) (h : Reach OrgExec StoresFresh c c')
    (hserved : c'.procs p = .ret (.organization orgId)) :
    ∃ post', c'.store.log = pre ++ w :: post' ∧ ∃ v ∈ post', v.adds orgId userId = true := by
  subst hnode
  obtain ⟨hfresh, hdropped⟩ := reach_dropped hr
  have hdrop : ∃ v ∈ post, v.process = w.process ∧ v.drops call.node userId = true := by
    refine hdropped q out hout _ _ hq w post ?_ hw orgId htakes
    rw [hlog, List.mem_tails]
    exact List.suffix_append ..
  have hi : (serving c.store.log).inv c.store := ⟨hfresh, List.prefix_rfl⟩
  obtain ⟨_, hok⟩ := Reach.ok (S := serving c.store.log) (E := fun _ _ _ => True)
    (Q := fun p' out db => p' = p → ∀ orgId, out = .organization orgId →
      Back c.store.log db.log call.node orgId userId) h serving_closed hi
    (fun p' => by
      by_cases hpp : p' = p
      · subst hpp
        rw [hstart, hp]
        refine Ok_bind (fun orgId db _ hb => ?_) _ _ hi served_back
        rintro _ _ ⟨⟩
        exact hb
      · exact Ok_mono (fun _ _ _ heq => absurd heq hpp) (fun _ _ h => h) _ _ (serving_any (c.procs p') c.store))
    (fun _ _ _ h => h) (fun _ _ _ _ hb hs _ heq orgId ho => by exact (hb heq orgId ho).extend hs)
    (fun _ _ _ _ _ _ _ => trivial) fun _ _ _ _ _ _ _ _ _ hx _ _ _ => log_grows hx
  have hown := hok p
  rw [hserved] at hown
  exact hown rfl orgId rfl pre w post hlog htakes hdrop

end

/-- Whatever else a lookup stores is served to the next one. -/
theorem stale_served {q : ι} {actorId : String} {entry : CacheEntry} {r : Unit}
    (hx : OrgExec p db (.cacheSet call.node actorId entry) r db')
    (hs : ¬StoreFresh db (.cacheSet call.node actorId entry))
    (hnow : entry.expiresAt > call.now) : Purged call.node db'.log entry.orgId actorId ∧
      Eval OrgExec q (OrgService.requireOrgId call actorId) db' (.ok entry.orgId) db' := by
  obtain ⟨_, rfl⟩ := Prod.mk.inj hx
  have hcached : (some entry).filter (fun entry => decide (entry.expiresAt > call.now)) = some entry := by
    simp [hnow]
  refine ⟨not_not.mp hs, eval_op_bind.mpr ⟨some entry, db.setCache call.node actorId (some entry), ?_, ?_⟩⟩
  · simp [OrgExec, orgRun, OrgDb.setCache]
  · rw [hcached]
    exact .ret ..

end

/-! ## A lookup that stores after a removal -/

section
variable {ι : Type} [DecidableEq ι] (db : OrgDb ι) (node : Nat) (log : List (OrgWrite ι)) (orgId userId : String)

instance : DecidablePred (GoneFrom (ι := ι) orgId userId)
  | [] => isFalse id
  | _ :: _ => inferInstanceAs (Decidable (_ ∧ _))

instance : DecidablePred (PurgedFrom (ι := ι) node orgId userId)
  | [] => isFalse id
  | w :: post => inferInstanceAs (Decidable (GoneFrom orgId userId (w :: post) ∧
      ∃ v ∈ post, v.process = w.process ∧ v.drops node userId = true))

instance : Decidable (Purged node log orgId userId) := inferInstanceAs (Decidable (∃ s ∈ log.tails, _))

instance : DecidablePred (StoreFresh db)
  | .cacheSet node actorId entry => inferInstanceAs (Decidable ¬Purged node db.log entry.orgId actorId)
  | .cacheGet _ _ | .invalidate _ _ | .firstMembership _ | .findMemberships _
      | .findMembership _ _ | .countMembers _
  | .countAdmins _ | .updateRole _ _ _ | .createMembership _ | .deleteMembership _ _
      | .deleteOrganization _ => isTrue trivial

end

def twoMembers : OrgDb Nat where
  organizations := [⟨"o-1", "u-1"⟩]
  memberships := [⟨"o-1", "u-1", .ADMIN, 0⟩, ⟨"o-1", "u-2", .MEMBER, 1⟩]
  documents := []
  cache _ _ := none
  log := []

def viewerCall (actor : String) (now : Time) : OrgCall :=
  { user := ⟨some actor, none, ["viewer"]⟩, now := now, storedAt := now }

-- The member is looked up and removed; then they are added and looked up again.
def comingBack : Nat → OrgTask
  | 0 => .requireOrgId (viewerCall "u-2" 10) "u-2"
  | 1 => .removeMember (adminCall "u-1" 20) "u-2"
  | 2 => .addMember (adminCall "u-1" 30) "u-2" none
  | _ => .requireOrgId (viewerCall "u-2" 40) "u-2"

def removal : OrgWrite Nat := ⟨1, .deleteMembership "o-1" "u-2", [⟨"o-1", "u-2", .MEMBER, 1⟩]⟩

def onceRemoved : Config Nat (OrgDb Nat) OrgOp OrgOp.Res HttpError OrgOutcome :=
  orgSchedule twoMembers comingBack [0, 0, 0, 1, 1, 1, 1, 1, 1]

theorem revoked_not_served_sample : ∃ post, (schedule orgRun onceRemoved [2, 2, 2, 2, 3, 3, 3]).store.log =
    [] ++ removal :: post ∧ ∃ v ∈ post, v.adds "o-1" "u-2" = true := by
  have hr : Reach OrgExec StoresFresh (startOrgs twoMembers comingBack) onceRemoved :=
    Reach.schedule (fun _ _ _ => rfl) _ _ .refl (meets_iff _ _ (by decide +kernel))
  have h : Reach OrgExec StoresFresh onceRemoved (schedule orgRun onceRemoved [2, 2, 2, 2, 3, 3, 3]) :=
    Reach.schedule (fun _ _ _ => rfl) _ _ .refl (meets_iff _ _ (by decide +kernel))
  have hout : onceRemoved.procs 1 = .ret (.removed "u-2") := by rfl
  have hlog : onceRemoved.store.log = [] ++ removal :: [⟨1, .invalidate 0 "u-2", []⟩] := by rfl
  have hserved : (schedule orgRun onceRemoved [2, 2, 2, 2, 3, 3, 3]).procs 3 = .ret (.organization "o-1") := by rfl
  have hp : comingBack 3 = .requireOrgId (viewerCall "u-2" 40) "u-2" := rfl
  exact revoked_not_served hr rfl hout hlog rfl (by decide) hp rfl (by rfl) h hserved

def staleStore : Nat → OrgTask
  | 0 => .requireOrgId (viewerCall "u-2" 10) "u-2"
  | 1 => .removeMember (adminCall "u-1" 20) "u-2"
  | _ => .requireOrgId (viewerCall "u-2" 40) "u-2"

theorem revoked_served : ¬ ∀ (db : OrgDb Nat) (tasks : Nat → OrgTask)
    (c c' : Config Nat (OrgDb Nat) OrgOp OrgOp.Res HttpError OrgOutcome) (p q : Nat)
    (out : OrgOutcome) (call : OrgCall) (orgId userId : String) (pre post : List (OrgWrite Nat)) (w : OrgWrite Nat),
    Reach OrgExec (fun _ _ _ => True) (startOrgs db tasks) c → (tasks q).removes = some (call.node, userId) →
      c.procs q = .ret out → c.store.log = pre ++ w :: post → w.process = q → w.takes orgId userId = true →
      tasks p = .requireOrgId call userId → c.procs p = (tasks p).prog → Reach OrgExec (fun _ _ _ => True) c c' →
      c'.procs p = .ret (.organization orgId) →
      ∃ post', c'.store.log = pre ++ w :: post' ∧ ∃ v ∈ post', v.adds orgId userId = true := by
  intro h
  have hr : Reach OrgExec (fun _ _ _ => True) (startOrgs twoMembers staleStore)
      (orgSchedule twoMembers staleStore [0, 0, 1, 1, 1, 1, 1, 1]) :=
    Reach.schedule (fun _ _ _ => rfl) _ _ .refl (meets_true _ _)
  have hr' : Reach OrgExec (fun _ _ _ => True) (orgSchedule twoMembers staleStore [0, 0, 1, 1, 1, 1, 1, 1])
      (orgSchedule twoMembers staleStore [0, 0, 1, 1, 1, 1, 1, 1, 0, 2]) :=
    Reach.schedule (fun _ _ _ => rfl) [0, 2] _ .refl (meets_true _ _)
  obtain ⟨post', hlog, v, hv, hadds⟩ := h _ _ _ _ 2 1 _ (viewerCall "u-2" 40) "o-1" "u-2" []
    [⟨1, .invalidate 0 "u-2", []⟩] removal hr rfl (by rfl) (by rfl) rfl (by decide) rfl (by rfl) hr' (by rfl)
  have hpost : removal :: post' = [removal, ⟨1, .invalidate 0 "u-2", []⟩] := hlog.symm.trans (by rfl)
  obtain rfl := (List.cons.inj hpost).2
  obtain rfl := List.mem_singleton.mp hv
  cases hadds

end DocVault
