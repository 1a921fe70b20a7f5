import DocVault.ContentAccess
import DocVault.ShareLinks
import Mathlib.Data.Fintype.Basic

/-!
# The access cap of a share link

The count of a link is the number of accesses that were logged for it, in any
interleaving, and each redeem that returns has logged one. The status is checked
on the row as it was read, so the cap holds in the runs in which no other process
counts or revokes a link between a redeem's read of it and its increment.
-/

namespace DocVault

open Interleave

structure LinkTerms where
  id : String
  docId : String
  tokenHash : String
  permission : DocumentSharePermission
  expiresAt : Time
  maxAccessCount : Option Int

def ShareLinkRow.terms (link : ShareLinkRow) : LinkTerms :=
  ⟨link.id, link.docId, link.tokenHash, link.permission, link.expiresAt, link.maxAccessCount⟩

theorem terms_accessed (link : ShareLinkRow) (now : Time) : (link.accessed now).terms = link.terms := rfl

theorem terms_revoked (link : ShareLinkRow) (now : Time) (revokedBy : String) :
    (link.revoked now revokedBy).terms = link.terms := rfl

section
variable {ι : Type} {p : ι} {db db' db'' : ShareLinkDb ι} {id : String} {link : ShareLinkRow}

def ShareLinkDb.accessesOf (db : ShareLinkDb ι) (id : String) : List (Access ι) :=
  db.accesses.filter (·.link.id = id)

structure Counted (db : ShareLinkDb ι) : Prop where
  ids : Keyed.Unique (·.id) db.shareLinks
  hashes : Keyed.Unique (·.tokenHash) db.shareLinks
  counted : ∀ link ∈ db.shareLinks, link.accessCount = (db.accessesOf link.id).length
  logged : ∀ a ∈ db.accesses, ∃ link ∈ db.shareLinks, link.terms = a.link.terms

def Capped (db : ShareLinkDb ι) : Prop :=
  ∀ link ∈ db.shareLinks, ∀ m, link.maxAccessCount = some m → link.accessCount ≤ m

/-- Links keep their terms and stay revoked, and accesses are only added. -/
structure LinksGrow (db db' : ShareLinkDb ι) : Prop where
  links : ∀ link ∈ db.shareLinks, ∃ link' ∈ db'.shareLinks, link'.terms = link.terms ∧
    (link'.revokedAt = none → link.revokedAt = none)
  accesses : db.accesses <+: db'.accesses

theorem LinksGrow.refl (db : ShareLinkDb ι) : LinksGrow db db :=
  ⟨fun link h => ⟨link, h, rfl, id⟩, List.prefix_rfl⟩

theorem LinksGrow.trans (h : LinksGrow db db') (h' : LinksGrow db' db'') : LinksGrow db db'' where
  links link hl := by
    obtain ⟨link', hl', ht, hr⟩ := h.links link hl
    obtain ⟨link'', hl'', ht', hr'⟩ := h'.links link' hl'
    exact ⟨link'', hl'', ht'.trans ht, hr ∘ hr'⟩
  accesses := h.accesses.trans h'.accesses

/-! ## One operation -/

def NewLink (link : ShareLinkRow) : Prop :=
  link.accessCount = 0 ∧ link.revokedAt = none ∧ ∀ m, link.maxAccessCount = some m → 1 ≤ m

def LinkIssued : ShareLinkOp → Prop
  | .createLink link => NewLink link
  | _ => True

inductive LinkWrites (p : ι) (db : ShareLinkDb ι) : ShareLinkOp → ShareLinkDb ι → Prop
  | create {link : ShareLinkRow} (new : db.admits link = true) :
    LinkWrites p db (.createLink link) { db with shareLinks := db.shareLinks ++ [link] }
  | access {id : String} {now : Time} {link : ShareLinkRow} (found : db.link id = some link) :
    LinkWrites p db (.accessLink id now) (db.access p id now link)
  | revoke {id : String} {now : Time} {revokedBy : String} {link : ShareLinkRow} (found : db.link id = some link) :
    LinkWrites p db (.revokeLink id now revokedBy) (db.update id (link.revoked now revokedBy))

theorem link_writes {o : ShareLinkOp} {r : o.Res} (h : ShareLinkExec p db o r db') :
    db' = db ∨ LinkWrites p db o db' := by
  cases o with
  | createLink link =>
    simp only [ShareLinkExec, shareLinkRun] at h
    split at h
    · rename_i hnew
      rw [(Prod.mk.inj h).2]
      exact .inr (.create hnew)
    · exact .inl (Prod.mk.inj h).2
  | accessLink id now =>
    simp only [ShareLinkExec, shareLinkRun] at h
    split at h
    · exact .inl (Prod.mk.inj h).2
    · rename_i link hfound
      rw [(Prod.mk.inj h).2]
      exact .inr (.access hfound)
  | revokeLink id now revokedBy =>
    simp only [ShareLinkExec, shareLinkRun] at h
    split at h
    · exact .inl (Prod.mk.inj h).2
    · rename_i link hfound
      rw [(Prod.mk.inj h).2]
      exact .inr (.revoke hfound)
  | _ => exact .inl (Prod.mk.inj h).2

theorem accessesOf_append (a : Access ι) (accesses : List (Access ι)) (id : String) :
    ((accesses ++ [a]).filter fun a => decide (a.link.id = id)).length =
      (accesses.filter fun a => decide (a.link.id = id)).length + if a.link.id = id then 1 else 0 := by
  rw [List.filter_append, List.length_append]
  by_cases h : a.link.id = id <;> simp [h]

theorem counted_create (hi : Counted db) (new : db.admits link = true) (h : link.accessCount = 0) :
    Counted { db with shareLinks := db.shareLinks ++ [link] } := by
  simp only [ShareLinkDb.admits, Bool.and_eq_true, Option.isNone_iff_eq_none] at new
  obtain ⟨⟨hid, hhash⟩, _⟩ := new
  refine ⟨hi.ids.append hid, hi.hashes.append hhash, fun l hl => ?_, fun a ha => ?_⟩
  · rcases List.mem_append.mp hl with hl | hl
    · exact hi.counted l hl
    · obtain rfl := List.mem_singleton.mp hl
      -- An access of the new id would have left its link.
      have hnone : db.accessesOf l.id = [] := by
        refine List.filter_eq_nil_iff.mpr fun a ha hal => ?_
        obtain ⟨l', hl', ht⟩ := hi.logged a ha
        exact Keyed.find_none.mp hid l' hl' ((congrArg LinkTerms.id ht).trans (of_decide_eq_true hal))
      show l.accessCount = ((db.accessesOf l.id).length : Int)
      rw [h, hnone]
      rfl
  · obtain ⟨l, hl, ht⟩ := hi.logged a ha
    exact ⟨l, List.mem_append_left _ hl, ht⟩

theorem grow_update (hi : Counted db) (found : db.link id = some link) {link' : ShareLinkRow}
    (ht : link'.terms = link.terms) (hrev : link'.revokedAt = none → link.revokedAt = none)
    {accesses : List (Access ι)} (ha : db.accesses <+: accesses) :
    LinksGrow db { db.update id link' with accesses := accesses } where
  links l hl := by
    by_cases hid : l.id = id
    · obtain rfl := hi.ids.eq hl (Keyed.find_some found).1 (hid.trans (Keyed.find_some found).2.symm)
      exact ⟨link', (Keyed.mem_put found).mpr (.inl rfl), ht, hrev⟩
    · exact ⟨l, (Keyed.mem_put found).mpr (.inr ⟨hl, hid⟩), rfl, fun h => h⟩
  accesses := ha

theorem counted_update (hi : Counted db) (found : db.link id = some link) {link' : ShareLinkRow}
    (ht : link'.terms = link.terms) (hrev : link'.revokedAt = none → link.revokedAt = none)
    {accesses : List (Access ι)} (ha : db.accesses <+: accesses)
    (hown : link'.accessCount = (accesses.filter (·.link.id = id)).length)
    (hother : ∀ id', id' ≠ id → (accesses.filter (·.link.id = id')).length = (db.accessesOf id').length)
    (hlog : ∀ a ∈ accesses, a ∈ db.accesses ∨ a.link = link) :
    Counted { db.update id link' with accesses := accesses } := by
  obtain ⟨hm, hid⟩ := Keyed.find_some found
  have hid' : link'.id = id := (congrArg LinkTerms.id ht).trans hid
  refine ⟨hi.ids.put found hid', ?_, fun l hl => ?_, fun a ha' => ?_⟩
  · show ((Keyed.put (·.id) db.shareLinks id link').map (·.tokenHash)).Nodup
    rw [Keyed.map_put hi.ids found (congrArg LinkTerms.tokenHash ht)]
    exact hi.hashes
  · rcases (Keyed.mem_put found).mp hl with rfl | ⟨hl, hne⟩
    · rw [hown, hid']; rfl
    · rw [hi.counted l hl]
      exact_mod_cast (hother l.id hne).symm
  · rcases hlog a ha' with hold | rfl
    · obtain ⟨l, hl, hlt⟩ := hi.logged a hold
      obtain ⟨l', hl', ht', _⟩ := (grow_update hi found ht hrev ha).links l hl
      exact ⟨l', hl', ht'.trans hlt⟩
    · exact ⟨link', (Keyed.mem_put found).mpr (.inl rfl), ht⟩

theorem counted_step {o : ShareLinkOp} {r : o.Res} (hi : Counted db) (ho : LinkIssued o)
    (h : ShareLinkExec p db o r db') : Counted db' ∧ LinksGrow db db' := by
  rcases link_writes h with rfl | hw
  · exact ⟨hi, .refl _⟩
  · cases hw with
    | create new =>
      exact ⟨counted_create hi new ho.1, fun l hl => ⟨l, List.mem_append_left _ hl, rfl, fun h => h⟩,
        List.prefix_rfl⟩
    | @access id now link found =>
      obtain ⟨hm, hid⟩ := Keyed.find_some found
      have ha : db.accesses <+: db.accesses ++ [⟨p, link⟩] := List.prefix_append ..
      have ht := terms_accessed link now
      refine ⟨counted_update hi found ht (fun h => h) ha ?_ (fun id' hne => ?_) fun a ha => ?_,
        grow_update hi found ht (fun h => h) ha⟩
      · rw [accessesOf_append, if_pos hid, ShareLinkRow.accessed, hi.counted link hm, hid]
        push_cast
        rfl
      · rw [accessesOf_append, if_neg fun h => hne (h.symm.trans hid)]
        rfl
      · rcases List.mem_append.mp ha with h | h
        · exact .inl h
        · exact .inr (by rw [List.mem_singleton.mp h])
    | @revoke id now revokedBy link found =>
      obtain ⟨hm, hid⟩ := Keyed.find_some found
      have ht := terms_revoked link now revokedBy
      refine ⟨counted_update hi found ht (fun h => nomatch h) List.prefix_rfl ?_ (fun _ _ => rfl) fun _ => .inl,
        grow_update hi found ht (fun h => nomatch h) List.prefix_rfl⟩
      rw [ShareLinkRow.revoked, hi.counted link hm, hid]
      rfl

/-- An increment finds the link neither revoked nor at its cap. -/
def AccessInTime (db : ShareLinkDb ι) : ShareLinkOp → Prop
  | .accessLink id _ => ∀ link, db.link id = some link → link.revokedAt = none ∧ ¬Exhausted link.toDocumentShareLink
  | _ => True

theorem capped_step {o : ShareLinkOp} {r : o.Res} (hi : Capped db) (ho : LinkIssued o) (ha : AccessInTime db o)
    (h : ShareLinkExec p db o r db') : Capped db' := by
  rcases link_writes h with rfl | hw
  · exact hi
  · cases hw with
    | create new =>
      intro l hl m hm
      rcases List.mem_append.mp hl with hl | hl
      · exact hi l hl m hm
      · obtain rfl := List.mem_singleton.mp hl
        have := ho.2.2 m hm
        rw [ho.1]
        omega
    | @access id now link found =>
      intro l hl m hm
      rcases Keyed.mem_put_of_mem hl with rfl | ⟨hl, _⟩
      · have hcap := (ha link found).2
        by_contra hlt
        exact hcap ⟨m, hm, by simp only [ShareLinkRow.accessed] at hlt; omega⟩
      · exact hi l hl m hm
    | @revoke id now revokedBy link found =>
      intro l hl m hm
      rcases Keyed.mem_put_of_mem hl with rfl | ⟨hl, _⟩
      · exact hi link (Keyed.find_some found).1 m hm
      · exact hi l hl m hm

/-! ## Tasks -/

open DocumentShareLinksService (hashToken newLink assertExpiry)

variable {env : PolicyEnv} {tasks : ι → ShareLinkTask} {token : String} {result : ShareLinkRedeemResult}

/-- What a task issues at `db`: an increment is that of a link which its token opens. -/
def LinkWarranted (env : PolicyEnv) (t : ShareLinkTask) (db : ShareLinkDb ι) : ShareLinkOp → Prop
  | .createLink link => NewLink link
  | .accessLink id _ => ∃ token request, t = .redeem token request ∧
      ∃ link, db.link id = some link ∧ link.tokenHash = hashToken env token
  | _ => True

theorem LinkWarranted.issued {t : ShareLinkTask} {o : ShareLinkOp} (h : LinkWarranted env t db o) :
    LinkIssued o := by
  cases o <;> first | exact h | trivial

/-- Process `p` has logged the access it answers with. -/
def Logged (env : PolicyEnv) (p : ι) (token : String) (db : ShareLinkDb ι)
    (result : ShareLinkRedeemResult) : Prop :=
  ∃ a ∈ db.accesses, a.process = p ∧ a.link.tokenHash = hashToken env token ∧ a.link.docId = result.docId ∧
    a.link.permission = result.permission

theorem Logged.grows (h : Logged env p token db result) (hg : LinksGrow db db') :
    Logged env p token db' result := by
  obtain ⟨a, ha, hr⟩ := h
  exact ⟨a, hg.accesses.subset ha, hr⟩

def LinkTaskEnds (env : PolicyEnv) (p : ι) (t : ShareLinkTask) (outcome : ShareLinkOutcome)
    (db : ShareLinkDb ι) : Prop :=
  ∀ token request result, t = .redeem token request → outcome = .redeemed result → Logged env p token db result

def linkCounting (env : PolicyEnv) (tasks : ι → ShareLinkTask) :
    Spec ι (ShareLinkDb ι) ShareLinkOp ShareLinkOp.Res where
  exec := ShareLinkExec
  pre _ _ _ := True
  inv := Counted
  rely _ _ := LinksGrow
  guar p db o := LinkWarranted env (tasks p) db o

theorem linkCounting_closed : (linkCounting env tasks).Closed := ⟨fun _ _ => .refl, fun _ _ _ _ _ => .trans⟩

theorem found_again (h : link ∈ db.shareLinks) (hg : LinksGrow db db') (hi' : Counted db') :
    ∃ link', db'.link link.id = some link' ∧ link'.terms = link.terms := by
  obtain ⟨link', hm, ht, _⟩ := hg.links link h
  exact ⟨link', hi'.ids.find_iff.mpr ⟨hm, congrArg LinkTerms.id ht⟩, ht⟩

theorem redeem_ok {request : Request} (ht : tasks p = .redeem token request) :
    Ok (linkCounting env tasks) p (fun result db => Logged env p token db result) (fun _ _ => True)
      (DocumentShareLinksService.redeem env token request) db := by
  refine Ok_op (fun _ _ _ _ => trivial) (fun _ _ _ _ => trivial) fun _ r db₁ _ hi₁ _ hx => ?_
  obtain ⟨hr, rfl⟩ := Prod.mk.inj hx
  refine ⟨hi₁, ?_⟩
  cases r with
  | none => trivial
  | some link =>
    obtain ⟨hm, hhash⟩ := Keyed.find_some hr.symm
    refine Ok_ofExcept_bind (fun _ _ => ?_) fun _ _ => trivial
    refine Ok_op (fun _ _ _ _ => trivial) (fun _ _ _ _ => trivial) fun _ r db₂ hg₂ hi₂ _ hx => ?_
    obtain ⟨_, rfl⟩ := Prod.mk.inj hx
    refine ⟨hi₂, ?_⟩
    cases r with
    | none => trivial
    | some document =>
      have hread : ∀ db₃, LinksGrow db₂ db₃ → Counted db₃ →
          ∃ link', db₃.link link.id = some link' ∧ link'.terms = link.terms :=
        fun db₃ hg₃ hi₃ => found_again hm (hg₂.trans hg₃) hi₃
      refine Ok_op (fun db₃ hg₃ hi₃ _ => ?_) (fun _ _ _ _ => trivial) fun db₃ r db₄ hg₃ hi₃ _ hx => ?_
      · obtain ⟨link', hf, hterms⟩ := hread db₃ hg₃ hi₃
        exact ⟨token, request, ht, link', hf, (congrArg LinkTerms.tokenHash hterms).trans hhash⟩
      · obtain ⟨link', hf, hterms⟩ := hread db₃ hg₃ hi₃
        refine ⟨(counted_step (o := .accessLink link.id request.now) hi₃ trivial hx).1, ?_⟩
        have hx' : (r, db₄) = shareLinkRun p db₃ (.accessLink link.id request.now) := hx
        simp only [shareLinkRun, hf] at hx'
        obtain ⟨rfl, rfl⟩ := Prod.mk.inj hx'
        refine ⟨⟨p, link'⟩, List.mem_append_right _ (List.mem_singleton_self _), rfl, ?_, ?_, ?_⟩
        · exact (congrArg LinkTerms.tokenHash hterms).trans hhash
        · exact congrArg LinkTerms.docId hterms
        · exact congrArg LinkTerms.permission hterms

def Unaccessed : ShareLinkOp → Prop
  | .createLink link => NewLink link
  | .accessLink _ _ => False
  | _ => True

theorem Unaccessed.issued {o : ShareLinkOp} (h : Unaccessed o) : LinkIssued o := by
  cases o <;> first | exact h | trivial

theorem Unaccessed.warranted {t : ShareLinkTask} {o : ShareLinkOp} (h : Unaccessed o) :
    LinkWarranted env t db o := by
  cases o with
  | accessLink id now => exact h.elim
  | createLink link => exact h
  | _ => trivial

theorem findDoc_uses {α : Type} {f : DocumentRow → ShareLinkM α} (hf : ∀ document, (f document).Uses Unaccessed)
    (docId : String) (request : Request) :
    (DocumentShareLinksService.findDocInOrgOrThrow docId request >>= f).Uses Unaccessed := by
  refine .bind hf (.bind (fun organizationId => ?_) (.ofExcept _))
  refine .bind (fun found => ?_) (.op trivial)
  cases found <;> trivial

theorem newLink_new {docId id : String} {dto : CreateShareLinkDto} {request : Request} (h : dto.accepts = true) :
    NewLink (newLink env docId dto request id token) := by
  refine ⟨rfl, rfl, fun m hm => ?_⟩
  simp only [CreateShareLinkDto.accepts, Bool.and_eq_true, Option.all_eq_true, decide_eq_true_eq] at h
  exact (h.2 m hm).1

theorem ShareLinkTask.uses (t : ShareLinkTask) (ht : ∀ token request, t ≠ .redeem token request) :
    (t.prog env).Uses Unaccessed := by
  cases t with
  | create docId dto request id token =>
    refine .bind (fun _ => .pure _) (.bind (fun _ => ?_) (.ofExcept _))
    split
    · trivial
    · rename_i h
      refine .bind (fun _ => findDoc_uses (fun document => ?_) docId request) (.ofExcept _)
      have hnew : Unaccessed (.createLink (newLink env docId dto request id token)) :=
        newLink_new (by simpa using h)
      refine .bind (fun _ => .bind (fun result => ?_) (.op hnew)) (.ofExcept _)
      exact .bind (fun _ => .pure _) (.ofExcept _)
  | list docId request =>
    refine .bind (fun _ => .pure _) (.bind (fun _ => findDoc_uses (fun document => ?_) docId request) (.ofExcept _))
    exact .bind (fun _ => .bind (fun _ => .pure _) (.op trivial)) (.ofExcept _)
  | revoke docId linkId request =>
    refine .bind (fun _ => .pure _) (.bind (fun _ => findDoc_uses (fun document => ?_) docId request) (.ofExcept _))
    refine .bind (fun _ => .bind (fun found => ?_) (.op trivial)) (.ofExcept _)
    cases found with
    | none => trivial
    | some link =>
      dsimp only
      split
      · trivial
      · split
        · trivial
        · exact .bind (fun _ => .bind (fun _ => .pure _) (.ofExcept _)) (.op trivial)
  | redeem token request => exact absurd rfl (ht token request)

theorem link_task_ok (hi : Counted db) :
    Ok (linkCounting env tasks) p (LinkTaskEnds env p (tasks p)) (fun _ _ => True) ((tasks p).prog env) db := by
  by_cases ht : ∃ token request, tasks p = .redeem token request
  · obtain ⟨token, request, ht⟩ := ht
    rw [ht]
    refine Ok_bind (Q := fun result db => Logged env p token db result) (fun result db' _ hlog => ?_) _ db hi ?_
    · rintro _ _ _ ⟨⟩ ⟨⟩
      exact hlog
    · exact Ok_ofExcept_bind (fun _ _ => redeem_ok ht) fun _ _ => trivial
  · have hn : ∀ token request, tasks p ≠ .redeem token request := fun token request h => ht ⟨token, request, h⟩
    refine Ok_mono (Q := fun _ _ => True) (E := fun _ _ => True)
      (fun _ _ _ token request _ h => absurd h (hn token request)) (fun _ _ h => h) _ db ?_
    exact Ok_uses (J := fun _ => True) (fun _ _ _ _ _ _ _ => trivial) (fun o db hu _ _ _ => hu.warranted)
      (fun o db r db' hu hi' _ _ hx => ⟨(counted_step hi' hu.issued hx).1, trivial⟩)
      _ db ((tasks p).uses hn) trivial

/-! ## Redeems that the others heed -/

def ShareLinkOp.redeems : ShareLinkOp → Bool
  | .findDocument _ | .accessLink _ _ => true
  | _ => false

def ShareLinkTask.redeemed (env : PolicyEnv) : ShareLinkTask → Option String
  | .redeem token _ => some (hashToken env token)
  | _ => none

/-- The process has read the link of the hash for a redeem and has not counted its access yet. -/
def Redeeming (env : PolicyEnv) (tasks : ι → ShareLinkTask)
    (c : Config ι (ShareLinkDb ι) ShareLinkOp ShareLinkOp.Res HttpError ShareLinkOutcome)
    (tokenHash : String) (p : ι) :
    Prop :=
  (tasks p).redeemed env = some tokenHash ∧ (c.procs p).next.any ShareLinkOp.redeems = true

/-- No access of a link is counted and no link is revoked while another process is redeeming it. -/
def RedeemsApart (env : PolicyEnv) (tasks : ι → ShareLinkTask)
    (c : Config ι (ShareLinkDb ι) ShareLinkOp ShareLinkOp.Res HttpError ShareLinkOutcome) (p : ι) :
    ShareLinkOp → Prop
  | .accessLink id _ => ∀ link ∈ c.store.link id, ∀ q, q ≠ p → ¬Redeeming env tasks c link.tokenHash q
  | .revokeLink id _ _ => ∀ link ∈ c.store.link id, ∀ q, q ≠ p → ¬Redeeming env tasks c link.tokenHash q
  | _ => True

/-- The link that a redeem has read stays as it is up to the increment, which therefore finds it in time. -/
def heeding (env : PolicyEnv) (tasks : ι → ShareLinkTask) : Spec ι (ShareLinkDb ι) ShareLinkOp ShareLinkOp.Res where
  exec := ShareLinkExec
  pre _ _ _ := True
  inv := Counted
  rely p o db db' := ∀ tokenHash, (tasks p).redeemed env = some tokenHash → o.any ShareLinkOp.redeems = true →
    ∀ link ∈ db.shareLinks, link.tokenHash = tokenHash → link ∈ db'.shareLinks
  guar _ db o := LinkIssued o ∧ AccessInTime db o

theorem heeding_closed : (heeding env tasks).Closed where
  refl _ _ _ _ _ _ _ hm _ := hm
  trans _ _ _ _ _ h h' tokenHash ht ho link hm hhash :=
    h' tokenHash ht ho link (h tokenHash ht ho link hm hhash) hhash

theorem redeemGuard_ok {link : DocumentShareLink} {now : Time} {u : Unit}
    (h : DocumentShareLinksService.redeemGuard link now = .ok u) : link.revokedAt = none ∧ ¬Exhausted link := by
  have hs : computeStatus link now = .ACTIVE := by
    by_contra hne
    simp [DocumentShareLinksService.redeemGuard, hne] at h
  unfold computeStatus at hs
  split_ifs at hs with hrev hexp hex
  exact ⟨by simpa using hrev, hex⟩

theorem redeem_heeded {request : Request} (ht : tasks p = .redeem token request) :
    Ok (heeding env tasks) p (fun _ _ => True) (fun _ _ => True)
      (DocumentShareLinksService.redeem env token request)
      db := by
  have hredeemed : (tasks p).redeemed env = some (hashToken env token) := by rw [ht]; rfl
  refine Ok_op (fun _ _ _ _ => ⟨trivial, trivial⟩) (fun _ _ _ _ => trivial) fun _ r db₁ _ hi₁ _ hx => ?_
  obtain ⟨hr, rfl⟩ := Prod.mk.inj hx
  refine ⟨hi₁, ?_⟩
  cases r with
  | none => trivial
  | some link =>
    obtain ⟨hm, hhash⟩ := Keyed.find_some hr.symm
    refine Ok_ofExcept_bind (fun _ hguard => ?_) fun _ _ => trivial
    refine Ok_op (fun _ _ _ _ => ⟨trivial, trivial⟩) (fun _ _ _ _ => trivial) fun _ r db₂ hr₂ hi₂ _ hx => ?_
    obtain ⟨_, rfl⟩ := Prod.mk.inj hx
    have hm₂ : link ∈ db₂.shareLinks := hr₂ _ hredeemed rfl link hm hhash
    refine ⟨hi₂, ?_⟩
    cases r with
    | none => trivial
    | some document =>
      refine Ok_op (fun db₃ hr₃ hi₃ _ => ⟨trivial, fun link' hfound => ?_⟩) (fun _ _ _ _ => trivial)
        fun db₃ r db₄ _ hi₃ _ hx => ⟨(counted_step (o := .accessLink link.id request.now) hi₃ trivial hx).1, ?_⟩
      · -- the increment finds the row that the guard has seen
        have hm₃ : link ∈ db₃.shareLinks := hr₃ _ hredeemed rfl link hm₂ hhash
        obtain ⟨hm', hid⟩ := Keyed.find_some hfound
        rw [hi₃.ids.eq hm' hm₃ hid]
        exact redeemGuard_ok hguard
      · exact Ok_ofExcept_bind (fun _ _ => trivial) fun _ _ => trivial

theorem link_task_heeded (hi : Counted db) (t : ShareLinkTask) (ht : tasks p = t) :
    Ok (heeding env tasks) p (fun _ _ => True) (fun _ _ => True) (t.prog env) db := by
  by_cases hredeem : ∃ token request, t = .redeem token request
  · obtain ⟨token, request, rfl⟩ := hredeem
    refine Ok_bind (Q := fun _ _ => True) (fun result db' _ _ => ?_) _ db hi ?_
    · trivial
    · exact Ok_ofExcept_bind (fun _ _ => redeem_heeded ht) fun _ _ => trivial
  · have hn : ∀ token request, t ≠ .redeem token request := fun token request h => hredeem ⟨token, request, h⟩
    refine Ok_uses (J := fun _ => True) (fun _ _ _ _ _ _ _ => trivial) ?_ ?_ _ db (t.uses hn) trivial
    · intro o db hu _ _ _
      refine ⟨hu.issued, ?_⟩
      cases o <;> first | exact hu.elim | trivial
    · exact fun o db r db' hu hi' _ _ hx => ⟨(counted_step hi' hu.issued hx).1, trivial⟩

theorem RedeemsApart.keeps {c : Config ι (ShareLinkDb ι) ShareLinkOp ShareLinkOp.Res HttpError ShareLinkOutcome}
    {q : ι} {o : ShareLinkOp} {r : o.Res} (hi : Counted c.store)
    (hx : ShareLinkExec q c.store o r db') (hc : RedeemsApart env tasks c q o) (hpq : p ≠ q) {tokenHash : String}
    (hp : Redeeming env tasks c tokenHash p) (hm : link ∈ c.store.shareLinks) (hhash : link.tokenHash = tokenHash) :
    link ∈ db'.shareLinks := by
  rcases link_writes hx with rfl | hw
  · exact hm
  · cases hw with
    | create new => exact List.mem_append_left _ hm
    | @access id now other found =>
      refine (Keyed.mem_put found).mpr (.inr ⟨hm, fun hid => ?_⟩)
      obtain rfl := hi.ids.eq hm (Keyed.find_some found).1 (hid.trans (Keyed.find_some found).2.symm)
      exact hc link found p hpq (hhash ▸ hp)
    | @revoke id now revokedBy other found =>
      refine (Keyed.mem_put found).mpr (.inr ⟨hm, fun hid => ?_⟩)
      obtain rfl := hi.ids.eq hm (Keyed.find_some found).1 (hid.trans (Keyed.find_some found).2.symm)
      exact hc link found p hpq (hhash ▸ hp)

/-! ## Runs -/

theorem counted_start (documents : List DocumentRow) : Counted (⟨documents, [], []⟩ : ShareLinkDb ι) :=
  ⟨List.nodup_nil, List.nodup_nil, fun _ => nofun, fun _ => nofun⟩

variable [DecidableEq ι] {documents : List DocumentRow}
  {c : Config ι (ShareLinkDb ι) ShareLinkOp ShareLinkOp.Res HttpError ShareLinkOutcome}
  {cond : Config ι (ShareLinkDb ι) ShareLinkOp ShareLinkOp.Res HttpError ShareLinkOutcome → ι → ShareLinkOp → Prop}

theorem reach_counted (hr : Reach ShareLinkExec cond (startShareLinks env documents tasks) c) : Counted c.store ∧
    ∀ p, Ok (linkCounting env tasks) p (LinkTaskEnds env p (tasks p)) (fun _ _ => True) (c.procs p) c.store := by
  have h₀ := counted_start (ι := ι) documents
  refine Reach.ok (S := linkCounting env tasks) (Q := fun p => LinkTaskEnds env p (tasks p))
    (E := fun _ _ _ => True) hr
    linkCounting_closed h₀ (fun p => link_task_ok h₀) (fun _ _ _ _ => trivial) ?_ (fun _ _ _ _ _ _ _ => trivial) ?_
  · intro p outcome db db' h hg _ token request result ht ho
    exact (h token request result ht ho).grows hg
  · intro c p q o k r db' hi _ hx _ hw _
    exact (counted_step hi (LinkWarranted.issued hw) hx).2

theorem reach_heeded (hr : Reach ShareLinkExec (RedeemsApart env tasks) (startShareLinks env documents tasks) c) :
    Counted c.store ∧ ∀ p, Ok (heeding env tasks) p (fun _ _ => True) (fun _ _ => True) (c.procs p) c.store := by
  refine Reach.ok (S := heeding env tasks) (Q := fun _ _ _ => True) (E := fun _ _ _ => True) hr heeding_closed
    (counted_start documents) (fun p => link_task_heeded (counted_start documents) (tasks p) rfl)
    (fun _ _ _ _ => trivial) (fun _ _ _ _ _ _ _ => trivial) (fun _ _ _ _ _ _ _ => trivial) ?_
  intro c p q o k r db' hi _ hx hc _ hpq tokenHash ht ho link hm hhash
  exact hc.keeps hi hx hpq ⟨ht, ho⟩ hm hhash

theorem reach_capped (hr : Reach ShareLinkExec (RedeemsApart env tasks) (startShareLinks env documents tasks) c) :
    Capped c.store ∧ ∀ a ∈ c.store.accesses, a.link.revokedAt = none := by
  induction hr with
  | refl => exact ⟨fun _ => nofun, fun _ => nofun⟩
  | @exec c p o k r db' hr hp hx _ ih =>
    obtain ⟨hi, hok⟩ := reach_heeded hr
    have hown := hok p
    rw [hp] at hown
    obtain ⟨hissued, htime⟩ := hown.guar heeding_closed hi trivial
    refine ⟨capped_step ih.1 hissued htime hx, ?_⟩
    rcases link_writes hx with rfl | hw
    · exact ih.2
    · cases hw with
      | create new => exact ih.2
      | access found =>
        intro a ha
        rcases List.mem_append.mp ha with h | h
        · exact ih.2 a h
        · rw [List.mem_singleton.mp h]
          exact (htime _ found).1
      | revoke found => exact ih.2
  | fail _ _ _ ih => exact ih

def Returned : ShareLinkM ShareLinkOutcome → Bool
  | .ret (.redeemed _) => true
  | _ => false

/-- Process `p` has redeemed a token of the link. -/
structure Redeems (env : PolicyEnv) (tasks : ι → ShareLinkTask)
    (c : Config ι (ShareLinkDb ι) ShareLinkOp ShareLinkOp.Res HttpError ShareLinkOutcome)
    (link : ShareLinkRow) (p : ι) : Prop where
  task : ∃ token request, tasks p = .redeem token request ∧ hashToken env token = link.tokenHash
  returned : Returned (c.procs p) = true

/-- At most as many redeems return as the cap of the link says, and none that was counted after the revocation. -/
structure CapHeld (env : PolicyEnv) (tasks : ι → ShareLinkTask)
    (c : Config ι (ShareLinkDb ι) ShareLinkOp ShareLinkOp.Res HttpError ShareLinkOutcome) : Prop where
  capped : ∀ link ∈ c.store.shareLinks, ∀ m, link.maxAccessCount = some m → ∀ ps : List ι, ps.Nodup →
    (∀ p ∈ ps, Redeems env tasks c link p) → (ps.length : Int) ≤ m
  unrevoked : ∀ a ∈ c.store.accesses, Returned (c.procs a.process) = true → a.link.revokedAt = none

theorem Redeems.logged (hr : Reach ShareLinkExec cond (startShareLinks env documents tasks) c)
    (hm : link ∈ c.store.shareLinks) (h : Redeems env tasks c link p) :
    ∃ a ∈ c.store.accessesOf link.id, a.process = p := by
  obtain ⟨hi, hok⟩ := reach_counted hr
  obtain ⟨token, request, ht, hhash⟩ := h.task
  have hret := h.returned
  have hown := hok p
  cases hp : c.procs p with
  | throw e => rw [hp] at hret; cases hret
  | call o k => rw [hp] at hret; cases hret
  | ret outcome =>
    rw [hp] at hret hown
    cases outcome with
    | redeemed result =>
      obtain ⟨a, ha, hproc, hashed, _⟩ := hown token request result ht rfl
      obtain ⟨l, hl, hterms⟩ := hi.logged a ha
      have hsame : l.tokenHash = link.tokenHash :=
        (congrArg LinkTerms.tokenHash hterms).trans (hashed.trans hhash)
      obtain rfl := hi.hashes.eq hl hm hsame
      have hid : a.link.id = l.id := (congrArg LinkTerms.id hterms).symm
      exact ⟨a, List.mem_filter.mpr ⟨ha, decide_eq_true hid⟩, hproc⟩
    | created | listed | revoked => cases hret

theorem cap_held (hr : Reach ShareLinkExec (RedeemsApart env tasks) (startShareLinks env documents tasks) c) :
    CapHeld env tasks c where
  capped link hm m hmax ps hn hps := by
    obtain ⟨hi, _⟩ := reach_counted hr
    have hsub : ps ⊆ (c.store.accessesOf link.id).map (·.process) := fun p hp => by
      obtain ⟨a, ha, rfl⟩ := (hps p hp).logged hr hm
      exact List.mem_map_of_mem ha
    have hle : ps.length ≤ (c.store.accessesOf link.id).length := by
      simpa using (List.subperm_of_subset hn hsub).length_le
    have hcap := (reach_capped hr).1 link hm m hmax
    rw [hi.counted link hm] at hcap
    omega
  unrevoked a ha _ := (reach_capped hr).2 a ha

/-! ## Two redeems of a link for one -/

end

open PolicyService (sampleEnv publishedDocument)

def singleUse : CreateShareLinkDto := { expiresInHours := 1, maxAccessCount := some 1 }

def recipient (actor : String) (now : Time) : Request := ⟨⟨some actor, none, ["viewer"]⟩, some "o-1", now⟩

def administrator (now : Time) : Request := ⟨⟨some "u-9", none, ["admin"]⟩, some "o-1", now⟩

-- One process creates a link for one access, the next two redeem it, and the rest revoke it.
def sharing : Nat → ShareLinkTask
  | 0 => .create "d-1" singleUse (administrator 10) "l-1" "token"
  | 1 => .redeem "token" (recipient "u-2" 20)
  | 2 => .redeem "token" (recipient "u-3" 30)
  | _ => .revoke "d-1" "l-1" (administrator 40)

def sharingRun (ps : List Nat) :
    Config Nat (ShareLinkDb Nat) ShareLinkOp ShareLinkOp.Res HttpError ShareLinkOutcome :=
  schedule shareLinkRun (startShareLinks sampleEnv [{ publishedDocument with title := "Plan" }] sharing) ps

def bothRead : List Nat := [0, 0, 1, 1, 2, 2, 1, 2]

instance {ι : Type} (env : PolicyEnv) (tasks : ι → ShareLinkTask)
    (c : Config ι (ShareLinkDb ι) ShareLinkOp ShareLinkOp.Res HttpError ShareLinkOutcome)
    (tokenHash : String) (p : ι) :
    Decidable (Redeeming env tasks c tokenHash p) := inferInstanceAs (Decidable (_ ∧ _))

instance {ι : Type} [Fintype ι] [DecidableEq ι] (env : PolicyEnv) (tasks : ι → ShareLinkTask)
    (c : Config ι (ShareLinkDb ι) ShareLinkOp ShareLinkOp.Res HttpError ShareLinkOutcome) (p : ι) :
    DecidablePred (RedeemsApart env tasks c p)
  | .accessLink id _ | .revokeLink id _ _ =>
    inferInstanceAs (Decidable (∀ link ∈ c.store.link id, ∀ q, q ≠ p → ¬Redeeming env tasks c link.tokenHash q))
  | .findDocument _ | .findDocumentInOrg _ _ | .findByTokenHash _ | .findLink _ | .findLinks _ | .createLink _ =>
    isTrue trivial

/-- The first four of these processes: the second redeem comes after the first one and finds the link exhausted,
and the revocation comes last. -/
def redeemedInTurn : Config (Fin 4) (ShareLinkDb (Fin 4)) ShareLinkOp ShareLinkOp.Res HttpError ShareLinkOutcome :=
  schedule shareLinkRun (startShareLinks sampleEnv [{ publishedDocument with title := "Plan" }] fun p => sharing p)
    [0, 0, 1, 1, 1, 2, 3, 3, 3]

theorem cap_held_sample : CapHeld sampleEnv (fun p : Fin 4 => sharing p) redeemedInTurn ∧
    Returned (redeemedInTurn.procs 1) = true :=
  ⟨cap_held (Reach.schedule (fun _ _ _ => rfl) _ _ .refl (meets_iff _ _ (by decide +kernel))), by decide +kernel⟩

theorem cap_exceeded : ¬ ∀ (env : PolicyEnv) (documents : List DocumentRow) (tasks : Nat → ShareLinkTask)
    (c : Config Nat (ShareLinkDb Nat) ShareLinkOp ShareLinkOp.Res HttpError ShareLinkOutcome),
    Reach ShareLinkExec (fun _ _ _ => True) (startShareLinks env documents tasks) c → CapHeld env tasks c := by
  intro h
  have hr : Reach ShareLinkExec (fun _ _ _ => True)
    (startShareLinks sampleEnv [{ publishedDocument with title := "Plan" }] sharing)
      (sharingRun bothRead) := Reach.schedule (fun _ _ _ => rfl) _ _ .refl (meets_true _ _)
  have hs : ((sharingRun bothRead).store.shareLinks.find? fun link =>
      link.maxAccessCount = some 1 && link.tokenHash = "token").isSome = true := by decide +kernel
  obtain ⟨link, hf⟩ := Option.isSome_iff_exists.mp hs
  have hlink := List.find?_some hf
  simp only [Bool.and_eq_true, decide_eq_true_eq] at hlink
  have hps : ∀ p ∈ [1, 2], Redeems sampleEnv sharing (sharingRun bothRead) link p := by
    intro p hp
    rcases List.mem_pair.mp hp with rfl | rfl
    · exact ⟨⟨"token", _, rfl, hlink.2.symm⟩, by decide +kernel⟩
    · exact ⟨⟨"token", _, rfl, hlink.2.symm⟩, by decide +kernel⟩
  exact absurd ((h _ _ _ _ hr).capped link (List.mem_of_find?_eq_some hf) 1 hlink.1 [1, 2]
    (by decide) hps) (by decide)

end DocVault
