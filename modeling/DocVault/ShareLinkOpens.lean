import DocVault.ShareLinkCap

/-!
# Redeemed links open their document

Redeeming counts an access, and `resolveShareGrant` refuses a link whose count
has reached its cap. So a redeem opens the document as long as it leaves the
link an access to spare; the last one that the cap permits does not.
-/

namespace DocVault

open Interleave
open PolicyService (resolveShareGrant isLive assertCanReadMetadata authorizePreview authorizeDownload
  SHARE_LINK_RECIPIENT_ROLES assertCanReadMetadata_ok authorizePreview_ok authorizeDownload_ok
    sampleEnv publishedDocument)
open DocumentShareLinksService (hashToken)

/-! ## What a share grant opens -/

/-- The token grants the permission, and what goes with it to whoever presents the token. -/
structure Opens (env : PolicyEnv) (db : PolicyDb) (docId token : String) (permission : DocumentSharePermission)
    (now : Time) : Prop where
  grant : resolveShareGrant env db docId (some token) now = some permission
  metadata : ∀ (request : PolicyRequest) (document : Document), request.shareToken = some token →
    request.now = now → hasSome request.roles SHARE_LINK_RECIPIENT_ROLES = true →
    PolicyService.findInOrg db docId request = .ok document →
    document.status ≠ .DELETED → assertCanReadMetadata env db docId request = .ok document
  preview : ∀ (request : PolicyRequest) (dto : GrantDto) (document : Document) (row : DocumentVersion),
    request.shareToken = some token → request.now = now → "compliance_officer" ∉ request.roles →
    PolicyService.findInOrg db docId request = .ok document → 1 ≤ dto.version.getD document.currentVersion →
    db.version docId (dto.version.getD document.currentVersion) = some row →
    ∃ a, authorizePreview env db docId dto request = .ok a
  download : permission = .DOWNLOAD → ∀ (request : PolicyRequest) (dto : GrantDto) (document : Document)
    (row : DocumentVersion), request.shareToken = some token → request.now = now →
    "compliance_officer" ∉ request.roles → PolicyService.findInOrg db docId request = .ok document →
    document.status = .PUBLISHED → 1 ≤ dto.version.getD document.currentVersion →
    db.version docId (dto.version.getD document.currentVersion) = some row →
    ∃ a, authorizeDownload env db docId dto request = .ok a

theorem opens_iff {env : PolicyEnv} {db : PolicyDb} {docId token : String} {permission : DocumentSharePermission}
    {now : Time} : Opens env db docId token permission now ↔
      resolveShareGrant env db docId (some token) now = some permission := by
  refine ⟨Opens.grant, fun h => ⟨h, ?_, ?_, ?_⟩⟩
  · intro request document htoken hnow hroles hf hs
    refine assertCanReadMetadata_ok.mpr ⟨hf, hs, .inl ⟨?_, hroles⟩⟩
    rw [htoken, hnow, h]
    rfl
  · intro request dto document row htoken hnow hc hf hv hrow
    refine ⟨_, authorizePreview_ok.mpr ⟨document, row, hf, hv, hrow, hc, .inl ?_, rfl⟩⟩
    rw [htoken, hnow, h]
    rfl
  · intro hp request dto document row htoken hnow hc hf hs hv hrow
    refine ⟨_, authorizeDownload_ok.mpr ⟨document, row, hf, hv, hrow, hc, hs, .inl ?_, rfl⟩⟩
    rw [htoken, hnow, h, hp]

theorem exhausted_iff {link : DocumentShareLink} : Exhausted link ↔
    link.maxAccessCount.any (fun maxAccessCount => link.accessCount ≥ maxAccessCount) = true := by
  cases h : link.maxAccessCount <;> simp [Exhausted, h]

theorem isLive_iff {link : DocumentShareLink} {docId : String} {now : Time} :
    isLive link docId now = true ↔ link.docId = docId ∧ link.revokedAt = none ∧
    now < link.expiresAt ∧ ¬Exhausted link := by
  unfold isLive
  rw [exhausted_iff]
  simp [and_assoc]

section
variable {ι : Type} {env : PolicyEnv} {db : ShareLinkDb ι} {policy : PolicyDb}
  {link : ShareLinkRow} {token : String}

theorem find_policy (hi : Counted db) (hl : policy.shareLinks = db.shareLinks.map (·.toDocumentShareLink))
    (hm : link ∈ db.shareLinks) (hhash : link.tokenHash = hashToken env token) :
    policy.shareLinks.find? (·.tokenHash = env.sha256 token) = some link.toDocumentShareLink := by
  have hf : db.byTokenHash (hashToken env token) = some link := hi.hashes.find_iff.mpr ⟨hm, hhash⟩
  rw [hl, List.find?_map]
  exact congrArg (Option.map (·.toDocumentShareLink)) hf

theorem resolve_iff (hi : Counted db) (hl : policy.shareLinks = db.shareLinks.map (·.toDocumentShareLink))
    (hm : link ∈ db.shareLinks) (hhash : link.tokenHash = hashToken env token) {now : Time} :
    resolveShareGrant env policy link.docId (some token) now = some link.permission ↔
      trim token ≠ "" ∧ link.revokedAt = none ∧ now < link.expiresAt ∧ ¬Exhausted link.toDocumentShareLink := by
  simp only [resolveShareGrant, find_policy hi hl hm hhash]
  by_cases ht : trim token = ""
  · simp [ht]
  · rw [if_neg ht]
    have hlive : isLive link.toDocumentShareLink link.docId now = true ↔ _ := isLive_iff
    by_cases h : isLive link.toDocumentShareLink link.docId now = true
    · simp [Option.filter, h, ht, (hlive.mp h).2]
    · simp only [Option.filter, h, Bool.false_eq_true, if_false, Option.map_none,
        reduceCtorEq, ht, not_false_eq_true, ne_eq, true_and, false_iff]
      exact fun hr => h (hlive.mpr ⟨rfl, hr⟩)

end

/-! ## Runs -/

section
variable {ι : Type} [DecidableEq ι] {env : PolicyEnv} {documents : List DocumentRow} {tasks : ι → ShareLinkTask}
  {c c' : Config ι (ShareLinkDb ι) ShareLinkOp ShareLinkOp.Res HttpError ShareLinkOutcome} {p : ι}
  {id token : String} {link : ShareLinkRow}

def Unredeemed (id : String) (_ : Config ι (ShareLinkDb ι) ShareLinkOp ShareLinkOp.Res HttpError ShareLinkOutcome)
    (_ : ι) : ShareLinkOp → Prop
  | .accessLink id' _ => id' ≠ id
  | _ => True

theorem unredeemed (hr : Reach ShareLinkExec (fun _ _ _ => True) (startShareLinks env documents tasks) c)
    (h : Reach ShareLinkExec (Unredeemed id) c c') :
    LinksGrow c.store c'.store ∧ c'.store.accessesOf id = c.store.accessesOf id := by
  induction h with
  | refl => exact ⟨.refl _, rfl⟩
  | @exec d p o k r db' hd hp hx hc ih =>
    obtain ⟨hi, hok⟩ := reach_counted (hr.trans (hd.mono fun _ _ _ _ => trivial))
    have hown := hok p
    rw [hp] at hown
    have hw : LinkWarranted env (tasks p) d.store o := hown.guar linkCounting_closed hi trivial
    refine ⟨ih.1.trans (counted_step hi hw.issued hx).2, ?_⟩
    rw [← ih.2]
    rcases link_writes hx with rfl | hw'
    · rfl
    · cases hw' with
      | create new => rfl
      | @access id' now link found =>
        have hne : link.id ≠ id := fun h => hc ((Keyed.find_some found).2.symm.trans h)
        have happ : (d.store.access p id' now link).accessesOf id =
            d.store.accessesOf id ++ [⟨p, link⟩].filter fun a => decide (a.link.id = id) := List.filter_append ..
        rw [happ, List.filter_cons_of_neg (by simpa using hne), List.filter_nil, List.append_nil]
      | revoke found => rfl
  | fail _ _ _ ih => exact ih

/-- From `c` on the token opens the document with the permission that process `p` has returned: as long as nobody
redeems the link again, it is not revoked and has not expired. -/
def StaysOpen (env : PolicyEnv) (token id : String) (p : ι)
    (c : Config ι (ShareLinkDb ι) ShareLinkOp ShareLinkOp.Res HttpError ShareLinkOutcome) : Prop :=
  ∀ c', Reach ShareLinkExec (Unredeemed id) c c' → ∀ result, c'.procs p = .ret (.redeemed result) →
    ∀ link, c'.store.link id = some link → link.revokedAt = none → ∀ now < link.expiresAt, ∀ policy : PolicyDb,
      policy.shareLinks = c'.store.shareLinks.map (·.toDocumentShareLink) →
      Opens env policy result.docId token result.permission now

theorem returned_stays {result : ShareLinkOutcome} (h : Reach ShareLinkExec (Unredeemed id) c c')
    (hp : c.procs p = .ret result) : c'.procs p = .ret result := by
  induction h with
  | refl => exact hp
  | exec _ hq _ _ ih =>
    refine (Function.update_of_ne ?_ _ _).trans ih
    rintro rfl
    rw [ih] at hq
    cases hq
  | fail _ _ hq ih =>
    refine (Function.update_of_ne ?_ _ _).trans ih
    rintro rfl
    rw [ih] at hq
    cases hq

/-- The link that a redeem counts is the one of its token. -/
theorem counted_link (hr : Reach ShareLinkExec (fun _ _ _ => True) (startShareLinks env documents tasks) c)
    {request : Request} (ht : tasks p = .redeem token request) {now : Time}
    {k : Option ShareLinkRow → ShareLinkM ShareLinkOutcome} (hp : c.procs p = .call (.accessLink id now) k)
    (found : c.store.link id = some link) : link.tokenHash = hashToken env token := by
  obtain ⟨hi, hok⟩ := reach_counted hr
  have hown := hok p
  rw [hp] at hown
  obtain ⟨token', request', ht', link', found', hhash⟩ := hown.guar linkCounting_closed hi trivial
  obtain ⟨rfl, rfl⟩ := ShareLinkTask.redeem.inj (ht.symm.trans ht')
  obtain rfl := Option.some.inj (found.symm.trans found')
  exact hhash

theorem returned_terms (hr : Reach ShareLinkExec (fun _ _ _ => True) (startShareLinks env documents tasks) c)
    {request : Request} (ht : tasks p = .redeem token request) {result : ShareLinkRedeemResult}
    (hp : c.procs p = .ret (.redeemed result)) (hm : link ∈ c.store.shareLinks)
    (hhash : link.tokenHash = hashToken env token) :
    result.docId = link.docId ∧ result.permission = link.permission := by
  obtain ⟨hi, hok⟩ := reach_counted hr
  have hend := hok p
  rw [hp] at hend
  obtain ⟨a, ha, _, hashed, hdoc, hperm⟩ := hend token request result ht rfl
  obtain ⟨l, hl, hterms⟩ := hi.logged a ha
  have hsame : l.tokenHash = link.tokenHash := (congrArg LinkTerms.tokenHash hterms).trans (hashed.trans hhash.symm)
  obtain rfl := hi.hashes.eq hl hm hsame
  exact ⟨hdoc.symm.trans (congrArg LinkTerms.docId hterms).symm,
    hperm.symm.trans (congrArg LinkTerms.permission hterms).symm⟩

theorem unredeemed_link (hr : Reach ShareLinkExec (fun _ _ _ => True) (startShareLinks env documents tasks) c)
    (h : Reach ShareLinkExec (Unredeemed id) c c') (found : c.store.link id = some link) {link' : ShareLinkRow}
    (found' : c'.store.link id = some link') : link'.terms = link.terms ∧ link'.accessCount = link.accessCount ∧
      (link'.revokedAt = none → link.revokedAt = none) := by
  obtain ⟨hm, hid⟩ := Keyed.find_some found
  obtain ⟨hm', hid'⟩ := Keyed.find_some found'
  obtain ⟨hi, _⟩ := reach_counted hr
  obtain ⟨hi', _⟩ := reach_counted (hr.trans (h.mono fun _ _ _ _ => trivial))
  obtain ⟨hgrow, hcount⟩ := unredeemed hr h
  obtain ⟨l, hl, hterms, hrevoked⟩ := hgrow.links link hm
  obtain rfl : l = link' := hi'.ids.eq hl hm' ((congrArg LinkTerms.id hterms).trans (hid.trans hid'.symm))
  refine ⟨hterms, ?_, hrevoked⟩
  rw [hi.counted link hm, hi'.counted l hm', hid, hid', hcount]

/-- A redeem that has counted its access opens the document from then on exactly if the link has been revoked
before, or its count stays below the cap. -/
theorem stays_open_iff (hr : Reach ShareLinkExec (fun _ _ _ => True) (startShareLinks env documents tasks) c)
    {request : Request} (ht : tasks p = .redeem token request) {now : Time}
    {k : Option ShareLinkRow → ShareLinkM ShareLinkOutcome} (hp : c.procs p = .call (.accessLink id now) k)
    {r : Option ShareLinkRow} {db' : ShareLinkDb ι} (hx : ShareLinkExec p c.store (.accessLink id now) r db')
    {result : ShareLinkRedeemResult} (hret : k r = .ret (.redeemed result)) (found : c.store.link id = some link) :
    StaysOpen env token id p ⟨db', Function.update c.procs p (k r)⟩ ↔
      (link.revokedAt = none → trim token ≠ "" ∧ ∀ m, link.maxAccessCount = some m → link.accessCount + 1 < m) := by
  have hr' := hr.exec hp hx trivial
  have hhash := counted_link hr ht hp found
  have hstep : (r, db') = (some (link.accessed now), c.store.access p id now link) := by
    have : (r, db') = shareLinkRun p c.store (.accessLink id now) := hx
    rw [this, shareLinkRun, found]
  obtain ⟨rfl, rfl⟩ := Prod.mk.inj hstep
  have hreturned : (Function.update c.procs p (k (some (link.accessed now)))) p = .ret (.redeemed result) := by
    rw [Function.update_self, hret]
  have hm : link.accessed now ∈ (c.store.access p id now link).shareLinks := (Keyed.mem_put found).mpr (.inl rfl)
  obtain ⟨hi, _⟩ := reach_counted hr'
  have found' : (c.store.access p id now link).link id = some (link.accessed now) :=
    hi.ids.find_iff.mpr ⟨hm, (Keyed.find_some found).2⟩
  obtain ⟨hdoc, hperm⟩ := returned_terms hr' ht hreturned hm hhash
  constructor
  · intro h hrev
    have hlast : link.expiresAt - 1 < link.expiresAt := Int.sub_lt_self _ (by decide)
    have hopens := h _ .refl result hreturned _ found' hrev _ hlast ⟨[], [], [], _, List.nodup_nil⟩ rfl
    rw [hdoc, hperm, opens_iff, resolve_iff hi rfl hm hhash] at hopens
    obtain ⟨htoken, _, _, hroom⟩ := hopens
    refine ⟨htoken, fun m hmax => ?_⟩
    by_contra hge
    exact hroom ⟨m, hmax, by simp only [ShareLinkRow.accessed]; omega⟩
  · intro hcond c' hc' result' hp' link' hf hrev now' hnow policy hpolicy
    obtain rfl := ShareLinkOutcome.redeemed.inj (Prog.ret.inj ((returned_stays hc' hreturned).symm.trans hp'))
    obtain ⟨hi', _⟩ := reach_counted (hr'.trans (hc'.mono fun _ _ _ _ => trivial))
    obtain ⟨hterms, hcount, hrevoked⟩ := unredeemed_link hr' hc' found' hf
    obtain ⟨htoken, hroom⟩ := hcond (hrevoked hrev)
    have hdoc' : link'.docId = link.docId := congrArg LinkTerms.docId hterms
    have hperm' : link'.permission = link.permission := congrArg LinkTerms.permission hterms
    have hhash' : link'.tokenHash = hashToken env token := (congrArg LinkTerms.tokenHash hterms).trans hhash
    rw [hdoc, hperm, opens_iff]
    refine (hdoc' ▸ hperm' ▸ resolve_iff hi' hpolicy (Keyed.find_some hf).1 hhash').mpr ⟨htoken, hrev, hnow, ?_⟩
    rintro ⟨m, hmax, hge⟩
    have := hroom m ((congrArg LinkTerms.maxAccessCount hterms).symm.trans hmax)
    simp only [ShareLinkRow.accessed] at hcount
    omega

end

/-! ## The one redeem of a link for one -/

def planRow : DocumentRow := { publishedDocument with title := "Plan" }

def singleUseLink : ShareLinkRow :=
  DocumentShareLinksService.newLink sampleEnv "d-1" singleUse (administrator 10) "l-1" "token"

-- What the first redeem does with the answer to its increment.
def singleUseEnd (result : Option ShareLinkRow) : ShareLinkM ShareLinkOutcome := do
  let result ← Prog.ofExcept (updated result) >>= fun _ =>
    pure (DocumentShareLinksService.redeemResult singleUseLink planRow)
  pure (.redeemed result)

theorem single_use_counts : (sharingRun [0, 0, 1, 1]).procs 1 = .call (.accessLink "l-1" 20) singleUseEnd := by rfl

theorem single_use_reached : Reach ShareLinkExec (fun _ _ _ => True) (startShareLinks sampleEnv [planRow] sharing)
    (sharingRun [0, 0, 1, 1]) := Reach.schedule (fun _ _ _ => rfl) _ _ .refl (meets_true _ _)

theorem stays_open_sample : StaysOpen sampleEnv "token" "l-1" 1
      ⟨(sharingRun [0, 0, 1, 1]).store.access 1 "l-1" 20 singleUseLink,
        Function.update (sharingRun [0, 0, 1, 1]).procs 1 (singleUseEnd (some (singleUseLink.accessed 20)))⟩ ↔
    (singleUseLink.revokedAt = none → trim "token" ≠ "" ∧
      ∀ m, singleUseLink.maxAccessCount = some m → singleUseLink.accessCount + 1 < m) :=
  stays_open_iff single_use_reached rfl single_use_counts rfl rfl rfl

-- The link is not revoked and has not expired, and the token grants nothing.
theorem last_redeem_closed : ¬ ∀ (env : PolicyEnv) (documents : List DocumentRow) (tasks : Nat → ShareLinkTask)
    (c : Config Nat (ShareLinkDb Nat) ShareLinkOp ShareLinkOp.Res HttpError ShareLinkOutcome)
    (p : Nat) (token id : String)
    (request : Request) (now : Time) (k : Option ShareLinkRow → ShareLinkM ShareLinkOutcome)
    (r : Option ShareLinkRow) (db' : ShareLinkDb Nat) (result : ShareLinkRedeemResult),
    Reach ShareLinkExec (fun _ _ _ => True) (startShareLinks env documents tasks) c →
    tasks p = .redeem token request →
      c.procs p = .call (.accessLink id now) k → ShareLinkExec p c.store (.accessLink id now) r db' →
      k r = .ret (.redeemed result) → StaysOpen env token id p ⟨db', Function.update c.procs p (k r)⟩ := by
  intro h
  have hopen := h _ _ _ _ 1 "token" "l-1" _ 20 singleUseEnd (some (singleUseLink.accessed 20))
    ((sharingRun [0, 0, 1, 1]).store.access 1 "l-1" 20 singleUseLink) _ single_use_reached
    rfl single_use_counts rfl rfl
  have hgrant := (hopen _ .refl (DocumentShareLinksService.redeemResult singleUseLink planRow)
    rfl (singleUseLink.accessed 20) rfl rfl 30 (by decide) ⟨[], [], [], _, List.nodup_nil⟩ rfl).grant
  exact absurd hgrant (by decide +kernel)

end DocVault
