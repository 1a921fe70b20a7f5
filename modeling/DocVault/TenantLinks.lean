import DocVault.TenantIsolation

/-!
# Share links of the organization

The routes that find the document of a link in the organization are isolated.
The redemption finds its link by the token, whoever's it is: it is isolated
exactly when the token is that of no link of another organization.
-/

namespace DocVault

open Isolation (Action Isolated Local action action_op action_guard_ok action_guard_error isolated_bind
  isolated_guard isolated_op isolated_ofExcept)
open Interleave (Prog)
open TenantDb DocumentShareLinksService

section
variable {β : Type} {env : PolicyEnv} {A docId : String} {db : TenantDb}
  {R : β → TenantDb → Prop} {request : Request}

theorem isolated_findDocInOrg {f : DocumentRow → ShareLinkM β} (h : request.organizationId = some A)
    (hf : ∀ document, db.Own A docId → Isolated (tenant A) (action runShareLink (f document)) db R) :
    Isolated (tenant A) (action runShareLink (findDocInOrgOrThrow docId request >>= f)) db R := by
  refine isolated_bind (Q := fun _ db' => db' = db ∧ db.Own A docId) ?_ ?_
  · refine isolated_guard fun organizationId horg => ?_
    obtain rfl := org_eq h horg
    refine isolated_op local_findDocumentInOrg ?_
    have hrun : (db.runShareLink (.findDocumentInOrg docId organizationId)).2 = db := rfl
    rw [hrun]
    cases found : (db.runShareLink (.findDocumentInOrg docId organizationId)).1 with
    | none => exact .throw _
    | some row =>
      obtain ⟨hrow, horg⟩ := Option.filter_eq_some_iff.mp found
      rw [links_document] at hrow
      obtain ⟨document, hfind, rfl⟩ := Option.map_eq_some_iff.mp hrow
      obtain ⟨hmem, rfl⟩ := mem_of_find hfind
      exact .pure ⟨rfl, own_of_mem hmem (of_decide_eq_true horg)⟩
  · rintro document _ ⟨rfl, hown⟩
    exact hf document hown

-- The generated id and the generated token are new ones.
theorem isolated_createShareLink (h : request.organizationId = some A)
    (dto : CreateShareLinkDto) {linkId token : String} (hid : db.shareLinks.find linkId = none)
    (hhash : Keyed.find (fun link : ShareLinkRow => link.tokenHash) db.shareLinks.rows
      (hashToken env token) = none) :
    Isolated (tenant A)
      (action runShareLink (DocumentShareLinksController.create env docId dto request linkId token)) db
      Any := by
  refine isolated_guard fun _ _ => ?_
  split
  · exact .throw _
  · refine isolated_guard fun _ _ => isolated_findDocInOrg h fun document hown => isolated_guard fun _ _ => ?_
    exact isolated_op (local_createLink hown hid hhash) (isolated_guard fun _ _ => .pure trivial)

theorem isolated_listShareLinks (h : request.organizationId = some A) :
    Isolated (tenant A) (action runShareLink (DocumentShareLinksController.list docId request)) db Any := by
  refine isolated_guard fun _ _ => isolated_findDocInOrg h fun document hown => isolated_guard fun _ _ => ?_
  exact isolated_op (local_findLinks hown) (.pure trivial)

/-- A link of another document is refused as one that is not there. -/
theorem isolated_findLink {linkId : String} {k : Option ShareLinkRow → ShareLinkM β} (hown : db.Own A docId)
    (hnone : k none = .throw (.notFound "Share link not found"))
    (hother : ∀ link, link.docId ≠ docId → k (some link) = .throw (.notFound "Share link not found"))
    (hsome : ∀ link, db.shareLinks.find linkId = some link → db.Own A link.docId →
      Isolated (tenant A) (action runShareLink (k (some link))) db R) :
    Isolated (tenant A) (action runShareLink (Prog.op (ShareLinkOp.findLink linkId) >>= k)) db R := by
  have hwithin : (db.within A).shareLinks.find linkId =
      (db.shareLinks.find linkId).filter fun link => !db.foreign A link.docId := link_within
  have hrefused : ∀ db : TenantDb, k (db.shareLinks.find linkId) = .throw (.notFound "Share link not found") →
      action runShareLink (Prog.op (ShareLinkOp.findLink linkId) >>= k) db =
        (.error (.notFound "Share link not found"), db) := by
    intro db hk
    have hact : action runShareLink (Prog.op (ShareLinkOp.findLink linkId) >>= k) db =
        action runShareLink (k (db.shareLinks.find linkId)) db := rfl
    rw [hact, hk]
    rfl
  cases found : db.shareLinks.find linkId with
  | none =>
    rw [found, Option.filter_none] at hwithin
    exact .refused (hrefused _ ((congrArg k hwithin).trans hnone)) (hrefused _ ((congrArg k found).trans hnone))
  | some link =>
    rw [found] at hwithin
    cases hf : db.foreign A link.docId with
    | false =>
      simp only [Option.filter, hf, Bool.not_false, if_true] at hwithin
      refine isolated_op (.same (a := some link) (Prod.ext hwithin rfl) (Prod.ext found rfl)) ?_
      have hrun : db.runShareLink (.findLink linkId) = (some link, db) := Prod.ext found rfl
      rw [hrun]
      exact hsome link found hf
    | true =>
      have hne : link.docId ≠ docId := by
        rintro rfl
        exact Bool.false_ne_true (hown.symm.trans hf)
      simp only [Option.filter, hf, Bool.not_true, Bool.false_eq_true, if_false] at hwithin
      exact .refused (hrefused _ ((congrArg k hwithin).trans hnone))
        (hrefused _ ((congrArg k found).trans (hother link hne)))

theorem isolated_revokeShareLink (h : request.organizationId = some A) (linkId : String) :
    Isolated (tenant A)
      (action runShareLink (DocumentShareLinksController.revoke docId linkId request)) db Any := by
  refine isolated_guard fun _ _ => isolated_findDocInOrg h fun document hown => isolated_guard fun _ _ => ?_
  refine isolated_findLink hown rfl (fun link hne => if_pos hne) fun link found hlink => ?_
  dsimp only
  split
  · exact .throw _
  · split
    · exact .pure trivial
    · exact isolated_op (local_revokeLink found hlink) (isolated_guard fun _ _ => .pure trivial)

/-! ## The redemption -/

variable {token : String}

def byToken (db : TenantDb) (env : PolicyEnv) (token : String) : Option ShareLinkRow :=
  Keyed.find (fun link : ShareLinkRow => link.tokenHash) db.shareLinks.rows (hashToken env token)

theorem byToken_within : byToken (db.within A) env token = (byToken db env token).filter fun link =>
    !db.foreign A link.docId :=
  Keyed.find_filter db.tokenHashes

theorem isolated_redeem (hown : ∀ link, byToken db env token = some link → db.Own A link.docId) :
    Isolated (tenant A) (action runShareLink (redeem env token request)) db Any := by
  have hwithin : byToken (db.within A) env token = byToken db env token := by
    rw [byToken_within]
    cases found : byToken db env token with
    | none => rfl
    | some link =>
      have hf : db.foreign A link.docId = false := hown link found
      simp [Option.filter, hf]
  refine isolated_op (.same (a := byToken db env token) (Prod.ext hwithin rfl) rfl) ?_
  have hrun : db.runShareLink (.findByTokenHash (hashToken env token)) = (byToken db env token, db) := rfl
  rw [hrun]
  cases found : byToken db env token with
  | none => exact .throw _
  | some link =>
    have hlink := hown link found
    refine isolated_guard fun _ _ => isolated_op (local_findDocument_link hlink) ?_
    have hrun : db.runShareLink (.findDocument link.docId) = (db.links.document link.docId, db) := rfl
    rw [hrun]
    cases db.links.document link.docId with
    | none => exact .throw _
    | some document =>
      have hfind : db.shareLinks.find link.id = some link := db.shareLinks.unique.find (Keyed.find_some found).1
      exact isolated_op (local_accessLink hfind hlink) (isolated_guard fun _ _ => .pure trivial)

theorem redeemGuard_error {link : DocumentShareLink} {now : Time} {e : HttpError}
    (h : redeemGuard link now = .error e) : e ≠ .notFound "Share link not found" := by
  unfold redeemGuard at h
  dsimp only at h
  split at h
  · obtain rfl := Except.error.inj h
    exact HttpError.noConfusion
  · cases h

theorem document_of_foreign (hf : db.foreign A docId = true) :
    ∃ document, db.links.document docId = some document := by
  obtain ⟨document, hmem, rfl, _⟩ := foreign_iff.mp hf
  have found : db.metadata.find document.id = some document := db.documents.unique.find hmem
  exact ⟨db.titled document, by rw [links_document, found]; rfl⟩

/-- The token of a link of another organization is known, and without the rows of other organizations it is not. -/
theorem redeem_foreign {link : ShareLinkRow} (request : Request) (found : byToken db env token = some link)
    (hf : db.foreign A link.docId = true) :
    (action runShareLink (redeem env token request) (db.within A)).1 = .error (.notFound "Share link not found") ∧
      (action runShareLink (redeem env token request) db).1 ≠ .error (.notFound "Share link not found") := by
  have hwithin : (db.within A).runShareLink (.findByTokenHash (hashToken env token)) = (none, db.within A) := by
    have hnone : byToken (db.within A) env token = none := by
      rw [byToken_within, found]
      simp [Option.filter, hf]
    exact Prod.ext hnone rfl
  have hrun : db.runShareLink (.findByTokenHash (hashToken env token)) = (some link, db) := Prod.ext found rfl
  obtain ⟨document, hdocument⟩ := document_of_foreign hf
  have hfind : db.shareLinks.find link.id = some link := db.shareLinks.unique.find (Keyed.find_some found).1
  have hread : db.runShareLink (.findDocument link.docId) = (some document, db) := Prod.ext hdocument rfl
  have haccess : db.runShareLink (.accessLink link.id request.now) = (some (link.accessed request.now), _) :=
    runShareLink_access hfind
  have hupdated : updated (some (link.accessed request.now)) = .ok (link.accessed request.now) := rfl
  unfold redeem
  rw [action_op hwithin, action_op hrun]
  refine ⟨rfl, ?_⟩
  cases hg : redeemGuard link.toDocumentShareLink request.now with
  | error e =>
    rw [action_guard_error hg]
    exact fun he => redeemGuard_error hg (Except.error.inj he)
  | ok u =>
    rw [action_guard_ok hg, action_op hread, action_op haccess, action_guard_ok hupdated]
    nofun

end

end DocVault
