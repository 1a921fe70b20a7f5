import DocVault.PolicyRules

/-!
# Who reaches file content

A compliance officer gets no content, whatever else they are. A download
carries the metadata with it unless the ACL denies reading, and a deleted
document stays hidden but for its preview: the two places where
`PolicyService` grants content that its other decisions withhold.
-/

namespace DocVault.PolicyService

variable {env : PolicyEnv} {db : PolicyDb} {docId : String} {dto : GrantDto} {request : PolicyRequest}
  {document : Document}

/-! ## A store -/

def sampleEnv : PolicyEnv where
  sha256 := id
  hmacSha256 := (· ++ ·)
  base64url := id
  downloadSecret := "download"
  previewSecret := "preview"

def deletedDocument : Document where
  id := "d-2"
  organizationId := "o-1"
  ownerId := "u-1"
  classification := .PUBLIC
  status := .DELETED
  currentVersion := 1

/-- The published document denies READ to everybody. -/
def sampleDb : PolicyDb where
  documents := [publishedDocument, deletedDocument]
  versions := [sampleVersion "d-1", sampleVersion "d-2"]
  aclEntries := [⟨"d-1", .ALL, none, .READ, .DENY⟩]
  shareLinks := []
  unique := by decide

def sampleMember (roles : List String) : PolicyRequest where
  user := ⟨some "u-2", none, roles⟩
  organizationId := some "o-1"
  now := 0

/-! ## Compliance officers -/

theorem officers_reach_no_content (hc : "compliance_officer" ∈ request.roles) :
    (∀ a, authorizeDownload env db docId dto request ≠ .ok a) ∧
      (∀ a, authorizePreview env db docId dto request ≠ .ok a) ∧
      ∀ g, getAiGuardrails env db docId request = .ok g → g.canUseContent = false := by
  refine ⟨fun a h => ?_, fun a h => ?_, fun g h => ?_⟩
  · obtain ⟨_, _, _, _, _, hn, _⟩ := authorizeDownload_ok.mp h
    exact hn hc
  · obtain ⟨_, _, _, _, _, hn, _⟩ := authorizePreview_ok.mp h
    exact hn hc
  · rw [← Bool.not_eq_true, canUseContent_iff h]
    rintro ⟨_, _, hn, _⟩
    exact hn hc

theorem officers_reach_no_content_sample :
    ¬∃ a, authorizePreview sampleEnv sampleDb "d-1" {} (sampleMember ["admin", "compliance_officer"]) = .ok a :=
  fun ⟨a, h⟩ => (officers_reach_no_content (by decide)).2.1 a h

/-! ## Downloads and metadata -/

/-- The actor may download the requested version, and the ACL denies them READ. -/
structure DownloadsUnread (db : PolicyDb) (document : Document) (dto : GrantDto)
    (request : PolicyRequest) : Prop where
  member : request.organizationId = some document.organizationId
  version : 1 ≤ dto.version.getD document.currentVersion
  officer : "compliance_officer" ∉ request.roles
  published : document.status = .PUBLISHED
  downloads : (standing db request document).Downloads
  denied : (standing db request document).denied .READ = true

theorem resolveShareGrant_none {now : Time} : resolveShareGrant env db docId none now = none := rfl

theorem download_reads (hd : document ∈ db.documents)
    (hrow : (db.version document.id (dto.version.getD document.currentVersion)).isSome = true)
    (ht : request.shareToken = none) :
    ((∃ a, authorizeDownload env db document.id dto request = .ok a) →
        ∃ d, assertCanReadMetadata env db document.id request = .ok d) ↔
      ¬DownloadsUnread db document dto request := by
  obtain ⟨row, hrow⟩ := Option.isSome_iff_exists.mp hrow
  constructor
  · rintro hreads ⟨hm, hn, hc, hs, hcontent, hdeny⟩
    have hf : findInOrg db document.id request = .ok document := findInOrg_ok.mpr ⟨hd, rfl, hm⟩
    obtain ⟨d, hread⟩ :=
      hreads ⟨_, authorizeDownload_ok.mpr ⟨document, row, hf, hn, hrow, hc, hs, .inr hcontent, rfl⟩⟩
    obtain ⟨hd', _, hr⟩ := assertCanReadMetadata_ok.mp hread
    obtain rfl := Except.ok.inj (hf.symm.trans hd')
    rw [ht, resolveShareGrant_none] at hr
    rcases hr with ⟨h, _⟩ | hr
    · cases h
    · exact absurd hr.1 (by simp [hdeny])
  · rintro hn ⟨a, ha⟩
    obtain ⟨d, _, hf, hv, _, hc, hs, hcontent, _⟩ := authorizeDownload_ok.mp ha
    obtain ⟨hd', hid, hm⟩ := findInOrg_ok.mp hf
    obtain rfl : d = document := db.eq_of_id hd' hd hid
    rw [ht, resolveShareGrant_none] at hcontent
    have hcontent := hcontent.resolve_left nofun
    have hdeny : (standing db request d).denied .READ = false := by
      rw [← Bool.not_eq_true]
      exact fun h => hn ⟨hm, hv, hc, hs, hcontent, h⟩
    exact ⟨d, assertCanReadMetadata_ok.mpr
      ⟨hf, by simp [hs], .inr (Standing.reads_of_downloads hc hs hcontent hdeny)⟩⟩

def openDb : PolicyDb := { sampleDb with aclEntries := [] }

theorem download_reads_sample :
    ∃ d, assertCanReadMetadata sampleEnv openDb "d-1" (sampleMember ["viewer"]) = .ok d :=
  have hd : publishedDocument ∈ openDb.documents := by decide
  have hn : ¬DownloadsUnread openDb publishedDocument {} (sampleMember ["viewer"]) :=
    fun h => absurd h.denied (by decide)
  (download_reads hd rfl rfl).mpr hn ⟨_, rfl⟩

theorem download_unread :
    ¬((∃ a, authorizeDownload sampleEnv sampleDb "d-1" {} (sampleMember ["viewer"]) = .ok a) →
      ∃ d, assertCanReadMetadata sampleEnv sampleDb "d-1" (sampleMember ["viewer"]) = .ok d) := by
  intro h
  obtain ⟨d, hd⟩ := h ⟨_, rfl⟩
  have hdeny : assertCanReadMetadata sampleEnv sampleDb "d-1" (sampleMember ["viewer"]) =
      .error (.forbidden "Metadata read denied by ACL") := rfl
  rw [hdeny] at hd
  cases hd

/-! ## Deleted documents -/

structure ExposesNothing (env : PolicyEnv) (db : PolicyDb) (docId : String) (dto : GrantDto)
    (request : PolicyRequest) : Prop where
  download : ∀ a, authorizeDownload env db docId dto request ≠ .ok a
  preview : ∀ a, authorizePreview env db docId dto request ≠ .ok a
  content : ∀ g, getAiGuardrails env db docId request = .ok g → g.canUseContent = false
  metadata : ∀ d, assertCanReadMetadata env db docId request ≠ .ok d

/-- All that a preview asks for: its status is not looked at. -/
structure CanPreview (env : PolicyEnv) (db : PolicyDb) (document : Document) (dto : GrantDto)
    (request : PolicyRequest) : Prop where
  member : request.organizationId = some document.organizationId
  version : 1 ≤ dto.version.getD document.currentVersion
  uploaded : (db.version document.id (dto.version.getD document.currentVersion)).isSome = true
  officer : "compliance_officer" ∉ request.roles
  granted : (resolveShareGrant env db document.id request.shareToken request.now).isSome = true ∨
    (standing db request document).Previews

theorem canPreview_iff (hd : document ∈ db.documents) :
    (∃ a, authorizePreview env db document.id dto request = .ok a) ↔ CanPreview env db document dto request := by
  constructor
  · rintro ⟨a, ha⟩
    obtain ⟨d, _, hf, hn, hrow, hc, hgrant, _⟩ := authorizePreview_ok.mp ha
    obtain ⟨hd', hid, hm⟩ := findInOrg_ok.mp hf
    obtain rfl : d = document := db.eq_of_id hd' hd hid
    exact ⟨hm, hn, by rw [hrow]; rfl, hc, hgrant⟩
  · rintro ⟨hm, hn, hrow, hc, hgrant⟩
    obtain ⟨row, hrow⟩ := Option.isSome_iff_exists.mp hrow
    exact ⟨_, authorizePreview_ok.mpr ⟨document, row, findInOrg_ok.mpr ⟨hd, rfl, hm⟩, hn, hrow, hc, hgrant, rfl⟩⟩

theorem deleted_unread (hd : document ∈ db.documents) (hs : document.status = .DELETED) (request : PolicyRequest)
    (d : Document) : assertCanReadMetadata env db document.id request ≠ .ok d := by
  intro h
  obtain ⟨hf, hne, _⟩ := assertCanReadMetadata_ok.mp h
  obtain ⟨hd', hid, _⟩ := findInOrg_ok.mp hf
  exact hne (db.eq_of_id hd' hd hid ▸ hs)

theorem deleted_exposes (hd : document ∈ db.documents) (hs : document.status = .DELETED) :
    ExposesNothing env db document.id dto request ↔ ¬CanPreview env db document dto request := by
  constructor
  · rintro ⟨_, hpreview, _, _⟩ hcan
    obtain ⟨a, ha⟩ := (canPreview_iff hd).mpr hcan
    exact hpreview a ha
  · intro hcan
    refine ⟨fun a ha => ?_, fun a ha => hcan ((canPreview_iff hd).mp ⟨a, ha⟩), fun g hg => ?_,
      deleted_unread hd hs request⟩
    · obtain ⟨d, _, hf, _, _, _, hpub, _⟩ := authorizeDownload_ok.mp ha
      obtain ⟨hd', hid, _⟩ := findInOrg_ok.mp hf
      rw [db.eq_of_id hd' hd hid, hs] at hpub
      cases hpub
    · obtain ⟨d, hread, _⟩ := bind_ok.mp hg
      exact absurd hread (deleted_unread hd hs _ d)

/-- The deleted document denies READ to the viewers. -/
def deniedDb : PolicyDb := { sampleDb with aclEntries := [⟨"d-2", .ROLE, some "viewer", .READ, .DENY⟩] }

theorem deleted_exposes_sample : ExposesNothing sampleEnv deniedDb "d-2" {} (sampleMember ["viewer"]) := by
  have hd : deletedDocument ∈ deniedDb.documents := by decide
  refine (deleted_exposes hd rfl).mpr fun h => ?_
  rcases h.granted with hshared | hpreviews
  · revert hshared
    decide
  · have hdenied := hpreviews.1
    revert hdenied
    decide

theorem deleted_previewed : ¬ExposesNothing sampleEnv sampleDb "d-2" {} (sampleMember ["viewer"]) :=
  fun h => h.preview _ rfl

end DocVault.PolicyService
