import DocVault.ContentAccess

/-!
# The list and the detail of a document

`DocumentsService.findAll` selects documents with one filter on their rows and
ACL entries, `PolicyService.assertCanReadMetadata` decides one document by
early returns. Both are brought to rules on a `Standing`, with the permissions
of the ACL as each side matches them, and the rules compared.
-/

namespace DocVault

open PolicyService (standing assertCanReadMetadata sampleEnv sampleMember openDb)

/-! ## Filters -/

/-- A `where` clause, over a document's row and its ACL entries. -/
abbrev DocumentWhere := Document → List DocumentAcl → Bool

namespace DocumentWhere

def AND (filters : List DocumentWhere) : DocumentWhere := fun document aclEntries =>
  filters.all fun filter => filter document aclEntries

def OR (filters : List DocumentWhere) : DocumentWhere := fun document aclEntries =>
  filters.any fun filter => filter document aclEntries

def NOT (filter : DocumentWhere) : DocumentWhere := fun document aclEntries => !filter document aclEntries

def organizationId (id : String) : DocumentWhere := fun document _ => document.organizationId = id

def ownerId (id : String) : DocumentWhere := fun document _ => document.ownerId = id

def status (statuses : List DocumentStatus) : DocumentWhere := fun document _ => statuses.contains document.status

def classification (level : ClassificationLevel) : DocumentWhere :=
  fun document _ => document.classification = level

def aclEntries (p : DocumentAcl → Bool) : DocumentWhere := fun _ aclEntries => aclEntries.any p

/-- A filter spread into a list under a condition. -/
def given (condition : Bool) (filter : DocumentWhere) : List DocumentWhere := if condition then [filter] else []

theorem any_given (condition : Bool) (filter : DocumentWhere) (document : Document)
    (aclEntries : List DocumentAcl) : ((given condition filter).any fun filter => filter document aclEntries) =
      (condition && filter document aclEntries) := by
  cases condition <;> simp [given]

end DocumentWhere

/-! ## DocumentsService -/

structure DocumentSummary extends Document where
  filename : Option String := none
  contentType : Option String := none
  mimeType : Option String := none
  fileSize : Option Int := none

namespace DocumentsService
open DocumentWhere

def groupSubjectIds (groups : List String) : List String :=
  (groups.flatMap fun group => [group, "/" ++ group]).eraseDups

def aclSubjects (actorId : String) (roles groups : List String) : List (AclSubjectType × Option String) :=
  [(.ALL, none), (.USER, some actorId)] ++ roles.map (fun role => (.ROLE, some role)) ++
    (groupSubjectIds groups).map fun group => (.GROUP, some group)

def matchingReadAcl (actorId : String) (roles groups : List String) (effect : AclEffect)
    (entry : DocumentAcl) : Bool :=
  entry.permission = .READ && (aclSubjects actorId roles groups).contains (entry.subjectType, entry.subjectId) &&
    entry.effect = effect

def readDenyFilter (actorId : String) (roles groups : List String) : DocumentWhere :=
  NOT (aclEntries (matchingReadAcl actorId roles groups .DENY))

def notDeleted : DocumentWhere := NOT (status [.DELETED])

/-- What the role and the classification let a user see who is no admin. -/
def visibilityFilter (actorId : String) (roles groups : List String) : DocumentWhere :=
  OR ([ownerId actorId, aclEntries (matchingReadAcl actorId roles groups .ALLOW)] ++
    given (roles.contains "compliance_officer") (status [.PUBLISHED, .ARCHIVED]) ++
    given (hasSome ["approver", "admin"] roles) (status [.PENDING, .PUBLISHED, .ARCHIVED]) ++
    [AND [ownerId actorId, status [.DRAFT]]] ++
    given (hasSome roles ["viewer", "editor", "approver", "compliance_officer", "admin"])
      (AND [status [.PUBLISHED, .ARCHIVED], classification .PUBLIC]) ++
    given (hasSome ["editor", "approver", "admin"] roles) (AND [status [.PUBLISHED, .ARCHIVED],
      classification .INTERNAL]) ++
    given (hasSome ["approver", "admin"] roles) (AND [status [.PUBLISHED, .ARCHIVED],
      classification .CONFIDENTIAL]) ++
    given (hasSome ["approver", "admin"] roles) (AND [status [.PUBLISHED, .ARCHIVED], classification .SECRET]))

def findAllWhere (orgId actorId : String) (roles groups : List String) (searchFilter : Option DocumentWhere) :
    DocumentWhere :=
  if roles.contains "admin" then
    AND ([organizationId orgId] ++ searchFilter.toList ++ [notDeleted, readDenyFilter actorId roles groups])
  else
    AND ([organizationId orgId] ++ searchFilter.toList ++
      [notDeleted, readDenyFilter actorId roles groups, visibilityFilter actorId roles groups])

def latestVersion (db : PolicyDb) (docId : String) : Option DocumentVersion :=
  ((db.versions.filter (·.docId = docId)).insertionSort fun a b => b.version ≤ a.version).head?

def toListSummary (document : Document) (latestVersion : Option DocumentVersion) : DocumentSummary :=
  match latestVersion with
  | none => { document with }
  | some latestVersion => { document with
      filename := some latestVersion.filename
      contentType := latestVersion.contentType
      mimeType := latestVersion.contentType
      fileSize := some latestVersion.size }

-- The service sorts the documents by their creation.
def findAllForOrg (db : PolicyDb) (orgId actorId : String) (roles groups : List String)
    (searchFilter : Option DocumentWhere) : List DocumentSummary :=
  (db.documents.filter fun document => findAllWhere orgId actorId roles groups searchFilter document
    (db.acl document.id)).map fun document => toListSummary document (latestVersion db document.id)

def findAll (db : PolicyDb) (request : PolicyRequest) (searchFilter : Option DocumentWhere) :
    Except HttpError (List DocumentSummary) := do
  let orgId ← requireOrgId request.toRequest
  .ok (findAllForOrg db orgId request.actorId request.roles (normalizeGroups request.contextGroups) searchFilter)

theorem toListSummary_toDocument (document : Document) (version : Option DocumentVersion) :
    (toListSummary document version).toDocument = document := by
  cases version <;> rfl

end DocumentsService

/-! ## The rule of the list -/

namespace Standing
variable (s l : Standing)

/-- What every role of the actor together lets the list show. -/
def RoleListed : Prop :=
  "compliance_officer" ∈ s.roles ∧ s.Released ∨ "approver" ∈ s.roles ∧ (s.status = .PENDING ∨ s.Released) ∨
    s.Released ∧ (s.classification = .PUBLIC ∧ ("viewer" ∈ s.roles ∨ "editor" ∈ s.roles) ∨
      s.classification = .INTERNAL ∧ "editor" ∈ s.roles)

def ListEntitled : Prop := s.Direct ∨ s.allowed .READ = true ∨ s.RoleListed

def Listed : Prop := s.denied .READ = false ∧ s.ListEntitled

/-- A compliance officer who is also an approver, at a pending document. -/
def Reviewing : Prop := "compliance_officer" ∈ s.roles ∧ "approver" ∈ s.roles ∧ s.status = .PENDING

/-- None of the roles that the list knows, at a public document. -/
def Roleless : Prop :=
  s.Released ∧ s.classification = .PUBLIC ∧
  ∀ role ∈ ["viewer", "editor", "approver", "compliance_officer"], role ∉ s.roles

variable {s l}

theorem Roleless.reads (h : s.Roleless) : s.RoleReads := by
  obtain ⟨hr, hc, hn⟩ := h
  simp only [List.mem_cons, List.not_mem_nil, or_false, forall_eq_or_imp, forall_eq] at hn
  simp [RoleReads, hn, hr, hc]

theorem Reviewing.unread (h : s.Reviewing) : ¬s.RoleReads := by
  obtain ⟨hc, _, hs⟩ := h
  simp [RoleReads, Released, hc, hs]

theorem roleListed_iff : s.RoleListed ↔ s.RoleReads ∧ ¬s.Roleless ∨ s.Reviewing := by
  unfold RoleListed RoleReads Roleless Reviewing
  have hp : s.status = .PENDING → ¬s.Released := by simp +contextual [Released]
  simp only [List.mem_cons, List.not_mem_nil, or_false, forall_eq_or_imp, forall_eq]
  by_cases hco : "compliance_officer" ∈ s.roles <;> by_cases happ : "approver" ∈ s.roles <;>
    simp only [hco, happ, true_and, false_and, if_true, if_false, not_true, not_false_eq_true, and_true, and_false]
    <;> tauto

/-- Where the list, with the ACL as `l` says it matches, and the detail, with
the ACL as `s` says, cannot come apart. -/
structure SameView (l s : Standing) : Prop where
  hidden : l.denied .READ = true → s.denied .READ = false → ¬s.Entitled
  shown : l.denied .READ = false → s.denied .READ = true → ¬l.ListEntitled
  reviewing : l.denied .READ = false → s.denied .READ = false → s.Reviewing → s.Direct ∨ s.Granted
  roleless : l.denied .READ = false → s.denied .READ = false → s.Roleless → s.Direct ∨ l.allowed .READ = true
  granted : l.denied .READ = false → s.denied .READ = false → ¬s.Direct → ¬s.RoleListed → ¬s.RoleReads →
    (l.allowed .READ = true ↔ s.Granted)

theorem entitled_iff (denied allowed : DocumentPermission → Bool) :
    ((s.withAcl denied allowed).ListEntitled ↔ s.Entitled) ↔
      (s.Reviewing → s.Direct ∨ s.Granted) ∧ (s.Roleless → s.Direct ∨ allowed .READ = true) ∧
        (¬s.Direct → ¬s.RoleListed → ¬s.RoleReads → (allowed .READ = true ↔ s.Granted)) := by
  have hl : (s.withAcl denied allowed).ListEntitled ↔ s.Direct ∨ allowed .READ = true ∨ s.RoleListed := Iff.rfl
  have hroleless : s.Roleless → s.RoleReads := Roleless.reads
  have hreviewing : s.Reviewing → ¬s.RoleReads := Reviewing.unread
  rw [hl, Entitled, roleListed_iff]
  by_cases hd : s.Direct
  · simp [hd]
  · by_cases hr : s.RoleReads
    · have hn : ¬s.Reviewing := fun h => hreviewing h hr
      by_cases hrl : s.Roleless <;> simp [hd, hr, hn, hrl]
    · have hn : ¬s.Roleless := fun h => hr (hroleless h)
      by_cases hrev : s.Reviewing <;> simp [hd, hr, hn, hrev]

theorem sameView_iff (denied allowed : DocumentPermission → Bool) :
    ((s.withAcl denied allowed).Listed ↔ s.Reads) ↔ SameView (s.withAcl denied allowed) s := by
  have he := entitled_iff (s := s) denied allowed
  have hl : (s.withAcl denied allowed).Listed ↔
    denied .READ = false ∧ (s.withAcl denied allowed).ListEntitled := Iff.rfl
  rw [hl, Reads]
  constructor
  · intro h
    refine ⟨fun hd hs hentitled => ?_, fun hd hs hentitled => ?_, ?_, ?_, ?_⟩
    · exact Bool.false_ne_true ((h.mpr ⟨hs, hentitled⟩).1.symm.trans hd)
    · exact Bool.false_ne_true ((h.mp ⟨hd, hentitled⟩).1.symm.trans hs)
    all_goals
      intro hd hs
      have hiff : (s.withAcl denied allowed).ListEntitled ↔ s.Entitled :=
        ⟨fun hentitled => (h.mp ⟨hd, hentitled⟩).2, fun hentitled => (h.mpr ⟨hs, hentitled⟩).2⟩
    · exact (he.mp hiff).1
    · exact (he.mp hiff).2.1
    · exact (he.mp hiff).2.2
  · rintro ⟨hhidden, hshown, hreviewing, hroleless, hgranted⟩
    cases hd : denied .READ <;> cases hs : s.denied .READ
    · have hiff := he.mpr ⟨hreviewing hd hs, hroleless hd hs, hgranted hd hs⟩
      simp [hiff]
    · simp [hshown hd hs]
    · simp [hhidden hd hs]
    · simp

end Standing

/-! ## The list and the detail -/

namespace DocumentsService
open DocumentWhere

variable (db : PolicyDb) (request : PolicyRequest) (document : Document)

/-- The standing of the user as the list sees it. -/
def listStanding : Standing :=
  (standing db request document).withAcl
    (fun _ => (db.acl document.id).any
      (matchingReadAcl request.actorId request.roles (normalizeGroups request.contextGroups) .DENY))
    (fun _ => (db.acl document.id).any
      (matchingReadAcl request.actorId request.roles (normalizeGroups request.contextGroups) .ALLOW))

variable {db request document}

theorem visibilityFilter_iff (ha : "admin" ∉ request.roles) :
    visibilityFilter request.actorId request.roles (normalizeGroups request.contextGroups) document
        (db.acl document.id) = true ↔ (listStanding db request document).ListEntitled := by
  have hmem : ∀ role, request.roles.contains role = true ↔ role ∈ request.roles := fun role => List.contains_iff_mem
  have hstatus : ∀ statuses : List DocumentStatus, status statuses document (db.acl document.id) = true ↔
      document.status ∈ statuses := fun statuses => List.contains_iff_mem
  have hclass : ∀ level, classification level document (db.acl document.id) = true ↔
    document.classification = level :=
    fun level => decide_eq_true_iff
  have howner : ownerId request.actorId document (db.acl document.id) = true ↔ document.ownerId = request.actorId :=
    decide_eq_true_iff
  have hknown : hasSome request.roles ["viewer", "editor", "approver", "compliance_officer", "admin"] = true ↔
      "viewer" ∈ request.roles ∨ "editor" ∈ request.roles ∨ "approver" ∈ request.roles ∨
        "compliance_officer" ∈ request.roles := by
    rw [hasSome_comm]
    simp [hasSome, ha]
  have hentitled : (listStanding db request document).ListEntitled ↔
      ("admin" ∈ request.roles ∨ decide (request.actorId = document.ownerId) = true) ∨
        aclEntries (matchingReadAcl request.actorId request.roles
          (normalizeGroups request.contextGroups) .ALLOW) document
          (db.acl document.id) = true ∨ (standing db request document).RoleListed := Iff.rfl
  rw [hentitled, decide_eq_true_iff, eq_comm (a := request.actorId)]
  unfold visibilityFilter OR Standing.RoleListed Standing.Released standing
  simp only [List.any_append, any_given, List.any_cons, List.any_nil, AND, List.all_cons,
    List.all_nil, Bool.or_eq_true,
    Bool.and_eq_true, hmem, hstatus, hclass, howner, hknown, hasSome_iff, Bool.or_false, Bool.and_true]
  simp only [List.mem_cons, List.not_mem_nil, or_false, exists_eq_or_imp, exists_eq_left, ha, false_or]
  generalize (document.status = .PUBLISHED ∨ document.status = .ARCHIVED) = released
  by_cases ho : document.ownerId = request.actorId
  · simp [ho]
  · by_cases hr : released
    · by_cases happ : "approver" ∈ request.roles
      · simp [happ, hr]
      · by_cases hco : "compliance_officer" ∈ request.roles
        · simp [hco, hr]
        · simp [ho, hr, happ, hco, or_assoc, and_comm]
    · simp [ho, hr]

theorem findAllWhere_and (orgId : String) (searchFilter : Option DocumentWhere) {acl : List DocumentAcl} :
    findAllWhere orgId request.actorId request.roles (normalizeGroups request.contextGroups)
      searchFilter document acl = true ↔
      findAllWhere orgId request.actorId request.roles (normalizeGroups request.contextGroups)
        none document acl = true ∧ ∀ f ∈ searchFilter, f document acl = true := by
  unfold findAllWhere
  cases searchFilter with
  | none => simp
  | some f => split <;> simp [AND] <;> tauto

theorem findAllWhere_iff (orgId : String) :
    findAllWhere orgId request.actorId request.roles (normalizeGroups request.contextGroups) none document
        (db.acl document.id) = true ↔
      document.organizationId = orgId ∧ document.status ≠ .DELETED ∧ (listStanding db request document).Listed := by
  have hdeny : readDenyFilter request.actorId request.roles (normalizeGroups request.contextGroups) document
      (db.acl document.id) = true ↔ (listStanding db request document).denied .READ = false :=
    iff_of_eq (Bool.not_eq_true' _)
  have hdeleted : notDeleted document (db.acl document.id) = true ↔ document.status ≠ .DELETED := by
    simp [notDeleted, NOT, status]
  have horg : organizationId orgId document (db.acl document.id) = true ↔ document.organizationId = orgId :=
    decide_eq_true_iff
  unfold findAllWhere Standing.Listed
  split
  · rename_i ha
    have hentitled : (listStanding db request document).ListEntitled := .inl (.inl (List.contains_iff_mem.mp ha))
    simp [AND, horg, hdeleted, hdeny, hentitled]
  · rename_i ha
    have ha : "admin" ∉ request.roles := fun h => ha (List.contains_iff_mem.mpr h)
    simp [AND, horg, hdeleted, hdeny, visibilityFilter_iff ha]

theorem findAll_mem (hd : document ∈ db.documents) :
    (∃ summaries, findAll db request none = .ok summaries ∧ ∃ summary ∈ summaries, summary.toDocument = document) ↔
      request.organizationId = some document.organizationId ∧ document.status ≠ .DELETED ∧
        (listStanding db request document).Listed := by
  have hmem : ∀ orgId, (∃ summary ∈ findAllForOrg db orgId request.actorId request.roles
      (normalizeGroups request.contextGroups) none, summary.toDocument = document) ↔
        document.organizationId = orgId ∧ document.status ≠ .DELETED ∧
        (listStanding db request document).Listed := by
    intro orgId
    rw [← findAllWhere_iff]
    simp only [findAllForOrg, List.mem_map, List.mem_filter]
    constructor
    · rintro ⟨_, ⟨d, ⟨_, hw⟩, rfl⟩, hsame⟩
      obtain rfl : d = document := (toListSummary_toDocument _ _).symm.trans hsame
      exact hw
    · exact fun hw => ⟨_, ⟨document, ⟨hd, hw⟩, rfl⟩, toListSummary_toDocument _ _⟩
  unfold findAll
  constructor
  · rintro ⟨summaries, h, hsummary⟩
    obtain ⟨orgId, horg, h⟩ := bind_ok.mp h
    obtain rfl := Except.ok.inj h
    obtain ⟨rfl, hrest⟩ := (hmem orgId).mp hsummary
    exact ⟨requireOrgId_ok.mp horg, hrest⟩
  · rintro ⟨horg, hrest⟩
    exact ⟨_, bind_ok.mpr ⟨_, requireOrgId_ok.mpr horg, rfl⟩, (hmem _).mpr ⟨rfl, hrest⟩⟩

end DocumentsService

/-- The list shows a document exactly when its detail can be read. -/
def ListAgrees (env : PolicyEnv) (db : PolicyDb) (request : PolicyRequest) (document : Document) : Prop :=
  (∃ summaries, DocumentsService.findAll db request none = .ok summaries ∧
      ∃ summary ∈ summaries, summary.toDocument = document) ↔
    ∃ d, assertCanReadMetadata env db document.id request = .ok d

theorem list_agrees {env : PolicyEnv} {db : PolicyDb} {request : PolicyRequest} {document : Document}
    (hd : document ∈ db.documents) (ht : request.shareToken = none) :
    ListAgrees env db request document ↔
      (request.organizationId = some document.organizationId → document.status ≠ .DELETED →
        (DocumentsService.listStanding db request document).SameView (standing db request document)) := by
  have hread : (∃ d, assertCanReadMetadata env db document.id request = .ok d) ↔
      request.organizationId = some document.organizationId ∧ document.status ≠ .DELETED ∧
        (standing db request document).Reads := by
    constructor
    · rintro ⟨d, h⟩
      obtain ⟨hf, hs, hr⟩ := PolicyService.assertCanReadMetadata_ok.mp h
      obtain ⟨hd', hid, hm⟩ := PolicyService.findInOrg_ok.mp hf
      obtain rfl : d = document := db.eq_of_id hd' hd hid
      rw [ht, PolicyService.resolveShareGrant_none] at hr
      exact ⟨hm, hs, hr.resolve_left nofun⟩
    · rintro ⟨hm, hs, hr⟩
      exact ⟨document,
        PolicyService.assertCanReadMetadata_ok.mpr ⟨PolicyService.findInOrg_ok.mpr ⟨hd, rfl, hm⟩, hs, .inr hr⟩⟩
  have hsame : ((DocumentsService.listStanding db request document).Listed ↔ (standing db request document).Reads) ↔
      (DocumentsService.listStanding db request document).SameView (standing db request document) :=
    Standing.sameView_iff _ _
  rw [ListAgrees, DocumentsService.findAll_mem hd, hread, ← hsame]
  constructor
  · exact fun h hm hs => ⟨fun hl => (h.mp ⟨hm, hs, hl⟩).2.2, fun hr => (h.mpr ⟨hm, hs, hr⟩).2.2⟩
  · intro h
    constructor
    · exact fun ⟨hm, hs, hl⟩ => ⟨hm, hs, (h hm hs).mp hl⟩
    · exact fun ⟨hm, hs, hr⟩ => ⟨hm, hs, (h hm hs).mpr hr⟩

theorem list_agrees_sample :
    ListAgrees sampleEnv openDb (sampleMember ["viewer"]) PolicyService.publishedDocument :=
  have hd : PolicyService.publishedDocument ∈ openDb.documents := by decide
  have ht : (sampleMember ["viewer"]).shareToken = none := rfl
  (list_agrees hd ht).mpr fun _ _ => {
    hidden := fun h => absurd h (by decide)
    shown := fun _ h => absurd h (by decide)
    reviewing := fun _ _ h => absurd h.1 (by decide)
    roleless := fun _ _ h => absurd (h.2.2 "viewer" (by decide)) (by decide)
    granted := fun _ _ _ h => absurd (.inr (.inr ⟨.inl rfl, .inl ⟨rfl, .inl (by decide)⟩⟩)) h }

/-- A user may download the draft of another. -/
def draftDb : PolicyDb where
  documents := [{ PolicyService.publishedDocument with status := .DRAFT }]
  versions := []
  aclEntries := [⟨"d-1", .USER, some "u-2", .DOWNLOAD, .ALLOW⟩]
  shareLinks := []
  unique := by decide

theorem unlisted_read :
    ¬ListAgrees sampleEnv draftDb (sampleMember ["viewer"])
      { PolicyService.publishedDocument with status := .DRAFT } := by
  intro h
  obtain ⟨_, hlist, _, hsummary, _⟩ := h.mpr ⟨_, rfl⟩
  obtain rfl := Except.ok.inj hlist
  have hnone : DocumentsService.findAllForOrg draftDb "o-1" "u-2" ["viewer"] [] none = [] := by decide
  exact absurd (hnone ▸ hsummary) List.not_mem_nil

end DocVault
