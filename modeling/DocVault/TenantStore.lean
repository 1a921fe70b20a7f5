import DocVault.Isolation
import DocVault.ShareLinks
import DocVault.TaskAlone
import DocVault.Visibility

/-!
# The store of all organizations

Every table of `metadata-service` that holds rows of an organization. A row of
a document belongs to the organization of the document. The programs of the
other modules run on it as they are; `within` is the store without the rows of
other organizations, and `beyond` are these.
-/

namespace DocVault

open Keyed (Table)
open Isolation (Boundary Local)

/-! ## Rows -/

/-- The columns of a document that no decision looks at. -/
structure DocumentText where
  docId : String
  title : String
  description : Option String := none
  tags : List String := []
  deriving DecidableEq

structure DocumentAclRow extends DocumentAcl where
  id : String
  deriving DecidableEq

structure DocumentComment where
  id : String
  docId : String
  authorId : String
  authorRoles : List String
  content : String
  createdAt : Time
  updatedAt : Time
  deriving DecidableEq

inductive DocumentSavedViewScope where
  | PRIVATE
  | TEAM
  deriving DecidableEq

structure DocumentSavedView where
  id : String
  organizationId : String
  name : String
  description : Option String
  filters : Json
  scope : DocumentSavedViewScope
  ownerId : String
  createdAt : Time

structure TenantDb where
  documents : Table fun document : Document => document.id
  texts : List DocumentText
  versions : List DocumentVersion
  history : List DocumentWorkflowHistory
  aclEntries : Table fun row : DocumentAclRow => row.id
  comments : Table fun comment : DocumentComment => comment.id
  shareLinks : Table fun link : ShareLinkRow => link.id
  savedViews : Table fun view : DocumentSavedView => view.id
  tokenHashes : Keyed.Unique (fun link : ShareLinkRow => link.tokenHash) shareLinks.rows

/-! ## What the programs see of it -/

namespace TenantDb
variable (db : TenantDb)

@[ext] theorem ext {db db' : TenantDb} (documents : db.documents = db'.documents) (texts : db.texts = db'.texts)
    (versions : db.versions = db'.versions) (history : db.history = db'.history)
    (aclEntries : db.aclEntries = db'.aclEntries) (comments : db.comments = db'.comments)
    (shareLinks : db.shareLinks = db'.shareLinks) (savedViews : db.savedViews = db'.savedViews) : db = db' := by
  cases db
  cases db'
  subst documents texts versions history aclEntries comments shareLinks savedViews
  rfl

def text (docId : String) : Option DocumentText := db.texts.find? (·.docId = docId)

def title (docId : String) : String := ((db.text docId).map (·.title)).getD ""

def policy : PolicyDb where
  documents := db.documents.rows
  versions := db.versions
  aclEntries := db.aclEntries.rows.map (·.toDocumentAcl)
  shareLinks := db.shareLinks.rows.map (·.toDocumentShareLink)
  unique := db.documents.unique

def metadata : MetadataDb Unit := ⟨db.documents.rows, db.history, db.versions, []⟩

def links : ShareLinkDb Unit where
  documents := db.documents.rows.map fun document => { document with title := db.title document.id }
  shareLinks := db.shareLinks.rows
  accesses := []

theorem documentRun_unique (o : DocumentOp) : (documentRun () db.metadata o).2.Unique := by
  have hu : db.metadata.Unique := db.documents.unique
  rcases exec_writes (documentRun_exec () db.metadata o) with h | h
  · rw [h]
    exact hu
  · exact hu.writes h

/-- An operation on documents and versions. No request deletes a document. -/
def runDocument (o : DocumentOp) : o.Res × TenantDb :=
  ((documentRun () db.metadata o).1, { db with
    documents := ⟨(documentRun () db.metadata o).2.documents, db.documentRun_unique o⟩
    history := (documentRun () db.metadata o).2.history
    versions := (documentRun () db.metadata o).2.versions })

def UniqueLinks (links : List ShareLinkRow) : Prop :=
  Keyed.Unique (fun link : ShareLinkRow => link.id) links ∧
  Keyed.Unique (fun link : ShareLinkRow => link.tokenHash) links

theorem update_unique {links : ShareLinkDb Unit} {id : String} {link link' : ShareLinkRow}
    (hu : UniqueLinks links.shareLinks) (found : links.link id = some link) (hid : link'.id = link.id)
    (hhash : link'.tokenHash = link.tokenHash) : UniqueLinks (links.update id link').shareLinks := by
  obtain ⟨hids, hhashes⟩ := hu
  refine ⟨hids.put found (hid.trans (Keyed.find_some found).2), ?_⟩
  unfold Keyed.Unique ShareLinkDb.update
  rw [Keyed.map_put hids found hhash]
  exact hhashes

theorem shareLinkRun_unique (o : ShareLinkOp) : UniqueLinks (shareLinkRun () db.links o).2.shareLinks := by
  have hu : UniqueLinks db.links.shareLinks := ⟨db.shareLinks.unique, db.tokenHashes⟩
  cases o with
  | createLink link =>
    simp only [shareLinkRun]
    split
    · rename_i hadmits
      simp only [ShareLinkDb.admits, Bool.and_eq_true, Option.isNone_iff_eq_none] at hadmits
      exact ⟨hu.1.append hadmits.1.1, hu.2.append hadmits.1.2⟩
    · exact hu
  | accessLink id now =>
    simp only [shareLinkRun]
    split
    · exact hu
    · rename_i link found
      exact update_unique hu found rfl rfl
  | revokeLink id now revokedBy =>
    simp only [shareLinkRun]
    split
    · exact hu
    · rename_i link found
      exact update_unique hu found rfl rfl
  | findDocument | findDocumentInOrg | findByTokenHash | findLink | findLinks => exact hu

def runShareLink (o : ShareLinkOp) : o.Res × TenantDb :=
  ((shareLinkRun () db.links o).1, { db with
    shareLinks := ⟨(shareLinkRun () db.links o).2.shareLinks, (db.shareLinkRun_unique o).1⟩
    tokenHashes := (db.shareLinkRun_unique o).2 })

/-! ## An organization's part -/

/-- The document is one of another organization than `A`. -/
def foreign (A docId : String) : Bool :=
  db.documents.rows.any fun document => document.id = docId && document.organizationId ≠ A

/-- The store without the rows that are not in a part of it. -/
def part (own : Document → Bool) (child : String → Bool) (ownView : DocumentSavedView → Bool) : TenantDb where
  documents := db.documents.filter own
  texts := db.texts.filter fun text => child text.docId
  versions := db.versions.filter fun row => child row.docId
  history := db.history.filter fun row => child row.docId
  aclEntries := db.aclEntries.filter fun row => child row.docId
  comments := db.comments.filter fun comment => child comment.docId
  shareLinks := db.shareLinks.filter fun link => child link.docId
  savedViews := db.savedViews.filter ownView
  tokenHashes := db.tokenHashes.filter _

def within (A : String) : TenantDb :=
  db.part (fun document => document.organizationId = A) (fun docId => !db.foreign A docId) fun view =>
    view.organizationId = A

def beyond (A : String) : TenantDb :=
  db.part (fun document => document.organizationId ≠ A) (db.foreign A) fun view => view.organizationId ≠ A

end TenantDb

def tenant (A : String) : Boundary TenantDb TenantDb := ⟨fun db => db.within A, fun db => db.beyond A⟩

end DocVault
