import DocVault.TenantRequests

/-!
# The parts of the store

An operation on a document of the organization, on its versions or on its share
links, is answered inside the organization's part as in the store of all, and
leaves the rows of other organizations as they were.
-/

namespace DocVault

open Keyed (Table)
open Isolation (Boundary Local)

namespace TenantDb
variable {db db' : TenantDb} {A docId : String}

/-! ## Whose document -/

/-- No document of another organization has the id. -/
def Own (A : String) (db : TenantDb) (docId : String) : Prop := db.foreign A docId = false

theorem own_iff : db.Own A docId ↔ ∀ document ∈ db.documents.rows, document.id = docId →
    document.organizationId = A := by
  simp [Own, foreign]

theorem foreign_iff : db.foreign A docId = true ↔
    ∃ document ∈ db.documents.rows, document.id = docId ∧ document.organizationId ≠ A := by
  simp [foreign]

theorem own_of_mem {document : Document} (h : document ∈ db.documents.rows) (ho : document.organizationId = A) :
    db.Own A document.id :=
  own_iff.mpr fun _ hd hid => (db.documents.unique.eq hd h hid) ▸ ho

def whose (document : Document) : String × String := (document.id, document.organizationId)

theorem foreign_congr (h : db'.documents.rows.map whose = db.documents.rows.map whose) :
    db'.foreign A = db.foreign A := by
  have hmap : ∀ db : TenantDb, db.foreign A =
      fun docId => (db.documents.rows.map whose).any fun w => w.1 = docId && w.2 ≠ A := by
    intro db
    funext docId
    rw [List.any_map]
    rfl
  rw [hmap, hmap, h]

section
variable {α : Type} {docIdOf : α → String} {p : α → Bool}

/-- A question about the rows of a document of the organization is answered by the rows that are not foreign. -/
theorem find_child (h : db.Own A docId) (hp : ∀ row, p row = true → docIdOf row = docId) (rows : List α) :
    (rows.filter fun row => !db.foreign A (docIdOf row)).find? p = rows.find? p := by
  rw [List.find?_filter]
  congr 1
  funext row
  cases hrow : p row with
  | false => simp
  | true =>
    have hown : db.foreign A (docIdOf row) = false := (hp row hrow).symm ▸ h
    simp [hown]

theorem filter_child (h : db.Own A docId) (hp : ∀ row, p row = true → docIdOf row = docId) (rows : List α) :
    (rows.filter fun row => !db.foreign A (docIdOf row)).filter p = rows.filter p := by
  rw [List.filter_filter]
  refine List.filter_congr fun row _ => ?_
  cases hrow : p row with
  | false => rfl
  | true =>
    have hown : db.foreign A (docIdOf row) = false := (hp row hrow).symm ▸ h
    rw [hown]
    rfl

end

/-! ## A write to documents, versions and history -/

section
variable {documents : Table fun document : Document => document.id} {history : List DocumentWorkflowHistory}
  {versions : List DocumentVersion}

/-- What is written into the tables of the documents, as long as they stay with their organizations. -/
def writeDocuments (db : TenantDb) (documents : Table fun document : Document => document.id)
    (history : List DocumentWorkflowHistory) (versions : List DocumentVersion) : TenantDb :=
  { db with documents := documents, history := history, versions := versions }

theorem writeDocuments_within (h : (db.writeDocuments documents history versions).foreign A = db.foreign A) :
    (db.writeDocuments documents history versions).within A =
      (db.within A).writeDocuments (documents.filter fun document => document.organizationId = A)
        (history.filter fun row => !db.foreign A row.docId)
        (versions.filter fun row => !db.foreign A row.docId) := by
  unfold within
  rw [h]
  rfl

theorem writeDocuments_beyond (h : (db.writeDocuments documents history versions).foreign A = db.foreign A) :
    (db.writeDocuments documents history versions).beyond A =
      (db.beyond A).writeDocuments (documents.filter fun document => document.organizationId ≠ A)
        (history.filter fun row => db.foreign A row.docId) (versions.filter fun row => db.foreign A row.docId) := by
  unfold beyond
  rw [h]
  rfl

end

/-! ## Documents -/

section
variable {id : String} {notDeleted : Bool} {data : DocumentUpdate} {row : Option DocumentWorkflowHistory}
  {document : Document}

theorem runDocument_update (found : db.metadata.target id notDeleted = some document) :
    db.runDocument (.updateDocument id notDeleted data row) = (some (data.set document),
      db.writeDocuments (db.documents.put (data.set document)) (db.history ++ row.toList) db.versions) := by
  have hid : document.id = id := find_id (target_find found)
  refine Prod.ext ?_ (TenantDb.ext (Table.ext ?_) rfl ?_ ?_ rfl rfl rfl rfl)
  all_goals simp only [runDocument, documentRun, found, writeDocuments]
  · simp only [MetadataDb.update, Table.put, Keyed.put, DocumentUpdate.set_id, hid]
    rfl
  · rfl
  · rfl

theorem runDocument_missing (missing : db.metadata.target id notDeleted = none) :
    db.runDocument (.updateDocument id notDeleted data row) = (none, db) := by
  refine Prod.ext ?_ (TenantDb.ext (Table.ext ?_) rfl ?_ ?_ rfl rfl rfl rfl)
  all_goals simp only [runDocument, documentRun, missing]
  all_goals rfl

theorem runDocument_createVersion {row : DocumentVersion} (found : db.metadata.find row.docId = some document)
    (new : db.metadata.version row.docId row.version = none) :
    db.runDocument (.createVersion row data) =
      (some row, db.writeDocuments (db.documents.put (data.set document)) db.history (db.versions ++ [row])) := by
  have hid : document.id = row.docId := find_id found
  refine Prod.ext ?_ (TenantDb.ext (Table.ext ?_) rfl ?_ ?_ rfl rfl rfl rfl)
  all_goals simp only [runDocument, documentRun, found, new, writeDocuments, Option.isSome_none,
    Bool.false_eq_true, if_false]
  · simp only [MetadataDb.createVersion, Table.put, Keyed.put, DocumentUpdate.set_id, hid]
    rfl
  · rfl
  · rfl

theorem runDocument_createVersion_missing {row : DocumentVersion} (missing : db.metadata.find row.docId = none) :
    db.runDocument (.createVersion row data) = (none, db) := by
  refine Prod.ext ?_ (TenantDb.ext (Table.ext ?_) rfl ?_ ?_ rfl rfl rfl rfl)
  all_goals simp only [runDocument, documentRun, missing]
  all_goals rfl

theorem runDocument_createVersion_taken {row : DocumentVersion}
    (taken : (db.metadata.version row.docId row.version).isSome = true) :
    db.runDocument (.createVersion row data) = (none, db) := by
  cases hfound : db.metadata.find row.docId with
  | none => exact runDocument_createVersion_missing hfound
  | some document =>
    refine Prod.ext ?_ (TenantDb.ext (Table.ext ?_) rfl ?_ ?_ rfl rfl rfl rfl)
    all_goals simp only [runDocument, documentRun, hfound, taken, if_true]
    all_goals rfl

theorem runDocument_create (new : db.metadata.find document.id = none) :
    db.runDocument (.createDocument document) = (some document,
      db.writeDocuments ⟨db.documents.rows ++ [document],
        db.documents.unique.append new⟩ db.history db.versions) := by
  refine Prod.ext ?_ (TenantDb.ext (Table.ext ?_) rfl ?_ ?_ rfl rfl rfl rfl)
  all_goals simp only [runDocument, documentRun, new, writeDocuments, Option.isSome_none,
    Bool.false_eq_true, if_false]
  all_goals rfl

theorem find_within : (db.within A).metadata.find id = (db.metadata.find id).filter (·.organizationId = A) :=
  Keyed.find_filter db.documents.unique

theorem find_own (h : db.Own A id) : (db.within A).metadata.find id = db.metadata.find id :=
  Table.find_inside (t := db.documents) fun d hd hid => decide_eq_true (own_iff.mp h d hd hid)

theorem target_own (h : db.Own A id) :
    (db.within A).metadata.target id notDeleted = db.metadata.target id notDeleted := by
  unfold MetadataDb.target
  rw [find_own h]

theorem version_own (h : db.Own A id) (n : Int) :
    (db.within A).metadata.version id n = db.metadata.version id n := by
  have hp : ∀ row : DocumentVersion, (row.docId = id && row.version = n) = true → row.docId = id := fun _ hrow =>
    of_decide_eq_true ((Bool.and_eq_true _ _).mp hrow).1
  exact find_child h hp db.versions

theorem mem_of_find (found : db.metadata.find id = some document) :
    document ∈ db.documents.rows ∧ document.id = id :=
  Keyed.find_some found

theorem foreign_set (found : document ∈ db.documents.rows) (history : List DocumentWorkflowHistory)
    (versions : List DocumentVersion) :
    (db.writeDocuments (db.documents.put (data.set document)) history versions).foreign A = db.foreign A := by
  have hfind : Keyed.find (fun d : Document => d.id) db.documents.rows (data.set document).id = some document :=
    db.documents.unique.find found
  exact foreign_congr (Keyed.map_put db.documents.unique hfind rfl)

/-- What a write to a document of the organization, with rows of that document, does to the two parts. -/
theorem set_own (data : DocumentUpdate) (hown : db.Own A document.id) (found : document ∈ db.documents.rows)
    (history : List DocumentWorkflowHistory) (versions : List DocumentVersion)
    (hhistory : ∀ row ∈ history, row.docId = document.id) (hversions : ∀ row ∈ versions, row.docId = document.id) :
    (db.writeDocuments (db.documents.put (data.set document)) (db.history ++ history)
      (db.versions ++ versions)).within A =
        (db.within A).writeDocuments ((db.within A).documents.put (data.set document))
        ((db.within A).history ++ history)
          ((db.within A).versions ++ versions) ∧
      (db.writeDocuments (db.documents.put (data.set document)) (db.history ++ history)
        (db.versions ++ versions)).beyond A = db.beyond A := by
  have horg : document.organizationId = A := own_iff.mp hown document found rfl
  have hsame : ∀ d ∈ db.documents.rows, d.id = (data.set document).id → d.organizationId = A := own_iff.mp hown
  have hf : db.foreign A document.id = false := hown
  have hh : ∀ row ∈ history, db.foreign A row.docId = false := fun row hr => (hhistory row hr) ▸ hf
  have hv : ∀ row ∈ versions, db.foreign A row.docId = false := fun row hr => (hversions row hr) ▸ hf
  have hset : (data.set document).organizationId = A := horg
  constructor
  · rw [writeDocuments_within (foreign_set found _ _), Keyed.append_filter fun row hr => by simp [hh row hr],
      Keyed.append_filter fun row hr => by simp [hv row hr],
      Table.put_filter fun d hd hid => by simp [hsame d hd hid, hset]]
    rfl
  · rw [writeDocuments_beyond (foreign_set found _ _), Keyed.append_filter_ne fun row hr => hh row hr,
      Keyed.append_filter_ne fun row hr => hv row hr,
      Table.put_filter_ne (by simp [hset]) fun d hd hid => by simp [hsame d hd hid]]
    rfl

theorem local_findDocument : Local (tenant A) (fun db => db.runDocument (.findDocument id A)) db := by
  refine .same (a := (db.metadata.find id).filter (·.organizationId = A)) (Prod.ext ?_ rfl) rfl
  show ((db.within A).metadata.find id).filter (·.organizationId = A) = _
  rw [find_within, Option.filter_filter]
  simp

theorem local_findVersion (hown : db.Own A id) (n : Int) :
    Local (tenant A) (fun db => db.runDocument (.findVersion id n)) db :=
  .same (a := db.metadata.version id n) (Prod.ext (version_own hown n) rfl) rfl

theorem local_update (hown : db.Own A id) (hrow : ∀ r ∈ row, r.docId = id) :
    Local (tenant A) (fun db => db.runDocument (.updateDocument id notDeleted data row)) db := by
  have htarget : (db.within A).metadata.target id notDeleted = db.metadata.target id notDeleted := target_own hown
  cases found : db.metadata.target id notDeleted with
  | none => exact .same (runDocument_missing (htarget.trans found)) (runDocument_missing found)
  | some document =>
    obtain ⟨hmem, rfl⟩ := mem_of_find (target_find found)
    have hset := set_own data hown hmem row.toList [] (fun r hr => hrow r (Option.mem_toList.mp hr)) (by simp)
    simp only [List.append_nil] at hset
    exact .of_eq (runDocument_update (htarget.trans found)) (runDocument_update found) hset.1.symm hset.2

theorem local_createVersion {row : DocumentVersion} (hown : db.Own A row.docId) :
    Local (tenant A) (fun db => db.runDocument (.createVersion row data)) db := by
  have hfind : (db.within A).metadata.find row.docId = db.metadata.find row.docId := find_own hown
  have hversion := version_own hown row.version
  cases found : db.metadata.find row.docId with
  | none =>
    exact .same (runDocument_createVersion_missing (hfind.trans found)) (runDocument_createVersion_missing found)
  | some document =>
    cases hn : db.metadata.version row.docId row.version with
    | some taken =>
      have htaken : (db.metadata.version row.docId row.version).isSome = true := by rw [hn]; rfl
      exact .same (runDocument_createVersion_taken (hversion ▸ htaken)) (runDocument_createVersion_taken htaken)
    | none =>
      obtain ⟨hmem, hid⟩ := mem_of_find found
      have hset := set_own data (hid ▸ hown) hmem [] [row] (by simp) (by simp [hid])
      simp only [List.append_nil] at hset
      exact .of_eq (runDocument_createVersion (hfind.trans found) (hversion.trans hn))
        (runDocument_createVersion found hn) hset.1.symm hset.2

-- A new id is the id of no row, and so of none of another organization.
theorem local_create (horg : document.organizationId = A) (new : db.metadata.find document.id = none) :
    Local (tenant A) (fun db => db.runDocument (.createDocument document)) db := by
  have hnew : (db.within A).metadata.find document.id = none := by rw [find_within, new]; rfl
  have hforeign : (db.writeDocuments ⟨db.documents.rows ++ [document], db.documents.unique.append new⟩ db.history
      db.versions).foreign A = db.foreign A := by
    funext docId
    simp [foreign, writeDocuments, horg]
  refine .of_eq (runDocument_create hnew) (runDocument_create new) ?_ ?_
  · refine Eq.trans ?_ (writeDocuments_within hforeign).symm
    unfold writeDocuments
    congr 1
    exact Table.ext (Keyed.append_filter fun d hd => by simp [List.mem_singleton.mp hd, horg]).symm
  · refine (writeDocuments_beyond hforeign).trans ?_
    unfold writeDocuments
    have hdocuments : Table.filter (⟨db.documents.rows ++ [document], db.documents.unique.append new⟩ :
        Table fun document : Document => document.id) (fun document => document.organizationId ≠ A) =
          db.documents.filter fun document => document.organizationId ≠ A :=
      Table.ext (Keyed.append_filter_ne fun d hd => by simp [List.mem_singleton.mp hd, horg])
    rw [hdocuments]
    rfl

end

/-! ## Share links -/

section
variable {id : String} {link : ShareLinkRow} {now : Time}

theorem text_own (h : db.Own A docId) : (db.within A).text docId = db.text docId :=
  find_child h (fun _ => of_decide_eq_true) db.texts

theorem title_own (h : db.Own A docId) : (db.within A).title docId = db.title docId := by
  unfold title
  rw [text_own h]

def titled (db : TenantDb) (document : Document) : DocumentRow := { document with title := db.title document.id }

theorem links_document : db.links.document docId = (db.metadata.find docId).map db.titled := by
  unfold ShareLinkDb.document Keyed.find links
  rw [List.find?_map]
  rfl

theorem titled_own {document : Document} (h : db.Own A document.id) :
    (db.within A).titled document = db.titled document := by
  unfold titled
  rw [title_own h]

theorem document_own (h : db.Own A docId) : (db.within A).links.document docId = db.links.document docId := by
  rw [links_document, links_document, find_own h]
  cases found : db.metadata.find docId with
  | none => rfl
  | some document =>
    obtain ⟨_, rfl⟩ := mem_of_find found
    rw [Option.map_some, Option.map_some, titled_own h]

theorem local_findDocumentInOrg : Local (tenant A) (fun db => db.runShareLink (.findDocumentInOrg id A)) db := by
  refine .same (a := (db.links.document id).filter (·.organizationId = A)) (Prod.ext ?_ rfl) rfl
  show ((db.within A).links.document id).filter (·.organizationId = A) = _
  rw [links_document, links_document, find_within]
  cases found : db.metadata.find id with
  | none => rfl
  | some document =>
    by_cases horg : document.organizationId = A
    · have hown : db.Own A document.id := own_of_mem (mem_of_find found).1 horg
      simp [Option.filter, horg, titled_own hown]
    · have horg' : (db.titled document).organizationId ≠ A := horg
      simp [Option.filter, horg, horg']

theorem local_findDocument_link (h : db.Own A id) :
    Local (tenant A) (fun db => db.runShareLink (.findDocument id)) db :=
  .same (a := db.links.document id) (Prod.ext (document_own h) rfl) rfl

theorem local_findLinks (h : db.Own A docId) :
    Local (tenant A) (fun db => db.runShareLink (.findLinks docId)) db := by
  have hrows : (db.within A).shareLinks.rows.filter (·.docId = docId) =
    db.shareLinks.rows.filter (·.docId = docId) :=
    filter_child h (fun _ => of_decide_eq_true) db.shareLinks.rows
  have hsort := congrArg (fun rows => rows.insertionSort fun a b : ShareLinkRow => b.createdAt ≤ a.createdAt) hrows
  exact .same (a := (db.runShareLink (.findLinks docId)).1) (Prod.ext hsort rfl) rfl

def writeLinks (db : TenantDb) (shareLinks : Table fun link : ShareLinkRow => link.id)
    (tokenHashes : Keyed.Unique (fun link : ShareLinkRow => link.tokenHash) shareLinks.rows) : TenantDb :=
  { db with shareLinks := shareLinks, tokenHashes := tokenHashes }

-- A link keeps its id and the hash of its token.
theorem tokenHashes_put {link' : ShareLinkRow} (found : db.shareLinks.find id = some link)
    (hid : link'.id = link.id) (hhash : link'.tokenHash = link.tokenHash) :
    Keyed.Unique (fun link : ShareLinkRow => link.tokenHash) (db.shareLinks.put link').rows := by
  have hkey : link'.id = id := hid.trans (Keyed.find_some found).2
  have hput : (db.shareLinks.put link').rows =
    Keyed.put (fun link : ShareLinkRow => link.id) db.shareLinks.rows id link' :=
    congrArg (fun key => Keyed.put (fun link : ShareLinkRow => link.id) db.shareLinks.rows key link') hkey
  unfold Keyed.Unique
  rw [hput, Keyed.map_put db.shareLinks.unique found hhash]
  exact db.tokenHashes

theorem runShareLink_access (found : db.shareLinks.find id = some link) :
    db.runShareLink (.accessLink id now) = (some (link.accessed now),
      db.writeLinks (db.shareLinks.put (link.accessed now)) (db.tokenHashes_put found rfl rfl)) := by
  have hid : (link.accessed now).id = id := (Keyed.find_some found).2
  have hfound : db.links.link id = some link := found
  refine Prod.ext ?_ (TenantDb.ext rfl rfl rfl rfl rfl rfl (Table.ext ?_) rfl)
  all_goals simp only [runShareLink, shareLinkRun, hfound, writeLinks]
  simp only [ShareLinkDb.access, ShareLinkDb.update, Table.put, hid]
  rfl

theorem runShareLink_revoke {revokedBy : String} (found : db.shareLinks.find id = some link) :
    db.runShareLink (.revokeLink id now revokedBy) = (some (link.revoked now revokedBy),
      db.writeLinks (db.shareLinks.put (link.revoked now revokedBy)) (db.tokenHashes_put found rfl rfl)) := by
  have hid : (link.revoked now revokedBy).id = id := (Keyed.find_some found).2
  have hfound : db.links.link id = some link := found
  refine Prod.ext ?_ (TenantDb.ext rfl rfl rfl rfl rfl rfl (Table.ext ?_) rfl)
  all_goals simp only [runShareLink, shareLinkRun, hfound, writeLinks]
  simp only [ShareLinkDb.update, Table.put, hid]
  rfl

theorem link_within : (db.within A).shareLinks.find id = (db.shareLinks.find id).filter fun link =>
    !db.foreign A link.docId :=
  Table.find_filter

/-- A write over a link of a document that is not foreign. -/
theorem local_put (link' : ShareLinkRow) {f : TenantDb → Option ShareLinkRow × TenantDb}
    (found : db.shareLinks.find id = some link) (hown : db.Own A link.docId) (hdoc : link'.docId = link.docId)
    (hid : link'.id = link.id) (hhash : link'.tokenHash = link.tokenHash)
    (hf : ∀ db : TenantDb, ∀ found : db.shareLinks.find id = some link,
      f db = (some link', db.writeLinks (db.shareLinks.put link') (db.tokenHashes_put found hid hhash))) :
    Local (tenant A) f db := by
  have hkey : link'.id = id := hid.trans (Keyed.find_some found).2
  have hforeign : db.foreign A link'.docId = false := hdoc ▸ hown
  have hsame : ∀ r ∈ db.shareLinks.rows, r.id = link'.id → db.foreign A r.docId = false := by
    intro r hr hrid
    obtain rfl := db.shareLinks.unique.eq hr (Keyed.find_some found).1 (hrid.trans hid)
    exact hown
  have hin : (db.within A).shareLinks.find id = some link := by
    have hf : db.foreign A link.docId = false := hown
    rw [link_within, found]
    simp [Option.filter, hf]
  refine .of_eq (hf _ hin) (hf _ found) ?_ ?_
  · refine TenantDb.ext rfl rfl rfl rfl rfl rfl ?_ rfl
    exact (Table.put_filter fun r hr hrid => by simp [hsame r hr hrid, hforeign]).symm
  · refine TenantDb.ext rfl rfl rfl rfl rfl rfl ?_ rfl
    exact Table.put_filter_ne hforeign fun r hr hrid => hsame r hr hrid

theorem local_accessLink (found : db.shareLinks.find id = some link) (hown : db.Own A link.docId) :
    Local (tenant A) (fun db => db.runShareLink (.accessLink id now)) db :=
  local_put (link.accessed now) found hown rfl rfl rfl fun _ found => runShareLink_access found

theorem local_revokeLink {revokedBy : String} (found : db.shareLinks.find id = some link)
    (hown : db.Own A link.docId) : Local (tenant A) (fun db => db.runShareLink (.revokeLink id now revokedBy)) db :=
  local_put (link.revoked now revokedBy) found hown rfl rfl rfl fun _ found => runShareLink_revoke found

theorem runShareLink_create (admits : db.links.admits link = true) (hid : db.shareLinks.find link.id = none)
    (hhash : Keyed.find (fun link : ShareLinkRow => link.tokenHash) db.shareLinks.rows link.tokenHash = none) :
    db.runShareLink (.createLink link) = (some link,
      db.writeLinks ⟨db.shareLinks.rows ++ [link], db.shareLinks.unique.append hid⟩
        (db.tokenHashes.append hhash)) := by
  refine Prod.ext ?_ (TenantDb.ext rfl rfl rfl rfl rfl rfl (Table.ext ?_) rfl)
  all_goals simp only [runShareLink, shareLinkRun, admits, if_true, writeLinks]
  rfl

theorem runShareLink_refused (refused : db.links.admits link = false) :
    db.runShareLink (.createLink link) = (none, db) := by
  refine Prod.ext ?_ (TenantDb.ext rfl rfl rfl rfl rfl rfl (Table.ext ?_) rfl)
  all_goals simp only [runShareLink, shareLinkRun, refused, Bool.false_eq_true, if_false]
  rfl

-- A new link has an id and a token that no link has.
theorem local_createLink (hown : db.Own A link.docId) (hid : db.shareLinks.find link.id = none)
    (hhash : Keyed.find (fun link : ShareLinkRow => link.tokenHash) db.shareLinks.rows link.tokenHash = none) :
    Local (tenant A) (fun db => db.runShareLink (.createLink link)) db := by
  have hforeign : db.foreign A link.docId = false := hown
  have hid' : (db.within A).shareLinks.find link.id = none := by rw [link_within, hid]; rfl
  have hhash' : Keyed.find (fun link : ShareLinkRow =>
    link.tokenHash) (db.within A).shareLinks.rows link.tokenHash = none :=
    Keyed.find_none.mpr fun r hr => Keyed.find_none.mp hhash r (List.mem_of_mem_filter hr)
  have hadmits : (db.within A).links.admits link = db.links.admits link := by
    have hl : db.links.link link.id = none := hid
    have hb : db.links.byTokenHash link.tokenHash = none := hhash
    have hl' : (db.within A).links.link link.id = none := hid'
    have hb' : (db.within A).links.byTokenHash link.tokenHash = none := hhash'
    simp only [ShareLinkDb.admits, hl, hb, hl', hb', document_own hown]
  cases h : db.links.admits link with
  | false => exact .same (runShareLink_refused (hadmits.trans h)) (runShareLink_refused h)
  | true =>
    refine .of_eq (runShareLink_create (hadmits.trans h) hid' hhash') (runShareLink_create h hid hhash) ?_ ?_
    · refine TenantDb.ext rfl rfl rfl rfl rfl rfl (Table.ext ?_) rfl
      exact (Keyed.append_filter fun r hr => List.mem_singleton.mp hr ▸ congrArg not hforeign).symm
    · refine TenantDb.ext rfl rfl rfl rfl rfl rfl (Table.ext ?_) rfl
      exact Keyed.append_filter_ne fun r hr => List.mem_singleton.mp hr ▸ hforeign

end

end TenantDb

end DocVault
