import DocVault.FolderTree

/-!
# Folder counts

The tree is as it should be for every list of documents, but the count of a
folder goes by the segments of the slash tags that are not empty, while the
filter of the folder compares the tags as they are written. The two differ by
the documents that have the folder as a plain tag only, and by those that have
it only with an empty segment.
-/

namespace DocVault.FolderTree

open Search Search.Web

/-! ## The two readings of a tag -/

/-- The folder is a plain tag of the document, and none of its slash tags is at or below the folder. -/
def PlainOnly (p : Text) (tags : List Text) : Prop :=
  SLASH ∉ p ∧ p ∈ tags ∧ ∀ tag ∈ tags, SLASH ∈ tag → (segmentsOf tag).head? ≠ some p

/-- A slash tag is at or below the folder, and each such tag has an empty segment in front
of the folder or in its path. -/
def Respelled (p : Text) (tags : List Text) : Prop :=
  (∃ tag ∈ tags, SLASH ∈ tag ∧ p.splitOn SLASH <+: segmentsOf tag) ∧ ∀ tag ∈ tags, tag ≠ p ∧ ¬p ++ [SLASH] <+: tag

instance (p : Text) (tags : List Text) : Decidable (PlainOnly p tags) := inferInstanceAs (Decidable (_ ∧ _ ∧ _))

instance (p : Text) (tags : List Text) : Decidable (Respelled p tags) := inferInstanceAs (Decidable (_ ∧ _))

section
variable {p tag : Text} {tags : List Text}

theorem IsPath.splitOn (h : IsPath p) : (∀ s ∈ p.splitOn SLASH, s ≠ []) ∧ p ≠ [] := by
  obtain ⟨segments, hne, hsegments, rfl⟩ := h
  have hproper := hsegments.proper hne
  refine ⟨hproper, fun hnil => ?_⟩
  rw [hnil, Proper, List.splitOn_nil] at hproper
  exact hproper [] (List.mem_singleton_self []) rfl

theorem mem_touched_iff (h : IsPath p) :
    p ∈ touched tags ↔ ∃ tag ∈ tags, SLASH ∈ tag ∧ p.splitOn SLASH <+: segmentsOf tag := by
  rw [mem_touched]
  refine exists_congr fun tag => and_congr_right' (and_congr_right' ?_)
  apply Iff.intro
  · intro hp
    obtain ⟨front, hne, hfront, rfl⟩ := hp
    rw [((segments_segmentsOf tag).of_front hfront).splitOn hne]
    exact hfront
  · intro hfront
    exact ⟨p.splitOn SLASH, List.splitOn_ne_nil SLASH p, hfront, (join_splitOn p).symm⟩

theorem matches_iff (h : IsPath p) :
    documentMatchesFolder tags p = true ↔ ∃ tag ∈ tags, tag = p ∨ p ++ [SLASH] <+: tag := by
  have hslash : utf16 "/" = [SLASH] := by decide
  rw [documentMatchesFolder, if_neg h.splitOn.2, List.any_eq_true, hslash]
  simp only [Bool.or_eq_true, decide_eq_true_eq, List.isPrefixOf_iff_prefix]

theorem segmentsOf_below (h : IsPath p) (hp : p ++ [SLASH] <+: tag) :
    SLASH ∈ tag ∧ p.splitOn SLASH <+: segmentsOf tag := by
  obtain ⟨rest, rfl⟩ := hp
  rw [List.append_assoc, List.singleton_append]
  refine ⟨by simp, ?_⟩
  have hall : (p.splitOn SLASH).filter (fun segment => !segment.isEmpty) = p.splitOn SLASH :=
    List.filter_eq_self.mpr fun s hs => by simpa using h.splitOn.1 s hs
  rw [segmentsOf, List.splitOn_append_cons_self, List.filter_append, hall]
  exact List.prefix_append _ _

theorem segmentsOf_self (h : IsPath p) : segmentsOf p = p.splitOn SLASH :=
  List.filter_eq_self.mpr fun s hs => by simpa using h.splitOn.1 s hs

theorem plainOnly_iff (h : IsPath p) : PlainOnly p tags ↔
    documentMatchesFolder tags p = true ∧ p ∉ touched tags := by
  rw [matches_iff h, mem_touched_iff h, PlainOnly]
  apply Iff.intro
  · intro hplain
    obtain ⟨hp, hmem, hnone⟩ := hplain
    refine ⟨⟨p, hmem, .inl rfl⟩, fun hcounted => ?_⟩
    obtain ⟨tag, htag, hslash, hfront⟩ := hcounted
    rw [List.splitOn_eq_singleton hp] at hfront
    obtain ⟨rest, hrest⟩ := hfront
    exact hnone tag htag hslash (by rw [← hrest]; rfl)
  · intro hmatch
    obtain ⟨⟨tag, htag, hcase⟩, hnot⟩ := hmatch
    obtain rfl | hbelow := hcase
    · have hplain : SLASH ∉ tag := fun hslash =>
        hnot ⟨tag, htag, hslash, by rw [segmentsOf_self h]⟩
      refine ⟨hplain, htag, fun other hother hslash hhead => ?_⟩
      obtain ⟨rest, hrest⟩ := List.head?_eq_some_iff.mp hhead
      refine hnot ⟨other, hother, hslash, ?_⟩
      rw [List.splitOn_eq_singleton hplain, hrest]
      exact ⟨rest, rfl⟩
    · exact absurd ⟨tag, htag, segmentsOf_below h hbelow⟩ hnot

theorem respelled_iff (h : IsPath p) : Respelled p tags ↔
    p ∈ touched tags ∧ ¬documentMatchesFolder tags p = true := by
  rw [matches_iff h, mem_touched_iff h, Respelled]
  simp only [not_exists, not_and, not_or]

end

/-! ## Counts -/

theorem countP_eq_iff {α : Type} (a b : α → Bool) (l : List α) :
    l.countP a = l.countP b ↔ (l.countP fun x => b x && !a x) = l.countP fun x => a x && !b x := by
  have hsum : l.countP a + (l.countP fun x => b x && !a x) = l.countP b + l.countP fun x => a x && !b x := by
    induction l with
    | nil => rfl
    | cons x l ih =>
      simp only [List.countP_cons]
      cases a x <;> cases b x <;> simp <;> omega
  omega

section
variable (localeCompare : Text → Text → Int) (documents : List DocumentListItem)

/-- What is said of the tree of a list of documents. -/
structure FoldersRight : Prop where
  counts : ∀ n ∈ nodesOf (buildFolderTree localeCompare documents),
    n.count = documents.countP fun document => documentMatchesFolder document.tags n.path
  unique : ((nodesOf (buildFolderTree localeCompare documents)).map FolderNode.path).Nodup
  parents : ∀ n ∈ nodesOf (buildFolderTree localeCompare documents), ∀ c ∈ n.children, parentOf c.path = some n.path
  roots : ∀ n ∈ buildFolderTree localeCompare documents, parentOf n.path = none
  appears : ∀ document ∈ documents, ∀ tag ∈ document.tags, SLASH ∈ tag → ∀ front, front ≠ [] →
    front <+: segmentsOf tag → ∃ n ∈ nodesOf (buildFolderTree localeCompare documents), n.path = joinSegments front

theorem node_count : ∀ n ∈ nodesOf (buildFolderTree localeCompare documents),
    n.count = documents.countP fun document => n.path ∈ touched document.tags := by
  obtain ⟨hlinked, -, hcount⟩ := collectFolders_spec documents
  intro n hn
  rw [← hcount]
  exact (readTree_sound localeCompare hlinked n hn).count

theorem node_path (p : Text) : p ∈ (nodesOf (buildFolderTree localeCompare documents)).map FolderNode.path ↔
    ∃ document ∈ documents, p ∈ touched document.tags := by
  obtain ⟨hlinked, hpaths, -⟩ := collectFolders_spec documents
  rw [← hpaths]
  exact readTree_mem localeCompare hlinked

/-- At each folder as many documents are matched by a plain tag only as are counted by a respelled tag only. -/
def Balanced : Prop :=
  ∀ p, (∃ document ∈ documents, p ∈ touched document.tags) →
    (documents.countP fun document => PlainOnly p document.tags) = documents.countP fun document =>
    Respelled p document.tags

theorem counts_iff (p : Text) (hp : IsPath p) :
    ((documents.countP fun document => p ∈ touched document.tags) =
      documents.countP fun document => documentMatchesFolder document.tags p) ↔
    (documents.countP fun document => PlainOnly p document.tags) =
      documents.countP fun document => Respelled p document.tags := by
  rw [countP_eq_iff]
  have hplain : (documents.countP fun d => documentMatchesFolder d.tags p && !decide (p ∈ touched d.tags)) =
      documents.countP fun d => PlainOnly p d.tags :=
    List.countP_congr fun d _ => by simp [plainOnly_iff hp]
  have hrespelled : (documents.countP fun d => decide (p ∈ touched d.tags) && !documentMatchesFolder d.tags p) =
      documents.countP fun d => Respelled p d.tags :=
    List.countP_congr fun d _ => by simp [respelled_iff hp]
  rw [hplain, hrespelled]

def taggedDocument (title tag : Text) : DocumentListItem where
  title := title
  description := none
  ownerId := utf16 "alice"
  ownerDisplay := none
  classification := .INTERNAL
  dlpStatus := none
  retentionClass := none
  retentionUntil := none
  retentionReason := none
  tags := [tag]
  status := .DRAFT
  currentVersion := 0
  filename := none
  mimeType := none
  fileSize := none
  createdAt := utf16 "2026-01-01T00:00:00.000Z"
  updatedAt := utf16 "2026-01-01T00:00:00.000Z"

theorem plain_tag_not_counted :
    ¬FoldersRight (fun _ _ => 0) [taggedDocument (utf16 "a") (utf16 "finance/q1"),
      taggedDocument (utf16 "b") (utf16 "finance")] := by
  intro h
  have hin : utf16 "finance" ∈ touched (taggedDocument (utf16 "a") (utf16 "finance/q1")).tags := by decide
  obtain ⟨n, hn, hpath⟩ := List.mem_map.mp ((node_path _ _ (utf16 "finance")).mpr ⟨_, List.mem_cons_self, hin⟩)
  have hcount := h.counts n hn
  rw [node_count _ _ n hn, hpath] at hcount
  revert hcount
  decide

/-- The tree is right for exactly the lists in which the two kinds of documents are balanced. -/
theorem folders_right_iff : FoldersRight localeCompare documents ↔ Balanced documents := by
  obtain ⟨hlinked, hpaths, -⟩ := collectFolders_spec documents
  apply Iff.intro
  · intro h p hp
    obtain ⟨n, hn, rfl⟩ := List.mem_map.mp ((node_path localeCompare documents p).mpr hp)
    obtain ⟨document, -, htouched⟩ := hp
    have hcount := h.counts n hn
    rw [node_count localeCompare documents n hn] at hcount
    exact (counts_iff documents n.path (isPath_touched htouched)).mp hcount
  · intro h
    refine ⟨fun n hn => ?_, readTree_nodup localeCompare hlinked,
      fun n hn => (readTree_sound localeCompare hlinked n hn).children,
      readTree_roots localeCompare hlinked, fun document hd tag ht hslash front hne hfront => ?_⟩
    · have hp := (node_path localeCompare documents n.path).mp (List.mem_map_of_mem hn)
      rw [node_count localeCompare documents n hn]
      refine (counts_iff documents n.path ?_).mpr (h n.path hp)
      obtain ⟨document, -, htouched⟩ := hp
      exact isPath_touched htouched
    · have hp : joinSegments front ∈ touched document.tags :=
        mem_touched.mpr ⟨tag, ht, hslash, front, hne, hfront, rfl⟩
      exact List.mem_map.mp ((node_path localeCompare documents _).mpr ⟨document, hd, hp⟩)

end

end DocVault.FolderTree
