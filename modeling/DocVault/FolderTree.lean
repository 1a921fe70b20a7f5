import Mathlib.Data.List.Nodup
import DocVault.DocumentFilters

/-!
# The folder tree

`buildFolderTree` makes folders of the slash tags of the documents. Its nodes are
objects that a map finds by their path and that list their children by reference;
a reference is written as the path here, and the tree is read off in the end.
-/

namespace DocVault.FolderTree

open Search Search.Web

abbrev SLASH : Nat := 47

/-- `segments.join('/')` -/
def joinSegments (segments : List Text) : Text := [SLASH].intercalate segments

/-- An object of the map. -/
structure FolderEntry where
  name : Text
  path : Text
  count : Nat
  children : List Text

structure FolderState where
  roots : List Text := []
  byPath : List FolderEntry := []

inductive FolderNode where
  | node (name path : Text) (count : Nat) (children : List FolderNode)

namespace FolderState

def paths (st : FolderState) : List Text := st.byPath.map (·.path)

def modify (st : FolderState) (path : Text) (f : FolderEntry → FolderEntry) : FolderState :=
  { st with byPath := st.byPath.map fun entry => if entry.path = path then f entry else entry }

/-- `byPath.set(path, node)` of a new node. -/
def add (st : FolderState) (name path : Text) : FolderState :=
  { st with byPath := st.byPath ++ [{ name := name, path := path, count := 0, children := [] }] }

def addRoot (st : FolderState) (path : Text) : FolderState := { st with roots := st.roots ++ [path] }

/-- `node.children.push(child)` -/
def addChild (st : FolderState) (path child : Text) : FolderState :=
  st.modify path fun entry => { entry with children := entry.children ++ [child] }

/-- `node.count += 1` -/
def increment (st : FolderState) (path : Text) : FolderState :=
  st.modify path fun entry => { entry with count := entry.count + 1 }

end FolderState

/-- `ensureNode` of the path whose segments are given from the last one to the first. -/
def ensureSegments : List Text → FolderState → FolderState
  | [], st => st
  | name :: above, st =>
    let path := joinSegments (name :: above).reverse
    if path ∈ st.paths then st
    else
      let st := st.add name path
      match above with
      | [] => st.addRoot path
      | parent :: rest => (ensureSegments (parent :: rest) st).addChild (joinSegments (parent :: rest).reverse) path

def ensureNode (path : Text) (st : FolderState) : FolderState := ensureSegments (path.splitOn SLASH).reverse st

/-- `tag.split('/').filter(Boolean)` -/
def segmentsOf (tag : Text) : List Text := (tag.splitOn SLASH).filter fun segment => !segment.isEmpty

/-- The paths that a document counts for, each one once. -/
def touched (tags : List Text) : List Text :=
  ((tags.filter fun tag => SLASH ∈ tag).flatMap fun tag =>
    let segments := segmentsOf tag
    (List.range segments.length).map fun i => joinSegments (segments.take (i + 1))).eraseDups

def countDocument (st : FolderState) (document : DocumentListItem) : FolderState :=
  (touched document.tags).foldl (fun st path => (ensureNode path st).increment path) st

def collectFolders (documents : List DocumentListItem) : FolderState := documents.foldl countDocument {}

def FolderNode.name : FolderNode → Text
  | node name _ _ _ => name

def FolderNode.path : FolderNode → Text
  | node _ path _ _ => path

def FolderNode.count : FolderNode → Nat
  | node _ _ count _ => count

def FolderNode.children : FolderNode → List FolderNode
  | node _ _ _ children => children

section
variable (localeCompare : Text → Text → Int)

def sortNodes (nodes : List FolderNode) : List FolderNode :=
  nodes.insertionSort fun a b => localeCompare a.name b.name ≤ 0

/-- The object of a path with what is below it, at most `depth` levels deep. -/
def readNode (st : FolderState) : Nat → Text → List FolderNode
  | 0, _ => []
  | depth + 1, path =>
    match st.byPath.find? fun entry => entry.path = path with
    | none => []
    | some entry =>
      [.node entry.name entry.path entry.count
        (sortNodes localeCompare (entry.children.flatMap (readNode st depth)))]

/-- No path has more segments. -/
def maxDepth (st : FolderState) : Nat := (st.paths.map fun path => (path.splitOn SLASH).length).foldr max 0

def buildFolderTree (documents : List DocumentListItem) : List FolderNode :=
  let st := collectFolders documents
  sortNodes localeCompare (st.roots.flatMap (readNode localeCompare st (maxDepth st)))

end

mutual
/-- All nodes of a tree. -/
def FolderNode.nodes : FolderNode → List FolderNode
  | .node name path count children => .node name path count children :: nodesOf children
def nodesOf : List FolderNode → List FolderNode
  | [] => []
  | n :: rest => n.nodes ++ nodesOf rest
end

/-! ## Paths and their segments -/

section
variable {p q : Text} {segments : List Text}

theorem slash_notMem {segment : Text} (h : segment ∈ p.splitOn SLASH) : SLASH ∉ segment := by
  induction p generalizing segment with
  | nil =>
    rw [List.splitOn_nil, List.mem_singleton] at h
    rw [h]
    exact List.not_mem_nil
  | cons u p ih =>
    rw [List.splitOn_cons_eq_if_modifyHead] at h
    split at h
    · obtain rfl | h := List.mem_cons.mp h
      · exact List.not_mem_nil
      · exact ih h
    · rename_i hu
      cases hsplit : p.splitOn SLASH with
      | nil => exact absurd hsplit (List.splitOn_ne_nil SLASH p)
      | cons first rest =>
        rw [hsplit, List.modifyHead_cons] at h
        rw [hsplit] at ih
        obtain rfl | h := List.mem_cons.mp h
        · intro hmem
          obtain heq | hmem := List.mem_cons.mp hmem
          · exact hu (by simp [← heq])
          · exact ih List.mem_cons_self hmem
        · exact ih (List.mem_cons_of_mem _ h)

theorem join_splitOn (p : Text) : joinSegments (p.splitOn SLASH) = p := List.intercalate_splitOn SLASH

theorem splitOn_join (hne : segments ≠ []) (h : ∀ s ∈ segments, SLASH ∉ s) :
    (joinSegments segments).splitOn SLASH = segments :=
  List.splitOn_intercalate SLASH h hne

theorem splitOn_injective (h : p.splitOn SLASH = q.splitOn SLASH) : p = q := by
  rw [← join_splitOn p, h, join_splitOn]

/-- A path of segments that are not empty. -/
def Proper (p : Text) : Prop := ∀ s ∈ p.splitOn SLASH, s ≠ []

/-- Segments of a proper path. -/
def Segments (segments : List Text) : Prop := ∀ s ∈ segments, SLASH ∉ s ∧ s ≠ []

theorem Segments.splitOn (h : Segments segments) (hne : segments ≠ []) :
    (joinSegments segments).splitOn SLASH = segments :=
  splitOn_join hne fun s hs => (h s hs).1

theorem Segments.proper (h : Segments segments) (hne : segments ≠ []) : Proper (joinSegments segments) := by
  intro s hs
  rw [h.splitOn hne] at hs
  exact (h s hs).2

theorem segments_segmentsOf (tag : Text) : Segments (segmentsOf tag) := fun s hs => by
  obtain ⟨hmem, hne⟩ := List.mem_filter.mp hs
  exact ⟨slash_notMem hmem, by simpa using hne⟩

/-- The path without its last segment. -/
def parentOf (p : Text) : Option Text :=
  if (p.splitOn SLASH).dropLast = [] then none else some (joinSegments (p.splitOn SLASH).dropLast)

def depth (p : Text) : Nat := (p.splitOn SLASH).length

theorem depth_pos (p : Text) : 0 < depth p := List.length_pos_iff.mpr (List.splitOn_ne_nil SLASH p)

theorem parentOf_join {above : List Text} {name : Text} (h : Segments (above ++ [name])) :
    parentOf (joinSegments (above ++ [name])) = if above = [] then none else some (joinSegments above) := by
  rw [parentOf, h.splitOn (by simp), List.dropLast_concat]

/-- A path with a parent, taken apart. -/
theorem parentOf_some (h : parentOf p = some q) : ∃ name, p.splitOn SLASH = q.splitOn SLASH ++ [name] := by
  unfold parentOf at h
  split at h
  · cases h
  · rename_i hne
    obtain rfl := Option.some.inj h
    have hsplit : (joinSegments (p.splitOn SLASH).dropLast).splitOn SLASH = (p.splitOn SLASH).dropLast :=
      splitOn_join hne fun s hs => slash_notMem (List.mem_of_mem_dropLast hs)
    refine ⟨(p.splitOn SLASH).getLast (List.splitOn_ne_nil SLASH p), ?_⟩
    rw [hsplit, List.dropLast_append_getLast]

theorem parentOf_depth (h : parentOf p = some q) : depth p = depth q + 1 := by
  obtain ⟨name, hsplit⟩ := parentOf_some h
  rw [depth, hsplit, List.length_append]
  rfl

theorem parentOf_none (h : parentOf p = none) : depth p = 1 := by
  unfold parentOf at h
  split at h
  · rename_i hnil
    have hlen := congrArg List.length hnil
    rw [List.length_dropLast, List.length_nil] at hlen
    have := depth_pos p
    unfold depth at *
    omega
  · cases h

end

/-! ## The links between the objects -/

/-- The objects and their links, where those of the objects `pending` are still to be set. -/
structure Linked (pending : List Text) (st : FolderState) : Prop where
  nodup : st.paths.Nodup
  proper : ∀ p ∈ st.paths, Proper p
  closed : ∀ p ∈ st.paths, p ∉ pending → ∀ q, parentOf p = some q → q ∈ st.paths
  pending_mem : ∀ p ∈ pending, p ∈ st.paths
  roots_nodup : st.roots.Nodup
  mem_roots : ∀ p, p ∈ st.roots ↔ p ∈ st.paths ∧ p ∉ pending ∧ parentOf p = none
  children_nodup : ∀ entry ∈ st.byPath, entry.children.Nodup
  mem_children : ∀ entry ∈ st.byPath, ∀ p, p ∈ entry.children ↔
    p ∈ st.paths ∧ p ∉ pending ∧ parentOf p = some entry.path

def FolderState.countOf (st : FolderState) (path : Text) : Nat :=
  ((st.byPath.find? fun entry => entry.path = path).map (·.count)).getD 0

section
variable {pending : List Text} {st st' : FolderState} {p q name path child : Text} {entry : FolderEntry}

theorem paths_modify {f : FolderEntry → FolderEntry} (hf : ∀ entry, (f entry).path = entry.path) :
    (st.modify path f).paths = st.paths := by
  rw [FolderState.paths, FolderState.modify, List.map_map]
  refine List.map_congr_left fun entry _ => ?_
  rw [Function.comp_apply]
  split
  · exact hf entry
  · rfl

theorem find_modify {f : FolderEntry → FolderEntry} (hf : ∀ entry, (f entry).path = entry.path) :
    (st.modify path f).byPath.find? (fun entry => entry.path = q) =
      (st.byPath.find? fun entry => entry.path = q).map fun entry => if entry.path = path then f entry
      else entry := by
  rw [FolderState.modify, List.find?_map]
  congr 1
  refine congrArg (List.find? · st.byPath) (funext fun entry => ?_)
  rw [Function.comp_apply]
  split
  · rw [hf entry]
  · rfl

theorem paths_add : (st.add name path).paths = st.paths ++ [path] := by simp [FolderState.paths, FolderState.add]

@[simp] theorem paths_addRoot : (st.addRoot path).paths = st.paths := rfl

theorem paths_addChild : (st.addChild path q).paths = st.paths := paths_modify fun _ => rfl

theorem paths_increment : (st.increment path).paths = st.paths := paths_modify fun _ => rfl

theorem mem_modify {f : FolderEntry → FolderEntry} {entry : FolderEntry} (h : entry ∈ (st.modify path f).byPath) :
    ∃ old ∈ st.byPath, (old.path = path → entry = f old) ∧ (old.path ≠ path → entry = old) := by
  obtain ⟨old, hold, rfl⟩ := List.mem_map.mp h
  exact ⟨old, hold, fun heq => if_pos heq, fun hne => if_neg hne⟩

theorem Linked.add (h : Linked pending st) (hproper : Proper path) (hnew : path ∉ st.paths) :
    Linked (path :: pending) (st.add name path) := by
  have hmem : ∀ p, p ∈ (st.add name path).paths ∧ p ∉ path :: pending ↔ p ∈ st.paths ∧ p ∉ pending := by
    intro p
    rw [paths_add, List.mem_append, List.mem_singleton, List.mem_cons, not_or]
    by_cases heq : p = path
    · simp [heq, hnew]
    · simp [heq]
  refine ⟨?_, fun p hp => ?_, fun p hp hpending q hq => ?_, fun p hp => ?_, h.roots_nodup,
    fun p => ?_, fun entry he => ?_, fun entry he p => ?_⟩
  · rw [paths_add]
    exact List.nodup_append.mpr ⟨h.nodup, List.nodup_singleton path, fun a ha b hb heq =>
      hnew (List.mem_singleton.mp hb ▸ heq ▸ ha)⟩
  · rw [paths_add] at hp
    obtain hp | hp := List.mem_append.mp hp
    · exact h.proper p hp
    · exact List.mem_singleton.mp hp ▸ hproper
  · obtain ⟨hold, hnot⟩ := (hmem p).mp ⟨hp, hpending⟩
    rw [paths_add]
    exact List.mem_append_left _ (h.closed p hold hnot q hq)
  · rw [paths_add]
    obtain rfl | hp := List.mem_cons.mp hp
    · simp
    · exact List.mem_append_left _ (h.pending_mem p hp)
  · rw [← and_assoc, hmem p, and_assoc]
    exact h.mem_roots p
  · obtain he | he := List.mem_append.mp he
    · exact h.children_nodup entry he
    · rw [List.mem_singleton.mp he]
      exact List.nodup_nil
  · rw [← and_assoc, hmem p, and_assoc]
    obtain he | he := List.mem_append.mp he
    · exact h.mem_children entry he p
    · -- No object is below the new one.
      rw [List.mem_singleton.mp he]
      refine iff_of_false List.not_mem_nil fun hp => hnew ?_
      exact h.closed p hp.1 hp.2.1 path hp.2.2

theorem Linked.addRoot (h : Linked (path :: pending) st) (hfresh : path ∉ pending) (hroot : parentOf path = none) :
    Linked pending (st.addRoot path) := by
  have hmem : path ∈ st.paths := h.pending_mem path List.mem_cons_self
  refine ⟨h.nodup, h.proper, fun p hp hpending q hq => ?_,
    fun p hp => h.pending_mem p (List.mem_cons_of_mem _ hp), ?_,
    fun p => ?_, h.children_nodup, fun entry he p => ?_⟩
  · have hne : p ≠ path := fun heq => by
      rw [heq, hroot] at hq
      cases hq
    exact h.closed p hp (by simp [hne, hpending]) q hq
  · refine List.nodup_append.mpr ⟨h.roots_nodup, List.nodup_singleton path, fun a ha b hb heq => ?_⟩
    rw [heq, List.mem_singleton.mp hb, h.mem_roots] at ha
    exact ha.2.1 List.mem_cons_self
  · refine List.mem_append.trans ?_
    rw [h.mem_roots, List.mem_singleton, List.mem_cons, not_or]
    by_cases heq : p = path
    · simp [heq, hmem, hfresh, hroot]
    · simp [heq]
  · rw [h.mem_children entry he, List.mem_cons, not_or]
    by_cases heq : p = path
    · simp [heq, hroot]
    · simp [heq]

theorem Linked.addChild (h : Linked (path :: pending) st) (hfresh : path ∉ pending)
    (hparent : parentOf path = some q) (hq : q ∈ st.paths) : Linked pending (st.addChild q path) := by
  have hmem : path ∈ st.paths := h.pending_mem path List.mem_cons_self
  refine ⟨paths_addChild.symm ▸ h.nodup, paths_addChild.symm ▸ h.proper, ?_, ?_,
    h.roots_nodup, ?_, fun entry he => ?_, fun entry he p => ?_⟩
  · rw [paths_addChild]
    intro p hp hpending q' hq'
    by_cases heq : p = path
    · rw [heq, hparent] at hq'
      exact Option.some.inj hq' ▸ hq
    · exact h.closed p hp (by simp [heq, hpending]) q' hq'
  · rw [paths_addChild]
    exact fun p hp => h.pending_mem p (List.mem_cons_of_mem _ hp)
  · intro p
    rw [paths_addChild]
    refine (h.mem_roots p).trans ?_
    rw [List.mem_cons, not_or]
    by_cases heq : p = path
    · simp [heq, hparent]
    · simp [heq]
  · obtain ⟨old, hold, hat, hnot⟩ := mem_modify he
    by_cases heq : old.path = q
    · rw [hat heq]
      refine List.nodup_append.mpr ⟨h.children_nodup old hold, List.nodup_singleton path, fun a ha b hb hab => ?_⟩
      rw [hab, List.mem_singleton.mp hb, h.mem_children old hold] at ha
      exact ha.2.1 List.mem_cons_self
    · rw [hnot heq]
      exact h.children_nodup old hold
  · obtain ⟨old, hold, hat, hnot⟩ := mem_modify he
    rw [paths_addChild]
    by_cases hold_q : old.path = q
    · rw [hat hold_q]
      refine List.mem_append.trans ?_
      rw [h.mem_children old hold, List.mem_singleton, List.mem_cons, not_or]
      by_cases heq : p = path
      · simp [heq, hmem, hfresh, hparent, hold_q]
      · simp [heq]
    · rw [hnot hold_q, h.mem_children old hold, List.mem_cons, not_or]
      by_cases heq : p = path
      · simp [heq, hparent, Ne.symm hold_q]
      · simp [heq]

theorem Linked.increment (h : Linked pending st) : Linked pending (st.increment path) := by
  have hold : ∀ entry ∈ (st.increment path).byPath, ∃ old ∈ st.byPath,
      entry.path = old.path ∧ entry.children = old.children := by
    intro entry he
    obtain ⟨old, hold, hat, hnot⟩ := mem_modify he
    by_cases heq : old.path = path
    · exact ⟨old, hold, by rw [hat heq], by rw [hat heq]⟩
    · exact ⟨old, hold, by rw [hnot heq], by rw [hnot heq]⟩
  refine ⟨paths_increment.symm ▸ h.nodup, paths_increment.symm ▸ h.proper, paths_increment.symm ▸ h.closed,
    paths_increment.symm ▸ h.pending_mem, h.roots_nodup, paths_increment.symm ▸ h.mem_roots, fun entry he => ?_,
    fun entry he p => ?_⟩
  · obtain ⟨old, ho, -, hchildren⟩ := hold entry he
    exact hchildren ▸ h.children_nodup old ho
  · obtain ⟨old, ho, hpath, hchildren⟩ := hold entry he
    rw [paths_increment, hpath, hchildren]
    exact h.mem_children old ho p

/-! ### Counts -/

theorem find_addChild : (st.addChild path child).byPath.find? (fun entry => entry.path = q) =
    (st.byPath.find? fun entry => entry.path = q).map fun entry =>
      if entry.path = path then { entry with children := entry.children ++ [child] } else entry :=
  find_modify fun _ => rfl

theorem find_increment : (st.increment path).byPath.find? (fun entry => entry.path = q) =
    (st.byPath.find? fun entry => entry.path = q).map fun entry =>
      if entry.path = path then { entry with count := entry.count + 1 } else entry :=
  find_modify fun _ => rfl

theorem find_path (h : (st.byPath.find? fun entry => entry.path = q) = some entry) :
    entry.path = q ∧ entry ∈ st.byPath :=
  ⟨by simpa using List.find?_some h, List.mem_of_find?_eq_some h⟩

theorem countOf_addChild (q : Text) : (st.addChild path child).countOf q = st.countOf q := by
  rw [FolderState.countOf, FolderState.countOf, find_addChild, Option.map_map]
  refine congrArg (Option.getD · 0) (congrArg (Option.map · _) (funext fun entry => ?_))
  rw [Function.comp_apply]
  split
  · rfl
  · rfl

theorem countOf_add (q : Text) : (st.add name path).countOf q = st.countOf q := by
  rw [FolderState.countOf, FolderState.countOf, FolderState.add, List.find?_append]
  cases hfind : st.byPath.find? fun entry => entry.path = q with
  | some entry => rfl
  | none =>
    rw [Option.none_or, List.find?_singleton]
    split
    · rfl
    · rfl

theorem countOf_increment (hmem : path ∈ st.paths) (q : Text) :
    (st.increment path).countOf q = st.countOf q + if q = path then 1 else 0 := by
  rw [FolderState.countOf, FolderState.countOf, find_increment]
  cases hfind : st.byPath.find? fun entry => entry.path = q with
  | none =>
    obtain ⟨entry, he, hpath⟩ := List.mem_map.mp hmem
    have hne : q ≠ path := fun heq => by
      have := List.find?_eq_none.mp hfind entry he
      simp [hpath, heq] at this
    simp [hne]
  | some entry =>
    obtain ⟨hpath, -⟩ := find_path hfind
    by_cases heq : q = path
    · simp [hpath, heq]
    · simp [hpath, heq]

end

/-! ## One path -/

section
variable {pending : List Text} {st : FolderState} {name : Text} {above : List Text}

theorem ensureSegments_old (h : joinSegments (name :: above).reverse ∈ st.paths) :
    ensureSegments (name :: above) st = st := by
  unfold ensureSegments
  exact if_pos h

theorem ensureSegments_root (h : joinSegments [name] ∉ st.paths) :
    ensureSegments [name] st = (st.add name (joinSegments [name])).addRoot (joinSegments [name]) := by
  unfold ensureSegments
  exact if_neg h

theorem ensureSegments_child (hne : above ≠ []) (h : joinSegments (name :: above).reverse ∉ st.paths) :
    ensureSegments (name :: above) st =
      (ensureSegments above (st.add name (joinSegments (name :: above).reverse))).addChild
      (joinSegments above.reverse)
        (joinSegments (name :: above).reverse) := by
  cases above with
  | nil => exact absurd rfl hne
  | cons parent rest =>
    rw [ensureSegments]
    exact if_neg h

/-- What `ensureNode` does for the path of some segments. -/
structure Ensured (segments : List Text) (st st' : FolderState) : Prop where
  mem : joinSegments segments ∈ st'.paths
  old : ∀ p ∈ st.paths, p ∈ st'.paths
  new : ∀ p ∈ st'.paths, p ∈ st.paths ∨ ∃ front, front ≠ [] ∧ front <+: segments ∧ p = joinSegments front
  count : ∀ p, st'.countOf p = st.countOf p

theorem ensureSegments_spec (rev : List Text) (hne : rev ≠ []) (hsegments : Segments rev.reverse) :
    ∀ pending st, Linked pending st → Linked pending (ensureSegments rev st) ∧
      Ensured rev.reverse st (ensureSegments rev st) := by
  induction rev with
  | nil => exact absurd rfl hne
  | cons name above ih =>
    intro pending st h
    by_cases hmem : joinSegments (name :: above).reverse ∈ st.paths
    · rw [ensureSegments_old hmem]
      exact ⟨h, hmem, fun p hp => hp, fun p hp => .inl hp, fun p => rfl⟩
    · have hproper : Proper (joinSegments (name :: above).reverse) := hsegments.proper (by simp)
      have hfresh : joinSegments (name :: above).reverse ∉ pending := fun hp => hmem (h.pending_mem _ hp)
      have hadd : Linked _ (st.add name (joinSegments (name :: above).reverse)) := h.add hproper hmem
      have hparent : parentOf (joinSegments (above.reverse ++ [name])) = _ :=
        parentOf_join (by simpa using hsegments)
      rw [← List.reverse_cons] at hparent
      by_cases habove : above = []
      · subst habove
        rw [show ensureSegments [name] st = _ from ensureSegments_root hmem]
        refine ⟨hadd.addRoot hfresh (by simpa using hparent), ?_, fun p hp => ?_,
          fun p hp => ?_, fun p => countOf_add p⟩
        · rw [paths_addRoot, paths_add]
          simp
        · rw [paths_addRoot, paths_add]
          exact List.mem_append_left _ hp
        · rw [paths_addRoot, paths_add] at hp
          obtain hp | hp := List.mem_append.mp hp
          · exact .inl hp
          · exact .inr ⟨[name], by simp, List.prefix_rfl, List.mem_singleton.mp hp⟩
      · rw [ensureSegments_child habove hmem]
        rw [if_neg (by simpa using habove)] at hparent
        have hfront : Segments above.reverse := fun s hs => hsegments s (by simp at hs ⊢; exact .inl hs)
        obtain ⟨hlinked, hensured⟩ := ih habove hfront _ _ hadd
        refine ⟨hlinked.addChild hfresh hparent hensured.mem, ?_, fun p hp => ?_, fun p hp => ?_, fun p => ?_⟩
        · rw [paths_addChild]
          exact hensured.old _ (by rw [paths_add]; simp)
        · rw [paths_addChild]
          exact hensured.old p (by rw [paths_add]; exact List.mem_append_left _ hp)
        · rw [paths_addChild] at hp
          obtain hp | ⟨front, hfrontne, hfront, rfl⟩ := hensured.new p hp
          · rw [paths_add] at hp
            obtain hp | hp := List.mem_append.mp hp
            · exact .inl hp
            · exact .inr ⟨_, by simp, List.prefix_rfl, List.mem_singleton.mp hp⟩
          · refine .inr ⟨front, hfrontne, hfront.trans ?_, rfl⟩
            rw [List.reverse_cons]
            exact List.prefix_append _ _
        · rw [countOf_addChild, hensured.count, countOf_add]

end

/-! ## All documents -/

section
variable {st : FolderState} {tags : List Text} {p : Text}

/-- A path of segments that are not empty. -/
def IsPath (p : Text) : Prop := ∃ segments, segments ≠ [] ∧ Segments segments ∧ p = joinSegments segments

theorem mem_touched : p ∈ touched tags ↔
    ∃ tag ∈ tags, SLASH ∈ tag ∧ ∃ front, front ≠ [] ∧ front <+: segmentsOf tag ∧ p = joinSegments front := by
  unfold touched
  simp only [List.mem_eraseDups, List.mem_flatMap, List.mem_filter, decide_eq_true_eq, List.mem_map, List.mem_range]
  apply Iff.intro
  · intro h
    obtain ⟨tag, ⟨hmem, hslash⟩, i, hi, rfl⟩ := h
    refine ⟨tag, hmem, hslash, _, fun hnil => ?_, List.take_prefix _ _, rfl⟩
    have hlen := congrArg List.length hnil
    rw [List.length_take, List.length_nil] at hlen
    omega
  · intro h
    obtain ⟨tag, hmem, hslash, front, hne, hfront, rfl⟩ := h
    have hpos : 0 < front.length := List.length_pos_iff.mpr hne
    have hle := hfront.length_le
    refine ⟨tag, ⟨hmem, hslash⟩, front.length - 1, by omega, ?_⟩
    rw [Nat.sub_add_cancel hpos, ← List.prefix_iff_eq_take.mp hfront]

theorem Segments.of_front {front segments : List Text} (h : Segments segments) (hp : front <+: segments) :
    Segments front :=
  fun s hs => h s (hp.subset hs)

theorem isPath_touched (h : p ∈ touched tags) : IsPath p := by
  obtain ⟨tag, -, -, front, hne, hfront, rfl⟩ := mem_touched.mp h
  exact ⟨front, hne, (segments_segmentsOf tag).of_front hfront, rfl⟩

/-- The folders above a folder are touched with it. -/
theorem touched_above {front segments : List Text} (hsegments : Segments segments) (hne : front ≠ [])
    (hfront : front <+: segments)
    (h : joinSegments segments ∈ touched tags) : joinSegments front ∈ touched tags := by
  obtain ⟨tag, hmem, hslash, whole, hwhole, hp, heq⟩ := mem_touched.mp h
  have hsame : segments = whole := by
    have hsne : segments ≠ [] := fun hnil => hne (List.prefix_nil.mp (hnil ▸ hfront))
    rw [← hsegments.splitOn hsne, heq, ((segments_segmentsOf tag).of_front hp).splitOn hwhole]
  exact mem_touched.mpr ⟨tag, hmem, hslash, front, hne, (hsame ▸ hfront).trans hp, rfl⟩

theorem ensureNode_spec (h : Linked [] st) (hp : IsPath p) :
    ∃ segments, p = joinSegments segments ∧ Segments segments ∧ Linked [] (ensureNode p st) ∧
      Ensured segments st (ensureNode p st) := by
  obtain ⟨segments, hne, hsegments, rfl⟩ := hp
  have hspec := ensureSegments_spec segments.reverse (by simpa using hne) (by simpa using hsegments) [] st h
  rw [List.reverse_reverse] at hspec
  refine ⟨segments, rfl, hsegments, ?_⟩
  rw [ensureNode, hsegments.splitOn hne]
  exact hspec

/-- What counting for some paths leaves. -/
structure Counted (ps : List Text) (st st' : FolderState) : Prop where
  linked : Linked [] st'
  old : ∀ p ∈ st.paths, p ∈ st'.paths
  mem : ∀ p ∈ ps, p ∈ st'.paths
  new : ∀ p ∈ st'.paths, p ∈ st.paths ∨ ∃ segments front, joinSegments segments ∈ ps ∧
    Segments segments ∧ front ≠ [] ∧ front <+: segments ∧ p = joinSegments front
  count : ∀ p, st'.countOf p = st.countOf p + ps.count p

theorem counted_foldl (ps : List Text) (hps : ∀ p ∈ ps, IsPath p) (st : FolderState) (h : Linked [] st) :
    Counted ps st (ps.foldl (fun st path => (ensureNode path st).increment path) st) := by
  induction ps generalizing st with
  | nil => exact ⟨h, fun _ hp => hp, fun _ hp => absurd hp List.not_mem_nil, fun _ hp => .inl hp, fun _ => rfl⟩
  | cons path ps ih =>
    obtain ⟨segments, hpath, hsegments, hlinked, hensured⟩ := ensureNode_spec h (hps path List.mem_cons_self)
    have hstep : Linked [] ((ensureNode path st).increment path) := hlinked.increment
    have hrest := ih (fun p hp => hps p (List.mem_cons_of_mem _ hp)) _ hstep
    have hmem : path ∈ (ensureNode path st).paths := hpath ▸ hensured.mem
    rw [List.foldl_cons]
    refine ⟨hrest.linked, fun p hp => ?_, fun p hp => ?_, fun p hp => ?_, fun p => ?_⟩
    · exact hrest.old p (paths_increment.symm ▸ hensured.old p hp)
    · obtain rfl | hp := List.mem_cons.mp hp
      · exact hrest.old p (paths_increment.symm ▸ hmem)
      · exact hrest.mem p hp
    · obtain hp | ⟨segments', front, hin, hseg, hne, hfront, rfl⟩ := hrest.new p hp
      · rw [paths_increment] at hp
        obtain hp | ⟨front, hne, hfront, rfl⟩ := hensured.new p hp
        · exact .inl hp
        · exact .inr ⟨segments, front, hpath ▸ List.mem_cons_self, hsegments, hne, hfront, rfl⟩
      · exact .inr ⟨segments', front, List.mem_cons_of_mem _ hin, hseg, hne, hfront, rfl⟩
    · rw [hrest.count, countOf_increment hmem, hensured.count, List.count_cons, Nat.add_assoc]
      by_cases heq : p = path
      · simp [heq, Nat.add_comm]
      · simp [heq, Ne.symm heq]

/-- One document: its paths are there, and each counts one more. -/
theorem countDocument_counted (document : DocumentListItem) (h : Linked [] st) :
    Counted (touched document.tags) st (countDocument st document) :=
  counted_foldl _ (fun _ hp => isPath_touched hp) st h

theorem count_touched (p : Text) (tags : List Text) :
    (touched tags).count p = if p ∈ touched tags then 1 else 0 := by
  by_cases h : p ∈ touched tags
  · rw [if_pos h]
    exact List.count_eq_one_of_mem (nodup_eraseDups _) h
  · rw [if_neg h]
    exact List.count_eq_zero_of_not_mem h

theorem linked_empty : Linked [] {} :=
  ⟨List.nodup_nil, fun _ hp => absurd hp List.not_mem_nil, fun _ hp => absurd hp List.not_mem_nil,
    fun _ hp => absurd hp List.not_mem_nil, List.nodup_nil, fun p => by simp [FolderState.paths],
    fun _ he => absurd he List.not_mem_nil, fun _ he => absurd he List.not_mem_nil⟩

/-- The objects of a list of documents: the folders they touch, with the number of documents. -/
theorem collectFolders_spec (documents : List DocumentListItem) : Linked [] (collectFolders documents) ∧
    (∀ p, p ∈ (collectFolders documents).paths ↔ ∃ document ∈ documents, p ∈ touched document.tags) ∧
    ∀ p, (collectFolders documents).countOf p = documents.countP fun document => p ∈ touched document.tags := by
  induction documents using List.reverseRecOn with
  | nil => exact ⟨linked_empty, fun p => by simp [collectFolders, FolderState.paths], fun p => rfl⟩
  | append_singleton documents document ih =>
    obtain ⟨hlinked, hpaths, hcount⟩ := ih
    have hstep := countDocument_counted document hlinked
    have hfold : collectFolders (documents ++ [document]) = countDocument (collectFolders documents) document :=
      List.foldl_append ..
    rw [hfold]
    refine ⟨hstep.linked, fun p => ?_, fun p => ?_⟩
    · have happend : (∃ d ∈ documents ++ [document], p ∈ touched d.tags) ↔
          p ∈ (collectFolders documents).paths ∨ p ∈ touched document.tags := by
        rw [hpaths]
        simp only [List.mem_append, List.mem_singleton, or_and_right, exists_or, exists_eq_left]
      rw [happend]
      apply Iff.intro
      · intro hp
        obtain hp | ⟨segments, front, hin, hsegments, hne, hfront, rfl⟩ := hstep.new p hp
        · exact .inl hp
        · exact .inr (touched_above hsegments hne hfront hin)
      · intro hp
        exact hp.elim (hstep.old p) (hstep.mem p)
    · rw [hstep.count, hcount, count_touched, List.countP_append, List.countP_singleton]
      simp

end

/-! ## The nodes of the tree -/

section
variable (localeCompare : Text → Text → Int) {st : FolderState} {p q : Text} {n : FolderNode}

theorem nodesOf_eq (l : List FolderNode) : nodesOf l = l.flatMap FolderNode.nodes := by
  induction l with
  | nil => rfl
  | cons n l ih => rw [nodesOf, ih, List.flatMap_cons]

theorem sortNodes_perm (l : List FolderNode) : (sortNodes localeCompare l).Perm l := List.perm_insertionSort _ l

theorem nodesOf_sortNodes (l : List FolderNode) : (nodesOf (sortNodes localeCompare l)).Perm (nodesOf l) := by
  rw [nodesOf_eq, nodesOf_eq]
  exact (sortNodes_perm localeCompare l).flatMap_right _

theorem nodesOf_flatMap {α : Type} (l : List α) (f : α → List FolderNode) :
    nodesOf (l.flatMap f) = l.flatMap fun a => nodesOf (f a) := by
  simp only [nodesOf_eq, List.flatMap_assoc]

/-- The paths of the nodes that are read for a path. -/
def readPaths (localeCompare : Text → Text → Int) (st : FolderState) (d : Nat) (p : Text) : List Text :=
  (nodesOf (readNode localeCompare st d p)).map FolderNode.path

theorem entry_of_mem (h : p ∈ st.paths) : ∃ entry ∈ st.byPath, entry.path = p ∧
    (st.byPath.find? fun entry => entry.path = p) = some entry := by
  obtain ⟨entry, he, hpath⟩ := List.mem_map.mp h
  have hsome : (st.byPath.find? fun entry => entry.path = p).isSome = true :=
    List.find?_isSome.mpr ⟨entry, he, by simpa using hpath⟩
  obtain ⟨found, hfound⟩ := Option.isSome_iff_exists.mp hsome
  exact ⟨found, (find_path hfound).2, (find_path hfound).1, hfound⟩

theorem readNode_succ (d : Nat) (h : p ∈ st.paths) : ∃ entry ∈ st.byPath, entry.path = p ∧
    st.countOf p = entry.count ∧ readNode localeCompare st (d + 1) p = [.node entry.name p entry.count
      (sortNodes localeCompare (entry.children.flatMap (readNode localeCompare st d)))] := by
  obtain ⟨entry, he, hpath, hfind⟩ := entry_of_mem h
  refine ⟨entry, he, hpath, ?_, ?_⟩
  · rw [FolderState.countOf, hfind]
    rfl
  · rw [readNode, hfind, ← hpath]

theorem readPaths_succ (d : Nat) (hlinked : Linked [] st) (h : p ∈ st.paths) :
    ∃ children : List Text, children.Nodup ∧ (∀ c, c ∈ children ↔ c ∈ st.paths ∧ parentOf c = some p) ∧
      (readPaths localeCompare st (d + 1) p).Perm (p :: children.flatMap (readPaths localeCompare st d)) := by
  obtain ⟨entry, he, hpath, -, hread⟩ : ∃ entry ∈ st.byPath, _ := readNode_succ localeCompare d h
  refine ⟨entry.children, hlinked.children_nodup entry he, fun c => ?_, ?_⟩
  · rw [hlinked.mem_children entry he c, hpath]
    simp
  · rw [readPaths, hread, nodesOf, nodesOf, List.append_nil, FolderNode.nodes, List.map_cons]
    refine List.Perm.cons p (((nodesOf_sortNodes localeCompare _).map FolderNode.path).trans ?_)
    rw [nodesOf_flatMap, List.map_flatMap]
    exact List.Perm.refl _

/-- Everything read for a path lies below it. -/
theorem readPaths_below (d : Nat) (hlinked : Linked [] st) (h : p ∈ st.paths) :
    ∀ q ∈ readPaths localeCompare st d p, q ∈ st.paths ∧ p.splitOn SLASH <+: q.splitOn SLASH := by
  induction d generalizing p with
  | zero => simp [readPaths, readNode, nodesOf]
  | succ d ih =>
    obtain ⟨children, -, hchildren, hperm⟩ := readPaths_succ localeCompare d hlinked h
    intro q hq
    obtain rfl | hq := List.mem_cons.mp (hperm.subset hq)
    · exact ⟨h, List.prefix_rfl⟩
    · obtain ⟨c, hc, hq⟩ := List.mem_flatMap.mp hq
      obtain ⟨hmem, hparent⟩ := (hchildren c).mp hc
      obtain ⟨hin, hfront⟩ := ih hmem q hq
      obtain ⟨name, hname⟩ := parentOf_some hparent
      exact ⟨hin, (hname ▸ List.prefix_append _ [name] : p.splitOn SLASH <+: c.splitOn SLASH).trans hfront⟩

theorem siblings_eq {c c' : Text} (h : parentOf c = some p) (h' : parentOf c' = some p)
    (hq : c.splitOn SLASH <+: q.splitOn SLASH)
    (hq' : c'.splitOn SLASH <+: q.splitOn SLASH) : c = c' := by
  have hlen : (c.splitOn SLASH).length = (c'.splitOn SLASH).length :=
    (parentOf_depth h).trans (parentOf_depth h').symm
  exact splitOn_injective ((List.prefix_of_prefix_length_le hq hq' hlen.le).eq_of_length hlen)

theorem readPaths_nodup (d : Nat) (hlinked : Linked [] st) (h : p ∈ st.paths) :
    (readPaths localeCompare st d p).Nodup := by
  induction d generalizing p with
  | zero => simp [readPaths, readNode, nodesOf]
  | succ d ih =>
    obtain ⟨children, hnodup, hchildren, hperm⟩ := readPaths_succ localeCompare d hlinked h
    rw [hperm.nodup_iff, List.nodup_cons, List.nodup_flatMap]
    refine ⟨fun hmem => ?_, fun c hc => ih ((hchildren c).mp hc).1, ?_⟩
    · obtain ⟨c, hc, hp⟩ := List.mem_flatMap.mp hmem
      obtain ⟨hin, hparent⟩ := (hchildren c).mp hc
      have hle := (readPaths_below localeCompare d hlinked hin p hp).2.length_le
      have hdepth := parentOf_depth hparent
      unfold depth at hdepth
      omega
    · refine List.Pairwise.imp_of_mem ?_ hnodup
      intro c c' hc hc' hne q hq hq'
      obtain ⟨hin, hparent⟩ := (hchildren c).mp hc
      obtain ⟨hin', hparent'⟩ := (hchildren c').mp hc'
      exact hne (siblings_eq hparent hparent' (readPaths_below localeCompare d hlinked hin q hq).2
        (readPaths_below localeCompare d hlinked hin' q hq').2)

omit localeCompare in
theorem Linked.prefix_mem (hlinked : Linked [] st) {front : List Text} (hne : front ≠ []) (hq : q ∈ st.paths)
    (hfront : front <+: q.splitOn SLASH) : joinSegments front ∈ st.paths := by
  induction hn : depth q generalizing q with
  | zero => exact absurd hn (depth_pos q).ne'
  | succ k ih =>
    by_cases heq : front = q.splitOn SLASH
    · rw [heq, join_splitOn]
      exact hq
    · -- The path is not the whole of `q`, so it is one of the parent's.
      have hlt : front.length < (q.splitOn SLASH).length :=
        lt_of_le_of_ne hfront.length_le fun hlen => heq (hfront.eq_of_length hlen)
      have hdrop : front <+: (q.splitOn SLASH).dropLast := by
        refine List.prefix_of_prefix_length_le hfront (List.dropLast_prefix _) ?_
        rw [List.length_dropLast]
        omega
      have hdne : (q.splitOn SLASH).dropLast ≠ [] := fun hnil => hne (List.prefix_nil.mp (hnil ▸ hdrop))
      have hparent : parentOf q = some (joinSegments (q.splitOn SLASH).dropLast) := if_neg hdne
      have hsplit : (joinSegments (q.splitOn SLASH).dropLast).splitOn SLASH = (q.splitOn SLASH).dropLast :=
        splitOn_join hdne fun s hs => slash_notMem (List.mem_of_mem_dropLast hs)
      refine ih (hlinked.closed q hq List.not_mem_nil _ hparent) (hsplit.symm ▸ hdrop) ?_
      have hdepth := parentOf_depth hparent
      omega

theorem readPaths_complete (d : Nat) (hlinked : Linked [] st) (h : p ∈ st.paths) (hq : q ∈ st.paths)
    (hfront : p.splitOn SLASH <+: q.splitOn SLASH) (hd : depth q < depth p + d) :
    q ∈ readPaths localeCompare st d p := by
  induction d generalizing p with
  | zero => exact absurd hfront.length_le (by unfold depth at hd; omega)
  | succ d ih =>
    obtain ⟨children, -, hchildren, hperm⟩ := readPaths_succ localeCompare d hlinked h
    refine hperm.symm.subset ?_
    by_cases heq : q = p
    · rw [heq]
      exact List.mem_cons_self
    · have hlt : (p.splitOn SLASH).length < (q.splitOn SLASH).length :=
        lt_of_le_of_ne hfront.length_le fun hlen => heq (splitOn_injective (hfront.eq_of_length hlen)).symm
      obtain ⟨rest, hrest⟩ := hfront
      obtain ⟨name, below, rfl⟩ : ∃ name below, rest = name :: below := by
        apply List.exists_cons_of_ne_nil
        intro hnil
        rw [← hrest, hnil, List.append_nil] at hlt
        exact absurd hlt (lt_irrefl _)
      have hfront : p.splitOn SLASH ++ [name] <+: q.splitOn SLASH := ⟨below, by rw [← hrest]; simp⟩
      have hne : p.splitOn SLASH ++ [name] ≠ [] := by simp
      have hsplit : (joinSegments (p.splitOn SLASH ++ [name])).splitOn SLASH = p.splitOn SLASH ++ [name] :=
        splitOn_join hne fun s hs => slash_notMem (hfront.subset hs)
      have hin : joinSegments (p.splitOn SLASH ++ [name]) ∈ st.paths := hlinked.prefix_mem hne hq hfront
      have hparent : parentOf (joinSegments (p.splitOn SLASH ++ [name])) = some p := by
        rw [parentOf, hsplit, List.dropLast_concat, if_neg (List.splitOn_ne_nil SLASH p), join_splitOn]
      refine List.mem_cons_of_mem _ (List.mem_flatMap.mpr ⟨_, (hchildren _).mpr ⟨hin, hparent⟩, ?_⟩)
      have hdepth := parentOf_depth hparent
      exact ih hin (hsplit.symm ▸ hfront) (by omega)

theorem readNode_path (d : Nat) (h : n ∈ readNode localeCompare st d p) : n.path = p := by
  cases d with
  | zero => exact absurd h List.not_mem_nil
  | succ d =>
    rw [readNode] at h
    split at h
    · exact absurd h List.not_mem_nil
    · rename_i entry hfind
      rw [List.mem_singleton.mp h]
      exact (find_path hfind).1

/-- What a node shows is what its object holds, and its children are one segment longer. -/
structure Sound (st : FolderState) (n : FolderNode) : Prop where
  count : n.count = st.countOf n.path
  children : ∀ c ∈ n.children, parentOf c.path = some n.path

theorem readNode_sound (d : Nat) (hlinked : Linked [] st) (h : p ∈ st.paths) :
    ∀ n ∈ nodesOf (readNode localeCompare st d p), Sound st n := by
  induction d generalizing p with
  | zero => simp [readNode, nodesOf]
  | succ d ih =>
    obtain ⟨entry, he, hpath, hcount, hread⟩ := readNode_succ localeCompare d h
    have hchildren : ∀ c, c ∈ entry.children ↔ c ∈ st.paths ∧ parentOf c = some p := fun c => by
      rw [hlinked.mem_children entry he c, hpath]
      simp
    intro n hn
    rw [hread, nodesOf, nodesOf, List.append_nil, FolderNode.nodes] at hn
    obtain rfl | hn := List.mem_cons.mp hn
    · refine ⟨hcount.symm, fun c hc => ?_⟩
      obtain ⟨c', hc', hread'⟩ := List.mem_flatMap.mp ((sortNodes_perm localeCompare _).subset hc)
      rw [readNode_path localeCompare d hread']
      exact ((hchildren c').mp hc').2
    · have hn' := (nodesOf_sortNodes localeCompare _).subset hn
      rw [nodesOf_flatMap] at hn'
      obtain ⟨c, hc, hnode⟩ := List.mem_flatMap.mp hn'
      exact ih ((hchildren c).mp hc).1 n hnode

/-! ### The whole tree -/

def readTree (st : FolderState) : List FolderNode :=
  sortNodes localeCompare (st.roots.flatMap (readNode localeCompare st (maxDepth st)))

omit localeCompare in
theorem Linked.root_iff (hlinked : Linked [] st) : p ∈ st.roots ↔ p ∈ st.paths ∧ parentOf p = none := by
  rw [hlinked.mem_roots]
  simp

omit localeCompare in
theorem depth_le (h : p ∈ st.paths) : depth p ≤ maxDepth st := by
  unfold maxDepth
  have hmem : depth p ∈ st.paths.map fun path => (path.splitOn SLASH).length := List.mem_map_of_mem h
  revert hmem
  generalize st.paths.map (fun path => (path.splitOn SLASH).length) = l
  intro hmem
  induction l with
  | nil => cases hmem
  | cons k l ih =>
    rw [List.foldr_cons]
    obtain rfl | hmem := List.mem_cons.mp hmem
    · exact Nat.le_max_left ..
    · exact (ih hmem).trans (Nat.le_max_right ..)

theorem mem_readTree (hlinked : Linked [] st) (h : n ∈ nodesOf (readTree localeCompare st)) :
    ∃ root ∈ st.paths, parentOf root = none ∧ n ∈ nodesOf (readNode localeCompare st (maxDepth st) root) := by
  have hn := (nodesOf_sortNodes localeCompare _).subset h
  rw [nodesOf_flatMap] at hn
  obtain ⟨root, hroot, hn⟩ := List.mem_flatMap.mp hn
  obtain ⟨hmem, hnone⟩ := hlinked.root_iff.mp hroot
  exact ⟨root, hmem, hnone, hn⟩

theorem readTree_paths : ((nodesOf (readTree localeCompare st)).map FolderNode.path).Perm
    (st.roots.flatMap (readPaths localeCompare st (maxDepth st))) := by
  refine ((nodesOf_sortNodes localeCompare _).map FolderNode.path).trans ?_
  rw [nodesOf_flatMap, List.map_flatMap]
  exact List.Perm.refl _

theorem readTree_nodup (hlinked : Linked [] st) :
    ((nodesOf (readTree localeCompare st)).map FolderNode.path).Nodup := by
  rw [(readTree_paths localeCompare).nodup_iff, List.nodup_flatMap]
  refine ⟨fun r hr => readPaths_nodup localeCompare _ hlinked (hlinked.root_iff.mp hr).1, ?_⟩
  refine List.Pairwise.imp_of_mem ?_ hlinked.roots_nodup
  intro r r' hr hr' hne q hq hq'
  obtain ⟨hin, hnone⟩ := hlinked.root_iff.mp hr
  obtain ⟨hin', hnone'⟩ := hlinked.root_iff.mp hr'
  have hlen : (r.splitOn SLASH).length = (r'.splitOn SLASH).length :=
    (parentOf_none hnone).trans (parentOf_none hnone').symm
  have hfront := (readPaths_below localeCompare _ hlinked hin q hq).2
  have hfront' := (readPaths_below localeCompare _ hlinked hin' q hq').2
  exact hne (splitOn_injective ((List.prefix_of_prefix_length_le hfront hfront' hlen.le).eq_of_length hlen))

theorem readTree_mem (hlinked : Linked [] st) :
    p ∈ (nodesOf (readTree localeCompare st)).map FolderNode.path ↔ p ∈ st.paths := by
  rw [(readTree_paths localeCompare).mem_iff, List.mem_flatMap]
  apply Iff.intro
  · intro h
    obtain ⟨r, hr, hp⟩ := h
    exact (readPaths_below localeCompare _ hlinked (hlinked.root_iff.mp hr).1 p hp).1
  · intro h
    obtain ⟨first, rest, hsplit⟩ := List.exists_cons_of_ne_nil (List.splitOn_ne_nil SLASH p)
    have hfront : [first] <+: p.splitOn SLASH := ⟨rest, by rw [hsplit]; rfl⟩
    have hroot : (joinSegments [first]).splitOn SLASH = [first] :=
      splitOn_join (by simp) fun s hs => slash_notMem (hfront.subset hs)
    have hmem : joinSegments [first] ∈ st.paths := hlinked.prefix_mem (by simp) h hfront
    have hnone : parentOf (joinSegments [first]) = none := by
      rw [parentOf, hroot]
      rfl
    refine ⟨_, hlinked.root_iff.mpr ⟨hmem, hnone⟩,
      readPaths_complete localeCompare _ hlinked hmem h (hroot.symm ▸ hfront) ?_⟩
    have hle := depth_le h
    have hone := parentOf_none hnone
    omega

theorem readTree_sound (hlinked : Linked [] st) : ∀ n ∈ nodesOf (readTree localeCompare st), Sound st n := by
  intro n h
  obtain ⟨root, hmem, -, hn⟩ := mem_readTree localeCompare hlinked h
  exact readNode_sound localeCompare _ hlinked hmem n hn

theorem readTree_roots (hlinked : Linked [] st) : ∀ n ∈ readTree localeCompare st, parentOf n.path = none := by
  intro n h
  obtain ⟨root, hroot, hn⟩ := List.mem_flatMap.mp ((sortNodes_perm localeCompare _).subset h)
  rw [readNode_path localeCompare _ hn]
  exact (hlinked.root_iff.mp hroot).2

end

end DocVault.FolderTree
