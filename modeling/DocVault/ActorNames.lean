import DocVault.DocumentSearch
import DocVault.Rewriting

/-!
# Actor names in evidence labels

`resolveActorIdsInText` replaces the listed actor ids of a label by display names,
one id after the other through the whole text. An id of a later round is also
looked for in the names put in before.
-/

namespace DocVault.EvidenceCenter

open Rewriting

structure UserDisplayName where
  displayName : Text
  username : Text

abbrev UserDisplayNameMap := Text → Option UserDisplayName

def resolveActorId (displayNames : UserDisplayNameMap) (resolved actorId : Text) : Text :=
  match (displayNames actorId).map (·.displayName) with
  | none => resolved
  | some name => if !name.isEmpty && Search.includes resolved actorId then replaceWord actorId name resolved
      else resolved

def resolveActorIdsInText (text : Text) (actorIds : List Text) (displayNames : Option UserDisplayNameMap) : Text :=
  match displayNames with
  | none => text
  | some displayNames => if actorIds.length = 0 then text else actorIds.foldl (resolveActorId displayNames) text

/-! ## Named ids -/

def nameOf (displayNames : Option UserDisplayNameMap) (actorId : Text) : Text :=
  ((displayNames.bind (· actorId)).map (·.displayName)).getD []

def namedIds (actorIds : List Text) (displayNames : Option UserDisplayNameMap) : List Text :=
  actorIds.filter fun actorId => !(nameOf displayNames actorId).isEmpty

section
variable {text : Text} {actorIds : List Text} {displayNames : Option UserDisplayNameMap}

theorem mem_namedIds {actorId : Text} :
    actorId ∈ namedIds actorIds displayNames ↔ actorId ∈ actorIds ∧ nameOf displayNames actorId ≠ [] := by
  simp [namedIds]

theorem namedIds_subset {before : List Text} (h : ∀ id ∈ before, id ∈ actorIds) :
    ∀ id ∈ namedIds before displayNames, id ∈ namedIds actorIds displayNames := by
  intro id hid
  have hid := mem_namedIds.mp hid
  exact mem_namedIds.mpr ⟨h id hid.1, hid.2⟩

theorem namedIds_eq_self (h : ∀ id ∈ actorIds, nameOf displayNames id ≠ []) :
    namedIds actorIds displayNames = actorIds := by
  apply List.filter_eq_self.mpr
  intro id hid
  simpa using h id hid

theorem resolve_eq : resolveActorIdsInText text actorIds displayNames =
    (namedIds actorIds displayNames).foldl (fun t id => replaceWord id (nameOf displayNames id) t) text := by
  cases displayNames with
  | none => simp [resolveActorIdsInText, namedIds, nameOf]
  | some names =>
    have hround (t id : Text) : resolveActorId names t id
        = if !(nameOf (some names) id).isEmpty then replaceWord id (nameOf (some names) id) t else t := by
      rw [resolveActorId, nameOf, Option.bind_some]
      cases (names id).map (·.displayName) with
      | none => rfl
      | some name =>
        by_cases hin : id <:+: t
        · simp [Search.includes, hin]
        · simp [Search.includes, hin, replaceWord_absent hin]
    have hloop : actorIds.foldl (resolveActorId names) text
        = (namedIds actorIds (some names)).foldl (fun t id => replaceWord id (nameOf (some names) id) t) text := by
      rw [namedIds, List.foldl_filter]
      exact congrArg (fun f => actorIds.foldl f text) (funext fun t => funext fun id => hround t id)
    rw [resolveActorIdsInText, hloop]
    cases actorIds with
    | nil => rfl
    | cons actorId actorIds => rfl

end

/-! ## One pass over the label -/

def idPlaces (text : Text) (actorIds : List Text) (displayNames : Option UserDisplayNameMap) : List (Nat ⊕ Text) :=
  pieces (namedIds actorIds displayNames) 0 text

/-- In every order of the ids the label is that of the one pass, and an id of the
order is replaced at its places and nowhere else. -/
def NamedInOnePass (text : Text) (actorIds : List Text) (displayNames : Option UserDisplayNameMap) : Prop :=
  ∀ order : List Text, order.Perm actorIds →
    resolveActorIdsInText text order displayNames
      = onePass (namedIds actorIds displayNames) (nameOf displayNames) text ∧
    ∀ before w after, order = before ++ w :: after → nameOf displayNames w ≠ [] →
      pieces [w] 0 (resolveActorIdsInText text before displayNames)
        = only (naming before (nameOf displayNames)) w (idPlaces text actorIds displayNames)

/-- Whatever other ids have their names at their places, an id is found at its places and nowhere else. -/
def IdsApart (text : Text) (actorIds : List Text) (displayNames : Option UserDisplayNameMap) : Prop :=
  ∀ done ⊆ namedIds actorIds displayNames, ∀ w ∈ namedIds actorIds displayNames, w ∉ done →
    FoundIn done (nameOf displayNames) (idPlaces text actorIds displayNames) w

section
variable {text : Text} {actorIds order : List Text} {displayNames : Option UserDisplayNameMap}

theorem mem_namedIds_of_places {w : Text} (h : .inr w ∈ idPlaces text actorIds displayNames) :
    w ∈ namedIds actorIds displayNames := mem_of_mem_pieces h

theorem render_places (hne : [] ∉ actorIds) : render id (idPlaces text actorIds displayNames) = text :=
  render_pieces fun h => hne (mem_namedIds.mp h).1

theorem ne_nil_of_mem {w : Text} (hne : [] ∉ actorIds) (h : w ∈ namedIds actorIds displayNames) : w ≠ [] :=
  fun hnil => hne (hnil ▸ (mem_namedIds.mp h).1)

/-- The loop over some of the ids, each of them found at its places. -/
theorem resolve_before {before : List Text} (hne : [] ∉ actorIds) (hsub : ∀ id ∈ before, id ∈ actorIds)
    (h : ∀ done w after, namedIds before displayNames = done ++ w :: after →
      done.foldl (fun t id => replaceWord id (nameOf displayNames id) t) text
        = render (naming done (nameOf displayNames)) (idPlaces text actorIds displayNames) →
      FoundIn done (nameOf displayNames) (idPlaces text actorIds displayNames) w) :
    resolveActorIdsInText text before displayNames
      = render (naming (namedIds before displayNames) (nameOf displayNames))
        (idPlaces text actorIds displayNames) := by
  have htext : render id (idPlaces text actorIds displayNames) = text := render_places hne
  have hrun : (namedIds before displayNames).foldl (fun t id => replaceWord id (nameOf displayNames id) t)
      (render id (idPlaces text actorIds displayNames))
        = render (naming (namedIds before displayNames) (nameOf displayNames))
          (idPlaces text actorIds displayNames) :=
    foldl_replaceWord (fun id hid => ne_nil_of_mem hne (namedIds_subset hsub id hid)) (by rwa [htext])
  rw [resolve_eq, ← hrun, htext]

theorem only_named {before : List Text} {w : Text} :
    only (naming before (nameOf displayNames)) w (idPlaces text actorIds displayNames)
      = only (naming (namedIds before displayNames) (nameOf displayNames)) w
        (idPlaces text actorIds displayNames) := by
  apply only_congr
  intro v hv
  have hnamed := (mem_namedIds.mp (mem_namedIds_of_places hv)).2
  simp [naming, mem_namedIds, hnamed]

/-- Ids that are apart are named at their places, in any order. -/
theorem resolve_of_apart (hne : [] ∉ actorIds) (hnodup : actorIds.Nodup)
    (hapart : IdsApart text actorIds displayNames)
    {before after : List Text} (hperm : (before ++ after).Perm actorIds) :
    resolveActorIdsInText text before displayNames
      = render (naming (namedIds before displayNames) (nameOf displayNames))
        (idPlaces text actorIds displayNames) := by
  have hnodup' : before.Nodup := (List.nodup_append.mp (hperm.nodup_iff.mpr hnodup)).1
  have hin (id : Text) (hid : id ∈ before) : id ∈ actorIds := hperm.mem_iff.mp (List.mem_append_left _ hid)
  apply resolve_before hne hin
  intro done w after' hsplit _
  have hsub (id : Text) (hid : id ∈ done ++ w :: after') : id ∈ namedIds actorIds displayNames :=
    namedIds_subset hin id (hsplit ▸ hid)
  have hdone : (done ++ w :: after').Nodup := hsplit ▸ hnodup'.filter _
  exact hapart done (fun id hid => hsub id (List.mem_append_left _ hid)) w (hsub w (by simp))
    fun hw => (List.nodup_append.mp hdone).2.2 w hw w List.mem_cons_self rfl

theorem named_of_apart (hne : [] ∉ actorIds) (hnodup : actorIds.Nodup)
    (hapart : IdsApart text actorIds displayNames) : NamedInOnePass text actorIds displayNames := by
  intro order hperm
  refine ⟨?_, ?_⟩
  · have hperm' : (order ++ []).Perm actorIds := by rwa [List.append_nil]
    rw [resolve_of_apart hne hnodup hapart hperm']
    apply render_congr
    intro v hv
    have hv := mem_namedIds.mp (mem_namedIds_of_places hv)
    exact if_pos (mem_namedIds.mpr ⟨hperm.mem_iff.mpr hv.1, hv.2⟩)
  · intro before w after horder hw
    subst horder
    have hsub : ∀ id ∈ namedIds before displayNames, id ∈ namedIds actorIds displayNames :=
      namedIds_subset fun id hid => hperm.mem_iff.mp (List.mem_append_left _ hid)
    have hnodup' := List.nodup_append.mp (hperm.nodup_iff.mpr hnodup)
    have hnot : w ∉ namedIds before displayNames := fun hin =>
      hnodup'.2.2 w (mem_namedIds.mp hin).1 w List.mem_cons_self rfl
    have hmem : w ∈ namedIds actorIds displayNames := mem_namedIds.mpr ⟨hperm.mem_iff.mp (by simp), hw⟩
    rw [resolve_of_apart hne hnodup hapart hperm, only_named]
    exact hapart _ hsub w hmem hnot

theorem exists_order {done : List Text} {w : Text} (hw : w ∈ actorIds) (hnot : w ∉ done) :
    ∃ after, (actorIds.filter (done.contains ·) ++ w :: after).Perm actorIds := by
  have hrest : w ∈ actorIds.filter (!done.contains ·) := by simp [hw, hnot]
  refine ⟨(actorIds.filter (!done.contains ·)).erase w, ?_⟩
  exact ((List.perm_cons_erase hrest).symm.append_left _).trans (List.filter_append_perm _ _)

theorem apart_of_named (hne : [] ∉ actorIds) (hall : NamedInOnePass text actorIds displayNames) :
    IdsApart text actorIds displayNames := by
  intro done hdone w hw hnot
  obtain ⟨hmem, hnamed⟩ := mem_namedIds.mp hw
  obtain ⟨after, hperm⟩ := exists_order hmem hnot
  obtain ⟨-, hplaces⟩ := hall _ hperm
  -- The ids of `done`, in the order in which they are listed.
  generalize hbefore : actorIds.filter (done.contains ·) = before at hperm hplaces
  have hiff (id : Text) : id ∈ before ↔ id ∈ done := by
    have hlisted (hid : id ∈ done) := (mem_namedIds.mp (hdone hid)).1
    rw [← hbefore]
    simpa using hlisted
  have hbefore' (id : Text) (hid : id ∈ before) : nameOf displayNames id ≠ [] :=
    (mem_namedIds.mp (hdone ((hiff id).mp hid))).2
  have hself : namedIds before displayNames = before := namedIds_eq_self hbefore'
  have hrun : resolveActorIdsInText text before displayNames
      = render (naming before (nameOf displayNames)) (idPlaces text actorIds displayNames) := by
    rw [resolve_before hne fun id hid => hperm.mem_iff.mp (List.mem_append_left _ hid), hself]
    intro first v last hsplit htext
    rw [hself] at hsplit
    have hself' : namedIds first displayNames = first :=
      namedIds_eq_self fun id hid => hbefore' id (by rw [hsplit]; exact List.mem_append_left _ hid)
    have hat := hplaces first v (last ++ w :: after) (by rw [hsplit]; simp) (hbefore' v (by rw [hsplit]; simp))
    rw [resolve_eq, hself', htext] at hat
    exact hat
  have hnaming : naming done (nameOf displayNames) = naming before (nameOf displayNames) := by
    funext v
    simp only [naming, hiff]
  have hat := hplaces before w after rfl hnamed
  rw [hrun] at hat
  rw [FoundIn, hnaming]
  exact hat

end

/-! ## When the order makes no difference -/

theorem names_order_free_iff (text : Text) (actorIds : List Text) (displayNames : Option UserDisplayNameMap)
    (hne : [] ∉ actorIds) (hnodup : actorIds.Nodup) :
    NamedInOnePass text actorIds displayNames ↔ IdsApart text actorIds displayNames :=
  Iff.intro (apart_of_named hne) (named_of_apart hne hnodup)

def apartNames (actorId : Text) : Option UserDisplayName :=
  if actorId = [117, 49] then some { displayName := [65, 110, 110], username := [97] }
  else if actorId = [117, 50] then some { displayName := [66, 111, 98], username := [98] }
  else none

theorem of_two {done : List Text} {v w : Text} (hdone : done ⊆ [v, w]) (hnot : v ∉ done) :
    (∀ id, id ∈ done ↔ id ∈ [w]) ∨ ∀ id, id ∈ done ↔ id ∈ [] := by
  have hone (id : Text) (hid : id ∈ done) : id = w := by
    obtain rfl | h := List.mem_cons.mp (hdone hid)
    · exact absurd hid hnot
    · exact List.mem_singleton.mp h
  by_cases hw : w ∈ done
  · exact .inl fun id =>
      ⟨fun hid => List.mem_singleton.mpr (hone id hid), fun hid => List.mem_singleton.mp hid ▸ hw⟩
  · exact .inr fun id => ⟨fun hid => absurd (hone id hid ▸ hid) hw, nofun⟩

theorem apartNames_apart :
    IdsApart [117, 49, 32, 117, 50, 32, 117, 49] [[117, 49], [117, 50]] (some apartNames) := by
  intro done hdone w hw hnot
  rw [show namedIds [[117, 49], [117, 50]] (some apartNames) = [[117, 49], [117, 50]] by decide] at hdone hw
  obtain rfl | hw := List.mem_cons.mp hw
  · rcases of_two hdone hnot with h | h <;> rw [foundIn_congr h] <;> decide
  · obtain rfl := List.mem_singleton.mp hw
    have hswap : done ⊆ [[117, 50], [117, 49]] := fun id hid => (List.Perm.swap ..).subset (hdone hid)
    rcases of_two hswap hnot with h | h <;> rw [foundIn_congr h] <;> decide

theorem names_order_free_sample :
    NamedInOnePass [117, 49, 32, 117, 50, 32, 117, 49] [[117, 49], [117, 50]] (some apartNames) := by
  have hne : ([] : Text) ∉ [[117, 49], [117, 50]] := by simp
  have hnodup : ([[117, 49], [117, 50]] : List Text).Nodup := by decide
  exact (names_order_free_iff _ _ _ hne hnodup).mpr apartNames_apart

def exampleNames (actorId : Text) : Option UserDisplayName :=
  if actorId = [97] then some { displayName := [98], username := [97] }
  else if actorId = [98] then some { displayName := [99], username := [98] }
  else none

/-- The label "a": with the ids in this order the name put in for the first is itself replaced. -/
theorem name_rewritten :
    ¬ ∀ (text : Text) (actorIds : List Text) (displayNames : Option UserDisplayNameMap),
      [] ∉ actorIds → actorIds.Nodup →
      ∀ order : List Text, order.Perm actorIds →
        resolveActorIdsInText text order displayNames = resolveActorIdsInText text actorIds displayNames ∧
        resolveActorIdsInText text order displayNames =
          onePass (namedIds actorIds displayNames) (nameOf displayNames) text := by
  intro h
  have hsame := (h [97] [[97], [98]] (some exampleNames) (by simp) (by simp) [[97], [98]] (List.Perm.refl _)).2
  revert hsame
  decide

end DocVault.EvidenceCenter
