import Mathlib.Data.List.Infix

/-!
# Replacing words

Words of a text are replaced by names, one word after the other through the
whole text, or all of them in one pass from left to right that takes the longest
word at each place. `foldl_replaceWord`: the words replaced so far are those the one pass
takes, as long as each word, when its turn comes, is found there and nowhere else.
-/

namespace Rewriting

variable {α : Type} [DecidableEq α]

/-! ## One word -/

/-- `text.split(word)` of a word that is not empty; `skip` elements belong to the last separator. -/
def splitFrom (word : List α) : Nat → List α → List (List α)
  | _, [] => [[]]
  | skip + 1, _ :: rest => splitFrom word skip rest
  | 0, a :: rest =>
    if word.isPrefixOf (a :: rest) then [] :: splitFrom word (word.length - 1) rest
    else match splitFrom word 0 rest with
      | [] => [[a]]
      | part :: parts => (a :: part) :: parts

/-- `text.split(word)`; the empty word cuts between all elements. -/
def split (word text : List α) : List (List α) :=
  if word = [] then text.map fun a => [a] else splitFrom word 0 text

/-- `text.split(word).join(name)` -/
def replaceWord (word name text : List α) : List α := name.intercalate (split word text)

section
variable {word name rest : List α}

theorem splitFrom_ne_nil (skip : Nat) (text : List α) : splitFrom word skip text ≠ [] := by
  induction text generalizing skip with
  | nil => simp [splitFrom]
  | cons a rest ih =>
    cases skip with
    | succ skip => exact ih skip
    | zero =>
      rw [splitFrom]
      split
      · simp
      · split
        · simp
        · simp

theorem splitFrom_skip (w rest : List α) : splitFrom word w.length (w ++ rest) = splitFrom word 0 rest := by
  induction w with
  | nil => rfl
  | cons a w ih => exact ih

theorem replaceWord_nil : replaceWord word name [] = [] := by
  by_cases hne : word = []
  · simp [replaceWord, split, hne]
  · simp [replaceWord, split, hne, splitFrom]

theorem replaceWord_match (hne : word ≠ []) :
    replaceWord word name (word ++ rest) = name ++ replaceWord word name rest := by
  obtain ⟨a, w, rfl⟩ := List.exists_cons_of_ne_nil hne
  have hfront : (a :: w).isPrefixOf (a :: (w ++ rest)) = true :=
    List.isPrefixOf_iff_prefix.mpr (List.prefix_append (a :: w) rest)
  have hsplit : splitFrom (a :: w) 0 rest ≠ [] := splitFrom_ne_nil 0 rest
  obtain ⟨part, parts, hparts⟩ := List.exists_cons_of_ne_nil hsplit
  rw [replaceWord, replaceWord, split, split, if_neg hne, if_neg hne, List.cons_append, splitFrom, if_pos hfront,
    List.length_cons, Nat.add_sub_cancel, splitFrom_skip, hparts, List.intercalate_cons_cons, List.nil_append]

theorem replaceWord_cons {a : α} (h : ¬word <+: a :: rest) :
    replaceWord word name (a :: rest) = a :: replaceWord word name rest := by
  have hne : word ≠ [] := fun hnil => h (hnil ▸ List.nil_prefix)
  have hno : word.isPrefixOf (a :: rest) = false := by
    rw [← Bool.not_eq_true, List.isPrefixOf_iff_prefix]
    exact h
  have hsplit : splitFrom word 0 rest ≠ [] := splitFrom_ne_nil 0 rest
  obtain ⟨part, parts, hparts⟩ := List.exists_cons_of_ne_nil hsplit
  rw [replaceWord, replaceWord, split, split, if_neg hne, if_neg hne, splitFrom, hno,
    if_neg Bool.false_ne_true, hparts]
  cases parts with
  | nil => simp
  | cons part' parts => simp [List.intercalate_cons_cons]

theorem replaceWord_absent {text : List α} (h : ¬word <:+: text) : replaceWord word name text = text := by
  induction text with
  | nil => exact replaceWord_nil
  | cons a text ih =>
    rw [replaceWord_cons fun hfront => h hfront.isInfix, ih fun hrest =>
      h (hrest.trans (List.suffix_cons a text).isInfix)]

end

/-! ## All words in one pass -/

def longest : List (List α) → List α → Option (List α)
  | [], _ => none
  | word :: words, text =>
    if word.isPrefixOf text then
      match longest words text with
      | none => some word
      | some other => if word.length < other.length then some other else some word
    else longest words text

/-- The elements and the words of a text, from left to right; `skip` elements belong to the last word. -/
def pieces (words : List (List α)) : Nat → List α → List (α ⊕ List α)
  | _, [] => []
  | skip + 1, _ :: rest => pieces words skip rest
  | 0, a :: rest =>
    match longest words (a :: rest) with
    | none => .inl a :: pieces words 0 rest
    | some word => .inr word :: pieces words (word.length - 1) rest

omit [DecidableEq α] in
def render (name : List α → List α) (l : List (α ⊕ List α)) : List α := l.flatMap (Sum.elim (fun a => [a]) name)

def onePass (words : List (List α)) (name : List α → List α) (text : List α) : List α :=
  render name (pieces words 0 text)

section
variable {words : List (List α)} {text word : List α} {name : List α → List α}

theorem longest_none (h : longest words text = none) : ∀ word ∈ words, ¬word <+: text := by
  induction words with
  | nil => simp
  | cons word words ih =>
    rw [longest] at h
    by_cases hword : word.isPrefixOf text = true
    · rw [if_pos hword] at h
      split at h
      · cases h
      · split at h <;> cases h
    · rw [if_neg hword] at h
      rw [List.isPrefixOf_iff_prefix] at hword
      exact List.forall_mem_cons.mpr ⟨hword, ih h⟩

theorem longest_some (h : longest words text = some word) :
    word ∈ words ∧ word <+: text ∧ ∀ other ∈ words, other <+: text → other.length ≤ word.length := by
  induction words generalizing word with
  | nil => cases h
  | cons w words ih =>
    rw [longest] at h
    by_cases hw : w.isPrefixOf text = true
    · have hfront := List.isPrefixOf_iff_prefix.mp hw
      rw [if_pos hw] at h
      cases hrest : longest words text with
      | none =>
        rw [hrest] at h
        obtain rfl := Option.some.inj h
        refine ⟨List.mem_cons_self, hfront,
          List.forall_mem_cons.mpr ⟨fun _ => Nat.le_refl _, fun other ho hp => ?_⟩⟩
        exact absurd hp (longest_none hrest other ho)
      | some v =>
        obtain ⟨hv, hvtext, hall⟩ := ih hrest
        rw [hrest] at h
        dsimp only at h
        split at h
        · rename_i hlt
          obtain rfl := Option.some.inj h
          exact ⟨List.mem_cons_of_mem _ hv, hvtext, List.forall_mem_cons.mpr ⟨fun _ => Nat.le_of_lt hlt, hall⟩⟩
        · rename_i hge
          obtain rfl := Option.some.inj h
          refine ⟨List.mem_cons_self, hfront,
            List.forall_mem_cons.mpr ⟨fun _ => Nat.le_refl _, fun other ho hp => ?_⟩⟩
          exact (hall other ho hp).trans (Nat.le_of_not_lt hge)
    · rw [if_neg hw] at h
      obtain ⟨hv, hvtext, hall⟩ := ih h
      rw [List.isPrefixOf_iff_prefix] at hw
      exact ⟨List.mem_cons_of_mem _ hv, hvtext, List.forall_mem_cons.mpr ⟨fun hp => absurd hp hw, hall⟩⟩

theorem pieces_skip (w rest : List α) : pieces words w.length (w ++ rest) = pieces words 0 rest := by
  induction w with
  | nil => rfl
  | cons a w ih => exact ih

theorem pieces_none {a : α} (h : longest words (a :: text) = none) :
    pieces words 0 (a :: text) = .inl a :: pieces words 0 text := by rw [pieces, h]

theorem pieces_word (hne : word ≠ []) (h : longest words (word ++ text) = some word) :
    pieces words 0 (word ++ text) = .inr word :: pieces words 0 text := by
  obtain ⟨a, word, rfl⟩ := List.exists_cons_of_ne_nil hne
  rw [List.cons_append] at h ⊢
  rw [pieces, h]
  exact congrArg _ (pieces_skip word text)

theorem render_pieces (hne : [] ∉ words) : render id (pieces words 0 text) = text := by
  induction hlen : text.length using Nat.strongRecOn generalizing text with
  | ind n ih =>
    cases text with
    | nil => rfl
    | cons a rest =>
      subst hlen
      cases hlong : longest words (a :: rest) with
      | none =>
        rw [pieces_none hlong]
        exact congrArg (a :: ·) (ih rest.length (Nat.lt_succ_self _) rfl)
      | some word =>
        obtain ⟨hmem, ⟨rest', hword⟩, -⟩ := longest_some hlong
        have hword' : word ≠ [] := fun hnil => hne (hnil ▸ hmem)
        have hshort : rest'.length < (a :: rest).length := by
          rw [← hword, List.length_append]
          exact Nat.lt_add_of_pos_left (List.length_pos_iff.mpr hword')
        rw [← hword] at hlong ⊢
        rw [pieces_word hword' hlong]
        exact congrArg (word ++ ·) (ih rest'.length hshort rfl)

theorem mem_of_mem_pieces {skip : Nat} (h : .inr word ∈ pieces words skip text) : word ∈ words := by
  induction text generalizing skip with
  | nil => cases skip <;> cases h
  | cons a rest ih =>
    cases skip with
    | succ skip => exact ih h
    | zero =>
      rw [pieces] at h
      cases hlong : longest words (a :: rest) with
      | none =>
        rw [hlong] at h
        exact ih ((List.mem_cons.mp h).resolve_left (by simp))
      | some other =>
        rw [hlong] at h
        obtain heq | h := List.mem_cons.mp h
        · injection heq with heq
          exact heq ▸ (longest_some hlong).1
        · exact ih h

end

/-! ## One word after the other -/

/-- The pieces of a text with the places of one word left, and all others written out. -/
def only (name : List α → List α) (word : List α) (l : List (α ⊕ List α)) : List (α ⊕ List α) :=
  l.flatMap (Sum.elim (fun a => [.inl a]) fun v => if v = word then [.inr word] else (name v).map .inl)

def naming (done : List (List α)) (name : List α → List α) (word : List α) : List α :=
  if word ∈ done then name word else word

/-- Read for `word` alone, the text `l` stands for has it where `l` has it and nowhere else. -/
def FoundIn (done : List (List α)) (name : List α → List α) (l : List (α ⊕ List α)) (word : List α) : Prop :=
  pieces [word] 0 (render (naming done name) l) = only (naming done name) word l

instance (done : List (List α)) (name : List α → List α) (l : List (α ⊕ List α)) (word : List α) :
    Decidable (FoundIn done name l word) :=
  inferInstanceAs (Decidable (_ = _))

theorem foundIn_congr {done done' : List (List α)} {name : List α → List α} {l : List (α ⊕ List α)} {word : List α}
    (h : ∀ v, v ∈ done ↔ v ∈ done') : FoundIn done name l word ↔ FoundIn done' name l word := by
  have hnaming : naming done name = naming done' name := by
    funext v
    simp only [naming, h v]
  rw [FoundIn, FoundIn, hnaming]

section
variable {words done : List (List α)} {text word name' : List α} {name : List α → List α} {l : List (α ⊕ List α)}

theorem replaceWord_eq (hne : word ≠ []) :
    replaceWord word name' text = render (fun _ => name') (pieces [word] 0 text) := by
  induction hlen : text.length using Nat.strongRecOn generalizing text with
  | ind n ih =>
    cases text with
    | nil => exact replaceWord_nil
    | cons a rest =>
      subst hlen
      by_cases hword : word <+: a :: rest
      · have hlong : longest [word] (a :: rest) = some word := by
          simp [longest, List.isPrefixOf_iff_prefix.mpr hword]
        obtain ⟨rest', hrest⟩ := hword
        have hshort : rest'.length < (a :: rest).length := by
          rw [← hrest, List.length_append]
          exact Nat.lt_add_of_pos_left (List.length_pos_iff.mpr hne)
        rw [← hrest] at hlong ⊢
        rw [replaceWord_match hne, pieces_word hne hlong, ih rest'.length hshort rfl]
        rfl
      · have hlong : longest [word] (a :: rest) = none := by
          simpa [longest, List.isPrefixOf_iff_prefix] using hword
        rw [pieces_none hlong, replaceWord_cons hword, ih rest.length (Nat.lt_succ_self _) rfl]
        rfl

theorem render_only : render (fun _ => name') (only name word l) =
    render (fun v => if v = word then name' else name v) l := by
  induction l with
  | nil => rfl
  | cons piece l ih =>
    cases piece with
    | inl a => exact congrArg (a :: ·) ih
    | inr v =>
      have hcons : only name word (.inr v :: l)
          = (if v = word then [.inr word] else (name v).map .inl) ++ only name word l := rfl
      have hlit (x : List α) : render (fun _ => name') (x.map .inl) = x := by simp [render, List.flatMap_map]
      by_cases hv : v = word <;> simp_all [render]

theorem only_congr {f g : List α → List α} (h : ∀ v, .inr v ∈ l → f v = g v) : only f word l = only g word l := by
  unfold only
  apply List.flatMap_congr
  intro piece hpiece
  cases piece with
  | inl a => rfl
  | inr v => simp only [Sum.elim_inr, h v hpiece]

theorem naming_snoc (v : List α) :
    naming (done ++ [word]) name v = if v = word then name word else naming done name v := by
  by_cases hv : v = word
  · simp [naming, hv]
  · simp [naming, hv]

theorem replaceWord_step (hne : word ≠ []) (h : FoundIn done name l word) :
    replaceWord word (name word) (render (naming done name) l) = render (naming (done ++ [word]) name) l := by
  rw [replaceWord_eq hne, h, render_only]
  exact congrArg (render · l) (funext fun v => (naming_snoc v).symm)

omit [DecidableEq α] in
theorem render_congr {f g : List α → List α} (h : ∀ v, .inr v ∈ l → f v = g v) : render f l = render g l := by
  unfold render
  apply List.flatMap_congr
  intro piece hpiece
  cases piece with
  | inl a => rfl
  | inr v => exact h v hpiece

theorem naming_none : naming [] name = id := funext fun _ => if_neg List.not_mem_nil

theorem foldl_replaceWord {before : List (List α)} (hne : ∀ w ∈ before, w ≠ [])
    (h : ∀ done w after, before = done ++ w :: after →
      done.foldl (fun t w => replaceWord w (name w) t) (render id l) = render (naming done name) l →
      FoundIn done name l w) :
    before.foldl (fun t w => replaceWord w (name w) t) (render id l) = render (naming before name) l := by
  induction before using List.reverseRecOn with
  | nil => rw [naming_none]; rfl
  | append_singleton before w ih =>
    have hstart := ih (fun v hv => hne v (List.mem_append_left _ hv)) fun done v after hsplit =>
      h done v (after ++ [w]) (by rw [hsplit, List.append_assoc]; rfl)
    rw [List.foldl_append, hstart]
    exact replaceWord_step (hne w (by simp)) (h before w [] rfl hstart)

end

end Rewriting
