import DocVault.RegexScan

/-!
# Words with a dash between them

The words of a text are its runs of elements that are no separators. Where each
run of separators is replaced by one dash, and the dashes at both ends are taken
away, the words are left with a dash between them.
-/

namespace Words

open Regex

variable {α : Type} {sep : α → Bool} {dash : α}

def wordsOf (sep : α → Bool) (text : List α) : List (List α) := (text.splitOnP sep).filter fun word => !word.isEmpty

/-- The text without what satisfies `p` at its end. -/
def stripEnd (p : α → Bool) (text : List α) : List α := (text.reverse.dropWhile p).reverse

/-! ## Runs of separators -/

/-- One dash for each run of separators; none for a run that is already `open`. -/
def squeeze (sep : α → Bool) (dash : α) : Bool → List α → List α
  | _, [] => []
  | inRun, a :: text =>
    if !sep a then a :: squeeze sep dash false text
    else if inRun then squeeze sep dash true text
    else dash :: squeeze sep dash true text

theorem squeeze_run {w text : List α} (hw : ∀ a ∈ w, sep a = true) :
    squeeze sep dash true (w ++ text) = squeeze sep dash true text := by
  induction w with
  | nil => rfl
  | cons a w ih =>
    rw [List.forall_mem_cons] at hw
    simp [squeeze, hw.1, ih hw.2]

theorem squeeze_start {text : List α} (h : ∀ a ∈ text.head?, sep a = false) (inRun : Bool) :
    squeeze sep dash inRun text = squeeze sep dash false text := by
  cases text with
  | nil => simp [squeeze]
  | cons a text => simp [squeeze, h a rfl]

theorem replaceAll_eq_squeeze {word : α → Bool} (text : List α) :
    replaceAll word (plus sep) (fun _ => [dash]) text = squeeze sep dash false text := by
  induction hlen : text.length using Nat.strongRecOn generalizing text with
  | ind n ih =>
    cases text with
    | nil => exact replaceAll_plus_nil
    | cons a text =>
      subst hlen
      by_cases ha : sep a = true
      · have hw : ∀ b ∈ a :: text.takeWhile sep, sep b = true :=
          List.forall_mem_cons.mpr ⟨ha, fun b hb => List.mem_takeWhile_imp hb⟩
        have hrest := head?_dropWhile sep text
        have hsplit : a :: text = (a :: text.takeWhile sep) ++ text.dropWhile sep := by
          rw [List.cons_append, List.takeWhile_append_dropWhile]
        have hshort : (text.dropWhile sep).length < (a :: text).length :=
          Nat.lt_succ_of_le (List.dropWhile_sublist sep).length_le
        rw [hsplit, replaceAll_plus_append (List.cons_ne_nil _ _) hw hrest, ih _ hshort _ rfl,
          ← squeeze_start hrest true, ← squeeze_run fun b hb => hw b (List.mem_cons_of_mem _ hb)]
        simp [squeeze, ha]
      · rw [Bool.not_eq_true] at ha
        rw [replaceAll_plus_cons ha, ih text.length (Nat.lt_succ_self _) text rfl]
        simp [squeeze, ha]

/-! ## Parts between separators -/

/-- The parts in their order, a dash behind each that is not empty and not the last. -/
def joinParts (dash : α) : List (List α) → List α
  | [] => []
  | part :: parts => part ++ (if part ≠ [] ∧ parts ≠ [] then [dash] else []) ++ joinParts dash parts

theorem squeeze_eq (text : List α) :
    squeeze sep dash true text = joinParts dash (text.splitOnP sep) ∧
    ∀ part parts, text.splitOnP sep = part :: parts →
      squeeze sep dash false text = part ++ (if parts ≠ [] then [dash] else []) ++ joinParts dash parts := by
  induction text with
  | nil => simp [squeeze, joinParts]
  | cons a text ih =>
    obtain ⟨hrun, hopen⟩ := ih
    obtain ⟨part, parts, hparts⟩ := List.exists_cons_of_ne_nil (List.splitOnP_ne_nil sep text)
    have hopen := hopen part parts hparts
    by_cases ha : sep a = true
    · simp [squeeze, ha, List.splitOnP_cons_eq_if_modifyHead, hrun, joinParts, hparts]
    · rw [Bool.not_eq_true] at ha
      simp [squeeze, ha, List.splitOnP_cons_eq_if_modifyHead, hopen, joinParts, hparts]

/-! ## Ends -/

theorem stripEnd_append (p : α → Bool) (x y : List α) :
    stripEnd p (x ++ y) = if stripEnd p y = [] then stripEnd p x else x ++ stripEnd p y := by
  unfold stripEnd
  rw [List.reverse_append, List.dropWhile_append]
  by_cases hy : y.reverse.dropWhile p = []
  · simp [hy]
  · simp [hy]

theorem stripEnd_self {p : α → Bool} {text : List α} (h : ∀ a ∈ text, p a = false) : stripEnd p text = text := by
  unfold stripEnd
  cases hrev : text.reverse with
  | nil => simpa using hrev.symm
  | cons a rest =>
    have ha : p a = false := h a (by rw [← List.mem_reverse, hrev]; exact List.mem_cons_self)
    rw [List.dropWhile_cons_of_neg (by simp [ha]), ← hrev, List.reverse_reverse]

theorem stripEnd_joinParts {p : α → Bool} (hdash : p dash = true) {parts : List (List α)}
    (h : ∀ part ∈ parts, ∀ a ∈ part, p a = false) :
    stripEnd p (joinParts dash parts) = [dash].intercalate (parts.filter fun part => !part.isEmpty) := by
  induction parts with
  | nil => simp [stripEnd, joinParts]
  | cons part parts ih =>
    rw [List.forall_mem_cons] at h
    have hpart := stripEnd_self h.1
    have hend := ih h.2
    have hfront : stripEnd p (dash :: joinParts dash parts)
        = if stripEnd p (joinParts dash parts) = [] then [] else dash :: stripEnd p (joinParts dash parts) := by
      have hone : stripEnd p [dash] = [] := by simp [stripEnd, hdash]
      have happend := stripEnd_append p [dash] (joinParts dash parts)
      rw [hone] at happend
      exact happend
    by_cases hne : part = []
    · simp [joinParts, hne, hend]
    · cases hwords : parts.filter fun part => !part.isEmpty with
      | nil =>
        rw [hwords] at hend
        have hnil : stripEnd p (joinParts dash parts) = [] := hend
        by_cases hlast : parts = []
        · simp [joinParts, hne, hlast, hpart]
        · simp [joinParts, hne, hlast, stripEnd_append, hfront, hnil, hpart, hwords]
      | cons word words =>
        rw [hwords] at hend
        have hmem : word ∈ parts.filter fun part => !part.isEmpty := by rw [hwords]; exact List.mem_cons_self
        have hlast : parts ≠ [] := List.ne_nil_of_mem (List.mem_filter.mp hmem).1
        have hword : word ≠ [] := by simpa using (List.mem_filter.mp hmem).2
        have hne' : [dash].intercalate (word :: words) ≠ [] := by
          cases words with
          | nil => simpa using hword
          | cons word' words => simp [List.intercalate_cons_cons]
        simp [joinParts, hne, hlast, stripEnd_append, hfront, hend, hne', hwords, List.intercalate_cons_cons]

theorem head_squeeze (text : List α) : ∀ a ∈ (squeeze sep dash true text).head?, sep a = false := by
  induction text with
  | nil => simp [squeeze]
  | cons a text ih =>
    by_cases ha : sep a = true
    · simpa [squeeze, ha] using ih
    · simp [squeeze, ha]

theorem dropWhile_squeeze {p : α → Bool} (hdash : p dash = true) (h : ∀ a, p a = true → sep a = true)
    (text : List α) : (squeeze sep dash false text).dropWhile p = squeeze sep dash true text := by
  have hkeep : ∀ t : List α, (∀ a ∈ t.head?, sep a = false) → t.dropWhile p = t := by
    intro t ht
    cases t with
    | nil => rfl
    | cons a t =>
      have ha : p a ≠ true := fun ha => Bool.false_ne_true ((ht a rfl).symm.trans (h a ha))
      rw [List.dropWhile_cons_of_neg ha]
  cases text with
  | nil => rfl
  | cons a text =>
    by_cases ha : sep a = true
    · have hrest : (squeeze sep dash true text).dropWhile p = squeeze sep dash true text :=
        hkeep _ (head_squeeze text)
      simp [squeeze, ha, hdash, hrest]
    · have hall : (squeeze sep dash true (a :: text)).dropWhile p = squeeze sep dash true (a :: text) :=
        hkeep _ (head_squeeze (a :: text))
      simpa [squeeze, ha] using hall

theorem mem_parts (text : List α) : ∀ part ∈ text.splitOnP sep, ∀ a ∈ part, sep a = false := by
  induction text with
  | nil => simp
  | cons a text ih =>
    obtain ⟨part, parts, hparts⟩ := List.exists_cons_of_ne_nil (List.splitOnP_ne_nil sep text)
    rw [List.splitOnP_cons_eq_if_modifyHead]
    rw [hparts] at ih ⊢
    by_cases ha : sep a = true
    · simpa [ha] using ih
    · simpa [ha] using ih

/-- Dashes for the runs of separators, without those at the ends. -/
theorem strip_replaceAll {word p : α → Bool} (hdash : p dash = true) (h : ∀ a, p a = true → sep a = true)
    (text : List α) :
    stripEnd p ((replaceAll word (plus sep) (fun _ => [dash]) text).dropWhile p)
      = [dash].intercalate (wordsOf sep text) := by
  rw [replaceAll_eq_squeeze, dropWhile_squeeze hdash h, (squeeze_eq text).1]
  apply stripEnd_joinParts hdash
  intro part hpart a ha
  have hkept := mem_parts text part hpart a ha
  rw [← Bool.not_eq_true] at hkept ⊢
  exact fun hp => hkept (h a hp)

end Words
