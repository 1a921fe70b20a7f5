import Mathlib.Data.List.Basic

/-!
# Labelled texts joined by a separator

A segment is a label with a text; segments are written one after another with
a separator between them and no escaping. `Recut` says how two sequences of
segments can be written the same: the texts agree, or the text of one reaches
over the separator and the next label of the other. `render_eq_iff` says that
there is no other way.
-/

namespace Delimited

section
variable {α : Type}

abbrev Segment (α : Type) := List α × List α

def tail (sep : α) : List (Segment α) → List α
  | [] => []
  | x :: l => sep :: (x.1 ++ (x.2 ++ tail sep l))

def render (sep : α) : List (Segment α) → List α
  | [] => []
  | x :: l => x.1 ++ (x.2 ++ tail sep l)

/-- `right`: the left text `t ++ sep :: b ++ s` holds, after `t`, what is the label of the next
segment on the right; `left` is the same with the sides exchanged. -/
inductive Recut (sep : α) : List (Segment α) → List (Segment α) → Prop
  | nil : Recut sep [] []
  | same {a s : List α} {xs ys : List (Segment α)} : Recut sep xs ys → Recut sep ((a, s) :: xs) ((a, s) :: ys)
  | right {a b s t t' : List α} {xs ys : List (Segment α)} :
      Recut sep ((b, s) :: xs) ((b, t') :: ys) →
      Recut sep ((a, t ++ sep :: (b ++ s)) :: xs) ((a, t) :: (b, t') :: ys)
  | left {a b s t t' : List α} {xs ys : List (Segment α)} :
      Recut sep ((b, t') :: xs) ((b, s) :: ys) →
      Recut sep ((a, t) :: (b, t') :: xs) ((a, t ++ sep :: (b ++ s)) :: ys)

/-- Labels that can be told apart in a rendered text: no separator in them, none a prefix of another. -/
structure Labels (sep : α) (L : List α → Prop) : Prop where
  free : ∀ a, L a → sep ∉ a
  nonempty : ∀ a, L a → a ≠ []
  prefixFree : ∀ a b, L a → L b → a <+: b → a = b

theorem render_eq_of_tail {sep : α} : ∀ {xs ys : List (Segment α)}, tail sep xs = tail sep ys →
    render sep xs = render sep ys
  | [], [], _ => rfl
  | [], _ :: _, h => by cases h
  | _ :: _, [], h => by cases h
  | _ :: _, _ :: _, h => (List.cons.inj h).2

theorem Recut.render_eq {sep : α} {xs ys : List (Segment α)} (h : Recut sep xs ys) :
    render sep xs = render sep ys := by
  induction h with
  | nil => rfl
  | @same a s xs ys h ih =>
    have ht : tail sep xs = tail sep ys := by
      cases h with
      | nil => rfl
      | same _ => exact congrArg (sep :: ·) ih
      | right _ => exact congrArg (sep :: ·) ih
      | left _ => exact congrArg (sep :: ·) ih
    simp only [render, ht]
  | right _ ih => simpa [render, tail] using ih
  | left _ ih => simpa [render, tail] using ih

section
variable {sep : α} {L : List α → Prop} (hL : Labels sep L)
include hL

theorem Labels.eq_of_append_eq {a b s t : List α} (ha : L a) (hb : L b) (h : a ++ s = b ++ t) : a = b := by
  rcases List.prefix_or_prefix_of_prefix (List.prefix_append a s) (h ▸ List.prefix_append b t) with hp | hp
  · exact hL.prefixFree a b ha hb hp
  · exact (hL.prefixFree b a hb ha hp).symm

/-- Where the texts after equal labels differ, the longer one holds the separator and the next label. -/
theorem Labels.cut {u : List α} {xs ys : List (Segment α)} (hy : ∀ y ∈ ys, L y.1)
    (hu : u ≠ []) (h : tail sep ys = u ++ tail sep xs) :
    ∃ b t' ys' w, ys = (b, t') :: ys' ∧ u = sep :: (b ++ w) ∧
      render sep ((b, w) :: xs) = render sep ((b, t') :: ys') := by
  cases ys with
  | nil => exact absurd (List.append_eq_nil_iff.mp h.symm).1 hu
  | cons y ys =>
    obtain ⟨b, t'⟩ := y
    cases u with
    | nil => exact absurd rfl hu
    | cons c u =>
      simp only [tail, List.cons_append, List.cons.injEq] at h
      obtain ⟨rfl, h⟩ := h
      rcases List.append_eq_append_iff.mp h with ⟨w, rfl, hw⟩ | ⟨w, hb, hw⟩
      · exact ⟨b, t', ys, w, rfl, rfl, by simp only [render, hw]⟩
      · cases w with
        | nil =>
          rw [List.append_nil] at hb
          exact ⟨b, t', ys, [], rfl, by rw [List.append_nil, hb], by simpa [render] using hw⟩
        | cons d w =>
          -- the label would hold the separator that `tail sep xs` starts with
          have hd : d = sep := by
            cases xs with
            | nil => simp [tail] at hw
            | cons x xs => simp only [tail, List.cons_append, List.cons.injEq] at hw; exact hw.1.symm
          refine absurd ?_ (hL.free b (hy (b, t') (List.mem_cons_self ..)))
          rw [hb, hd]; simp

theorem render_injective_recut : ∀ (xs ys : List (Segment α)), (∀ x ∈ xs, L x.1) → (∀ y ∈ ys, L y.1) →
    render sep xs = render sep ys → Recut sep xs ys
  | [], [], _, _, _ => .nil
  | [], (b, t) :: ys, _, hy, h => by
    refine absurd ?_ (hL.nonempty b (hy (b, t) (List.mem_cons_self ..)))
    exact (List.append_eq_nil_iff.mp h.symm).1
  | (a, s) :: xs, [], hx, _, h => by
    refine absurd ?_ (hL.nonempty a (hx (a, s) (List.mem_cons_self ..)))
    exact (List.append_eq_nil_iff.mp h).1
  | (a, s) :: xs, (b, t) :: ys, hx, hy, h => by
    have hab := hL.eq_of_append_eq (hx (a, s) (List.mem_cons_self ..)) (hy (b, t) (List.mem_cons_self ..)) h
    subst hab
    have hx' : ∀ x ∈ xs, L x.1 := fun x hm => hx x (List.mem_cons_of_mem _ hm)
    have hy' : ∀ y ∈ ys, L y.1 := fun y hm => hy y (List.mem_cons_of_mem _ hm)
    have hr : s ++ tail sep xs = t ++ tail sep ys := List.append_cancel_left h
    rcases List.append_eq_append_iff.mp hr with ⟨u, rfl, hu⟩ | ⟨u, rfl, hu⟩
    · by_cases hn : u = []
      · subst hn
        rw [List.append_nil]
        exact .same (render_injective_recut xs ys hx' hy' (render_eq_of_tail hu))
      · obtain ⟨c, s', xs', w, rfl, rfl, hw⟩ := hL.cut hx' hn hu
        refine .left (render_injective_recut ((c, s') :: xs') ((c, w) :: ys) hx' ?_ hw.symm)
        intro y hm
        cases hm with
        | head => exact hx' (c, s') (List.mem_cons_self ..)
        | tail _ hm => exact hy' y hm
    · by_cases hn : u = []
      · subst hn
        rw [List.append_nil]
        exact .same (render_injective_recut xs ys hx' hy' (render_eq_of_tail hu.symm))
      · obtain ⟨c, t', ys', w, rfl, rfl, hw⟩ := hL.cut hy' hn hu
        refine .right (render_injective_recut ((c, w) :: xs) ((c, t') :: ys') ?_ hy' hw)
        intro x hm
        cases hm with
        | head => exact hy' (c, t') (List.mem_cons_self ..)
        | tail _ hm => exact hx' x hm
termination_by xs ys => xs.length + ys.length

theorem render_eq_iff {xs ys : List (Segment α)} (hx : ∀ x ∈ xs, L x.1) (hy : ∀ y ∈ ys, L y.1) :
    render sep xs = render sep ys ↔ Recut sep xs ys :=
  ⟨render_injective_recut hL xs ys hx hy, Recut.render_eq⟩

end

theorem cut_injective {sep : α} : ∀ {s t x y : List α}, sep ∉ s → sep ∉ t →
    s ++ sep :: x = t ++ sep :: y → s = t ∧ x = y
  | [], [], _, _, _, _, h => ⟨rfl, by simpa using h⟩
  | [], b :: t, _, _, _, ht, h => by
    obtain ⟨rfl, _⟩ := List.cons.inj h
    exact absurd (List.mem_cons_self ..) ht
  | a :: s, [], _, _, hs, _, h => by
    obtain ⟨rfl, _⟩ := List.cons.inj h
    exact absurd (List.mem_cons_self ..) hs
  | a :: s, b :: t, x, y, hs, ht, h => by
    simp only [List.cons_append, List.cons.injEq] at h
    obtain ⟨rfl, h⟩ := h
    obtain ⟨rfl, hxy⟩ := cut_injective (fun hm => hs (List.mem_cons_of_mem _ hm))
      (fun hm => ht (List.mem_cons_of_mem _ hm)) h
    exact ⟨rfl, hxy⟩

end

end Delimited
