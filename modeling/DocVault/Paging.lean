import Mathlib.Data.List.Sort

/-!
# Pages of a sorted collection

Every page of a collection is cut from an arrangement of its own: a sort by an
order that does not tell all elements apart may arrange them anew each time.
`pages_iff`: the pages hold every element once, however they are arranged,
exactly when no two elements that the order does not tell apart could be on
different pages.
-/

namespace Paging

section
variable {α : Type} (r : α → α → Prop)

/-- An order of the elements of `l` that a sort by `r` may give. -/
structure Arranged (s l : List α) : Prop where
  perm : s.Perm l
  sorted : s.Pairwise r

def page (size k : Nat) (s : List α) : List α := (s.drop (k * size)).take size

def pages (size n : Nat) (s : Nat → List α) : List α := (List.range n).flatMap fun k => page size k (s k)

def pageCount (size total : Nat) : Nat := (total + size - 1) / size

variable [DecidableRel r]

/-- How many elements are in front of `a` in every arrangement. -/
def ahead (l : List α) (a : α) : Nat := l.countP fun x => ¬ r a x

def upTo (l : List α) (a : α) : Nat := l.countP fun x => r x a

/-- The positions that different elements may swap are all on one page. -/
def Unsplit (size : Nat) (l : List α) : Prop :=
  ∀ a ∈ l, ∀ b ∈ l, r a b → r b a → a ≠ b → ahead r l a / size = (upTo r l a - 1) / size

/-- Up to the end of any page, all arrangements have the same elements. -/
def Agree (size : Nat) (l : List α) : Prop :=
  ∀ s t, Arranged r s l → Arranged r t l → ∀ j, (s.take (j * size)).Perm (t.take (j * size))

end

section
variable {α : Type} {size : Nat}

/-! ## Pages in a row -/

theorem pages_succ (n : Nat) (s : Nat → List α) : pages size (n + 1) s = pages size n s ++ page size n (s n) := by
  rw [pages, List.range_succ, List.flatMap_append, List.flatMap_singleton]
  rfl

theorem take_page (n : Nat) (s : List α) : s.take (n * size) ++ page size n s = s.take ((n + 1) * size) := by
  rw [page, Nat.succ_mul, List.take_add]

theorem pages_const (n : Nat) {σ : Nat → List α} {s : List α} (h : ∀ k < n, σ k = s) :
    pages size n σ = s.take (n * size) := by
  induction n with
  | zero => simp [pages]
  | succ n ih => rw [pages_succ, ih fun k hk => h k (Nat.lt_succ_of_lt hk), h n n.lt_succ_self, take_page]

theorem pages_switch (j n : Nat) (s t : List α) :
    pages size (j + n) (fun k => if k < j then s
      else t) = s.take (j * size) ++ (t.drop (j * size)).take (n * size) := by
  induction n with
  | zero => simpa using pages_const j fun k hk => if_pos hk
  | succ n ih =>
    rw [← Nat.add_assoc, pages_succ, ih, if_neg (by omega), List.append_assoc, page, Nat.succ_mul, List.take_add,
      List.drop_drop, Nat.add_mul]

theorem le_pageCount (hsize : 0 < size) (total : Nat) : total ≤ pageCount size total * size := by
  have hdiv := Nat.div_add_mod (total + size - 1) size
  have hmod := Nat.mod_lt (total + size - 1) hsize
  rw [Nat.mul_comm] at hdiv
  unfold pageCount
  omega

theorem lt_pageCount (hsize : 0 < size) {j total : Nat} (h : j * size < total) : j < pageCount size total := by
  have hle := le_pageCount hsize total
  exact Nat.lt_of_mul_lt_mul_right (Nat.lt_of_lt_of_le h hle)

variable {r : α → α → Prop} {l : List α}

theorem Arranged.head_eq {s : List α} (h : Arranged r s l) {a : α} (ha : a ∈ l) (hlast : ∀ x ∈ l, r x a → x = a) :
    s.head? = some a := by
  have hin : a ∈ s := h.perm.symm.subset ha
  cases s with
  | nil => cases hin
  | cons x s =>
    rw [List.head?_cons]
    obtain rfl | hin := List.mem_cons.mp hin
    · rfl
    · rw [hlast x (h.perm.subset List.mem_cons_self) (List.rel_of_pairwise_cons h.sorted hin)]

theorem Arranged.head_iff {s : List α} (h : Arranged r s l) (hrefl : ∀ x, r x x)
    (hanti : ∀ x y, r x y → r y x → x = y) {a : α} :
    s.head? = some a ↔ a ∈ l ∧ ∀ x ∈ l, r a x := by
  apply Iff.intro
  · intro hhead
    obtain ⟨rest, rfl⟩ := List.head?_eq_some_iff.mp hhead
    refine ⟨h.perm.subset List.mem_cons_self, fun x hx => ?_⟩
    obtain rfl | hin := List.mem_cons.mp (h.perm.symm.subset hx)
    · exact hrefl x
    · exact List.rel_of_pairwise_cons h.sorted hin
  · intro hleast
    exact h.head_eq hleast.1 fun x hx hle => hanti x a hle (hleast.2 x hx)

/-- Agreeing arrangements may be mixed. -/
theorem pages_perm (h : Agree r size l) {σ : Nat → List α} (hσ : ∀ k, Arranged r (σ k) l) (n : Nat) :
    (pages size n σ).Perm ((σ 0).take (n * size)) := by
  induction n with
  | zero => simp [pages]
  | succ n ih =>
    have hswap : ((σ 0).take (n * size)).Perm ((σ n).take (n * size)) := h (σ 0) (σ n) (hσ 0) (hσ n) n
    rw [pages_succ]
    apply ((ih.trans hswap).append_right _).trans
    rw [take_page]
    exact h (σ n) (σ 0) (hσ n) (hσ 0) (n + 1)

theorem pages_of_agree (hsize : 0 < size) (h : Agree r size l) {σ : Nat → List α} (hσ : ∀ k, Arranged r (σ k) l) :
    (pages size (pageCount size l.length) σ).Perm l := by
  have hall : (σ 0).take (pageCount size l.length * size) = σ 0 := by
    apply List.take_of_length_le
    rw [(hσ 0).perm.length_eq]
    exact le_pageCount hsize l.length
  exact ((pages_perm h hσ _).trans (by rw [hall])).trans (hσ 0).perm

theorem agree_of_pages (hsize : 0 < size)
    (h : ∀ σ : Nat → List α, (∀ k, Arranged r (σ k) l) → (pages size (pageCount size l.length) σ).Perm l) :
    Agree r size l := by
  intro s t hs ht j
  by_cases hj : j * size < l.length
  · have hn := lt_pageCount hsize hj
    obtain ⟨n, hcount⟩ := Nat.exists_eq_add_of_lt hn
    have hperm := h (fun k => if k < j then s else t) fun k => by
      by_cases hk : k < j
      · simpa only [if_pos hk] using hs
      · simpa only [if_neg hk] using ht
    have hrest : (t.drop (j * size)).take ((n + 1) * size) = t.drop (j * size) := by
      apply List.take_of_length_le
      have hle := le_pageCount hsize l.length
      rw [hcount, Nat.add_assoc, Nat.add_mul] at hle
      rw [List.length_drop, ht.perm.length_eq]
      omega
    rw [hcount, Nat.add_assoc, pages_switch, hrest] at hperm
    have ht' := ht.perm.symm
    rw [← List.take_append_drop (j * size) t] at ht'
    exact (List.perm_append_right_iff _).mp (hperm.trans ht')
  · have hlen : l.length ≤ j * size := Nat.not_lt.mp hj
    rw [List.take_of_length_le (by rwa [hs.perm.length_eq]), List.take_of_length_le (by rwa [ht.perm.length_eq])]
    exact hs.perm.trans ht.perm.symm

/-! ## What arrangements agree on -/

theorem countP_take {q : α → Bool} {s : List α} (hq : ∀ x y, r x y → q y = true → q x = true)
    (hs : s.Pairwise r) (c : Nat) :
    (s.take c).countP q = min c (s.countP q) := by
  induction s generalizing c with
  | nil => simp
  | cons x s ih =>
    obtain ⟨hx, hs⟩ := List.pairwise_cons.mp hs
    cases c with
    | zero => simp
    | succ c =>
      rw [List.take_succ_cons, List.countP_cons, List.countP_cons, ih hs]
      by_cases hqx : q x = true
      · simp only [hqx, ite_true]
        omega
      · have hnone : s.countP q = 0 := List.countP_eq_zero.mpr fun y hy hqy => hqx (hq x y (hx y hy) hqy)
        simp [hqx, hnone]

/-- A page ends in front of the elements that the order does not tell from `a`, or behind them. -/
theorem page_end {size x y : Nat} (hsize : 0 < size) (h : x / size = (y - 1) / size) (j : Nat) :
    j * size ≤ x ∨ y ≤ j * size := by
  by_cases hj : j ≤ x / size
  · exact .inl ((Nat.le_div_iff_mul_le hsize).mp hj)
  · have hlt : (y - 1) / size < j := h ▸ Nat.not_le.mp hj
    have hy := (Nat.div_lt_iff_lt_mul hsize).mp hlt
    exact .inr (by omega)

theorem page_end_between {size x y : Nat} (hsize : 0 < size) (hxy : x < y) (h : x / size ≠ (y - 1) / size) :
    ∃ j, x < j * size ∧ j * size < y := by
  have hle : x / size ≤ (y - 1) / size := Nat.div_le_div_right (by omega)
  refine ⟨x / size + 1, ?_, ?_⟩
  · exact (Nat.div_lt_iff_lt_mul hsize).mp (Nat.lt_succ_self _)
  · have hmul := (Nat.le_div_iff_mul_le hsize).mp (Nat.lt_of_le_of_ne hle h)
    rw [← Nat.succ_eq_add_one]
    omega

theorem refl_of_total (r : α → α → Prop) [Std.Total r] (a : α) : r a a := (Std.Total.total (r := r) a a).elim id id

theorem of_not (r : α → α → Prop) [Std.Total r] {a b : α} (h : ¬ r a b) : r b a :=
  (Std.Total.total (r := r) a b).resolve_left h

section
variable [DecidableRel r] [Std.Total r]

def tied (r : α → α → Prop) [DecidableRel r] (l : List α) (a : α) : List α := l.filter fun x => r x a ∧ r a x

theorem tied_length (l : List α) (a : α) : (tied r l a).length + ahead r l a = upTo r l a := by
  rw [tied, ← List.countP_eq_length_filter]
  induction l with
  | nil => rfl
  | cons x l ih =>
    simp only [ahead, upTo, List.countP_cons, decide_eq_true_eq] at ih ⊢
    by_cases hax : r a x
    · simp only [hax, and_true, not_true, if_false]
      omega
    · simp only [hax, and_false, if_false, not_false_iff, if_true, if_pos (of_not r hax)]
      omega

theorem count_add_ahead [BEq α] [LawfulBEq α] {m : List α} {a : α} (h : ∀ x ∈ m, r x a → r a x → x = a) :
    m.count a + ahead r m a = upTo r m a := by
  induction m with
  | nil => rfl
  | cons x m ih =>
    have ih := ih fun y hy => h y (List.mem_cons_of_mem _ hy)
    have hx := h x List.mem_cons_self
    simp only [ahead, upTo, List.countP_cons, decide_eq_true_eq] at ih ⊢
    by_cases hax : r a x
    · by_cases hxa : r x a
      · obtain rfl := hx hxa hax
        rw [List.count_cons_self, if_neg (not_not.mpr hax), if_pos hax]
        omega
      · have hne : x ≠ a := fun he => hxa (he ▸ refl_of_total r x)
        rw [List.count_cons_of_ne hne, if_neg (not_not.mpr hax), if_neg hxa]
        omega
    · have hne : x ≠ a := fun he => hax (he ▸ refl_of_total r x)
      rw [List.count_cons_of_ne hne, if_pos hax, if_pos (of_not r hax)]
      omega

end

section
variable [DecidableRel r] [IsTrans α r] {s : List α}

theorem ahead_take (h : Arranged r s l) (a : α) (c : Nat) : ahead r (s.take c) a = min c (ahead r l a) := by
  unfold ahead
  rw [countP_take (r := r) _ h.sorted, h.perm.countP_eq]
  intro x y hxy hy
  simp only [decide_not, Bool.not_eq_true', decide_eq_false_iff_not] at hy ⊢
  exact fun hax => hy (trans_of r hax hxy)

theorem upTo_take (h : Arranged r s l) (a : α) (c : Nat) : upTo r (s.take c) a = min c (upTo r l a) := by
  unfold upTo
  rw [countP_take (r := r) _ h.sorted, h.perm.countP_eq]
  intro x y hxy hy
  simp only [decide_eq_true_eq] at hy ⊢
  exact trans_of r hxy hy

variable [Std.Total r]

theorem not_mem_take {a : α} {c : Nat} (h : Arranged r s l) (hc : c ≤ ahead r l a) : a ∉ s.take c := by
  intro ha
  have hall : ahead r (s.take c) a = (s.take c).length := by
    have hle : ahead r (s.take c) a ≤ (s.take c).length := List.countP_le_length
    rw [ahead_take h, Nat.min_eq_left hc] at hle ⊢
    have hlen := List.length_take_le c s
    omega
  have hfront := List.countP_eq_length.mp hall a ha
  simp only [decide_eq_true_eq] at hfront
  exact hfront (refl_of_total r a)

theorem not_mem_drop {a : α} {c : Nat} (h : Arranged r s l) (hc : upTo r l a ≤ c) : a ∉ s.drop c := by
  intro ha
  have hsum : upTo r (s.take c) a + upTo r (s.drop c) a = upTo r l a := by
    rw [upTo, upTo, ← List.countP_append, List.take_append_drop]
    exact h.perm.countP_eq _
  rw [upTo_take h, Nat.min_eq_right hc] at hsum
  have hnone : upTo r (s.drop c) a = 0 := by omega
  have hback := List.countP_eq_zero.mp hnone a ha
  simp only [decide_eq_true_eq] at hback
  exact hback (refl_of_total r a)

theorem agree_of_unsplit (hsize : 0 < size) (h : Unsplit r size l) : Agree r size l := by
  classical
  intro s t hs ht j
  apply List.perm_iff_count.mpr
  intro a
  by_cases ha : a ∈ l
  · by_cases hpage : ahead r l a / size = (upTo r l a - 1) / size
    · rcases page_end hsize hpage j with hj | hj
      · rw [List.count_eq_zero_of_not_mem (not_mem_take hs hj), List.count_eq_zero_of_not_mem (not_mem_take ht hj)]
      · -- behind the page there is no `a` left
        have hcount : ∀ {s : List α}, Arranged r s l → (s.take (j * size)).count a = l.count a := fun {s} hs => by
          have hsum : (s.take (j * size) ++ s.drop (j * size)).count a =
              (s.take (j * size)).count a + (s.drop (j * size)).count a := List.count_append
          rw [List.take_append_drop, hs.perm.count_eq, List.count_eq_zero_of_not_mem (not_mem_drop hs hj)] at hsum
          exact hsum.symm
        rw [hcount hs, hcount ht]
    · have hequal : ∀ x ∈ l, r x a → r a x → x = a := fun x hx hxa hax =>
        Classical.byContradiction fun hne => hpage (h a ha x hx hax hxa (Ne.symm hne))
      have hcount : ∀ {s : List α}, Arranged r s l →
          (s.take (j * size)).count a + min (j * size) (ahead r l a) = min (j * size) (upTo r l a) :=
          fun {s} hs => by
        rw [← ahead_take hs, ← upTo_take hs]
        exact count_add_ahead fun x hx => hequal x (hs.perm.subset (List.mem_of_mem_take hx))
      have h1 := hcount hs
      have h2 := hcount ht
      omega
  · have hnot : ∀ {s : List α}, Arranged r s l → a ∉ s.take (j * size) := fun hs hin =>
      ha (hs.perm.subset (List.mem_of_mem_take hin))
    rw [List.count_eq_zero_of_not_mem (hnot hs), List.count_eq_zero_of_not_mem (hnot ht)]

/-! ## Arrangements that disagree -/

theorem arranged_tied (l : List α) (a : α) : ∃ front back, front.length = ahead r l a ∧
    ∀ t, t.Perm (tied r l a) → Arranged r (front ++ t ++ back) l := by
  refine ⟨(l.filter fun x => ¬ r a x).insertionSort r, (l.filter fun x => ¬ r x a).insertionSort r,
    ?_, fun t ht => ?_⟩
  · rw [List.length_insertionSort, ← List.countP_eq_length_filter, ahead]
  · have htied : ∀ x ∈ t, r x a ∧ r a x := fun x hx => of_decide_eq_true (List.mem_filter.mp (ht.subset hx)).2
    have hfront : ∀ x ∈ (l.filter fun x => ¬ r a x).insertionSort r, r x a := fun x hx =>
      of_not r (of_decide_eq_true (List.mem_filter.mp ((List.mem_insertionSort r).mp hx)).2)
    have hback : ∀ x ∈ (l.filter fun x => ¬ r x a).insertionSort r, r a x := fun x hx =>
      of_not r (of_decide_eq_true (List.mem_filter.mp ((List.mem_insertionSort r).mp hx)).2)
    constructor
    · have hrest : (l.filter fun x => r a x).Perm (t ++ (l.filter fun x => ¬ r x a)) := by
        have hsplit := List.filter_append_perm (fun x => decide (r x a)) (l.filter fun x => r a x)
        have hfar : (fun x => (!decide (r x a)) && decide (r a x)) = fun x => decide ¬ r x a := by
          funext x
          by_cases hxa : r x a
          · simp [hxa]
          · simp [hxa, of_not r hxa]
        have hnear : (fun x => decide (r x a) && decide (r a x)) = fun x => decide (r x a ∧ r a x) := by
          funext x
          exact (Bool.decide_and _ _).symm
        rw [List.filter_filter, List.filter_filter, hfar, hnear] at hsplit
        exact hsplit.symm.trans (ht.symm.append_right _)
      have hall := List.filter_append_perm (fun x => decide ¬ r a x) l
      simp only [decide_not, Bool.not_not] at hall hrest ⊢
      rw [List.append_assoc]
      apply (((List.perm_insertionSort r _).append ((List.perm_insertionSort r _).append_left t)).trans _)
      exact (hrest.symm.append_left _).trans hall
    · rw [List.append_assoc, List.pairwise_append, List.pairwise_append]
      refine ⟨List.pairwise_insertionSort r _, ⟨?_, List.pairwise_insertionSort r _, ?_⟩, ?_⟩
      · apply List.pairwise_of_forall_mem_list
        intro x hx y hy
        exact trans_of r (htied x hx).1 (htied y hy).2
      · intro x hx y hy
        exact trans_of r (htied x hx).1 (hback y hy)
      · intro x hx y hy
        rcases List.mem_append.mp hy with hy | hy
        · exact trans_of r (hfront x hx) (htied y hy).2
        · exact trans_of r (hfront x hx) (hback y hy)

theorem unsplit_of_agree (hsize : 0 < size) (h : Agree r size l) : Unsplit r size l := by
  classical
  intro a ha b hb hab hba hne
  by_contra hpage
  have hmem : ∀ x ∈ l, r x a → r a x → x ∈ tied r l a := fun x hx hxa hax =>
    List.mem_filter.mpr ⟨hx, decide_eq_true ⟨hxa, hax⟩⟩
  have hra := refl_of_total r a
  have hlen := tied_length (r := r) l a
  have hpos : 0 < (tied r l a).length := List.length_pos_of_mem (hmem a ha hra hra)
  obtain ⟨j, hj, hj'⟩ := page_end_between hsize (by omega) hpage
  -- the page ends between two tied elements, which may be `a` and `b` in either order
  have hrest : (tied r l a).Perm (a :: b :: ((tied r l a).erase a).erase b) :=
    (List.perm_cons_erase (hmem a ha hra hra)).trans
      ((List.perm_cons_erase ((List.mem_erase_of_ne hne.symm).mpr (hmem b hb hba hab))).cons a)
  generalize ((tied r l a).erase a).erase b = rest at hrest
  have hrestlen := hrest.length_eq
  simp only [List.length_cons] at hrestlen
  obtain ⟨front, back, hfront, harranged⟩ := arranged_tied (r := r) l a
  let m := j * size - 1 - ahead r l a
  have hcut : ∀ x y, [x, y].Perm [a, b] →
      ∃ s, Arranged r s l ∧ s.take (j * size) = front ++ rest.take m ++ [x] := fun x y hxy => by
    refine ⟨front ++ (rest.take m ++ x :: y :: rest.drop m) ++ back, harranged _ ?_, ?_⟩
    · refine (List.Perm.trans ?_ (hxy.append_right rest)).trans hrest.symm
      have hmid : (rest.take m ++ ([x, y] ++ rest.drop m)).Perm ([x, y] ++ (rest.take m ++ rest.drop m)) := by
        rw [← List.append_assoc, ← List.append_assoc]
        exact List.perm_append_comm.append_right _
      rwa [List.take_append_drop] at hmid
    · have hsplit : front ++ (rest.take m ++ x :: y :: rest.drop m) ++ back =
          (front ++ rest.take m ++ [x]) ++ (y :: rest.drop m ++ back) := by simp
      rw [hsplit]
      apply List.take_left'
      simp only [List.length_append, List.length_take, List.length_singleton, hfront]
      omega
  obtain ⟨s, hs, hstake⟩ := hcut a b (.refl _)
  obtain ⟨t, ht, httake⟩ := hcut b a (.swap a b [])
  have hperm := h s t hs ht j
  rw [hstake, httake, List.perm_append_left_iff, List.singleton_perm_singleton] at hperm
  exact hne hperm

/-- The pages hold every element once, for every choice of arrangements, exactly when
elements that the order does not tell apart are equal or have one page. -/
theorem pages_iff (hsize : 0 < size) :
    (∀ σ : Nat → List α, (∀ k, Arranged r (σ k) l) → (pages size (pageCount size l.length) σ).Perm l) ↔
      Unsplit r size l := by
  constructor
  · intro h
    exact unsplit_of_agree hsize (agree_of_pages hsize h)
  · intro h σ hσ
    exact pages_of_agree hsize (agree_of_unsplit hsize h) hσ

end

end

end Paging
