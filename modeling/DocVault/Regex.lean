import Mathlib.Data.List.Basic
import Mathlib.Data.List.TakeWhile

/-!
# Regular expressions with backtracking

A matcher lists the cursors that it can reach, in the order in which backtracking
tries them, so that the first one is the match. Whoever asks only whether there
is a match reasons about membership.
-/

inductive Regex (α : Type) where
  | empty
  | one (p : α → Bool)
  | seq (r s : Regex α)
  | alt (r s : Regex α)
  | rep (greedy : Bool) (max : Option Nat) (r : Regex α)
  | boundary

namespace Regex

/-- Where a matcher stands: whether the last element is of a word, and what is left. -/
abbrev Cursor (α : Type) := Bool × List α

variable {α : Type}

-- A round that takes nothing does not count.
def iterate (step : Cursor α → List (Cursor α)) (greedy : Bool) : Nat → Cursor α → List (Cursor α)
  | 0, c => [c]
  | n + 1, c =>
    let more := ((step c).filter fun c' => c'.2.length < c.2.length).flatMap (iterate step greedy n)
    if greedy then more ++ [c] else c :: more

section
variable (word : α → Bool)

def run : Regex α → Cursor α → List (Cursor α)
  | empty, c => [c]
  | one _, (_, []) => []
  | one p, (_, a :: rest) => if p a then [(word a, rest)] else []
  | seq r s, c => (run r c).flatMap (run s)
  | alt r s, c => run r c ++ run s c
  | rep greedy max r, c => iterate (run r) greedy (max.getD c.2.length) c
  | boundary, c => if c.1 ≠ c.2.head?.any word then [c] else []

/-- The text as elements and matches, from left to right; `skip` elements belong to the last match. -/
def scan (r : Regex α) : Nat → Bool → List α → List (α ⊕ List α)
  | skip, b, [] => if skip = 0 ∧ !(r.run word (b, [])).isEmpty then [.inr []] else []
  | skip + 1, _, a :: rest => scan r skip (word a) rest
  | 0, b, a :: rest =>
    match (r.run word (b, a :: rest)).head? with
    | none => .inl a :: scan r 0 (word a) rest
    | some c =>
      let n := (a :: rest).length - c.2.length
      if n = 0 then .inr [] :: .inl a :: scan r 0 (word a) rest
      else .inr ((a :: rest).take n) :: scan r (n - 1) (word a) rest

/-- `text.match(r)` of a global expression. -/
def matchAll (r : Regex α) (text : List α) : List (List α) := (scan word r 0 false text).filterMap Sum.getRight?

/-- `text.replace(r, f)` of a global expression. -/
def replaceAll (r : Regex α) (f : List α → List α) (text : List α) : List α :=
  (scan word r 0 false text).flatMap (Sum.elim (fun a => [a]) f)

def splice (f : List α → Option (List α)) : List (α ⊕ List α) → Option (List α)
  | [] => some []
  | .inl a :: parts => (splice f parts).map (a :: ·)
  | .inr w :: parts => (f w).bind fun out => (splice f parts).map (out ++ ·)

/-- `text.replace(r, f)` of a global expression, where `f` may throw. -/
def replaceAllM (r : Regex α) (f : List α → Option (List α)) (text : List α) : Option (List α) :=
  splice f (scan word r 0 false text)

def replaceFirst (f : List α → List α) : List (α ⊕ List α) → List α
  | [] => []
  | .inl a :: parts => a :: replaceFirst f parts
  | .inr w :: parts => f w ++ parts.flatMap (Sum.elim (fun a => [a]) id)

/-- `text.replace(r, f)` of an expression that is not global. -/
def replace (r : Regex α) (f : List α → List α) (text : List α) : List α :=
  replaceFirst f (scan word r 0 false text)

end

def lit [DecidableEq α] : List α → Regex α
  | [] => empty
  | a :: w => seq (one fun b => b = a) (lit w)

def plus (p : α → Bool) : Regex α := seq (one p) (rep true none (one p))

/-- `n` times, one after the other. -/
def times (r : Regex α) : Nat → Regex α
  | 0 => empty
  | n + 1 => seq r (times r n)

/-! ## Membership -/

section
variable {word : α → Bool} {r s : Regex α} {b greedy : Bool} {c c' : Cursor α} {step : Cursor α → List (Cursor α)}

@[simp] theorem mem_run_empty : c' ∈ run word empty c ↔ c' = c := List.mem_singleton

@[simp] theorem mem_run_one {p : α → Bool} {text : List α} :
    c' ∈ run word (one p) (b, text) ↔ ∃ a rest, text = a :: rest ∧ p a = true ∧ c' = (word a, rest) := by
  cases text with
  | nil => simp [run]
  | cons a rest =>
    rw [run]
    by_cases h : p a = true
    · rw [if_pos h, List.mem_singleton]
      apply Iff.intro
      · intro hc
        exact ⟨a, rest, rfl, h, hc⟩
      · intro hc
        obtain ⟨a', rest', he, -, hc⟩ := hc
        cases he
        exact hc
    · rw [if_neg h]
      simp only [List.not_mem_nil, false_iff]
      intro hc
      obtain ⟨a', rest', he, hp, -⟩ := hc
      cases he
      exact h hp

@[simp] theorem mem_run_seq : c' ∈ run word (seq r s) c ↔ ∃ m ∈ run word r c, c' ∈ run word s m := List.mem_flatMap

@[simp] theorem mem_run_alt : c' ∈ run word (alt r s) c ↔ c' ∈ run word r c ∨ c' ∈ run word s c := List.mem_append

@[simp] theorem mem_run_boundary : c' ∈ run word boundary c ↔ c' = c ∧ c.1 ≠ c.2.head?.any word := by
  rw [run]
  by_cases h : c.1 ≠ c.2.head?.any word
  · simp [h]
  · simp [h]

theorem mem_iterate_zero : c' ∈ iterate step greedy 0 c ↔ c' = c := List.mem_singleton

theorem mem_iterate_succ {n : Nat} : c' ∈ iterate step greedy (n + 1) c ↔
    c' = c ∨ ∃ m ∈ step c, m.2.length < c.2.length ∧ c' ∈ iterate step greedy n m := by
  have hmore : c' ∈ ((step c).filter fun m => m.2.length < c.2.length).flatMap (iterate step greedy n) ↔
      ∃ m ∈ step c, m.2.length < c.2.length ∧ c' ∈ iterate step greedy n m := by
    simp only [List.mem_flatMap, List.mem_filter, decide_eq_true_eq, and_assoc]
  rw [← hmore]
  cases greedy with
  | true => exact List.mem_append.trans (or_comm.trans (or_congr_left List.mem_singleton))
  | false => exact List.mem_cons

theorem mem_iterate_self (n : Nat) : c ∈ iterate step greedy n c := by
  cases n with
  | zero => exact mem_iterate_zero.mpr rfl
  | succ n => exact mem_iterate_succ.mpr (.inl rfl)

theorem mem_iterate_mono {n m : Nat} (hnm : n ≤ m) (h : c' ∈ iterate step greedy n c) :
    c' ∈ iterate step greedy m c := by
  induction n generalizing m c with
  | zero =>
    rw [mem_iterate_zero.mp h]
    exact mem_iterate_self m
  | succ n ih =>
    obtain ⟨m, rfl⟩ := Nat.exists_eq_succ_of_ne_zero (by omega : m ≠ 0)
    rcases mem_iterate_succ.mp h with rfl | ⟨d, hd, hlt, hrest⟩
    · exact mem_iterate_self _
    · exact mem_iterate_succ.mpr (.inr ⟨d, hd, hlt, ih (by omega) hrest⟩)

/-- As many rounds as there are elements left are enough. -/
theorem mem_iterate_length {n : Nat} (h : c' ∈ iterate step greedy n c) :
    c' ∈ iterate step greedy c.2.length c := by
  induction n generalizing c with
  | zero =>
    rw [mem_iterate_zero.mp h]
    exact mem_iterate_self _
  | succ n ih =>
    rcases mem_iterate_succ.mp h with rfl | ⟨d, hd, hlt, hrest⟩
    · exact mem_iterate_self _
    · obtain ⟨k, hk⟩ := Nat.exists_eq_succ_of_ne_zero (by omega : c.2.length ≠ 0)
      rw [hk]
      exact mem_iterate_succ.mpr (.inr ⟨d, hd, hlt, mem_iterate_mono (by omega) (ih hrest)⟩)

end

/-! ## Where an expression is found -/

/-- Whether the last element is of a word once `w` has been read. -/
def after (word : α → Bool) (b : Bool) (w : List α) : Bool := w.foldl (fun _ a => word a) b

section
variable {word : α → Bool} {r s : Regex α} {b : Bool}

@[simp] theorem after_nil : after word b [] = b := rfl

@[simp] theorem after_cons (a : α) (w : List α) : after word b (a :: w) = after word (word a) w := rfl

@[simp] theorem after_append (u w : List α) : after word b (u ++ w) = after word (after word b u) w :=
  List.foldl_append

variable (word) in
def Found (r : Regex α) (b : Bool) (text : List α) : Prop :=
  ∃ pre rest c, text = pre ++ rest ∧ c ∈ r.run word (after word b pre, rest)

theorem found_nil : Found word r b [] ↔ ∃ c, c ∈ r.run word (b, []) := by
  apply Iff.intro
  · intro h
    obtain ⟨pre, rest, c, he, hc⟩ := h
    obtain ⟨rfl, rfl⟩ := List.append_eq_nil_iff.mp he.symm
    exact ⟨c, hc⟩
  · intro h
    obtain ⟨c, hc⟩ := h
    exact ⟨[], [], c, rfl, hc⟩

theorem found_cons (a : α) (text : List α) :
    Found word r b (a :: text) ↔ (∃ c, c ∈ r.run word (b, a :: text)) ∨ Found word r (word a) text := by
  apply Iff.intro
  · intro h
    obtain ⟨pre, rest, c, he, hc⟩ := h
    cases pre with
    | nil =>
      rw [List.nil_append] at he
      subst he
      exact .inl ⟨c, hc⟩
    | cons a' pre =>
      obtain ⟨rfl, rfl⟩ := List.cons.inj he
      exact .inr ⟨pre, rest, c, rfl, hc⟩
  · intro h
    rcases h with ⟨c, hc⟩ | ⟨pre, rest, c, he, hc⟩
    · exact ⟨[], a :: text, c, rfl, hc⟩
    · exact ⟨a :: pre, rest, c, by rw [he]; rfl, hc⟩

theorem exists_match_iff (text : List α) : (∃ w, Sum.inr w ∈ scan word r 0 b text) ↔ Found word r b text := by
  induction text generalizing b with
  | nil =>
    rw [found_nil, scan]
    cases hr : r.run word (b, []) with
    | nil => simp
    | cons c cs => simp
  | cons a text ih =>
    rw [found_cons, scan]
    cases hr : r.run word (b, a :: text) with
    | nil => simp [ih]
    | cons c cs =>
      have hsome : ∃ c', c' ∈ c :: cs := ⟨c, List.mem_cons_self⟩
      simp only [List.head?_cons, hsome, true_or, iff_true]
      split
      · exact ⟨[], List.mem_cons_self⟩
      · exact ⟨_, List.mem_cons_self⟩

theorem matchAll_ne_nil (text : List α) : matchAll word r text ≠ [] ↔ Found word r false text := by
  rw [← exists_match_iff, matchAll]
  simp only [ne_eq, List.filterMap_eq_nil_iff, not_forall]
  apply Iff.intro
  · intro h
    obtain ⟨x, hx, hw⟩ := h
    cases x with
    | inl a => simp at hw
    | inr w => exact ⟨w, hx⟩
  · intro h
    obtain ⟨w, hw⟩ := h
    exact ⟨.inr w, hw, by simp⟩

/-! ## Separators -/

/-- The cursor that has `rest` to read after what `c` has. -/
def Cursor.push (rest : List α) (c : Cursor α) : Cursor α := (c.1, c.2 ++ rest)

theorem iterate_push {step : Cursor α → List (Cursor α)} {greedy : Bool} {rest : List α} {n : Nat} {c c' : Cursor α}
    (hstep : ∀ c c', c' ∈ step c → c'.push rest ∈ step (c.push rest)) (h : c' ∈ iterate step greedy n c) :
    c'.push rest ∈ iterate step greedy n (c.push rest) := by
  induction n generalizing c with
  | zero =>
    rw [mem_iterate_zero.mp h]
    exact mem_iterate_self 0
  | succ n ih =>
    rcases mem_iterate_succ.mp h with rfl | ⟨m, hm, hlt, hrest⟩
    · exact mem_iterate_self _
    · have hlt' : (m.push rest).2.length < (c.push rest).2.length := by
        simp only [Cursor.push, List.length_append]
        omega
      exact mem_iterate_succ.mpr (.inr ⟨m.push rest, hstep c m hm, hlt', ih hrest⟩)

theorem iterate_map_push {step : Cursor α → List (Cursor α)} {greedy : Bool} {rest : List α}
    (hstep : ∀ c, step (c.push rest) = (step c).map (Cursor.push rest)) (n : Nat) (c : Cursor α) :
    iterate step greedy n (c.push rest) = (iterate step greedy n c).map (Cursor.push rest) := by
  induction n generalizing c with
  | zero => rfl
  | succ n ih =>
    have hfilter : (step (c.push rest)).filter (fun c' => c'.2.length < (c.push rest).2.length) =
        ((step c).filter fun c' => c'.2.length < c.2.length).map (Cursor.push rest) := by
      rw [hstep, List.filter_map]
      congr 1
      apply List.filter_congr
      intro c' _
      simp [Cursor.push]
    have hmore : ((step (c.push rest)).filter fun c' => c'.2.length < (c.push rest).2.length).flatMap
        (iterate step greedy n) =
        (((step c).filter fun c' => c'.2.length < c.2.length).flatMap (iterate step greedy n)).map
          (Cursor.push rest) := by
      rw [hfilter, List.flatMap_map, List.map_flatMap]
      exact congrArg (List.flatMap · _) (funext ih)
    rw [iterate, iterate, hmore]
    cases greedy with
    | true => simp
    | false => simp

/-- More rounds than there are elements left change nothing. -/
theorem iterate_enough {step : Cursor α → List (Cursor α)} {greedy : Bool} {n k : Nat} {c : Cursor α}
    (hk : c.2.length ≤ k) (hkn : k ≤ n) : iterate step greedy n c = iterate step greedy k c := by
  induction k generalizing n c with
  | zero =>
    cases n with
    | zero => rfl
    | succ n =>
      have hzero : c.2.length = 0 := Nat.le_zero.mp hk
      have hnone : (step c).filter (fun c' => c'.2.length < c.2.length) = [] := by simp [hzero]
      rw [iterate, iterate, hnone]
      cases greedy with
      | true => rfl
      | false => rfl
  | succ k ih =>
    obtain ⟨n, rfl⟩ := Nat.exists_eq_succ_of_ne_zero (by omega : n ≠ 0)
    have hmore : ∀ m ∈ (step c).filter (fun c' => c'.2.length < c.2.length),
        iterate step greedy n m = iterate step greedy k m := by
      intro m hm
      have hlt : m.2.length < c.2.length := by simpa using (List.mem_filter.mp hm).2
      exact ih (by omega) (by omega)
    rw [iterate, iterate, List.flatMap_congr hmore]

/-- What follows after a separator takes no match away. -/
theorem run_push {t : α} (ht : word t = false) (rest : List α) {c c' : Cursor α} (h : c' ∈ r.run word c) :
    c'.push (t :: rest) ∈ r.run word (c.push (t :: rest)) := by
  induction r generalizing c c' with
  | empty => rw [mem_run_empty.mp h, mem_run_empty]
  | one p =>
    obtain ⟨b, text⟩ := c
    obtain ⟨a, left, rfl, hp, rfl⟩ := mem_run_one.mp h
    exact mem_run_one.mpr ⟨a, left ++ t :: rest, rfl, hp, rfl⟩
  | seq r s ihr ihs =>
    obtain ⟨m, hm, hc⟩ := mem_run_seq.mp h
    exact mem_run_seq.mpr ⟨m.push (t :: rest), ihr hm, ihs hc⟩
  | alt r s ihr ihs =>
    rcases mem_run_alt.mp h with hc | hc
    · exact mem_run_alt.mpr (.inl (ihr hc))
    · exact mem_run_alt.mpr (.inr (ihs hc))
  | rep greedy max r ih =>
    have hpush : c'.push (t :: rest) ∈ iterate (run word r) greedy (max.getD c.2.length) (c.push (t :: rest)) :=
      iterate_push (fun _ _ hd => ih hd) h
    cases max with
    | none => exact mem_iterate_length hpush
    | some n => exact hpush
  | boundary =>
    obtain ⟨rfl, hb⟩ := mem_run_boundary.mp h
    apply mem_run_boundary.mpr
    refine ⟨rfl, ?_⟩
    obtain ⟨b, text⟩ := c'
    cases text with
    | nil => simpa [Cursor.push, ht] using hb
    | cons a text => exact hb

/-- No part of the expression takes `t`. -/
def Avoids (t : α) : Regex α → Prop
  | empty | boundary => True
  | one p => p t = false
  | seq r s | alt r s => Avoids t r ∧ Avoids t s
  | rep _ _ r => Avoids t r

instance (t : α) : (r : Regex α) → Decidable (r.Avoids t)
  | empty | boundary => inferInstanceAs (Decidable True)
  | one p => inferInstanceAs (Decidable (p t = false))
  | seq r s | alt r s => @instDecidableAnd _ _ (instDecidableAvoids t r) (instDecidableAvoids t s)
  | rep _ _ r => instDecidableAvoids t r

theorem run_map_push {t : α} (ht : word t = false) (hr : r.Avoids t) (rest : List α) (c : Cursor α) :
    r.run word (c.push (t :: rest)) = (r.run word c).map (Cursor.push (t :: rest)) := by
  induction r generalizing c with
  | empty => rfl
  | one p =>
    obtain ⟨b, text⟩ := c
    cases text with
    | nil =>
      have hp : p t = false := hr
      simp [Cursor.push, run, hp]
    | cons a text =>
      by_cases hp : p a = true
      · simp [Cursor.push, run, hp]
      · simp [Cursor.push, run, hp]
  | seq r s ihr ihs =>
    rw [run, run, ihr hr.1, List.flatMap_map, List.map_flatMap]
    exact congrArg (List.flatMap · _) (funext fun m => ihs hr.2 m)
  | alt r s ihr ihs => rw [run, run, ihr hr.1, ihs hr.2, List.map_append]
  | rep greedy max r ih =>
    rw [run, run, iterate_map_push (fun c => ih hr c)]
    cases max with
    | none =>
      rw [Option.getD_none, Option.getD_none, iterate_enough (Nat.le_refl _) (by simp [Cursor.push])]
    | some n => rfl
  | boundary =>
    obtain ⟨b, text⟩ := c
    cases text with
    | nil =>
      by_cases hb : b = true
      · simp [Cursor.push, run, ht, hb]
      · simp [Cursor.push, run, ht, hb]
    | cons a text =>
      by_cases hb : b = word a
      · simp [Cursor.push, run, hb]
      · simp [Cursor.push, run, hb]

theorem run_of_push {t : α} (ht : word t = false) (hr : r.Avoids t) (rest : List α) {c d : Cursor α}
    (h : d ∈ r.run word (c.push (t :: rest))) : ∃ c' ∈ r.run word c, d = c'.push (t :: rest) := by
  rw [run_map_push ht hr] at h
  obtain ⟨c', hc', rfl⟩ := List.mem_map.mp h
  exact ⟨c', hc', rfl⟩

theorem Found.before {t : α} (ht : word t = false) (rest : List α) {w : List α} (h : Found word r b w) :
    Found word r b (w ++ t :: rest) := by
  obtain ⟨pre, left, c, rfl, hc⟩ := h
  exact ⟨pre, left ++ t :: rest, _, List.append_assoc _ _ _, run_push ht rest hc⟩

theorem Found.behind {t : α} (ht : word t = false) (w : List α) {rest : List α} (h : Found word r false rest) :
    Found word r b (w ++ t :: rest) := by
  obtain ⟨pre, left, c, rfl, hc⟩ := h
  refine ⟨w ++ t :: pre, left, c, by simp, ?_⟩
  rw [after_append, after_cons, ht]
  exact hc

/-- An expression that avoids a separator is found on one side of it. -/
theorem found_append_iff {t : α} (ht : word t = false) (hr : r.Avoids t) (w rest : List α) :
    Found word r b (w ++ t :: rest) ↔ Found word r b w ∨ Found word r false rest := by
  apply Iff.intro
  · intro h
    obtain ⟨pre, left, c, he, hc⟩ := h
    rcases List.append_eq_append_iff.mp he with ⟨v, rfl, hv⟩ | ⟨v, rfl, rfl⟩
    · cases v with
      | nil =>
        rw [List.nil_append] at hv
        subst hv
        rw [List.append_nil] at hc
        obtain ⟨c', hc', -⟩ := run_of_push (c := (after word b w, [])) ht hr rest hc
        exact .inl ⟨w, [], c', (List.append_nil w).symm, hc'⟩
      | cons a v =>
        obtain ⟨rfl, rfl⟩ := List.cons.inj hv
        rw [after_append, after_cons, ht] at hc
        exact .inr ⟨v, left, c, rfl, hc⟩
    · obtain ⟨c', hc', -⟩ := run_of_push (c := (after word b pre, v)) ht hr rest hc
      exact .inl ⟨pre, v, c', rfl, hc'⟩
  · intro h
    rcases h with h | h
    · exact h.before ht rest
    · exact h.behind ht w

theorem found_intercalate_iff {t : α} (ht : word t = false) (hr : r.Avoids t) (parts : List (List α))
    (hne : parts ≠ []) : Found word r false ([t].intercalate parts) ↔ ∃ w ∈ parts, Found word r false w := by
  induction parts with
  | nil => exact absurd rfl hne
  | cons w parts ih =>
    cases parts with
    | nil => simp
    | cons v parts =>
      rw [List.intercalate_cons_cons, List.append_assoc, List.singleton_append, found_append_iff ht hr,
        ih (List.cons_ne_nil v parts)]
      simp

end

/-! ## Expressions that ask for no boundary -/

section
variable {word : α → Bool} {r s : Regex α} {b : Bool} {L M : List α → Prop}

variable (word) in
/-- What the expression takes depends on nothing but the elements taken. -/
def Denotes (r : Regex α) (L : List α → Prop) : Prop :=
  ∀ b text c, c ∈ r.run word (b, text) ↔ ∃ w, L w ∧ text = w ++ c.2 ∧ c.1 = after word b w

theorem denotes_empty : Denotes word (empty : Regex α) (· = []) := by
  intro b text c
  rw [mem_run_empty]
  obtain ⟨b', rest⟩ := c
  apply Iff.intro
  · intro h
    cases h
    exact ⟨[], rfl, rfl, rfl⟩
  · intro h
    obtain ⟨w, rfl, rfl, rfl⟩ := h
    rfl

theorem denotes_one (p : α → Bool) : Denotes word (one p) (fun w => ∃ a, p a = true ∧ w = [a]) := by
  intro b text c
  rw [mem_run_one]
  apply Iff.intro
  · intro h
    obtain ⟨a, rest, rfl, hp, rfl⟩ := h
    exact ⟨[a], ⟨a, hp, rfl⟩, rfl, rfl⟩
  · intro h
    obtain ⟨w, ⟨a, hp, rfl⟩, rfl, hb⟩ := h
    exact ⟨a, c.2, rfl, hp, Prod.ext hb rfl⟩

theorem denotes_seq (hr : Denotes word r L) (hs : Denotes word s M) :
    Denotes word (seq r s) (fun w => ∃ u v, w = u ++ v ∧ L u ∧ M v) := by
  intro b text c
  rw [mem_run_seq]
  apply Iff.intro
  · intro h
    obtain ⟨m, hm, hc⟩ := h
    obtain ⟨u, hu, rfl, hbu⟩ := (hr b text m).mp hm
    obtain ⟨v, hv, hmv, hbv⟩ := (hs m.1 m.2 c).mp hc
    refine ⟨u ++ v, ⟨u, v, rfl, hu, hv⟩, by rw [hmv, List.append_assoc], ?_⟩
    rw [after_append, ← hbu, hbv]
  · intro h
    obtain ⟨w, ⟨u, v, rfl, hu, hv⟩, rfl, hb⟩ := h
    refine ⟨(after word b u, v ++ c.2), (hr _ _ _).mpr ⟨u, hu, List.append_assoc _ _ _, rfl⟩, ?_⟩
    exact (hs _ _ _).mpr ⟨v, hv, rfl, by rw [hb, after_append]⟩

theorem denotes_lit [DecidableEq α] (u : List α) : Denotes word (lit u) (· = u) := by
  induction u with
  | nil => exact denotes_empty
  | cons a u ih =>
    intro b text c
    rw [lit, denotes_seq (denotes_one _) ih b text c]
    simp

theorem denotes_star (greedy : Bool) (p : α → Bool) :
    Denotes word (rep greedy none (one p)) (fun w => ∀ a ∈ w, p a = true) := by
  intro b text c
  rw [run, Option.getD_none]
  induction text generalizing b with
  | nil =>
    rw [List.length_nil, mem_iterate_zero]
    obtain ⟨b', rest⟩ := c
    apply Iff.intro
    · intro h
      cases h
      exact ⟨[], by simp, rfl, rfl⟩
    · intro h
      obtain ⟨w, -, he, rfl⟩ := h
      obtain ⟨rfl, rfl⟩ := List.append_eq_nil_iff.mp he.symm
      rfl
  | cons a text ih =>
    rw [List.length_cons, mem_iterate_succ]
    apply Iff.intro
    · intro h
      rcases h with rfl | ⟨m, hm, -, hc⟩
      · exact ⟨[], by simp, rfl, rfl⟩
      · obtain ⟨a', rest, he, hp, rfl⟩ := mem_run_one.mp hm
        obtain ⟨rfl, rfl⟩ := List.cons.inj he
        obtain ⟨w, hw, rfl, hb⟩ := (ih (word a)).mp hc
        refine ⟨a :: w, ?_, rfl, hb⟩
        intro x hx
        rcases List.mem_cons.mp hx with rfl | hx
        · exact hp
        · exact hw x hx
    · intro h
      obtain ⟨w, hw, he, hb⟩ := h
      cases w with
      | nil =>
        obtain ⟨b', rest⟩ := c
        cases he
        cases hb
        exact .inl rfl
      | cons a' w =>
        obtain ⟨rfl, rfl⟩ := List.cons.inj he
        refine .inr ⟨(word a, w ++ c.2), mem_run_one.mpr ⟨a, _, rfl, hw a List.mem_cons_self, rfl⟩, ?_, ?_⟩
        · exact Nat.lt_succ_self _
        · exact (ih (word a)).mpr ⟨w, fun x hx => hw x (List.mem_cons_of_mem a hx), rfl, hb⟩

theorem denotes_plus (p : α → Bool) : Denotes word (plus p) (fun w => w ≠ [] ∧ ∀ a ∈ w, p a = true) := by
  intro b text c
  rw [plus, denotes_seq (denotes_one p) (denotes_star true p) b text c]
  apply Iff.intro
  · intro h
    obtain ⟨w, ⟨u, v, rfl, ⟨a, ha, rfl⟩, hv⟩, rfl, hb⟩ := h
    refine ⟨[a] ++ v, ⟨by simp, ?_⟩, rfl, hb⟩
    intro x hx
    rcases List.mem_cons.mp hx with rfl | hx
    · exact ha
    · exact hv x hx
  · intro h
    obtain ⟨w, ⟨hne, hw⟩, rfl, hb⟩ := h
    obtain ⟨a, v, rfl⟩ := List.exists_cons_of_ne_nil hne
    exact ⟨a :: v, ⟨[a], v, rfl, ⟨a, hw a List.mem_cons_self, rfl⟩,
      fun x hx => hw x (List.mem_cons_of_mem a hx)⟩, rfl, hb⟩

/-- What stands before a separator is read off the text. -/
theorem span_unique {p : α → Bool} {t : α} (ht : p t = false) {u v rest left : List α} (hu : ∀ a ∈ u, p a = true)
    (hv : ∀ a ∈ v, p a = true) (h : u ++ t :: rest = v ++ t :: left) : u = v ∧ rest = left := by
  have hspan : ∀ (u rest : List α), (∀ a ∈ u, p a = true) → (u ++ t :: rest).takeWhile p = u := by
    intro u rest hu
    rw [List.takeWhile_append_of_pos hu, List.takeWhile_cons_of_neg (by simp [ht]), List.append_nil]
  have he : u = v := by rw [← hspan u rest hu, h, hspan v left hv]
  subst he
  exact ⟨rfl, (List.cons.inj (List.append_cancel_left h)).2⟩

/-- No word begins with another one. -/
def PrefixFree (L : List α → Prop) : Prop := ∀ w v rest left, L w → L v → w ++ rest = v ++ left → w = v

theorem head?_of_denotes (hr : Denotes word r L) (hL : PrefixFree L) {w : List α} (hw : L w) (rest : List α) :
    (r.run word (b, w ++ rest)).head? = some (after word b w, rest) := by
  have hmem : (after word b w, rest) ∈ r.run word (b, w ++ rest) := (hr _ _ _).mpr ⟨w, hw, rfl, rfl⟩
  obtain ⟨c, cs, hc⟩ := List.exists_cons_of_ne_nil (List.ne_nil_of_mem hmem)
  have hfirst : c ∈ r.run word (b, w ++ rest) := by
    rw [hc]
    exact List.mem_cons_self
  obtain ⟨v, hv, he, hb⟩ := (hr _ _ _).mp hfirst
  have hwv := hL w v rest c.2 hw hv he
  subst hwv
  rw [hc, List.head?_cons, Option.some_inj]
  exact Prod.ext hb (List.append_cancel_left he).symm

theorem head?_of_not_denotes (hr : Denotes word r L) {text : List α} (h : ∀ w rest, text = w ++ rest → ¬ L w) :
    (r.run word (b, text)).head? = none := by
  rw [List.head?_eq_none_iff, List.eq_nil_iff_forall_not_mem]
  intro c hc
  obtain ⟨w, hw, he, -⟩ := (hr _ _ _).mp hc
  exact h w c.2 he hw

theorem scan_skip (w rest : List α) : scan word r w.length b (w ++ rest) = scan word r 0 (after word b w) rest := by
  induction w generalizing b with
  | nil => rfl
  | cons a w ih =>
    rw [List.length_cons, List.cons_append, scan, ih]
    rfl

theorem scan_of_head {w rest : List α} {b' : Bool} (hw : w ≠ [])
    (h : (r.run word (b, w ++ rest)).head? = some (b', rest)) :
    scan word r 0 b (w ++ rest) = .inr w :: scan word r 0 (after word b w) rest := by
  obtain ⟨a, v, rfl⟩ := List.exists_cons_of_ne_nil hw
  rw [List.cons_append] at h
  have hlen : (a :: (v ++ rest)).length - rest.length = v.length + 1 := by
    rw [List.length_cons, List.length_append]
    omega
  rw [List.cons_append, scan, h]
  simp only [hlen, Nat.add_one_ne_zero, if_false, Nat.add_sub_cancel]
  rw [List.take_succ_cons, List.take_left, scan_skip]
  rfl

theorem scan_of_denotes (hr : Denotes word r L) (hL : PrefixFree L) (hnil : ¬ L []) {w : List α}
    (hw : L w) (rest : List α) : scan word r 0 b (w ++ rest) = .inr w :: scan word r 0 (after word b w) rest := by
  apply scan_of_head _ (head?_of_denotes hr hL hw rest)
  intro he
  rw [he] at hw
  exact hnil hw

theorem scan_of_not_denotes (hr : Denotes word r L) {a : α} {rest : List α}
    (h : ∀ w left, a :: rest = w ++ left → ¬ L w) :
    scan word r 0 b (a :: rest) = .inl a :: scan word r 0 (word a) rest := by
  rw [scan, head?_of_not_denotes hr h]

theorem scan_start (hr : Denotes word r L) (hL : PrefixFree L) (hnil : ¬ L []) (b' : Bool) (text : List α) :
    scan word r 0 b text = scan word r 0 b' text := by
  by_cases h : ∃ w rest, text = w ++ rest ∧ L w
  · obtain ⟨w, rest, rfl, hw⟩ := h
    have hafter : after word b w = after word b' w := by
      cases w with
      | nil => exact absurd hw hnil
      | cons a w => rfl
    rw [scan_of_denotes hr hL hnil hw, scan_of_denotes hr hL hnil hw, hafter]
  · have hno : ∀ w rest, text = w ++ rest → ¬ L w := fun w rest he hw => h ⟨w, rest, he, hw⟩
    cases text with
    | nil =>
      have hrun : ∀ b, r.run word (b, []) = [] := fun b => List.head?_eq_none_iff.mp (head?_of_not_denotes hr hno)
      rw [scan, scan, hrun, hrun]
    | cons a text => rw [scan_of_not_denotes hr hno, scan_of_not_denotes hr hno]

section
variable {f : List α → Option (List α)} (hr : Denotes word r L) (hL : PrefixFree L) (hnil : ¬ L [])
include hr

theorem replaceAllM_nil (hnil : ¬ L []) : replaceAllM word r f [] = some [] := by
  have hrun : r.run word (false, []) = [] := by
    apply List.head?_eq_none_iff.mp
    apply head?_of_not_denotes hr
    intro w rest he hw
    obtain ⟨rfl, -⟩ := List.append_eq_nil_iff.mp he.symm
    exact hnil hw
  rw [replaceAllM, scan, hrun]
  rfl

include hL hnil

theorem replaceAllM_reads {w : List α} (hw : L w) (rest : List α) :
    replaceAllM word r f (w ++ rest) = (f w).bind fun out => (replaceAllM word r f rest).map (out ++ ·) := by
  rw [replaceAllM, scan_of_denotes hr hL hnil hw, splice, scan_start hr hL hnil false]
  rfl

theorem replaceAllM_other {a : α} {rest : List α} (h : ∀ w left, a :: rest = w ++ left → ¬ L w) :
    replaceAllM word r f (a :: rest) = (replaceAllM word r f rest).map (a :: ·) := by
  rw [replaceAllM, scan_of_not_denotes hr h, splice, scan_start hr hL hnil false]
  rfl

end

theorem splice_some (f : List α → List α) (parts : List (α ⊕ List α)) :
    splice (fun w => some (f w)) parts = some (parts.flatMap (Sum.elim (fun a => [a]) f)) := by
  induction parts with
  | nil => rfl
  | cons x parts ih =>
    cases x with
    | inl a =>
      rw [splice, ih]
      rfl
    | inr w =>
      rw [splice, ih]
      rfl

theorem replaceAllM_some (f : List α → List α) (text : List α) :
    replaceAllM word r (fun w => some (f w)) text = some (replaceAll word r f text) := splice_some f _

end

end Regex
