import Mathlib.Data.List.Nodup

/-!
# Buckets

A loop over elements that keeps a value for every key in a table: the value of
the key of an element is updated with the element, a key without a value starts
with one made from its first element. Keys stand in the order they were met.
-/

namespace Buckets

variable {ε κ β : Type} [DecidableEq κ] (key : ε → κ) (start : ε → β) (add : β → ε → β)

def put (x : ε) : List (κ × β) → List (κ × β)
  | [] => [(key x, add (start x) x)]
  | (k, b) :: rows => if k = key x then (k, add b x) :: rows else (k, b) :: put x rows

def collect (xs : List ε) : List (κ × β) := xs.foldl (fun rows x => put key start add x rows) []

/-- The value of the key of some elements, in the order of the loop. -/
def total : List ε → Option β
  | [] => none
  | x :: xs => some ((x :: xs).foldl add (start x))

/-- The table holds the keys of the elements, each once, with the totals. -/
structure Holds (xs : List ε) (rows : List (κ × β)) : Prop where
  keys : (rows.map Prod.fst).Nodup
  totals : ∀ k b, (k, b) ∈ rows ↔ total start add (xs.filter fun x => key x = k) = some b

variable {key start add}

theorem total_snoc (xs : List ε) (x : ε) :
    total start add (xs ++ [x]) = some (add ((total start add xs).getD (start x)) x) := by
  cases xs with
  | nil => rfl
  | cons y xs =>
    rw [List.cons_append, total, ← List.cons_append, List.foldl_append]
    rfl

theorem total_mem {xs : List ε} {b : β} (h : total start add xs = some b) :
    ∃ x ∈ xs, b = xs.foldl add (start x) := by
  cases xs with
  | nil => cases h
  | cons x xs => exact ⟨x, List.mem_cons_self, (Option.some.inj h).symm⟩

theorem put_keys (x : ε) (rows : List (κ × β)) :
    (put key start add x rows).map Prod.fst =
      if key x ∈ rows.map Prod.fst then rows.map Prod.fst else rows.map Prod.fst ++ [key x] := by
  induction rows with
  | nil => simp [put]
  | cons row rows ih =>
    obtain ⟨k, b⟩ := row
    by_cases hk : k = key x
    · simp [put, hk]
    · rw [put, if_neg hk, List.map_cons, ih]
      by_cases hin : key x ∈ rows.map Prod.fst
      · rw [if_pos hin, if_pos (by rw [List.map_cons]; exact List.mem_cons_of_mem _ hin), List.map_cons]
      · have hnot : key x ∉ ((k, b) :: rows).map Prod.fst := by
          intro h
          rcases List.mem_cons.mp h with h | h
          · exact hk h.symm
          · exact hin h
        rw [if_neg hin, if_neg hnot]
        rfl

theorem mem_put_ne {x : ε} {rows : List (κ × β)} {k : κ} {b : β} (h : key x ≠ k) :
    (k, b) ∈ put key start add x rows ↔ (k, b) ∈ rows := by
  induction rows with
  | nil => simp [put, h.symm]
  | cons row rows ih =>
    obtain ⟨k', b'⟩ := row
    by_cases hk : k' = key x
    · rw [put, if_pos hk]
      have hne : k ≠ k' := fun he => h (hk.symm.trans he.symm)
      simp [hne]
    · rw [put, if_neg hk, List.mem_cons, List.mem_cons, ih]

theorem mem_put_key {x : ε} {rows : List (κ × β)} {b : β} (hn : (rows.map Prod.fst).Nodup) :
    (key x, b) ∈ put key start add x rows ↔
      (∃ old, (key x, old) ∈ rows ∧ b = add old x) ∨ key x ∉ rows.map Prod.fst ∧ b = add (start x) x := by
  induction rows with
  | nil => simp [put]
  | cons row rows ih =>
    obtain ⟨k, old⟩ := row
    obtain ⟨hk', hn⟩ := List.nodup_cons.mp hn
    by_cases hk : k = key x
    · subst hk
      have hnone : ∀ b, (key x, b) ∉ rows := fun b hb => hk' (List.mem_map.mpr ⟨_, hb, rfl⟩)
      simp [put, hnone]
    · have hne : key x ≠ k := fun he => hk he.symm
      rw [put, if_neg hk, List.mem_cons, ih hn]
      simp [hne]

theorem Holds.put {xs : List ε} {rows : List (κ × β)} (h : Holds key start add xs rows) (x : ε) :
    Holds key start add (xs ++ [x]) (put key start add x rows) := by
  constructor
  · rw [put_keys]
    by_cases hin : key x ∈ rows.map Prod.fst
    · rw [if_pos hin]
      exact h.keys
    · rw [if_neg hin]
      refine List.nodup_append.mpr ⟨h.keys, List.nodup_singleton _, fun a ha b hb he => hin ?_⟩
      rwa [← List.mem_singleton.mp hb, ← he]
  · intro k b
    by_cases hk : key x = k
    · subst hk
      have hfilter : (xs ++ [x]).filter (fun y => key y = key x) = (xs.filter fun y => key y = key x) ++ [x] := by
        simp
      rw [mem_put_key h.keys, hfilter, total_snoc]
      cases ht : total start add (xs.filter fun y => key y = key x) with
      | none =>
        have hnone : ∀ old, (key x, old) ∉ rows := fun old hold => by
          cases ht.symm.trans ((h.totals _ old).mp hold)
        have hkey : key x ∉ rows.map Prod.fst := fun hin => by
          obtain ⟨⟨k, old⟩, hrow, hk⟩ := List.mem_map.mp hin
          exact hnone old (hk ▸ hrow)
        simp [hnone, hkey, eq_comm]
      | some old =>
        have hold := (h.totals _ old).mpr ht
        have hin : key x ∈ rows.map Prod.fst := List.mem_map.mpr ⟨_, hold, rfl⟩
        have hone : ∀ old', (key x, old') ∈ rows ↔ old' = old := fun old' => by
          rw [h.totals, ht, Option.some.injEq, eq_comm]
        simp [hone, hin, eq_comm]
    · have hfilter : (xs ++ [x]).filter (fun y => key y = k) = xs.filter fun y => key y = k := by simp [hk]
      rw [mem_put_ne hk, h.totals, hfilter]

/-- The loop leaves the total of every key. -/
theorem collect_holds (xs : List ε) : Holds key start add xs (collect key start add xs) := by
  have hrun : ∀ (done xs : List ε) (rows : List (κ × β)), Holds key start add done rows →
      Holds key start add (done ++ xs) (xs.foldl (fun rows x => Buckets.put key start add x rows) rows) := by
    intro done xs
    induction xs generalizing done with
    | nil => intro rows h; simpa using h
    | cons x xs ih =>
      intro rows h
      rw [List.append_cons]
      exact ih _ _ (h.put x)
  exact hrun [] xs [] ⟨List.nodup_nil, fun k b => by simp [total]⟩

theorem Holds.lookup {xs : List ε} {rows : List (κ × β)} (h : Holds key start add xs rows) (k : κ) :
    rows.lookup k = total start add (xs.filter fun x => key x = k) := by
  ext b
  rw [← h.totals k b, List.lookup_eq_some_iff]
  constructor
  · intro hfirst
    obtain ⟨before, after, hrows, -⟩ := hfirst
    simp [hrows]
  · intro hrow
    obtain ⟨before, after, hrows⟩ := List.append_of_mem hrow
    refine ⟨before, after, hrows, fun row hr => ?_⟩
    have hn := h.keys
    rw [hrows, List.map_append, List.map_cons] at hn
    have hne := (List.nodup_append.mp hn).2.2 row.1 (List.mem_map_of_mem hr) k List.mem_cons_self
    simpa using hne.symm

end Buckets
