import Mathlib.Data.List.Nodup

/-!
# Rows under a key

A table is a list of rows, `key` gives the key of a row. `find` is the first row
under a key, `put` writes a row over the rows under a key, `remove` takes them away.
-/

namespace Keyed

variable {α κ : Type} [DecidableEq κ] (key : α → κ)

def find (rows : List α) (k : κ) : Option α := rows.find? fun row => key row = k

def put (rows : List α) (k : κ) (row : α) : List α := rows.map fun r => if key r = k then row else r

def remove (rows : List α) (k : κ) : List α := rows.filter fun row => key row ≠ k

def Unique (rows : List α) : Prop := (rows.map key).Nodup

instance (rows : List α) : Decidable (Unique key rows) := inferInstanceAs (Decidable (rows.map key).Nodup)

variable {key} {rows : List α} {k : κ} {row old : α}

theorem find_some (h : find key rows k = some row) : row ∈ rows ∧ key row = k :=
  ⟨List.mem_of_find?_eq_some h, by simpa using List.find?_some h⟩

theorem find_none : find key rows k = none ↔ ∀ row ∈ rows, key row ≠ k := by
  simp [find, List.find?_eq_none]

theorem find_isSome : (find key rows k).isSome = true ↔ ∃ row ∈ rows, key row = k := by
  simp [find, List.find?_isSome]

omit [DecidableEq κ] in
theorem Unique.eq (hu : Unique key rows) (h : row ∈ rows) (ho : old ∈ rows) (hk : key row = key old) : row = old :=
  List.inj_on_of_nodup_map hu h ho hk

theorem Unique.find (hu : Unique key rows) (h : row ∈ rows) : Keyed.find key rows (key row) = some row := by
  have hsome : (Keyed.find key rows (key row)).isSome = true := find_isSome.mpr ⟨row, h, rfl⟩
  obtain ⟨r, hr⟩ := Option.isSome_iff_exists.mp hsome
  rw [hr, hu.eq (find_some hr).1 h (find_some hr).2]

theorem Unique.find_iff (hu : Unique key rows) : Keyed.find key rows k = some row ↔ row ∈ rows ∧ key row = k := by
  constructor
  · exact find_some
  · rintro ⟨h, rfl⟩
    exact hu.find h

theorem mem_put_of_mem {r : α} (h : r ∈ put key rows k row) : r = row ∨ r ∈ rows ∧ key r ≠ k := by
  obtain ⟨s, hs, rfl⟩ := List.mem_map.mp h
  by_cases hk : key s = k
  · exact .inl (by rw [if_pos hk])
  · exact .inr (by rw [if_neg hk]; exact ⟨hs, hk⟩)

theorem mem_put (found : find key rows k = some old) {r : α} :
    r ∈ put key rows k row ↔ r = row ∨ r ∈ rows ∧ key r ≠ k := by
  obtain ⟨hm, hk⟩ := find_some found
  constructor
  · exact mem_put_of_mem
  · rintro (rfl | ⟨h, hne⟩)
    · exact List.mem_map.mpr ⟨old, hm, by rw [if_pos hk]⟩
    · exact List.mem_map.mpr ⟨r, h, by rw [if_neg hne]⟩

/-- What a write does not change, it does not change in the column. -/
theorem map_put {β : Type} {f : α → β} (hu : Unique key rows) (found : find key rows k = some old)
    (hf : f row = f old) : (put key rows k row).map f = rows.map f := by
  rw [put, List.map_map]
  refine List.map_congr_left fun r hr => ?_
  by_cases hk : key r = k
  · obtain ⟨hm, hkey⟩ := find_some found
    rw [Function.comp_apply, if_pos hk, hf, hu.eq hm hr (hkey.trans hk.symm)]
  · rw [Function.comp_apply, if_neg hk]

theorem Unique.put (hu : Unique key rows) (found : Keyed.find key rows k = some old) (hk : key row = k) :
    Unique key (put key rows k row) := by
  unfold Unique
  rw [map_put hu found (hk.trans (find_some found).2.symm)]
  exact hu

theorem Unique.append (hu : Unique key rows) (new : Keyed.find key rows (key row) = none) :
    Unique key (rows ++ [row]) := by
  unfold Unique
  rw [List.map_append, List.map_singleton, List.nodup_append]
  refine ⟨hu, List.nodup_singleton _, fun a ha b hb => ?_⟩
  obtain ⟨r, hr, rfl⟩ := List.mem_map.mp ha
  rw [List.mem_singleton.mp hb]
  exact find_none.mp new r hr

omit [DecidableEq κ] in
theorem Unique.filter (hu : Unique key rows) (p : α → Bool) : Unique key (rows.filter p) :=
  (List.Sublist.map key List.filter_sublist).nodup hu

omit [DecidableEq κ] in
theorem Unique.length_le_one (hu : Unique key rows) (h : ∀ r ∈ rows, ∀ r' ∈ rows, key r = key r') :
    rows.length ≤ 1 := by
  match rows with
  | [] => exact Nat.zero_le 1
  | [r] => exact Nat.le_refl 1
  | r :: r' :: rest =>
    have hne : key r ∉ (r' :: rest).map key := (List.nodup_cons.mp hu).1
    exact absurd (List.mem_map.mpr ⟨r', List.mem_cons_self, h r' (by simp) r (by simp)⟩) hne

/-! ## The rows on one side -/

section
variable {p : α → Bool}

theorem find_filter (hu : Unique key rows) : find key (rows.filter p) k = (find key rows k).filter p := by
  ext row
  rw [(hu.filter p).find_iff, Option.filter_eq_some_iff, hu.find_iff, List.mem_filter]
  exact and_right_comm

theorem put_filter (h : ∀ r ∈ rows, key r = k → p r = p row) :
    (put key rows k row).filter p = put key (rows.filter p) k row := by
  unfold put
  rw [List.filter_map]
  congr 1
  refine List.filter_congr fun r hr => ?_
  by_cases hk : key r = k
  · rw [Function.comp_apply, if_pos hk, h r hr hk]
  · rw [Function.comp_apply, if_neg hk]

theorem put_none (h : ∀ r ∈ rows, key r ≠ k) : put key rows k row = rows := by
  unfold put
  rw [List.map_congr_left fun r hr => if_neg (h r hr), List.map_id'']
  exact fun _ => rfl

/-- A write on the other side. -/
theorem put_filter_ne (hp : p row = false) (h : ∀ r ∈ rows, key r = k → p r = false) :
    (put key rows k row).filter p = rows.filter p := by
  rw [put_filter fun r hr hk => (h r hr hk).trans hp.symm, put_none]
  intro r hr hk
  obtain ⟨hm, ht⟩ := List.mem_filter.mp hr
  exact Bool.false_ne_true ((h r hm hk).symm.trans ht)

/-- A write that takes a row out of those that are counted. -/
theorem countP_put (hu : Unique key rows) (ho : old ∈ rows) (hk : key old = k)
    (hp : p old = true) (hn : p row = false) : (put key rows k row).countP p + 1 = rows.countP p := by
  obtain ⟨front, back, rfl⟩ := List.append_of_mem ho
  unfold Unique at hu
  rw [List.map_append, List.map_cons, List.nodup_middle, List.nodup_cons] at hu
  have hother : ∀ r ∈ front ++ back, key r ≠ k := by
    intro r hr hrk
    apply hu.1
    rw [← List.map_append, hk, ← hrk]
    exact List.mem_map_of_mem hr
  have hfront : put key front k row = front := put_none fun r hr => hother r (List.mem_append_left _ hr)
  have hback : put key back k row = back := put_none fun r hr => hother r (List.mem_append_right _ hr)
  have hput : put key (front ++ old :: back) k row = front ++ row :: back := by
    unfold put at hfront hback ⊢
    rw [List.map_append, List.map_cons, hfront, hback, if_pos hk]
  rw [hput, List.countP_append, List.countP_append, List.countP_cons_of_neg (by simp [hn]),
    List.countP_cons_of_pos hp, Nat.add_assoc]

omit [DecidableEq κ] in
theorem append_filter {new : List α} (h : ∀ r ∈ new, p r = true) :
    (rows ++ new).filter p = rows.filter p ++ new := by
  rw [List.filter_append, List.filter_eq_self.mpr h]

omit [DecidableEq κ] in
theorem append_filter_ne {new : List α} (h : ∀ r ∈ new, p r = false) : (rows ++ new).filter p = rows.filter p := by
  have hnil : new.filter p = [] := List.filter_eq_nil_iff.mpr fun r hr => by simp [h r hr]
  rw [List.filter_append, hnil, List.append_nil]

theorem remove_filter : (remove key rows k).filter p = remove key (rows.filter p) k := List.filter_comm ..

theorem remove_filter_ne (h : ∀ r ∈ rows, key r = k → p r = false) :
    (remove key rows k).filter p = rows.filter p := by
  unfold remove
  rw [List.filter_filter]
  refine List.filter_congr fun r hr => ?_
  by_cases hk : key r = k
  · simp [h r hr hk]
  · simp [hk]

end

theorem Unique.put_row (hu : Unique key rows) : Unique key (Keyed.put key rows (key row) row) := by
  unfold Unique Keyed.put
  have hmap : (fun r => key (if key r = key row then row else r)) = key := by
    funext r
    split
    · rename_i h
      exact h.symm
    · rfl
  rw [List.map_map]
  exact (congrArg (fun f => (rows.map f).Nodup) hmap).mpr hu

/-! ## Tables -/

/-- Rows that a primary key tells apart. -/
@[ext] structure Table {α κ : Type} (key : α → κ) where
  rows : List α
  unique : Unique key rows

namespace Table

def empty (key : α → κ) : Table key := ⟨[], List.nodup_nil⟩

def find (t : Table key) (k : κ) : Option α := Keyed.find key t.rows k

/-- No row, when there is one under the key. -/
def insert (t : Table key) (row : α) : Option (Table key) :=
  if h : t.find (key row) = none then some ⟨t.rows ++ [row], t.unique.append h⟩ else none

def put (t : Table key) (row : α) : Table key := ⟨Keyed.put key t.rows (key row) row, t.unique.put_row⟩

def remove (t : Table key) (k : κ) : Table key := ⟨Keyed.remove key t.rows k, t.unique.filter _⟩

def filter (t : Table key) (p : α → Bool) : Table key := ⟨t.rows.filter p, t.unique.filter p⟩

variable {t t' : Table key} {p : α → Bool}

theorem find_filter : (t.filter p).find k = (t.find k).filter p := Keyed.find_filter t.unique

theorem find_inside (h : ∀ r ∈ t.rows, key r = k → p r = true) : (t.filter p).find k = t.find k := by
  rw [find_filter]
  cases hf : t.find k with
  | none => rfl
  | some r => rw [Option.filter_some, if_pos (h r (find_some hf).1 (find_some hf).2)]

theorem insert_some : t.insert row = some t' ↔ t.find (key row) = none ∧ t'.rows = t.rows ++ [row] := by
  unfold insert
  split
  · rename_i h
    simp only [Option.some.injEq, h, true_and]
    exact ⟨fun heq => heq ▸ rfl, fun heq => Table.ext heq.symm⟩
  · rename_i h
    simp [h]

/-- A row that the rows on its own side let in, when no row of the other side has its key. -/
theorem insert_filter (hp : p row = true) (h : ∀ r ∈ t.rows, key r = key row → p r = true) :
    (t.filter p).insert row = (t.insert row).map (·.filter p) := by
  have hfind : (t.filter p).find (key row) = t.find (key row) := find_inside h
  unfold insert
  by_cases hnone : t.find (key row) = none
  · rw [dif_pos (hfind.trans hnone), dif_pos hnone, Option.map_some]
    congr 1
    refine Table.ext ?_
    simp [filter, hp]
  · rw [dif_neg (hfind.symm ▸ hnone), dif_neg hnone]
    rfl

theorem insert_filter_ne (hp : p row = false) (h : t.insert row = some t') : t'.filter p = t.filter p := by
  refine Table.ext ?_
  simp [filter, (insert_some.mp h).2, hp]

theorem put_filter (h : ∀ r ∈ t.rows, key r = key row → p r = p row) :
    (t.put row).filter p = (t.filter p).put row :=
  Table.ext (Keyed.put_filter h)

theorem put_filter_ne (hp : p row = false) (h : ∀ r ∈ t.rows, key r = key row → p r = false) :
    (t.put row).filter p = t.filter p := Table.ext (Keyed.put_filter_ne hp h)

theorem remove_filter : (t.remove k).filter p = (t.filter p).remove k := Table.ext Keyed.remove_filter

theorem remove_filter_ne (h : ∀ r ∈ t.rows, key r = k → p r = false) : (t.remove k).filter p = t.filter p :=
  Table.ext (Keyed.remove_filter_ne h)

end Table

end Keyed
