import Mathlib.Data.List.Nodup

/-!
# Linked sequences

Elements that name their predecessor by its key. A `Path` is an arrangement
in which each element names the one before it, a `Chain` one whose keys are
moreover distinct, so that an element has one successor. A chain is the only
arrangement of its elements: every path through them is a prefix of it.
-/

namespace Linked

section
variable {α κ : Type} (pred key : α → Option κ)

structure Path (l : List α) : Prop where
  root : ∀ a : α, l[0]? = some a → pred a = none
  step : ∀ (i : Nat) (b : α), l[i + 1]? = some b → ∃ a k, l[i]? = some a ∧ key a = some k ∧ pred b = some k

structure Chain (l : List α) : Prop extends Path pred key l where
  keys : ∀ (i j : Nat) (a b : α) (k : κ), l[i]? = some a → l[j]? = some b → key a = some k → key b = some k → i = j

end

section
variable {α κ : Type} {pred key : α → Option κ} {l m : List α}

theorem chain_nil : Chain pred key ([] : List α) where
  root := by simp
  step := by simp
  keys := by simp

theorem prefix_getElem? (h : m <+: l) {i : Nat} {a : α} (ha : m[i]? = some a) : l[i]? = some a := by
  obtain ⟨t, rfl⟩ := h
  have hi : i < m.length := (List.getElem?_eq_some_iff.mp ha).1
  rw [List.getElem?_append_left hi, ha]

theorem Path.of_prefix (hl : Path pred key l) (h : m <+: l) : Path pred key m where
  root a ha := hl.root a (prefix_getElem? h ha)
  step i b hb := by
    obtain ⟨a, k, ha, hk, hp⟩ := hl.step i b (prefix_getElem? h hb)
    have hi : i + 1 < m.length := (List.getElem?_eq_some_iff.mp hb).1
    have hm : m[i]? = some m[i] := List.getElem?_eq_getElem (by omega)
    have : m[i] = a := Option.some.inj ((prefix_getElem? h hm).symm.trans ha)
    exact ⟨a, k, this ▸ hm, hk, hp⟩

theorem Chain.of_prefix (hl : Chain pred key l) (h : m <+: l) : Chain pred key m where
  toPath := hl.toPath.of_prefix h
  keys i j a b k ha hb := hl.keys i j a b k (prefix_getElem? h ha) (prefix_getElem? h hb)

theorem Path.index_zero (hl : Path pred key l) {j : Nat} {b : α} (hb : l[j]? = some b) (hp : pred b = none) :
    j = 0 := by
  cases j with
  | zero => rfl
  | succ j =>
    obtain ⟨a, k, _, _, hk⟩ := hl.step j b hb
    rw [hp] at hk; cases hk

theorem Chain.index_succ (hl : Chain pred key l) {i j : Nat} {a b : α} {k : κ} (ha : l[i]? = some a)
    (hk : key a = some k) (hb : l[j]? = some b) (hp : pred b = some k) : j = i + 1 := by
  cases j with
  | zero => rw [hl.root b hb] at hp; cases hp
  | succ j =>
    obtain ⟨a', k', ha', hk', hp'⟩ := hl.step j b hb
    rw [hp] at hp'
    obtain rfl := Option.some.inj hp'
    rw [hl.keys j i a' a k ha' ha hk' hk]

theorem Chain.pred_inj (hl : Chain pred key l) {i j : Nat} {a b : α} (ha : l[i]? = some a) (hb : l[j]? = some b)
    (h : pred a = pred b) : i = j := by
  cases hp : pred a with
  | none => rw [hl.index_zero ha hp, hl.index_zero hb (h ▸ hp)]
  | some k =>
    cases i with
    | zero => rw [hl.root a ha] at hp; cases hp
    | succ i =>
      obtain ⟨c, k', hc, hk, hp'⟩ := hl.step i a ha
      rw [hp] at hp'
      obtain rfl := Option.some.inj hp'
      exact (hl.index_succ hc hk hb (h ▸ hp)).symm

theorem Chain.nodup (hl : Chain pred key l) : (l.map pred).Nodup := by
  rw [List.nodup_iff_injective_getElem]
  intro ⟨i, hi⟩ ⟨j, hj⟩ h
  simp only [List.length_map] at hi hj
  simp only [List.getElem_map] at h
  exact Fin.ext (hl.pred_inj (List.getElem?_eq_getElem hi) (List.getElem?_eq_getElem hj) h)

/-- Uniqueness of the arrangement: a path through elements of a chain is a prefix of it. -/
theorem Chain.prefix_of_path (hl : Chain pred key l) (hm : Path pred key m) (hs : ∀ a ∈ m, a ∈ l) : m <+: l := by
  have h : ∀ (i : Nat) (a : α), m[i]? = some a → l[i]? = some a := by
    intro i
    induction i with
    | zero =>
      intro a ha
      obtain ⟨j, hj⟩ := List.mem_iff_getElem?.mp (hs a (List.mem_of_getElem? ha))
      rw [hl.index_zero hj (hm.root a ha)] at hj
      exact hj
    | succ i ih =>
      intro b hb
      obtain ⟨a, k, ha, hk, hp⟩ := hm.step i b hb
      obtain ⟨j, hj⟩ := List.mem_iff_getElem?.mp (hs b (List.mem_of_getElem? hb))
      rw [hl.index_succ (ih a ha) hk hj hp] at hj
      exact hj
  rw [List.prefix_iff_getElem?]
  intro i hi
  exact h i m[i] (List.getElem?_eq_getElem hi)

theorem Chain.congr (hl : Chain pred key l) (hp : m.map pred = l.map pred) (hk : m.map key = l.map key) :
    Chain pred key m := by
  have hget : ∀ {i : Nat} {a : α}, m[i]? = some a → ∃ b, l[i]? = some b ∧ pred a = pred b ∧ key a = key b := by
    intro i a ha
    have h1 : (l.map pred)[i]? = some (pred a) := by rw [← hp, List.getElem?_map, ha]; rfl
    have h2 : (l.map key)[i]? = some (key a) := by rw [← hk, List.getElem?_map, ha]; rfl
    rw [List.getElem?_map, Option.map_eq_some_iff] at h1 h2
    obtain ⟨b, hb, hpb⟩ := h1
    obtain ⟨b', hb', hkb⟩ := h2
    obtain rfl := Option.some.inj (hb.symm.trans hb')
    exact ⟨b, hb, hpb.symm, hkb.symm⟩
  refine ⟨⟨fun a ha => ?_, fun i b hb => ?_⟩, fun i j a b k ha hb hka hkb => ?_⟩
  · obtain ⟨a', ha', hpa, _⟩ := hget ha
    rw [hpa, hl.root a' ha']
  · obtain ⟨b', hb', hpb, _⟩ := hget hb
    obtain ⟨a', k, ha', hka, hpk⟩ := hl.step i b' hb'
    have hi : i + 1 < m.length := (List.getElem?_eq_some_iff.mp hb).1
    have hm : m[i]? = some m[i] := List.getElem?_eq_getElem (by omega)
    obtain ⟨c, hc, _, hkc⟩ := hget hm
    obtain rfl := Option.some.inj (ha'.symm.trans hc)
    exact ⟨m[i], k, hm, hkc.trans hka, hpb.trans hpk⟩
  · obtain ⟨a', ha', _, hka'⟩ := hget ha
    obtain ⟨b', hb', _, hkb'⟩ := hget hb
    exact hl.keys i j a' b' k ha' hb' (hka'.symm.trans hka) (hkb'.symm.trans hkb)

theorem Path.map {β : Type} {f : α → β} {pred' key' : β → Option κ} (hl : Path pred key l)
    (hp : ∀ a, pred' (f a) = pred a) (hk : ∀ a, key' (f a) = key a) : Path pred' key' (l.map f) where
  root b hb := by
    rw [List.getElem?_map, Option.map_eq_some_iff] at hb
    obtain ⟨a, ha, rfl⟩ := hb
    rw [hp, hl.root a ha]
  step i b hb := by
    rw [List.getElem?_map, Option.map_eq_some_iff] at hb
    obtain ⟨b, hb, rfl⟩ := hb
    obtain ⟨a, k, ha, hka, hpb⟩ := hl.step i b hb
    exact ⟨f a, k, by rw [List.getElem?_map, ha]; rfl, (hk a).trans hka, (hp b).trans hpb⟩

theorem Chain.map {β : Type} {f : α → β} {pred' key' : β → Option κ} (hl : Chain pred key l)
    (hp : ∀ a, pred' (f a) = pred a) (hk : ∀ a, key' (f a) = key a) : Chain pred' key' (l.map f) where
  toPath := hl.toPath.map hp hk
  keys i j a b k ha hb hka hkb := by
    rw [List.getElem?_map, Option.map_eq_some_iff] at ha hb
    obtain ⟨a, ha, rfl⟩ := ha
    obtain ⟨b, hb, rfl⟩ := hb
    exact hl.keys i j a b k ha hb ((hk a).symm.trans hka) ((hk b).symm.trans hkb)

/-- Where a key determines what `f` tells of an element, a path whose last
element is found in another path is, as `f` tells, its beginning. -/
theorem Path.map_prefix {β : Type} {f : α → β} (hl : Path pred key l) (hm : Path pred key m)
    (hpred : ∀ a b, f a = f b → pred a = pred b)
    (hkey : ∀ a ∈ l, ∀ b ∈ m, ∀ k, key a = some k → key b = some k → f a = f b) {a b : α}
    (ha : l.getLast? = some a) (hb : b ∈ m) (hf : f a = f b) : l.map f <+: m.map f := by
  have h : ∀ (i j : Nat) (a b : α), l[i]? = some a → m[j]? = some b → f a = f b →
      i = j ∧ (l.take (i + 1)).map f = (m.take (i + 1)).map f := by
    intro i
    induction i with
    | zero =>
      intro j a b ha hb hf
      obtain rfl := hm.index_zero hb ((hpred a b hf).symm.trans (hl.root a ha))
      exact ⟨rfl, by simp [List.take_add_one, ha, hb, hf]⟩
    | succ i ih =>
      intro j a b ha hb hf
      obtain ⟨a', k, ha', hka, hpa⟩ := hl.step i a ha
      cases j with
      | zero => rw [hpred a b hf, hm.root b hb] at hpa; cases hpa
      | succ j =>
        obtain ⟨b', k', hb', hkb, hpb⟩ := hm.step j b hb
        rw [hpred a b hf, hpb] at hpa
        obtain rfl := Option.some.inj hpa
        have hf' := hkey a' (List.mem_of_getElem? ha') b' (List.mem_of_getElem? hb') k' hka hkb
        obtain ⟨rfl, heq⟩ := ih j a' b' ha' hb' hf'
        refine ⟨rfl, ?_⟩
        have hl' : l.take (i + 1 + 1) = l.take (i + 1) ++ [a] := by rw [List.take_add_one, ha]; rfl
        have hm' : m.take (i + 1 + 1) = m.take (i + 1) ++ [b] := by rw [List.take_add_one, hb]; rfl
        rw [hl', hm', List.map_append, List.map_append, heq, List.map_singleton, List.map_singleton, hf]
  obtain ⟨j, hj⟩ := List.mem_iff_getElem?.mp hb
  have hlen : 0 < l.length := by
    cases l with
    | nil => simp at ha
    | cons _ _ => simp
  have hi : l[l.length - 1]? = some a := by rw [← List.getLast?_eq_getElem?, ha]
  have htake := (h (l.length - 1) j a b hi hj hf).2
  rw [List.take_of_length_le (by omega)] at htake
  rw [htake]
  exact (List.take_prefix _ m).map f

theorem Chain.last_of_unnamed (hl : Chain pred key l) {i : Nat} {a : α} {k : κ} (ha : l[i]? = some a)
    (hk : key a = some k) (hf : ∀ b ∈ l, pred b ≠ some k) : i + 1 = l.length := by
  have hi : i < l.length := (List.getElem?_eq_some_iff.mp ha).1
  rcases Nat.lt_or_ge (i + 1) l.length with h | h
  · have hb : l[i + 1]? = some l[i + 1] := List.getElem?_eq_getElem h
    obtain ⟨a', k', ha', hk', hp⟩ := hl.step i _ hb
    rw [ha] at ha'
    obtain rfl := Option.some.inj ha'
    rw [hk] at hk'
    obtain rfl := Option.some.inj hk'
    exact absurd hp (hf _ (List.mem_of_getElem? hb))
  · omega

theorem Chain.concat (hl : Chain pred key l) {b : α}
    (hb : (l = [] ∧ pred b = none) ∨ ∃ i a k, l[i]? = some a ∧ i + 1 = l.length ∧ key a = some k ∧ pred b = some k)
    (hk : ∀ k, key b = some k → ∀ a ∈ l, key a ≠ some k) : Chain pred key (l ++ [b]) where
  root a ha := by
    rcases hb with ⟨rfl, hp⟩ | ⟨i, _, _, _, hi, _, _⟩
    · simp only [List.nil_append, List.getElem?_cons_zero, Option.some.injEq] at ha
      exact ha ▸ hp
    · rw [List.getElem?_append_left (by omega)] at ha
      exact hl.root a ha
  step i c hc := by
    rcases Nat.lt_or_ge (i + 1) l.length with h | h
    · rw [List.getElem?_append_left h] at hc
      obtain ⟨a, k, ha, hka, hp⟩ := hl.step i c hc
      exact ⟨a, k, by rw [List.getElem?_append_left (by omega), ha], hka, hp⟩
    · rw [List.getElem?_append_right h] at hc
      have hlen : i + 1 - l.length = 0 := by
        have := (List.getElem?_eq_some_iff.mp hc).1
        simpa using this
      rw [hlen, List.getElem?_cons_zero] at hc
      obtain rfl := Option.some.inj hc
      rcases hb with ⟨rfl, _⟩ | ⟨j, a, k, ha, hj, hka, hp⟩
      · simp at hlen
      · have : j = i := by omega
        subst this
        exact ⟨a, k, by rw [List.getElem?_append_left (by omega), ha], hka, hp⟩
  keys i j a c k ha hc hka hkc := by
    rcases Nat.lt_or_ge i l.length with hi | hi <;> rcases Nat.lt_or_ge j l.length with hj | hj
    · rw [List.getElem?_append_left hi] at ha
      rw [List.getElem?_append_left hj] at hc
      exact hl.keys i j a c k ha hc hka hkc
    · rw [List.getElem?_append_left hi] at ha
      rw [List.getElem?_append_right hj] at hc
      have hcb : c = b := by simpa using List.mem_of_getElem? hc
      exact absurd hka (hk k (hcb ▸ hkc) a (List.mem_of_getElem? ha))
    · rw [List.getElem?_append_right hi] at ha
      rw [List.getElem?_append_left hj] at hc
      have hab : a = b := by simpa using List.mem_of_getElem? ha
      exact absurd hkc (hk k (hab ▸ hka) c (List.mem_of_getElem? hc))
    · have h1 := (List.getElem?_eq_some_iff.mp ha).1
      have h2 := (List.getElem?_eq_some_iff.mp hc).1
      simp only [List.length_append, List.length_singleton] at h1 h2
      omega

end

end Linked
