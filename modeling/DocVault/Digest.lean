import Mathlib.Data.List.Nodup
import Mathlib.Logic.Function.Basic

/-!
# Hex digests without collisions

What a development may assume of a hash function whose digests are printed in
hexadecimal, and a family of functions that meet it: given digests on the
texts of a table, and a longer code on all other texts.
-/

namespace Digest

def hexDigits : List Char := ['0', '1', '2', '3', '4', '5', '6', '7', '8', '9', 'a', 'b', 'c', 'd', 'e', 'f']

structure CollisionFree (h : String → String) : Prop where
  injective : Function.Injective h
  hex : ∀ s, ∀ c ∈ (h s).toList, c ∈ hexDigits
  nonempty : ∀ s, h s ≠ ""

theorem CollisionFree.not_mem {h : String → String} (hh : CollisionFree h) {c : Char}
    (hc : c ∉ hexDigits) (s : String) : c ∉ (h s).toList := fun hm => hc (hh.hex s c hm)

/-! ## Digests from a table -/

/-- A prefix code over `0` and `1`. -/
def code : List Char → List Char
  | [] => []
  | c :: s => List.replicate c.toNat '0' ++ '1' :: code s

def ofTable (table : List (String × String)) (s : String) : String :=
  (table.lookup s).getD (String.ofList (List.replicate 65 '0' ++ code s.toList))

/-- A table of distinct digests of at most 64 hex digits. -/
def Valid (table : List (String × String)) : Prop :=
  (table.map Prod.snd).Nodup ∧ ∀ e ∈ table, e.2.toList.length ≤ 64 ∧ e.2 ≠ "" ∧ e.2.toList.all (· ∈ hexDigits)

instance (table : List (String × String)) : Decidable (Valid table) := inferInstanceAs (Decidable (_ ∧ _))

theorem replicate_append_inj {x y : List Char} : ∀ {a b : Nat},
    List.replicate a '0' ++ '1' :: x = List.replicate b '0' ++ '1' :: y → a = b ∧ x = y
  | 0, 0, h => ⟨rfl, by simpa using h⟩
  | 0, b + 1, h => by simp [List.replicate_succ] at h
  | a + 1, 0, h => by simp [List.replicate_succ] at h
  | a + 1, b + 1, h => by
    rw [List.replicate_succ, List.replicate_succ, List.cons_append, List.cons_append] at h
    obtain ⟨rfl, hxy⟩ := replicate_append_inj (List.cons.inj h).2
    exact ⟨rfl, hxy⟩

theorem code_injective : ∀ {s t : List Char}, code s = code t → s = t
  | [], [], _ => rfl
  | [], c :: t, h => by simp [code] at h
  | c :: s, [], h => by simp [code] at h
  | c :: s, d :: t, h => by
    obtain ⟨hc, ht⟩ := replicate_append_inj h
    rw [Char.toNat_inj.mp hc, code_injective ht]

theorem code_digits : ∀ {s : List Char} {c : Char}, c ∈ code s → c ∈ hexDigits
  | d :: s, c, h => by
    rcases List.mem_append.mp h with h | h
    · rw [List.eq_of_mem_replicate h]; decide
    · rcases List.mem_cons.mp h with rfl | h
      · decide
      · exact code_digits h

theorem lookup_mem {table : List (String × String)} {s d : String} (h : table.lookup s = some d) :
    (s, d) ∈ table := by
  induction table with
  | nil => simp at h
  | cons e table ih =>
    rw [List.lookup_cons] at h
    split at h
    · rename_i hs
      obtain rfl := Option.some.inj h
      rw [eq_of_beq hs]
      exact List.mem_cons_self ..
    · exact List.mem_cons_of_mem _ (ih h)

theorem snd_inj {table : List (String × String)} (h : (table.map Prod.snd).Nodup) {e f : String × String}
    (he : e ∈ table) (hf : f ∈ table) (hef : e.2 = f.2) : e = f :=
  List.inj_on_of_nodup_map h he hf hef

theorem ofTable_cons_self (s d : String) (table : List (String × String)) : ofTable ((s, d) :: table) s = d := by
  rw [ofTable, List.lookup_cons_self, Option.getD_some]

theorem valid_nil : Valid [] := by decide

/-- A row for a table, with the characters of its digest. -/
theorem valid_cons {table : List (String × String)} {s d : String} {cs : List Char} (hd : d = String.ofList cs)
    (hcs : cs.length ≤ 64 ∧ cs ≠ [] ∧ cs.all (· ∈ hexDigits) = true)
    (hn : d ∉ table.map Prod.snd) (ht : Valid table) : Valid ((s, d) :: table) := by
  subst hd
  refine ⟨List.nodup_cons.mpr ⟨hn, ht.1⟩, List.forall_mem_cons.mpr ⟨?_, ht.2⟩⟩
  rw [String.toList_ofList]
  exact ⟨hcs.1, fun h => hcs.2.1 (String.ofList_injective (h.trans rfl)), hcs.2.2⟩

theorem ofTable_collisionFree (table : List (String × String)) (h : Valid table) :
    CollisionFree (ofTable table) where
  injective s t hst := by
    unfold ofTable at hst
    cases hs : table.lookup s with
    | some d =>
      cases ht : table.lookup t with
      | some d' =>
        simp only [hs, ht, Option.getD_some] at hst
        exact (Prod.mk.inj (snd_inj h.1 (lookup_mem hs) (lookup_mem ht) hst)).1
      | none =>
        simp only [hs, ht, Option.getD_some, Option.getD_none] at hst
        have := (h.2 _ (lookup_mem hs)).1
        rw [hst, String.toList_ofList, List.length_append, List.length_replicate] at this
        omega
    | none =>
      cases ht : table.lookup t with
      | some d =>
        simp only [hs, ht, Option.getD_some, Option.getD_none] at hst
        have := (h.2 _ (lookup_mem ht)).1
        rw [← hst, String.toList_ofList, List.length_append, List.length_replicate] at this
        omega
      | none =>
        simp only [hs, ht, Option.getD_none] at hst
        have := String.ofList_injective hst
        exact String.toList_inj.mp (code_injective (List.append_cancel_left this))
  hex s c hc := by
    unfold ofTable at hc
    cases hs : table.lookup s with
    | some d => rw [hs] at hc; exact of_decide_eq_true (List.all_eq_true.mp (h.2 _ (lookup_mem hs)).2.2 c hc)
    | none =>
      rw [hs] at hc
      simp only [Option.getD_none, String.toList_ofList] at hc
      rcases List.mem_append.mp hc with hc | hc
      · rw [List.eq_of_mem_replicate hc]; decide
      · exact code_digits hc
  nonempty s := by
    unfold ofTable
    cases hs : table.lookup s with
    | some d => exact (h.2 _ (lookup_mem hs)).2.1
    | none =>
      intro he
      have := congrArg String.toList he
      simp [List.replicate_succ] at this

end Digest
