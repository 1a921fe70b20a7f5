import DocVault.Regex

/-!
# Scanning a text piece by piece

A text is scanned through pieces that hold no match and pieces that are one.
-/

namespace Regex

variable {α : Type} {word : α → Bool} {r : Regex α} {b : Bool}

/-! ## Pieces without a match -/

variable (word) in
/-- No match begins in `x` where `rest` follows. -/
def Skips (r : Regex α) (x rest : List α) : Prop :=
  ∀ b, scan word r 0 b (x ++ rest) = x.map .inl ++ scan word r 0 (after word b x) rest

theorem skips_nil (rest : List α) : Skips word r [] rest := fun _ => rfl

theorem skips_singleton {a : α} {rest : List α} (h : ∀ b, r.run word (b, a :: rest) = []) :
    Skips word r [a] rest := by
  intro b
  rw [List.singleton_append, scan, h b]
  rfl

theorem Skips.append {x y rest : List α} (hx : Skips word r x (y ++ rest)) (hy : Skips word r y rest) :
    Skips word r (x ++ y) rest := by
  intro b
  rw [List.append_assoc, hx b, hy, List.map_append, List.append_assoc, after_append]

variable (word) in
/-- Every match begins with `d`. -/
def Begins (d : α) (r : Regex α) : Prop := ∀ b text c, c ∈ r.run word (b, text) → ∃ t, text = d :: t

theorem Begins.run_eq_nil {d : α} (hd : Begins word d r) {text : List α} (h : ∀ t, text ≠ d :: t) (b : Bool) :
    r.run word (b, text) = [] := by
  rw [List.eq_nil_iff_forall_not_mem]
  intro c hc
  obtain ⟨t, ht⟩ := hd b text c hc
  exact h t ht

theorem Begins.skips {d : α} (hd : Begins word d r) {x : List α} (hx : d ∉ x) (rest : List α) :
    Skips word r x rest := by
  induction x with
  | nil => exact skips_nil rest
  | cons a x ih =>
    simp only [List.mem_cons, not_or] at hx
    have ha : Skips word r [a] (x ++ rest) := by
      apply skips_singleton
      apply hd.run_eq_nil
      intro t ht
      exact hx.1 (List.cons.inj ht).1.symm
    exact ha.append (ih hx.2)

/-- A piece that begins with `d` but not with a match. -/
theorem Begins.skips_cons {d : α} (hd : Begins word d r) {x rest : List α} (hx : d ∉ x)
    (hno : ∀ b, r.run word (b, d :: (x ++ rest)) = []) : Skips word r (d :: x) rest :=
  (skips_singleton hno).append (hd.skips hx rest)

theorem Begins.scan_nil {d : α} (hd : Begins word d r) (b : Bool) : scan word r 0 b [] = [] := by
  rw [scan, hd.run_eq_nil (by simp)]
  rfl

theorem Begins.seq {d : α} (hd : Begins word d r) (s : Regex α) : Begins word d (seq r s) := by
  intro b text c hc
  obtain ⟨m, hm, -⟩ := mem_run_seq.mp hc
  exact hd b text m hm

/-! ## Results of a replacement -/

theorem scan_flatten (skip : Nat) (b : Bool) (text : List α) :
    (scan word r skip b text).flatMap (Sum.elim (fun a => [a]) id) = text.drop skip := by
  induction text generalizing skip b with
  | nil =>
    rw [scan, List.drop_nil]
    split <;> rfl
  | cons a rest ih =>
    cases skip with
    | succ skip =>
      rw [scan, ih]
      rfl
    | zero =>
      rw [scan, List.drop_zero]
      cases (r.run word (b, a :: rest)).head? with
      | none =>
        rw [List.flatMap_cons, ih]
        rfl
      | some c =>
        by_cases hn : (a :: rest).length - c.2.length = 0
        · simp only [hn, if_true, List.flatMap_cons, ih]
          rfl
        · simp only [hn, if_false, List.flatMap_cons, ih]
          obtain ⟨k, hk⟩ := Nat.exists_eq_succ_of_ne_zero hn
          rw [hk]
          exact congrArg (List.cons a) (List.take_append_drop k rest)

theorem replaceFirst_inl (f : List α → List α) (x : List α) (parts : List (α ⊕ List α)) :
    replaceFirst f (x.map .inl ++ parts) = x ++ replaceFirst f parts := by
  induction x with
  | nil => rfl
  | cons a x ih => exact congrArg (List.cons a) ih

/-- The first match of a text is behind a piece without one. -/
theorem replace_first {f : List α → List α} {x w rest : List α} {b' : Bool} (hx : Skips word r x (w ++ rest))
    (hw : w ≠ []) (h : (r.run word (after word false x, w ++ rest)).head? = some (b', rest)) :
    replace word r f (x ++ (w ++ rest)) = x ++ f w ++ rest := by
  rw [replace, hx false, scan_of_head hw h, replaceFirst_inl, replaceFirst, scan_flatten, List.append_assoc]
  rfl

theorem replaceAll_skips {f : List α → List α} {d : α} (hd : Begins word d r) {x : List α}
    (hx : Skips word r x []) : replaceAll word r f x = x := by
  have hscan := hx false
  rw [List.append_nil] at hscan
  rw [replaceAll, hscan, hd.scan_nil, List.append_nil, List.flatMap_map]
  exact List.flatMap_singleton' x

theorem replaceAll_once {f : List α → List α} {d : α} (hd : Begins word d r) {x w y : List α} {b' : Bool}
    (hx : Skips word r x (w ++ y)) (hw : w ≠ [])
    (h : (r.run word (after word false x, w ++ y)).head? = some (b', y)) (hy : Skips word r y []) :
    replaceAll word r f (x ++ (w ++ y)) = x ++ f w ++ y := by
  have hscan := hy (after word (after word false x) w)
  rw [List.append_nil, hd.scan_nil, List.append_nil] at hscan
  rw [replaceAll, hx false, scan_of_head hw h, hscan, List.flatMap_append, List.flatMap_cons, List.flatMap_map,
    List.flatMap_map, List.append_assoc]
  exact congr (congrArg _ (List.flatMap_singleton' x)) (congrArg _ (List.flatMap_singleton' y))

theorem Skips.matches {x rest : List α} (hx : Skips word r x rest) (b : Bool) :
    (scan word r 0 b (x ++ rest)).filterMap Sum.getRight? =
      (scan word r 0 (after word b x) rest).filterMap Sum.getRight? := by
  rw [hx b, List.filterMap_append, List.filterMap_map]
  have hnone : x.filterMap (Sum.getRight? ∘ (Sum.inl : α → α ⊕ List α)) = [] := by
    rw [List.filterMap_eq_nil_iff]
    intro a _
    rfl
  rw [hnone, List.nil_append]

/-- Where the first matches are those before `rest`, the scan goes on to `rest` as it is. -/
theorem scan_append {rest : List α} (hhead : ∀ b text, (r.run word (b, text ++ rest)).head? =
    (r.run word (b, text)).head?.map (Cursor.push rest)) (hrest : Skips word r rest [])
    (hnil : ∀ b, scan word r 0 b [] = [])
    (skip : Nat) (b : Bool) (text : List α) (hskip : skip ≤ text.length) :
    scan word r skip b (text ++ rest) = scan word r skip b text ++ rest.map .inl := by
  induction text generalizing skip b with
  | nil =>
    rw [Nat.le_zero.mp hskip, List.nil_append, hnil, List.nil_append]
    have h := hrest b
    rw [List.append_nil, hnil, List.append_nil] at h
    exact h
  | cons a text ih =>
    cases skip with
    | succ skip =>
      rw [List.cons_append, scan, scan]
      exact ih skip (word a) (Nat.le_of_succ_le_succ hskip)
    | zero =>
      have h := hhead b (a :: text)
      rw [List.cons_append] at h
      rw [List.cons_append, scan, scan, h]
      cases (r.run word (b, a :: text)).head? with
      | none => exact congrArg (List.cons _) (ih 0 (word a) (Nat.zero_le _))
      | some c =>
        have hlen : (a :: (text ++ rest)).length - (c.push rest).2.length = (a :: text).length - c.2.length := by
          simp only [Cursor.push, List.length_cons, List.length_append]
          omega
        simp only [Option.map_some, hlen]
        by_cases hn : (a :: text).length - c.2.length = 0
        · simp only [hn, if_true, List.cons_append]
          rw [ih 0 (word a) (Nat.zero_le _)]
        · have hle : (a :: text).length - c.2.length - 1 ≤ text.length := by
            rw [List.length_cons]
            omega
          have htake : (a :: (text ++ rest)).take ((a :: text).length - c.2.length) =
              (a :: text).take ((a :: text).length - c.2.length) := by
            rw [← List.cons_append, List.take_append_of_le_length (Nat.sub_le _ _)]
          simp only [hn, if_false, List.cons_append, htake]
          rw [ih _ (word a) hle]

/-! ## First matches -/

theorem head?_flatMap_unique {β : Type} {l : List α} {a : α} (hmem : a ∈ l) (huniq : ∀ c ∈ l, c = a)
    (g : α → List β) : (l.flatMap g).head? = (g a).head? := by
  induction l with
  | nil => cases hmem
  | cons c l ih =>
    rw [huniq c List.mem_cons_self, List.flatMap_cons]
    cases hg : g a with
    | cons x xs => rfl
    | nil =>
      rw [List.nil_append]
      cases l with
      | nil => rfl
      | cons c' l =>
        have hc' := huniq c' (List.mem_cons_of_mem c List.mem_cons_self)
        rw [ih (by rw [hc']; exact List.mem_cons_self) (fun d hd => huniq d (List.mem_cons_of_mem c hd)), hg]

/-- A lazy repetition of any element takes as little as what follows it allows. -/
theorem head?_lazy {g : Cursor α → List (Cursor α)} {d : Cursor α} {u t : List α} {n : Nat} (hn : u.length ≤ n)
    (hno : ∀ b u₁ u₂, u = u₁ ++ u₂ → u₂ ≠ [] → g (b, u₂ ++ t) = [])
    (hyes : (g (after word b u, t)).head? = some d) :
    ((iterate ((one fun _ => true).run word) false n (b, u ++ t)).flatMap g).head? = some d := by
  induction u generalizing n b with
  | nil =>
    cases n with
    | zero =>
      rw [iterate, List.flatMap_singleton]
      exact hyes
    | succ n =>
      rw [iterate]
      simp only [Bool.false_eq_true, if_false]
      rw [List.flatMap_cons, List.head?_append]
      simp only [List.nil_append, after_nil] at hyes ⊢
      rw [hyes]
      rfl
  | cons a u ih =>
    obtain ⟨n, rfl⟩ := Nat.exists_eq_succ_of_ne_zero (by rw [List.length_cons] at hn; omega : n ≠ 0)
    have hstep : ((one fun _ => true).run word (b, a :: (u ++ t))).filter
        (fun c' => c'.2.length < (a :: (u ++ t)).length) = [(word a, u ++ t)] := by
      simp [run]
    rw [List.cons_append, iterate]
    simp only [Bool.false_eq_true, if_false]
    rw [hstep, List.flatMap_cons, List.flatMap_singleton,
      show g (b, a :: (u ++ t)) = [] from hno b [] (a :: u) rfl (List.cons_ne_nil a u), List.nil_append]
    apply ih (by rw [List.length_cons] at hn; omega) _ hyes
    intro b u₁ u₂ he hne
    exact hno b (a :: u₁) u₂ (by rw [he]; rfl) hne

/-- A greedy repetition of `p` takes all of the elements in a row that `p` admits. -/
theorem head?_greedy {p : α → Bool} {u rest : List α} (hu : ∀ a ∈ u, p a = true)
    (hrest : ∀ a ∈ rest.head?, p a = false) {n : Nat} (hn : u.length ≤ n) (b : Bool) :
    (iterate ((one p).run word) true n (b, u ++ rest)).head? = some (after word b u, rest) := by
  induction u generalizing n b with
  | nil =>
    cases n with
    | zero => rfl
    | succ n =>
      have hstep : (one p).run word (b, rest) = [] := by
        cases rest with
        | nil => rfl
        | cons a rest => simp [run, hrest a rfl]
      rw [List.nil_append, iterate, hstep]
      rfl
  | cons a u ih =>
    obtain ⟨n, rfl⟩ := Nat.exists_eq_succ_of_ne_zero (by rw [List.length_cons] at hn; omega : n ≠ 0)
    have hstep : ((one p).run word (b, a :: (u ++ rest))).filter
        (fun c' => c'.2.length < (a :: (u ++ rest)).length) = [(word a, u ++ rest)] := by
      simp [run, hu a List.mem_cons_self]
    have hle : u.length ≤ n := Nat.le_of_succ_le_succ hn
    have hmore := ih (fun x hx => hu x (List.mem_cons_of_mem a hx)) hle (word a)
    rw [List.cons_append, iterate, hstep, if_pos rfl, List.flatMap_singleton, List.head?_append, hmore]
    rfl

theorem head?_dropWhile (p : α → Bool) (text : List α) : ∀ a ∈ (text.dropWhile p).head?, p a = false := by
  intro a ha
  have h := List.head?_dropWhile_not p text
  rw [Option.mem_def.mp ha] at h
  simpa using h

theorem head?_plus {p : α → Bool} {u rest : List α} (hne : u ≠ []) (hu : ∀ a ∈ u, p a = true)
    (hrest : ∀ a ∈ rest.head?, p a = false) (b : Bool) :
    ((plus p).run word (b, u ++ rest)).head? = some (after word b u, rest) := by
  obtain ⟨a, u, rfl⟩ := List.exists_cons_of_ne_nil hne
  have hone : (one p).run word (b, a :: (u ++ rest)) = [(word a, u ++ rest)] := by
    simp [run, hu a List.mem_cons_self]
  rw [plus, run, List.cons_append, hone, List.flatMap_singleton, run]
  exact head?_greedy (fun x hx => hu x (List.mem_cons_of_mem a hx)) hrest (by simp) (word a)

theorem mem_iterate_one {p : α → Bool} {greedy : Bool} {n : Nat} {text : List α} {c : Cursor α}
    (h : c ∈ iterate ((one p).run word) greedy n (b, text)) :
    ∃ w, text = w ++ c.2 ∧ (∀ a ∈ w, p a = true) ∧ c.1 = after word b w := by
  induction n generalizing b text with
  | zero =>
    obtain rfl := mem_iterate_zero.mp h
    exact ⟨[], rfl, by simp, rfl⟩
  | succ n ih =>
    obtain rfl | ⟨m, hm, -, hrest⟩ := mem_iterate_succ.mp h
    · exact ⟨[], rfl, by simp, rfl⟩
    · obtain ⟨a, rest, rfl, ha, rfl⟩ := mem_run_one.mp hm
      obtain ⟨w, htext, hw, hafter⟩ := ih hrest
      exact ⟨a :: w, by rw [htext]; rfl, List.forall_mem_cons.mpr ⟨ha, hw⟩, hafter⟩

theorem mem_run_plus {p : α → Bool} {text : List α} {c : Cursor α} (h : c ∈ (plus p).run word (b, text)) :
    ∃ w, w ≠ [] ∧ text = w ++ c.2 ∧ (∀ a ∈ w, p a = true) ∧ c.1 = after word b w := by
  obtain ⟨m, hm, hc⟩ := mem_run_seq.mp h
  obtain ⟨a, rest, rfl, ha, rfl⟩ := mem_run_one.mp hm
  obtain ⟨w, htext, hw, hafter⟩ := mem_iterate_one hc
  exact ⟨a :: w, by simp, by rw [htext]; rfl, List.forall_mem_cons.mpr ⟨ha, hw⟩, hafter⟩

theorem head?_flatMap_of_head {β γ : Type} {l : List β} {x : β} {d : γ} {g : β → List γ} (hl : l.head? = some x)
    (hg : (g x).head? = some d) : (l.flatMap g).head? = some d := by
  obtain ⟨l, rfl⟩ : ∃ l', l = x :: l' := List.head?_eq_some_iff.mp hl
  rw [List.flatMap_cons, List.head?_append, hg]
  rfl

/-! ## Runs of elements -/

section
variable {p : α → Bool} {f : List α → List α}

theorem run_plus (b b' : Bool) (text : List α) : (plus p).run word (b, text) = (plus p).run word (b', text) := by
  cases text <;> simp [plus, run]

theorem scan_plus (b b' : Bool) (text : List α) : scan word (plus p) 0 b text = scan word (plus p) 0 b' text := by
  cases text with
  | nil => simp [scan, plus, run]
  | cons a text => rw [scan, scan, run_plus b b']

theorem replaceAll_plus_nil : replaceAll word (plus p) f [] = [] := by simp [replaceAll, scan, plus, run]

theorem replaceAll_plus_cons {a : α} (h : p a = false) (text : List α) :
    replaceAll word (plus p) f (a :: text) = a :: replaceAll word (plus p) f text := by
  have hnone : ((plus p).run word (false, a :: text)).head? = none := by simp [plus, run, h]
  rw [replaceAll, scan, hnone, replaceAll, scan_plus (word a) false]
  rfl

/-- A whole run of elements is replaced at once. -/
theorem replaceAll_plus_append {w rest : List α} (hne : w ≠ []) (hw : ∀ a ∈ w, p a = true)
    (hrest : ∀ a ∈ rest.head?, p a = false) :
    replaceAll word (plus p) f (w ++ rest) = f w ++ replaceAll word (plus p) f rest := by
  rw [replaceAll, scan_of_head hne (head?_plus hne hw hrest false), List.flatMap_cons, replaceAll,
    scan_plus (after word false w) false]
  rfl

/-- One element is replaced wherever it stands. -/
theorem replaceAll_lit_singleton [DecidableEq α] (a : α) (text : List α) :
    replaceAll word (lit [a]) f text = text.flatMap fun b => if b = a then f [a] else [b] := by
  have hscan (b : Bool) : (scan word (lit [a]) 0 b text).flatMap (Sum.elim (fun a => [a]) f)
      = text.flatMap fun b => if b = a then f [a] else [b] := by
    induction text generalizing b with
    | nil => simp [scan, lit, run]
    | cons c text ih =>
      have ih := ih (word c)
      by_cases hc : c = a
      · simpa [scan, lit, run, hc] using ih
      · simpa [scan, lit, run, hc] using ih
  exact hscan false

end

end Regex
