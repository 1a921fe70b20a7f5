import DocVault.Interleave
import DocVault.Keyed
import Mathlib.Data.List.Induction

/-!
# Rows that only the entitled change

Processes insert, read, change and delete rows under distinct keys, each row
with a part that no change touches. Every change is entered in a log under the
process that made it. A process is `Guarded` if it makes only changes that are
due of it, which it may conclude from rows it has read before: others may have
changed these since, but not their fixed part. `reach_ledger`: in every
interleaving of guarded processes the log has only due changes, and the rows
are what the log makes of the rows of the start.
-/

namespace Ledger

open Interleave

/-! ## Changes -/

inductive Change (α κ : Type) where
  | insert (row : α)
  | put (row : α)
  | remove (k : κ)

section
variable {ι α κ : Type} (key : α → κ)

def Change.at : Change α κ → κ
  | .insert row => key row
  | .put row => key row
  | .remove k => k

-- What the change leaves under its key.
def Change.row : Change α κ → Option α
  | .insert row => some row
  | .put row => some row
  | .remove _ => none

variable [DecidableEq κ]

def Change.apply : Change α κ → List α → List α
  | .insert row, rows => rows ++ [row]
  | .put row, rows => Keyed.put key rows (key row) row
  | .remove k, rows => Keyed.remove key rows k

def replay (rows : List α) (log : List (ι × Change α κ)) : List α :=
  log.foldl (fun rows e => e.2.apply key rows) rows

theorem replay_concat (rows : List α) (log : List (ι × Change α κ)) (p : ι) (c : Change α κ) :
    replay key rows (log ++ [(p, c)]) = c.apply key (replay key rows log) := by
  rw [replay, List.foldl_append]
  rfl

variable {key}

theorem mem_apply {c : Change α κ} {rows : List α} {row : α} (h : row ∈ c.apply key rows) :
    row ∈ rows ∨ c.row = some row := by
  cases c with
  | insert r =>
    rcases List.mem_append.mp h with h | h
    · exact .inl h
    · exact .inr (congrArg some (List.mem_singleton.mp h).symm)
  | put r =>
    rcases Keyed.mem_put_of_mem h with rfl | ⟨hm, -⟩
    · exact .inr rfl
    · exact .inl hm
  | remove k => exact .inl (List.mem_filter.mp h).1

/-- A row is there from the start, or the last change that wrote it is in the log. -/
theorem mem_replay {rows : List α} {log : List (ι × Change α κ)} {row : α} (h : row ∈ replay key rows log) :
    row ∈ rows ∨ ∃ p c, (p, c) ∈ log ∧ c.row = some row := by
  induction log using List.reverseRecOn with
  | nil => exact .inl h
  | append_singleton log e ih =>
    obtain ⟨p, c⟩ := e
    rw [replay_concat] at h
    rcases mem_apply h with hm | hc
    · rcases ih hm with hm | ⟨p', c', hm, hc⟩
      · exact .inl hm
      · exact .inr ⟨p', c', List.mem_append_left _ hm, hc⟩
    · exact .inr ⟨p, c, List.mem_append_right _ (List.mem_singleton.mpr rfl), hc⟩

/-- A key that was there is still there, or its removal is in the log. -/
theorem key_replay {rows : List α} {log : List (ι × Change α κ)} {k : κ}
    (h : (∃ row ∈ rows, key row = k) ∨ ∃ p row, (p, Change.insert row) ∈ log ∧ key row = k) :
    (∃ row ∈ replay key rows log, key row = k) ∨ ∃ p, (p, Change.remove k) ∈ log := by
  induction log using List.reverseRecOn with
  | nil =>
    rcases h with h | ⟨_, _, h, _⟩
    · exact .inl h
    · cases h
  | append_singleton log e ih =>
    obtain ⟨p, c⟩ := e
    rw [replay_concat]
    have hlast : (p, c) ∈ log ++ [(p, c)] := List.mem_append_right _ (List.mem_singleton.mpr rfl)
    have hkeep : (∃ row ∈ replay key rows log, key row = k) →
        (∃ row ∈ c.apply key (replay key rows log), key row = k) ∨
        ∃ p', (p', Change.remove k) ∈ log ++ [(p, c)] := by
      rintro ⟨row, hm, hk⟩
      cases c with
      | insert r => exact .inl ⟨row, List.mem_append_left _ hm, hk⟩
      | put r =>
        by_cases hr : key row = key r
        · exact .inl ⟨r, List.mem_map.mpr ⟨row, hm, if_pos hr⟩, hr.symm.trans hk⟩
        · exact .inl ⟨row, List.mem_map.mpr ⟨row, hm, if_neg hr⟩, hk⟩
      | remove k' =>
        by_cases hr : k' = k
        · subst hr
          exact .inr ⟨p, hlast⟩
        · exact .inl ⟨row, List.mem_filter.mpr ⟨hm, by simpa [hk] using Ne.symm hr⟩, hk⟩
    have hold : ((∃ row ∈ replay key rows log, key row = k) ∨ ∃ p', (p', Change.remove k) ∈ log) →
        (∃ row ∈ c.apply key (replay key rows log), key row = k) ∨
        ∃ p', (p', Change.remove k) ∈ log ++ [(p, c)] := by
      rintro (hp | ⟨p', hp⟩)
      · exact hkeep hp
      · exact .inr ⟨p', List.mem_append_left _ hp⟩
    rcases h with h | ⟨p', row, hm, hk⟩
    · exact hold (ih (.inl h))
    · rcases List.mem_append.mp hm with hm | hm
      · exact hold (ih (.inr ⟨p', row, hm, hk⟩))
      · obtain ⟨-, rfl⟩ := Prod.mk.inj (List.mem_singleton.mp hm)
        exact .inl ⟨row, List.mem_append_right _ (List.mem_singleton.mpr rfl), hk⟩

end

/-! ## Desks -/

/-- A table of rows and what is asked of it and beside it: patches change a row
but neither its key nor its fixed part, notes are sent to others and may be
lost, asks are answered by something that the desk does not change. -/
structure Desk where
  Row : Type
  Key : Type
  Fixed : Type
  Query : Type
  Patch : Type
  Note : Type
  Ask : Type
  Answer : Ask → Type
  key : Row → Key
  fixed : Row → Fixed
  selects : Query → Row → Bool
  order : Query → Row → Row → Prop
  patch : Patch → Row → Row
  answers : (q : Ask) → Answer q → Prop
  key_patch : ∀ c row, key (patch c row) = key row
  fixed_patch : ∀ c row, fixed (patch c row) = fixed row

inductive Op (D : Desk) where
  | create (row : D.Row)
  | findFirst (q : D.Query)
  | findMany (q : D.Query)
  | update (k : D.Key) (c : D.Patch)
  | delete (k : D.Key)
  | note (n : D.Note)
  | ask (q : D.Ask)

abbrev Op.Res {D : Desk} : Op D → Type
  | .create _ => Bool
  | .findFirst _ => Option D.Row
  | .findMany _ => List D.Row
  | .update _ _ => Option D.Row
  | .delete _ => Option D.Row
  | .note _ => Unit
  | .ask q => D.Answer q

structure Store (ι : Type) (D : Desk) where
  rows : List D.Row
  log : List (ι × Change D.Row D.Key) := []
  notes : List (ι × D.Note) := []

section
variable {ι : Type} {D : Desk}

def Store.enter [DecidableEq D.Key] (s : Store ι D) (p : ι) (c : Change D.Row D.Key) : Store ι D :=
  { s with rows := c.apply D.key s.rows, log := s.log ++ [(p, c)] }

variable [DecidableEq D.Key]

def exec : Exec ι (Store ι D) (Op D) Op.Res := fun p s o r s' =>
  match o, r with
  | .create row, r =>
    if (Keyed.find D.key s.rows (D.key row)).isSome then r = false ∧ s' = s
    else r = true ∧ s' = s.enter p (.insert row)
  | .findFirst q, some row => (row ∈ s.rows ∧ D.selects q row = true) ∧ s' = s
  | .findFirst q, none => (∀ row ∈ s.rows, D.selects q row = false) ∧ s' = s
  | .findMany q, r => (r.Perm (s.rows.filter (D.selects q)) ∧ r.Pairwise (D.order q)) ∧ s' = s
  | .update k c, r =>
    match Keyed.find D.key s.rows k with
    | some row => r = some (D.patch c row) ∧ s' = s.enter p (.put (D.patch c row))
    | none => r = none ∧ s' = s
  | .delete k, r =>
    match Keyed.find D.key s.rows k with
    | some row => r = some row ∧ s' = s.enter p (.remove k)
    | none => r = none ∧ s' = s
  | .note n, _ => s' = s ∨ s' = { s with notes := s.notes ++ [(p, n)] }
  | .ask q, r => D.answers q r ∧ s' = s

end

/-! ## Guarded processes -/

/-- What the rows are known to keep, what changes are due of a process, and
what a process may say after the changes it has made. -/
structure Duty (ι : Type) (D : Desk) where
  origin : D.Key → D.Fixed
  due : ι → Change D.Row D.Key → Prop
  told : ι → List (Change D.Row D.Key) → D.Note → Prop

section
variable {ι : Type} {D : Desk} {ε α : Type} (T : Duty ι D) (p : ι)

def Known (row : D.Row) : Prop := D.fixed row = T.origin (D.key row)

/-- A process that has made the changes `w` makes at most one in all, only due
ones, and ends with `Q`. -/
def Guarded (Q : α → List (Change D.Row D.Key) → Prop) : List (Change D.Row D.Key) → Prog (Op D) Op.Res ε α → Prop
  | w, .ret a => Q a w
  | _, .throw _ => True
  | w, .call (.create row) k => w = [] ∧ T.due p (.insert row) ∧ Known T row ∧ Guarded Q [.insert row] (k true) ∧
      Guarded Q [] (k false)
  | w, .call (.findFirst q) k => Guarded Q w (k none) ∧
      ∀ row, D.selects q row = true → Known T row → Guarded Q w (k (some row))
  | w, .call (.findMany q) k => ∀ rows : List D.Row, (∀ row ∈ rows, D.selects q row = true ∧ Known T row) →
      Guarded Q w (k rows)
  | w, .call (.update i c) k => w = [] ∧ (∀ row, D.key row = i → Known T row → T.due p (.put (D.patch c row)) ∧
      Guarded Q [.put (D.patch c row)] (k (some (D.patch c row)))) ∧ Guarded Q [] (k none)
  | w, .call (.delete i) k => w = [] ∧ T.due p (.remove i) ∧ (∀ row, D.key row = i → Known T row →
      Guarded Q [.remove i] (k (some row))) ∧ Guarded Q [] (k none)
  | w, .call (.note n) k => T.told p w n ∧ Guarded Q w (k ())
  | w, .call (.ask q) k => ∀ r, D.answers q r → Guarded Q w (k r)

variable {T p} {Q : α → List (Change D.Row D.Key) → Prop}

theorem Guarded.bind {β : Type} {R : β → List (Change D.Row D.Key) → Prop} {f : α → Prog (Op D) Op.Res ε β}
    (hf : ∀ a w, Q a w → Guarded T p R w (f a)) : ∀ {m : Prog (Op D) Op.Res ε α} {w : List (Change D.Row D.Key)},
      Guarded T p Q w m → Guarded T p R w (m >>= f)
  | .ret a, w, h => hf a w h
  | .throw _, _, _ => trivial
  | .call (.create _) _, _, ⟨hw, hd, hk, ht, hn⟩ => ⟨hw, hd, hk, Guarded.bind hf ht, Guarded.bind hf hn⟩
  | .call (.findFirst _) _, _, ⟨hn, hs⟩ => ⟨Guarded.bind hf hn, fun row hq hk => Guarded.bind hf (hs row hq hk)⟩
  | .call (.findMany _) _, _, h => fun rows hr => Guarded.bind hf (h rows hr)
  | .call (.update _ _) _, _, ⟨hw, hs, hn⟩ =>
    ⟨hw, fun row hi hk => ⟨(hs row hi hk).1, Guarded.bind hf (hs row hi hk).2⟩, Guarded.bind hf hn⟩
  | .call (.delete _) _, _, ⟨hw, hd, hs, hn⟩ =>
    ⟨hw, hd, fun row hi hk => Guarded.bind hf (hs row hi hk), Guarded.bind hf hn⟩
  | .call (.note _) _, _, ⟨ht, hn⟩ => ⟨ht, Guarded.bind hf hn⟩
  | .call (.ask _) _, _, h => fun r hr => Guarded.bind hf (h r hr)

theorem guarded_ofExcept {w : List (Change D.Row D.Key)} (x : Except ε α) (h : ∀ a, x = .ok a → Q a w) :
    Guarded T p Q w (Prog.ofExcept x) := by
  cases x with
  | ok a => exact h a rfl
  | error e => trivial

end

/-! ## Every interleaving -/

section
variable {ι : Type} {D : Desk} [DecidableEq ι] [DecidableEq D.Key] {ε α : Type}

/-- The changes of process `p`. -/
def Store.wrote (s : Store ι D) (p : ι) : List (Change D.Row D.Key) :=
  s.log.filterMap fun e => if e.1 = p then some e.2 else none

theorem wrote_enter (s : Store ι D) (p q : ι) (c : Change D.Row D.Key) :
    (s.enter q c).wrote p = s.wrote p ++ if q = p then [c] else [] := by
  by_cases h : q = p <;> simp [Store.wrote, Store.enter, h]

omit [DecidableEq D.Key] in
theorem mem_wrote {s : Store ι D} {p : ι} {c : Change D.Row D.Key} (h : c ∈ s.wrote p) : (p, c) ∈ s.log := by
  obtain ⟨⟨q, c'⟩, hm, hq⟩ := List.mem_filterMap.mp h
  split at hq
  · rename_i hp
    obtain rfl := Option.some.inj hq
    exact hp ▸ hm
  · cases hq

variable (T : Duty ι D) (start : List D.Row)

structure Sound (s : Store ι D) : Prop where
  unique : Keyed.Unique D.key s.rows
  known : ∀ row ∈ s.rows, Known T row
  replayed : s.rows = replay D.key start s.log
  due : ∀ e ∈ s.log, T.due e.1 e.2
  entered : ∀ e ∈ s.log, ∀ row, e.2.row = some row → Known T row
  told : ∀ e ∈ s.notes, ∃ w, w <+: s.wrote e.1 ∧ T.told e.1 w e.2
  once : ∀ p, (s.wrote p).length ≤ 1

def ledgerSpec : Spec ι (Store ι D) (Op D) Op.Res where
  exec := exec
  pre _ _ _ := True
  inv := Sound T start
  rely p _ s s' := s'.wrote p = s.wrote p

theorem ledgerSpec_closed : (ledgerSpec T start).Closed where
  refl _ _ _ := rfl
  trans _ _ _ _ _ h h' := h'.trans h

variable {T start}

theorem Sound.enter {s : Store ι D} (hs : Sound T start s) {p : ι} {c : Change D.Row D.Key} (hw : s.wrote p = [])
    (hd : T.due p c) (hu : Keyed.Unique D.key (c.apply D.key s.rows)) (hk : ∀ row, c.row = some row → Known T row) :
    Sound T start (s.enter p c) where
  unique := hu
  known row hrow := (mem_apply hrow).elim (hs.known row) (hk row)
  replayed := by
    rw [Store.enter, replay_concat, ← hs.replayed]
  due e he := by
    rcases List.mem_append.mp he with h | h
    · exact hs.due e h
    · rw [List.mem_singleton.mp h]
      exact hd
  entered e he := by
    rcases List.mem_append.mp he with h | h
    · exact hs.entered e h
    · rw [List.mem_singleton.mp h]
      exact hk
  told e he := by
    obtain ⟨w, hpre, ht⟩ := hs.told e he
    refine ⟨w, ?_, ht⟩
    rw [wrote_enter]
    exact hpre.trans (List.prefix_append ..)
  once q := by
    rw [wrote_enter]
    by_cases hq : p = q
    · subst hq
      simp [hw]
    · simpa [hq] using hs.once q

theorem Sound.note {s : Store ι D} (hs : Sound T start s) {p : ι} {n : D.Note} (ht : T.told p (s.wrote p) n) :
    Sound T start { s with notes := s.notes ++ [(p, n)] } where
  unique := hs.unique
  known := hs.known
  replayed := hs.replayed
  due := hs.due
  entered := hs.entered
  told e he := by
    rcases List.mem_append.mp he with h | h
    · exact hs.told e h
    · rw [List.mem_singleton.mp h]
      exact ⟨s.wrote p, List.prefix_rfl, ht⟩
  once := hs.once

theorem guarded_ok {p : ι} {Q : α → List (Change D.Row D.Key) → Prop} {m : Prog (Op D) Op.Res ε α}
    {w : List (Change D.Row D.Key)} {s : Store ι D} (hw : s.wrote p = w) (h : Guarded T p Q w m) :
      Ok (ledgerSpec T start) p (fun a s => Q a (s.wrote p)) (fun _ _ => True) m s := by
  induction m generalizing w s with
  | ret a =>
    subst hw
    exact h
  | throw _ => trivial
  | call o k ih =>
    intro s₁ hr hs
    have hw₁ : s₁.wrote p = w := (show s₁.wrote p = s.wrote p from hr).trans hw
    refine ⟨fun _ => trivial, fun _ => trivial, fun r s₂ _ hx => ?_⟩
    cases o with
    | create row =>
      obtain ⟨rfl, hd, hk, htrue, hfalse⟩ := h
      simp only [ledgerSpec, exec] at hx
      split at hx
      · obtain ⟨rfl, rfl⟩ := hx
        exact ⟨hs, ih _ hw₁ hfalse⟩
      · rename_i hnew
        obtain ⟨rfl, rfl⟩ := hx
        refine ⟨hs.enter hw₁ hd (hs.unique.append (by simpa using hnew)) fun r hr => ?_, ih _ ?_ htrue⟩
        · rw [← Option.some.inj hr]
          exact hk
        · rw [wrote_enter, hw₁, if_pos rfl, List.nil_append]
    | findFirst q =>
      cases r with
      | some row =>
        obtain ⟨⟨hm, hq⟩, rfl⟩ := hx
        exact ⟨hs, ih _ hw₁ (h.2 row hq (hs.known row hm))⟩
      | none =>
        obtain ⟨-, rfl⟩ := hx
        exact ⟨hs, ih _ hw₁ h.1⟩
    | findMany q =>
      obtain ⟨⟨hp, -⟩, rfl⟩ := hx
      refine ⟨hs, ih _ hw₁ (h r fun row hr => ?_)⟩
      obtain ⟨hm, hq⟩ := List.mem_filter.mp (hp.subset hr)
      exact ⟨hq, hs.known row hm⟩
    | update i c =>
      obtain ⟨rfl, hsome, hnone⟩ := h
      simp only [ledgerSpec, exec] at hx
      split at hx
      · rename_i row hrow
        obtain ⟨rfl, rfl⟩ := hx
        obtain ⟨hm, hi⟩ := Keyed.find_some hrow
        obtain ⟨hd, hk⟩ := hsome row hi (hs.known row hm)
        have hknown : Known T (D.patch c row) := by
          rw [Known, D.fixed_patch, D.key_patch]
          exact hs.known row hm
        refine ⟨hs.enter hw₁ hd hs.unique.put_row fun r hr => ?_, ih _ ?_ hk⟩
        · rw [← Option.some.inj hr]
          exact hknown
        · rw [wrote_enter, hw₁, if_pos rfl, List.nil_append]
      · obtain ⟨rfl, rfl⟩ := hx
        exact ⟨hs, ih _ hw₁ hnone⟩
    | delete i =>
      obtain ⟨rfl, hd, hsome, hnone⟩ := h
      simp only [ledgerSpec, exec] at hx
      split at hx
      · rename_i row hrow
        obtain ⟨rfl, rfl⟩ := hx
        obtain ⟨hm, hi⟩ := Keyed.find_some hrow
        refine ⟨hs.enter hw₁ hd (hs.unique.filter _) (fun r hr => nomatch hr),
          ih _ ?_ (hsome row hi (hs.known row hm))⟩
        rw [wrote_enter, hw₁, if_pos rfl, List.nil_append]
      · obtain ⟨rfl, rfl⟩ := hx
        exact ⟨hs, ih _ hw₁ hnone⟩
    | note n =>
      obtain ⟨ht, hk⟩ := h
      rcases hx with rfl | rfl
      · exact ⟨hs, ih _ hw₁ hk⟩
      · rw [← hw₁] at ht
        exact ⟨hs.note ht, ih _ hw₁ hk⟩
    | ask q =>
      obtain ⟨hq, rfl⟩ := hx
      exact ⟨hs, ih _ hw₁ (h r hq)⟩

theorem exec_wrote {p q : ι} {s s' : Store ι D} {o : Op D} {r : o.Res} (hx : exec q s o r s') (hpq : p ≠ q) :
    s'.wrote p = s.wrote p := by
  have henter : ∀ c, (s.enter q c).wrote p = s.wrote p := fun c => by
    rw [wrote_enter, if_neg (Ne.symm hpq), List.append_nil]
  cases o with
  | create row =>
    simp only [exec] at hx
    split at hx
    · rw [hx.2]
    · rw [hx.2, henter]
  | findFirst q =>
    cases r with
    | some row => rw [hx.2]
    | none => rw [hx.2]
  | findMany q => rw [hx.2]
  | update i c =>
    simp only [exec] at hx
    split at hx
    · rw [hx.2, henter]
    · rw [hx.2]
  | delete i =>
    simp only [exec] at hx
    split at hx
    · rw [hx.2, henter]
    · rw [hx.2]
  | note n => rcases hx with rfl | rfl <;> rfl
  | ask q => rw [hx.2]

/-- What process `p` has answered. -/
def ended {σ : Type} (c : Config ι σ (Op D) Op.Res ε α) (p : ι) : Option α :=
  match c.procs p with
  | .ret a => some a
  | _ => none

/-- In every state that guarded processes reach the ledger is sound, and a process that has ended has
made the changes it says. -/
theorem reach_ledger {Q : ι → α → List (Change D.Row D.Key) → Prop} {progs : ι → Prog (Op D) Op.Res ε α}
    (hu : Keyed.Unique D.key start) (hk : ∀ row ∈ start, Known T row) (hg : ∀ p, Guarded T p (Q p) [] (progs p))
    {c : Config ι (Store ι D) (Op D) Op.Res ε α} (hr : Reach exec (fun _ _ _ => True) ⟨⟨start, [], []⟩, progs⟩ c) :
    Sound T start c.store ∧ ∀ p a, ended c p = some a → Q p a (c.store.wrote p) := by
  have hs : Sound T start (⟨start, [], []⟩ : Store ι D) :=
    ⟨hu, hk, rfl, fun _ h => absurd h List.not_mem_nil, fun _ h => absurd h List.not_mem_nil,
      fun _ h => absurd h List.not_mem_nil, fun _ => Nat.zero_le _⟩
  obtain ⟨hsound, hok⟩ :=
    Reach.ok (S := ledgerSpec T start) (Q := fun p a s => Q p a (s.wrote p)) (E := fun _ _ _ => True)
    hr (ledgerSpec_closed T start) hs (fun p => guarded_ok rfl (hg p)) (fun _ _ _ _ => trivial)
    (fun p a s s' h hr _ => (show s'.wrote p = s.wrote p from hr) ▸ h) (fun _ _ _ _ _ _ _ => trivial)
    fun c p q o k r s' _ _ hx _ _ hpq => exec_wrote hx hpq
  refine ⟨hsound, fun p a ha => ?_⟩
  have h := hok p
  unfold ended at ha
  split at ha
  · rename_i a' hret
    obtain rfl := Option.some.inj ha
    rw [hret] at h
    exact h
  · cases ha

/-! ## Rows that no change is about -/

omit [DecidableEq ι] in
theorem apply_other {c : Change D.Row D.Key} {rows : List D.Row} (hk : ∀ row ∈ rows, Known T row)
    (hc : ∀ row, c.row = some row → Known T row) {f : D.Fixed → Bool} (h : f (T.origin (c.at D.key)) = false) :
    (c.apply D.key rows).filter (fun row => f (D.fixed row)) = rows.filter fun row => f (D.fixed row) := by
  have hsel : ∀ row, Known T row → D.key row = c.at D.key → f (D.fixed row) = false := fun row hr hkey => by
    rw [show D.fixed row = _ from hr, hkey, h]
  cases c with
  | insert row =>
    have hrow := hsel row (hc row rfl) rfl
    rw [Change.apply, List.filter_append, List.filter_cons_of_neg (by simp [hrow]),
      List.filter_nil, List.append_nil]
  | put row => exact Keyed.put_filter_ne (hsel row (hc row rfl) rfl) fun r hr hkey => hsel r (hk r hr) hkey
  | remove k => exact Keyed.remove_filter_ne fun r hr hkey => hsel r (hk r hr) hkey

/-- The rows of a fixed part that no change in the log is about are those of the start. -/
theorem Sound.other {s : Store ι D} (hs : Sound T start s) (hk : ∀ row ∈ start, Known T row) {f : D.Fixed → Bool}
    (h : ∀ e ∈ s.log, f (T.origin (e.2.at D.key)) = false) :
    s.rows.filter (fun row => f (D.fixed row)) = start.filter fun row => f (D.fixed row) := by
  have hreplay : ∀ log : List (ι × Change D.Row D.Key), (∀ e ∈ log, ∀ row, e.2.row = some row → Known T row) →
      (∀ e ∈ log, f (T.origin (e.2.at D.key)) = false) → (∀ row ∈ replay D.key start log, Known T row) ∧
        (replay D.key start log).filter (fun row => f (D.fixed row)) = start.filter fun row => f (D.fixed row) := by
    intro log hent hsel
    induction log using List.reverseRecOn with
    | nil => exact ⟨hk, rfl⟩
    | append_singleton log e ih =>
      obtain ⟨hknown, hfilter⟩ := ih (fun e he => hent e (List.mem_append_left _ he)) fun e he =>
        hsel e (List.mem_append_left _ he)
      have hlast : e ∈ log ++ [e] := List.mem_append_right _ (List.mem_singleton.mpr rfl)
      rw [replay_concat]
      refine ⟨fun row hrow => (mem_apply hrow).elim (hknown row) (hent e hlast row), ?_⟩
      rw [apply_other hknown (hent e hlast) (hsel e hlast), hfilter]
  rw [hs.replayed]
  exact (hreplay s.log hs.entered h).2

end

/-! ## A deterministic desk -/

/-- One answer to every ask, and one order for every query. -/
structure Clerk (D : Desk) where
  answer : (q : D.Ask) → D.Answer q
  sort : D.Query → List D.Row → List D.Row
  answers : ∀ q, D.answers q (answer q)
  sorted : ∀ q l, (sort q l).Perm l ∧ (sort q l).Pairwise (D.order q)

section
variable {ι : Type} {D : Desk} [DecidableEq D.Key] (K : Clerk D)

def run (p : ι) (s : Store ι D) : (o : Op D) → o.Res × Store ι D
  | .create row =>
      if (Keyed.find D.key s.rows (D.key row)).isSome then (false, s) else (true, s.enter p (.insert row))
  | .findFirst q => (s.rows.find? (D.selects q), s)
  | .findMany q => (K.sort q (s.rows.filter (D.selects q)), s)
  | .update k c =>
    match Keyed.find D.key s.rows k with
    | some row => (some (D.patch c row), s.enter p (.put (D.patch c row)))
    | none => (none, s)
  | .delete k =>
    match Keyed.find D.key s.rows k with
    | some row => (some row, s.enter p (.remove k))
    | none => (none, s)
  | .note n => ((), { s with notes := s.notes ++ [(p, n)] })
  | .ask q => (K.answer q, s)

theorem run_exec (p : ι) (s : Store ι D) (o : Op D) : exec p s o (run K p s o).1 (run K p s o).2 := by
  cases o with
  | create row =>
    simp only [exec, run]
    split <;> simp
  | findFirst q =>
    simp only [exec, run]
    cases h : s.rows.find? (D.selects q) with
    | none => exact ⟨fun row hm => Bool.eq_false_iff.mpr (List.find?_eq_none.mp h row hm), trivial⟩
    | some row => exact ⟨⟨List.mem_of_find?_eq_some h, List.find?_some h⟩, trivial⟩
  | findMany q => exact ⟨K.sorted q _, rfl⟩
  | update k c =>
    simp only [exec, run]
    cases Keyed.find D.key s.rows k <;> exact ⟨rfl, rfl⟩
  | delete k =>
    simp only [exec, run]
    cases Keyed.find D.key s.rows k <;> exact ⟨rfl, rfl⟩
  | note n => exact .inr rfl
  | ask q => exact ⟨K.answers q, rfl⟩

end

end Ledger
