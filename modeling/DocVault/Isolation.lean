import DocVault.Interleave

/-!
# Isolation

An action reads and writes a store, and may fail in the middle. A boundary splits
every store into a store inside of it and what lies outside. An action is isolated
at a store when it runs inside as it does in the whole store, and leaves the
outside alone. A process (`Prog`) is an action over any store that executes its
operations.
-/

namespace Isolation

open Interleave

variable {σ ρ ε α β : Type}

-- What an action has written stays when it fails.
def Action (σ ε α : Type) : Type := σ → Except ε α × σ

namespace Action

def after (f : α → Action σ ε β) : Except ε α × σ → Except ε β × σ
  | (.ok a, s) => f a s
  | (.error e, s) => (.error e, s)

instance : Monad (Action σ ε) where
  pure a := fun s => (.ok a, s)
  bind m f := fun s => after f (m s)

def throw (e : ε) : Action σ ε α := fun s => (.error e, s)

/-- A decision on what the store holds. -/
def read (f : σ → Except ε α) : Action σ ε α := fun s => (f s, s)

def act (f : σ → α × σ) : Action σ ε α := fun s => (.ok (f s).1, (f s).2)

def ofExcept (x : Except ε α) : Action σ ε α := fun s => (x, s)

theorem bind_run (m : Action σ ε α) (f : α → Action σ ε β) (s : σ) : (m >>= f) s = after f (m s) := rfl

theorem bind_ok {m : Action σ ε α} {f : α → Action σ ε β} {a : α} {s s' : σ} (h : m s = (.ok a, s')) :
    (m >>= f) s = f a s' := by rw [bind_run, h]; rfl

theorem bind_error {m : Action σ ε α} {f : α → Action σ ε β} {e : ε} {s s' : σ} (h : m s = (.error e, s')) :
    (m >>= f) s = (.error e, s') := by rw [bind_run, h]; rfl

end Action

/-! ## Boundaries -/

structure Boundary (σ ρ : Type) where
  inside : σ → σ
  outside : σ → ρ

/-- What the action returns, if it returns, is as `Q` says. -/
structure Isolated (B : Boundary σ ρ) (m : Action σ ε α) (s : σ) (Q : α → σ → Prop) : Prop where
  inner : m (B.inside s) = ((m s).1, B.inside (m s).2)
  outer : B.outside (m s).2 = B.outside s
  post : ∀ a s', m s = (.ok a, s') → Q a s'

/-- An operation that is answered inside as it is in the whole store. -/
structure Local (B : Boundary σ ρ) (f : σ → α × σ) (s : σ) : Prop where
  inner : f (B.inside s) = ((f s).1, B.inside (f s).2)
  outer : B.outside (f s).2 = B.outside s

section
variable {B : Boundary σ ρ} {s : σ} {Q : α → σ → Prop} {R : β → σ → Prop}

theorem Local.of_eq {f : σ → α × σ} {a : α} {t u : σ} (hin : f (B.inside s) = (a, t)) (hs : f s = (a, u))
    (inner : t = B.inside u) (outer : B.outside u = B.outside s) : Local B f s where
  inner := by rw [hin, hs, inner]
  outer := by rw [hs, outer]

/-- An operation that reads. -/
theorem Local.same {f : σ → α × σ} {a : α} (hin : f (B.inside s) = (a, B.inside s))
    (hs : f s = (a, s)) : Local B f s :=
  .of_eq hin hs rfl rfl

theorem Isolated.pure {a : α} (h : Q a s) : Isolated B (Pure.pure a : Action σ ε α) s Q where
  inner := rfl
  outer := rfl
  post := by
    rintro _ _ ⟨⟩
    exact h

theorem Isolated.throw (e : ε) : Isolated B (Action.throw e) s Q where
  inner := rfl
  outer := rfl
  post _ _ h := nomatch h

/-- Refused for the same reason, whatever was read for it. -/
theorem Isolated.refused {m : Action σ ε α} {e : ε} (hin : m (B.inside s) = (.error e, B.inside s))
    (hs : m s = (.error e, s)) : Isolated B m s Q where
  inner := by rw [hin, hs]
  outer := by rw [hs]
  post _ _ h := nomatch hs.symm.trans h

theorem Isolated.ofExcept {x : Except ε α} (h : ∀ a, x = .ok a → Q a s) : Isolated B (Action.ofExcept x) s Q where
  inner := rfl
  outer := rfl
  post a _ hx := (Prod.mk.inj hx).2 ▸ h a (Prod.mk.inj hx).1

theorem Isolated.read {f : σ → Except ε α} (h : f (B.inside s) = f s) (hq : ∀ a, f s = .ok a → Q a s) :
    Isolated B (Action.read f) s Q where
  inner := by simp only [Action.read, h]
  outer := rfl
  post a _ hx := (Prod.mk.inj hx).2 ▸ hq a (Prod.mk.inj hx).1

theorem Isolated.act {f : σ → α × σ} (h : Local B f s) (hq : Q (f s).1 (f s).2) :
    Isolated B (Action.act f : Action σ ε α) s Q where
  inner := by simp only [Action.act, h.inner]
  outer := h.outer
  post := by
    rintro _ _ ⟨⟩
    exact hq

/-- Sequencing: the rest of the action starts from what the first part leaves. -/
theorem Isolated.bind {m : Action σ ε α} {f : α → Action σ ε β} (hm : Isolated B m s Q)
    (hf : ∀ a s', Q a s' → Isolated B (f a) s' R) : Isolated B (m >>= f) s R := by
  obtain ⟨hinner, houter, hpost⟩ := hm
  cases h : m s with
  | mk r s' =>
    rw [h] at hinner houter
    cases r with
    | error e =>
      have hbind : (m >>= f) s = (.error e, s') := Action.bind_error h
      constructor
      · rw [hbind, Action.bind_error hinner]
      · rw [hbind]
        exact houter
      · intro b t hb
        rw [hbind] at hb
        nomatch hb
    | ok a =>
      have hbind : (m >>= f) s = f a s' := Action.bind_ok h
      obtain ⟨hinner', houter', hpost'⟩ := hf a s' (hpost a s' h)
      constructor
      · rw [hbind, Action.bind_ok hinner, hinner']
      · rw [hbind]
        exact houter'.trans houter
      · rw [hbind]
        exact hpost'

theorem Isolated.ofExcept_bind {x : Except ε α} {f : α → Action σ ε β}
    (hf : ∀ a, x = .ok a → Isolated B (f a) s R) : Isolated B (Action.ofExcept x >>= f) s R := by
  refine Isolated.bind (Q := fun a s' => x = .ok a ∧ s' = s) (.ofExcept fun a ha => ⟨ha, rfl⟩) ?_
  rintro a _ ⟨ha, rfl⟩
  exact hf a ha

theorem Isolated.read_bind {g : σ → Except ε α} {f : α → Action σ ε β} (h : g (B.inside s) = g s)
    (hf : ∀ a, g s = .ok a → Isolated B (f a) s R) : Isolated B (Action.read g >>= f) s R := by
  refine Isolated.bind (Q := fun a s' => g s = .ok a ∧ s' = s) (.read h fun a ha => ⟨ha, rfl⟩) ?_
  rintro a _ ⟨ha, rfl⟩
  exact hf a ha

theorem Isolated.act_bind {g : σ → α × σ} {f : α → Action σ ε β} (h : Local B g s)
    (hf : Isolated B (f (g s).1) (g s).2 R) : Isolated B (Action.act g >>= f) s R := by
  refine Isolated.bind (Q := fun a s' => a = (g s).1 ∧ s' = (g s).2) (.act h ⟨rfl, rfl⟩) ?_
  rintro _ _ ⟨rfl, rfl⟩
  exact hf

theorem Isolated.fst_eq {m : Action σ ε α} (h : Isolated B m s Q) : (m (B.inside s)).1 = (m s).1 := by rw [h.inner]

/-- An action that is another one on either side. -/
theorem Isolated.congr {m m' : Action σ ε α} (hin : m (B.inside s) = m' (B.inside s)) (hs : m s = m' s)
    (h : Isolated B m' s Q) : Isolated B m s Q where
  inner := by rw [hin, hs, h.inner]
  outer := by rw [hs, h.outer]
  post := by
    rw [hs]
    exact h.post

theorem Isolated.mono {Q' : α → σ → Prop} {m : Action σ ε α} (h : Isolated B m s Q)
    (hq : ∀ a s', Q a s' → Q' a s') :
    Isolated B m s Q' := ⟨h.inner, h.outer, fun a s' ha => hq a s' (h.post a s' ha)⟩

end

/-! ## Processes -/

section
variable {Op : Type} {Res : Op → Type} (run : σ → (o : Op) → Res o × σ)

/-- The process alone, over a store that executes its operations. -/
def action : Prog Op Res ε α → Action σ ε α
  | .ret a => pure a
  | .throw e => Action.throw e
  | .call o k => Action.act (fun s => run s o) >>= fun r => action (k r)

variable {run}

theorem action_bind (m : Prog Op Res ε α) (f : α → Prog Op Res ε β) :
    action run (m >>= f) = action run m >>= fun a => action run (f a) := by
  funext s
  induction m generalizing s with
  | ret a => rfl
  | throw e => rfl
  | call o k ih => exact ih (run s o).1 (run s o).2

theorem action_ofExcept (x : Except ε α) : action run (Prog.ofExcept x : Prog Op Res ε α) = Action.ofExcept x := by
  cases x <;> rfl

theorem action_op {o : Op} {k : Res o → Prog Op Res ε α} {s s' : σ} {r : Res o} (h : run s o = (r, s')) :
    action run (Prog.op o >>= k) s = action run (k r) s' := by
  have hop : action run (Prog.op o >>= k) s = action run (k (run s o).1) (run s o).2 := rfl
  rw [hop, h]

theorem action_guard_ok {x : Except ε α} {f : α → Prog Op Res ε β} {a : α} {s : σ} (h : x = .ok a) :
    action run (Prog.ofExcept x >>= f) s = action run (f a) s := by
  subst h
  rfl

theorem action_guard_error {x : Except ε α} {f : α → Prog Op Res ε β} {e : ε} {s : σ} (h : x = .error e) :
    action run (Prog.ofExcept x >>= f) s = (.error e, s) := by
  subst h
  rfl

variable {B : Boundary σ ρ} {s : σ} {Q : α → σ → Prop} {R : β → σ → Prop}

theorem isolated_bind {m : Prog Op Res ε α} {f : α → Prog Op Res ε β} (hm : Isolated B (action run m) s Q)
    (hf : ∀ a s', Q a s' → Isolated B (action run (f a)) s' R) : Isolated B (action run (m >>= f)) s R := by
  rw [action_bind]
  exact hm.bind hf

theorem isolated_guard {x : Except ε α} {f : α → Prog Op Res ε β}
    (hf : ∀ a, x = .ok a → Isolated B (action run (f a)) s R) :
    Isolated B (action run (Prog.ofExcept x >>= f)) s R := by
  rw [action_bind, action_ofExcept]
  exact .ofExcept_bind hf

theorem isolated_op {o : Op} {k : Res o → Prog Op Res ε β} (h : Local B (fun s => run s o) s)
    (hk : Isolated B (action run (k (run s o).1)) (run s o).2 R) : Isolated B (action run (Prog.op o >>= k)) s R :=
  Isolated.act_bind h hk

theorem isolated_ofExcept {x : Except ε α} (h : ∀ a, x = .ok a → Q a s) :
    Isolated B (action run (Prog.ofExcept x : Prog Op Res ε α)) s Q := by
  rw [action_ofExcept]
  exact .ofExcept h

end

end Isolation
