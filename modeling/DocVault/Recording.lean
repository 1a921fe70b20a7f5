/-!
# Runs that record events

A computation that records events on its way and may throw. `Keeps` tells what
holds of every event of a run and of its exception; `outcomeAs` forgets the
events, and reads the exceptions as others.
-/

namespace Recording

structure Run (ρ ε α : Type) where
  events : List ρ
  outcome : Except ε α

namespace Run
variable {ρ ε δ α β : Type}

def bind (run : Run ρ ε α) (next : α → Run ρ ε β) : Run ρ ε β :=
  match run.outcome with
  | .ok a => ⟨run.events ++ (next a).events, (next a).outcome⟩
  | .error e => ⟨run.events, .error e⟩

instance : Monad (Run ρ ε) where
  pure a := ⟨[], .ok a⟩
  bind := bind

def throw (e : ε) : Run ρ ε α := ⟨[], .error e⟩

/-- A computation that records nothing. -/
def lift (f : δ → ε) : Except δ α → Run ρ ε α
  | .ok a => ⟨[], .ok a⟩
  | .error e => ⟨[], .error (f e)⟩

/-- `try { … } catch (error) { record(error); throw error; }` -/
def onError (record : ε → ρ) (run : Run ρ ε α) : Run ρ ε α :=
  match run.outcome with
  | .ok _ => run
  | .error e => ⟨run.events ++ [record e], .error e⟩

/-! ## What holds of every event and exception -/

structure Keeps (P : ρ → Prop) (Q : ε → Prop) (run : Run ρ ε α) : Prop where
  events : ∀ event ∈ run.events, P event
  thrown : ∀ e, run.outcome = .error e → Q e

variable {P : ρ → Prop} {Q : ε → Prop} {run : Run ρ ε α}

theorem keeps_pure (a : α) : Keeps P Q (pure a : Run ρ ε α) := ⟨fun _ h => absurd h List.not_mem_nil, nofun⟩

theorem keeps_throw {e : ε} (h : Q e) : Keeps P Q (throw e : Run ρ ε α) :=
  ⟨fun _ h => absurd h List.not_mem_nil, fun _ he => Except.error.inj he ▸ h⟩

theorem keeps_lift {g : δ → ε} (h : ∀ d, Q (g d)) (result : Except δ α) :
    Keeps P Q (lift g result : Run ρ ε α) := by
  cases result with
  | ok a => exact keeps_pure a
  | error d => exact keeps_throw (h d)

theorem keeps_bind {next : α → Run ρ ε β} (h : Keeps P Q run) (hnext : ∀ a, Keeps P Q (next a)) :
    Keeps P Q (run >>= next) := by
  change Keeps P Q (bind run next)
  unfold bind
  split
  · rename_i a _
    refine ⟨fun event hevent => ?_, (hnext a).thrown⟩
    rcases List.mem_append.mp hevent with hevent | hevent
    · exact h.events event hevent
    · exact (hnext a).events event hevent
  · rename_i e he
    exact ⟨h.events, fun e' he' => Except.error.inj he' ▸ h.thrown e he⟩

theorem keeps_onError {record : ε → ρ} (h : Keeps P Q run) (hrecord : ∀ e, Q e → P (record e)) :
    Keeps P Q (onError record run) := by
  unfold onError
  split
  · exact h
  · rename_i e he
    refine ⟨fun event hevent => ?_, fun e' he' => Except.error.inj he' ▸ h.thrown e he⟩
    rcases List.mem_append.mp hevent with hevent | hevent
    · exact h.events event hevent
    · rw [List.mem_singleton.mp hevent]
      exact hrecord e (h.thrown e he)

/-! ## The outcome -/

def outcomeAs (f : ε → δ) (run : Run ρ ε α) : Except δ α := run.outcome.mapError f

variable {f : ε → δ}

@[simp] theorem outcomeAs_pure (a : α) : outcomeAs f (pure a : Run ρ ε α) = .ok a := rfl

@[simp] theorem outcomeAs_throw (e : ε) : outcomeAs f (throw e : Run ρ ε α) = .error (f e) := rfl

theorem outcomeAs_lift {g : δ → ε} (h : ∀ d, f (g d) = d) (result : Except δ α) :
    outcomeAs f (lift g result : Run ρ ε α) = result := by
  cases result with
  | ok a => rfl
  | error d => exact congrArg Except.error (h d)

@[simp] theorem outcomeAs_bind (next : α → Run ρ ε β) :
    outcomeAs f (run >>= next) = outcomeAs f run >>= fun a => outcomeAs f (next a) := by
  change (bind run next).outcome.mapError f = run.outcome.mapError f >>= fun a => (next a).outcome.mapError f
  obtain ⟨events, outcome⟩ := run
  cases outcome <;> rfl

@[simp] theorem outcomeAs_onError (record : ε → ρ) : outcomeAs f (onError record run) = outcomeAs f run := by
  obtain ⟨events, outcome⟩ := run
  cases outcome <;> rfl

end Run

end Recording
