import Mathlib.Data.List.Basic

/-!
# Machines that react to inputs

A machine refuses an input, or goes to another state and emits outputs. The
outputs of a run, in order, are its trace. `exec_keeps` carries what one step
preserves along a run; `exec_rest` is a run that goes on until a weight is used
up, with inputs of one kind only.
-/

namespace Machine

variable {σ ι ω : Type} (step : σ → ι → Option (σ × List ω))

def exec : σ → List ι → Option (σ × List ω)
  | s, [] => some (s, [])
  | s, i :: inputs => do
    let (s, out) ← step s i
    let (s, rest) ← exec s inputs
    some (s, out ++ rest)

variable {step}

theorem exec_cons {s s' : σ} {i : ι} {inputs : List ι} {trace : List ω} :
    exec step s (i :: inputs) = some (s', trace) ↔
      ∃ s₁ out rest, step s i = some (s₁, out) ∧ exec step s₁ inputs = some (s', rest) ∧ trace = out ++ rest := by
  simp only [exec, Option.bind_eq_bind, Option.bind_eq_some_iff, Prod.exists, Option.some.injEq, Prod.mk.injEq]
  constructor
  · rintro ⟨s₁, out, hs, s₂, rest, hr, rfl, rfl⟩
    exact ⟨s₁, out, rest, hs, hr, rfl⟩
  · rintro ⟨s₁, out, rest, hs, hr, rfl⟩
    exact ⟨s₁, out, hs, s', rest, hr, rfl, rfl⟩

/-- What holds of the trace so far and the state, and is kept by one step, is kept by a run. -/
theorem exec_keeps {P : List ω → σ → Prop}
    (hstep : ∀ {past s i s' out}, P past s → step s i = some (s', out) → P (past ++ out) s') {inputs : List ι}
    {past trace : List ω} {s s' : σ} (h : P past s) (hx : exec step s inputs = some (s', trace)) :
    P (past ++ trace) s' := by
  induction inputs generalizing past s trace with
  | nil =>
    obtain ⟨rfl, rfl⟩ := Prod.mk.inj (Option.some.inj hx)
    rwa [List.append_nil]
  | cons i inputs ih =>
    obtain ⟨s₁, out, rest, hs, hr, rfl⟩ := exec_cons.mp hx
    rw [← List.append_assoc]
    exact ih (hstep h hs) hr

/-- By induction on the weight: as long as some is left, an input that is allowed takes some of it. -/
theorem exec_rest (weight : σ → Nat) (allowed : ι → Prop)
    (h : ∀ s, weight s ≠ 0 → ∃ i s' out, allowed i ∧ step s i = some (s', out) ∧ weight s' < weight s) (s : σ) :
    ∃ inputs s' trace, (∀ i ∈ inputs, allowed i) ∧ exec step s inputs = some (s', trace) ∧ weight s' = 0 := by
  induction hw : weight s using Nat.strongRecOn generalizing s with
  | ind n ih =>
    by_cases hn : weight s = 0
    · exact ⟨[], s, [], fun _ hi => absurd hi List.not_mem_nil, rfl, hn⟩
    · obtain ⟨i, s₁, out, hi, hs, hlt⟩ := h s hn
      obtain ⟨inputs, s', rest, hall, hr, hzero⟩ := ih (weight s₁) (hw ▸ hlt) s₁ rfl
      exact ⟨i :: inputs, s', out ++ rest, List.forall_mem_cons.mpr ⟨hi, hall⟩,
        exec_cons.mpr ⟨s₁, out, rest, hs, hr, rfl⟩, hzero⟩

end Machine
