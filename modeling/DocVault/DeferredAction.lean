import DocVault.JsNumber
import DocVault.Machine
import Mathlib.Algebra.GroupWithZero.Nat

/-!
# Deferred actions

`deferred-action.ts`: an action that runs after a delay unless it is cancelled.
The timers are injected and `run` is the caller's, so their calls are inputs:
they may call back in any order, from inside one another, and a timer may fire
twice or after it was cleared. An absent value is `undefined`.
-/

namespace DocVault

open Machine

def DEFAULT_DELAY_MS : JsNumber := .finite 5000

/-- The timers of the options, or the ones of the browser, answer as inputs. -/
structure ScheduleDeferredOptions where
  delayMs : Option JsNumber := none

namespace Deferred

/-- A handle of `setTimer` is in `η`, what is thrown or rejected with in `ε`. -/
inductive Settlement (ε : Type) where
  | pending
  | fulfilled
  | rejected (reason : Option ε)
  deriving DecidableEq

-- A promise settles once: later calls of `resolve` and `reject` do nothing.
def Settlement.resolve {ε : Type} : Settlement ε → Settlement ε
  | pending => fulfilled
  | done => done

def Settlement.reject {ε : Type} (reason : Option ε) : Settlement ε → Settlement ε
  | pending => rejected reason
  | done => done

/-- A microtask of `Promise.resolve().then(run).then(resolve, reject)`. -/
inductive Job (ε : Type) where
  | run
  | resolve
  | reject (reason : Option ε)
  deriving DecidableEq

inductive Frame where
  | setTimer
  | clearTimer
  | run
  deriving DecidableEq

inductive Event (η ε : Type) where
  | setTimer (delayMs : JsNumber)
  | fired
  | cancelCalled
  | clearTimer (handle : Option η)
  | cancelReturned (result : Bool)
  | cancelThrew (error : Option ε)
  | runCalled
  deriving DecidableEq

/-- The end of a call out of the code. `run` may answer with a promise. -/
inductive Answer (η ε : Type) where
  | handle (handle : η)
  | undefined
  | promise
  | error (error : Option ε)

inductive Input (η ε : Type) where
  | fire
  | cancel
  | job
  | answer (answer : Answer η ε)
  | promiseSettled (outcome : Except (Option ε) Unit)

structure State (η ε : Type) where
  settled : Bool := false
  handle : Option η := none
  done : Settlement ε := .pending
  jobs : List (Job ε) := []
  frames : List Frame := [.setTimer]
  awaiting : Bool := false

section
variable {η ε : Type}

/-- The callback given to `setTimer`. -/
def onTimer (s : State η ε) : State η ε × List (Event η ε) :=
  if s.settled then (s, [.fired])
  else ({ s with settled := true, jobs := s.jobs ++ [.run] }, [.fired])

-- `cancel`, up to the call of `clearTimer`.
def cancel (s : State η ε) : State η ε × List (Event η ε) :=
  if s.settled then (s, [.cancelCalled, .cancelReturned false])
  else ({ s with settled := true, frames := .clearTimer :: s.frames }, [.cancelCalled, .clearTimer s.handle])

def Job.perform (s : State η ε) : Job ε → State η ε × List (Event η ε)
  | run => ({ s with frames := .run :: s.frames }, [.runCalled])
  | resolve => ({ s with done := s.done.resolve }, [])
  | reject reason => ({ s with done := s.done.reject reason }, [])

/-- How the code goes on after a call that has returned or thrown. The executor
of a promise that throws rejects it. -/
def Frame.resume (s : State η ε) : Frame → Answer η ε → Option (State η ε × List (Event η ε))
  | setTimer, .handle h => some ({ s with handle := some h }, [])
  | setTimer, .undefined => some ({ s with handle := none }, [])
  | setTimer, .error e => some ({ s with done := s.done.reject e }, [])
  | clearTimer, .undefined => some ({ s with done := s.done.reject none }, [.cancelReturned true])
  | clearTimer, .error e => some (s, [.cancelThrew e])
  | run, .undefined => some ({ s with jobs := s.jobs ++ [.resolve] }, [])
  | run, .promise => some ({ s with awaiting := true }, [])
  | run, .error e => some ({ s with jobs := s.jobs ++ [.reject e] }, [])
  | _, _ => none

def outcomeJob : Except (Option ε) Unit → Job ε
  | .ok () => .resolve
  | .error e => .reject e

/-- The timer has the callback from the start, the caller has `cancel` when `setTimer`
has ended, and a microtask waits until no call is open. -/
def step (s : State η ε) : Input η ε → Option (State η ε × List (Event η ε))
  | .fire => some (onTimer s)
  | .cancel => if .setTimer ∈ s.frames then none else some (cancel s)
  | .job =>
    match s.frames, s.jobs with
    | [], job :: jobs => some (job.perform { s with jobs })
    | _, _ => none
  | .answer a =>
    match s.frames with
    | frame :: frames => frame.resume { s with frames } a
    | [] => none
  | .promiseSettled outcome =>
    if s.awaiting then some ({ s with awaiting := false, jobs := s.jobs ++ [outcomeJob outcome] }, []) else none

/-- A call of `scheduleDeferredAction`, and what comes of it on some inputs. -/
def scheduleDeferredAction (options : ScheduleDeferredOptions) (inputs : List (Input η ε)) :
    Option (State η ε × List (Event η ε)) :=
  (exec step {} inputs).map fun (s, trace) => (s, .setTimer (options.delayMs.getD DEFAULT_DELAY_MS) :: trace)

/-! ## The first attempt -/

/-- The two ways out of the window in which the action is undoable. -/
inductive Attempt where
  | apply
  | undo
  deriving DecidableEq

def Event.attempt : Event η ε → Option Attempt
  | fired => some .apply
  | cancelCalled => some .undo
  | _ => none

def winner (trace : List (Event η ε)) : Option Attempt := trace.findSome? Event.attempt

-- The end of the call of `cancel` that came first.
def Event.undoes : Event η ε → Bool
  | cancelReturned result => result
  | cancelThrew _ => true
  | _ => false

def FiredFirst (trace : List (Event η ε)) : Prop :=
  ∃ before after, trace = before ++ .fired :: after ∧ .cancelCalled ∉ before

def AtRest (s : State η ε) : Prop := s.frames = [] ∧ s.jobs = []

-- What the engine and the calls that are open do by themselves.
def Input.Completes : Input η ε → Prop
  | job => True
  | answer _ => True
  | _ => False

theorem winner_append (trace out : List (Event η ε)) : winner (trace ++ out) = (winner trace).or (winner out) :=
  List.findSome?_append

theorem winner_silent {trace out : List (Event η ε)} (h : winner out = none) :
    winner (trace ++ out) = winner trace := by
  rw [winner_append, h, Option.or_none]

theorem FiredFirst.winner {trace : List (Event η ε)} (h : FiredFirst trace) : winner trace = some .apply := by
  obtain ⟨before, after, rfl, hb⟩ := h
  rw [winner_append]
  cases hw : Deferred.winner before with
  | none => rfl
  | some a =>
    obtain ⟨e, he, ha⟩ := List.exists_of_findSome?_eq_some hw
    cases a with
    | apply => rfl
    | undo =>
      cases e with
      | cancelCalled => exact absurd he hb
      | _ => cases ha

/-! ## The weight of what is left -/

def Job.weight : Job ε → Nat
  | run => 3
  | _ => 1

def Frame.weight : Frame → Nat
  | run => 2
  | _ => 1

def weight (s : State η ε) : Nat := (s.jobs.map Job.weight).sum + (s.frames.map Frame.weight).sum

theorem atRest_of_weight {s : State η ε} (h : weight s = 0) : AtRest s := by
  obtain ⟨hj, hf⟩ := Nat.add_eq_zero_iff.mp h
  constructor
  · cases hs : s.frames with
    | nil => rfl
    | cons frame frames => rw [hs] at hf; cases frame <;> simp [Frame.weight] at hf
  · cases hs : s.jobs with
    | nil => rfl
    | cons job jobs => rw [hs] at hj; cases job <;> simp [Job.weight] at hj

theorem resume_weight {s s' : State η ε} {frame : Frame} {a : Answer η ε} {out : List (Event η ε)}
    (h : frame.resume s a = some (s', out)) : weight s' < weight s + frame.weight := by
  cases frame <;> cases a <;> cases h <;> simp [weight, Job.weight, Frame.weight] <;> omega

theorem step_weight {s s' : State η ε} {i : Input η ε} {out : List (Event η ε)} (hi : i.Completes)
    (h : step s i = some (s', out)) : weight s' < weight s := by
  obtain ⟨settled, handle, done, jobs, frames, awaiting⟩ := s
  cases i with
  | job =>
    cases frames with
    | cons frame frames => cases h
    | nil =>
      cases jobs with
      | nil => cases h
      | cons job jobs =>
        obtain ⟨rfl, rfl⟩ := Prod.mk.inj (Option.some.inj h)
        cases job with
        | run => simp [weight, Job.weight, Frame.weight]; omega
        | _ => simp [weight, Job.weight]
  | answer a =>
    cases frames with
    | nil => cases h
    | cons frame frames =>
      have hlt := resume_weight h
      simp only [weight, List.map_cons, List.sum_cons] at hlt ⊢
      omega
  | _ => cases hi

/-- An open call can return, and without one the first microtask can run. -/
theorem completes (s : State η ε) (h : weight s ≠ 0) :
    ∃ i s' out, Input.Completes i ∧ step s i = some (s', out) ∧ weight s' < weight s := by
  suffices ∃ i s' out, Input.Completes i ∧ step s i = some (s', out) by
    obtain ⟨i, s', out, hi, hs⟩ := this
    exact ⟨i, s', out, hi, hs, step_weight hi hs⟩
  obtain ⟨settled, handle, done, jobs, frames, awaiting⟩ := s
  cases frames with
  | cons frame frames => cases frame <;> exact ⟨.answer .undefined, _, _, trivial, rfl⟩
  | nil =>
    cases jobs with
    | nil => exact absurd rfl h
    | cons job jobs => exact ⟨.job, _, _, trivial, rfl⟩

theorem comes_to_rest (s : State η ε) : ∃ inputs s' trace, (∀ i ∈ inputs, Input.Completes i) ∧
    exec step s inputs = some (s', trace) ∧ AtRest s' := by
  obtain ⟨inputs, s', trace, hi, hx, hw⟩ := exec_rest weight Input.Completes completes s
  exact ⟨inputs, s', trace, hi, hx, atRest_of_weight hw⟩

/-! ## What holds along every run -/

variable [DecidableEq η] [DecidableEq ε]

/-- The run that the first attempt has decided: the action is called or queued
once, or one call of `cancel` has undone it or is about to. -/
structure Follows (trace : List (Event η ε)) (s : State η ε) : Prop where
  settled : s.settled = (winner trace).isSome
  runs : trace.count .runCalled + s.jobs.count .run = if winner trace = some .apply then 1 else 0
  undone : trace.countP Event.undoes + s.frames.count .clearTimer = if winner trace = some .undo then 1 else 0
  ends : trace.count .cancelCalled =
    trace.count (.cancelReturned false) + trace.countP Event.undoes + s.frames.count .clearTimer

variable {trace out : List (Event η ε)} {s s' : State η ε}

theorem Follows.initial (delayMs : JsNumber) : Follows [.setTimer delayMs] ({} : State η ε) := ⟨rfl, rfl, rfl, rfl⟩

theorem Follows.decided (h : Follows trace s) (hw : winner (trace ++ out) = winner trace)
    (hs : s'.settled = s.settled) (hruns : out.count .runCalled + s'.jobs.count .run = s.jobs.count .run)
    (hundone : out.countP Event.undoes + s'.frames.count .clearTimer = s.frames.count .clearTimer)
    (hends : out.count .cancelCalled = out.count (.cancelReturned false)) : Follows (trace ++ out) s' where
  settled := by rw [hs, hw, h.settled]
  runs := by rw [hw, ← h.runs, List.count_append, Nat.add_assoc, hruns]
  undone := by rw [hw, ← h.undone, List.countP_append, Nat.add_assoc, hundone]
  ends := by
    have := h.ends
    simp only [List.count_append, List.countP_append]
    omega

theorem winner_settled (h : Follows trace s) (hs : s.settled = true) : winner (trace ++ out) = winner trace := by
  rw [h.settled] at hs
  rw [winner_append, Option.or_of_isSome hs]

theorem Follows.undecided (h : Follows trace s) (hs : ¬s.settled = true) : winner trace = none ∧
    trace.count .runCalled + s.jobs.count .run = 0 ∧
    trace.countP Event.undoes + s.frames.count .clearTimer = 0 := by
  obtain ⟨hset, hr, hu, _⟩ := h
  have hw : winner trace = none := by
    rw [hset] at hs
    simpa using hs
  rw [hw, if_neg (by decide)] at hr hu
  exact ⟨hw, hr, hu⟩

theorem Follows.onTimer (h : Follows trace s) : Follows (trace ++ (onTimer s).2) (onTimer s).1 := by
  unfold Deferred.onTimer
  split
  · rename_i hs
    exact h.decided (winner_settled h hs) rfl (by simp) (by simp [Event.undoes]) rfl
  · rename_i hs
    obtain ⟨hnone, hr, hu⟩ := h.undecided hs
    have hw : winner (trace ++ [.fired]) = some .apply := by rw [winner_append, hnone]; rfl
    have he := h.ends
    constructor
    · rw [hw]; rfl
    · rw [hw, if_pos rfl]; simp; omega
    · rw [hw, if_neg (by decide)]; simpa [Event.undoes] using hu
    · simpa [Event.undoes] using he

theorem Follows.cancel (h : Follows trace s) : Follows (trace ++ (cancel s).2) (cancel s).1 := by
  unfold Deferred.cancel
  split
  · rename_i hs
    exact h.decided (winner_settled h hs) rfl (by simp) (by simp [Event.undoes]) rfl
  · rename_i hs
    obtain ⟨hnone, hr, hu⟩ := h.undecided hs
    have hw : winner (trace ++ [.cancelCalled, .clearTimer s.handle]) = some .undo := by
      rw [winner_append, hnone]; rfl
    have he := h.ends
    constructor
    · rw [hw]; rfl
    · rw [hw, if_neg (by decide)]; simpa using hr
    · rw [hw, if_pos rfl]; simp [Event.undoes]; omega
    · simp [Event.undoes]; omega

theorem Follows.perform {job : Job ε} {jobs : List (Job ε)} (h : Follows trace s) (hj : s.jobs = job :: jobs) :
    Follows (trace ++ (job.perform { s with jobs }).2) (job.perform { s with jobs }).1 := by
  cases job with
  | run =>
    refine h.decided (winner_silent rfl) rfl ?_ (by simp [Job.perform, Event.undoes]) rfl
    simp [Job.perform, hj]
    omega
  | _ => exact h.decided (winner_silent rfl) rfl (by simp [Job.perform, hj]) (by simp [Job.perform]) rfl

theorem Follows.resume {frame : Frame} {frames : List Frame} {a : Answer η ε} (h : Follows trace s)
    (hf : s.frames = frame :: frames) (hr : frame.resume { s with frames } a = some (s', out)) :
    Follows (trace ++ out) s' := by
  cases frame with
  | clearTimer =>
    cases a <;> cases hr
    all_goals exact h.decided (winner_silent rfl) rfl (by simp) (by simp [hf, Event.undoes]; omega) rfl
  | _ =>
    cases a <;> cases hr
    all_goals exact h.decided (winner_silent rfl) rfl (by simp) (by simp [hf]) rfl

theorem Follows.step {i : Input η ε} (h : Follows trace s) (hx : step s i = some (s', out)) :
    Follows (trace ++ out) s' := by
  cases i with
  | fire =>
    obtain ⟨rfl, rfl⟩ := Prod.mk.inj (Option.some.inj hx)
    exact h.onTimer
  | cancel =>
    simp only [Deferred.step] at hx
    split at hx
    · cases hx
    · obtain ⟨rfl, rfl⟩ := Prod.mk.inj (Option.some.inj hx)
      exact h.cancel
  | job =>
    simp only [Deferred.step] at hx
    split at hx
    · rename_i hj
      obtain ⟨rfl, rfl⟩ := Prod.mk.inj (Option.some.inj hx)
      exact h.perform hj
    · cases hx
  | answer a =>
    simp only [Deferred.step] at hx
    split at hx
    · rename_i hf
      exact h.resume hf hx
    · cases hx
  | promiseSettled outcome =>
    simp only [Deferred.step] at hx
    split at hx
    · obtain ⟨rfl, rfl⟩ := Prod.mk.inj (Option.some.inj hx)
      exact h.decided (winner_silent rfl) rfl (by cases outcome <;> simp [outcomeJob]) (by simp) rfl
    · cases hx

theorem follows {options : ScheduleDeferredOptions} {inputs : List (Input η ε)}
    (h : scheduleDeferredAction options inputs = some (s, trace)) : Follows trace s := by
  obtain ⟨⟨s', rest⟩, hx, heq⟩ := Option.map_eq_some_iff.mp h
  obtain ⟨rfl, rfl⟩ := Prod.mk.inj heq
  exact exec_keeps Follows.step (Follows.initial _) hx

/-! ## Undo -/

/-- Every call of `cancel` has returned `false`. -/
structure CancelsFail (trace : List (Event η ε)) : Prop where
  returned : trace.count .cancelCalled = trace.count (.cancelReturned false)
  not_true : .cancelReturned true ∉ trace
  not_thrown : ∀ error, .cancelThrew error ∉ trace

/-- The action is called once and not again: it has been, or it is queued, and
the open calls and the queue come to an end. -/
structure RunsOnce (trace : List (Event η ε)) (s : State η ε) : Prop where
  once : trace.count .runCalled + s.jobs.count .run = 1
  called : AtRest s → trace.count .runCalled = 1
  comes : ∃ inputs s' rest, (∀ i ∈ inputs, Input.Completes i) ∧ exec step s inputs = some (s', rest) ∧ AtRest s' ∧
    (trace ++ rest).count .runCalled = 1

theorem Follows.cancelsFail (h : Follows trace s) (hw : winner trace = some .apply) : CancelsFail trace := by
  have hu := h.undone
  have he := h.ends
  rw [hw, if_neg (by decide)] at hu
  have hnone := List.countP_eq_zero.mp (Nat.eq_zero_of_add_eq_zero_right hu)
  exact ⟨by omega, fun hm => hnone _ hm rfl, fun error hm => hnone _ hm rfl⟩

theorem Follows.runsOnce (h : Follows trace s) (hw : winner trace = some .apply) : RunsOnce trace s := by
  have once {trace : List (Event η ε)} {s : State η ε} (h : Follows trace s) (hw : winner trace = some .apply) :
      trace.count .runCalled + s.jobs.count .run = 1 := by rw [h.runs, if_pos hw]
  have called {trace : List (Event η ε)} {s : State η ε} (h : Follows trace s) (hw : winner trace = some .apply)
      (hs : AtRest s) : trace.count .runCalled = 1 := by
    have := once h hw
    rwa [hs.2, List.count_nil] at this
  obtain ⟨inputs, s', rest, hi, hx, hrest⟩ := comes_to_rest s
  have hw' : winner (trace ++ rest) = some .apply := by rw [winner_append, hw]; rfl
  exact ⟨once h hw, called h hw, inputs, s', rest, hi, hx, hrest, called (exec_keeps Follows.step h hx) hw' hrest⟩

theorem count_le_undoes (trace : List (Event η ε)) :
    trace.count (.cancelReturned true) ≤ trace.countP Event.undoes :=
  List.countP_mono_left fun e _ he => by rw [eq_of_beq he]; rfl

theorem undo_prevents_run {options : ScheduleDeferredOptions} {inputs : List (Input η ε)}
    (h : scheduleDeferredAction options inputs = some (s, trace)) :
    trace.count .runCalled ≤ 1 ∧ (.cancelReturned true ∈ trace → .runCalled ∉ trace) ∧
      trace.count (.cancelReturned true) ≤ 1 ∧ (FiredFirst trace → RunsOnce trace s ∧ CancelsFail trace) := by
  have hf := follows h
  have hr := hf.runs
  have hu := hf.undone
  have hle := count_le_undoes trace
  refine ⟨?_, fun hmem hrun => ?_, ?_, fun hfirst => ⟨hf.runsOnce hfirst.winner, hf.cancelsFail hfirst.winner⟩⟩
  · split at hr <;> omega
  · have hpos := List.count_pos_iff.mpr hmem
    have hpos' := List.count_pos_iff.mpr hrun
    cases hw : winner trace with
    | none => rw [hw, if_neg (by decide)] at hu; omega
    | some a =>
      cases a with
      | apply => rw [hw, if_neg (by decide)] at hu; omega
      | undo => rw [hw, if_neg (by decide)] at hr; omega
  · split at hu <;> omega

end

-- The timer fires, the caller cancels too late, and the timer fires again before the microtask.
def lateCancel : List (Input Nat String) :=
  [.answer (.handle 7), .fire, .cancel, .fire, .job, .answer .undefined, .job]

theorem undo_prevents_run_late : ∃ s trace, scheduleDeferredAction {} lateCancel = some (s, trace) ∧
    FiredFirst trace ∧ trace.count .runCalled ≤ 1 ∧ RunsOnce trace s ∧ CancelsFail trace := by
  have hfirst : FiredFirst ([.setTimer DEFAULT_DELAY_MS, .fired, .cancelCalled, .cancelReturned false, .fired,
      .runCalled] : List (Event Nat String)) := ⟨[_], _, rfl, by decide⟩
  have h := undo_prevents_run (rfl : scheduleDeferredAction {} lateCancel = some _)
  exact ⟨_, _, rfl, hfirst, h.1, h.2.2.2 hfirst⟩

-- A timer that does not honour `clearTimer` fires from inside it and after it.
example : (scheduleDeferredAction {} [.answer (.handle 7), .cancel, .fire, .answer .undefined, .fire] :
    Option (State Nat String × List (Event Nat String))).map Prod.snd =
      some [.setTimer DEFAULT_DELAY_MS, .cancelCalled, .clearTimer (some 7), .fired,
        .cancelReturned true, .fired] := rfl

end Deferred

end DocVault
