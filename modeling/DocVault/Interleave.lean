import Mathlib.Logic.Function.Basic

/-!
# Processes over a shared store

A process is a tree of atomic store operations: after each operation it goes
on with the answer. Any number of processes run over one store, one operation
at a time, in any order. `Ok` is the rely-guarantee reading of a process
(what it may assume of the other processes is `rely`, what it keeps is `inv`)
and `Reach.ok` puts the processes together. `Serial` are the runs in which each
process ends before the next one starts.
-/

namespace Interleave

/-- A process over the operations `Op`, where `o` is answered in `Res o`. -/
inductive Prog (Op : Type) (Res : Op → Type) (ε α : Type) where
  | ret (a : α)
  | throw (e : ε)
  | call (o : Op) (k : Res o → Prog Op Res ε α)

section
variable {Op : Type} {Res : Op → Type} {ε α β : Type}

namespace Prog

protected def bind : Prog Op Res ε α → (α → Prog Op Res ε β) → Prog Op Res ε β
  | ret a, f => f a
  | throw e, _ => throw e
  | call o k, f => call o fun r => (k r).bind f

instance : Monad (Prog Op Res ε) where
  pure := ret
  bind := Prog.bind

def op (o : Op) : Prog Op Res ε (Res o) := call o ret

def ofExcept : Except ε α → Prog Op Res ε α
  | .ok a => ret a
  | .error e => throw e

def Uses (U : Op → Prop) : Prog Op Res ε α → Prop
  | call o k => U o ∧ ∀ r, (k r).Uses U
  | _ => True

def next : Prog Op Res ε α → Option Op
  | call o _ => some o
  | _ => none

@[simp] theorem ret_bind (a : α) (f : α → Prog Op Res ε β) : (ret a : Prog Op Res ε α) >>= f = f a := rfl

@[simp] theorem pure_bind' (a : α) (f : α → Prog Op Res ε β) :
    (pure a : Prog Op Res ε α) >>= f = f a := rfl

@[simp] theorem throw_bind (e : ε) (f : α → Prog Op Res ε β) :
    (throw e : Prog Op Res ε α) >>= f = throw e := rfl

@[simp] theorem call_bind (o : Op) (k : Res o → Prog Op Res ε α) (f : α → Prog Op Res ε β) :
    call o k >>= f = call o fun r => k r >>= f := rfl

@[simp] theorem op_bind (o : Op) (f : Res o → Prog Op Res ε β) :
    (op o : Prog Op Res ε (Res o)) >>= f = call o f := rfl

theorem bind_assoc {γ : Type} (f : α → Prog Op Res ε β) (g : β → Prog Op Res ε γ) :
    ∀ m : Prog Op Res ε α, m >>= f >>= g = m >>= fun a => f a >>= g
  | ret _ => rfl
  | throw _ => rfl
  | call o k => congrArg (call o) (funext fun r => bind_assoc f g (k r))

@[simp] theorem pure_eq (a : α) : (pure a : Prog Op Res ε α) = ret a := rfl

@[simp] theorem ofExcept_ok (a : α) : (ofExcept (.ok a) : Prog Op Res ε α) = ret a := rfl

@[simp] theorem ofExcept_error (e : ε) : (ofExcept (.error e) : Prog Op Res ε α) = throw e := rfl

@[simp] theorem next_call (o : Op) (k : Res o → Prog Op Res ε α) : (call o k).next = some o := rfl

@[simp] theorem next_ret (a : α) : (ret a : Prog Op Res ε α).next = none := rfl

@[simp] theorem next_throw (e : ε) : (throw e : Prog Op Res ε α).next = none := rfl

theorem next_eq_some {m : Prog Op Res ε α} {o : Op} (h : m.next = some o) : ∃ k, m = .call o k := by
  cases m with
  | ret a => cases h
  | throw e => cases h
  | call o' k => cases h; exact ⟨k, rfl⟩

theorem Uses.bind {U : Op → Prop} {f : α → Prog Op Res ε β} (hf : ∀ a, (f a).Uses U) :
    ∀ {m : Prog Op Res ε α}, m.Uses U → (m >>= f).Uses U
  | ret a, _ => hf a
  | throw _, _ => trivial
  | call _ _, h => ⟨h.1, fun r => Uses.bind hf (h.2 r)⟩

theorem Uses.mono {U V : Op → Prop} (h : ∀ o, U o → V o) : ∀ {m : Prog Op Res ε α}, m.Uses U → m.Uses V
  | ret _, _ => trivial
  | throw _, _ => trivial
  | call o _, hu => ⟨h o hu.1, fun r => Uses.mono h (hu.2 r)⟩

theorem uses_true : ∀ m : Prog Op Res ε α, m.Uses fun _ => True
  | ret _ => trivial
  | throw _ => trivial
  | call _ k => ⟨trivial, fun r => (k r).uses_true⟩

theorem Uses.pure {U : Op → Prop} (a : α) : (Pure.pure a : Prog Op Res ε α).Uses U := trivial

theorem Uses.op {U : Op → Prop} {o : Op} (h : U o) : (Prog.op o : Prog Op Res ε (Res o)).Uses U :=
  ⟨h, fun _ => trivial⟩

theorem Uses.ofExcept {U : Op → Prop} (x : Except ε α) : (ofExcept x : Prog Op Res ε α).Uses U := by
  cases x <;> trivial

/-- A process that calls another service: `f` names its operations there, `g` reads their answers. -/
def lift {Op' : Type} {Res' : Op' → Type} (f : Op → Op') (g : ∀ o, Res' (f o) → Except ε (Res o)) :
    Prog Op Res ε α → Prog Op' Res' ε α
  | ret a => ret a
  | throw e => throw e
  | call o k => call (f o) fun r =>
    match g o r with
    | .ok r => (k r).lift f g
    | .error e => throw e

section
variable {Op' : Type} {Res' : Op' → Type} {f : Op → Op'} {g : ∀ o, Res' (f o) → Except ε (Res o)}

@[simp] theorem lift_ofExcept (x : Except ε α) : (ofExcept x : Prog Op Res ε α).lift f g = ofExcept x := by
  cases x <;> rfl

theorem lift_op (o : Op) : (op o : Prog Op Res ε (Res o)).lift f g = op (f o) >>= fun r => ofExcept (g o r) := by
  simp only [op, lift, call_bind, ret_bind, call.injEq, heq_eq_eq, true_and]
  funext r
  cases g o r <;> rfl

theorem lift_bind (h : α → Prog Op Res ε β) : ∀ m : Prog Op Res ε α, (m >>= h).lift f g = m.lift f g >>=
    fun a => (h a).lift f g
  | ret _ => rfl
  | throw _ => rfl
  | call o k => by
    simp only [call_bind, lift, call.injEq, heq_eq_eq, true_and]
    funext r
    cases g o r with
    | ok r => exact lift_bind h (k r)
    | error e => rfl

end

/-- A process whose failure is caught. -/
def attempt : Prog Op Res ε α → Prog Op Res ε (Except ε α)
  | ret a => ret (.ok a)
  | throw e => ret (.error e)
  | call o k => call o fun r => (k r).attempt

theorem Uses.lift {Op' : Type} {Res' : Op' → Type} {f : Op → Op'} {g : ∀ o, Res' (f o) → Except ε (Res o)}
    {U : Op → Prop} {V : Op' → Prop} (h : ∀ o, U o → V (f o)) :
    ∀ {m : Prog Op Res ε α}, m.Uses U → (m.lift f g).Uses V
  | ret _, _ => trivial
  | throw _, _ => trivial
  | call o k, hu => by
    simp only [Prog.lift, Uses]
    refine ⟨h o hu.1, fun r => ?_⟩
    cases g o r with
    | ok r => exact Uses.lift h (hu.2 r)
    | error e => trivial

theorem Uses.attempt {U : Op → Prop} : ∀ {m : Prog Op Res ε α}, m.Uses U → m.attempt.Uses U
  | ret _, _ => trivial
  | throw _, _ => trivial
  | call _ _, hu => ⟨hu.1, fun r => Uses.attempt (hu.2 r)⟩

theorem Uses.ofExcept_bind {U : Op → Prop} {x : Except ε α} {f : α → Prog Op Res ε β}
    (hf : ∀ a, x = .ok a → (f a).Uses U) : (Prog.ofExcept x >>= f).Uses U := by
  cases x with
  | ok a => exact hf a rfl
  | error e => trivial

end Prog

end

structure Config (ι σ Op : Type) (Res : Op → Type) (ε α : Type) where
  store : σ
  procs : ι → Prog Op Res ε α

/-- `exec p s o r s'`: process `p` executes `o` in `s`, is answered `r` and
leaves `s'`. -/
abbrev Exec (ι σ Op : Type) (Res : Op → Type) := ι → σ → (o : Op) → Res o → σ → Prop

section
variable {ι σ Op : Type} {Res : Op → Type} {ε α : Type} [DecidableEq ι]

/-- The configurations reached from `c₀` by steps that meet `cond`. An
operation may also fail (or its process die before it) without effect. -/
inductive Reach (exec : Exec ι σ Op Res) (cond : Config ι σ Op Res ε α → ι → Op → Prop)
    (c₀ : Config ι σ Op Res ε α) : Config ι σ Op Res ε α → Prop
  | refl : Reach exec cond c₀ c₀
  | exec {c : Config ι σ Op Res ε α} {p : ι} {o : Op} {k : Res o → Prog Op Res ε α} {r : Res o} {s' : σ} :
      Reach exec cond c₀ c → c.procs p = .call o k → exec p c.store o r s' → cond c p o →
      Reach exec cond c₀ ⟨s', Function.update c.procs p (k r)⟩
  | fail {c : Config ι σ Op Res ε α} {p : ι} {o : Op} {k : Res o → Prog Op Res ε α} (e : ε) :
      Reach exec cond c₀ c → c.procs p = .call o k →
      Reach exec cond c₀ ⟨c.store, Function.update c.procs p (.throw e)⟩

section
variable {exec : Exec ι σ Op Res} {cond : Config ι σ Op Res ε α → ι → Op → Prop} {c₀ c : Config ι σ Op Res ε α}
  {U : ι → Op → Prop}

theorem Reach.trans {c' : Config ι σ Op Res ε α} (hr : Reach exec cond c₀ c) (h : Reach exec cond c c') :
    Reach exec cond c₀ c' := by
  induction h with
  | refl => exact hr
  | exec _ hp hx hc ih => exact ih.exec hp hx hc
  | fail e _ hp ih => exact ih.fail e hp

/-- A run meets what holds of each of its steps. -/
theorem Reach.refine {exec' : Exec ι σ Op Res} {cond' : Config ι σ Op Res ε α → ι → Op → Prop}
    (hr : Reach exec cond c₀ c) (h : ∀ c p o k r s', Reach exec cond c₀ c → c.procs p = .call o k →
      exec p c.store o r s' → cond c p o → exec' p c.store o r s' ∧ cond' c p o) : Reach exec' cond' c₀ c := by
  induction hr with
  | refl => exact .refl
  | exec hr hp hx hc ih =>
    obtain ⟨hx', hc'⟩ := h _ _ _ _ _ _ hr hp hx hc
    exact ih.exec hp hx' hc'
  | fail e _ hp ih => exact ih.fail e hp

theorem Reach.mono {cond' : Config ι σ Op Res ε α → ι → Op → Prop} (hr : Reach exec cond c₀ c)
    (h : ∀ c p o, cond c p o → cond' c p o) : Reach exec cond' c₀ c :=
  hr.refine fun c p o _ _ _ _ _ hx hc => ⟨hx, h c p o hc⟩

theorem Reach.uses (hr : Reach exec cond c₀ c) (hU : ∀ p, (c₀.procs p).Uses (U p)) (p : ι) :
    (c.procs p).Uses (U p) := by
  induction hr generalizing p with
  | refl => exact hU p
  | @exec c q o k r s' _ hq _ _ ih =>
    by_cases h : p = q
    · subst h
      have hk := ih p
      rw [hq] at hk
      simpa using hk.2 r
    · simpa [Function.update_of_ne h] using ih p
  | @fail c q o k e _ _ ih =>
    by_cases h : p = q
    · subst h; simp [Prog.Uses]
    · simpa [Function.update_of_ne h] using ih p

/-- What every step of the operations in use preserves, every run preserves. -/
theorem Reach.invariant {I : σ → Prop} (hr : Reach exec cond c₀ c) (hU : ∀ p, (c₀.procs p).Uses (U p))
    (hI : I c₀.store)
    (hstep : ∀ c p o r s', I c.store → U p o → cond c p o → exec p c.store o r s' → I s') : I c.store := by
  induction hr with
  | refl => exact hI
  | @exec c p o k r s' hr hp hx hc ih =>
    have hu := hr.uses hU p
    rw [hp] at hu
    exact hstep c p o r s' ih hu.1 hc hx
  | fail _ _ _ ih => exact ih

end

end

/-! ## Rely and guarantee -/

/-- What a proof about all processes is stated over: the operations, a
condition under which process `p` executes an operation, an invariant of the
store, what the other processes may do while `p` stands before an operation
(`none`: after `p` has ended), and what `p` warrants of its operations. -/
structure Spec (ι σ Op : Type) (Res : Op → Type) where
  exec : Exec ι σ Op Res
  pre : ι → σ → Op → Prop
  inv : σ → Prop
  rely : ι → Option Op → σ → σ → Prop
  guar : ι → σ → Op → Prop := fun _ _ _ => True

structure Spec.Closed {ι σ Op : Type} {Res : Op → Type} (S : Spec ι σ Op Res) : Prop where
  refl : ∀ p o s, S.rely p o s s
  trans : ∀ p o s₁ s₂ s₃, S.rely p o s₁ s₂ → S.rely p o s₂ s₃ → S.rely p o s₁ s₃

section
variable {ι σ Op : Type} {Res : Op → Type} {ε α β : Type} (S : Spec ι σ Op Res) (p : ι)

/-- Process `p` keeps the invariant at each of its operations, whatever the
others did before it, ends with `Q` and fails with `E`. -/
def Ok (Q : α → σ → Prop) (E : ε → σ → Prop) : Prog Op Res ε α → σ → Prop
  | .ret a, s => Q a s
  | .throw e, s => E e s
  | .call o k, s => ∀ s', S.rely p (some o) s s' → S.inv s' →
      (S.pre p s' o → S.guar p s' o) ∧ (∀ e, E e s') ∧
        ∀ r s'', S.pre p s' o → S.exec p s' o r s'' → S.inv s'' ∧ Ok Q E (k r) s''

variable {S p} {Q : α → σ → Prop} {E : ε → σ → Prop}

@[simp] theorem Ok_ret (a : α) (s : σ) : Ok S p Q E (.ret a) s ↔ Q a s := Iff.rfl

@[simp] theorem Ok_throw (e : ε) (s : σ) : Ok S p Q E (.throw e) s ↔ E e s := Iff.rfl

theorem Ok_op {o : Op} {k : Res o → Prog Op Res ε α} {s : σ}
    (hG : ∀ s', S.rely p (some o) s s' → S.inv s' → S.pre p s' o → S.guar p s' o)
    (hE : ∀ e s', S.rely p (some o) s s' → S.inv s' → E e s')
    (hk : ∀ s' r s'', S.rely p (some o) s s' → S.inv s' → S.pre p s' o → S.exec p s' o r s'' →
      S.inv s'' ∧ Ok S p Q E (k r) s'') : Ok S p Q E (Prog.op o >>= k) s :=
  fun s' hs hi => ⟨hG s' hs hi, fun e => hE e s' hs hi, fun r s'' hp hx => hk s' r s'' hs hi hp hx⟩

/-- Sequencing: the rest of the process starts from what the first part ends with. -/
theorem Ok_bind {R : β → σ → Prop} {f : α → Prog Op Res ε β} (hf : ∀ a s, S.inv s → Q a s → Ok S p R E (f a) s) :
    ∀ (m : Prog Op Res ε α) (s : σ), S.inv s → Ok S p Q E m s → Ok S p R E (m >>= f) s
  | .ret a, s, hi, h => hf a s hi h
  | .throw _, _, _, h => h
  | .call o k, s, _, h => by
    intro s' hs hi'
    obtain ⟨hG, hE, hk⟩ := h s' hs hi'
    refine ⟨hG, hE, fun r s'' hp hx => ?_⟩
    obtain ⟨hi'', hkr⟩ := hk r s'' hp hx
    exact ⟨hi'', Ok_bind hf (k r) s'' hi'' hkr⟩

/-- A process that uses only operations which keep an assertion of its own, ends and fails with it. -/
theorem Ok_uses {U : Op → Prop} {J : σ → Prop}
    (hr : ∀ o s s', U o → J s → S.rely p (some o) s s' → S.inv s' → J s')
    (hG : ∀ o s, U o → S.inv s → J s → S.pre p s o → S.guar p s o)
    (hx : ∀ o s r s', U o → S.inv s → J s → S.pre p s o → S.exec p s o r s' → S.inv s' ∧ J s') :
    ∀ (m : Prog Op Res ε α) (s : σ), m.Uses U → J s → Ok S p (fun _ => J) (fun _ => J) m s
  | .ret _, _, _, h => h
  | .throw _, _, _, h => h
  | .call o k, s, hu, h => by
    intro s' hs hi
    have hj := hr o s s' hu.1 h hs hi
    refine ⟨fun hp => hG o s' hu.1 hi hj hp, fun _ => hj, fun r s'' hp hxr => ?_⟩
    obtain ⟨hi', hj'⟩ := hx o s' r s'' hu.1 hi hj hp hxr
    exact ⟨hi', Ok_uses hr hG hx (k r) s'' (hu.2 r) hj'⟩

theorem Ok_mono {Q' : α → σ → Prop} {E' : ε → σ → Prop} (hQ : ∀ a s, Q a s → Q' a s) (hE : ∀ e s, E e s → E' e s) :
    ∀ (m : Prog Op Res ε α) (s : σ), Ok S p Q E m s → Ok S p Q' E' m s
  | .ret a, s, h => hQ a s h
  | .throw e, s, h => hE e s h
  | .call o k, s, h => by
    intro s' hs hi
    obtain ⟨hG, he, hk⟩ := h s' hs hi
    exact ⟨hG, fun e => hE e s' (he e), fun r s'' hp hx =>
      ⟨(hk r s'' hp hx).1, Ok_mono hQ hE (k r) s'' (hk r s'' hp hx).2⟩⟩

theorem Ok_ofExcept {x : Except ε α} {s : σ} (ho : ∀ a, x = .ok a → Q a s) (he : ∀ e, x = .error e → E e s) :
    Ok S p Q E (Prog.ofExcept x) s := by
  cases x with
  | ok a => exact ho a rfl
  | error e => exact he e rfl

theorem Ok_ofExcept_bind {x : Except ε β} {f : β → Prog Op Res ε α} {s : σ}
    (ho : ∀ b, x = .ok b → Ok S p Q E (f b) s)
    (he : ∀ e, x = .error e → E e s) : Ok S p Q E (Prog.ofExcept x >>= f) s := by
  cases x with
  | ok b => exact ho b rfl
  | error e => exact he e rfl

theorem Ok_attempt : ∀ (m : Prog Op Res ε α) (s : σ), Ok S p Q E m s →
    Ok S p (fun result s => match result with | .ok a => Q a s | .error e => E e s) (fun _ _ => True) m.attempt s
  | .ret _, _, h => h
  | .throw _, _, h => h
  | .call o k, s, h => by
    intro s' hs hi
    obtain ⟨hG, _, hk⟩ := h s' hs hi
    exact ⟨hG, fun _ => trivial, fun r s'' hp hx => ⟨(hk r s'' hp hx).1, Ok_attempt (k r) s'' (hk r s'' hp hx).2⟩⟩

/-- A process keeps what it keeps when it calls another service: `S'` sees the store of `S` through `view`, and
an answer that fails to arrive is the operation done or not. -/
theorem Ok_lift {σ' Op' : Type} {Res' : Op' → Type} {S' : Spec ι σ' Op' Res'} {f : Op → Op'}
    {g : ∀ o, Res' (f o) → Except ε (Res o)} (view : σ' → σ)
    (hrely : ∀ o s s', S'.rely p (some (f o)) s s' → S.rely p (some o) (view s) (view s'))
    (hinv : ∀ s, S'.inv s → S.inv (view s))
    (hpre : ∀ o s, S'.pre p s (f o) → S.pre p (view s) o)
    (hguar : ∀ o s, S.guar p (view s) o → S'.guar p s (f o))
    (hback : ∀ o s r s', S'.inv s → S'.exec p s (f o) r s' → S.inv (view s') → S'.inv s')
    (hexec : ∀ o s r s', S'.exec p s (f o) r s' → match g o r with
      | .ok r₀ => S.exec p (view s) o r₀ (view s')
      | .error _ => view s' = view s ∨ ∃ r₀, S.exec p (view s) o r₀ (view s')) :
    ∀ (m : Prog Op Res ε α) (s : σ'), Ok S p Q (fun _ _ => True) m (view s) →
      Ok S' p (fun a s => Q a (view s)) (fun _ _ => True) (m.lift f g) s
  | .ret _, _, h => h
  | .throw _, _, _ => trivial
  | .call o k, s, h => by
    unfold Prog.lift
    intro s₁ hs hi
    obtain ⟨hG, _, hk⟩ := h (view s₁) (hrely o s s₁ hs) (hinv s₁ hi)
    refine ⟨fun hp => hguar o s₁ (hG (hpre o s₁ hp)), fun _ => trivial, fun r s₂ hp hx => ?_⟩
    have hview := hexec o s₁ r s₂ hx
    dsimp only
    cases hg : g o r with
    | ok r₀ =>
      rw [hg] at hview
      obtain ⟨hi', hk'⟩ := hk r₀ (view s₂) (hpre o s₁ hp) hview
      exact ⟨hback o s₁ r s₂ hi hx hi', Ok_lift view hrely hinv hpre hguar hback hexec (k r₀) s₂ hk'⟩
    | error e =>
      rw [hg] at hview
      refine ⟨hback o s₁ r s₂ hi hx ?_, trivial⟩
      rcases hview with hsame | ⟨r₀, hview⟩
      · rw [hsame]
        exact hinv s₁ hi
      · exact (hk r₀ (view s₂) (hpre o s₁ hp) hview).1

theorem Ok.guar (hC : S.Closed) {o : Op} {k : Res o → Prog Op Res ε α} {s : σ} (h : Ok S p Q E (.call o k) s)
    (hi : S.inv s) (hp : S.pre p s o) : S.guar p s o := (h s (hC.refl p (some o) s) hi).1 hp

theorem Ok_rely (hC : S.Closed) (hQ : ∀ a s s', Q a s → S.rely p none s s' → S.inv s' → Q a s')
    (hE : ∀ e s s', E e s → S.rely p none s s' → S.inv s' → E e s') (m : Prog Op Res ε α) {s s' : σ}
    (h : Ok S p Q E m s) (hs : S.rely p m.next s s') (hi : S.inv s') : Ok S p Q E m s' := by
  cases m with
  | ret a => exact hQ a s s' h hs hi
  | throw e => exact hE e s s' h hs hi
  | call o k => exact fun t ht hit => h t (hC.trans p (some o) s s' t hs ht) hit

end

section
variable {ι σ Op : Type} {Res : Op → Type} {ε α : Type} [DecidableEq ι]
variable {S : Spec ι σ Op Res} {cond : Config ι σ Op Res ε α → ι → Op → Prop} {c₀ : Config ι σ Op Res ε α}
variable {Q : ι → α → σ → Prop} {E : ι → ε → σ → Prop}

/-- The rely-guarantee rule: if each process is `Ok` at the start and no step
that one process warrants breaks what another relies on, the invariant holds in
every reachable store and every process stays `Ok`. -/
theorem Reach.ok {c : Config ι σ Op Res ε α} (hr : Reach S.exec cond c₀ c) (hC : S.Closed) (hI : S.inv c₀.store)
    (h₀ : ∀ p, Ok S p (Q p) (E p) (c₀.procs p) c₀.store)
    (hpre : ∀ c p o, cond c p o → S.pre p c.store o)
    (hQ : ∀ p a s s', Q p a s → S.rely p none s s' → S.inv s' → Q p a s')
    (hE : ∀ p e s s', E p e s → S.rely p none s s' → S.inv s' → E p e s')
    (hg : ∀ (c : Config ι σ Op Res ε α) (p q : ι) (o : Op) (k : Res o → Prog Op Res ε α) (r : Res o) (s' : σ),
      S.inv c.store → c.procs q = .call o k → S.exec q c.store o r s' → cond c q o → S.guar q c.store o → p ≠ q →
      S.rely p (c.procs p).next c.store s') :
    S.inv c.store ∧ ∀ p, Ok S p (Q p) (E p) (c.procs p) c.store := by
  induction hr with
  | refl => exact ⟨hI, h₀⟩
  | @exec c q o k r s' _ hq hx hc ih =>
    obtain ⟨hi, hok⟩ := ih
    have hown := hok q
    rw [hq] at hown
    have hguar := hown.guar hC hi (hpre c q o hc)
    obtain ⟨hi', hk⟩ := (hown c.store (hC.refl q (some o) c.store) hi).2.2 r s' (hpre c q o hc) hx
    refine ⟨hi', fun p => ?_⟩
    by_cases hp : p = q
    · subst hp; simpa using hk
    · have := Ok_rely hC (hQ p) (hE p) (c.procs p) (hok p) (hg c p q o k r s' hi hq hx hc hguar hp) hi'
      simpa [Function.update_of_ne hp] using this
  | @fail c q o k e _ hq ih =>
    obtain ⟨hi, hok⟩ := ih
    refine ⟨hi, fun p => ?_⟩
    by_cases hp : p = q
    · subst hp
      have hown := hok p
      rw [hq] at hown
      simpa using (hown c.store (hC.refl p (some o) c.store) hi).2.1 e
    · simpa [Function.update_of_ne hp] using hok p

end

/-! ## One process alone -/

section
variable {ι σ Op : Type} {Res : Op → Type} {ε α : Type}

/-- A process run to its end with no other process in between. -/
inductive Eval (exec : Exec ι σ Op Res) (p : ι) : Prog Op Res ε α → σ → Except ε α → σ → Prop
  | ret (a : α) (s : σ) : Eval exec p (.ret a) s (.ok a) s
  | throw (e : ε) (s : σ) : Eval exec p (.throw e) s (.error e) s
  | exec {o : Op} {k : Res o → Prog Op Res ε α} {s s' s'' : σ} {r : Res o} {out : Except ε α} :
      exec p s o r s' → Eval exec p (k r) s' out s'' → Eval exec p (.call o k) s out s''
  | fail {o : Op} {k : Res o → Prog Op Res ε α} (s : σ) (e : ε) : Eval exec p (.call o k) s (.error e) s

theorem eval_ofExcept {exec : Exec ι σ Op Res} {p : ι} {x : Except ε α} {s s' : σ} {a : α} :
    Eval exec p (Prog.ofExcept x : Prog Op Res ε α) s (.ok a) s' ↔ x = .ok a ∧ s' = s := by
  cases x with
  | ok b =>
    constructor
    · rintro ⟨⟩; exact ⟨rfl, rfl⟩
    · rintro ⟨h, rfl⟩; cases h; exact .ret ..
  | error e =>
    constructor
    · rintro ⟨⟩
    · rintro ⟨h, _⟩; cases h

theorem eval_ofExcept_bind {exec : Exec ι σ Op Res} {p : ι} {β : Type} {x : Except ε β} {f : β → Prog Op Res ε α}
    {s s' : σ} {a : α} :
    Eval exec p (Prog.ofExcept x >>= f) s (.ok a) s' ↔ ∃ b, x = .ok b ∧ Eval exec p (f b) s (.ok a) s' := by
  cases x with
  | ok b => simp
  | error e =>
    constructor
    · rintro ⟨⟩
    · rintro ⟨b, h, _⟩; cases h

theorem eval_op_bind {exec : Exec ι σ Op Res} {p : ι} {o : Op} {f : Res o → Prog Op Res ε α} {s s' : σ} {a : α} :
    Eval exec p (Prog.op o >>= f) s (.ok a) s' ↔ ∃ r s₁, exec p s o r s₁ ∧ Eval exec p (f r) s₁ (.ok a) s' := by
  constructor
  · rintro ⟨⟩
    rename_i s₁ r hx h
    exact ⟨r, s₁, hx, h⟩
  · rintro ⟨r, s₁, hx, h⟩
    exact .exec hx h

theorem eval_bind {exec : Exec ι σ Op Res} {p : ι} {β : Type} {m : Prog Op Res ε β}
    {f : β → Prog Op Res ε α} {s s' : σ} {a : α} :
    Eval exec p (m >>= f) s (.ok a) s' ↔ ∃ b s₁, Eval exec p m s (.ok b) s₁ ∧ Eval exec p (f b) s₁ (.ok a) s' := by
  induction m generalizing s with
  | ret b =>
    apply Iff.intro
    · intro h
      exact ⟨b, s, .ret b s, h⟩
    · intro h
      obtain ⟨_, _, hm, h⟩ := h
      cases hm
      exact h
  | throw e =>
    apply Iff.intro
    · intro h
      cases h
    · intro h
      obtain ⟨_, _, hm, -⟩ := h
      cases hm
  | call o k ih =>
    apply Iff.intro
    · intro h
      cases h with
      | exec hx h =>
        obtain ⟨b, s₁, hm, hf⟩ := (ih _).mp h
        exact ⟨b, s₁, .exec hx hm, hf⟩
    · intro h
      obtain ⟨b, s₁, hm, hf⟩ := h
      cases hm with
      | exec hx hm => exact .exec hx ((ih _).mpr ⟨b, s₁, hm, hf⟩)

theorem Ok.eval {S : Spec ι σ Op Res} {p : ι} {Q : α → σ → Prop} {E : ε → σ → Prop} (hC : S.Closed)
    (hpre : ∀ s o, S.pre p s o) {m : Prog Op Res ε α} {s s' : σ} {out : Except ε α} (hr : Eval S.exec p m s out s')
    (hi : S.inv s) (h : Ok S p Q E m s) :
    S.inv s' ∧ (∀ a, out = .ok a → Q a s') ∧ ∀ e, out = .error e → E e s' := by
  induction hr with
  | ret a s => exact ⟨hi, by rintro _ ⟨⟩; exact h, by rintro _ ⟨⟩⟩
  | throw e s => exact ⟨hi, by rintro _ ⟨⟩, by rintro _ ⟨⟩; exact h⟩
  | @exec o k s _ _ r _ hx _ ih =>
    obtain ⟨hi', hk⟩ := (h s (hC.refl p (some o) s) hi).2.2 r _ (hpre s o) hx
    exact ih hi' hk
  | @fail o k s e => exact ⟨hi, by rintro _ ⟨⟩, by rintro _ ⟨⟩; exact (h s (hC.refl p (some o) s) hi).2.1 e⟩

/-- No other process does anything. -/
def alone (exec : Exec ι σ Op Res) : Spec ι σ Op Res where
  exec := exec
  pre _ _ _ := True
  inv _ := True
  rely _ _ s s' := s' = s

variable {exec : Exec ι σ Op Res} {p : ι} {Q : α → σ → Prop} {E : ε → σ → Prop}

theorem alone_closed : (alone exec).Closed := ⟨fun _ _ _ => rfl, fun _ _ _ _ _ h₁ h₂ => h₂.trans h₁⟩

theorem alone_op {o : Op} {k : Res o → Prog Op Res ε α} {s : σ} (hE : ∀ e, E e s)
    (hk : ∀ r s', exec p s o r s' → Ok (alone exec) p Q E (k r) s') :
    Ok (alone exec) p Q E (Prog.op o >>= k) s := by
  refine Ok_op (fun _ _ _ _ => trivial) (fun e s' hs _ => ?_) fun s' r s'' hs _ _ hx => ⟨trivial, ?_⟩
  · cases hs; exact hE e
  · cases hs; exact hk r s'' hx

theorem Ok.alone {m : Prog Op Res ε α} {s s' : σ} {out : Except ε α} (h : Ok (alone exec) p Q E m s)
    (hx : Eval exec p m s out s') : (∃ a, out = .ok a ∧ Q a s') ∨ ∃ e, out = .error e ∧ E e s' := by
  obtain ⟨_, hQ, hE⟩ := Ok.eval alone_closed (fun _ _ => trivial) hx trivial h
  cases out with
  | ok a => exact .inl ⟨a, rfl, hQ a rfl⟩
  | error e => exact .inr ⟨e, rfl, hE e rfl⟩

end

section
variable {ι σ Op : Type} {Res : Op → Type} {ε α : Type} [DecidableEq ι]

theorem Reach.alone {exec : Exec ι σ Op Res} {cond : Config ι σ Op Res ε α → ι → Op → Prop}
    {c₀ c : Config ι σ Op Res ε α} (hr : Reach exec cond c₀ c) (hc : ∀ c p o, cond c p o) {p : ι}
    {m : Prog Op Res ε α} {s s' : σ} {out : Except ε α} (hx : Eval exec p m s out s') (hs : c.store = s)
    (hm : c.procs p = m) : Reach exec cond c₀ ⟨s', Function.update c.procs p (Prog.ofExcept out)⟩ := by
  induction hx generalizing c with
  | ret a s => rw [← hs, Prog.ofExcept_ok, ← hm, Function.update_eq_self]; exact hr
  | throw e s => rw [← hs, Prog.ofExcept_error, ← hm, Function.update_eq_self]; exact hr
  | exec hx _ ih =>
    subst hs
    have := ih (hr.exec hm hx (hc _ _ _)) rfl (Function.update_self ..)
    rwa [Function.update_idem] at this
  | fail s e => subst hs; exact hr.fail e hm

end

section
variable {ι σ Op : Type} {Res : Op → Type} {ε α : Type} (run : ι → σ → (o : Op) → Res o × σ) (p : ι)

/-- The result of a process alone on a store that answers with `run`. -/
def Prog.result : Prog Op Res ε α → σ → Except ε α × σ
  | .ret a, s => (.ok a, s)
  | .throw e, s => (.error e, s)
  | .call o k, s => (k (run p s o).1).result (run p s o).2

theorem eval_result {exec : Exec ι σ Op Res} (hrun : ∀ p s o, exec p s o (run p s o).1 (run p s o).2) :
    ∀ (m : Prog Op Res ε α) (s : σ), Eval exec p m s (m.result run p s).1 (m.result run p s).2
  | .ret a, s => .ret a s
  | .throw e, s => .throw e s
  | .call o k, s => .exec (hrun p s o) (eval_result hrun (k (run p s o).1) (run p s o).2)

end

section
variable {ι σ Op : Type} {Res : Op → Type} {ε α : Type} (run : ι → σ → (o : Op) → Res o × σ)

/-- The store after the processes `ps` have run, each to its end before the next one starts. -/
def inTurn (procs : ι → Prog Op Res ε α) : List ι → σ → σ
  | [], s => s
  | p :: ps, s => inTurn procs ps ((procs p).result run p s).2

theorem Reach.inTurn [DecidableEq ι] {exec : Exec ι σ Op Res} {cond : Config ι σ Op Res ε α → ι → Op → Prop}
    {c₀ : Config ι σ Op Res ε α} (hrun : ∀ p s o, exec p s o (run p s o).1 (run p s o).2)
    (hc : ∀ c p o, cond c p o) (procs : ι → Prog Op Res ε α) :
    ∀ (ps : List ι) (c : Config ι σ Op Res ε α), ps.Nodup →
      (∀ p ∈ ps, c.procs p = procs p) → Reach exec cond c₀ c →
      ∃ rest, Reach exec cond c₀ ⟨Interleave.inTurn run procs ps c.store, rest⟩
  | [], c, _, _, hr => ⟨c.procs, hr⟩
  | p :: ps, c, hn, hp, hr => by
    rw [List.nodup_cons] at hn
    have hx := hr.alone hc (eval_result run p hrun (procs p) c.store) rfl (hp p (List.mem_cons_self ..))
    refine Reach.inTurn hrun hc procs ps _ hn.2 (fun q hq => ?_) hx
    have hne : q ≠ p := fun h => hn.1 (h ▸ hq)
    exact (Function.update_of_ne hne _ _).trans (hp q (List.mem_cons_of_mem _ hq))

end

/-! ## One process after another -/

section
variable {ι σ Op : Type} {Res : Op → Type} {ε α : Type}

/-- The processes that ran, each alone and from a store that meets `cond`,
with their results, and the store they leave. -/
inductive Serial (exec : Exec ι σ Op Res) (prog : ι → Prog Op Res ε α) (cond : σ → ι → Prop) (s₀ : σ) :
    List (ι × Except ε α) → σ → Prop
  | nil : Serial exec prog cond s₀ [] s₀
  | snoc {done : List (ι × Except ε α)} {s s' : σ} {p : ι} {out : Except ε α} : Serial exec prog cond s₀ done s →
      cond s p → Eval exec p (prog p) s out s' → Serial exec prog cond s₀ (done ++ [(p, out)]) s'

theorem Serial.invariant {exec : Exec ι σ Op Res} {prog : ι → Prog Op Res ε α} {cond : σ → ι → Prop} {s₀ s : σ}
    {done : List (ι × Except ε α)} {I : List (ι × Except ε α) → σ → Prop} (hr : Serial exec prog cond s₀ done s)
    (hI : I [] s₀) (hstep : ∀ done s p out s', I done s → cond s p → Eval exec p (prog p) s out s' →
      I (done ++ [(p, out)]) s') : I done s := by
  induction hr with
  | nil => exact hI
  | snoc _ hc hx ih => exact hstep _ _ _ _ _ ih hc hx

variable (run : ι → σ → (o : Op) → Res o × σ) (prog : ι → Prog Op Res ε α)

def serially : List ι → List (ι × Except ε α) → σ → List (ι × Except ε α) × σ
  | [], done, s => (done, s)
  | p :: ps, done, s => serially ps (done ++ [(p, ((prog p).result run p s).1)]) ((prog p).result run p s).2

/-- The stores that the processes `ps` are run from meet `cond`. -/
def SeriallyMeets (cond : σ → ι → Prop) : List ι → σ → Prop
  | [], _ => True
  | p :: ps, s => cond s p ∧ SeriallyMeets cond ps ((prog p).result run p s).2

instance (cond : σ → ι → Prop) [∀ s p, Decidable (cond s p)] : ∀ (ps : List ι) (s : σ),
    Decidable (SeriallyMeets run prog cond ps s)
  | [], _ => isTrue trivial
  | p :: ps, s =>
    have := instDecidableSeriallyMeets cond ps ((prog p).result run p s).2
    inferInstanceAs (Decidable (cond s p ∧ SeriallyMeets run prog cond ps ((prog p).result run p s).2))

theorem Serial.serially {exec : Exec ι σ Op Res} {cond : σ → ι → Prop} {s₀ : σ}
    (hrun : ∀ p s o, exec p s o (run p s o).1 (run p s o).2) :
    ∀ (ps : List ι) (done : List (ι × Except ε α)) (s : σ),
      Serial exec prog cond s₀ done s → SeriallyMeets run prog cond ps s →
      Serial exec prog cond s₀ (Interleave.serially run prog ps done s).1 (Interleave.serially run prog ps done s).2
  | [], _, _, hr, _ => hr
  | p :: ps, _, s, hr, hc =>
    Serial.serially hrun ps _ _ (.snoc hr hc.1 (eval_result run p hrun (prog p) s)) hc.2

end

/-! ## Schedules -/

section
variable {ι σ Op : Type} {Res : Op → Type} {ε α : Type} [DecidableEq ι]

def turn (run : ι → σ → (o : Op) → Res o × σ) (c : Config ι σ Op Res ε α) (p : ι) : Config ι σ Op Res ε α :=
  match c.procs p with
  | .call o k => ⟨(run p c.store o).2, Function.update c.procs p (k (run p c.store o).1)⟩
  | _ => c

def schedule (run : ι → σ → (o : Op) → Res o × σ) (c : Config ι σ Op Res ε α) (ps : List ι) :
    Config ι σ Op Res ε α :=
  ps.foldl (turn run) c

def Meets (run : ι → σ → (o : Op) → Res o × σ) (cond : Config ι σ Op Res ε α → ι → Op → Prop) :
    Config ι σ Op Res ε α → List ι → Prop
  | _, [] => True
  | c, p :: ps => (∀ o, (c.procs p).next = some o → cond c p o) ∧ Meets run cond (turn run c p) ps

variable {exec : Exec ι σ Op Res} {run : ι → σ → (o : Op) → Res o × σ}
  {cond : Config ι σ Op Res ε α → ι → Op → Prop} {c₀ : Config ι σ Op Res ε α}

theorem Reach.turn (hrun : ∀ p s o, exec p s o (run p s o).1 (run p s o).2) {c : Config ι σ Op Res ε α}
    (hr : Reach exec cond c₀ c) {p : ι} (hc : ∀ o, (c.procs p).next = some o → cond c p o) :
    Reach exec cond c₀ (turn run c p) := by
  unfold Interleave.turn
  split
  · rename_i o k hp
    exact .exec hr hp (hrun p c.store o) (hc o (by rw [hp]; rfl))
  · exact hr

theorem turn_procs {c : Config ι σ Op Res ε α} {p q : ι} (h : q ≠ p) : (turn run c p).procs q = c.procs q := by
  unfold Interleave.turn
  split
  · exact Function.update_of_ne h _ _
  · rfl

theorem Reach.schedule (hrun : ∀ p s o, exec p s o (run p s o).1 (run p s o).2) :
    ∀ (ps : List ι) (c : Config ι σ Op Res ε α), Reach exec cond c₀ c → Meets run cond c ps →
      Reach exec cond c₀ (schedule run c ps)
  | [], _, hr, _ => hr
  | p :: ps, c, hr, hm => Reach.schedule hrun ps (Interleave.turn run c p) (hr.turn hrun hm.1) hm.2

def meets (run : ι → σ → (o : Op) → Res o × σ) (cond : Config ι σ Op Res ε α → ι → Op → Prop)
    [∀ c p o, Decidable (cond c p o)] : Config ι σ Op Res ε α → List ι → Bool
  | _, [] => true
  | c, p :: ps => ((c.procs p).next.all fun o => decide (cond c p o)) && meets run cond (turn run c p) ps

theorem meets_iff [∀ c p o, Decidable (cond c p o)] : ∀ (ps : List ι) (c : Config ι σ Op Res ε α),
    meets run cond c ps = true → Meets run cond c ps
  | [], _, _ => trivial
  | p :: ps, c, h => by
    simp only [meets, Bool.and_eq_true, Option.all_eq_true, decide_eq_true_eq] at h
    exact ⟨h.1, meets_iff ps (turn run c p) h.2⟩

theorem Meets.mono {cond' : Config ι σ Op Res ε α → ι → Op → Prop} (h : ∀ c p o, cond' c p o → cond c p o) :
    ∀ {ps : List ι} {c : Config ι σ Op Res ε α}, Meets run cond' c ps → Meets run cond c ps
  | [], _, _ => trivial
  | _ :: _, _, hm => ⟨fun o ho => h _ _ _ (hm.1 o ho), Meets.mono h hm.2⟩

theorem Meets.of (h : ∀ c p o, cond c p o) : ∀ (ps : List ι) (c : Config ι σ Op Res ε α), Meets run cond c ps
  | [], _ => trivial
  | p :: ps, c => ⟨fun o _ => h c p o, Meets.of h ps _⟩

theorem meets_true (ps : List ι) (c : Config ι σ Op Res ε α) : Meets run (fun _ _ _ => True) c ps :=
  .of (fun _ _ _ => trivial) ps c

end

end Interleave
