import DocVault.Interleave

/-!
# Processes that also call other services

A process works on a store of its own and calls services that do not touch
that store. Without the calls it is a process on the store alone, and every run
with the calls is a run without them: `Reach.erase`. What holds of the store in
every run without the calls then holds of it in every run with them.
-/

namespace Interleave

section
variable {Op Ext : Type} {Res : Op → Type} {ResE : Ext → Type} {ε α β : Type}

def Prog.own : Prog Op Res ε α → Prog (Op ⊕ Ext) (Sum.elim Res ResE) ε α
  | .ret a => .ret a
  | .throw e => .throw e
  | .call o k => .call (.inl o) fun r => (k r).own

@[simp] theorem Prog.own_bind (f : α → Prog Op Res ε β) : ∀ m : Prog Op Res ε α,
    ((m >>= f).own : Prog (Op ⊕ Ext) (Sum.elim Res ResE) ε β) = m.own >>= fun a => (f a).own
  | .ret _ => rfl
  | .throw _ => rfl
  | .call o k => congrArg (Prog.call (Sum.inl o)) (funext fun r => (k r).own_bind f)

@[simp] theorem Prog.own_ofExcept (x : Except ε α) :
    ((Prog.ofExcept x : Prog Op Res ε α).own : Prog (Op ⊕ Ext) (Sum.elim Res ResE) ε α) = Prog.ofExcept x := by
  cases x <;> rfl

def Prog.ask (e : Ext) : Prog (Op ⊕ Ext) (Sum.elim Res ResE) ε (ResE e) := .call (.inr e) .ret

/-- What is left of a process without its calls: the operations on the store, and the answer. Where the process
fails, the rest may go on. -/
def Erases : Prog (Op ⊕ Ext) (Sum.elim Res ResE) ε α → Prog Op Res ε α → Prop
  | .ret a, m => m = .ret a
  | .throw _, _ => True
  | .call (.inl o) k, m => ∃ k', m = .call o k' ∧ ∀ r, Erases (k r) (k' r)
  | .call (.inr _) k, m => ∀ r, Erases (k r) m

theorem erases_own : ∀ m : Prog Op Res ε α, Erases (m.own : Prog (Op ⊕ Ext) (Sum.elim Res ResE) ε α) m
  | .ret _ => rfl
  | .throw _ => trivial
  | .call _ k => ⟨k, rfl, fun r => erases_own (k r)⟩

theorem Erases.bind {f : α → Prog (Op ⊕ Ext) (Sum.elim Res ResE) ε β} {g : α → Prog Op Res ε β}
    (h : ∀ a, Erases (f a) (g a)) : ∀ {m' : Prog (Op ⊕ Ext) (Sum.elim Res ResE) ε α} {m : Prog Op Res ε α},
      Erases m' m → Erases (m' >>= f) (m >>= g)
  | .ret a, _, hm => by
    obtain rfl := hm
    exact h a
  | .throw _, _, _ => trivial
  | .call (.inl _) _, _, hm => by
    obtain ⟨k', rfl, hk⟩ := hm
    exact ⟨fun r => k' r >>= g, rfl, fun r => (hk r).bind h⟩
  | .call (.inr _) _, _, hm => fun r => Erases.bind h (hm r)

theorem erases_ofExcept (x : Except ε α) :
    Erases (Prog.ofExcept x : Prog (Op ⊕ Ext) (Sum.elim Res ResE) ε α) (Prog.ofExcept x) := by
  cases x with
  | ok a => exact rfl
  | error e => trivial

theorem erases_ask {e : Ext} {f : ResE e → Prog (Op ⊕ Ext) (Sum.elim Res ResE) ε α} {m : Prog Op Res ε α}
    (h : ∀ r, Erases (f r) m) : Erases (Prog.ask e >>= f) m := h

theorem Erases.before_calls {f : α → Prog (Op ⊕ Ext) (Sum.elim Res ResE) ε α} (h : ∀ a, Erases (f a) (.ret a)) :
    ∀ {m' : Prog (Op ⊕ Ext) (Sum.elim Res ResE) ε α} {m : Prog Op Res ε α}, Erases m' m → Erases (m' >>= f) m
  | .ret a, _, hm => by
    obtain rfl := hm
    exact h a
  | .throw _, _, _ => trivial
  | .call (.inl _) _, _, hm => by
    obtain ⟨k', rfl, hk⟩ := hm
    exact ⟨k', rfl, fun r => (hk r).before_calls h⟩
  | .call (.inr _) _, _, hm => fun r => Erases.before_calls h (hm r)

end

section
variable {ι σ σ' Op Ext : Type} {Res : Op → Type} {ResE : Ext → Type} {ε α : Type} [DecidableEq ι]

/-- On the store, a run with calls to other services is a run without them. -/
theorem Reach.erase {exec : Exec ι σ Op Res} {exec' : Exec ι σ' (Op ⊕ Ext) (Sum.elim Res ResE)} {view : σ' → σ}
    (hown : ∀ p s o r s', exec' p s (.inl o) r s' → exec p (view s) o r (view s'))
    (hcall : ∀ p s e r s', exec' p s (.inr e) r s' → view s' = view s)
    {cond' : Config ι σ' (Op ⊕ Ext) (Sum.elim Res ResE) ε α → ι → Op ⊕ Ext → Prop} {cond : σ → ι → Op → Prop}
    (hcond : ∀ c p o, cond' c p (.inl o) → cond (view c.store) p o)
    {c₀' c' : Config ι σ' (Op ⊕ Ext) (Sum.elim Res ResE) ε α} {c₀ : Config ι σ Op Res ε α}
    (hstore : c₀.store = view c₀'.store) (hprocs : ∀ p, Erases (c₀'.procs p) (c₀.procs p))
    (hr : Reach exec' cond' c₀' c') : ∃ c, Reach exec (fun c p o => cond c.store p o) c₀ c ∧
    c.store = view c'.store ∧
      ∀ p, Erases (c'.procs p) (c.procs p) := by
  induction hr with
  | refl => exact ⟨c₀, .refl, hstore, hprocs⟩
  | @exec c' p o k r s' _ hp hx hc ih =>
    obtain ⟨c, hr, hs, hproc⟩ := ih
    have herases := hproc p
    rw [hp] at herases
    cases o with
    | inl o =>
      obtain ⟨k', hk', hk⟩ := herases
      refine ⟨_, hr.exec hk' (hs ▸ hown p _ o r _ hx) (hs ▸ hcond _ _ _ hc), rfl, fun q => ?_⟩
      by_cases hq : q = p
      · subst hq
        simpa using hk r
      · simpa [Function.update_of_ne hq] using hproc q
    | inr e =>
      refine ⟨c, hr, hs.trans (hcall p _ e r _ hx).symm, fun q => ?_⟩
      by_cases hq : q = p
      · subst hq
        simpa using herases r
      · simpa [Function.update_of_ne hq] using hproc q
  | @fail c' p o k e _ _ ih =>
    obtain ⟨c, hr, hs, hproc⟩ := ih
    refine ⟨c, hr, hs, fun q => ?_⟩
    by_cases hq : q = p
    · subst hq
      simp [Erases]
    · simpa [Function.update_of_ne hq] using hproc q

end

end Interleave
