import DocVault.Interleave

/-!
# Sections of a process

A process that writes by what it has read is at the mercy of the writes in
between. `Prog.May` says what a process may still do, and `Amid` that it stands
before such a write. `Reach.assertions` proves an assertion about what is left
of each process, and `Reach.started` is the rely-guarantee rule for runs in
which the others heed a process from its first operation to its end only.
-/

namespace Interleave

section
variable {Op : Type} {Res : Op → Type} {ε α β : Type}

def Prog.May (U : Op → Prop) : Prog Op Res ε α → Prop
  | .call o k => U o ∨ ∃ r, (k r).May U
  | _ => False

/-- The process stands before an operation of `W` and may still execute one of `U`. -/
def Prog.Amid (W U : Op → Prop) (m : Prog Op Res ε α) : Prop := (∃ o, m.next = some o ∧ W o) ∧ m.May U

variable {U W : Op → Prop}

theorem Prog.Uses.not_may : ∀ {m : Prog Op Res ε α}, m.Uses (fun o => ¬U o) → ¬m.May U
  | .ret _, _, h => h
  | .throw _, _, h => h
  | .call _ _, hu, h => h.elim hu.1 fun ⟨r, hr⟩ => (hu.2 r).not_may hr

theorem Prog.May.of_bind {f : α → Prog Op Res ε β} (hf : ∀ a, ¬(f a).May U) :
    ∀ {m : Prog Op Res ε α}, (m >>= f).May U → m.May U
  | .ret a, h => hf a h
  | .throw _, h => h
  | .call _ _, h => h.imp_right fun ⟨r, hr⟩ => ⟨r, Prog.May.of_bind hf hr⟩

theorem Prog.Amid.of_bind {f : α → Prog Op Res ε β} (hf : ∀ a, ¬(f a).May U) :
    ∀ {m : Prog Op Res ε α}, (m >>= f).Amid W U → m.Amid W U
  | .ret a, h => absurd h.2 (hf a)
  | .throw _, h => h.2.elim
  | .call _ _, h => ⟨h.1, h.2.of_bind hf⟩

end

section
variable {ι σ Op : Type} {Res : Op → Type} {ε α : Type} [DecidableEq ι]
variable {exec : Exec ι σ Op Res} {cond : Config ι σ Op Res ε α → ι → Op → Prop} {c₀ c : Config ι σ Op Res ε α}

/-- Each process carries an assertion on through its own steps, and no step of another makes it false. -/
theorem Reach.assertions {I : σ → Prop} {J : ι → Prog Op Res ε α → σ → Prop} (hr : Reach exec cond c₀ c)
    (hI : I c₀.store) (hJ : ∀ p, J p (c₀.procs p) c₀.store)
    (failed : ∀ p o k e s, J p (.call o k) s → J p (.throw e) s)
    (own : ∀ (c : Config ι σ Op Res ε α) p o k r s', I c.store → c.procs p = .call o k → J p (.call o k) c.store →
      exec p c.store o r s' → cond c p o → I s' ∧ J p (k r) s')
    (others : ∀ (c : Config ι σ Op Res ε α) p q o k r s', I c.store → c.procs q = .call o k →
      J q (.call o k) c.store → exec q c.store o r s' → cond c q o → p ≠ q → J p (c.procs p) c.store →
      J p (c.procs p) s') : I c.store ∧ ∀ p, J p (c.procs p) c.store := by
  induction hr with
  | refl => exact ⟨hI, hJ⟩
  | @exec c q o k r s' _ hq hx hc ih =>
    have hown := ih.2 q
    rw [hq] at hown
    obtain ⟨hI', hJ'⟩ := own c q o k r s' ih.1 hq hown hx hc
    refine ⟨hI', fun p => ?_⟩
    by_cases hp : p = q
    · subst hp
      simpa using hJ'
    · simpa [Function.update_of_ne hp] using others c p q o k r s' ih.1 hq hown hx hc hp (ih.2 p)
  | @fail c q o k e _ hq ih =>
    refine ⟨ih.1, fun p => ?_⟩
    by_cases hp : p = q
    · subst hp
      have hown := ih.2 p
      rw [hq] at hown
      simpa using failed p o k e c.store hown
    · simpa [Function.update_of_ne hp] using ih.2 p

def UnderWay (c₀ c : Config ι σ Op Res ε α) (p : ι) : Prop := c.procs p ≠ c₀.procs p ∧ (c.procs p).next ≠ none

variable {S : Spec ι σ Op Res} {Q : ι → α → σ → Prop} {E : ι → ε → σ → Prop}

/-- The rely-guarantee rule where a process relies on nothing before its first operation: it is `Ok` from any store
on in which the invariant holds. -/
theorem Reach.started (hr : Reach S.exec cond c₀ c) (hC : S.Closed) (hI : S.inv c₀.store)
    (h₀ : ∀ p s, S.inv s → Ok S p (Q p) (E p) (c₀.procs p) s) (hpre : ∀ c p o, cond c p o → S.pre p c.store o)
    (hQ : ∀ p a s s', Q p a s → S.rely p none s s' → S.inv s' → Q p a s')
    (hE : ∀ p e s s', E p e s → S.rely p none s s' → S.inv s' → E p e s')
    (hg : ∀ (c : Config ι σ Op Res ε α) (p q : ι) (o : Op) (k : Res o → Prog Op Res ε α) (r : Res o) (s' : σ),
      S.inv c.store → c.procs q = .call o k → S.exec q c.store o r s' → cond c q o → S.guar q c.store o → p ≠ q →
      c.procs p ≠ c₀.procs p → S.rely p (c.procs p).next c.store s') :
    S.inv c.store ∧ ∀ p, Ok S p (Q p) (E p) (c.procs p) c.store := by
  have hok : S.inv c.store ∧ ∀ p, S.inv c.store ∧ Ok S p (Q p) (E p) (c.procs p) c.store := by
    refine hr.assertions (J := fun p m s => S.inv s ∧ Ok S p (Q p) (E p) m s) hI (fun p => ⟨hI, h₀ p _ hI⟩) ?_ ?_ ?_
    · intro p o k e s h
      exact ⟨h.1, (h.2 s (hC.refl p (some o) s) h.1).2.1 e⟩
    · intro c p o k r s' hi _ h hx hc
      obtain ⟨hi', hk⟩ := (h.2 c.store (hC.refl p (some o) c.store) hi).2.2 r s' (hpre c p o hc) hx
      exact ⟨hi', hi', hk⟩
    · intro c p q o k r s' hi hq h hx hc hp hown
      have hi' := ((h.2 c.store (hC.refl q (some o) c.store) hi).2.2 r s' (hpre c q o hc) hx).1
      refine ⟨hi', ?_⟩
      by_cases hstart : c.procs p = c₀.procs p
      · rw [hstart]
        exact h₀ p s' hi'
      · have hguar := h.2.guar hC hi (hpre c q o hc)
        exact Ok_rely hC (hQ p) (hE p) (c.procs p) hown.2 (hg c p q o k r s' hi hq hx hc hguar hp hstart) hi'
  exact ⟨hok.1, fun p => (hok.2 p).2⟩

end

/-! ## Schedules -/

section
variable {ι σ Op : Type} {Res : Op → Type} {ε α : Type} [DecidableEq ι] {run : ι → σ → (o : Op) → Res o × σ}
  {cond : Config ι σ Op Res ε α → ι → Op → Prop} {c₀ : Config ι σ Op Res ε α}
  {ok : Config ι σ Op Res ε α → List ι → ι → Op → Bool}

def meetsBegun (run : ι → σ → (o : Op) → Res o × σ) (ok : Config ι σ Op Res ε α → List ι → ι → Op → Bool) :
    Config ι σ Op Res ε α → List ι → List ι → Bool
  | _, _, [] => true
  | c, begun, p :: ps => (c.procs p).next.all (ok c begun p) && meetsBegun run ok (turn run c p) (p :: begun) ps

theorem meets_of_begun (hok : ∀ c begun p o, (∀ q, q ∉ begun → c.procs q = c₀.procs q) →
    ok c begun p o = true → cond c p o) :
    ∀ (ps : List ι) (c : Config ι σ Op Res ε α) (begun : List ι), (∀ q, q ∉ begun → c.procs q = c₀.procs q) →
      meetsBegun run ok c begun ps = true → Meets run cond c ps
  | [], _, _, _, _ => trivial
  | p :: ps, c, begun, hb, h => by
    simp only [meetsBegun, Bool.and_eq_true, Option.all_eq_true] at h
    refine ⟨fun o ho => hok c begun p o hb (h.1 o ho), meets_of_begun hok ps (turn run c p) (p :: begun) ?_ h.2⟩
    intro q hq
    rw [List.mem_cons, not_or] at hq
    exact (turn_procs hq.1).trans (hb q hq.2)

end

end Interleave
