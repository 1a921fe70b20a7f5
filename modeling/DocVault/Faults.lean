import DocVault.Interleave

/-!
# Runs with bounded failures

`Reach` lets every operation fail. In the runs of `ReachIf` process `p` fails before an
operation only in the stores that `may` names, and `OkIf` is the reading of a
process under that bound.
-/

namespace Interleave

section
variable {ι σ Op : Type} {Res : Op → Type} {ε α : Type} [DecidableEq ι]

inductive ReachIf (exec : Exec ι σ Op Res) (cond : Config ι σ Op Res ε α → ι → Op → Prop) (may : ι → σ → Op → Prop)
    (c₀ : Config ι σ Op Res ε α) : Config ι σ Op Res ε α → Prop
  | refl : ReachIf exec cond may c₀ c₀
  | exec {c : Config ι σ Op Res ε α} {p : ι} {o : Op} {k : Res o → Prog Op Res ε α} {r : Res o} {s' : σ} :
      ReachIf exec cond may c₀ c → c.procs p = .call o k → exec p c.store o r s' → cond c p o →
      ReachIf exec cond may c₀ ⟨s', Function.update c.procs p (k r)⟩
  | fail {c : Config ι σ Op Res ε α} {p : ι} {o : Op} {k : Res o → Prog Op Res ε α} (e : ε) :
      ReachIf exec cond may c₀ c → c.procs p = .call o k → may p c.store o →
      ReachIf exec cond may c₀ ⟨c.store, Function.update c.procs p (.throw e)⟩

variable {exec : Exec ι σ Op Res} {cond : Config ι σ Op Res ε α → ι → Op → Prop} {may : ι → σ → Op → Prop}
  {c₀ c : Config ι σ Op Res ε α}

theorem ReachIf.reach (hr : ReachIf exec cond may c₀ c) : Reach exec cond c₀ c := by
  induction hr with
  | refl => exact .refl
  | exec _ hp hx hc ih => exact ih.exec hp hx hc
  | fail e _ hp _ ih => exact ih.fail e hp

theorem ReachIf.schedule {run : ι → σ → (o : Op) → Res o × σ}
    (hrun : ∀ p s o, exec p s o (run p s o).1 (run p s o).2) :
    ∀ (ps : List ι) (c : Config ι σ Op Res ε α), ReachIf exec cond may c₀ c → Meets run cond c ps →
      ReachIf exec cond may c₀ (schedule run c ps)
  | [], _, hr, _ => hr
  | p :: ps, c, hr, hm => by
    refine ReachIf.schedule hrun ps (turn run c p) ?_ hm.2
    unfold turn
    split
    · rename_i o k hp
      exact .exec hr hp (hrun p c.store o) (hm.1 o (by rw [hp]; rfl))
    · exact hr

end

section
variable {ι σ Op : Type} {Res : Op → Type} {ε α β : Type} (S : Spec ι σ Op Res) (may : ι → σ → Op → Prop) (p : ι)

def OkIf (Q : α → σ → Prop) (E : ε → σ → Prop) : Prog Op Res ε α → σ → Prop
  | .ret a, s => Q a s
  | .throw e, s => E e s
  | .call o k, s => ∀ s', S.rely p (some o) s s' → S.inv s' →
      (S.pre p s' o → S.guar p s' o) ∧ (may p s' o → ∀ e, E e s') ∧
        ∀ r s'', S.pre p s' o → S.exec p s' o r s'' → S.inv s'' ∧ OkIf Q E (k r) s''

variable {S may p} {Q : α → σ → Prop} {E : ε → σ → Prop}

theorem OkIf_op {o : Op} {k : Res o → Prog Op Res ε α} {s : σ}
    (hG : ∀ s', S.rely p (some o) s s' → S.inv s' → S.pre p s' o → S.guar p s' o)
    (hE : ∀ e s', S.rely p (some o) s s' → S.inv s' → may p s' o → E e s')
    (hk : ∀ s' r s'', S.rely p (some o) s s' → S.inv s' → S.pre p s' o → S.exec p s' o r s'' →
      S.inv s'' ∧ OkIf S may p Q E (k r) s'') : OkIf S may p Q E (Prog.op o >>= k) s :=
  fun s' hs hi => ⟨hG s' hs hi, fun hm e => hE e s' hs hi hm, fun r s'' hp hx => hk s' r s'' hs hi hp hx⟩

theorem OkIf_bind {R : β → σ → Prop} {f : α → Prog Op Res ε β}
    (hf : ∀ a s, S.inv s → Q a s → OkIf S may p R E (f a) s) :
    ∀ (m : Prog Op Res ε α) (s : σ), S.inv s → OkIf S may p Q E m s → OkIf S may p R E (m >>= f) s
  | .ret a, s, hi, h => hf a s hi h
  | .throw _, _, _, h => h
  | .call o k, s, _, h => by
    intro s' hs hi'
    obtain ⟨hG, hE, hk⟩ := h s' hs hi'
    refine ⟨hG, hE, fun r s'' hp hx => ?_⟩
    obtain ⟨hi'', hkr⟩ := hk r s'' hp hx
    exact ⟨hi'', OkIf_bind hf (k r) s'' hi'' hkr⟩

theorem OkIf_ofExcept_bind {x : Except ε β} {f : β → Prog Op Res ε α} {s : σ}
    (ho : ∀ b, x = .ok b → OkIf S may p Q E (f b) s) (he : ∀ e, x = .error e → E e s) :
    OkIf S may p Q E (Prog.ofExcept x >>= f) s := by
  cases x with
  | ok b => exact ho b rfl
  | error e => exact he e rfl

theorem OkIf_mono {Q' : α → σ → Prop} {E' : ε → σ → Prop} (hQ : ∀ a s, Q a s → Q' a s)
    (hE : ∀ e s, E e s → E' e s) : ∀ (m : Prog Op Res ε α) (s : σ), OkIf S may p Q E m s → OkIf S may p Q' E' m s
  | .ret a, s, h => hQ a s h
  | .throw e, s, h => hE e s h
  | .call o k, s, h => by
    intro s' hs hi
    obtain ⟨hG, he, hk⟩ := h s' hs hi
    exact ⟨hG, fun hm e => hE e s' (he hm e), fun r s'' hp hx =>
      ⟨(hk r s'' hp hx).1, OkIf_mono hQ hE (k r) s'' (hk r s'' hp hx).2⟩⟩

/-- A process that uses only operations which keep an assertion of its own, ends and fails with it. -/
theorem OkIf_uses {U : Op → Prop} {J : σ → Prop}
    (hr : ∀ o s s', U o → J s → S.rely p (some o) s s' → S.inv s' → J s')
    (hG : ∀ o s, U o → S.inv s → J s → S.pre p s o → S.guar p s o)
    (hx : ∀ o s r s', U o → S.inv s → J s → S.pre p s o → S.exec p s o r s' → S.inv s' ∧ J s') :
    ∀ (m : Prog Op Res ε α) (s : σ), m.Uses U → J s → OkIf S may p (fun _ => J) (fun _ => J) m s
  | .ret _, _, _, h => h
  | .throw _, _, _, h => h
  | .call o k, s, hu, h => by
    intro s' hs hi
    have hj := hr o s s' hu.1 h hs hi
    refine ⟨fun hp => hG o s' hu.1 hi hj hp, fun _ _ => hj, fun r s'' hp hxr => ?_⟩
    obtain ⟨hi', hj'⟩ := hx o s' r s'' hu.1 hi hj hp hxr
    exact ⟨hi', OkIf_uses hr hG hx (k r) s'' (hu.2 r) hj'⟩

theorem OkIf_rely (hC : S.Closed) (hQ : ∀ a s s', Q a s → S.rely p none s s' → S.inv s' → Q a s')
    (hE : ∀ e s s', E e s → S.rely p none s s' → S.inv s' → E e s') (m : Prog Op Res ε α) {s s' : σ}
    (h : OkIf S may p Q E m s) (hs : S.rely p m.next s s') (hi : S.inv s') : OkIf S may p Q E m s' := by
  cases m with
  | ret a => exact hQ a s s' h hs hi
  | throw e => exact hE e s s' h hs hi
  | call o k => exact fun t ht hit => h t (hC.trans p (some o) s s' t hs ht) hit

end

section
variable {ι σ Op : Type} {Res : Op → Type} {ε α : Type} [DecidableEq ι]
variable {S : Spec ι σ Op Res} {cond : Config ι σ Op Res ε α → ι → Op → Prop} {may : ι → σ → Op → Prop}
variable {c₀ : Config ι σ Op Res ε α} {Q : ι → α → σ → Prop} {E : ι → ε → σ → Prop}

/-- The rely-guarantee rule for runs with bounded failures. -/
theorem ReachIf.ok {c : Config ι σ Op Res ε α} (hr : ReachIf S.exec cond may c₀ c)
    (hC : S.Closed) (hI : S.inv c₀.store) (h₀ : ∀ p, OkIf S may p (Q p) (E p) (c₀.procs p) c₀.store)
    (hpre : ∀ c p o, cond c p o → S.pre p c.store o)
    (hQ : ∀ p a s s', Q p a s → S.rely p none s s' → S.inv s' → Q p a s')
    (hE : ∀ p e s s', E p e s → S.rely p none s s' → S.inv s' → E p e s')
    (hg : ∀ (c : Config ι σ Op Res ε α) (p q : ι) (o : Op) (k : Res o → Prog Op Res ε α) (r : Res o) (s' : σ),
      S.inv c.store → c.procs q = .call o k → S.exec q c.store o r s' → cond c q o → S.guar q c.store o → p ≠ q →
      S.rely p (c.procs p).next c.store s') :
    S.inv c.store ∧ ∀ p, OkIf S may p (Q p) (E p) (c.procs p) c.store := by
  induction hr with
  | refl => exact ⟨hI, h₀⟩
  | @exec c q o k r s' _ hq hx hc ih =>
    obtain ⟨hi, hok⟩ := ih
    have hown := hok q
    rw [hq] at hown
    obtain ⟨hG, _, hk⟩ := hown c.store (hC.refl q (some o) c.store) hi
    have hguar := hG (hpre c q o hc)
    obtain ⟨hi', hkr⟩ := hk r s' (hpre c q o hc) hx
    refine ⟨hi', fun p => ?_⟩
    by_cases hp : p = q
    · subst hp; simpa using hkr
    · have := OkIf_rely hC (hQ p) (hE p) (c.procs p) (hok p) (hg c p q o k r s' hi hq hx hc hguar hp) hi'
      simpa [Function.update_of_ne hp] using this
  | @fail c q o k e _ hq hm ih =>
    obtain ⟨hi, hok⟩ := ih
    refine ⟨hi, fun p => ?_⟩
    by_cases hp : p = q
    · subst hp
      have hown := hok p
      rw [hq] at hown
      simpa [OkIf] using (hown c.store (hC.refl p (some o) c.store) hi).2.1 hm e
    · simpa [Function.update_of_ne hp] using hok p

end

end Interleave
