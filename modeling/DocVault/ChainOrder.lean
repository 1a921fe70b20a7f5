import DocVault.AuditChainSound

/-!
# The order of the chain

`orderEventsByChain` finds the one arrangement of the stored events as a chain,
if there is one, and its verdict does not depend on the order in which the
store lists them. An event with the hash `null` is in no chain: the walk takes
the genesis event for its child.
-/

namespace DocVault

/-- A sequence of all events that starts with the only one without a `prevHash`, in
which every later `prevHash` is the hash of the event before, and of no other. -/
structure Arrangement (events l : List AuditEvent) : Prop where
  perm : l.Perm events
  genesis : ∀ i e, l[i]? = some e → (prevKey e = none ↔ i = 0)
  linked : ∀ i a b, l[i]? = some a → l[i + 1]? = some b →
    hashKey a = prevKey b ∧ ∀ j c, l[j]? = some c → hashKey c = prevKey b → j = i

theorem arrangement_iff {events l : List AuditEvent} : Arrangement events l ↔ l.Perm events ∧ AuditChain l := by
  constructor
  · intro h
    have hstep : ∀ i b, l[i + 1]? = some b → ∃ a k, l[i]? = some a ∧ hashKey a = some k ∧ prevKey b = some k := by
      intro i b hb
      have hi : i < l.length := by have := (List.getElem?_eq_some_iff.mp hb).1; omega
      have ha : l[i]? = some l[i] := List.getElem?_eq_getElem hi
      cases hp : prevKey b with
      | none => exact absurd ((h.genesis (i + 1) b hb).mp hp) (by omega)
      | some k => exact ⟨l[i], k, ha, (h.linked i _ b ha hb).1.trans hp, rfl⟩
    refine ⟨h.perm, ⟨fun a ha => (h.genesis 0 a ha).mpr rfl, hstep⟩, fun i j a b k ha hb hka hkb => ?_⟩
    have hlater : ∀ {i j a b}, l[i]? = some a → l[j]? = some b → hashKey a = some k → hashKey b = some k →
        i + 1 < l.length → j = i := fun {i j a b} ha hb hka hkb hi => by
      have hnext : l[i + 1]? = some l[i + 1] := List.getElem?_eq_getElem hi
      obtain ⟨hlink, honly⟩ := h.linked i a _ ha hnext
      exact honly j b hb (by rw [hkb, ← hlink, hka])
    have hi := (List.getElem?_eq_some_iff.mp ha).1
    have hj := (List.getElem?_eq_some_iff.mp hb).1
    by_cases hlast : i + 1 < l.length
    · exact (hlater ha hb hka hkb hlast).symm
    · by_cases hlast' : j + 1 < l.length
      · exact hlater hb ha hkb hka hlast'
      · omega
  · intro ⟨hp, hc⟩
    refine ⟨hp, fun i e he => ⟨fun hk => hc.index_zero he hk, ?_⟩, fun i a b ha hb => ?_⟩
    · rintro rfl
      exact hc.root e he
    · obtain ⟨a', k, ha', hka, hkb⟩ := hc.step i b hb
      obtain rfl := Option.some.inj (ha.symm.trans ha')
      refine ⟨hka.trans hkb.symm, fun j c hj hkc => ?_⟩
      exact hc.keys j i c a k hj ha (hkc.trans hkb) hka

/-! ## Any order of the store -/

def SameBuckets (children children' : Children) : Prop := ∀ key, (children key).Perm (children' key)

theorem SameBuckets.childrenOf {children children' : Children} (h : SameBuckets children children')
    (hash : Nullable String) :
    (childrenOf children hash).Perm (childrenOf children' hash) := by
  cases hash with
  | undef => exact .refl _
  | null => exact h none
  | val s => exact h (some s)

-- A bucket that the walk follows has one event, and of a larger one it tells the size only.
theorem walk_same {children children' : Children} (h : SameBuckets children children') (n : Nat) (c : AuditEvent)
    (visited : List String) (ordered : List AuditEvent) :
    walk children n c visited ordered = walk children' n c visited ordered := by
  induction n generalizing c visited ordered with
  | zero => rfl
  | succ n ih =>
    have hp := h.childrenOf c.hash
    rw [walk, walk]
    by_cases hv : eventIdentity c ∈ visited
    · rw [if_pos hv, if_pos hv]
    · rw [if_neg hv, if_neg hv]
      cases hb : childrenOf children c.hash with
      | nil =>
        rw [hb] at hp
        have hb' : childrenOf children' c.hash = [] := hp.nil_eq.symm
        simp only [hb']
      | cons a t =>
        cases t with
        | nil =>
          rw [hb] at hp
          have hb' : childrenOf children' c.hash = [a] := List.perm_singleton.mp hp.symm
          simp only [hb']
          exact ih a _ _
        | cons b t =>
          cases hb' : childrenOf children' c.hash with
          | nil =>
            rw [hb, hb'] at hp
            cases hp.eq_nil
          | cons a' t' =>
            rw [hb, hb'] at hp
            have hlen := hp.length_eq
            cases t' with
            | nil => simp at hlen
            | cons b' t' => simp only [forkError, hlen]

theorem bucket_perm {events events' : List AuditEvent} (h : events'.Perm events) :
    SameBuckets (bucket events') (bucket events) := fun _ => h.filter _

theorem index_of_nodup {events : List AuditEvent} (h : (events.map eventIdentity).Nodup) :
    indexEvents events [] (fun _ => []) = .ok (bucket events) := by
  obtain ⟨children, hi⟩ : ∃ c, indexEvents events [] (fun _ => []) = .ok c :=
    indexEvents_of_nodup h fun _ _ => List.not_mem_nil
  obtain ⟨-, -, hc⟩ := indexEvents_eq_ok hi
  rw [hi, show children = bucket events from funext fun key => by simpa using hc key]

theorem index_of_duplicate {events : List AuditEvent} (h : ¬ (events.map eventIdentity).Nodup) :
    ∃ key, indexEvents events [] (fun _ => []) = .error key := by
  cases hi : indexEvents events [] fun _ => [] with
  | error key => exact ⟨key, rfl⟩
  | ok children => exact absurd (indexEvents_eq_ok hi).1 h

/-- The same events, or errors that say the same of all events. -/
structure SameVerdict (o o' : OrderedAuditChain) : Prop where
  events : o.events = o'.events
  error : (o.error.map fun r => (r.valid, r.checked)) = o'.error.map fun r => (r.valid, r.checked)

theorem order_perm {events events' : List AuditEvent} (h : events'.Perm events) :
    SameVerdict (orderEventsByChain events') (orderEventsByChain events) := by
  by_cases hne : events = []
  · subst hne
    rw [h.eq_nil]
    exact ⟨rfl, rfl⟩
  · have hne' : events' ≠ [] := fun hnil => hne (hnil ▸ h).nil_eq.symm
    have hids : (events'.map eventIdentity).Nodup ↔ (events.map eventIdentity).Nodup :=
      (h.map eventIdentity).nodup_iff
    unfold orderEventsByChain
    rw [if_neg (by simpa using hne'), if_neg (by simpa using hne)]
    by_cases hn : (events.map eventIdentity).Nodup
    · have hsame := bucket_perm h
      have hgenesis := hsame none
      simp only [index_of_nodup hn, index_of_nodup (hids.mpr hn)]
      cases hb : bucket events none with
      | nil =>
        rw [hb] at hgenesis
        rw [hgenesis.eq_nil]
        exact ⟨rfl, rfl⟩
      | cons genesis t =>
        cases t with
        | nil =>
          rw [hb] at hgenesis
          rw [List.perm_singleton.mp hgenesis]
          simp only [h.length_eq, walk_same hsame]
          split
          · exact ⟨rfl, rfl⟩
          · split
            · exact ⟨rfl, rfl⟩
            · exact ⟨rfl, rfl⟩
        | cons b t =>
          cases hb' : bucket events' none with
          | nil =>
            rw [hb, hb'] at hgenesis
            cases hgenesis.nil_eq
          | cons a' t' =>
            rw [hb, hb'] at hgenesis
            cases t' with
            | nil => cases List.perm_singleton.mp hgenesis.symm
            | cons b' t' => exact ⟨rfl, rfl⟩
    · obtain ⟨key, hkey⟩ := index_of_duplicate hn
      obtain ⟨key', hkey'⟩ := index_of_duplicate fun hn' => hn (hids.mp hn')
      rw [hkey, hkey']
      exact ⟨rfl, rfl⟩

section
variable (N : Node) (env : Env) (limit : Nat)

def verdict (events : List AuditEvent) : Bool × Nat :=
  ((verifyEvents N env limit events).valid, (verifyEvents N env limit events).checked)

theorem verdict_perm {events events' : List AuditEvent} (h : events'.Perm events) :
    verdict N env limit events' = verdict N env limit events := by
  have hsame := order_perm h
  unfold verdict verifyEvents
  cases ho : (orderEventsByChain events).error with
  | none =>
    have ho' : (orderEventsByChain events').error = none := by simpa [ho] using hsame.error
    simp [ho, ho', hsame.events]
  | some r =>
    have herror := hsame.error
    rw [ho] at herror
    obtain ⟨r', ho', hr⟩ := Option.map_eq_some_iff.mp herror
    simpa [ho, ho'] using hr

end

/-! ## The one arrangement -/

theorem Arrangement.unique {events l l' : List AuditEvent} (h : Arrangement events l)
    (h' : Arrangement events l') : l' = l := by
  obtain ⟨hp, hc⟩ := arrangement_iff.mp h
  obtain ⟨hp', hc'⟩ := arrangement_iff.mp h'
  have hprefix : l' <+: l := hc.prefix_of_path hc'.toPath fun e he => hp.symm.subset (hp'.subset he)
  exact hprefix.eq_of_length (hp'.length_eq.trans hp.length_eq.symm)

/-- The walk from the genesis event ends within one turn for each event, and one more. -/
theorem walk_ends (events : List AuditEvent) {genesis : AuditEvent} (hg : genesis ∈ events) (k : Nat) :
    walk (bucket events) (events.length + 1 + k) genesis [] [] =
      walk (bucket events) (events.length + 1) genesis [] [] := by
  have hmem : ∀ h, ∀ e ∈ childrenOf (bucket events) h, e ∈ events := by
    intro h e he
    cases h with
    | undef => cases he
    | null => exact List.mem_of_mem_filter he
    | val s => exact List.mem_of_mem_filter he
  induction k with
  | zero => rfl
  | succ k ih =>
    rw [← ih]
    exact walk_fuel hmem _ genesis [] [] hg List.nodup_nil (by simp) (by simp; omega)

/-- Reconstruction is exact and blind to the order of the store: the walk ends, there is
no error exactly when the identities differ, no hash is `null` and there is one
arrangement, which is the result, and a permuted store has the same verdict. -/
theorem reconstruction_exact (events : List AuditEvent) :
    (∀ genesis ∈ events, ∀ k, walk (bucket events) (events.length + 1 + k) genesis [] [] =
      walk (bucket events) (events.length + 1) genesis [] []) ∧
    ((orderEventsByChain events).error = none ↔ events = [] ∨
      (events.map eventIdentity).Nodup ∧ (∀ e ∈ events, e.hash ≠ .null) ∧ ∃! l, Arrangement events l) ∧
    (∀ l, (orderEventsByChain events).error = none → Arrangement events l →
      (orderEventsByChain events).events = l) ∧
    ∀ (N : Node) (env : Env) (limit : Nat) (events' : List AuditEvent), events'.Perm events →
      verdict N env limit events' = verdict N env limit events := by
  have hresult : ∀ l, orderEventsByChain events = ⟨l, none⟩ ↔
      (events.map eventIdentity).Nodup ∧ (∀ e ∈ events, e.hash ≠ .null) ∧ Arrangement events l := by
    intro l
    rw [orderEventsByChain_eq_ok_iff, arrangement_iff]
    constructor
    · intro ⟨hn, hp, hc, hnull⟩
      exact ⟨hn, fun e he => hnull e (hp.symm.subset he), hp, hc⟩
    · intro ⟨hn, hnull, hp, hc⟩
      exact ⟨hn, hp, hc, fun e he => hnull e (hp.subset he)⟩
  refine ⟨fun genesis hg k => walk_ends events hg k, ⟨fun h => ?_, fun h => ?_⟩, fun l h hl => ?_,
    fun N env limit events' hp => verdict_perm N env limit hp⟩
  · obtain ⟨hn, hnull, hl⟩ := (hresult (orderEventsByChain events).events).mp (by rw [← h])
    exact .inr ⟨hn, hnull, _, hl, fun l' hl' => hl.unique hl'⟩
  · rcases h with rfl | ⟨hn, hnull, l, hl, -⟩
    · rfl
    · rw [(hresult l).mpr ⟨hn, hnull, hl⟩]
  · have hl' := (hresult (orderEventsByChain events).events).mp (by rw [← h])
    exact hl.unique hl'.2.2

def unhashedEvent : AuditEvent := { sampleFirst with hash := .null }

-- The event is a sequence of its own, and the walk still reports a cycle.
theorem unhashed_cycle : ¬ ∀ events : List AuditEvent, (orderEventsByChain events).error = none ↔
    events = [] ∨ (events.map eventIdentity).Nodup ∧ ∃! l, Arrangement events l := by
  intro h
  have harranged : Arrangement [unhashedEvent] [unhashedEvent] := by
    refine ⟨.refl _, fun i e he => ?_, fun i a b _ hb => ?_⟩
    · cases i with
      | zero =>
        obtain rfl := Option.some.inj he
        exact ⟨fun _ => rfl, fun _ => rfl⟩
      | succ i => cases he
    · cases hb
  have hnone := (h [unhashedEvent]).mpr (.inr ⟨by simp, _, harranged, fun l' hl' => harranged.unique hl'⟩)
  exact absurd hnone (by decide)

end DocVault
