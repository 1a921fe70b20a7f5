import DocVault.AuditChain
import DocVault.Digest
import DocVault.Linked
import Mathlib.Data.List.Perm.Basic
import Mathlib.Data.List.Perm.Subperm

/-!
# What verifyChain decides

`orderEventsByChain` succeeds exactly on the records that have pairwise
distinct identities and form one linked chain, and returns that chain;
`verifyEventSequence` then checks each record of it. `verifyEvents_valid_iff`
is the specification the later modules use.
-/

namespace DocVault

def prevKey (event : AuditEvent) : Option String := normalizePrevHash event.prevHash

def hashKey (event : AuditEvent) : Option String := event.hash.toOption

abbrev AuditPath : List AuditEvent → Prop := Linked.Path prevKey hashKey

abbrev AuditChain : List AuditEvent → Prop := Linked.Chain prevKey hashKey

/-! ## The index -/

def bucket (events : List AuditEvent) : Children := fun key => events.filter fun event => key = prevKey event

theorem indexEvents_eq_ok {c : Children} : ∀ {events : List AuditEvent} {keys : List String} {children : Children},
    indexEvents events keys children = .ok c →
      (events.map eventIdentity).Nodup ∧ (∀ e ∈ events, eventIdentity e ∉ keys) ∧
        ∀ key, c key = children key ++ bucket events key
  | [], _, _, h => by
    simp only [indexEvents, Except.ok.injEq] at h
    subst h
    exact ⟨List.nodup_nil, by simp, by simp [bucket]⟩
  | e :: events, keys, children, h => by
    simp only [indexEvents] at h
    split at h
    · cases h
    · rename_i he
      obtain ⟨hn, hk, hc⟩ := indexEvents_eq_ok h
      refine ⟨?_, ?_, ?_⟩
      · rw [List.map_cons, List.nodup_cons]
        refine ⟨fun hm => ?_, hn⟩
        obtain ⟨e', he', heq⟩ := List.mem_map.mp hm
        exact hk e' he' (heq ▸ List.mem_cons_self ..)
      · intro e' he'
        cases he' with
        | head => exact he
        | tail _ h' => exact fun hm => hk e' h' (List.mem_cons_of_mem _ hm)
      · intro key
        rw [hc key, childrenAdd]
        by_cases hp : key = prevKey e
        · simp [bucket, hp, prevKey]
        · simp [bucket, hp, show ¬ key = normalizePrevHash e.prevHash from hp]

theorem indexEvents_of_nodup : ∀ {events : List AuditEvent} {keys : List String} {children : Children},
    (events.map eventIdentity).Nodup → (∀ e ∈ events, eventIdentity e ∉ keys) →
      ∃ c, indexEvents events keys children = .ok c
  | [], _, children, _, _ => ⟨children, rfl⟩
  | e :: events, keys, children, hn, hk => by
    rw [List.map_cons, List.nodup_cons] at hn
    simp only [indexEvents, if_neg (hk e (List.mem_cons_self ..))]
    refine indexEvents_of_nodup hn.2 fun e' he' hm => ?_
    rcases List.mem_cons.mp hm with h | h
    · exact hn.1 (List.mem_map.mpr ⟨e', he', h⟩)
    · exact hk e' (List.mem_cons_of_mem _ he') h

/-! ## The walk -/

def Follows (children : Children) : AuditEvent → List AuditEvent → Prop
  | c, [] => childrenOf children c.hash = []
  | c, b :: t => childrenOf children c.hash = [b] ∧ Follows children b t

theorem walk_eq_ok_iff (children : Children) : ∀ (n : Nat) (c : AuditEvent) (visited : List String)
    (ordered res : List AuditEvent), walk children n c visited ordered = ⟨res, none⟩ ↔
      ∃ t, t.length < n ∧ res = ordered ++ c :: t ∧ Follows children c t ∧
        ((c :: t).map eventIdentity).Nodup ∧ ∀ x ∈ c :: t, eventIdentity x ∉ visited
  | 0, c, visited, ordered, res => by
    simp [walk]
  | n + 1, c, visited, ordered, res => by
    rw [walk]
    split
    · rename_i hv
      refine ⟨fun h => by simp at h, ?_⟩
      rintro ⟨t, _, _, _, _, hf⟩
      exact absurd hv (hf c (List.mem_cons_self ..))
    · rename_i hv
      split
      · rename_i hc
        constructor
        · intro h
          simp only [OrderedAuditChain.mk.injEq, and_true] at h
          exact ⟨[], by simp, h.symm, hc, by simp, by simpa using hv⟩
        · rintro ⟨t, _, rfl, hfo, _, _⟩
          cases t with
          | nil => rfl
          | cons b t => rw [Follows, hc] at hfo; cases hfo.1
      · rename_i next hc
        rw [walk_eq_ok_iff children n next]
        constructor
        · rintro ⟨t, hl, rfl, hfo, hn, hf⟩
          refine ⟨next :: t, by simpa using hl, by simp, ⟨hc, hfo⟩, ?_, ?_⟩
          · rw [List.map_cons, List.nodup_cons]
            refine ⟨fun hm => ?_, hn⟩
            obtain ⟨x, hx, he⟩ := List.mem_map.mp hm
            exact hf x hx (he ▸ List.mem_cons_self ..)
          · intro x hx
            cases hx with
            | head => exact hv
            | tail _ hx => exact fun h => hf x hx (List.mem_cons_of_mem _ h)
        · rintro ⟨t, hl, rfl, hfo, hn, hf⟩
          cases t with
          | nil => rw [Follows, hc] at hfo; cases hfo
          | cons b t =>
            obtain ⟨hb, hfo⟩ := hfo
            rw [hc] at hb
            obtain rfl : next = b := by simpa using hb
            rw [List.map_cons, List.nodup_cons] at hn
            refine ⟨t, by simpa using hl, by simp, hfo, hn.2, fun x hx hm => ?_⟩
            rcases List.mem_cons.mp hm with h | h
            · exact hn.1 (List.mem_map.mpr ⟨x, hx, h⟩)
            · exact hf x (List.mem_cons_of_mem _ hx) h
      · rename_i h0 h1
        refine ⟨fun h => by simp at h, ?_⟩
        rintro ⟨t, _, _, hfo, _, _⟩
        cases t with
        | nil => exact absurd hfo h0
        | cons b t => exact absurd hfo.1 (h1 b)

/-- The walk has ended before its turns run out: more of them change nothing. -/
theorem walk_fuel {events : List AuditEvent} {children : Children}
    (hc : ∀ h, ∀ e ∈ childrenOf children h, e ∈ events) : ∀ (n : Nat) (c : AuditEvent) (visited : List String)
    (ordered : List AuditEvent), c ∈ events → visited.Nodup → (∀ k ∈ visited, k ∈ events.map eventIdentity) →
      events.length < n + visited.length →
      walk children (n + 1) c visited ordered = walk children n c visited ordered
  | 0, c, visited, ordered, _, hn, hs, hl => by
    have := (List.subperm_of_subset hn hs).length_le
    rw [List.length_map] at this
    omega
  | n + 1, c, visited, ordered, hm, hn, hs, hl => by
    rw [walk, walk]
    split
    · rfl
    · rename_i hv
      split
      · rfl
      · rename_i next h
        refine walk_fuel hc n next _ _ (hc c.hash next (by simp [h])) (List.nodup_cons.mpr ⟨hv, hn⟩) ?_ ?_
        · intro k hk
          cases hk with
          | head => exact List.mem_map_of_mem hm
          | tail _ hk => exact hs k hk
        · rw [List.length_cons]; omega
      · rfl

theorem follows_getElem? {children : Children} : ∀ {t : List AuditEvent} {c : AuditEvent},
    Follows children c t ↔ ∀ (i : Nat) (a : AuditEvent), (c :: t)[i]? = some a →
      childrenOf children a.hash = ((c :: t)[i + 1]?).toList
  | [], c => by
    constructor
    · intro h i a ha
      cases i with
      | zero => simp at ha; subst ha; simpa [Follows] using h
      | succ i => simp at ha
    · intro h
      simpa [Follows] using h 0 c rfl
  | b :: t, c => by
    rw [Follows, follows_getElem?]
    constructor
    · rintro ⟨hb, ht⟩ i a ha
      cases i with
      | zero => simp at ha; subst ha; simpa using hb
      | succ i => exact ht i a (by simpa using ha)
    · intro h
      exact ⟨by simpa using h 0 c rfl, fun i a ha => h (i + 1) a (by simpa using ha)⟩

/-! ## orderEventsByChain -/

theorem filter_eq_singleton {α : Type} {l : List α} {p : α → Bool} {x : α} (hn : l.Nodup) (hx : x ∈ l)
    (hp : p x = true) (hu : ∀ y ∈ l, p y = true → y = x) : l.filter p = [x] := by
  rw [← List.perm_singleton, List.perm_ext_iff_of_nodup (hn.filter p) (List.nodup_singleton x)]
  intro y
  rw [List.mem_filter, List.mem_singleton]
  constructor
  · rintro ⟨hy, hpy⟩; exact hu y hy hpy
  · rintro rfl; exact ⟨hx, hp⟩

theorem childrenOf_bucket {events l : List AuditEvent} (hn : events.Nodup) (hp : l.Perm events) (hl : AuditChain l)
    {i : Nat} {a : AuditEvent} (ha : l[i]? = some a) (hnull : a.hash ≠ .null) :
    childrenOf (bucket events) a.hash = (l[i + 1]?).toList := by
  have hsucc : ∀ b, l[i + 1]? = some b → hashKey a = prevKey b ∧ hashKey a ≠ none := by
    intro b hb
    obtain ⟨a', k, ha', hk, hpk⟩ := hl.step i b hb
    rw [ha] at ha'
    obtain rfl := Option.some.inj ha'
    exact ⟨hk.trans hpk.symm, by simp [hk]⟩
  cases hh : a.hash with
  | null => exact absurd hh hnull
  | undef =>
    cases hb : l[i + 1]? with
    | none => rfl
    | some b => exact absurd (by simp [hashKey, hh]) (hsucc b hb).2
  | val h =>
    have hka : hashKey a = some h := by simp [hashKey, hh]
    have hu : ∀ y ∈ events, decide (some h = prevKey y) = true → l[i + 1]? = some y := by
      intro y hy hpy
      obtain ⟨j, hj⟩ := List.mem_iff_getElem?.mp (hp.symm.subset hy)
      rw [hl.index_succ ha hka hj (by simpa using (of_decide_eq_true hpy).symm)] at hj
      exact hj
    cases hb : l[i + 1]? with
    | none =>
      refine List.filter_eq_nil_iff.mpr fun y hy hpy => ?_
      have := hu y hy hpy
      rw [hb] at this; cases this
    | some b =>
      refine filter_eq_singleton hn (hp.subset (List.mem_of_getElem? hb)) ?_ ?_
      · simpa using hka.symm.trans (hsucc b hb).1
      · intro y hy hpy
        have := hu y hy hpy
        rw [hb] at this; exact (Option.some.inj this).symm

theorem nodup_of_identities {events : List AuditEvent} (h : (events.map eventIdentity).Nodup) : events.Nodup :=
  List.Nodup.of_map _ h

theorem getElem?_inj {α : Type} {l : List α} (hn : l.Nodup) {i j : Nat} {a : α} (hi : l[i]? = some a)
    (hj : l[j]? = some a) : i = j :=
  (List.getElem?_inj (List.getElem?_eq_some_iff.mp hi).1 hn).mp (hi.trans hj.symm)

/-- A walk through all records, one child at a time, arranges them as a chain. -/
theorem mem_bucket {events : List AuditEvent} {h : Option String} {e : AuditEvent} :
    e ∈ bucket events h ↔ e ∈ events ∧ prevKey e = h := by
  simp [bucket, eq_comm]

theorem getElem?_succ_inj {α : Type} {l : List α} (hn : l.Nodup) {i j : Nat} (hi : i < l.length) (hj : j < l.length)
    (h : l[i + 1]? = l[j + 1]?) : i = j := by
  cases hx : l[i + 1]? with
  | some x =>
    have := getElem?_inj hn hx (h ▸ hx)
    omega
  | none =>
    have hy := hx
    rw [h] at hy
    rw [List.getElem?_eq_none_iff] at hx hy
    omega

section
variable {events : List AuditEvent} {c : AuditEvent} {t : List AuditEvent} (hg : bucket events none = [c])
  (hf : Follows (bucket events) c t) (hn : (c :: t).Nodup)
include hf

/-- A walked event is followed by what names its hash. -/
theorem follows_bucket {i : Nat} {a : AuditEvent} (ha : (c :: t)[i]? = some a) {k : String}
    (hk : hashKey a = some k) : bucket events (some k) = ((c :: t)[i + 1]?).toList := by
  have hnext := follows_getElem?.mp hf i a ha
  have hhash : a.hash = .val k := by
    cases hh : a.hash <;> simp [hashKey, hh] at hk
    rw [hk]
  rw [hhash] at hnext
  exact hnext

include hg hn

-- An event with the hash `null` is followed by the first one, which is walked once.
theorem follows_hash_ne_null {i : Nat} {a : AuditEvent} (ha : (c :: t)[i]? = some a) : a.hash ≠ .null := by
  intro hnull
  have hnext := follows_getElem?.mp hf i a ha
  rw [hnull, childrenOf, hg] at hnext
  cases hb : (c :: t)[i + 1]? with
  | none => rw [hb] at hnext; cases hnext
  | some b =>
    rw [hb] at hnext
    obtain rfl : c = b := by simpa using hnext
    exact absurd (getElem?_inj hn hb (show (c :: t)[0]? = some c from rfl)) (by omega)

theorem follows_step {i : Nat} {b : AuditEvent} (hb : (c :: t)[i + 1]? = some b) :
    ∃ a k, (c :: t)[i]? = some a ∧ hashKey a = some k ∧ prevKey b = some k := by
  have hi : i < (c :: t).length := by
    have := (List.getElem?_eq_some_iff.mp hb).1
    omega
  have ha : (c :: t)[i]? = some (c :: t)[i] := List.getElem?_eq_getElem hi
  have hnull := follows_hash_ne_null hg hf hn ha
  cases hk : hashKey (c :: t)[i] with
  | some k =>
    have hmem : b ∈ bucket events (some k) := by rw [follows_bucket hf ha hk, hb]; simp
    exact ⟨_, k, ha, hk, (mem_bucket.mp hmem).2⟩
  | none =>
    have hundef : ((c :: t)[i]).hash = .undef := by
      cases hh : ((c :: t)[i]).hash with
      | undef => rfl
      | null => exact absurd hh hnull
      | val h => simp [hashKey, hh] at hk
    have hnext := follows_getElem?.mp hf i _ ha
    rw [hundef, hb] at hnext
    cases hnext

theorem chain_of_follows : AuditChain (c :: t) ∧ ∀ e ∈ c :: t, e.hash ≠ .null := by
  refine ⟨⟨⟨?_, fun i b hb => follows_step hg hf hn hb⟩, ?_⟩, ?_⟩
  · intro a ha
    obtain rfl : c = a := by simpa using ha
    exact (mem_bucket.mp (by simp [hg] : c ∈ bucket events none)).2
  · intro i j a b k ha hb hka hkb
    have hnext : ((c :: t)[i + 1]?).toList = ((c :: t)[j + 1]?).toList :=
      (follows_bucket hf ha hka).symm.trans (follows_bucket hf hb hkb)
    exact getElem?_succ_inj hn (List.getElem?_eq_some_iff.mp ha).1 (List.getElem?_eq_some_iff.mp hb).1
      (by simpa using congrArg List.head? hnext)
  · intro e he
    obtain ⟨i, hi⟩ := List.mem_iff_getElem?.mp he
    exact follows_hash_ne_null hg hf hn hi

theorem follows_subset : ∀ x ∈ c :: t, x ∈ events := by
  intro x hx
  obtain ⟨i, hxi⟩ := List.mem_iff_getElem?.mp hx
  cases i with
  | zero =>
    obtain rfl : c = x := by simpa using hxi
    exact (mem_bucket.mp (by simp [hg] : c ∈ bucket events none)).1
  | succ i =>
    obtain ⟨a, k, ha, hk, -⟩ := follows_step hg hf hn hxi
    have hmem : x ∈ bucket events (some k) := by rw [follows_bucket hf ha hk, hxi]; simp
    exact (mem_bucket.mp hmem).1

end

/-- The order is the whole walk from the only event that names none. -/
theorem orderEventsByChain_eq_ok_iff_walk {events : List AuditEvent} (hne : events ≠ []) (l : List AuditEvent) :
    orderEventsByChain events = ⟨l, none⟩ ↔ (events.map eventIdentity).Nodup ∧ l.length = events.length ∧
      ∃ genesis, bucket events none = [genesis] ∧
        walk (bucket events) (events.length + 1) genesis [] [] = ⟨l, none⟩ := by
  have hempty : events.isEmpty = false := by simpa using hne
  simp only [orderEventsByChain, hempty, Bool.false_eq_true, if_false]
  cases hi : indexEvents events [] (fun _ => []) with
  | error e =>
    refine iff_of_false (by simp) ?_
    intro h
    obtain ⟨children, hchildren⟩ := @indexEvents_of_nodup events [] (fun _ => []) h.1 fun _ _ => List.not_mem_nil
    rw [hi] at hchildren
    cases hchildren
  | ok children =>
    obtain ⟨hn, -, hc⟩ := indexEvents_eq_ok hi
    obtain rfl : children = bucket events := by
      funext key
      simpa using hc key
    simp only [hn, true_and]
    cases hg : bucket events none with
    | nil => simp
    | cons genesis others =>
      cases others with
      | cons b others => simp
      | nil =>
        simp only [List.cons.injEq, and_true, exists_eq_left']
        cases hw : walk (bucket events) (events.length + 1) genesis [] [] with
        | mk ordered error =>
          cases error with
          | some e => simp
          | none =>
            by_cases hlen : ordered.length = events.length
            · simp only [hlen, ne_eq, not_true, if_false, Option.isSome_none, Bool.false_eq_true,
                OrderedAuditChain.mk.injEq, and_true]
              exact ⟨fun h => ⟨h ▸ hlen, h⟩, fun h => h.2⟩
            · simp only [hlen, ne_eq, not_false_eq_true, if_true, Option.isSome_none, Bool.false_eq_true, if_false,
                OrderedAuditChain.mk.injEq, and_true, reduceCtorEq, and_false, false_iff, not_and]
              exact fun hl h => hlen (h ▸ hl)

theorem bucket_of_chain {events : List AuditEvent} {c : AuditEvent} {t : List AuditEvent} (hn : events.Nodup)
    (hp : (c :: t).Perm events) (hch : AuditChain (c :: t)) : bucket events none = [c] := by
  refine filter_eq_singleton hn (hp.subset List.mem_cons_self) ?_ ?_
  · simpa using (hch.root c rfl).symm
  · intro y hy hpy
    obtain ⟨j, hj⟩ := List.mem_iff_getElem?.mp (hp.symm.subset hy)
    rw [hch.index_zero hj (of_decide_eq_true hpy).symm] at hj
    simpa using hj.symm

theorem orderEventsByChain_eq_ok_iff (events l : List AuditEvent) :
    orderEventsByChain events = ⟨l, none⟩ ↔
      (events.map eventIdentity).Nodup ∧ l.Perm events ∧ AuditChain l ∧ ∀ e ∈ l, e.hash ≠ .null := by
  by_cases hne : events = []
  · subst hne
    have hnil : orderEventsByChain [] = ⟨[], none⟩ := rfl
    simp only [hnil, OrderedAuditChain.mk.injEq, and_true, List.perm_nil]
    apply Iff.intro
    · intro h
      subst h
      exact ⟨List.nodup_nil, rfl, Linked.chain_nil, by simp⟩
    · intro h
      exact h.2.1.symm
  · rw [orderEventsByChain_eq_ok_iff_walk hne]
    apply Iff.intro
    · intro h
      obtain ⟨hn, hlen, genesis, hg, hw⟩ := h
      obtain ⟨t, -, hl, hf, hnt, -⟩ := (walk_eq_ok_iff _ _ _ _ _ _).mp hw
      rw [List.nil_append] at hl
      subst hl
      have hnodup := nodup_of_identities hnt
      obtain ⟨hch, hnull⟩ := chain_of_follows hg hf hnodup
      have hsub := List.subperm_of_subset hnodup (follows_subset hg hf hnodup)
      exact ⟨hn, hsub.perm_of_length_le (by omega), hch, hnull⟩
    · intro h
      obtain ⟨hn, hp, hch, hnull⟩ := h
      cases l with
      | nil => exact absurd hp.nil_eq.symm hne
      | cons c t =>
        have hnodup := nodup_of_identities hn
        have hf : Follows (bucket events) c t := follows_getElem?.mpr fun i a ha =>
          childrenOf_bucket hnodup hp hch ha (hnull a (List.mem_of_getElem? ha))
        have hids : ((c :: t).map eventIdentity).Nodup := (hp.map eventIdentity).nodup_iff.mpr hn
        have hlen := hp.length_eq
        rw [List.length_cons] at hlen
        exact ⟨hn, hp.length_eq, c, bucket_of_chain hnodup hp hch,
          (walk_eq_ok_iff _ _ _ _ _ _).mpr ⟨t, by omega, rfl, hf, hids, fun x _ => List.not_mem_nil⟩⟩

theorem order_error_valid (events : List AuditEvent) {r : AuditChainVerificationResult}
    (h : (orderEventsByChain events).error = some r) : r.valid = false := by
  have hw : ∀ (children : Children) (n : Nat) (c : AuditEvent) (visited : List String) (ordered : List AuditEvent),
      (walk children n c visited ordered).error = some r → r.valid = false := by
    intro children n
    induction n with
    | zero => intro c visited ordered h; simp [walk] at h; subst h; rfl
    | succ n ih =>
      intro c visited ordered h
      rw [walk] at h
      split at h
      · simp at h; subst h; rfl
      · split at h
        · simp at h
        · exact ih _ _ _ h
        · simp at h; subst h; rfl
  unfold orderEventsByChain at h
  split at h
  · simp at h
  · split at h
    · simp at h; subst h; rfl
    · split at h
      · simp only at h
        split at h
        · exact hw _ _ _ _ _ h
        · split at h
          · simp at h; subst h; rfl
          · exact hw _ _ _ _ _ h
      · simp at h; subst h; rfl

/-! ## verifyEventSequence -/

section
variable (N : Node) (env : Env)

def Verified (last : Nullable String) : List AuditEvent → Prop
  | [] => True
  | e :: l => e.hash = .val (expectedHash N last e) ∧ e.prevHash = last ∧ checkSignature N env e ≠ .mismatch ∧
      Verified e.hash l

theorem verifyFrom_valid_iff : ∀ (l : List AuditEvent) (i : Nat) (last : Nullable String) (s u : Nat),
    (verifyFrom N env i last s u l).valid = true ↔ Verified N env last l
  | [], i, last, s, u => by simp [verifyFrom, Verified]
  | e :: l, i, last, s, u => by
    rw [verifyFrom, Verified]
    by_cases hh : e.hash = .val (expectedHash N last e)
    · by_cases hp : e.prevHash = last
      · rw [if_neg (not_not_intro hh), if_neg (not_not_intro hp)]
        cases hc : checkSignature N env e with
        | mismatch => simp [brokenAt]
        | signed => simp [verifyFrom_valid_iff l, hh, hp]
        | unsigned => simp [verifyFrom_valid_iff l, hh, hp]
      · simp [hh, hp, brokenAt]
    · simp [hh, brokenAt]

theorem verifyFrom_checked : ∀ (l : List AuditEvent) (i : Nat) (last : Nullable String) (s u : Nat),
    (verifyFrom N env i last s u l).valid = true → (verifyFrom N env i last s u l).checked = i + l.length
  | [], i, last, s, u, _ => rfl
  | e :: l, i, last, s, u, h => by
    rw [verifyFrom] at h ⊢
    split at h
    · simp [brokenAt] at h
    · rename_i hh
      split at h
      · simp [brokenAt] at h
      · rename_i hp
        rw [if_neg hh, if_neg hp]
        cases hc : checkSignature N env e with
        | mismatch => simp [hc, brokenAt] at h
        | signed =>
          simp only [hc] at h ⊢
          rw [verifyFrom_checked l _ _ _ _ h, List.length_cons]; omega
        | unsigned =>
          simp only [hc] at h ⊢
          rw [verifyFrom_checked l _ _ _ _ h, List.length_cons]; omega

theorem verifyEventSequence_valid_iff (l : List AuditEvent) :
    (verifyEventSequence N env l).valid = true ↔ Verified N env .null l := by
  unfold verifyEventSequence
  cases l with
  | nil => simp [Verified]
  | cons e l => simpa using verifyFrom_valid_iff N env (e :: l) 0 .null 0 0

theorem verifyEventSequence_checked {l : List AuditEvent} (h : (verifyEventSequence N env l).valid = true) :
    (verifyEventSequence N env l).checked = l.length := by
  unfold verifyEventSequence at h ⊢
  cases l with
  | nil => rfl
  | cons e l =>
    have := verifyFrom_checked N env (e :: l) 0 .null 0 0 (by simpa using h)
    simpa using this

variable {N env}

theorem verified_hash_ne_null {l : List AuditEvent} : ∀ {last : Nullable String}, Verified N env last l →
    ∀ e ∈ l, e.hash ≠ .null := by
  induction l with
  | nil => intro _ _ e he; exact absurd he List.not_mem_nil
  | cons e l ih =>
    intro last h x hx
    cases hx with
    | head => rw [h.1]; exact nofun
    | tail _ hx => exact ih h.2.2.2 x hx

theorem verified_append {l m : List AuditEvent} : ∀ {last : Nullable String}, Verified N env last (l ++ m) →
    Verified N env last l := by
  induction l with
  | nil => intro _ _; trivial
  | cons e l ih => intro last h; exact ⟨h.1, h.2.1, h.2.2.1, ih h.2.2.2⟩

/-- An unsigned record verifies as it was inserted. -/
theorem verified_appendRecord (epochId eventId : String) (eventTimestamp : JsDate) (dto : CreateAuditEventDto)
    (prevHash : Option String) {l : List AuditEvent}
    (h : Verified N env (appendRecord N none epochId eventId eventTimestamp dto prevHash).hash l) :
    Verified N env (match prevHash with | some h => .val h | none => .null)
      (appendRecord N none epochId eventId eventTimestamp dto prevHash :: l) := by
  cases prevHash with
  | none => exact ⟨rfl, rfl, nofun, h⟩
  | some hash => exact ⟨rfl, rfl, nofun, h⟩

variable {events : List AuditEvent} {limit : Nat}

theorem verifyEvents_valid_of_order (h : events.length ≤ limit) : (verifyEvents N env limit events).valid = true ↔
    ∃ l, orderEventsByChain events = ⟨l, none⟩ ∧ Verified N env .null l := by
  unfold verifyEvents
  cases ho : orderEventsByChain events with
  | mk l error =>
    cases error with
    | some r =>
      have := order_error_valid events (r := r) (by rw [ho])
      simp [this]
    | none =>
      have hl := ((orderEventsByChain_eq_ok_iff events l).mp ho).2.1.length_eq
      simp [List.take_of_length_le (show l.length ≤ limit by omega), verifyEventSequence_valid_iff]

/-- `verifyChain` answers valid exactly when the identities are distinct and
the records form one chain that verifies. -/
theorem verifyEvents_valid_iff (h : events.length ≤ limit) : (verifyEvents N env limit events).valid = true ↔
    (events.map eventIdentity).Nodup ∧ ∃ l, l.Perm events ∧ AuditChain l ∧ Verified N env .null l := by
  rw [verifyEvents_valid_of_order h]
  simp only [orderEventsByChain_eq_ok_iff]
  constructor
  · rintro ⟨l, ⟨hn, hp, hc, _⟩, hv⟩; exact ⟨hn, l, hp, hc, hv⟩
  · rintro ⟨hn, l, hp, hc, hv⟩; exact ⟨l, ⟨hn, hp, hc, verified_hash_ne_null hv⟩, hv⟩

theorem chain_of_valid (hl : events.length ≤ limit)
    (hv : (verifyEvents N env limit events).valid = true) :
    (events.map eventIdentity).Nodup ∧ (orderEventsByChain events).events.Perm events ∧
      AuditChain (orderEventsByChain events).events ∧ Verified N env .null (orderEventsByChain events).events := by
  obtain ⟨l, ho, hver⟩ := (verifyEvents_valid_of_order hl).mp hv
  obtain ⟨hn, hp, hc, _⟩ := (orderEventsByChain_eq_ok_iff events l).mp ho
  rw [ho]
  exact ⟨hn, hp, hc, hver⟩

theorem verifyEvents_checked (h : events.length ≤ limit) (hv : (verifyEvents N env limit events).valid = true) :
    (verifyEvents N env limit events).checked = events.length := by
  obtain ⟨l, ho, hl⟩ := (verifyEvents_valid_of_order h).mp hv
  have hlen := ((orderEventsByChain_eq_ok_iff events l).mp ho).2.1.length_eq
  unfold verifyEvents
  simp only [ho, Option.getD_none, List.take_of_length_le (show l.length ≤ limit by omega)]
  rw [verifyEventSequence_checked N env ((verifyEventSequence_valid_iff N env l).mpr hl), hlen]

end

/-- A record after another has a hash that no first record has: a digest starts with no separator. -/
theorem computeHash_ne_root {N : Node} (hN : Digest.CollisionFree N.sha256) {a : Option String} {x y z : String} :
    computeHash N (some (computeHash N a x)) y ≠ computeHash N none z := by
  intro h
  have htext := congrArg String.toList (hN.injective h)
  simp only [Option.getD_some, Option.getD_none, String.toList_append, List.append_assoc] at htext
  cases hd : (computeHash N a x).toList with
  | nil => exact hN.nonempty _ (String.toList_eq_nil_iff.mp hd)
  | cons c cs =>
    rw [hd] at htext
    obtain ⟨rfl, -⟩ := List.cons.inj htext
    exact hN.not_mem (by decide) _ (hd ▸ List.mem_cons_self)

/-! ## A sample epoch -/

def sampleTime : JsDate := ⟨1780531200000, by decide⟩

def downloadDto : CreateAuditEventDto where
  actorId := "u-1"
  actorRoles := ["viewer"]
  action := "DOCUMENT_DOWNLOAD"
  resourceType := "DOCUMENT"
  resourceId := some "d-1"
  result := "SUCCESS"
  ip := some "10.0.0.7"
  metadata := some [("classification", .str "SECRET")]

def sampleHash₁ : String := "9722d0d8c68ee06055d16022d66595da380cce2b6b7aee2ec60328801b04735c"

def sampleHash₂ : String := "58ab522a401c805a8a1fc2948edb3c7a1cc34d06bc957226c0b756666f6817b1"

def sampleDigests : List (String × String) :=
  [("|" ++ buildCanonicalPayload (appendFields "e-1" sampleTime downloadDto), sampleHash₁),
    (sampleHash₁ ++ "|" ++ buildCanonicalPayload (appendFields "e-2" sampleTime downloadDto), sampleHash₂)]

-- SHA-256 on the two texts of the sample epoch.
def sampleNode : Node where
  sha256 := Digest.ofTable sampleDigests
  hmacSha256 _ _ := ""
  newDate s := if s = "2026-06-04T00:00:00.000Z" then some sampleTime else none

def sampleFirst : AuditEvent := appendRecord sampleNode none "default" "e-1" sampleTime downloadDto none

def sampleSecond : AuditEvent :=
  appendRecord sampleNode none "default" "e-2" sampleTime downloadDto (some sampleHash₁)

def sampleEvents : List AuditEvent := [sampleFirst, sampleSecond]

def noEnv : Env := fun _ => none

theorem sampleNode_collisionFree : Digest.CollisionFree sampleNode.sha256 :=
  have hsecond := Digest.valid_cons rfl (by decide +kernel) List.not_mem_nil Digest.valid_nil
  Digest.ofTable_collisionFree sampleDigests
    (Digest.valid_cons rfl (by decide +kernel) (by simp [sampleHash₁, sampleHash₂]) hsecond)

theorem sampleNode_injective : Function.Injective sampleNode.sha256 := sampleNode_collisionFree.injective

theorem sampleHash₁_eq :
    computeHash sampleNode none (buildCanonicalPayload (appendFields "e-1" sampleTime downloadDto)) =
    sampleHash₁ := by
  rw [computeHash, Option.getD_none, String.empty_append,
    show sampleNode.sha256 = Digest.ofTable sampleDigests from rfl, sampleDigests, Digest.ofTable_cons_self]

theorem sampleFirst_hash : sampleFirst.hash = .val sampleHash₁ := congrArg Nullable.val sampleHash₁_eq

theorem sampleSecond_hash_ne : sampleSecond.hash ≠ .val sampleHash₁ := by
  intro h
  have hhash : computeHash sampleNode (some sampleHash₁) _ = sampleHash₁ := Nullable.val.inj h
  rw [← sampleHash₁_eq] at hhash
  exact computeHash_ne_root sampleNode_collisionFree hhash

theorem sampleEvents_chain : AuditChain sampleEvents := by
  have hfirst : AuditChain ([] ++ [sampleFirst]) :=
    Linked.chain_nil.concat (.inl ⟨rfl, rfl⟩) fun _ _ _ ha => absurd ha List.not_mem_nil
  have hkey : hashKey sampleFirst = some sampleHash₁ := by rw [hashKey, sampleFirst_hash]; rfl
  refine hfirst.concat (.inr ⟨0, sampleFirst, sampleHash₁, rfl, rfl, hkey, rfl⟩) fun k hk a ha hka => ?_
  rw [List.mem_singleton.mp ha, hkey] at hka
  exact sampleSecond_hash_ne (congrArg Nullable.val (Option.some.inj (hk.trans hka.symm)))

theorem sampleEvents_verified : Verified sampleNode noEnv .null sampleEvents := by
  have hnil : Verified sampleNode noEnv sampleSecond.hash [] := trivial
  have hsecond : Verified sampleNode noEnv (.val sampleHash₁) [sampleSecond] :=
    verified_appendRecord "default" "e-2" sampleTime downloadDto (some sampleHash₁) hnil
  rw [← sampleFirst_hash] at hsecond
  exact verified_appendRecord "default" "e-1" sampleTime downloadDto none hsecond

theorem sample_valid : (verifyEvents sampleNode noEnv 2 sampleEvents).valid = true :=
  (verifyEvents_valid_iff (by decide)).mpr
  ⟨by decide, sampleEvents, .refl _, sampleEvents_chain, sampleEvents_verified⟩

end DocVault
