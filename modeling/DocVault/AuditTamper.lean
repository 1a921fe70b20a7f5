import DocVault.AuditChainSound
import DocVault.Delimited

/-!
# What verification detects

Deletion: of a store that verifies, exactly the records at the end of the
chain can be removed unnoticed. Alteration: the content of a record can be
replaced unnoticed exactly when its payload is written the same, which the
unescaped separators of `buildCanonicalPayload` allow.
-/

namespace DocVault

section
variable {N : Node} {env : Env} {limit : Nat}

/-! ## Deletion -/

theorem prefix_of_valid {l rest : List AuditEvent} (hl : AuditChain l) (hs : ∀ e ∈ rest, e ∈ l)
    (hlen : rest.length ≤ limit) (hv : (verifyEvents N env limit rest).valid = true) :
    ∃ m, m.Perm rest ∧ m <+: l := by
  obtain ⟨_, m, hp, hc, _⟩ := (verifyEvents_valid_iff hlen).mp hv
  exact ⟨m, hp, hl.prefix_of_path hc.toPath fun a ha => hs a (hp.subset ha)⟩

theorem valid_of_prefix {events rest m : List AuditEvent} (hv : (verifyEvents N env limit events).valid = true)
    (hl : events.length ≤ limit) (hm : m <+: (orderEventsByChain events).events) (hp : m.Perm rest)
    (hs : rest.Subperm events) : (verifyEvents N env limit rest).valid = true := by
  obtain ⟨hn, _, hc, hver⟩ := chain_of_valid hl hv
  have hlen : rest.length ≤ limit := Nat.le_trans hs.length_le hl
  refine (verifyEvents_valid_iff hlen).mpr ⟨?_, m, hp, hc.of_prefix hm, ?_⟩
  · obtain ⟨r, hr, hsub⟩ := hs
    exact (hr.map eventIdentity).nodup_iff.mp ((hsub.map eventIdentity).nodup hn)
  · obtain ⟨t, ht⟩ := hm
    exact verified_append (m := t) (ht ▸ hver)

/-- Deletion from a store that verifies goes undetected exactly for the ends of its chain. -/
theorem verifyEvents_deletion_iff {events rest removed : List AuditEvent} (hl : events.length ≤ limit)
    (hv : (verifyEvents N env limit events).valid = true) (hd : (rest ++ removed).Perm events) :
    (verifyEvents N env limit rest).valid = true ↔
      ∃ t, t <:+ (orderEventsByChain events).events ∧ removed.Perm t := by
  obtain ⟨_, hpl, hc, _⟩ := chain_of_valid hl hv
  have hall : (rest ++ removed).Perm (orderEventsByChain events).events := hd.trans hpl.symm
  constructor
  · intro h
    have hlen : rest.length ≤ limit := by
      have := hd.length_eq
      rw [List.length_append] at this
      omega
    obtain ⟨m, hm, t, ht⟩ := prefix_of_valid hc (fun e he => hall.subset (List.mem_append_left _ he)) hlen h
    refine ⟨t, ⟨m, ht⟩, ?_⟩
    rw [← ht] at hall
    exact (List.perm_append_left_iff m).mp ((hm.append_right removed).trans hall)
  · rintro ⟨t, ⟨m, hmt⟩, ht⟩
    refine valid_of_prefix hv hl (m := m) ⟨t, hmt⟩ ?_ ?_
    · rw [← hmt] at hall
      exact ((List.perm_append_right_iff t).mp ((ht.symm.append_left rest).trans hall)).symm
    · exact (List.sublist_append_left rest removed).subperm.trans hd.subperm

theorem verifyEvents_deletion_iff_sample :
    (verifyEvents sampleNode noEnv 2 [sampleFirst]).valid = true ↔
      ∃ t, t <:+ (orderEventsByChain sampleEvents).events ∧ [sampleSecond].Perm t :=
  verifyEvents_deletion_iff (by decide) sample_valid (List.Perm.refl [sampleFirst, sampleSecond])

end

/-! ## What two contents with one payload look like -/

/-- The segments of the payload: the label of each field with the text it is rendered to. -/
def segments (content : AuditContent) : List (Delimited.Segment Char) :=
  (sortByKey (eventFields content)).map fun f => ((f.1 ++ "=").toList, f.2.render.toList)

def fieldNames : List String :=
  ["eventId", "timestamp", "actorId", "actorRoles", "action", "resourceType", "resourceId",
    "result", "reason", "ip", "traceId", "metadata"]

def labels : List (List Char) := fieldNames.map fun k => (k ++ "=").toList

theorem labels_ok : Delimited.Labels '|' (· ∈ labels) where
  free := by decide
  nonempty := by decide
  prefixFree := by
    have h : ∀ a ∈ labels, ∀ b ∈ labels, a <+: b → a = b := by decide
    exact fun a b ha hb => h a ha b hb

theorem eventFields_names (content : AuditContent) : ∀ f ∈ eventFields content, f.1 ∈ fieldNames := by
  intro f hf
  have hk : f.1 ∈ (eventFields content).map Prod.fst := List.mem_map_of_mem hf
  have hsub : (eventFields content).map Prod.fst ⊆ fieldNames := by
    unfold eventFields metadataField
    cases canonicalMetadata content.metadata with
    | none => exact (by decide : fieldNames.dropLast ⊆ fieldNames)
    | some t => exact List.Subset.refl fieldNames
  exact hsub hk

theorem segments_labels (content : AuditContent) : ∀ x ∈ segments content, x.1 ∈ labels := by
  intro x hx
  obtain ⟨f, hf, rfl⟩ := List.mem_map.mp hx
  have hf : f ∈ eventFields content := (List.perm_insertionSort _ _).subset hf
  exact List.mem_map_of_mem (eventFields_names content f hf)

theorem intercalate_eq_render : ∀ (l : List (Delimited.Segment Char)),
    ['|'].intercalate (l.map fun x => x.1 ++ x.2) = Delimited.render '|' l
  | [] => rfl
  | [x] => by simp [Delimited.render, Delimited.tail]
  | x :: y :: l => by
    have ih := intercalate_eq_render (y :: l)
    rw [List.map_cons] at ih
    rw [List.map_cons, List.map_cons, List.intercalate_cons_cons, ih]
    simp [Delimited.render, Delimited.tail]

theorem payload_toList (content : AuditContent) :
    (buildCanonicalPayload (eventFields content)).toList = Delimited.render '|' (segments content) := by
  rw [buildCanonicalPayload, join, String.toList_intercalate, ← intercalate_eq_render, segments, List.map_map,
    List.map_map]
  congr 1
  refine List.map_congr_left fun f _ => ?_
  simp

theorem payload_eq_iff (content content' : AuditContent) :
    buildCanonicalPayload (eventFields content) = buildCanonicalPayload (eventFields content') ↔
      Delimited.Recut '|' (segments content) (segments content') := by
  rw [← String.toList_inj, payload_toList, payload_toList,
    Delimited.render_eq_iff labels_ok (segments_labels content) (segments_labels content')]

/-! ## Alteration -/

def AuditEvent.withContent (event : AuditEvent) (content : AuditContent) : AuditEvent :=
  { event with toAuditContent := content }

section
variable {N : Node} {env : Env} {limit : Nat}

theorem verified_alter_iff (hN : Function.Injective N.sha256) {e : AuditEvent} {content : AuditContent}
    {post : List AuditEvent} : ∀ {pre : List AuditEvent} {last : Nullable String},
    Verified N env last (pre ++ e :: post) →
      (Verified N env last (pre ++ e.withContent content :: post) ↔
        buildCanonicalPayload (eventFields e.toAuditContent) = buildCanonicalPayload (eventFields content))
  | [], last, h => by
    obtain ⟨hh, hp, hs, hrest⟩ := h
    have hiff := computeHash_inj hN last.toOption (buildCanonicalPayload (eventFields e.toAuditContent))
      (buildCanonicalPayload (eventFields content))
    constructor
    · rintro ⟨hh', _⟩
      exact hiff.mp (Nullable.val.inj (hh.symm.trans hh'))
    · intro heq
      exact ⟨hh.trans (congrArg Nullable.val (hiff.mpr heq)), hp, hs, hrest⟩
  | x :: pre, last, h => by
    have ih : Verified N env x.hash (pre ++ e.withContent content :: post) ↔ _ := verified_alter_iff hN h.2.2.2
    constructor
    · rintro ⟨_, _, _, h'⟩; exact ih.mp h'
    · intro heq; exact ⟨h.1, h.2.1, h.2.2.1, ih.mpr heq⟩

theorem nodup_alter_iff {e e' : AuditEvent} {events altered rest : List AuditEvent} (hp : events.Perm (e :: rest))
    (hp' : altered.Perm (e' :: rest)) (h : (events.map eventIdentity).Nodup) :
    (altered.map eventIdentity).Nodup ↔ ∀ x ∈ rest, eventIdentity x ≠ eventIdentity e' := by
  rw [(hp.map eventIdentity).nodup_iff, List.map_cons, List.nodup_cons] at h
  rw [(hp'.map eventIdentity).nodup_iff, List.map_cons, List.nodup_cons]
  constructor
  · rintro ⟨hm, _⟩ x hx heq
    exact hm (heq ▸ List.mem_map_of_mem hx)
  · intro hne
    refine ⟨fun hm => ?_, h.2⟩
    obtain ⟨x, hx, heq⟩ := List.mem_map.mp hm
    exact hne x hx heq

theorem perm_alter {e e' : AuditEvent} {l₁ l₂ rest : List AuditEvent} (hp : (l₁ ++ e :: l₂).Perm (e :: rest)) :
    (l₁ ++ e' :: l₂).Perm (e' :: rest) :=
  List.perm_middle.trans ((List.perm_middle.symm.trans hp).cons_inv.cons e')

theorem order_alter {e : AuditEvent} {content : AuditContent} {l₁ l₂ l' rest : List AuditEvent}
    (hl : AuditChain (l₁ ++ e :: l₂)) (hp : (l₁ ++ e :: l₂).Perm (e :: rest)) (hl' : AuditPath l')
    (hp' : l'.Perm (e.withContent content :: rest)) : l' = l₁ ++ e.withContent content :: l₂ := by
  have hc : AuditChain (l₁ ++ e.withContent content :: l₂) := hl.congr (by simp; rfl) (by simp; rfl)
  have hperm : (l₁ ++ e.withContent content :: l₂).Perm l' := (perm_alter hp).trans hp'.symm
  exact (hc.prefix_of_path hl' fun a ha => hperm.symm.subset ha).eq_of_length hperm.length_eq.symm

/-- A replaced content is reported, unless its payload is written the same and
its identity is no other record's, in whatever order the records are read. -/
theorem verifyEvents_alteration_iff (hN : Function.Injective N.sha256) {e : AuditEvent}
    {events altered rest : List AuditEvent} (hl : events.length ≤ limit)
    (hv : (verifyEvents N env limit events).valid = true) (he : events.Perm (e :: rest)) {content : AuditContent}
    (ha : altered.Perm (e.withContent content :: rest)) :
    (verifyEvents N env limit altered).valid = false ↔
      ¬ Delimited.Recut '|' (segments e.toAuditContent) (segments content) ∨
        ∃ x ∈ rest, eventIdentity x = eventIdentity (e.withContent content) := by
  have hl' : altered.length ≤ limit := by
    rw [ha.length_eq, List.length_cons, ← List.length_cons (a := e), ← he.length_eq]
    exact hl
  obtain ⟨hn, l, hp, hc, hver⟩ := (verifyEvents_valid_iff hl).mp hv
  have hpe : l.Perm (e :: rest) := hp.trans he
  obtain ⟨l₁, l₂, rfl⟩ := List.append_of_mem (hpe.symm.subset (List.mem_cons_self ..))
  have hvalid : (verifyEvents N env limit altered).valid = true ↔
      (∀ x ∈ rest, eventIdentity x ≠ eventIdentity (e.withContent content)) ∧
        Delimited.Recut '|' (segments e.toAuditContent) (segments content) := by
    rw [verifyEvents_valid_iff hl', nodup_alter_iff he ha hn, ← payload_eq_iff]
    refine and_congr_right fun _ => ?_
    rw [← verified_alter_iff hN hver]
    constructor
    · rintro ⟨l', hp', hc', hver'⟩
      rw [order_alter hc hpe hc'.toPath (hp'.trans ha)] at hver'
      exact hver'
    · intro hver'
      exact ⟨_, (perm_alter hpe).trans ha.symm, hc.congr (by simp; rfl) (by simp; rfl), hver'⟩
  rw [← Bool.not_eq_true, hvalid, not_and_or]
  push Not
  exact or_comm

end

def deniedDownload : AuditContent := { sampleFirst.toAuditContent with result := "DENY" }

theorem verifyEvents_alteration_iff_sample :
    (verifyEvents sampleNode noEnv 2 [sampleSecond, sampleFirst.withContent deniedDownload]).valid = false ↔
      ¬ Delimited.Recut '|' (segments sampleFirst.toAuditContent) (segments deniedDownload) ∨
        ∃ x ∈ [sampleSecond], eventIdentity x = eventIdentity (sampleFirst.withContent deniedDownload) :=
  verifyEvents_alteration_iff sampleNode_injective (by decide) sample_valid
    (List.Perm.refl [sampleFirst, sampleSecond]) (List.Perm.swap ..)

def hiddenMetadata : AuditContent :=
  { sampleFirst.toAuditContent with
    ip := some "10.0.0.7|metadata=\x7b\"classification\":\"SECRET\"\x7d"
    metadata := none }

theorem verifyEvents_alteration_missed :
    ¬ ∀ (N : Node) (env : Env) (limit : Nat) (events altered rest : List AuditEvent) (e : AuditEvent)
      (content : AuditContent),
      Function.Injective N.sha256 → events.length ≤ limit → (verifyEvents N env limit events).valid = true →
      events.Perm (e :: rest) → altered.Perm (e.withContent content :: rest) → content ≠ e.toAuditContent →
      (verifyEvents N env limit altered).valid = false := by
  intro h
  have hne : hiddenMetadata ≠ sampleFirst.toAuditContent :=
    fun he => absurd (congrArg AuditContent.ip he) (by decide)
  have := h sampleNode noEnv 2 sampleEvents [sampleFirst.withContent hiddenMetadata, sampleSecond]
    [sampleSecond] sampleFirst
    hiddenMetadata sampleNode_injective (by decide) sample_valid (List.Perm.refl _) (List.Perm.refl _) hne
  revert this
  decide +kernel

end DocVault
