import DocVault.BehaviorSignals

/-!
# What the drill-down of a signal shows

A signal counts events of one actor, and its audit filters select events of that
actor between the first and the last one that was loaded. The two agree for
every signal but `DENY_BURST`, whose filters go by the result alone.
-/

namespace DocVault

def BehaviorSignalType.counts : BehaviorSignalType → AuditEvent → Bool
  | MASS_CONTENT_ACCESS, event => event.action ∈ AUTHORIZED_CONTENT_ACTIONS
  | DENY_BURST, event => isDeniedSecurityEvent event
  | DESTRUCTIVE_ACTIVITY, event => isDestructiveAction event.action

def BehaviorSignalType.selects : BehaviorSignalType → AuditEvent → Prop
  | MASS_CONTENT_ACCESS, event => event.action ∈ AUTHORIZED_CONTENT_ACTIONS
  | DENY_BURST, event => event.result = "DENY"
  | DESTRUCTIVE_ACTIVITY, event => event.action ∈ DESTRUCTIVE_ACTIVITY_ACTIONS

def countedEvents (loaded : List AuditEvent) (signal : BehaviorSignalSummary) : List AuditEvent :=
  loaded.filter fun event => event.actorId = signal.actorId && signal.type.counts event

/-- The filters of the signal select the events of the store that it counts, as many as it says. -/
structure ShowsCounted (N : Node) (store loaded : List AuditEvent) (signal : BehaviorSignalSummary) : Prop where
  shown : ∃ filter, queryFilter N (getBehaviorSignalAuditFilters signal) = .ok filter ∧
    (store.filter (matchesFilter filter)).Perm (countedEvents loaded signal) ∧
    (store.filter (matchesFilter filter)).length = signal.actionCount

/-- The event is between two loaded events of the actor. -/
def Between (windowStart : JsDate) (store : List AuditEvent) (actorId : String) (event : AuditEvent) : Prop :=
  ∃ a ∈ recentEvents windowStart store, ∃ b ∈ recentEvents windowStart store,
    a.actorId = actorId ∧ b.actorId = actorId ∧
      a.timestamp.le event.timestamp = true ∧ event.timestamp.le b.timestamp = true

/-- Between the loaded events of the actor, the action and the result of an event tell the same. -/
def DeniesAgree (windowStart : JsDate) (store : List AuditEvent) (actorId : String) : Prop :=
  ∀ event ∈ store, event.actorId = actorId → Between windowStart store actorId event →
    (event.result = "DENY" → event.action ∈ BEHAVIOR_SIGNAL_ACTIONS) ∧
      (event.action = "DOCUMENT_DOWNLOAD_DENIED" ∨ event.action = "DOCUMENT_METADATA_READ_DENIED" →
        event.result = "DENY")

/-! ## Buckets -/

structure Ends (dates : List JsDate) (first last : JsDate) : Prop where
  first_mem : first ∈ dates
  last_mem : last ∈ dates
  between : ∀ d ∈ dates, first.ms ≤ d.ms ∧ d.ms ≤ last.ms

namespace BehaviorBucket

def count (bucket : BehaviorBucket) : BehaviorSignalType → Nat
  | .MASS_CONTENT_ACCESS => bucket.contentAccessCount
  | .DENY_BURST => bucket.denyCount
  | .DESTRUCTIVE_ACTIVITY => bucket.destructiveCount

section
variable (N : Node) (bucket : BehaviorBucket) (event : AuditEvent)

theorem add_count (type : BehaviorSignalType) :
    (bucket.add N event).count type = bucket.count type + if type.counts event then 1 else 0 := by
  unfold add
  by_cases hc : event.action ∈ AUTHORIZED_CONTENT_ACTIONS <;> by_cases hd : isDeniedSecurityEvent event = true <;>
    by_cases hx : isDestructiveAction event.action = true <;>
    cases type <;> simp [hc, hd, hx, count, BehaviorSignalType.counts, widen, addContent, addDeny, addDestructive]

theorem add_frame : (bucket.add N event).actorId = bucket.actorId ∧
    (bucket.add N event).windowStartedAt = (bucket.widen (toEventDate N event.timestamp)).windowStartedAt ∧
    (bucket.add N event).windowEndedAt = (bucket.widen (toEventDate N event.timestamp)).windowEndedAt := by
  unfold add
  by_cases hc : event.action ∈ AUTHORIZED_CONTENT_ACTIONS <;> by_cases hd : isDeniedSecurityEvent event = true <;>
    by_cases hx : isDestructiveAction event.action = true <;>
    simp [hc, hd, hx, widen, addContent, addDeny, addDestructive]

end

section
variable {N : Node} {bucket : BehaviorBucket}

theorem widen_ends {dates : List JsDate} (h : Ends dates bucket.windowStartedAt bucket.windowEndedAt) (d : JsDate) :
    Ends (dates ++ [d]) (bucket.widen d).windowStartedAt (bucket.widen d).windowEndedAt := by
  have hd : d ∈ dates ++ [d] := List.mem_append_right _ List.mem_cons_self
  have hspan := h.between _ h.first_mem
  simp only [widen]
  constructor
  · by_cases hlt : d.ms < bucket.windowStartedAt.ms
    · simpa only [if_pos hlt] using hd
    · simpa only [if_neg hlt] using List.mem_append_left _ h.first_mem
  · by_cases hgt : d.ms > bucket.windowEndedAt.ms
    · simpa only [if_pos hgt] using hd
    · simpa only [if_neg hgt] using List.mem_append_left _ h.last_mem
  · intro t ht
    have hcase : (bucket.windowStartedAt.ms ≤ t.ms ∧ t.ms ≤ bucket.windowEndedAt.ms) ∨ t = d := by
      rcases List.mem_append.mp ht with ht | ht
      · exact .inl (h.between t ht)
      · exact .inr (List.mem_singleton.mp ht)
    have hstart : (if d.ms < bucket.windowStartedAt.ms then d else bucket.windowStartedAt).ms ≤ t.ms := by
      rcases hcase with hin | rfl
      · split <;> omega
      · split <;> omega
    have hend : t.ms ≤ (if d.ms > bucket.windowEndedAt.ms then d else bucket.windowEndedAt).ms := by
      rcases hcase with hin | rfl
      · split <;> omega
      · split <;> omega
    exact ⟨hstart, hend⟩

theorem start_ends (N : Node) (event : AuditEvent) :
    Ends [toEventDate N event.timestamp] (start N event).windowStartedAt (start N event).windowEndedAt := by
  refine ⟨List.mem_singleton.mpr rfl, List.mem_singleton.mpr rfl, fun d hd => ?_⟩
  rw [List.mem_singleton.mp hd]
  exact ⟨Int.le_refl _, Int.le_refl _⟩

theorem foldl_count (type : BehaviorSignalType) (events : List AuditEvent) :
    (events.foldl (add N) bucket).count type = bucket.count type + events.countP type.counts := by
  induction events generalizing bucket with
  | nil => rfl
  | cons event events ih =>
    rw [List.foldl_cons, ih, add_count, List.countP_cons]
    omega

theorem foldl_frame (events : List AuditEvent) {dates : List JsDate}
    (h : Ends dates bucket.windowStartedAt bucket.windowEndedAt) :
    (events.foldl (add N) bucket).actorId = bucket.actorId ∧
      Ends (dates ++ events.map fun event => toEventDate N event.timestamp)
        (events.foldl (add N) bucket).windowStartedAt (events.foldl (add N) bucket).windowEndedAt := by
  induction events generalizing bucket dates with
  | nil => exact ⟨rfl, by simpa using h⟩
  | cons event events ih =>
    obtain ⟨hactor, hstart, hend⟩ := add_frame N bucket event
    have hwider := widen_ends h (toEventDate N event.timestamp)
    rw [← hstart, ← hend] at hwider
    obtain ⟨hactor', hends⟩ := ih hwider
    rw [List.append_assoc] at hends
    exact ⟨hactor'.trans hactor, hends⟩

end

end BehaviorBucket

/-! ## Signals -/

def eventsOf (loaded : List AuditEvent) (actorId : String) : List AuditEvent :=
  loaded.filter fun event => event.actorId = actorId

/-- What a bucket says of the loaded events. -/
structure BucketOf (N : Node) (loaded : List AuditEvent) (bucket : BehaviorBucket) : Prop where
  nonBlank : bucket.actorId ≠ ""
  count : ∀ type, bucket.count type = (eventsOf loaded bucket.actorId).countP type.counts
  window : Ends ((eventsOf loaded bucket.actorId).map fun event => toEventDate N event.timestamp)
    bucket.windowStartedAt bucket.windowEndedAt

section
variable {N : Node} {loaded store : List AuditEvent} {signal : BehaviorSignalSummary} {windowStart : JsDate}

theorem eventsOf_nonBlank {actorId : String} (h : actorId ≠ "") :
    (loaded.filter (·.actorId ≠ "")).filter (fun e => e.actorId = actorId) = eventsOf loaded actorId := by
  rw [List.filter_filter]
  apply List.filter_congr
  intro e _
  by_cases he : e.actorId = actorId
  · simp [he, h]
  · simp [he]

theorem bucketOf {row : String × BehaviorBucket} (h : row ∈ behaviorBuckets N loaded) :
    BucketOf N loaded row.2 := by
  obtain ⟨k, bucket⟩ := row
  have htotal := (Buckets.collect_holds _).totals k bucket |>.mp h
  obtain ⟨event, hevent, rfl⟩ := Buckets.total_mem htotal
  obtain ⟨hmem, hk⟩ := List.mem_filter.mp hevent
  obtain ⟨-, hblank⟩ := List.mem_filter.mp hmem
  simp only [decide_eq_true_eq] at hk hblank
  subst hk
  rw [eventsOf_nonBlank hblank] at hevent ⊢
  obtain ⟨hactor, hends⟩ :=
    BehaviorBucket.foldl_frame (eventsOf loaded event.actorId) (BehaviorBucket.start_ends N event)
  have hactor' : ((eventsOf loaded event.actorId).foldl (BehaviorBucket.add N)
    (BehaviorBucket.start N event)).actorId =
      event.actorId := hactor
  -- the first event of the bucket is among its events
  have hfirst : ∀ d, d ∈ [toEventDate N event.timestamp] ++
        (eventsOf loaded event.actorId).map (fun e => toEventDate N e.timestamp) →
      d ∈ (eventsOf loaded event.actorId).map fun e => toEventDate N e.timestamp := by
    intro d hd
    rcases List.mem_append.mp hd with hd | hd
    · rw [List.mem_singleton.mp hd]
      exact List.mem_map.mpr ⟨event, hevent, rfl⟩
    · exact hd
  refine ⟨fun h => hblank (hactor'.symm.trans h), fun type => ?_, ?_⟩
  · rw [hactor', BehaviorBucket.foldl_count]
    cases type <;> simp [BehaviorBucket.count, BehaviorBucket.start]
  · rw [hactor']
    exact ⟨hfirst _ hends.first_mem, hfirst _ hends.last_mem, fun d hd =>
      hends.between d (List.mem_append_right _ hd)⟩

theorem mem_buildBehaviorSignals {bucket : BehaviorBucket} (h : signal ∈ buildBehaviorSignals bucket) :
    signal.actorId = bucket.actorId ∧ signal.actionCount = bucket.count signal.type ∧
      signal.windowStartedAt = bucket.windowStartedAt.toISOString ∧
      signal.windowEndedAt = bucket.windowEndedAt.toISOString := by
  have hcase : signal = massContentAccess bucket ∨ signal = denyBurst bucket ∨
    signal = destructiveActivity bucket := by
    simp only [buildBehaviorSignals, List.mem_append, List.mem_ite_nil_right, List.mem_singleton] at h
    rcases h with (h | h) | h
    · exact .inl h.2
    · exact .inr (.inl h.2)
    · exact .inr (.inr h.2)
  rcases hcase with rfl | rfl | rfl
  · exact ⟨rfl, rfl, rfl, rfl⟩
  · exact ⟨rfl, rfl, rfl, rfl⟩
  · exact ⟨rfl, rfl, rfl, rfl⟩

structure SignalOf (N : Node) (loaded : List AuditEvent) (signal : BehaviorSignalSummary)
    (first last : JsDate) : Prop where
  nonBlank : signal.actorId ≠ ""
  count : signal.actionCount = (countedEvents loaded signal).length
  started : signal.windowStartedAt = first.toISOString
  ended : signal.windowEndedAt = last.toISOString
  window : Ends ((eventsOf loaded signal.actorId).map fun event => toEventDate N event.timestamp) first last

theorem signalOf (h : signal ∈ behaviorSignals N loaded) : ∃ first last, SignalOf N loaded signal first last := by
  obtain ⟨row, hrow, hsignal⟩ := List.mem_flatMap.mp h
  have hbucket := bucketOf hrow
  obtain ⟨hactor, hcount, hstart, hend⟩ := mem_buildBehaviorSignals hsignal
  refine ⟨row.2.windowStartedAt, row.2.windowEndedAt, hactor ▸ hbucket.nonBlank, ?_, hstart, hend,
    hactor ▸ hbucket.window⟩
  have hboth : ∀ event : AuditEvent, (decide (event.actorId = signal.actorId) && signal.type.counts event) =
      (signal.type.counts event && decide (event.actorId = signal.actorId)) := fun event => Bool.and_comm _ _
  rw [hcount, hbucket.count, ← hactor, countedEvents, eventsOf, List.countP_filter, List.countP_eq_length_filter]
  simp only [hboth]

/-! ## Drill-downs -/

theorem loaded_iff (windowStart : JsDate) (event : AuditEvent) :
    matchesFilter (behaviorFilter windowStart) event = true ↔
      event.action ∈ BEHAVIOR_SIGNAL_ACTIONS ∧ ∃ t, event.timestamp = .date t ∧ windowStart.ms ≤ t.ms := by
  simp only [matchesFilter, behaviorFilter, Filters.accepts_fields, List.all_cons, List.all_nil, Bool.and_true,
    Bool.and_eq_true, Filters.Test.accepts, auditDoc_paths event, List.any_cons, List.any_nil, Bool.or_false,
    decide_eq_true_eq, Option.all_some, Option.all_none, List.any_eq_true, le_date, List.mem_map, Scalar.text.injEq,
    exists_eq_right]
  apply and_congr_right
  intro _
  constructor
  · intro h
    obtain ⟨x, hx, t, ht, hle⟩ := h
    rw [ht] at hx
    exact ⟨t, mem_values.mp hx, hle⟩
  · intro h
    obtain ⟨t, ht, hle⟩ := h
    exact ⟨.date t, mem_values.mpr ht, t, rfl, hle⟩

def windowQuery (type : BehaviorSignalType) (actorId : String) (first last : JsDate) : QueryAuditDto where
  actorId := some actorId
  from_ := some first.toISOString
  to_ := some last.toISOString
  actionGroup := match type with
    | .MASS_CONTENT_ACCESS => some .AUTHORIZED_CONTENT_ACCESS
    | .DENY_BURST => none
    | .DESTRUCTIVE_ACTIVITY => some .DESTRUCTIVE_ACTIVITY
  result := match type with
    | .DENY_BURST => some "DENY"
    | _ => none

theorem filters_window {first last : JsDate} (h : SignalOf N loaded signal first last) :
    getBehaviorSignalAuditFilters signal = windowQuery signal.type signal.actorId first last := by
  unfold getBehaviorSignalAuditFilters
  rw [h.started, h.ended]
  cases signal.type <;> rfl

theorem truthy_text {text : String} (h : text ≠ "") : truthy (some text) = some text :=
  truthy_eq fun _ hv => Option.some.inj hv ▸ h

theorem windowQuery_nonBlank (type : BehaviorSignalType) {actorId : String}
    (h : actorId ≠ "") (first last : JsDate) :
    (windowQuery type actorId first last).nonBlank = windowQuery type actorId first last := by
  unfold QueryAuditDto.nonBlank windowQuery
  simp only [truthy_text h, truthy_text (toISOString_ne_empty first), truthy_text (toISOString_ne_empty last)]
  cases type <;> rfl

theorem satisfies_window (hiso : ∀ d : JsDate, N.newDate d.toISOString = some d) (type : BehaviorSignalType)
    (actorId : String) (first last : JsDate) (event : AuditEvent) :
    Satisfies N (windowQuery type actorId first last) event ↔ event.actorId = actorId ∧
      (∃ t, event.timestamp = .date t ∧ first.ms ≤ t.ms ∧ t.ms ≤ last.ms) ∧ type.selects event := by
  constructor
  · intro h
    obtain ⟨d, t, hd, ht, hle⟩ := h.from_ _ rfl
    obtain ⟨d', t', hd', ht', hle'⟩ := h.to_ _ rfl
    obtain rfl := Option.some.inj ((hiso first).symm.trans hd)
    obtain rfl := Option.some.inj ((hiso last).symm.trans hd')
    obtain rfl := Stamp.date.inj (ht.symm.trans ht')
    refine ⟨h.actorId _ rfl, ⟨t, ht, hle, hle'⟩, ?_⟩
    cases type with
    | MASS_CONTENT_ACCESS => exact h.actionGroup _ rfl
    | DENY_BURST => exact h.result _ rfl
    | DESTRUCTIVE_ACTIVITY => exact h.actionGroup _ rfl
  · intro ⟨hactor, ⟨t, ht, hle, hle'⟩, hselects⟩
    refine ⟨⟨fun v hv => hactor.trans (Option.some.inj hv), nofun, ?_, nofun, nofun, ?_,
      nofun, nofun, nofun⟩, ?_, ?_,
      nofun⟩
    · intro group hgroup
      cases type with
      | MASS_CONTENT_ACCESS => exact Option.some.inj hgroup ▸ hselects
      | DENY_BURST => cases hgroup
      | DESTRUCTIVE_ACTIVITY => exact Option.some.inj hgroup ▸ hselects
    · intro result hresult
      cases type with
      | MASS_CONTENT_ACCESS => cases hresult
      | DENY_BURST => exact Option.some.inj hresult ▸ hselects
      | DESTRUCTIVE_ACTIVITY => cases hresult
    · intro v hv
      obtain rfl := Option.some.inj hv
      exact ⟨first, t, hiso first, ht, hle⟩
    · intro v hv
      obtain rfl := Option.some.inj hv
      exact ⟨last, t, hiso last, ht, hle'⟩

/-- The filters of a signal select the events of its actor in its window by its type. -/
theorem selects_iff (hiso : ∀ d : JsDate, N.newDate d.toISOString = some d) {first last : JsDate}
    (h : SignalOf N loaded signal first last) :
    ∃ filter, queryFilter N (getBehaviorSignalAuditFilters signal) = .ok filter ∧
      ∀ event, matchesFilter filter event = true ↔ event.actorId = signal.actorId ∧
        (∃ t, event.timestamp = .date t ∧ first.ms ≤ t.ms ∧ t.ms ≤ last.ms) ∧ signal.type.selects event := by
  have hblank := windowQuery_nonBlank signal.type h.nonBlank first last
  have hgte : dateOf N (truthy (windowQuery signal.type signal.actorId first last).from_) =
    .ok (some (.date first)) := by
    have hfrom : (windowQuery signal.type signal.actorId first last).from_ = some first.toISOString := rfl
    rw [hfrom, truthy_text (toISOString_ne_empty first), dateOf, hiso]
  have hlte : dateOf N (truthy (windowQuery signal.type signal.actorId first last).to_) =
    .ok (some (.date last)) := by
    have hto : (windowQuery signal.type signal.actorId first last).to_ = some last.toISOString := rfl
    rw [hto, truthy_text (toISOString_ne_empty last), dateOf, hiso]
  obtain ⟨filter, hfilter⟩ := queryFilter_ok hgte hlte
  rw [filters_window h]
  refine ⟨filter, hfilter, fun event => ?_⟩
  rw [builds_query hfilter event, hblank, satisfies_window hiso]

theorem between_iff {first last : JsDate} (hloaded : loaded.Perm (recentEvents windowStart store))
    (h : SignalOf N loaded signal first last) (event : AuditEvent) :
    Between windowStart store signal.actorId event ↔
      ∃ t, event.timestamp = .date t ∧ first.ms ≤ t.ms ∧ t.ms ≤ last.ms := by
  have hstamp : ∀ e ∈ recentEvents windowStart store, e.actorId = signal.actorId →
      ∃ t, e.timestamp = .date t ∧ first.ms ≤ t.ms ∧ t.ms ≤ last.ms := fun e he hactor => by
    obtain ⟨-, t, ht, -⟩ := (loaded_iff windowStart e).mp (List.mem_filter.mp he).2
    have hin : e ∈ eventsOf loaded signal.actorId :=
      List.mem_filter.mpr ⟨hloaded.symm.subset he, by simpa using hactor⟩
    have hends := h.window.between _ (List.mem_map.mpr ⟨e, hin, rfl⟩)
    rw [ht] at hends
    exact ⟨t, ht, hends⟩
  have hevent : ∀ d, d ∈ (eventsOf loaded signal.actorId).map (fun e => toEventDate N e.timestamp) →
      ∃ e ∈ recentEvents windowStart store, e.actorId = signal.actorId ∧ e.timestamp = .date d :=
      fun d hd => by
    obtain ⟨e, he, rfl⟩ := List.mem_map.mp hd
    obtain ⟨he, hactor⟩ := List.mem_filter.mp he
    have hin := hloaded.subset he
    obtain ⟨-, t, ht, -⟩ := (loaded_iff windowStart e).mp (List.mem_filter.mp hin).2
    exact ⟨e, hin, by simpa using hactor, by rw [ht]; rfl⟩
  constructor
  · intro hbetween
    obtain ⟨a, ha, b, hb, hactorA, hactorB, hle, hle'⟩ := hbetween
    obtain ⟨s, hs, hfirst, -⟩ := hstamp a ha hactorA
    obtain ⟨u, hu, -, hlast⟩ := hstamp b hb hactorB
    rw [hs] at hle
    rw [hu] at hle'
    cases ht : event.timestamp with
    | missing => rw [ht] at hle; cases hle
    | text v => rw [ht] at hle; cases hle
    | date t =>
      rw [ht] at hle hle'
      simp only [Stamp.le, decide_eq_true_eq] at hle hle'
      exact ⟨t, rfl, by omega, by omega⟩
  · intro hwindow
    obtain ⟨t, ht, hfirst, hlast⟩ := hwindow
    obtain ⟨a, ha, hactorA, hs⟩ := hevent first h.window.first_mem
    obtain ⟨b, hb, hactorB, hu⟩ := hevent last h.window.last_mem
    refine ⟨a, ha, b, hb, hactorA, hactorB, ?_, ?_⟩
    · rw [hs, ht]
      exact decide_eq_true hfirst
    · rw [hu, ht]
      exact decide_eq_true hlast

theorem filter_perm_iff {α : Type} {l : List α} {p q : α → Bool} :
    (l.filter p).Perm (l.filter q) ↔ ∀ x ∈ l, p x = true ↔ q x = true := by
  constructor
  · intro h x hx
    have hmem := h.mem_iff (a := x)
    simpa [List.mem_filter, hx] using hmem
  · intro h
    rw [List.filter_congr fun x hx => Bool.eq_iff_iff.mpr (h x hx)]

/-- What a signal counts beside the action is told by its action. -/
theorem selects_loaded (type : BehaviorSignalType) (h : type ≠ .DENY_BURST) (event : AuditEvent) :
    type.selects event ↔ event.action ∈ BEHAVIOR_SIGNAL_ACTIONS ∧ type.counts event = true := by
  cases type with
  | MASS_CONTENT_ACCESS =>
    simp only [BehaviorSignalType.selects, BehaviorSignalType.counts, decide_eq_true_eq]
    refine ⟨fun hin => ⟨?_, hin⟩, fun hin => hin.2⟩
    exact List.mem_append_left _ (List.mem_append_left _ (List.mem_append_left _ hin))
  | DENY_BURST => exact absurd rfl h
  | DESTRUCTIVE_ACTIVITY =>
    have hsame : isDestructiveAction event.action = true ↔ event.action ∈ DESTRUCTIVE_ACTIVITY_ACTIONS := by
      simp [isDestructiveAction, DESTRUCTIVE_ACTIVITY_ACTIONS, or_assoc]
    simp only [BehaviorSignalType.selects, BehaviorSignalType.counts, hsame]
    refine ⟨fun hin => ⟨?_, hin⟩, fun hin => hin.2⟩
    exact List.mem_append_left _ (List.mem_append_right _ hin)

theorem selects_denied (event : AuditEvent) :
    (BehaviorSignalType.DENY_BURST.selects event ↔
      event.action ∈ BEHAVIOR_SIGNAL_ACTIONS ∧ BehaviorSignalType.DENY_BURST.counts event = true) ↔
    (event.result = "DENY" → event.action ∈ BEHAVIOR_SIGNAL_ACTIONS) ∧
      (event.action = "DOCUMENT_DOWNLOAD_DENIED" ∨ event.action = "DOCUMENT_METADATA_READ_DENIED" →
        event.result = "DENY") := by
  have hdenied : event.action = "DOCUMENT_DOWNLOAD_DENIED" ∨ event.action = "DOCUMENT_METADATA_READ_DENIED" →
      event.action ∈ BEHAVIOR_SIGNAL_ACTIONS := by
    rintro (h | h)
    · rw [h]
      decide
    · rw [h]
      decide
  simp only [BehaviorSignalType.selects, BehaviorSignalType.counts, isDeniedSecurityEvent, Bool.or_eq_true,
    decide_eq_true_eq, or_assoc]
  constructor
  · intro h
    exact ⟨fun hr => (h.mp hr).1, fun ha => h.mpr ⟨hdenied ha, .inr ha⟩⟩
  · intro ⟨hr, ha⟩
    refine ⟨fun hd => ⟨hr hd, .inl hd⟩, ?_⟩
    rintro ⟨-, hd | hd⟩
    · exact hd
    · exact ha hd

theorem Between.of_recent {event : AuditEvent} (h : event ∈ recentEvents windowStart store) :
    Between windowStart store event.actorId event := by
  have hself := Stamp.le_total event.timestamp event.timestamp
  exact ⟨event, h, event, h, rfl, rfl, hself.elim id id, hself.elim id id⟩

theorem Between.loaded_iff {actorId : String} {event : AuditEvent} (h : Between windowStart store actorId event) :
    matchesFilter (behaviorFilter windowStart) event = true ↔ event.action ∈ BEHAVIOR_SIGNAL_ACTIONS := by
  obtain ⟨a, ha, -, -, -, -, hle, -⟩ := h
  obtain ⟨-, s, hs, hstart⟩ := (DocVault.loaded_iff windowStart a).mp (List.mem_filter.mp ha).2
  rw [DocVault.loaded_iff]
  rw [hs] at hle
  cases ht : event.timestamp with
  | missing => rw [ht] at hle; cases hle
  | text v => rw [ht] at hle; cases hle
  | date t =>
    rw [ht] at hle
    simp only [Stamp.le, decide_eq_true_eq] at hle
    exact ⟨fun hin => hin.1, fun hin => ⟨hin, t, rfl, by omega⟩⟩

/-- The drill-down of a signal shows what it counted, when and only when in its
window the type selects the loaded events that it counts. -/
theorem showsCounted_iff (hiso : ∀ d : JsDate, N.newDate d.toISOString = some d)
    (hloaded : loaded.Perm (recentEvents windowStart store))
    (hs : signal ∈ behaviorSignals N loaded) :
    ShowsCounted N store loaded signal ↔ ∀ event ∈ store, event.actorId = signal.actorId →
      Between windowStart store signal.actorId event →
        (signal.type.selects event ↔ event.action ∈ BEHAVIOR_SIGNAL_ACTIONS ∧ signal.type.counts event = true) := by
  obtain ⟨first, last, h⟩ := signalOf hs
  obtain ⟨filter, hfilter, hselects⟩ := selects_iff hiso h
  have hcounted : (countedEvents loaded signal).Perm (store.filter fun event =>
      (decide (event.actorId = signal.actorId) && signal.type.counts event) &&
        matchesFilter (behaviorFilter windowStart) event) := by
    rw [← List.filter_filter]
    exact hloaded.filter _
  -- an event that is counted is loaded, hence in the window
  have hpoint : ∀ event ∈ store, (matchesFilter filter event = true ↔
      ((decide (event.actorId = signal.actorId) && signal.type.counts event) &&
        matchesFilter (behaviorFilter windowStart) event) = true) ↔
      (event.actorId = signal.actorId → Between windowStart store signal.actorId event →
        (signal.type.selects event ↔
          event.action ∈ BEHAVIOR_SIGNAL_ACTIONS ∧ signal.type.counts event = true)) := by
    intro event hevent
    rw [hselects, ← between_iff hloaded h, Bool.and_eq_true, Bool.and_eq_true, decide_eq_true_eq]
    by_cases hactor : event.actorId = signal.actorId
    · by_cases hb : Between windowStart store signal.actorId event
      · simp only [hactor, hb, hb.loaded_iff, true_and, true_implies]
        rw [and_comm (a := signal.type.counts event = true)]
      · have hout : ¬ matchesFilter (behaviorFilter windowStart) event = true := fun hin =>
          hb (hactor ▸ Between.of_recent (List.mem_filter.mpr ⟨hevent, hin⟩))
        simp [hactor, hb, hout]
    · simp [hactor]
  constructor
  · intro hshown event hevent
    obtain ⟨filter', hfilter', hperm, -⟩ := hshown.shown
    obtain rfl := Except.ok.inj (hfilter.symm.trans hfilter')
    exact (hpoint event hevent).mp (filter_perm_iff.mp (hperm.trans hcounted) event hevent)
  · intro hall
    have hperm := (filter_perm_iff.mpr fun event hevent => (hpoint event hevent).mpr
      (hall event hevent)).trans hcounted.symm
    exact ⟨filter, hfilter, hperm, by rw [hperm.length_eq, h.count]⟩

end

/-- The drill-down of a signal shows exactly what the signal counted, except that
that of `DENY_BURST` needs action and result of the actor's events in the window to agree. -/
theorem signal_drill_down_iff {N : Node} (hiso : ∀ d : JsDate, N.newDate d.toISOString = some d)
    {sort : List AuditEvent → List AuditEvent} (hsort : ∀ l, Paging.Arranged Newer (sort l) l)
    (windowStart : JsDate) (store : List AuditEvent) (hcap : (recentEvents windowStart store).length ≤ 1000)
    {signal : BehaviorSignalSummary} (hs : signal ∈ behaviorSignals N (behaviorEvents sort windowStart store)) :
    ShowsCounted N store (behaviorEvents sort windowStart store) signal ↔
      (signal.type = .DENY_BURST → DeniesAgree windowStart store signal.actorId) := by
  have hloaded : (behaviorEvents sort windowStart store).Perm (recentEvents windowStart store) := by
    have hperm := (hsort (recentEvents windowStart store)).perm
    rw [behaviorEvents, List.take_of_length_le (by rwa [hperm.length_eq])]
    exact hperm
  rw [showsCounted_iff hiso hloaded hs]
  by_cases htype : signal.type = .DENY_BURST
  · simp only [htype, true_implies, selects_denied]
    rfl
  · simp only [htype, false_implies, iff_true]
    intro event _ _ _
    exact selects_loaded signal.type htype event

theorem mem_behaviorSignals {N : Node} {sort : List AuditEvent → List AuditEvent} {windowStart : JsDate}
    {store : List AuditEvent} {signal : BehaviorSignalSummary}
    (h : signal ∈ getBehaviorSignals N sort windowStart store) :
    signal ∈ behaviorSignals N (behaviorEvents sort windowStart store) :=
  (List.perm_insertionSort _ _).subset (List.mem_of_mem_take h)

def newestFirst (events : List AuditEvent) : List AuditEvent := events.insertionSort Newer

theorem newestFirst_arranged (events : List AuditEvent) : Paging.Arranged Newer (newestFirst events) events :=
  ⟨List.perm_insertionSort _ _, List.pairwise_insertionSort _ _⟩

def epochStart : JsDate := toEventDate sampleReader .missing

def deniedEvent (action : String) (minutes : Fin 60) : AuditEvent :=
  { sampleFirst with
    actorId := "viewer-1"
    action := action
    result := "DENY"
    timestamp := .date ⟨minutes * 60000, by omega⟩ }

def deniedDownloads : List AuditEvent :=
  [deniedEvent "DOCUMENT_DOWNLOAD_DENIED" 1, deniedEvent "DOCUMENT_METADATA_READ_DENIED" 2,
    deniedEvent "DOCUMENT_DOWNLOAD_DENIED" 3]

theorem burst_shows_counted :
    ∃ signal ∈ behaviorSignals sampleReader (behaviorEvents newestFirst epochStart deniedDownloads),
    ShowsCounted sampleReader deniedDownloads (behaviorEvents newestFirst epochStart deniedDownloads) signal := by
  have hsome : 0 <
    (behaviorSignals sampleReader (behaviorEvents newestFirst epochStart deniedDownloads)).length := by
    decide +kernel
  obtain ⟨signal, hs⟩ := List.exists_mem_of_length_pos hsome
  have hagree : ∀ event ∈ deniedDownloads, event.action ∈ BEHAVIOR_SIGNAL_ACTIONS ∧ event.result = "DENY" := by
    decide
  have hcap : (recentEvents epochStart deniedDownloads).length ≤ 1000 := by decide +kernel
  have hshows := signal_drill_down_iff sampleReader_iso.newDate newestFirst_arranged
    epochStart deniedDownloads hcap hs
  refine ⟨signal, hs, hshows.mpr fun _ event hevent _ _ => ?_⟩
  exact ⟨fun _ => (hagree event hevent).1, fun _ => (hagree event hevent).2⟩

def commentDenied : List AuditEvent := deniedEvent "COMMENT_UPDATE_DENIED" 2 :: deniedDownloads

-- The burst of three is shown as four.
theorem burst_shows_others :
    ∃ signal ∈ behaviorSignals sampleReader (behaviorEvents newestFirst epochStart commentDenied),
    ¬ ShowsCounted sampleReader commentDenied (behaviorEvents newestFirst epochStart commentDenied) signal := by
  have hsome : 0 < (behaviorSignals sampleReader (behaviorEvents newestFirst epochStart commentDenied)).length := by
    decide +kernel
  have hburst : ∀ signal ∈ behaviorSignals sampleReader (behaviorEvents newestFirst epochStart commentDenied),
      signal.type = .DENY_BURST ∧ signal.actorId = "viewer-1" := by
    decide +kernel
  obtain ⟨signal, hs⟩ := List.exists_mem_of_length_pos hsome
  obtain ⟨htype, hactor⟩ := hburst signal hs
  refine ⟨signal, hs, fun hshown => ?_⟩
  have hloaded : (behaviorEvents newestFirst epochStart commentDenied).Perm
      (recentEvents epochStart commentDenied) := by
    rw [behaviorEvents, List.take_of_length_le (by decide +kernel)]
    exact (newestFirst_arranged _).perm
  have hrecent : ∀ event ∈ commentDenied, matchesFilter (behaviorFilter epochStart) event = true →
      event ∈ recentEvents epochStart commentDenied := fun _ hevent hin => List.mem_filter.mpr ⟨hevent, hin⟩
  have hbetween : Between epochStart commentDenied "viewer-1" (deniedEvent "COMMENT_UPDATE_DENIED" 2) :=
    ⟨deniedEvent "DOCUMENT_DOWNLOAD_DENIED" 1,
      hrecent _ (by simp [commentDenied, deniedDownloads]) (by decide +kernel),
      deniedEvent "DOCUMENT_DOWNLOAD_DENIED" 3,
        hrecent _ (by simp [commentDenied, deniedDownloads]) (by decide +kernel),
      rfl, rfl, by decide, by decide⟩
  have hselects := (showsCounted_iff sampleReader_iso.newDate hloaded hs).mp hshown _ List.mem_cons_self hactor.symm
    (hactor ▸ hbetween)
  rw [htype] at hselects
  exact absurd (hselects.mp rfl).1 (by decide)

end DocVault
