import DocVault.AuditQuery
import DocVault.Paging

/-!
# Pages of the audit trail

`AuditService.query` sorts by the timestamp alone, and how the database arranges
events of one time is open in each call. The pages are a partition exactly when
no time is shared by events of different pages.
-/

namespace DocVault

theorem Stamp.le_total (a b : Stamp) : a.le b = true ∨ b.le a = true := by
  cases a with
  | missing => exact .inl rfl
  | text s =>
    cases b with
    | missing => exact .inr rfl
    | text t => simpa [Stamp.le] using String.le_total s t
    | date t => exact .inl rfl
  | date s =>
    cases b with
    | missing => exact .inr rfl
    | text t => exact .inr rfl
    | date t => simpa [Stamp.le] using Int.le_total s.ms t.ms

theorem Stamp.le_trans {a b c : Stamp} (h : a.le b = true) (h' : b.le c = true) : a.le c = true := by
  cases a with
  | missing => rfl
  | text s =>
    cases b with
    | missing => cases h
    | text t =>
      cases c with
      | missing => cases h'
      | text u =>
        simp only [Stamp.le, decide_eq_true_eq] at h h' ⊢
        exact String.le_trans h h'
      | date u => rfl
    | date t =>
      cases c with
      | missing => cases h'
      | text u => cases h'
      | date u => rfl
  | date s =>
    cases b with
    | missing => cases h
    | text t => cases h
    | date t =>
      cases c with
      | missing => cases h'
      | text u => cases h'
      | date u =>
        simp only [Stamp.le, decide_eq_true_eq] at h h' ⊢
        omega

/-- The order of `sort({ timestamp: -1 })`. -/
abbrev Newer (a b : AuditEvent) : Prop := b.timestamp.le a.timestamp = true

instance : DecidableRel Newer := fun a b => inferInstanceAs (Decidable (b.timestamp.le a.timestamp = true))

instance : Std.Total Newer := ⟨fun a b => Stamp.le_total b.timestamp a.timestamp⟩

instance : IsTrans AuditEvent Newer := ⟨fun _ _ _ h h' => Stamp.le_trans h' h⟩

/-! ## query -/

structure AuditPage where
  data : List AuditEvent
  total : Nat
  page : Nat
  pageSize : Nat

-- `dto.pageSize ?? dto.limit ?? 20`
def QueryAuditDto.effectivePageSize (dto : QueryAuditDto) : Nat := (dto.pageSize.or dto.limit).getD 20

section
variable (N : Node)

def query (sort : List AuditEvent → List AuditEvent) (events : List AuditEvent) (dto : QueryAuditDto) :
    Except AuditError AuditPage := do
  let filter ← queryFilter N dto
  let page := dto.page.getD 1
  let pageSize := dto.effectivePageSize
  let skip := (page - 1) * pageSize
  let found := events.filter (matchesFilter filter)
  pure { data := ((sort found).drop skip).take pageSize, total := found.length, page := page, pageSize := pageSize }

/-- Pages `1`, …, `n` of the query, each of a call of its own. -/
def queryPages (sort : Nat → List AuditEvent → List AuditEvent) (events : List AuditEvent)
    (dto : QueryAuditDto) (n : Nat) : Except AuditError (List AuditPage) :=
  (List.range n).mapM fun k => query N (sort k) events { dto with page := some (k + 1) }

/-- The pages up to `⌈total / pageSize⌉` hold every one of the events once, however
the database arranges equal timestamps in each call. -/
def Partitions (events : List AuditEvent) (dto : QueryAuditDto) (found : List AuditEvent) : Prop :=
  ∀ sort : Nat → List AuditEvent → List AuditEvent, (∀ k l, Paging.Arranged Newer (sort k l) l) →
    ∃ pages, queryPages N sort events dto (Paging.pageCount dto.effectivePageSize found.length) = .ok pages ∧
      (∀ page ∈ pages, page.total = found.length) ∧ (pages.flatMap AuditPage.data).Perm found

end

section
variable {N : Node} {events : List AuditEvent} {dto : QueryAuditDto} {built : Filters.DocFilter Scalar}

def pageAnswer (dto : QueryAuditDto) (found : List AuditEvent)
    (sort : Nat → List AuditEvent → List AuditEvent) (k : Nat) : AuditPage where
  data := Paging.page dto.effectivePageSize k (sort k found)
  total := found.length
  page := k + 1
  pageSize := dto.effectivePageSize

theorem query_page (h : queryFilter N dto = .ok built) (sort : Nat → List AuditEvent → List AuditEvent) (k : Nat) :
    query N (sort k) events { dto with page := some (k + 1) } =
      .ok (pageAnswer dto (events.filter (matchesFilter built)) sort k) := by
  have hpage : queryFilter N { dto with page := some (k + 1) } = .ok built := h
  rw [query, hpage]
  rfl

theorem queryPages_eq (h : queryFilter N dto = .ok built)
    (sort : Nat → List AuditEvent → List AuditEvent) (n : Nat) : queryPages N sort events dto n =
      .ok ((List.range n).map (pageAnswer dto (events.filter (matchesFilter built)) sort)) := by
  unfold queryPages
  simp only [query_page h]
  exact List.mapM_pure

theorem pages_data (found : List AuditEvent) (sort : Nat → List AuditEvent → List AuditEvent) (n : Nat) :
    ((List.range n).map (pageAnswer dto found sort)).flatMap AuditPage.data =
      Paging.pages dto.effectivePageSize n fun k => sort k found := by
  rw [List.flatMap_map]
  rfl

end

/-- The pages of a query are a partition exactly when the events of every timestamp
that different events share have one page. -/
theorem partitions_iff (N : Node) (events : List AuditEvent) {dto : QueryAuditDto}
    {filter : Filters.DocFilter Scalar} (h : queryFilter N dto = .ok filter) (hsize : 1 ≤ dto.effectivePageSize) :
    Partitions N events dto (events.filter (matchesFilter filter)) ↔
      Paging.Unsplit Newer dto.effectivePageSize (events.filter (matchesFilter filter)) := by
  classical
  rw [← Paging.pages_iff hsize]
  unfold Partitions
  constructor
  · intro hall σ hσ
    -- the database arranges the matching events as `σ` does
    have harranged : ∀ k l, Paging.Arranged Newer
        (if l = events.filter (matchesFilter filter) then σ k else l.insertionSort Newer) l := fun k l => by
      by_cases hl : l = events.filter (matchesFilter filter)
      · subst hl
        rw [if_pos rfl]
        exact hσ k
      · rw [if_neg hl]
        exact ⟨List.perm_insertionSort _ _, List.pairwise_insertionSort _ _⟩
    obtain ⟨pages, hpages, -, hperm⟩ := hall _ harranged
    rw [queryPages_eq h] at hpages
    obtain rfl := Except.ok.inj hpages
    simpa only [pages_data, if_pos] using hperm
  · intro hall sort hsort
    refine ⟨_, queryPages_eq h sort _, fun page hpage => ?_, ?_⟩
    · obtain ⟨k, -, rfl⟩ := List.mem_map.mp hpage
      rfl
    · rw [pages_data]
      exact hall _ fun k => hsort k _

theorem partitions_sample : Partitions sampleNode sampleEvents { limit := some 2 } sampleEvents := by
  have hfilter : queryFilter sampleNode { limit := some 2 } = .ok .empty := rfl
  have hone : ∀ a ∈ sampleEvents,
      Paging.ahead Newer sampleEvents a / 2 = (Paging.upTo Newer sampleEvents a - 1) / 2 := by
    decide
  exact (partitions_iff sampleNode sampleEvents hfilter (by decide)).mpr fun a ha _ _ _ _ _ => hone a ha

/-- A database that arranges the events of one time in the stored order, and in the
opposite one from the second call on. -/
def alternating (k : Nat) (l : List AuditEvent) : List AuditEvent :=
  (if k = 0 then l else l.reverse).insertionSort Newer

-- Both pages hold the first event.
theorem pages_overlap : ¬ Partitions sampleNode sampleEvents { limit := some 1 } sampleEvents := by
  intro h
  obtain ⟨pages, hpages, -, hperm⟩ := h alternating fun k l => by
    refine ⟨(List.perm_insertionSort _ _).trans ?_, List.pairwise_insertionSort _ _⟩
    by_cases hk : k = 0
    · rw [if_pos hk]
    · rw [if_neg hk]
      exact List.reverse_perm l
  have hread : queryPages sampleNode alternating sampleEvents { limit := some 1 } 2 =
      .ok [⟨[sampleFirst], 2, 1, 1⟩, ⟨[sampleFirst], 2, 2, 1⟩] := rfl
  obtain rfl := Except.ok.inj (hread.symm.trans hpages)
  have hsecond : sampleSecond ∈ [sampleFirst, sampleFirst] :=
    hperm.symm.subset (List.mem_cons_of_mem _ List.mem_cons_self)
  have hsame : sampleSecond.eventId = sampleFirst.eventId := by
    simp only [List.mem_cons, List.not_mem_nil, or_false, or_self] at hsecond
    rw [hsecond]
  exact absurd hsame (by decide)

end DocVault
