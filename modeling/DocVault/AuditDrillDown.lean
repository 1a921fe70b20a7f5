import DocVault.AuditFilters
import DocVault.IsoDate
import DocVault.JsNumber

/-!
# Audit drill-downs

`queryAuditLog`, the validation of its request by `QueryAuditDto`, and the
filter of the database that it ends in. The client sends its lists under names
that the service does not know, so a drill-down with a list is refused.
-/

namespace DocVault

open Filters (DocFilter)

/-- The value of a parameter, as the service's framework reads it. -/
inductive QueryValue where
  | text (s : String)
  | list (l : List String)
  deriving DecidableEq

abbrev Query := List (String × QueryValue)

-- Parameters that are `undefined` are not sent.
def defined (params : List (String × Option QueryValue)) : Query :=
  params.filterMap fun p => p.2.map fun v => (p.1, v)

/-! ## toAuditQueryParams -/

section
variable (N : Node)

/-- `toISOString` throws on an invalid date, which is `none`. -/
def isoText : Option String → Option (Option String)
  | none => some none
  | some value => (N.newDate value).map fun d => some d.toISOString

def auditParams (filters : AuditQueryFilters) (from_ to_ : Option String) (page pageSize : Option Nat) :
    List (String × Option QueryValue) :=
  [("actorId", filters.actorId.map .text),
    ("actorIds", (toCommaList filters.actorIds).map .text),
    ("action", filters.action.map .text),
    ("actions", (toCommaList filters.actions).map .text),
    ("actionGroup", filters.actionGroup.map fun group => .text group.text),
    ("resourceType", (filters.resourceType.or filters.targetType).map .text),
    ("resourceId", (filters.resourceId.or filters.targetId).map .text),
    ("documentId", filters.documentId.map .text),
    ("documentIds", (toCommaList filters.documentIds).map .text),
    ("aclId", filters.aclId.map .text),
    ("recommendationId", filters.recommendationId.map .text),
    ("recommendationIds", (toCommaList filters.recommendationIds).map .text),
    ("classifications", (toCommaList filters.classifications).map .text),
    ("result", filters.result.map fun result => .text result.text),
    ("from", from_.map .text),
    ("to", to_.map .text),
    ("excludeActions", filters.excludeActions.map .list),
    ("page", page.map fun n => .text (toString n)),
    ("pageSize", pageSize.map fun n => .text (toString n))]

def toAuditQueryParams (filters : AuditQueryFilters) (page pageSize : Option Nat) : Option Query := do
  let from_ ← isoText N (truthy filters.from_)
  let to_ ← isoText N (truthy filters.to_)
  return defined (auditParams filters from_ to_ page pageSize)

/-! ## Validation -/

def QUERY_AUDIT_FIELDS : List String :=
  ["actorId", "action", "actionGroup", "resourceType", "resourceId", "documentId", "aclId",
    "recommendationId", "result", "from", "to", "page", "pageSize", "limit", "excludeActions"]

def readString (valid : String → Bool) : Option QueryValue → Option (Option String)
  | none => some none
  | some (.text s) => if valid s then some (some s) else none
  | some (.list _) => none

def readActionGroup : Option QueryValue → Option (Option AuditActionGroup)
  | none => some none
  | some (.text s) => (isAuditActionGroup s).map some
  | some (.list _) => none

def readCount (max : Option Nat) : Option QueryValue → Option (Option Nat)
  | none => some none
  | some (.text s) =>
    match Number s with
    | .finite q => if q.den = 1 ∧ 1 ≤ q.num ∧ max.all fun m : Nat => q.num ≤ m then some
        (some q.num.toNat) else none
    | _ => none
  | some (.list _) => none

def readExcluded : Option QueryValue → Option (List String)
  | none => none
  | some (.text s) => some [s]
  | some (.list l) => some l

/-- The body of the request as a `QueryAuditDto`; `none` is a response 400. -/
def validateQuery (isISO8601 : String → Bool) (query : Query) : Option QueryAuditDto := do
  -- `whitelist` with `forbidNonWhitelisted`
  guard (query.all fun p => p.1 ∈ QUERY_AUDIT_FIELDS)
  let actorId ← readString (fun _ => true) (query.lookup "actorId")
  let action ← readString (fun _ => true) (query.lookup "action")
  let actionGroup ← readActionGroup (query.lookup "actionGroup")
  let resourceType ← readString (fun _ => true) (query.lookup "resourceType")
  let resourceId ← readString (fun _ => true) (query.lookup "resourceId")
  let documentId ← readString (fun _ => true) (query.lookup "documentId")
  let aclId ← readString (fun _ => true) (query.lookup "aclId")
  let recommendationId ← readString (fun _ => true) (query.lookup "recommendationId")
  let result ← readString (fun _ => true) (query.lookup "result")
  let from_ ← readString isISO8601 (query.lookup "from")
  let to_ ← readString isISO8601 (query.lookup "to")
  let page ← readCount none (query.lookup "page")
  let pageSize ← readCount (some 200) (query.lookup "pageSize")
  let limit ← readCount (some 200) (query.lookup "limit")
  return {
    actorId, action, actionGroup, resourceType, resourceId, documentId, aclId, recommendationId,
      result, from_, to_, page,
    pageSize, limit, excludeActions := readExcluded (query.lookup "excludeActions") }

/-! ## What a drill-down asks for -/

def AuditEvent.concerns (event : AuditEvent) (documentId : String) : Prop :=
  (event.resourceType = "DOCUMENT" ∧ event.resourceId = some documentId) ∨ event.carries "docId" documentId

def AuditEvent.recommends (event : AuditEvent) (recommendationId : String) : Prop :=
  (event.resourceType = "SECURITY_RECOMMENDATION" ∧ event.resourceId = some recommendationId) ∨
    event.carries "recommendationId" recommendationId

/-- The event satisfies every field of the filters; a list is satisfied by any of its items. -/
structure AuditQueryFilters.Holds (filters : AuditQueryFilters) (event : AuditEvent) : Prop where
  result : ∀ v, filters.result = some v → event.result = v.text
  action : ∀ v, filters.action = some v → event.action = v
  actions : ∀ l, filters.actions = some l → event.action ∈ l
  actionGroup : ∀ group, filters.actionGroup = some group → event.action ∈ AUDIT_ACTION_GROUP_ACTIONS group
  actorId : ∀ v, filters.actorId = some v → event.actorId = v
  actorIds : ∀ l, filters.actorIds = some l → event.actorId ∈ l
  resourceType : ∀ v, filters.resourceType = some v → event.resourceType = v
  resourceId : ∀ v, filters.resourceId = some v → event.resourceId = some v
  documentId : ∀ v, filters.documentId = some v → event.concerns v
  documentIds : ∀ l, filters.documentIds = some l → ∃ v ∈ l, event.concerns v
  aclId : ∀ v, filters.aclId = some v → event.carries "aclId" v ∨ event.carries "removedAclId" v
  recommendationId : ∀ v, filters.recommendationId = some v → event.recommends v
  recommendationIds : ∀ l, filters.recommendationIds = some l → ∃ v ∈ l, event.recommends v
  classifications : ∀ l, filters.classifications = some l → ∃ v ∈ l, event.carries "classification" v
  from_ : ∀ v, filters.from_ = some v → ∃ d t, N.newDate v = some d ∧ event.timestamp = .date t ∧ d.ms ≤ t.ms
  to_ : ∀ v, filters.to_ = some v → ∃ d t, N.newDate v = some d ∧ event.timestamp = .date t ∧ t.ms ≤ d.ms

/-- The filters reach the page of the link, and the database, as they were. -/
structure ReachesIntact (isISO8601 : String → Bool) (filters : AuditQueryFilters)
    (page pageSize : Option Nat) : Prop where
  link : parseAuditFilterQuery (buildAuditFilterQuery filters) = filters
  request : ∃ query dto filter, toAuditQueryParams N filters page pageSize = some query ∧
    validateQuery isISO8601 query = some dto ∧ queryFilter N dto = .ok filter ∧
    ∀ event, matchesFilter filter event = true ↔ filters.Holds N event

end

/-! ## What the service reads -/

theorem lookup_defined {params : List (String × Option QueryValue)} (h : (params.map Prod.fst).Nodup)
    (key : String) : (defined params).lookup key = (params.lookup key).join := by
  induction params with
  | nil => rfl
  | cons p ps ih =>
    obtain ⟨k, v⟩ := p
    rw [List.map_cons, List.nodup_cons] at h
    by_cases hk : key = k
    · subst hk
      cases v with
      | some v => simp [defined]
      | none =>
        have hnone : ps.lookup key = none := List.lookup_eq_none_iff.mpr fun p hp => by
          simpa using fun he : key = p.1 => h.1 (List.mem_map.mpr ⟨p, hp, he.symm⟩)
        simpa [defined, hnone] using ih h.2
    · have hne : (key == k) = false := by simp [hk]
      rw [List.lookup_cons, hne]
      cases v with
      | none => simpa [defined] using ih h.2
      | some v => simpa [defined, List.lookup_cons, hne] using ih h.2

@[simp] theorem readString_text (value : Option String) :
    readString (fun _ => true) (value.map .text) = some value := by
  cases value <;> rfl

@[simp] theorem readActionGroup_text (group : Option AuditActionGroup) :
    readActionGroup (group.map fun group => .text group.text) = some group := by
  cases group with
  | none => rfl
  | some g => cases g <;> decide

theorem readString_valid {valid : String → Bool} {value : Option String} :
    readString valid (value.map .text) = if value.all valid then some value else none := by
  cases value <;> rfl

theorem readCount_text {max : Option Nat} {n : Option Nat}
    (h : ∀ k, n = some k → 1 ≤ k ∧ k < 2 ^ 53 ∧ max.all (k ≤ ·)) :
    readCount max (n.map fun n => .text (toString n)) = some n := by
  cases n with
  | none => rfl
  | some k =>
    obtain ⟨hpos, hlt, hmax⟩ := h k rfl
    have hone : (1 : Int) ≤ k := by omega
    rw [Option.map_some, readCount, JsNumber.Number_toString hlt]
    simpa [hone] using hmax

/-- The pages that the client asks for. -/
structure Paged (page pageSize : Option Nat) : Prop where
  page : ∀ n, page = some n → 1 ≤ n ∧ n < 2 ^ 53
  pageSize : ∀ n, pageSize = some n → 1 ≤ n ∧ n ≤ 200

variable {filters : AuditQueryFilters} {page pageSize : Option Nat}

theorem lookup_auditParams {from_ to_ : Option String} (key : String) :
    (defined (auditParams filters from_ to_ page pageSize)).lookup key =
      ((auditParams filters from_ to_ page pageSize).lookup key).join := by
  refine lookup_defined ?_ key
  exact (show ["actorId", "actorIds", "action", "actions", "actionGroup", "resourceType", "resourceId",
    "documentId", "documentIds", "aclId", "recommendationId", "recommendationIds",
      "classifications", "result", "from",
    "to", "excludeActions", "page", "pageSize"].Nodup by decide)

theorem all_defined {params : List (String × Option QueryValue)} {P : String → Prop} [DecidablePred P] :
    ((defined params).all fun p => P p.1) = true ↔ ∀ p ∈ params, P p.1 ∨ p.2 = none := by
  rw [List.all_eq_true, defined]
  constructor
  · intro h p hp
    cases hv : p.2 with
    | none => exact .inr rfl
    | some v => exact .inl (of_decide_eq_true (h (p.1, v) (List.mem_filterMap.mpr ⟨p, hp, by simp [hv]⟩)))
  · intro h q hq
    obtain ⟨p, hp, hpq⟩ := List.mem_filterMap.mp hq
    obtain ⟨v, hv, rfl⟩ := Option.map_eq_some_iff.mp hpq
    rcases h p hp with hP | hnone
    · exact decide_eq_true hP
    · rw [hnone] at hv
      cases hv

theorem toCommaList_eq_none {values : Option (List String)} (h : ∀ l, values = some l → l ≠ []) :
    toCommaList values = none ↔ values = none := by
  cases values with
  | none => simp [toCommaList]
  | some l => simp [toCommaList, h l rfl]

/-- Every parameter has a name that the service knows exactly when there is no list. -/
theorem whitelisted_iff (h : filters.Linkable) {from_ to_ : Option String} :
    ((defined (auditParams filters from_ to_ page pageSize)).all fun p => p.1 ∈ QUERY_AUDIT_FIELDS) = true ↔
      filters.lists = [] := by
  have hlist : ∀ values : Option (List String), (∀ l, values = some l → l ∈ filters.lists) →
      (toCommaList values = none ↔ values = none) := fun values hmem =>
    toCommaList_eq_none fun l hl => h.lists l (hmem l hl)
  have hactions := hlist filters.actions fun l hl => by simp [AuditQueryFilters.lists, hl]
  have hactors := hlist filters.actorIds fun l hl => by simp [AuditQueryFilters.lists, hl]
  have hdocuments := hlist filters.documentIds fun l hl => by simp [AuditQueryFilters.lists, hl]
  have hrecommendations := hlist filters.recommendationIds fun l hl => by simp [AuditQueryFilters.lists, hl]
  have hclassifications := hlist filters.classifications fun l hl => by simp [AuditQueryFilters.lists, hl]
  rw [all_defined, auditParams]
  simp only [List.forall_mem_cons, Option.map_eq_none_iff, hactions, hactors, hdocuments,
    hrecommendations, hclassifications, AuditQueryFilters.lists, List.append_eq_nil_iff, Option.toList_eq_nil_iff]
  simp only [QUERY_AUDIT_FIELDS, List.mem_cons, String.reduceEq, List.not_mem_nil, true_or,
    or_true, false_or, or_false, true_and, false_implies, implies_true, and_true]
  constructor
  · intro hnone
    obtain ⟨h1, h2, h3, h4, h5⟩ := hnone
    exact ⟨⟨⟨⟨h2, h1⟩, h3⟩, h4⟩, h5⟩
  · intro hnone
    obtain ⟨⟨⟨⟨h2, h1⟩, h3⟩, h4⟩, h5⟩ := hnone
    exact ⟨h1, h2, h3, h4, h5⟩

theorem validate_auditParams {isISO8601 : String → Bool} (h : filters.Linkable) (hp : Paged page pageSize)
    (from_ to_ : Option String) :
    validateQuery isISO8601 (defined (auditParams filters from_ to_ page pageSize)) =
      if filters.lists = [] ∧ from_.all isISO8601 ∧ to_.all isISO8601 then
        some { actorId := filters.actorId, action := filters.action, actionGroup := filters.actionGroup,
               resourceType := filters.resourceType, resourceId := filters.resourceId,
                 documentId := filters.documentId,
               aclId := filters.aclId, recommendationId := filters.recommendationId,
               result := filters.result.map (·.text), from_, to_, page, pageSize }
      else none := by
  have hpage := @readCount_text none page fun n hn => ⟨(hp.page n hn).1, (hp.page n hn).2, rfl⟩
  have hsize := @readCount_text (some 200) pageSize fun n hn =>
    ⟨(hp.pageSize n hn).1, by have := (hp.pageSize n hn).2; omega, by simpa using (hp.pageSize n hn).2⟩
  have hresult : (filters.result.map fun result => QueryValue.text result.text) =
      (filters.result.map (·.text)).map .text := by
    simp [Function.comp_def]
  have hguard := @whitelisted_iff filters page pageSize h from_ to_
  unfold validateQuery
  by_cases hl : filters.lists = []
  · rw [hguard.mpr hl]
    simp only [lookup_auditParams]
    simp only [auditParams, List.lookup_cons, String.reduceBEq, Option.join_some, h.targetType, h.targetId,
      h.excludeActions, Option.or_none, readString_text, readActionGroup_text, hpage, hsize, hresult,
      @readString_valid isISO8601, Option.bind_eq_bind, Option.bind_some, List.lookup_nil, Option.join_none,
      Option.map_none, guard_true, Option.pure_def]
    by_cases hfrom : from_.all isISO8601 = true
    · by_cases hto : to_.all isISO8601 = true
      · simp only [hl, hfrom, hto, and_self, if_true, Option.bind_some]
        rfl
      · simp [hfrom, hto]
    · simp [hfrom]
  · rw [Bool.eq_false_iff.mpr fun hall => hl (hguard.mp hall), if_neg fun hall => hl hall.1]
    rfl

/-! ## Instants -/

def JsDate.fourDigitYear (d : JsDate) : Prop := 0 ≤ (civil (d.ms / 86400000)).1 ∧ (civil (d.ms / 86400000)).1 ≤ 9999

/-- What both sides rely on for the texts of instants: `new Date` reads what
`toISOString` writes, and `IsDateString` accepts it unless the year has six digits. -/
structure IsoTexts (N : Node) (isISO8601 : String → Bool) : Prop where
  newDate : ∀ d : JsDate, N.newDate d.toISOString = some d
  isISO8601 : ∀ d : JsDate, isISO8601 d.toISOString = true ↔ d.fourDigitYear

theorem toISOString_ne_empty (d : JsDate) : d.toISOString ≠ "" := by
  intro h
  have hlist := congrArg String.toList h
  simp [JsDate.toISOString] at hlist

section
variable {N : Node} {isISO8601 : String → Bool} {value : Option String}

def instant (N : Node) (value : Option String) : Option JsDate := value.bind N.newDate

theorem isoText_eq (h : ∀ v, value = some v → (N.newDate v).isSome = true) :
    isoText N value = some ((instant N value).map (·.toISOString)) := by
  cases value with
  | none => rfl
  | some v =>
    obtain ⟨d, hd⟩ := Option.isSome_iff_exists.mp (h v rfl)
    simp [isoText, instant, hd]

variable (hiso : IsoTexts N isISO8601)
include hiso

theorem all_iso : ((instant N value).map (·.toISOString)).all isISO8601 = true ↔
    ∀ v, value = some v → ∀ d, N.newDate v = some d → d.fourDigitYear := by
  cases value with
  | none => simp [instant]
  | some v =>
    cases hd : N.newDate v with
    | none => simp [instant, hd]
    | some d => simp [instant, hd, hiso.isISO8601]

theorem dateOf_iso : dateOf N ((instant N value).map (·.toISOString)) = .ok ((instant N value).map .date) := by
  cases instant N value with
  | none => rfl
  | some d => simp [dateOf, hiso.newDate]

end

/-! ## Drill-downs -/

theorem queryFilter_ok {N : Node} {dto : QueryAuditDto} {gte lte : Option Scalar}
    (hg : dateOf N (truthy dto.from_) = .ok gte)
    (hl : dateOf N (truthy dto.to_) = .ok lte) : ∃ filter, queryFilter N dto = .ok filter := by
  unfold queryFilter
  rw [hg, hl]
  exact ⟨_, rfl⟩

theorem truthy_iso (date : Option JsDate) : truthy (date.map (·.toISOString)) = date.map (·.toISOString) :=
  truthy_eq fun v hv => by
    obtain ⟨d, -, rfl⟩ := Option.map_eq_some_iff.mp hv
    exact toISOString_ne_empty d

/-- What the service makes of filters without lists. -/
def requested (N : Node) (filters : AuditQueryFilters) (page pageSize : Option Nat) : QueryAuditDto where
  actorId := filters.actorId
  action := filters.action
  actionGroup := filters.actionGroup
  resourceType := filters.resourceType
  resourceId := filters.resourceId
  documentId := filters.documentId
  aclId := filters.aclId
  recommendationId := filters.recommendationId
  result := filters.result.map (·.text)
  from_ := (instant N filters.from_).map (·.toISOString)
  to_ := (instant N filters.to_).map (·.toISOString)
  page := page
  pageSize := pageSize

theorem requested_nonBlank (N : Node) (h : filters.Linkable) :
    (requested N filters page pageSize).nonBlank = requested N filters page pageSize := by
  obtain ⟨haction, hactor, htype, hid, hdocument, hacl, hrecommendation, -, -⟩ := h.truthy_texts
  have hresult : truthy (filters.result.map (·.text)) = filters.result.map (·.text) := truthy_eq fun v hv => by
    obtain ⟨r, -, rfl⟩ := Option.map_eq_some_iff.mp hv
    cases r <;> decide
  simp only [QueryAuditDto.nonBlank, requested, haction, hactor, htype, hid, hdocument, hacl,
    hrecommendation, hresult, truthy_iso]

theorem satisfies_iff {N : Node} {isISO8601 : String → Bool} (hiso : IsoTexts N isISO8601) (hl : filters.lists = [])
    (hb : ∀ v, filters.from_ = some v ∨ filters.to_ = some v → (N.newDate v).isSome = true) (event : AuditEvent) :
    Satisfies N (requested N filters page pageSize) event ↔ filters.Holds N event := by
  simp only [AuditQueryFilters.lists, List.append_eq_nil_iff, Option.toList_eq_nil_iff] at hl
  obtain ⟨⟨⟨⟨hactions, hactors⟩, hdocuments⟩, hrecommendations⟩, hclassifications⟩ := hl
  have hinstant : ∀ {value : Option String} {v d}, value = some v → N.newDate v = some d →
      (instant N value).map (·.toISOString) = some d.toISOString := fun hv hd => by simp [instant, hv, hd]
  constructor
  · intro hs
    refine ⟨fun v hv => hs.result v.text (by simp [requested, hv]), hs.action, by simp [hactions], hs.actionGroup,
      hs.actorId, by simp [hactors], hs.resourceType, hs.resourceId, hs.documentId, by simp [hdocuments], hs.aclId,
      hs.recommendationId, by simp [hrecommendations], by simp [hclassifications], fun v hv => ?_, fun v hv => ?_⟩
    · obtain ⟨d, hd⟩ := Option.isSome_iff_exists.mp (hb v (.inl hv))
      obtain ⟨d', t, hd', ht, hle⟩ := hs.from_ d.toISOString (hinstant hv hd)
      obtain rfl := Option.some.inj ((hiso.newDate d).symm.trans hd')
      exact ⟨d, t, hd, ht, hle⟩
    · obtain ⟨d, hd⟩ := Option.isSome_iff_exists.mp (hb v (.inr hv))
      obtain ⟨d', t, hd', ht, hle⟩ := hs.to_ d.toISOString (hinstant hv hd)
      obtain rfl := Option.some.inj ((hiso.newDate d).symm.trans hd')
      exact ⟨d, t, hd, ht, hle⟩
  · intro hf
    refine ⟨⟨hf.actorId, hf.action, hf.actionGroup, hf.resourceType, hf.resourceId, fun v hv => ?_,
      hf.documentId, hf.aclId, hf.recommendationId⟩, fun v hv => ?_, fun v hv => ?_, by simp [requested]⟩
    · obtain ⟨r, hr, rfl⟩ := Option.map_eq_some_iff.mp hv
      exact hf.result r hr
    · obtain ⟨d, hd, rfl⟩ := Option.map_eq_some_iff.mp hv
      obtain ⟨text, htext, hread⟩ := Option.bind_eq_some_iff.mp hd
      obtain ⟨d', t, hd', ht, hle⟩ := hf.from_ text htext
      obtain rfl := Option.some.inj (hread.symm.trans hd')
      exact ⟨d, t, hiso.newDate d, ht, hle⟩
    · obtain ⟨d, hd, rfl⟩ := Option.map_eq_some_iff.mp hv
      obtain ⟨text, htext, hread⟩ := Option.bind_eq_some_iff.mp hd
      obtain ⟨d', t, hd', ht, hle⟩ := hf.to_ text htext
      obtain rfl := Option.some.inj (hread.symm.trans hd')
      exact ⟨d, t, hiso.newDate d, ht, hle⟩

/-- Filters reach the database as they were exactly when they hold no list, and
no bound in a year of more than four digits. -/
theorem drill_down_iff {N : Node} {isISO8601 : String → Bool} (hiso : IsoTexts N isISO8601)
    (filters : AuditQueryFilters)
    (h : filters.Linkable) (hb : ∀ v, filters.from_ = some v ∨ filters.to_ = some v → (N.newDate v).isSome = true)
    (page pageSize : Option Nat) (hp : Paged page pageSize) :
    ReachesIntact N isISO8601 filters page pageSize ↔ filters.lists = [] ∧
      ∀ v, filters.from_ = some v ∨ filters.to_ = some v → ∀ d, N.newDate v = some d → d.fourDigitYear := by
  obtain ⟨-, -, -, -, -, -, -, hfrom, hto⟩ := h.truthy_texts
  have hparams : toAuditQueryParams N filters page pageSize = some (defined (auditParams filters
      ((instant N filters.from_).map (·.toISOString))
      ((instant N filters.to_).map (·.toISOString)) page pageSize)) := by
    rw [toAuditQueryParams, hfrom, hto, isoText_eq fun v hv => hb v (.inl hv),
      isoText_eq fun v hv => hb v (.inr hv)]
    rfl
  have hvalid := @validate_auditParams _ _ _ isISO8601 h hp ((instant N filters.from_).map (·.toISOString))
    ((instant N filters.to_).map (·.toISOString))
  have hfromIso := @all_iso N isISO8601 filters.from_ hiso
  have htoIso := @all_iso N isISO8601 filters.to_ hiso
  constructor
  · intro hr
    obtain ⟨query, dto, filter, hquery, hdto, -, -⟩ := hr.request
    rw [hparams] at hquery
    rw [← Option.some.inj hquery, hvalid] at hdto
    split at hdto
    · rename_i hc
      refine ⟨hc.1, fun v hv => ?_⟩
      rcases hv with hv | hv
      · exact hfromIso.mp hc.2.1 v hv
      · exact htoIso.mp hc.2.2 v hv
    · cases hdto
  · intro ⟨hl, hyears⟩
    rw [if_pos ⟨hl, hfromIso.mpr fun v hv => hyears v (.inl hv),
      htoIso.mpr fun v hv => hyears v (.inr hv)⟩] at hvalid
    have hgte : dateOf N (truthy (requested N filters page pageSize).from_) =
      .ok ((instant N filters.from_).map .date) := by
      rw [requested, truthy_iso]
      exact dateOf_iso hiso
    have hlte : dateOf N (truthy (requested N filters page pageSize).to_) =
      .ok ((instant N filters.to_).map .date) := by
      rw [requested, truthy_iso]
      exact dateOf_iso hiso
    obtain ⟨filter, hfilter⟩ := queryFilter_ok hgte hlte
    refine ⟨h.parse_build_iff.mpr (by simp [hl]), _, _, filter, hparams, hvalid, hfilter, fun event => ?_⟩
    rw [builds_query hfilter event, requested_nonBlank N h, satisfies_iff hiso hl hb]

instance (d : JsDate) : Decidable d.fourDigitYear := inferInstanceAs (Decidable (_ ∧ _))

def sampleReader : Node := { sampleNode with newDate := readInstant }

def sampleIsISO8601 (text : String) : Bool := (readInstant text).any fun d => d.fourDigitYear

theorem sampleReader_newDate : sampleReader.newDate = readInstant := rfl

theorem sampleReader_iso : IsoTexts sampleReader sampleIsISO8601 := by
  refine ⟨fun d => ?_, fun d => ?_⟩
  · rw [sampleReader_newDate, readInstant_iso]
  · unfold sampleIsISO8601
    rw [readInstant_iso, Option.any_some, decide_eq_true_iff]

def actorFilters : AuditQueryFilters := { actorId := some "u-1", from_ := some sampleTime.toISOString }

theorem actor_drill_down : ReachesIntact sampleReader sampleIsISO8601 actorFilters (some 1) (some 100) := by
  have hlink : actorFilters.Linkable := ⟨by decide +kernel, by decide, rfl, rfl, rfl⟩
  have hdate : sampleReader.newDate sampleTime.toISOString = some sampleTime := readInstant_iso sampleTime
  have hbound : ∀ v, actorFilters.from_ = some v ∨ actorFilters.to_ = some v → v = sampleTime.toISOString := by
    intro v hv
    rcases hv with hv | hv
    · exact (Option.some.inj hv).symm
    · cases hv
  refine (drill_down_iff sampleReader_iso actorFilters hlink ?_ _ _ ⟨by simp, by simp⟩).mpr ⟨rfl, ?_⟩
  · intro v hv
    rw [hbound v hv, hdate]
    rfl
  · intro v hv d hd
    rw [hbound v hv, hdate] at hd
    obtain rfl := Option.some.inj hd
    decide

-- A chart segment of two actors is refused: `actorIds` is no field of the query.
theorem actors_refused :
    ¬ ReachesIntact sampleReader sampleIsISO8601 { actorIds := some ["u-1", "u-2"] } none none := by
  intro h
  obtain ⟨query, dto, filter, hquery, hdto, -⟩ := h.request
  obtain rfl := Option.some.inj hquery
  have hnone : validateQuery sampleIsISO8601
      (defined (auditParams { actorIds := some ["u-1", "u-2"] } none none none none)) = none := rfl
  cases hnone.symm.trans hdto

end DocVault
