import DocVault.IsoDate
import DocVault.SearchTerms

/-!
# Where the two readings of a search agree

What a term asks is compared operator by operator: the documents that both
sides admit, and those that one of them admits alone.
-/

namespace DocVault.Search

open Regex

variable (R : Runtime) (document : StoredDocument) (term : Term)

/-! ## The documents of a term -/

def Found (field : Option Text) (value : Text) : Prop := ∃ t ∈ field, containsInsensitive R t value = true

def StoredDocument.filename : Option Text := document.versions.head?.map (·.filename)

/-- The service looks for a whole tag. -/
def FoundByService (text : Text) : Prop :=
  Found R document.title text ∨ Found R document.description text ∨
  Found R document.filename text ∨ text ∈ document.tags

/-- The client looks into the tags, and into fields that the service leaves out. -/
def FoundByClient (value : Text) : Prop :=
  Found R document.title value ∨ Found R document.description value ∨ Found R document.filename value ∨
    Found R document.ownerId value ∨ Found R (Metadata.statusText document.status) value ∨
    Found R (Metadata.classificationText document.classification) value ∨
    ∃ tag ∈ document.tags, Found R (some tag) value

def statusWord (status : DocumentStatus) : Text := normalizeEnumText R (some (Metadata.statusText status))

def classificationWord (classification : ClassificationLevel) : Text :=
  normalizeEnumText R (some (Metadata.classificationText classification))

def dlpWord : Text := normalizeEnumText R (some document.dlpStatus)

def DLP_NAMES : List Text := [utf16 "detected", utf16 "clear", utf16 "notscanned", []]

def PRESENCE_NAMES : List Text :=
  [utf16 "file", utf16 "files", utf16 "retention", utf16 "dlp", utf16 "legalhold", utf16 "hold"]

def FitsDlp : Prop :=
  if term.enumWord R = utf16 "detected" then document.dlpStatus = utf16 "DETECTED"
  else if term.enumWord R = utf16 "clear" then document.dlpStatus = utf16 "CLEAR"
  else if term.enumWord R = utf16 "notscanned" then document.dlpStatus = utf16 "NOT_SCANNED"
  else term.enumWord R = [] ∨
    (document.dlpStatus = Metadata.dlpValue R term.value ∧ includes (dlpWord R document) (term.enumWord R) = true)

def FitsPresence : Prop :=
  if term.enumWord R = utf16 "file" ∨ term.enumWord R = utf16 "files" then True
  else if term.enumWord R = utf16 "retention" then
    (∃ t ∈ document.retentionClass, t ≠ []) ∨ document.retentionUntil ≠ none
  else term.enumWord R = utf16 "dlp" ∧ document.dlpStatus = utf16 "DETECTED"

def FitsRetention : Prop :=
  if term.enumWord R = utf16 "unset" then document.retentionClass = none ∧ document.retentionUntil = none
  else if term.enumWord R = utf16 "overdue" then ∃ d ∈ document.retentionUntil, d.ms < R.now
  else if term.enumWord R = utf16 "duesoon" then ∃ d ∈ document.retentionUntil, R.now ≤ d.ms ∧
    d.ms ≤ R.now + 30 * DAY_MS
  else if term.enumWord R = utf16 "active" then ∃ d ∈ document.retentionUntil, R.now + 30 * DAY_MS < d.ms
  else if term.enumWord R = utf16 "archived" then document.status = .ARCHIVED
  else Found R document.retentionClass term.value ∨ Found R document.retentionReason term.value

def FitsDate (field : DateField) : Prop :=
  ∀ range ∈ parseRange R field term.value, ∃ d ∈ document.dateField range.field,
    (∀ bound ∈ range.from_, bound.ms ≤ d.ms) ∧ ∀ bound ∈ range.to_, d.ms ≤ bound.ms

/-- The documents that both sides admit. -/
def Fits : Prop :=
  match term.operator with
  | .status => includes (statusWord R document.status) (term.enumWord R) = true
  | .classification => includes (classificationWord R document.classification) (term.enumWord R) = true
  | .owner => Found R document.ownerId term.value
  | .tag | .folder => term.value ∈ document.tags
  | .file => Found R document.filename term.value
  | .presence => FitsPresence R document term
  | .dlp => FitsDlp R document term
  | .retention => FitsRetention R document term
  | .date field => FitsDate R document term field
  | .free => FoundByService R document term.text ∧ FoundByClient R document term.value

/-- The documents that the service admits alone: it drops an operator whose
value it does not know, and it alone knows of the legal hold. -/
def OnlyService : Prop :=
  match term.operator with
  | .status =>
    (∀ s, statusWord R s ≠ term.enumWord R) ∧ includes (statusWord R document.status) (term.enumWord R) = false
  | .classification => (∀ c, classificationWord R c ≠ term.enumWord R) ∧
      includes (classificationWord R document.classification) (term.enumWord R) = false
  | .presence =>
    (term.enumWord R = utf16 "retention" ∧ document.retentionClass = some [] ∧ document.retentionUntil = none) ∨
      ((term.enumWord R = utf16 "legalhold" ∨ term.enumWord R = utf16 "hold") ∧ document.legalHold = true) ∨
      term.enumWord R ∉ PRESENCE_NAMES
  | .dlp => term.enumWord R ∉ DLP_NAMES ∧ document.dlpStatus = Metadata.dlpValue R term.value ∧
      includes (dlpWord R document) (term.enumWord R) = false
  | .free => FoundByService R document term.text ∧ ¬ FoundByClient R document term.value
  | _ => False

/-- The documents that the client admits alone: it takes a part for the whole,
and an empty text for none. -/
def OnlyClient : Prop :=
  match term.operator with
  | .tag | .folder => term.value ∉ document.tags ∧ ∃ tag ∈ document.tags, Found R (some tag) term.value
  | .dlp => (term.enumWord R = utf16 "notscanned" ∧ document.dlpStatus = []) ∨
      (term.enumWord R ∉ DLP_NAMES ∧ document.dlpStatus ≠ Metadata.dlpValue R term.value ∧
        includes (dlpWord R document) (term.enumWord R) = true)
  | .retention =>
    term.enumWord R = utf16 "unset" ∧ document.retentionClass = some [] ∧ document.retentionUntil = none
  | .free => ¬ FoundByService R document term.text ∧ FoundByClient R document term.value
  | _ => False

/-! ## Values and fields -/

structure Term.Proper (term : Term) : Prop where
  nonempty : term.value ≠ []
  trimmed : Trimmed term.value

section
variable {R : Runtime} (hR : R.Lawful) {term : Term} (hterm : term.Proper)
include hR hterm

omit hR in
theorem word_eq : term.word R = R.toLowerCase term.value := by
  rw [Term.word, normalizeText, Option.getD_some, trimText_of_trimmed hterm.trimmed]

theorem word_ne_nil : term.word R ≠ [] := by
  rw [word_eq hterm]
  intro h
  exact hterm.nonempty (hR.lower_eq_nil _ h)

omit hterm in
theorem enumWord_word : normalizeEnumText R (some (term.word R)) = term.enumWord R :=
  normalizeEnumText_normalizeText hR _

theorem finds (t : Text) :
    includes (normalizeText R (some t)) (term.word R) = containsInsensitive R t term.value := by
  rw [includes_normalizeText hR (word_ne_nil hR hterm) (trimmed_normalizeText hR _), word_eq hterm]
  rfl

theorem found_iff (field : Option Text) :
    includes (normalizeText R field) (term.word R) = true ↔ Found R field term.value := by
  cases field with
  | none => simp [normalizeText_none hR, includes_nil (word_ne_nil hR hterm), Found]
  | some t => simp [finds hR hterm, Found]

theorem someIncludes_iff (values : List (Option Text)) :
    Web.someIncludes R values (term.word R) = true ↔ ∃ field ∈ values, Found R field term.value := by
  simp only [Web.someIncludes, List.any_eq_true, found_iff hR hterm]

end

theorem isoText_ne_nil (d : JsDate) : isoText d ≠ [] := by
  have hz : utf16Units 'Z' ≠ [] := by decide
  simp [isoText, utf16, JsDate.toISOString, hz]

theorem truthy_isoText (date : Option JsDate) : Web.truthy (date.map isoText) = date.isSome := by
  cases date with
  | none => rfl
  | some d => simp [Web.truthy, isoText_ne_nil]

theorem getTime_isoText {R : Runtime} (hR : R.Lawful) (date : Option JsDate) :
    Web.getTime R (date.map isoText) = date.map (·.ms) := by
  cases date with
  | none => rfl
  | some d =>
    have hfilter : (some (isoText d)).filter (fun t => !t.isEmpty) = some (isoText d) := by
      simp [Option.filter, isoText_ne_nil]
    have hread : R.newDate (isoText d) = some d := hR.newDate_iso d
    rw [Option.map_some, Web.getTime, hfilter, Option.bind_some, hread]

/-! ## Names of an enumeration -/

theorem find?_eq_some_iff_of_injective {α : Type} {name : α → Text} {values : List α} (hall : ∀ a, a ∈ values)
    (hname : ∀ a b, name a = name b → a = b) (n : Text) (a : α) :
    values.find? (fun v => name v = n) = some a ↔ name a = n := by
  apply Iff.intro
  · intro h
    simpa using List.find?_some h
  · intro h
    have hsome : (values.find? fun v => name v = n).isSome = true := by
      rw [List.find?_isSome]
      exact ⟨a, hall a, by simpa using h⟩
    obtain ⟨b, hb⟩ := Option.isSome_iff_exists.mp hsome
    have hbn : name b = n := by simpa using List.find?_some hb
    rw [hb, hname b a (hbn.trans h.symm)]

/-- No name is part of another one: a filter by the name is then one by its parts. -/
theorem forall_find?_iff {α : Type} {name : α → Text} {values : List α} (hall : ∀ a, a ∈ values)
    (hname : ∀ a b, includes (name a) (name b) = true → a = b) (n : Text) (a : α) :
    (∀ b, values.find? (fun v => name v = n) = some b → a = b) ↔
      includes (name a) n = true ∨ ((∀ b, name b ≠ n) ∧ includes (name a) n = false) := by
  have hinj : ∀ a b, name a = name b → a = b := fun a b h => hname a b (by rw [h]; exact includes_self _)
  simp only [find?_eq_some_iff_of_injective hall hinj]
  by_cases h : ∃ b, name b = n
  · obtain ⟨b, rfl⟩ := h
    apply Iff.intro
    · intro hb
      rw [hb b rfl]
      exact Or.inl (includes_self _)
    · intro hb c hc
      rcases hb with hb | hb
      · rw [hname a b hb, hinj c b hc]
      · exact absurd rfl (hb.1 b)
  · have hno : ∀ b, name b ≠ n := fun b hb => h ⟨b, hb⟩
    simp [hno]

def lowerUnit (u : Nat) : Nat := if 65 ≤ u ∧ u ≤ 90 then u + 32 else u

def asciiWord (t : Text) : Text :=
  replaceAll isWord (plus fun u => isOneOf "_-" u || isBlank u) (fun _ => []) (t.map lowerUnit)

theorem normalizeEnumText_ascii {R : Runtime} (hR : R.Lawful) {t : Text} (hascii : ∀ u ∈ t, u < 128)
    (htrim : trimText t = t) : normalizeEnumText R (some t) = asciiWord t := by
  rw [normalizeEnumText, normalizeText, Option.getD_some, htrim, hR.lower_ascii t hascii]
  rfl

theorem statusText_ascii (s : DocumentStatus) :
    (∀ u ∈ Metadata.statusText s, u < 128) ∧ trimText (Metadata.statusText s) = Metadata.statusText s := by
  cases s <;> decide

theorem classificationText_ascii (c : ClassificationLevel) :
    (∀ u ∈ Metadata.classificationText c, u < 128) ∧
      trimText (Metadata.classificationText c) = Metadata.classificationText c := by
  cases c <;> decide

def statusName : DocumentStatus → Text
  | .DRAFT => utf16 "draft"
  | .PENDING => utf16 "pending"
  | .PUBLISHED => utf16 "published"
  | .ARCHIVED => utf16 "archived"
  | .DELETED => utf16 "deleted"

def classificationName : ClassificationLevel → Text
  | .PUBLIC => utf16 "public"
  | .INTERNAL => utf16 "internal"
  | .CONFIDENTIAL => utf16 "confidential"
  | .SECRET => utf16 "secret"

theorem units_of_includes {t part : Text} (h : includes t part = true) : ∀ u ∈ part, u ∈ t := by
  intro u hu
  exact (of_decide_eq_true h).subset hu

-- A letter of each name is missing in each other one.
theorem statusName_letters (a b : DocumentStatus) (h : ∀ u ∈ statusName b, u ∈ statusName a) : a = b := by
  revert h
  cases a <;> cases b <;> decide

theorem classificationName_letters (a b : ClassificationLevel)
    (h : ∀ u ∈ classificationName b, u ∈ classificationName a) : a = b := by
  revert h
  cases a <;> cases b <;> decide

section
variable {R : Runtime} (hR : R.Lawful)
include hR

theorem statusWord_eq (s : DocumentStatus) : statusWord R s = statusName s := by
  have hname : asciiWord (Metadata.statusText s) = statusName s := by cases s <;> decide
  rw [statusWord, normalizeEnumText_ascii hR (statusText_ascii s).1 (statusText_ascii s).2, hname]

theorem classificationWord_eq (c : ClassificationLevel) : classificationWord R c = classificationName c := by
  have hname : asciiWord (Metadata.classificationText c) = classificationName c := by cases c <;> decide
  rw [classificationWord,
    normalizeEnumText_ascii hR (classificationText_ascii c).1 (classificationText_ascii c).2, hname]

theorem statusWord_part (a b : DocumentStatus) (h : includes (statusWord R a) (statusWord R b) = true) : a = b := by
  rw [statusWord_eq hR, statusWord_eq hR] at h
  exact statusName_letters a b (units_of_includes h)

theorem classificationWord_part (a b : ClassificationLevel)
    (h : includes (classificationWord R a) (classificationWord R b) = true) : a = b := by
  rw [classificationWord_eq hR, classificationWord_eq hR] at h
  exact classificationName_letters a b (units_of_includes h)

end

/-! ## The service, operator by operator -/

section
variable {R : Runtime} (hR : R.Lawful) {document : StoredDocument} {version : FileVersion}
  (hone : document.versions = [version]) {term : Term} (hterm : term.Proper)

theorem found_some (t value : Text) : Found R (some t) value ↔ containsInsensitive R t value = true := by
  simp [Found]

theorem found_none (value : Text) : ¬ Found R none value := by
  simp [Found]

theorem holds_contains (field : TextField) (value : Text) :
    (Where.contains field value).holds R document = true ↔ Found R (document.textField field) value := by
  simp [Where.holds, Found, Option.any_eq_true]

theorem forall_toList {α : Type} (P : α → Prop) (x : Option α) : (∀ a ∈ x.toList, P a) ↔ ∀ a, x = some a → P a := by
  simp

include hR in
theorem service_status (hop : term.operator = .status) :
    Metadata.Admits R document term ↔ Fits R document term ∨ OnlyService R document term := by
  have hall : ∀ s, s ∈ Metadata.DOCUMENT_STATUSES := by
    intro s
    cases s <;> decide
  simp only [Metadata.Admits, Metadata.filtersOf, Fits, OnlyService, hop]
  rw [← forall_find?_iff hall (statusWord_part hR)]
  simp only [forall_toList, Option.map_eq_some_iff, forall_exists_index, and_imp,
    forall_apply_eq_imp_iff₂, Where.holds, decide_eq_true_eq]
  exact Iff.rfl

include hR in
theorem service_classification (hop : term.operator = .classification) :
    Metadata.Admits R document term ↔ Fits R document term ∨ OnlyService R document term := by
  have hall : ∀ c, c ∈ Metadata.DOCUMENT_CLASSIFICATIONS := by
    intro c
    cases c <;> decide
  simp only [Metadata.Admits, Metadata.filtersOf, Fits, OnlyService, hop]
  rw [← forall_find?_iff hall (classificationWord_part hR)]
  simp only [forall_toList, Option.map_eq_some_iff, forall_exists_index, and_imp,
    forall_apply_eq_imp_iff₂, Where.holds, decide_eq_true_eq]
  exact Iff.rfl

theorem service_owner (hop : term.operator = .owner) :
    Metadata.Admits R document term ↔ Fits R document term ∨ OnlyService R document term := by
  simp [Metadata.Admits, Metadata.filtersOf, Fits, OnlyService, hop, holds_contains, StoredDocument.textField]

theorem service_tag (hop : term.operator = .tag ∨ term.operator = .folder) :
    Metadata.Admits R document term ↔ Fits R document term ∨ OnlyService R document term := by
  rcases hop with hop | hop <;> simp [Metadata.Admits, Metadata.filtersOf, Fits, OnlyService, hop, Where.holds]

include hone in
theorem service_file (hop : term.operator = .file) :
    Metadata.Admits R document term ↔ Fits R document term ∨ OnlyService R document term := by
  simp [Metadata.Admits, Metadata.filtersOf, Fits, OnlyService, hop, Where.holds,
    StoredDocument.filename, hone, found_some]

include hone in
theorem service_presence (hop : term.operator = .presence) :
    Metadata.Admits R document term ↔ Fits R document term ∨ OnlyService R document term := by
  simp only [Metadata.Admits, Metadata.filtersOf, Fits, OnlyService, hop, forall_toList,
    Metadata.buildPresenceFilter, FitsPresence]
  have hword : normalizeEnumText R (some term.value) = term.enumWord R := rfl
  rw [hword]
  generalize term.enumWord R = n
  by_cases hfile : n = utf16 "file" ∨ n = utf16 "files"
  · simp [hfile, Where.holds, hone]
  · by_cases hretention : n = utf16 "retention"
    · subst hretention
      cases huntil : document.retentionUntil with
      | some d => simp +decide [Where.holds, huntil]
      | none => cases hclass : document.retentionClass with
        | none => simp +decide [Where.holds, huntil, hclass]
        | some t => by_cases ht : t = [] <;> simp +decide [Where.holds, huntil, hclass, ht]
    · by_cases hdlp : n = utf16 "dlp"
      · subst hdlp
        simp +decide [Where.holds]
      · by_cases hhold : n = utf16 "legalhold" ∨ n = utf16 "hold"
        · simp [hfile, hretention, hdlp, hhold, Where.holds, PRESENCE_NAMES]
        · simp [hfile, hretention, hdlp, hhold, PRESENCE_NAMES]

theorem service_dlp (hop : term.operator = .dlp) :
    Metadata.Admits R document term ↔ Fits R document term ∨ OnlyService R document term := by
  have hword : normalizeEnumText R (some term.value) = term.enumWord R := rfl
  simp only [Metadata.Admits, Metadata.filtersOf, Fits, OnlyService, hop, forall_toList,
    Metadata.buildDlpStatusFilter, FitsDlp, hword]
  generalize term.enumWord R = n
  by_cases hdetected : n = utf16 "detected"
  · subst hdetected
    simp +decide [Where.holds]
  · by_cases hclear : n = utf16 "clear"
    · subst hclear
      simp +decide [Where.holds]
    · by_cases hnot : n = utf16 "notscanned"
      · subst hnot
        simp +decide [Where.holds]
      · by_cases hnil : n = []
        · subst hnil
          simp +decide
        · -- a status by any other name: the service compares the whole of it
          cases hin : includes (dlpWord R document) n <;>
            simp [hdetected, hclear, hnot, hnil, Where.holds, DLP_NAMES]

include hterm in
theorem service_retention (hop : term.operator = .retention) :
    Metadata.Admits R document term ↔ Fits R document term ∨ OnlyService R document term := by
  have hword : normalizeEnumText R (some term.value) = term.enumWord R := rfl
  have hvalue : trimText term.value ≠ [] := by
    rw [trimText_of_trimmed hterm.trimmed]
    exact hterm.nonempty
  simp only [Metadata.Admits, Metadata.filtersOf, Fits, OnlyService, hop, forall_toList,
    Metadata.buildRetentionFilter, FitsRetention, hword]
  generalize term.enumWord R = n
  by_cases hunset : n = utf16 "unset"
  · simp [hunset, Where.holds]
  · by_cases hoverdue : n = utf16 "overdue"
    · subst hoverdue
      simp +decide [Where.holds, StoredDocument.dateField, Option.any_eq_true]
    · by_cases hdue : n = utf16 "duesoon"
      · subst hdue
        simp +decide [Where.holds, StoredDocument.dateField, Metadata.DUE_SOON_DAYS, Option.any_eq_true]
      · by_cases hactive : n = utf16 "active"
        · subst hactive
          simp +decide [Where.holds, StoredDocument.dateField, Metadata.DUE_SOON_DAYS, Option.any_eq_true]
        · by_cases harchived : n = utf16 "archived"
          · subst harchived
            simp +decide [Where.holds]
          · simp [hunset, hoverdue, hdue, hactive, harchived, hvalue, Where.holds, Found, StoredDocument.textField,
              Option.any_eq_true]

theorem service_date (field : DateField) (hop : term.operator = .date field) :
    Metadata.Admits R document term ↔ Fits R document term ∨ OnlyService R document term := by
  simp [Metadata.Admits, Metadata.filtersOf, Fits, OnlyService, hop, FitsDate, Metadata.parseDateRangeQuery,
    Metadata.buildDateRangeFilter, Where.holds, Option.any_eq_true, Option.all_eq_true]

include hone in
theorem service_free (hop : term.operator = .free) :
    Metadata.Admits R document term ↔ Fits R document term ∨ OnlyService R document term := by
  have hfound : (Metadata.buildTextSearchFilter term.text).holds R document = true ↔
    FoundByService R document term.text := by
    simp only [Metadata.buildTextSearchFilter, Where.holds, Bool.or_eq_true, FoundByService,
      StoredDocument.textField,
      Option.any_eq_true, Found, StoredDocument.filename, hone, List.any_cons, List.any_nil, Bool.or_false,
      Option.all_some, List.head?_cons, Option.map_some, Option.mem_def, Option.some.injEq, List.contains_iff_mem,
      exists_eq_left']
    exact or_congr_right (or_congr_right or_comm)
  simp only [Metadata.Admits, Metadata.filtersOf, List.mem_singleton, forall_eq, Fits, OnlyService, hop, hfound]
  by_cases h : FoundByClient R document term.value <;> simp [h]

include hR hone hterm in
theorem service_admits : Metadata.Admits R document term ↔ Fits R document term ∨ OnlyService R document term := by
  cases hop : term.operator with
  | status => exact service_status hR hop
  | classification => exact service_classification hR hop
  | owner => exact service_owner hop
  | tag => exact service_tag (Or.inl hop)
  | folder => exact service_tag (Or.inr hop)
  | file => exact service_file hone hop
  | presence => exact service_presence hone hop
  | dlp => exact service_dlp hop
  | retention => exact service_retention hterm hop
  | date field => exact service_date field hop
  | free => exact service_free hone hop

/-! ## The client, operator by operator -/

theorem containsInsensitive_self {t : Text} : containsInsensitive R t t = true := includes_self _

include hR hterm in
theorem client_owner (hop : term.operator = .owner) :
    Web.admits R (toListSummary document) term = true ↔ Fits R document term ∨ OnlyClient R document term := by
  simp [Web.admits, Fits, OnlyClient, hop, someIncludes_iff hR hterm, toListSummary, Found]

include hR hterm in
theorem client_tag (hop : term.operator = .tag ∨ term.operator = .folder) :
    Web.admits R (toListSummary document) term = true ↔ Fits R document term ∨ OnlyClient R document term := by
  have hadmits : Web.admits R (toListSummary document) term = true ↔
    ∃ tag ∈ document.tags, Found R (some tag) term.value := by
    rcases hop with hop | hop <;> simp [Web.admits, hop, someIncludes_iff hR hterm, toListSummary]
  have hself : term.value ∈ document.tags → ∃ tag ∈ document.tags, Found R (some tag) term.value := by
    intro h
    exact ⟨term.value, h, (found_some _ _).mpr containsInsensitive_self⟩
  rw [hadmits]
  by_cases h : term.value ∈ document.tags
  · rcases hop with hop | hop <;> simp [Fits, OnlyClient, hop, h, hself h]
  · rcases hop with hop | hop <;> simp [Fits, OnlyClient, hop, h]

include hR hterm in
theorem client_file (hop : term.operator = .file) :
    Web.admits R (toListSummary document) term = true ↔ Fits R document term ∨ OnlyClient R document term := by
  simp only [Web.admits, Fits, OnlyClient, hop, found_iff hR hterm, toListSummary,
    StoredDocument.filename, or_false]

include hR hone in
theorem client_presence (hop : term.operator = .presence) :
    Web.admits R (toListSummary document) term = true ↔ Fits R document term ∨ OnlyClient R document term := by
  simp only [Web.admits, Fits, OnlyClient, hop, Web.matchesPresenceOperator,
    enumWord_word hR, FitsPresence, or_false]
  generalize term.enumWord R = n
  by_cases hfile : n = utf16 "file" ∨ n = utf16 "files"
  · simp [hfile, Web.documentHasFile, toListSummary, hone]
  · by_cases hretention : n = utf16 "retention"
    · subst hretention
      have hclass : Web.truthy (toListSummary document).retentionClass = true ↔
        ∃ t ∈ document.retentionClass, t ≠ [] := by
        simp [Web.truthy, toListSummary, Option.any_eq_true]
      have huntil : Web.truthy (toListSummary document).retentionUntil = document.retentionUntil.isSome :=
        truthy_isoText _
      simp +decide only [if_false, if_true, Bool.or_eq_true, hclass, huntil, Option.isSome_iff_ne_none]
    · by_cases hdlp : n = utf16 "dlp"
      · subst hdlp
        simp +decide [toListSummary]
      · simp [hfile, hretention, hdlp]

include hR in
theorem client_dlp (hop : term.operator = .dlp) :
    Web.admits R (toListSummary document) term = true ↔ Fits R document term ∨ OnlyClient R document term := by
  have hdlp : normalizeEnumText R (toListSummary document).dlpStatus = dlpWord R document := rfl
  simp only [Web.admits, Fits, OnlyClient, hop, Web.matchesDlpOperator, enumWord_word hR, FitsDlp, hdlp]
  generalize term.enumWord R = n
  by_cases hdetected : n = utf16 "detected"
  · subst hdetected
    simp +decide [toListSummary]
  · by_cases hclear : n = utf16 "clear"
    · subst hclear
      simp +decide [toListSummary]
    · by_cases hnot : n = utf16 "notscanned"
      · subst hnot
        simp +decide [toListSummary, Web.truthy, or_comm]
      · by_cases hnil : n = []
        · subst hnil
          simp +decide [includes]
        · -- a status by any other name: the client looks for a part of it
          by_cases hvalue : document.dlpStatus = Metadata.dlpValue R term.value <;>
            simp [hdetected, hclear, hnot, hnil, DLP_NAMES, hvalue]

include hR hterm in
theorem client_retention (hop : term.operator = .retention) :
    Web.admits R (toListSummary document) term = true ↔ Fits R document term ∨ OnlyClient R document term := by
  have htime : Web.getTime R (toListSummary document).retentionUntil = document.retentionUntil.map (·.ms) :=
    getTime_isoText hR _
  have hword : normalizeText R (some (term.word R)) = term.word R := normalizeText_normalizeText hR _
  simp only [Web.admits, Fits, OnlyClient, hop, Web.matchesRetentionOperator, enumWord_word hR,
    FitsRetention, htime, hword]
  generalize term.enumWord R = n
  by_cases hunset : n = utf16 "unset"
  · subst hunset
    have huntil : Web.truthy (toListSummary document).retentionUntil = document.retentionUntil.isSome :=
      truthy_isoText _
    rw [if_pos rfl, if_pos rfl, huntil]
    cases hdate : document.retentionUntil with
    | some d => simp
    | none => cases hclass : document.retentionClass with
      | none => simp [toListSummary, Web.truthy, hclass]
      | some t => simp [toListSummary, Web.truthy, hclass]
  · by_cases hoverdue : n = utf16 "overdue"
    · subst hoverdue
      simp +decide [Option.any_eq_true]
    · by_cases hdue : n = utf16 "duesoon"
      · subst hdue
        simp +decide [Option.any_eq_true, DAY_MS]
      · by_cases hactive : n = utf16 "active"
        · subst hactive
          simp +decide [Option.any_eq_true, DAY_MS]
        · by_cases harchived : n = utf16 "archived"
          · subst harchived
            have hstatus : (toListSummary document).status = document.status := rfl
            simp +decide only [if_false, if_true, hstatus, decide_eq_true_eq, false_and, or_false]
          · rw [if_neg hunset, if_neg hoverdue, if_neg hdue, if_neg hactive, if_neg harchived,
              someIncludes_iff hR hterm]
            simp [hunset, hoverdue, hdue, hactive, harchived, toListSummary]

include hR hterm in
theorem client_date (field : DateField) (hop : term.operator = .date field) :
    Web.admits R (toListSummary document) term = true ↔ Fits R document term ∨ OnlyClient R document term := by
  have hparse : Web.parseDateRangeQuery R field term.value = parseRange R field term.value := by
    rw [Web.parseDateRangeQuery, trimText_of_trimmed hterm.trimmed, if_neg hterm.nonempty]
  have hdate : ∀ f, Web.dateOf (toListSummary document) f = (document.dateField f).map isoText := by
    intro f
    cases f <;> simp only [Web.dateOf, toListSummary, StoredDocument.dateField, Option.map_some]
  have htime : ∀ f, Web.getTime R (Web.dateOf (toListSummary document) f) = (document.dateField f).map (·.ms) := by
    intro f
    rw [hdate, getTime_isoText hR]
  simp [Web.admits, Fits, OnlyClient, hop, hparse, FitsDate, Web.matchesDateRange, htime, Option.any_eq_true,
    Option.all_eq_true]

include hR hone hterm in
theorem client_free (hop : term.operator = .free) :
    Web.admits R (toListSummary document) term = true ↔ Fits R document term ∨ OnlyClient R document term := by
  have hfound : Web.documentMatchesFreeText R (toListSummary document) (term.word R) = true ↔
      FoundByClient R document term.value := by
    rw [Web.documentMatchesFreeText, someIncludes_iff hR hterm]
    simp [toListSummary, FoundByClient, StoredDocument.filename, hone, found_none]
  simp only [Web.admits, Fits, OnlyClient, hop, hfound]
  by_cases h : FoundByService R document term.text <;> simp [h]

include hR in
theorem client_names (hop : term.operator = .status ∨ term.operator = .classification) :
    Web.admits R (toListSummary document) term = true ↔ Fits R document term ∨ OnlyClient R document term := by
  rcases hop with hop | hop
  · simp only [Web.admits, Fits, OnlyClient, hop, enumWord_word hR, or_false]
    exact Iff.rfl
  · simp only [Web.admits, Fits, OnlyClient, hop, enumWord_word hR, or_false]
    exact Iff.rfl

include hR hone hterm in
theorem client_admits :
    Web.admits R (toListSummary document) term = true ↔ Fits R document term ∨ OnlyClient R document term := by
  cases hop : term.operator with
  | status => exact client_names hR (Or.inl hop)
  | classification => exact client_names hR (Or.inr hop)
  | owner => exact client_owner hR hterm hop
  | tag => exact client_tag hR hterm (Or.inl hop)
  | folder => exact client_tag hR hterm (Or.inr hop)
  | file => exact client_file hR hterm hop
  | presence => exact client_presence hR hone hop
  | dlp => exact client_dlp hR hop
  | retention => exact client_retention hR hterm hop
  | date field => exact client_date hR hterm field hop
  | free => exact client_free hR hone hterm hop

theorem not_fits_of_onlyService (h : OnlyService R document term) : ¬ Fits R document term := by
  cases hop : term.operator with
  | status => simp_all [OnlyService, Fits]
  | classification => simp_all [OnlyService, Fits]
  | presence =>
    simp only [OnlyService, Fits, hop, FitsPresence] at h ⊢
    rcases h with ⟨hn, hclass, huntil⟩ | ⟨hn, -⟩ | hn
    · simp +decide [hn, hclass, huntil]
    · rcases hn with hn | hn <;> simp +decide [hn]
    · simp only [PRESENCE_NAMES, List.mem_cons, List.not_mem_nil, or_false, not_or] at hn
      simp [hn]
  | dlp =>
    simp only [OnlyService, Fits, hop, FitsDlp, DLP_NAMES, List.mem_cons, List.not_mem_nil, or_false, not_or] at h ⊢
    simp [h]
  | free => simp_all [OnlyService, Fits]
  | _ => simp_all [OnlyService]

theorem not_fits_of_onlyClient (h : OnlyClient R document term) : ¬ Fits R document term := by
  cases hop : term.operator with
  | tag => simp_all [OnlyClient, Fits]
  | folder => simp_all [OnlyClient, Fits]
  | dlp =>
    simp only [OnlyClient, Fits, hop, FitsDlp, DLP_NAMES, List.mem_cons, List.not_mem_nil, or_false, not_or] at h ⊢
    rcases h with ⟨hn, hstatus⟩ | h
    · simp +decide [hn, hstatus]
    · simp [h]
  | retention =>
    simp only [OnlyClient, Fits, hop, FitsRetention] at h ⊢
    simp [h]
  | free => simp_all [OnlyClient, Fits]
  | _ => simp_all [OnlyClient]

theorem not_onlyClient_of_onlyService (h : OnlyService R document term) : ¬ OnlyClient R document term := by
  cases hop : term.operator with
  | dlp =>
    simp only [OnlyService, OnlyClient, hop] at h ⊢
    obtain ⟨hn, hstatus, -⟩ := h
    have hnot : term.enumWord R ≠ utf16 "notscanned" := by
      intro h
      exact hn (by simp [DLP_NAMES, h])
    simp [hnot, hstatus]
  | free => simp_all [OnlyService, OnlyClient]
  | presence => simp [OnlyClient, hop]
  | status => simp [OnlyClient, hop]
  | classification => simp [OnlyClient, hop]
  | _ => simp_all [OnlyService]

end

/-! ## Whole searches -/

/-- Two conjunctions that share what fits: each admits more, and never the same. -/
theorem forall_or_congr_iff {α : Type} {l : List α} {fits left right : α → Prop} (hleft : ∀ x, left x → ¬ fits x)
    (hright : ∀ x, right x → ¬ fits x) (hboth : ∀ x, left x → ¬ right x) :
    ((∀ x ∈ l, fits x ∨ left x) ↔ ∀ x ∈ l, fits x ∨ right x) ↔
      (∀ x ∈ l, ¬ left x ∧ ¬ right x) ∨ (∃ x ∈ l, ¬ fits x ∧ ¬ left x ∧ ¬ right x) ∨
        ((∃ x ∈ l, left x) ∧ ∃ x ∈ l, right x) := by
  apply Iff.intro
  · intro hiff
    by_cases hall : ∀ x ∈ l, fits x ∨ left x
    · refine Or.inl fun x hx => ?_
      have hl := hall x hx
      have hr := hiff.mp hall x hx
      grind
    · have hnot : ¬ ∀ x ∈ l, fits x ∨ right x := fun h => hall (hiff.mpr h)
      grind
  · intro h
    rcases h with hnone | ⟨x, hx, hno, hl, hr⟩ | ⟨⟨x, hx, hl⟩, y, hy, hr⟩
    · exact forall₂_congr fun x hx => by simp [hnone x hx]
    · exact iff_of_false (fun h => (h x hx).elim hno hl) fun h => (h x hx).elim hno hr
    · exact iff_of_false (fun h => (h y hy).elim (hright y hr) fun hl => hboth y hl hr)
        fun h => (h x hx).elim (hleft x hl) (hboth x hl)

/-- The terms of a search: a token without a value is left out. -/
def terms (search : Text) : List Term := ((tokens search).map (Token.term R)).filter fun t => t.value ≠ []

theorem proper_of_mem_terms {search : Text} (h : term ∈ terms R search) : term.Proper := by
  obtain ⟨hmem, hne⟩ := List.mem_filter.mp h
  obtain ⟨t, -, rfl⟩ := List.mem_map.mp hmem
  exact ⟨of_decide_eq_true hne, trimmed_trimText _⟩

theorem forall_terms (P : Term → Prop) (search : Text) :
    (∀ t ∈ tokens search, (t.term R).value ≠ [] → P (t.term R)) ↔ ∀ term ∈ terms R search, P term := by
  simp only [terms, List.mem_filter, List.mem_map, decide_eq_true_eq, and_imp, forall_exists_index,
    forall_apply_eq_imp_iff₂]

/-- No term divides the sides, or both refuse the document for one term, or
each side refuses it for a term of its own. -/
def ReadAlike (search : Text) : Prop :=
  (∀ term ∈ terms R search, ¬ OnlyService R document term ∧ ¬ OnlyClient R document term) ∨
    (∃ term ∈ terms R search, ¬ Fits R document term ∧ ¬ OnlyService R document term ∧
      ¬ OnlyClient R document term) ∨
    ((∃ term ∈ terms R search, OnlyService R document term) ∧ ∃ term ∈ terms R search, OnlyClient R document term)

theorem searches_agree_iff {R : Runtime} (hR : R.Lawful) {document : StoredDocument} {version : FileVersion}
    (hone : document.versions = [version]) (search : Text) :
    (Metadata.selects R search document = true ↔ Web.accepts R search (toListSummary document) = true) ↔
      ReadAlike R document search := by
  have hservice : Metadata.selects R search document = true ↔
      ∀ term ∈ terms R search, Fits R document term ∨ OnlyService R document term := by
    rw [Metadata.selects_iff, forall_terms]
    exact forall₂_congr fun term h => service_admits hR hone (proper_of_mem_terms R term h)
  have hclient : Web.accepts R search (toListSummary document) = true ↔
      ∀ term ∈ terms R search, Fits R document term ∨ OnlyClient R document term := by
    rw [Web.accepts_iff hR, forall_terms R (fun term => Web.admits R (toListSummary document) term = true)]
    exact forall₂_congr fun term h => client_admits hR hone (proper_of_mem_terms R term h)
  rw [hservice, hclient]
  exact forall_or_congr_iff (fun _ => not_fits_of_onlyService) (fun _ => not_fits_of_onlyClient)
    fun _ => not_onlyClient_of_onlyService

/-! ## A runtime -/

def fromUtf16 : Text → List Char
  | [] => []
  | u :: rest =>
    if 0xD800 ≤ u ∧ u < 0xDC00 then
      match rest with
      | [] => []
      | v :: rest => Char.ofNat (0x10000 + (u - 0xD800) * 0x400 + (v - 0xDC00)) :: fromUtf16 rest
    else Char.ofNat u :: fromUtf16 rest

theorem fromUtf16_append (c : Char) (rest : Text) : fromUtf16 (utf16Units c ++ rest) = c :: fromUtf16 rest := by
  have hvalid : c.toNat < 0xD800 ∨ (0xDFFF < c.toNat ∧ c.toNat < 0x110000) := c.valid
  unfold utf16Units
  by_cases hsmall : c.toNat < 0x10000
  · have hunit : ¬ (0xD800 ≤ c.toNat ∧ c.toNat < 0xDC00) := by omega
    rw [if_pos hsmall, List.singleton_append, fromUtf16.eq_def]
    simp only [if_neg hunit, Char.ofNat_toNat]
  · have hunit : 0xD800 ≤ 0xD800 + (c.toNat - 0x10000) / 0x400 ∧
      0xD800 + (c.toNat - 0x10000) / 0x400 < 0xDC00 := by omega
    have hback : 0x10000 + (0xD800 + (c.toNat - 0x10000) / 0x400 - 0xD800) * 0x400 +
        (0xDC00 + (c.toNat - 0x10000) % 0x400 - 0xDC00) = c.toNat := by omega
    rw [if_neg hsmall, List.cons_append, List.singleton_append, fromUtf16.eq_def]
    simp only [if_pos hunit, hback, Char.ofNat_toNat]

theorem fromUtf16_utf16 (s : String) : fromUtf16 (utf16 s) = s.toList := by
  rw [utf16]
  induction s.toList with
  | nil => rfl
  | cons c l ih => rw [List.flatMap_cons, fromUtf16_append, ih]

def upperUnit (u : Nat) : Nat := if 97 ≤ u ∧ u ≤ 122 then u - 32 else u

def sampleRuntime : Runtime where
  toLowerCase t := t.map lowerUnit
  toUpperCase t := t.map upperUnit
  newDate t := readInstant (String.ofList (fromUtf16 t))
  now := 0

theorem sampleRuntime_newDate (t : Text) :
    sampleRuntime.newDate t = readInstant (String.ofList (fromUtf16 t)) := rfl

theorem isBlank_lowerUnit (u : Nat) : isBlank (lowerUnit u) = isBlank u := by
  unfold lowerUnit
  by_cases hu : 65 ≤ u ∧ u ≤ 90
  · have hall : ∀ u ≤ 90, 65 ≤ u → isBlank (u + 32) = isBlank u := by decide
    rw [if_pos hu, hall u hu.2 hu.1]
  · rw [if_neg hu]

theorem trimText_map (t : Text) : trimText (t.map lowerUnit) = (trimText t).map lowerUnit := by
  have hblank : isBlank ∘ lowerUnit = isBlank := funext isBlank_lowerUnit
  simp only [trimText, List.dropWhile_map, hblank, ← List.map_reverse]

theorem sampleRuntime_lawful : sampleRuntime.Lawful := by
  refine ⟨fun t => (trimText_map t).symm, fun t => ?_, fun t ht => List.map_eq_nil_iff.mp ht,
    fun t _ => rfl, fun d => ?_⟩
  · have hunit : ∀ u, lowerUnit (lowerUnit u) = lowerUnit u := by
      intro u
      unfold lowerUnit
      grind
    exact (List.map_map).trans (List.map_congr_left fun u _ => hunit u)
  · rw [sampleRuntime_newDate, fromUtf16_utf16, String.ofList_toList, readInstant_iso]

def heldLease : StoredDocument where
  title := utf16 "Lease"
  description := none
  ownerId := utf16 "alice"
  classification := .INTERNAL
  dlpStatus := utf16 "CLEAR"
  retentionClass := none
  retentionUntil := none
  retentionReason := none
  legalHold := true
  tags := []
  status := .PUBLISHED
  currentVersion := 1
  createdAt := .epoch
  updatedAt := .epoch
  versions := [⟨utf16 "lease.pdf", none, 1⟩]

theorem lease_searched : (Metadata.selects sampleRuntime (utf16 "owner:alice") heldLease = true ↔
    Web.accepts sampleRuntime (utf16 "owner:alice") (toListSummary heldLease) = true) ↔
      ReadAlike sampleRuntime heldLease (utf16 "owner:alice") :=
  searches_agree_iff sampleRuntime_lawful rfl _

/-- The filter that the client suggests for the documents under legal hold. -/
theorem held_lease_lost : ¬ ∀ (R : Runtime) (document : StoredDocument) (version : FileVersion) (search : Text),
    R.Lawful → document.versions = [version] →
      (Metadata.selects R search document = true ↔ Web.accepts R search (toListSummary document) = true) := by
  intro h
  have hselects : Metadata.selects sampleRuntime (utf16 "has:legal-hold") heldLease = true := by decide
  have haccepts : Web.accepts sampleRuntime (utf16 "has:legal-hold") (toListSummary heldLease) = false := by decide
  have haccepted := (h sampleRuntime heldLease _ (utf16 "has:legal-hold") sampleRuntime_lawful rfl).mp hselects
  rw [haccepts] at haccepted
  cases haccepted

end DocVault.Search
