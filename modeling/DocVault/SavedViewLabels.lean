import Mathlib.Data.List.Chain
import DocVault.SavedViews
import DocVault.SearchSuggestions

/-!
# What storage keeps of a label and of the filters

A label that has been normalized is normalized again when it is read back, and
so are the filters. The filters stay as they are, and the label does unless it
was cut behind a blank.
-/

namespace DocVault.SavedViews

open Regex Search Search.Web

/-! ## Collapsed texts -/

/-- The blanks of a text are single spaces. -/
def Single (t : Text) : Prop :=
  (∀ u ∈ t, isBlank u = true → u = 32) ∧ t.IsChain fun u v => isBlank u = true → isBlank v = false

abbrev collapse (t : Text) : Text := replaceAll isWord (plus isBlank) (fun _ => utf16 " ") t

theorem isBlank_space : isBlank 32 = true := by decide

/-- A text is taken apart into its runs of blanks and the units between them. -/
theorem blanks_induct {P : Text → Prop} (nil : P []) (cons : ∀ u t, isBlank u = false → P t → P (u :: t))
    (blanks : ∀ w t, w ≠ [] → (∀ u ∈ w, isBlank u = true) → (∀ u ∈ t.head?, isBlank u = false) → P t → P (w ++ t))
    (t : Text) : P t := by
  induction hn : t.length using Nat.strongRecOn generalizing t with
  | ind n ih =>
    cases t with
    | nil => exact nil
    | cons u t =>
      rw [List.length_cons] at hn
      by_cases hu : isBlank u = true
      · have hlen := List.length_dropWhile_le isBlank t
        rw [← List.takeWhile_append_dropWhile (p := isBlank) (l := t), ← List.cons_append]
        refine blanks _ _ (by simp) (fun v hv => ?_) (head?_dropWhile isBlank t) (ih _ (by omega) _ rfl)
        obtain rfl | hv := List.mem_cons.mp hv
        · exact hu
        · exact List.mem_takeWhile_imp hv
      · exact cons u t (by simpa using hu) (ih _ (by omega) t rfl)

section
variable {u : Nat} {w t : Text}

theorem collapse_nil : collapse [] = [] := replaceAll_plus_nil

theorem collapse_cons (hu : isBlank u = false) : collapse (u :: t) = u :: collapse t := replaceAll_plus_cons hu t

theorem collapse_blanks (hne : w ≠ []) (hw : ∀ u ∈ w, isBlank u = true) (ht : ∀ u ∈ t.head?, isBlank u = false) :
    collapse (w ++ t) = 32 :: collapse t := replaceAll_plus_append hne hw ht

theorem head_collapse (h : ∀ u ∈ t.head?, isBlank u = false) : (collapse t).head? = t.head? := by
  cases t with
  | nil => rw [collapse_nil]
  | cons u t => rw [collapse_cons (h u rfl)]; rfl

theorem single_collapse (t : Text) : Single (collapse t) := by
  induction t using blanks_induct with
  | nil =>
    rw [collapse_nil]
    exact ⟨by simp, List.IsChain.nil⟩
  | cons u t hu ih =>
    rw [collapse_cons hu]
    refine ⟨fun v hv hblank => ?_, List.isChain_cons.mpr ⟨fun v _ hblank => ?_, ih.2⟩⟩
    · obtain rfl | hv := List.mem_cons.mp hv
      · rw [hu] at hblank
        cases hblank
      · exact ih.1 v hv hblank
    · rw [hu] at hblank
      cases hblank
  | blanks w t hne hw ht ih =>
    rw [collapse_blanks hne hw ht]
    refine ⟨fun v hv hblank => ?_, List.isChain_cons.mpr ⟨fun v hv _ => ?_, ih.2⟩⟩
    · obtain rfl | hv := List.mem_cons.mp hv
      · rfl
      · exact ih.1 v hv hblank
    · rw [head_collapse ht] at hv
      exact ht v hv

theorem Single.of_part {s : Text} (h : Single t) (hs : s <:+: t) : Single s := by
  obtain ⟨a, b, rfl⟩ := hs
  exact ⟨fun u hu => h.1 u (by simp [hu]), h.2.left_of_append.right_of_append⟩

theorem Single.collapse_eq (h : Single t) : collapse t = t := by
  induction t with
  | nil => exact collapse_nil
  | cons u t ih =>
    have htail := ih (h.of_part (List.suffix_cons u t).isInfix)
    by_cases hu : isBlank u = true
    · have hspace := h.1 u List.mem_cons_self hu
      have hnext : ∀ v ∈ t.head?, isBlank v = false := fun v hv => (List.isChain_cons.mp h.2).1 v hv hu
      have hrun := collapse_blanks (w := [u]) (by simp) (by simpa using hu) hnext
      rw [List.singleton_append] at hrun
      rw [hrun, htail, hspace]
    · rw [collapse_cons (by simpa using hu), htail]

/-- The text does not end with a blank. -/
def EndsPlain (t : Text) : Prop := ∀ u ∈ t.getLast?, isBlank u = false

theorem endsPlain_cons (h : EndsPlain t) (hne : t ≠ []) : EndsPlain (u :: t) := by
  intro v hv
  rw [List.getLast?_cons, List.getLast?_eq_some_getLast hne] at hv
  exact h v (by rw [List.getLast?_eq_some_getLast hne]; exact hv)

theorem endsPlain_of_append (h : EndsPlain (w ++ t)) : EndsPlain t := by
  intro v hv
  refine h v ?_
  rw [List.getLast?_append, Option.mem_def.mp hv]
  rfl

theorem collapse_ne_nil : t ≠ [] → collapse t ≠ [] := by
  induction t using blanks_induct with
  | nil => exact fun h => absurd rfl h
  | cons u t hu => simp [collapse_cons hu]
  | blanks w t hw hall ht => simp [collapse_blanks hw hall ht]

theorem endsPlain_collapse (h : EndsPlain t) : EndsPlain (collapse t) := by
  induction t using blanks_induct with
  | nil => rwa [collapse_nil]
  | cons u t hu ih =>
    rw [collapse_cons hu]
    by_cases hne : t = []
    · subst hne
      rw [collapse_nil]
      exact h
    · exact endsPlain_cons (ih (endsPlain_of_append (w := [u]) h)) (collapse_ne_nil hne)
  | blanks w t hw hall ht ih =>
    rw [collapse_blanks hw hall ht]
    by_cases hne : t = []
    · -- A text that ends plainly does not end in a run of blanks.
      subst hne
      rw [List.append_nil] at h
      have hlast := h (w.getLast hw) (List.getLast?_eq_some_getLast hw)
      rw [hall _ (List.getLast_mem hw)] at hlast
      cases hlast
    · exact endsPlain_cons (ih (endsPlain_of_append h)) (collapse_ne_nil hne)

theorem trimmed_iff : Trimmed t ↔ (∀ u ∈ t.head?, isBlank u = false) ∧ EndsPlain t := by
  rw [Trimmed, dropWhile_eq_self_iff_head, dropWhile_eq_self_iff_head, List.head?_reverse]
  rfl

end

/-! ## Labels -/

/-- Behind the last unit that is kept of a label stands another word. -/
def CutAtBlank (label : Text) : Prop := (collapsed label)[47]? = some 32

instance (label : Text) : Decidable (CutAtBlank label) := inferInstanceAs (Decidable (_ = _))

section
variable (label : Text)

theorem collapsed_ends : EndsPlain (collapsed label) :=
  endsPlain_collapse (trimmed_iff.mp (trimmed_trimText label)).2

theorem collapsed_head : ∀ u ∈ (collapsed label).head?, isBlank u = false := by
  have hhead := (trimmed_iff.mp (trimmed_trimText label)).1
  rw [collapsed, head_collapse hhead]
  exact hhead

theorem take_head {t : Text} {n : Nat} (hn : n ≠ 0) : (t.take n).head? = t.head? := by
  cases t <;> cases n <;> simp_all

/-- The part of a label that is kept ends plainly unless it was cut at a blank. -/
theorem take_endsPlain_iff : EndsPlain ((collapsed label).take 48) ↔ ¬CutAtBlank label := by
  have hends := collapsed_ends label
  have hlast : ((collapsed label).take 48).getLast? = (collapsed label)[47]?.or (collapsed label).getLast? := by
    rw [List.getLast?_take]
    rfl
  rw [EndsPlain, hlast, CutAtBlank]
  cases hunit : (collapsed label)[47]? with
  | none => simpa [EndsPlain] using hends
  | some u =>
    have hblank : isBlank u = true → u = 32 := (single_collapse _).1 u (List.mem_of_getElem? hunit)
    by_cases hu : isBlank u = true
    · simp [hblank hu, isBlank_space]
    · have hne : u ≠ 32 := fun heq => hu (heq ▸ isBlank_space)
      simp [hu, hne]

theorem normalizeLabel_eq (hne : (collapsed label).take 48 ≠ []) :
    normalizeLabel label = (collapsed label).take 48 := by
  rw [normalizeLabel]
  exact if_neg hne

/-- A collapsed text that is not longer than a label is only trimmed. -/
theorem normalizeLabel_single {t : Text} (hsingle : Single t) (hlen : t.length ≤ 48) (hne : t ≠ [])
    (hhead : ∀ u ∈ t.head?, isBlank u = false) : normalizeLabel t = trimText t := by
  obtain ⟨lead, trail, heq, -, -⟩ := trimText_split t
  have hpart : trimText t <:+: t := ⟨lead, trail, heq.symm⟩
  have htrim : trimText t ≠ [] := by
    obtain ⟨u, rest, rfl⟩ := List.exists_cons_of_ne_nil hne
    exact trimText_ne_nil List.mem_cons_self (hhead u rfl)
  have hcollapsed : collapsed t = trimText t := (hsingle.of_part hpart).collapse_eq
  have htake : (trimText t).take 48 = trimText t := List.take_of_length_le (hpart.length_le.trans hlen)
  rw [normalizeLabel_eq, hcollapsed, htake]
  rw [hcollapsed, htake]
  exact htrim

/-- A label stays as it is when it is normalized again, unless it was cut at a blank. -/
theorem normalizeLabel_fixed_iff : normalizeLabel (normalizeLabel label) = normalizeLabel label ↔
    ¬CutAtBlank label := by
  by_cases hne : (collapsed label).take 48 = []
  · have hnil : collapsed label = [] := by simpa using hne
    have hlabel : normalizeLabel label = utf16 "Saved view" := by rw [normalizeLabel]; exact if_pos hne
    have hcut : ¬CutAtBlank label := by simp [CutAtBlank, hnil]
    rw [hlabel]
    exact iff_of_true (by decide) hcut
  · have hhead : ∀ u ∈ ((collapsed label).take 48).head?, isBlank u = false := by
      rw [take_head (by decide)]
      exact collapsed_head label
    have hsingle : Single ((collapsed label).take 48) := (single_collapse _).of_part (List.take_prefix 48 _).isInfix
    rw [normalizeLabel_eq label hne, normalizeLabel_single hsingle (List.length_take_le _ _) hne hhead,
      ← take_endsPlain_iff]
    apply Iff.intro
    · intro h
      have htrimmed := trimmed_trimText ((collapsed label).take 48)
      rw [h] at htrimmed
      exact (trimmed_iff.mp htrimmed).2
    · intro h
      exact trimText_of_trimmed (trimmed_iff.mpr ⟨hhead, h⟩)

theorem normalizeLabel_trim : trimText (normalizeLabel label) ≠ [] := by
  by_cases hne : (collapsed label).take 48 = []
  · have hlabel : normalizeLabel label = utf16 "Saved view" := by rw [normalizeLabel]; exact if_pos hne
    rw [hlabel]
    decide
  · rw [normalizeLabel_eq label hne]
    obtain ⟨u, rest, heq⟩ := List.exists_cons_of_ne_nil hne
    refine trimText_ne_nil (u := u) (by rw [heq]; exact List.mem_cons_self) (collapsed_head label u ?_)
    rw [← take_head (n := 48) (by decide), heq]
    rfl

end

/-! ## Filters -/

/-- What a URL parameter keeps of a text. -/
def usvText (t : Text) : Text := utf16 (usvString t)

section
variable {u : Nat} {t : Text} {c : Char}

theorem usvText_eq (t : Text) : usvText t = (Json.ofUtf16 t).flatMap utf16Units := by
  rw [usvText, usvString, utf16, String.toList_ofList]

@[simp] theorem usvText_nil : usvText [] = [] := rfl

theorem usvString_utf16 (s : String) : usvString (utf16 s) = s := by
  rw [usvString, utf16, Json.ofUtf16_utf16, String.ofList_toList]

theorem usvText_utf16 (s : String) : usvText (utf16 s) = utf16 s := congrArg utf16 (usvString_utf16 s)

theorem usvText_usvText (t : Text) : usvText (usvText t) = usvText t := usvText_utf16 (usvString t)

theorem isSpace_small (hc : isSpace c = true) : c.toNat < 0xD800 ∨ c = '\ufeff' := by
  simp only [isSpace, Bool.or_eq_true, decide_eq_true_eq, Bool.and_eq_true, List.mem_cons,
    List.not_mem_nil, or_false] at hc
  obtain hc | hc := hc
  · rcases hc with rfl | rfl | rfl | rfl | rfl | rfl | rfl | rfl | rfl | rfl | rfl | rfl | rfl | rfl <;> decide
  · exact .inl (by omega)

theorem isSpace_large (hc : 0x10000 ≤ c.toNat) : isSpace c = false := by
  rw [Bool.eq_false_iff]
  intro hspace
  obtain hsmall | rfl := isSpace_small hspace
  · omega
  · exact absurd hc (by decide)

theorem isBlank_surrogate (hu : 0xD800 ≤ u) (hlt : u < 0xE000) : isBlank u = false := by
  have hvalid : ¬u.isValidChar := by
    intro h
    obtain h | h := h <;> omega
  have hchar : Char.ofNat u = '\x00' := by
    rw [Char.ofNat, dif_neg hvalid]
    rfl
  rw [isBlank, hchar]
  decide

/-- A character's units are blank only where it is a space. -/
theorem units_plain (hc : isSpace c = false) : ∀ v ∈ utf16Units c, isBlank v = false := by
  intro v hv
  rw [utf16Units] at hv
  split at hv
  · rw [List.mem_singleton.mp hv, isBlank, Char.ofNat_toNat]
    exact hc
  · have hmax : c.toNat < 0x110000 := by
      obtain hvalid | hvalid : c.toNat.isValidChar := c.valid
      · exact hvalid.trans (by decide)
      · exact hvalid.2
    simp only [List.mem_cons, List.not_mem_nil, or_false] at hv
    obtain hv | hv := hv
    · rw [hv]
      exact isBlank_surrogate (by omega) (by omega)
    · rw [hv]
      exact isBlank_surrogate (by omega) (by omega)

theorem unitChar_plain (hu : isBlank u = false) : isSpace (Json.unitChar u) = false := by
  rw [Json.unitChar]
  split
  · decide
  · exact hu

theorem pairChar_plain {high low : Nat} (h : 0xD800 ≤ high ∧ high < 0xDC00 ∧ 0xDC00 ≤ low ∧ low < 0xE000) :
    isSpace (Char.ofNat (0x10000 + (high - 0xD800) * 0x400 + (low - 0xDC00))) = false := by
  apply isSpace_large
  have hvalid : (0x10000 + (high - 0xD800) * 0x400 + (low - 0xDC00)).isValidChar := .inr (by omega)
  have hval : (Char.ofNat (0x10000 + (high - 0xD800) * 0x400 + (low - 0xDC00))).toNat =
      0x10000 + (high - 0xD800) * 0x400 + (low - 0xDC00) := by
    rw [Char.ofNat, dif_pos hvalid]
    rfl
  omega

theorem head_chars (h : ∀ u ∈ t.head?, isBlank u = false) : ∀ c ∈ (Json.ofUtf16 t).head?, isSpace c = false := by
  fun_cases Json.ofUtf16 t with
  | case1 => simp
  | case2 unit =>
    intro c hc
    obtain rfl := Option.some.inj hc
    exact unitChar_plain (h unit rfl)
  | case3 high low units hpair =>
    intro c hc
    rw [← Option.some.inj hc]
    exact pairChar_plain hpair
  | case4 high low units hpair =>
    intro c hc
    obtain rfl := Option.some.inj hc
    exact unitChar_plain (h high rfl)

theorem ofUtf16_ne_nil (u : Nat) (t : Text) : Json.ofUtf16 (u :: t) ≠ [] := by
  cases t with
  | nil => simp [Json.ofUtf16]
  | cons v t =>
    rw [Json.ofUtf16]
    split <;> simp

theorem last_chars (h : EndsPlain t) : ∀ c ∈ (Json.ofUtf16 t).getLast?, isSpace c = false := by
  fun_induction Json.ofUtf16 t with
  | case1 => simp
  | case2 unit =>
    intro c hc
    obtain rfl := Option.some.inj hc
    exact unitChar_plain (h unit rfl)
  | case3 high low units hpair ih =>
    intro c hc
    rw [List.getLast?_cons] at hc
    cases hlast : (Json.ofUtf16 units).getLast? with
    | none =>
      rw [hlast, Option.getD_none, Option.mem_def, Option.some.injEq] at hc
      rw [← hc]
      exact pairChar_plain hpair
    | some d =>
      rw [hlast] at hc
      obtain rfl := Option.some.inj hc
      exact ih (endsPlain_of_append (w := [high, low]) h) d hlast
  | case4 high low units hpair ih =>
    intro c hc
    rw [List.getLast?_cons] at hc
    cases hlast : (Json.ofUtf16 (low :: units)).getLast? with
    | none =>
      exact absurd (List.getLast?_eq_none_iff.mp hlast) (ofUtf16_ne_nil low units)
    | some d =>
      rw [hlast] at hc
      obtain rfl := Option.some.inj hc
      exact ih (endsPlain_of_append (w := [high]) h) d hlast

theorem units_ne_nil (c : Char) : utf16Units c ≠ [] := by
  rw [utf16Units]
  split <;> simp

theorem trimmed_usvText (h : Trimmed t) : Trimmed (usvText t) := by
  obtain ⟨hhead, hlast⟩ := trimmed_iff.mp h
  rw [usvText_eq, trimmed_iff]
  refine ⟨fun u hu => ?_, fun u hu => ?_⟩
  · cases hchars : Json.ofUtf16 t with
    | nil =>
      rw [hchars] at hu
      cases hu
    | cons c cs =>
      obtain ⟨v, vs, hunits⟩ := List.exists_cons_of_ne_nil (units_ne_nil c)
      have hplain := units_plain (head_chars hhead c (by rw [hchars]; rfl))
      rw [hchars, List.flatMap_cons, hunits] at hu
      obtain rfl := Option.some.inj hu
      exact hplain v (by rw [hunits]; exact List.mem_cons_self)
  · obtain hnil | ⟨cs, c, hchars⟩ := List.eq_nil_or_concat (Json.ofUtf16 t)
    · rw [hnil] at hu
      cases hu
    · have hplain := units_plain (last_chars hlast c (by rw [hchars]; simp))
      rw [hchars, List.concat_eq_append, List.flatMap_append, List.flatMap_singleton, List.getLast?_append,
        List.getLast?_eq_some_getLast (units_ne_nil c)] at hu
      obtain rfl := Option.some.inj hu
      exact hplain _ (List.getLast_mem _)

end

/-- The filters as the parameters of a URL give them back. -/
def kept (filters : DocumentFiltersState) : DocumentFiltersState :=
  { filters with
    search := usvText (trimText filters.search)
    folder := usvText filters.folder
    ownerId := usvText filters.ownerId
    tag := usvText filters.tag }

theorem kept_kept (filters : DocumentFiltersState) : kept (kept filters) = kept filters := by
  have hsearch : trimText (usvText (trimText filters.search)) = usvText (trimText filters.search) :=
    trimText_of_trimmed (trimmed_usvText (trimmed_trimText _))
  simp only [kept, usvText_usvText, hsearch]

theorem get_setSome (name : String) (value : Option String) (k : String) (params : FormUrlEncoded.Params) :
    FormUrlEncoded.get k (setSome name value params) = if k = name then value.or (FormUrlEncoded.get k params)
      else FormUrlEncoded.get k params := by
  cases value with
  | none => simp [setSome]
  | some value => simp [setSome, FormUrlEncoded.get_set]

theorem unlessEmpty_back (t : Text) : ((unlessEmpty t).map utf16).getD [] = usvText t := by
  rw [unlessEmpty]
  split
  · subst_vars
    rfl
  · rfl

theorem normalizeFilters_eq (filters : DocumentFiltersState) : normalizeFilters filters = kept filters := by
  obtain ⟨view, search, status, classification, folder, ownerId, tag, sort, sortDir⟩ := filters
  have hview : (named viewName QUICK_VIEWS (if view ≠ .all then some (viewName view)
    else none)).getD .all = view := by
    cases view <;> decide
  have hstatus : named toString Metadata.DOCUMENT_STATUSES (status.map toString) = status := by
    obtain _ | status := status
    · rfl
    · cases status <;> decide
  have hclassification : named levelName Metadata.DOCUMENT_CLASSIFICATIONS (classification.map levelName) =
      classification := by
    obtain _ | classification := classification
    · rfl
    · cases classification <;> decide
  have hsort : (named sortName SORT_FIELDS (if sort ≠ .updatedAt then some (sortName sort)
    else none)).getD .updatedAt =
      sort := by
    cases sort <;> decide
  have hdir : (named sortDirName [.asc, .desc] (if sortDir ≠ .desc then some (sortDirName sortDir)
    else none)).getD .desc =
      sortDir := by
    cases sortDir <;> decide
  simp only [normalizeFilters, parseDocumentFiltersFromSearchParams,
    serializeDocumentFiltersToSearchParams, get_setSome,
    FormUrlEncoded.get_nil, String.reduceEq, if_true, if_false, Option.or_none, kept,
      unlessEmpty_back, hview, hstatus,
    hclassification, hsort, hdir]

end DocVault.SavedViews
