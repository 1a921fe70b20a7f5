import DocVault.ClientAgreement
import DocVault.RegexScan
import Mathlib.Data.List.DropRight
import Mathlib.Logic.Function.Iterate

/-!
# Names of groups

`normalizeGroups` trims a group and drops the empty ones before it strips the
slashes in front. What the slashes covered, white space or nothing, is left as
it is: the names are a canonical form exactly where neither is there.
-/

namespace DocVault

namespace GroupNames

open PolicyService (matchesGroupSubject)

/-! ## What the names promise -/

/-- Two spellings that differ only in white space and slashes in front, and in white space at the end. -/
def Respelt (g g' : String) : Prop :=
  ∃ front front' middle back back', g.toList = front ++ middle ++ back ∧ g'.toList = front' ++ middle ++ back' ∧
    (∀ c ∈ front ++ front', isSpace c = true ∨ c = '/') ∧ ∀ c ∈ back ++ back', isSpace c = true

/-- A subject that was normalized `n` times. -/
def subjectAfter : Nat → String → Option String
  | 0, subject => some subject
  | n + 1, subject => (subjectAfter n subject).bind fun subject => (normalizeGroups [subject]).head?

structure Canonical (groups : List String) : Prop where
  idempotent : normalizeGroups (normalizeGroups groups) = normalizeGroups groups
  nodup : (normalizeGroups groups).Nodup
  nonempty : "" ∉ normalizeGroups groups
  noSlash : ∀ g ∈ normalizeGroups groups, ∀ c ∈ g.toList.head?, c ≠ '/'
  trimmed : ∀ g ∈ normalizeGroups groups, trim g = g
  spellings : ∀ g ∈ groups, ∀ g' ∈ groups, Respelt g g' → normalizeGroups [g] = normalizeGroups [g']
  matching : ∀ user context, user ⊆ groups → context ⊆ groups → ∀ subject ∈ groups, ∀ a b c d,
    matchesGroupSubject (subjectAfter c subject)
        (normalizeGroups^[d] (normalizeGroups (normalizeGroups^[a] user ++ normalizeGroups^[b] context))) =
      matchesGroupSubject (some subject) (normalizeGroups (user ++ context))

/-- White space alone, or white space and slashes in front of a text that begins with neither. -/
def WellSpelt (g : String) : Prop :=
  (∀ c ∈ g.toList, isSpace c = true) ∨ ∃ blanks slashes c rest, g.toList = blanks ++ slashes ++ c :: rest ∧
    (∀ c ∈ blanks, isSpace c = true) ∧ (∀ c ∈ slashes, c = '/') ∧ isSpace c = false ∧ c ≠ '/'

/-! ## The core of a spelling -/

section
variable {cs front middle back : List Char}

def isFront (c : Char) : Bool := isSpace c || c = '/'

def core (cs : List Char) : List Char := (cs.dropWhile isFront).rdropWhile isSpace

theorem rdropWhile_append_pos (cs : List Char) (hback : ∀ c ∈ back, isSpace c = true) :
    (cs ++ back).rdropWhile isSpace = cs.rdropWhile isSpace := by
  induction back using List.reverseRecOn with
  | nil => rw [List.append_nil]
  | append_singleton back c ih =>
    rw [← List.append_assoc, List.rdropWhile_concat_pos _ _ _ (hback c (by simp)),
      ih fun d hd => hback d (by simp [hd])]

theorem core_append (hfront : ∀ c ∈ front, isFront c = true) (hback : ∀ c ∈ back, isSpace c = true) :
    core (front ++ middle ++ back) = core middle := by
  have hcovered : back.dropWhile isFront = [] :=
    List.dropWhile_eq_nil_iff.mpr fun c hc => by simp [isFront, hback c hc]
  unfold core
  rw [List.append_assoc, List.dropWhile_append_of_pos hfront, List.dropWhile_append]
  split
  · rename_i hempty
    rw [hcovered, List.isEmpty_iff.mp hempty]
  · exact rdropWhile_append_pos _ hback

theorem core_respelt {g g' : String} (h : Respelt g g') : core g.toList = core g'.toList := by
  obtain ⟨front, front', middle, back, back', hg, hg', hfront, hback⟩ := h
  obtain ⟨hf, hf'⟩ := List.forall_mem_append.mp hfront
  obtain ⟨hb, hb'⟩ := List.forall_mem_append.mp hback
  have hcovers : ∀ l : List Char, (∀ c ∈ l, isSpace c = true ∨ c = '/') → ∀ c ∈ l, isFront c = true := by
    intro l hl c hc
    simpa [isFront] using hl c hc
  rw [hg, hg', core_append (hcovers front hf) hb, core_append (hcovers front' hf') hb']

end

/-! ## The name of a group -/

section
variable {g : String} {c : Char} {rest : List Char}

theorem toList_trim (g : String) : (trim g).toList = (g.toList.dropWhile isSpace).rdropWhile isSpace := by
  rw [trim, String.toList_ofList, List.rdropWhile]

theorem toList_stripSlashes (g : String) : (stripSlashes g).toList = g.toList.dropWhile (· = '/') := by
  rw [stripSlashes, String.toList_ofList]

theorem toList_ne_empty {s : String} : s ≠ "" ↔ s.toList ≠ [] := by
  rw [ne_eq, ne_eq, ← String.toList_inj]
  rfl

theorem rdropWhile_append_cons (hc : isSpace c = false) (l rest : List Char) :
    (l ++ c :: rest).rdropWhile isSpace = l ++ c :: rest.rdropWhile isSpace := by
  induction rest using List.reverseRecOn with
  | nil => rw [List.rdropWhile_concat_neg _ _ _ (by simp [hc]), List.rdropWhile_nil]
  | append_singleton rest d ih =>
    have hassoc : l ++ c :: (rest ++ [d]) = (l ++ c :: rest) ++ [d] := by simp
    rw [hassoc]
    by_cases hd : isSpace d = true
    · rw [List.rdropWhile_concat_pos _ _ _ hd, List.rdropWhile_concat_pos _ _ _ hd, ih]
    · rw [List.rdropWhile_concat_neg _ _ _ hd, List.rdropWhile_concat_neg _ _ _ hd, List.append_assoc]
      rfl

theorem trim_blank (h : ∀ c ∈ g.toList, isSpace c = true) : trim g = "" := by
  by_contra hne
  have hlist := toList_ne_empty.mp hne
  rw [toList_trim, List.dropWhile_eq_nil_iff.mpr h] at hlist
  exact hlist rfl

theorem core_blank (h : ∀ c ∈ g.toList, isSpace c = true) : core g.toList = [] := by
  unfold core
  rw [List.dropWhile_eq_nil_iff.mpr fun c hc => by simp [isFront, h c hc], List.rdropWhile_nil]

/-- A group spelt with slashes right in front of its name. -/
theorem name_of_spelling {blanks slashes : List Char} (hg : g.toList = blanks ++ slashes ++ c :: rest)
    (hblanks : ∀ c ∈ blanks, isSpace c = true) (hslashes : ∀ c ∈ slashes, c = '/') (hc : isSpace c = false)
    (hslash : c ≠ '/') : trim g ≠ "" ∧ (stripSlashes (trim g)).toList = c :: rest.rdropWhile isSpace ∧
      core g.toList = c :: rest.rdropWhile isSpace := by
  have hfront : isFront c = false := by simp [isFront, hc, hslash]
  have hstart : (slashes ++ c :: rest).dropWhile isSpace = slashes ++ c :: rest := by
    cases slashes with
    | nil => rw [List.nil_append, List.dropWhile_cons_of_neg (by simp [hc])]
    | cons d slashes =>
      have hd : isSpace d = false := by
        rw [hslashes d List.mem_cons_self]
        decide
      rw [List.cons_append, List.dropWhile_cons_of_neg (by simp [hd])]
  have htrim : (trim g).toList = slashes ++ c :: rest.rdropWhile isSpace := by
    rw [toList_trim, hg, List.append_assoc, List.dropWhile_append_of_pos hblanks, hstart, rdropWhile_append_cons hc]
  refine ⟨?_, ?_, ?_⟩
  · rw [toList_ne_empty, htrim]
    simp
  · rw [toList_stripSlashes, htrim, List.dropWhile_append_of_pos (fun d hd => by simp [hslashes d hd]),
      List.dropWhile_cons_of_neg (by simp [hslash])]
  · have hcovered : ∀ d ∈ blanks ++ slashes, isFront d = true := by
      intro d hd
      obtain hd | hd := List.mem_append.mp hd
      · simp [isFront, hblanks d hd]
      · simp [isFront, hslashes d hd]
    unfold core
    rw [hg, List.dropWhile_append_of_pos hcovered, List.dropWhile_cons_of_neg (by simp [hfront])]
    exact rdropWhile_append_cons hc [] rest

theorem wellSpelt_cases (h : WellSpelt g) : (trim g = "" ∧ core g.toList = []) ∨
    trim g ≠ "" ∧ (stripSlashes (trim g)).toList = core g.toList ∧
      ∃ c rest, core g.toList = c :: rest ∧ isSpace c = false ∧ c ≠ '/' := by
  obtain h | ⟨blanks, slashes, c, rest, hg, hblanks, hslashes, hc, hslash⟩ := h
  · exact .inl ⟨trim_blank h, core_blank h⟩
  · obtain ⟨htrim, hname, hcore⟩ := name_of_spelling hg hblanks hslashes hc hslash
    exact .inr ⟨htrim, hname.trans hcore.symm, c, _, hcore, hc, hslash⟩

/-- One that has a name left behind the slashes, and no white space in front of it. -/
theorem head_stripSlashes (t : String) : ∀ c ∈ (stripSlashes t).toList.head?, c ≠ '/' := by
  intro c hc
  rw [toList_stripSlashes] at hc
  exact of_decide_eq_false (Regex.head?_dropWhile _ _ c hc)

theorem wellSpelt_of_name (h : trim g ≠ "" →
    ∃ c rest, (stripSlashes (trim g)).toList = c :: rest ∧ isSpace c = false) : WellSpelt g := by
  have hsplit := List.takeWhile_append_dropWhile (p := isSpace) (l := g.toList)
  have hend := List.rdropWhile_append_rtakeWhile (p := isSpace) (l := g.toList.dropWhile isSpace)
  by_cases htrim : trim g = ""
  · refine .inl fun c hc => ?_
    have hnil : (g.toList.dropWhile isSpace).rdropWhile isSpace = [] := by
      rw [← toList_trim, htrim]
      rfl
    rw [← hsplit] at hc
    obtain hc | hc := List.mem_append.mp hc
    · exact List.mem_takeWhile_imp hc
    · exact List.rdropWhile_eq_nil_iff.mp hnil c hc
  · obtain ⟨c, rest, hname, hc⟩ := h htrim
    have hslashes := List.takeWhile_append_dropWhile (p := fun c => decide (c = '/')) (l := (trim g).toList)
    rw [← toList_stripSlashes, hname] at hslashes
    have hslash : c ≠ '/' := head_stripSlashes (trim g) c (by rw [hname]; rfl)
    refine .inr ⟨g.toList.takeWhile isSpace, (trim g).toList.takeWhile fun c => c = '/', c,
      rest ++ (g.toList.dropWhile isSpace).rtakeWhile isSpace, ?_,
        fun d hd => List.mem_takeWhile_imp hd, ?_, hc, hslash⟩
    · rw [List.append_assoc, ← List.cons_append, ← List.append_assoc _ (c :: rest), hslashes,
        toList_trim, hend, hsplit]
    · intro d hd
      simpa using List.mem_takeWhile_imp hd

end

/-! ## Names that stay -/

section
variable {g name : String} {groups user context : List String}

/-- What a group without slashes and white space around it is named. -/
structure Normal (name : String) : Prop where
  nonempty : name ≠ ""
  trimmed : trim name = name
  stripped : stripSlashes name = name

theorem getLast?_core (cs : List Char) : ∀ c ∈ (core cs).getLast?, isSpace c = false := by
  intro c hc
  have hne : core cs ≠ [] := by
    intro hnil
    rw [hnil] at hc
    cases hc
  rw [List.getLast?_eq_getLast_of_ne_nil hne, Option.mem_some_iff] at hc
  have hlast := List.rdropWhile_last_not isSpace (cs.dropWhile isFront) hne
  rw [← hc]
  exact Bool.eq_false_iff.mpr hlast

theorem normal_name (h : WellSpelt g) (htrim : trim g ≠ "") : Normal (stripSlashes (trim g)) := by
  obtain ⟨hblank, -⟩ | ⟨-, hname, c, rest, hcore, hc, hslash⟩ := wellSpelt_cases h
  · exact absurd hblank htrim
  · have hlast := getLast?_core g.toList
    rw [← hname] at hcore hlast
    refine ⟨?_, ?_, ?_⟩
    · rw [toList_ne_empty, hcore]
      simp
    · rw [← String.toList_inj, toList_trim, hcore, List.dropWhile_cons_of_neg (by simp [hc]),
        List.rdropWhile_eq_self_iff]
      intro hne
      rw [hcore, List.getLast?_eq_getLast_of_ne_nil hne] at hlast
      simpa using hlast _ rfl
    · rw [← String.toList_inj, toList_stripSlashes, hcore, List.dropWhile_cons_of_neg (by simp [hslash])]

theorem normal_of_mem (h : ∀ g ∈ groups, WellSpelt g) (hname : name ∈ normalizeGroups groups) : Normal name := by
  obtain ⟨g, hg, htrim, rfl⟩ := mem_normalizeGroups.mp hname
  exact normal_name (h g hg) htrim

theorem eraseDups_nodup {l : List String} (h : l.Nodup) : l.eraseDups = l := by
  induction l with
  | nil => rfl
  | cons a l ih =>
    obtain ⟨ha, hl⟩ := List.nodup_cons.mp h
    have hkept : l.filter (fun b => !b == a) = l := List.filter_eq_self.mpr fun b hb => by
      have hne : b ≠ a := fun heq => ha (heq ▸ hb)
      simp [hne]
    rw [List.eraseDups_cons, hkept, ih hl]

theorem normalizeGroups_normal (h : ∀ name ∈ groups, Normal name) (hnodup : groups.Nodup) :
    normalizeGroups groups = groups := by
  have htrim : groups.map trim = groups :=
    (List.map_congr_left fun name hn => (h name hn).trimmed).trans (List.map_id' _)
  have hkept : groups.filter (· ≠ "") = groups :=
    List.filter_eq_self.mpr fun name hn => by simp [(h name hn).nonempty]
  have hstrip : groups.map stripSlashes = groups :=
    (List.map_congr_left fun name hn => (h name hn).stripped).trans (List.map_id' _)
  rw [normalizeGroups, htrim, hkept, hstrip, eraseDups_nodup hnodup]

theorem normalizeGroups_twice (h : ∀ g ∈ groups, WellSpelt g) :
    normalizeGroups (normalizeGroups groups) = normalizeGroups groups :=
  normalizeGroups_normal (fun _ hn => normal_of_mem h hn) (nodup_eraseDups _)

theorem normalizeGroups_iterate (h : ∀ g ∈ groups, WellSpelt g) (n : Nat) :
    normalizeGroups (normalizeGroups^[n] groups) = normalizeGroups groups := by
  induction n with
  | zero => rfl
  | succ n ih => rw [Function.iterate_succ_apply', ih, normalizeGroups_twice h]

theorem mem_append_iterate (hu : ∀ g ∈ user, WellSpelt g) (hc : ∀ g ∈ context, WellSpelt g) (a b : Nat) :
    name ∈ normalizeGroups (normalizeGroups^[a] user ++ normalizeGroups^[b] context) ↔
      name ∈ normalizeGroups (user ++ context) := by
  have happend : ∀ l m : List String, name ∈ normalizeGroups (l ++ m) ↔
      name ∈ normalizeGroups l ∨ name ∈ normalizeGroups m := by
    intro l m
    simp only [mem_normalizeGroups, List.mem_append, or_and_right, exists_or]
  rw [happend, happend, normalizeGroups_iterate hu, normalizeGroups_iterate hc]

/-- Every normalization of the lists of an actor has the same names. -/
theorem mem_actorGroups (hu : ∀ g ∈ user, WellSpelt g) (hc : ∀ g ∈ context, WellSpelt g) (a b d : Nat) :
    name ∈ normalizeGroups^[d] (normalizeGroups (normalizeGroups^[a] user ++ normalizeGroups^[b] context)) ↔
      name ∈ normalizeGroups (user ++ context) := by
  have hnormal : ∀ n ∈ normalizeGroups (normalizeGroups^[a] user ++ normalizeGroups^[b] context), Normal n := by
    intro n hn
    rw [mem_append_iterate hu hc] at hn
    exact normal_of_mem (fun g hg => (List.mem_append.mp hg).elim (hu g) (hc g)) hn
  have hfixed : normalizeGroups^[d] (normalizeGroups (normalizeGroups^[a] user ++ normalizeGroups^[b] context)) =
      normalizeGroups (normalizeGroups^[a] user ++ normalizeGroups^[b] context) :=
    Function.iterate_fixed (normalizeGroups_normal hnormal (nodup_eraseDups _)) d
  rw [hfixed, mem_append_iterate hu hc]

end

/-! ## Matching -/

section
variable {subject : String} {groups : List String}

theorem normalizeGroups_blank (h : trim subject = "") : normalizeGroups [subject] = [] := by
  simp [normalizeGroups, h]

theorem normalizeGroups_named (h : trim subject ≠ "") :
    normalizeGroups [subject] = [stripSlashes (trim subject)] := by
  simp [normalizeGroups, h, List.eraseDups_cons]

theorem matches_none : matchesGroupSubject none groups = false := rfl

theorem matches_some (h : subject ≠ "") : matchesGroupSubject (some subject) groups =
    match normalizeGroups [subject] with
    | [] => false
    | normalizedSubject :: _ => normalizedSubject ≠ "" && groups.contains normalizedSubject := by
  have hkept : (some subject).filter (fun s => decide (s ≠ "")) = some subject :=
    Option.filter_some_pos (by simpa using h)
  rw [matchesGroupSubject, hkept]
  rfl

theorem matches_blank (h : trim subject = "") : matchesGroupSubject (some subject) groups = false := by
  by_cases hempty : subject = ""
  · rw [hempty]
    rfl
  · rw [matches_some hempty, normalizeGroups_blank h]

theorem matches_named (h : trim subject ≠ "") (hname : stripSlashes (trim subject) ≠ "") :
    matchesGroupSubject (some subject) groups = groups.contains (stripSlashes (trim subject)) := by
  have hempty : subject ≠ "" := by
    intro heq
    rw [heq] at h
    exact h (trim_blank (by simp))
  rw [matches_some hempty, normalizeGroups_named h]
  simp [hname]

theorem subjectAfter_blank (h : trim subject = "") (n : Nat) : subjectAfter n subject = some subject ∨
    subjectAfter n subject = none := by
  induction n with
  | zero => exact .inl rfl
  | succ n ih =>
    obtain ih | ih := ih
    · exact .inr (by rw [subjectAfter, ih, Option.bind_some, normalizeGroups_blank h]; rfl)
    · exact .inr (by rw [subjectAfter, ih]; rfl)

theorem subjectAfter_named (hs : WellSpelt subject) (h : trim subject ≠ "") (n : Nat) :
    subjectAfter (n + 1) subject = some (stripSlashes (trim subject)) := by
  have hnormal := normal_name hs h
  induction n with
  | zero => rw [subjectAfter, subjectAfter, Option.bind_some, normalizeGroups_named h]; rfl
  | succ n ih =>
    have hne : trim (stripSlashes (trim subject)) ≠ "" := by
      rw [hnormal.trimmed]
      exact hnormal.nonempty
    rw [subjectAfter, ih, Option.bind_some, normalizeGroups_named hne, hnormal.trimmed, hnormal.stripped]
    rfl

/-- A subject matches the same lists, however often it was normalized. -/
theorem matches_subjectAfter (hs : WellSpelt subject) (n : Nat) :
    matchesGroupSubject (subjectAfter n subject) groups = matchesGroupSubject (some subject) groups := by
  by_cases h : trim subject = ""
  · rw [matches_blank h]
    obtain hn | hn := subjectAfter_blank h n
    · rw [hn, matches_blank h]
    · rw [hn, matches_none]
  · have hnormal := normal_name hs h
    cases n with
    | zero => rfl
    | succ n =>
      have hne : trim (stripSlashes (trim subject)) ≠ "" := by
        rw [hnormal.trimmed]
        exact hnormal.nonempty
      have hname : stripSlashes (trim (stripSlashes (trim subject))) = stripSlashes (trim subject) := by
        rw [hnormal.trimmed, hnormal.stripped]
      rw [subjectAfter_named hs h, matches_named h hnormal.nonempty,
        matches_named hne (by rw [hname]; exact hnormal.nonempty),
        hname]

theorem matches_congr {groups' : List String} (hsame : ∀ name, name ∈ groups ↔ name ∈ groups') (s : Option String) :
    matchesGroupSubject s groups = matchesGroupSubject s groups' := by
  have hcontains : ∀ name, groups.contains name = groups'.contains name := by
    intro name
    rw [Bool.eq_iff_iff, List.contains_iff_mem, List.contains_iff_mem, hsame]
  unfold matchesGroupSubject
  simp only [hcontains]

end

/-! ## Where the names are canonical -/

section
variable {groups : List String}

theorem Canonical.wellSpelt (h : Canonical groups) : ∀ g ∈ groups, WellSpelt g := by
  intro g hg
  refine wellSpelt_of_name fun htrim => ?_
  have hmem : stripSlashes (trim g) ∈ normalizeGroups groups := mem_normalizeGroups.mpr ⟨g, hg, htrim, rfl⟩
  have hne : stripSlashes (trim g) ≠ "" := fun heq => h.nonempty (heq ▸ hmem)
  have htrimmed := h.trimmed _ hmem
  obtain ⟨c, rest, hname⟩ := List.exists_cons_of_ne_nil (toList_ne_empty.mp hne)
  refine ⟨c, rest, hname, Bool.eq_false_iff.mpr fun hc => ?_⟩
  -- White space in front would have been trimmed.
  have hlength := congrArg (fun s : String => s.toList.length) htrimmed
  simp only [toList_trim, hname, List.dropWhile_cons_of_pos hc] at hlength
  have hshort := (List.rdropWhile_prefix isSpace (rest.dropWhile isSpace)).length_le
  have hshort' := List.length_dropWhile_le isSpace rest
  rw [List.length_cons] at hlength
  omega

theorem Normal.no_slash {name : String} (h : Normal name) : ∀ c ∈ name.toList.head?, c ≠ '/' := by
  intro c hc
  rw [← h.stripped] at hc
  exact head_stripSlashes name c hc

/-- Spellings of one core are one name, or none both. -/
theorem normalizeGroups_respelt {g g' : String} (h : WellSpelt g) (h' : WellSpelt g') (hrespelt : Respelt g g') :
    normalizeGroups [g] = normalizeGroups [g'] := by
  have hcore := core_respelt hrespelt
  obtain ⟨htrim, hnil⟩ | ⟨htrim, hname, c, rest, hcons, -⟩ := wellSpelt_cases h
  · obtain ⟨htrim', -⟩ | ⟨-, -, c', rest', hcons', -⟩ := wellSpelt_cases h'
    · rw [normalizeGroups_blank htrim, normalizeGroups_blank htrim']
    · rw [← hcore, hnil] at hcons'
      cases hcons'
  · obtain ⟨-, hnil'⟩ | ⟨htrim', hname', -⟩ := wellSpelt_cases h'
    · rw [hcore, hnil'] at hcons
      cases hcons
    · rw [normalizeGroups_named htrim, normalizeGroups_named htrim']
      refine congrArg (fun name => [name]) (String.toList_inj.mp ?_)
      rw [hname, hname', hcore]

theorem canonical_of_wellSpelt (h : ∀ g ∈ groups, WellSpelt g) : Canonical groups := by
  have hnormal : ∀ name ∈ normalizeGroups groups, Normal name := fun _ hn => normal_of_mem h hn
  refine ⟨normalizeGroups_twice h, nodup_eraseDups _, fun hmem => (hnormal "" hmem).nonempty rfl,
    fun g hg => (hnormal g hg).no_slash, fun g hg => (hnormal g hg).trimmed,
    fun g hg g' hg' => normalizeGroups_respelt (h g hg) (h g' hg'), ?_⟩
  intro user context hu hc subject hs a b c d
  rw [matches_subjectAfter (h subject hs),
    matches_congr fun name => mem_actorGroups (fun g hg => h g (hu hg)) (fun g hg => h g (hc hg)) a b d]

end

theorem names_canonical_iff (groups : List String) : Canonical groups ↔ ∀ g ∈ groups, WellSpelt g :=
  Iff.intro Canonical.wellSpelt canonical_of_wellSpelt

/-- White space behind a slash is kept the first time and lost the second. -/
theorem name_behind_slash : ¬Canonical ["/ a"] := by
  intro h
  have htwice := h.idempotent
  revert htwice
  decide +kernel

end GroupNames

end DocVault
