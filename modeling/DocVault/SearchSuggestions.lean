import DocVault.DocumentFilters
import DocVault.SearchAgreement

/-!
# Suggested searches

`buildDocumentSearchSuggestions` offers searches for what the listed documents
have. The values it offers go into the search language as they are, between
quotes when there is a blank in them; the language knows no escapes and no
`has:legal-hold`.
-/

namespace DocVault.Search.Web

open Regex

inductive DocumentSearchSuggestionKind where
  | status | classification | tag | file | owner | presence | dlp | retention
  deriving DecidableEq

structure DocumentSearchSuggestion where
  token : Text
  label : Text
  description : Text
  kind : DocumentSearchSuggestionKind

/-- `value.replace(/"/g, '\\"')` -/
def escapeQuotes (value : Text) : Text := value.flatMap fun u => if u = QUOTE then [92, QUOTE] else [u]

def quoteQueryTokenValue (value : Text) : Text :=
  if value.any isBlank then QUOTE :: (escapeQuotes value ++ [QUOTE]) else value

section
variable (R : Runtime)

def formatEnum (value : Text) : Text :=
  [32].intercalate ((((R.toLowerCase value).splitOn 95).filter fun part => !part.isEmpty).map fun part =>
    R.toUpperCase (part.take 1) ++ part.drop 1)

/-- The first tag that is not blank, and the preferred one where one is given. -/
def findFirstTag (documents : List DocumentListItem) (preferred : Option Text) : Option Text :=
  ((documents.flatMap (·.tags)).map trimText).find? fun tag =>
    tag ≠ [] && preferred.all fun p => R.toLowerCase tag = p

def preferredTag (documents : List DocumentListItem) : Option Text :=
  (findFirstTag R documents (some (utf16 "security"))).or (findFirstTag R documents none)

def latestFilename (documents : List DocumentListItem) : Option Text :=
  (documents.find? fun document => truthy document.filename).bind (·.filename)

/-- An empty label offers nothing. -/
def ownerLabel (documents : List DocumentListItem) : Option Text :=
  let ownerDocument := documents.find? fun document => truthy document.ownerDisplay || !document.ownerId.isEmpty
  (ownerDocument.map fun document => document.ownerDisplay.getD document.ownerId).filter fun label => !label.isEmpty

def fixedSuggestion (token description : String) (kind : DocumentSearchSuggestionKind) : DocumentSearchSuggestion :=
  ⟨utf16 token, utf16 token, utf16 description, kind⟩

def valueSuggestion (key : String) (value description : Text) (kind : DocumentSearchSuggestionKind) :
    DocumentSearchSuggestion :=
  let token := utf16 key ++ utf16 ":" ++ quoteQueryTokenValue value
  ⟨token, token, description, kind⟩

def uniqueSearchSuggestions (seen : List Text) : List DocumentSearchSuggestion → List DocumentSearchSuggestion
  | [] => []
  | suggestion :: rest =>
    let key := R.toLowerCase suggestion.token
    if seen.contains key then uniqueSearchSuggestions seen rest
    else suggestion :: uniqueSearchSuggestions (key :: seen) rest

/-- The suggestions before the repeated ones go. -/
def offered (documents : List DocumentListItem) : List (Option DocumentSearchSuggestion) :=
  [ if documents.any fun document => document.status = .PENDING then
      some (fixedSuggestion "status:pending" "Pending review queue" .status) else none,
    if documents.any fun document => document.classification = .CONFIDENTIAL then
      some (fixedSuggestion "class:confidential" "Confidential library" .classification) else none,
    (preferredTag R documents).map fun tag => valueSuggestion "tag" tag (formatEnum R tag ++ utf16 " folder") .tag,
    (latestFilename documents).map fun filename =>
      valueSuggestion "file" filename (utf16 "Latest file lookup") .file,
    if documents.any documentHasFile then
      some (fixedSuggestion "has:file" "Documents with uploaded files" .presence) else none,
    if documents.any fun document => document.legalHold = some true then
      some (fixedSuggestion "has:legal-hold" "Documents under legal hold" .presence) else none,
    if documents.any fun document => document.dlpStatus = some (utf16 "DETECTED") then
      some (fixedSuggestion "dlp:detected" "DLP-detected documents" .dlp) else none,
    if documents.any fun document => matchesRetentionOperator R document (utf16 "due-soon") then
      some (fixedSuggestion "retention:due-soon" "Retention deadlines due soon" .retention) else none,
    (ownerLabel documents).map fun label => valueSuggestion "owner" label (utf16 "Owner handoff") .owner ]

def buildDocumentSearchSuggestions (documents : List DocumentListItem) : List DocumentSearchSuggestion :=
  (uniqueSearchSuggestions R [] ((offered R documents).filterMap id)).take 8

end

/-! ## Tokens of a key with a value -/

section
variable {key v : Text}

theorem isWord_colon : isWord 58 = false := by decide

theorem takeWhile_key (hk : ∀ u ∈ key, isWord u = true) (v : Text) : (key ++ 58 :: v).takeWhile isWord = key := by
  rw [List.takeWhile_append_of_pos hk, List.takeWhile_cons_of_neg (by simp [isWord_colon]), List.append_nil]

/-- The value stands between quotes. -/
def KeyQuoted (key x : Text) : Text := key ++ 58 :: QUOTE :: (x ++ [QUOTE])

theorem keyedQuoted_iff (hne : key ≠ []) (hk : ∀ u ∈ key, isWord u = true) (t : Text) :
    (∃ w rest, key ++ 58 :: t = w ++ rest ∧ KeyedQuoted w) ↔ ∃ q rest, t = q ++ rest ∧ Quoted q := by
  apply Iff.intro
  · intro h
    obtain ⟨w, rest, he, k, q, ⟨-, hk'⟩, hq, rfl⟩ := h
    rw [List.append_assoc, List.cons_append] at he
    obtain ⟨-, ht⟩ := span_unique isWord_colon hk hk' he
    exact ⟨q, rest, ht, hq⟩
  · intro h
    obtain ⟨q, rest, rfl, hq⟩ := h
    exact ⟨key ++ 58 :: q, rest, by simp, key, q, ⟨hne, hk⟩, hq, rfl⟩

theorem takesWhole_of_head {r : Regex Nat} {w : Text} {b : Bool}
    (h : (r.run isWord (false, w)).head? = some (b, [])) : takesWhole r w = true := by
  obtain ⟨l, hl⟩ := List.head?_eq_some_iff.mp h
  rw [takesWhole, hl]
  rfl

theorem keyedQuoted_keyQuoted (hne : key ≠ []) (hk : ∀ u ∈ key, isWord u = true) {x : Text}
    (hx : x ≠ []) (hq : QUOTE ∉ x) : KeyedQuoted (KeyQuoted key x) := by
  refine ⟨key, _, ⟨hne, hk⟩, ⟨x, hx, fun u hu => ?_, rfl⟩, rfl⟩
  have hne : u ≠ QUOTE := fun he => hq (he ▸ hu)
  simp [isOneOf, utf16, utf16Units, hne]

theorem groups_keyQuoted (hne : key ≠ []) (hk : ∀ u ∈ key, isWord u = true) {x : Text}
    (hx : x ≠ []) (hq : QUOTE ∉ x) : groups (KeyQuoted key x) = ⟨some key, x⟩ := by
  have hkq := keyedQuoted_keyQuoted hne hk hx hq
  have hhead := head?_of_denotes denotes_keyedQuoted keyedQuoted_unique hkq (b := false) []
  rw [List.append_nil] at hhead
  have hkey : (KeyQuoted key x).takeWhile isWord = key := takeWhile_key hk _
  have hdrop : (KeyQuoted key x).drop (key.length + 2) = x ++ [QUOTE] := by
    rw [KeyQuoted, List.drop_append]
    simp
  rw [groups, hkey, if_pos (takesWhole_of_head hhead), hdrop, List.dropLast_concat]

/-- A quoted value is one token, and the search goes on behind the quote. -/
theorem tokens_keyQuoted (hne : key ≠ []) (hk : ∀ u ∈ key, isWord u = true) {x : Text}
    (hx : x ≠ []) (hq : QUOTE ∉ x)
    (rest : Text) : tokens (KeyQuoted key x ++ rest) = ⟨some key, x⟩ :: tokens rest := by
  have hkq := keyedQuoted_keyQuoted hne hk hx hq
  have hhead : (tokenPattern.run isWord (false, KeyQuoted key x ++ rest)).head? =
      some (after isWord false (KeyQuoted key x), rest) := by
    rw [tokenPattern, run, List.head?_append, head?_of_denotes denotes_keyedQuoted keyedQuoted_unique hkq]
    rfl
  have hword : KeyQuoted key x ≠ [] := by simp [KeyQuoted]
  have hafter : after isWord false (KeyQuoted key x) = false := by
    obtain ⟨w, hw⟩ := keyedQuoted_end hkq
    rw [hw, after_append]
    exact (by decide : isWord QUOTE = false)
  have hright : Sum.getRight? (Sum.inr (KeyQuoted key x) : Nat ⊕ Text) = some (KeyQuoted key x) := rfl
  rw [tokens, matchAll, scan_of_head hword hhead, hafter, List.filterMap_cons_some hright, List.map_cons,
    groups_keyQuoted hne hk hx hq]
  rfl

/-- A value without blanks that does not begin with a quoted text is one token. -/
theorem tokens_keyed (hne : key ≠ []) (hk : ∀ u ∈ key, isWord u = true) (hv : v ≠ [])
    (hblank : ∀ u ∈ v, isBlank u = false)
    (hquote : ∀ q rest, v = q ++ rest → ¬Quoted q) : tokens (key ++ 58 :: v) = [⟨some key, v⟩] := by
  have hno : ∀ w rest, key ++ 58 :: v = w ++ rest → ¬KeyedQuoted w := fun w rest he hw => by
    obtain ⟨q, left, he, hq⟩ := (keyedQuoted_iff hne hk v).mp ⟨w, rest, he, hw⟩
    exact hquote q left he hq
  have hnone : (keyedQuoted.run isWord (false, key ++ 58 :: v)).head? = none :=
    head?_of_not_denotes denotes_keyedQuoted hno
  have hvalue : ((chain [text ":", plus fun u => !isBlank u]).run isWord (after isWord false key, 58 :: v)).head? =
      some (after isWord false v, []) := by
    have hcolon : ((text ":").run isWord (after isWord false key, 58 :: v)).head? = some (false, v) := by
      simp [text, utf16, utf16Units, lit, run, isWord_colon]
    have hplus : ((plus fun u => !isBlank u).run isWord (false, v ++ [])).head? = some (after isWord false v, []) :=
      head?_plus hv (fun u hu => by simp [hblank u hu]) (by simp) false
    rw [List.append_nil] at hplus
    exact head?_flatMap_of_head hcolon (head?_flatMap_of_head hplus rfl)
  have hkeyed : (keyed.run isWord (false, key ++ 58 :: v)).head? = some (after isWord false v, []) := by
    have hkey : ((plus isWord).run isWord (false, key ++ 58 :: v)).head? = some (after isWord false key, 58 :: v) :=
      head?_plus hne hk (by simp [isWord_colon]) false
    exact head?_flatMap_of_head hkey hvalue
  have hhead : (tokenPattern.run isWord (false, (key ++ 58 :: v) ++ [])).head? =
    some (after isWord false v, []) := by
    rw [List.append_nil, tokenPattern, run, run, List.head?_append, hnone, List.head?_append, hkeyed]
    rfl
  have hword : key ++ 58 :: v ≠ [] := by simp
  have hscan := scan_of_head hword hhead
  rw [List.append_nil, scan_nil] at hscan
  have hfalse : takesWhole keyedQuoted (key ++ 58 :: v) = false := by
    rw [takesWhole, List.head?_eq_none_iff.mp hnone]
    rfl
  have hdrop : (key ++ 58 :: v).drop (key.length + 1) = v := by
    rw [List.drop_append]
    simp
  have hgroups : groups (key ++ 58 :: v) = ⟨some key, v⟩ := by
    rw [groups, takeWhile_key hk, hfalse, if_neg Bool.false_ne_true, if_pos (takesWhole_of_head hkeyed), hdrop]
  rw [tokens, matchAll, hscan, ← hgroups]
  rfl

end

/-! ## What a suggested value is read as -/

inductive OfferedKey where
  | tag | file | owner
  deriving DecidableEq

def OfferedKey.name : OfferedKey → String
  | .tag => "tag"
  | .file => "file"
  | .owner => "owner"

/-- Whether the document has the value in the field of the key. -/
def OfferedKey.finds (R : Runtime) (key : OfferedKey) (value : Text) (document : DocumentListItem) : Bool :=
  let word := normalizeText R (some value)
  match key with
  | .tag => someIncludes R (document.tags.map some) word
  | .file => includes (normalizeText R document.filename) word
  | .owner => someIncludes R [some document.ownerId, document.ownerDisplay] word

/-- Where a quote of the value ends the quoted text of the token: what is left as the value,
and what is read as further search. -/
def misread (value : Text) : Option (Text × Text) :=
  if value.any isBlank then
    if QUOTE ∈ value then
      some (value.takeWhile (· ≠ QUOTE) ++ [92], escapeQuotes ((value.dropWhile (· ≠ QUOTE)).drop 1) ++ [QUOTE])
    else none
  else
    let inner := value.drop 1
    if value.head? = some QUOTE ∧ QUOTE ∈ inner ∧ inner.head? ≠ some QUOTE then
      some (inner.takeWhile (· ≠ QUOTE), (inner.dropWhile (· ≠ QUOTE)).drop 1)
    else none

/-- The value comes back as it is, or some document has the pieces that it falls into. -/
def Findable (R : Runtime) (documents : List DocumentListItem) (key : OfferedKey) (value : Text) : Prop :=
  ∀ part rest, misread value = some (part, rest) →
    ∃ document ∈ documents, key.finds R part document = true ∧ accepts R rest document = true

section
variable {R : Runtime} {key : OfferedKey} {document : DocumentListItem} {value : Text}

theorem key_words (key : OfferedKey) : utf16 key.name ≠ [] ∧ (∀ u ∈ utf16 key.name, isWord u = true) ∧
    ∀ u ∈ utf16 key.name, u < 128 := by
  cases key <;> decide

theorem operatorOf_key (hR : R.Lawful) (key : OfferedKey) : operatorOf (normalizeText R (some (utf16 key.name))) =
    match key with
    | .tag => .tag
    | .file => .file
    | .owner => .owner := by
  have htrim : trimText (utf16 key.name) = utf16 key.name := by cases key <;> decide
  rw [normalizeText, Option.getD_some, htrim, hR.lower_ascii _ (key_words key).2.2]
  cases key <;> decide

theorem admits_key (hR : R.Lawful) (key : OfferedKey) (value : Text) (document : DocumentListItem) :
    admits R document (Token.term R ⟨some (utf16 key.name), value⟩) = key.finds R value document := by
  have hword : normalizeText R (some (trimText value)) = normalizeText R (some value) :=
    normalizeText_trimText value
  simp only [admits, Term.word, Token.term, operatorOf_key hR, hword]
  cases key <;> rfl

theorem accepts_cons (hR : R.Lawful) {search rest : Text}
    (h : tokens search = ⟨some (utf16 key.name), value⟩ :: tokens rest) :
    accepts R search document = true ↔
      (trimText value ≠ [] → key.finds R value document = true) ∧ accepts R rest document = true := by
  rw [accepts_iff hR, accepts_iff hR, h, List.forall_mem_cons, admits_key hR]
  rfl

theorem tokens_nil : tokens [] = [] := by rfl

theorem accepts_nil (hR : R.Lawful) : accepts R [] document = true := by
  rw [accepts_iff hR, tokens_nil]
  simp

theorem accepts_single (hR : R.Lawful) {search : Text} (h : tokens search = [⟨some (utf16 key.name), value⟩]) :
    accepts R search document = true ↔ (trimText value ≠ [] → key.finds R value document = true) := by
  rw [← tokens_nil] at h
  rw [accepts_cons hR h, and_iff_left (accepts_nil hR)]

/-! ### The cases of a value -/

theorem escapeQuotes_eq (h : QUOTE ∉ value) : escapeQuotes value = value := by
  induction value with
  | nil => rfl
  | cons u value ih =>
    have hu : u ≠ QUOTE := fun he => h (he ▸ List.mem_cons_self)
    have hrest := ih fun hmem => h (List.mem_cons_of_mem u hmem)
    rw [escapeQuotes, List.flatMap_cons, if_neg hu]
    exact congrArg (u :: ·) hrest

theorem quote_split (h : QUOTE ∈ value) :
    value = value.takeWhile (· ≠ QUOTE) ++ QUOTE :: (value.dropWhile (· ≠ QUOTE)).drop 1 ∧
      QUOTE ∉ value.takeWhile (· ≠ QUOTE) := by
  induction value with
  | nil => cases h
  | cons u value ih =>
    by_cases hu : u = QUOTE
    · subst hu
      rw [List.takeWhile_cons_of_neg (by simp), List.dropWhile_cons_of_neg (by simp)]
      simp
    · obtain ⟨hvalue, hnone⟩ := ih ((List.mem_cons.mp h).resolve_left (Ne.symm hu))
      rw [List.takeWhile_cons_of_pos (by simpa using hu), List.dropWhile_cons_of_pos (by simpa using hu)]
      refine ⟨?_, fun hmem => hnone ((List.mem_cons.mp hmem).resolve_left (Ne.symm hu))⟩
      rw [List.cons_append, ← hvalue]

theorem token_quoted (hblank : value.any isBlank = true) (hquote : QUOTE ∉ value) :
    utf16 key.name ++ utf16 ":" ++ quoteQueryTokenValue value = KeyQuoted (utf16 key.name) value := by
  rw [quoteQueryTokenValue, if_pos hblank, escapeQuotes_eq hquote, KeyQuoted, List.append_assoc]
  rfl

theorem token_cut (hblank : value.any isBlank = true) {p t : Text} (hvalue : value = p ++ QUOTE :: t)
    (hp : QUOTE ∉ p) : utf16 key.name ++ utf16 ":" ++ quoteQueryTokenValue value =
      KeyQuoted (utf16 key.name) (p ++ [92]) ++ (escapeQuotes t ++ [QUOTE]) := by
  have hescape : escapeQuotes value = p ++ 92 :: QUOTE :: escapeQuotes t := by
    rw [hvalue, escapeQuotes, List.flatMap_append, List.flatMap_cons, if_pos rfl]
    exact congrArg (· ++ _) (escapeQuotes_eq hp)
  rw [quoteQueryTokenValue, if_pos hblank, hescape, KeyQuoted]
  simp [utf16, utf16Units]

theorem token_bare (hblank : value.any isBlank = false) :
    utf16 key.name ++ utf16 ":" ++ quoteQueryTokenValue value = utf16 key.name ++ 58 :: value := by
  rw [quoteQueryTokenValue, hblank, if_neg Bool.false_ne_true, List.append_assoc]
  rfl

theorem trimText_ne_nil {t : Text} {u : Nat} (hmem : u ∈ t) (hu : isBlank u = false) : trimText t ≠ [] := by
  intro h
  obtain ⟨lead, trail, he, hlead, htrail⟩ := trimText_split t
  rw [h, List.append_nil] at he
  rw [he] at hmem
  obtain hmem | hmem := List.mem_append.mp hmem
  · rw [hlead u hmem] at hu
    cases hu
  · rw [htrail u hmem] at hu
    cases hu

/-- A token takes the documents that its value finds. -/
abbrev Takes (R : Runtime) (key : OfferedKey) (value : Text) (document : DocumentListItem) : Prop :=
  accepts R (utf16 key.name ++ utf16 ":" ++ quoteQueryTokenValue value) document = true

-- between quotes, and with no quote inside
theorem takes_quoted (hR : R.Lawful) (hne : value ≠ []) (hblank : value.any isBlank = true)
    (hquote : QUOTE ∉ value) :
    Takes R key value document ↔ (trimText value ≠ [] → key.finds R value document = true) := by
  obtain ⟨hname, hword, -⟩ := key_words key
  have htokens := tokens_keyQuoted hname hword hne hquote []
  rw [List.append_nil, tokens_nil] at htokens
  rw [Takes, token_quoted hblank hquote, accepts_single hR htokens]

-- the quotes end at the first quote of the value
theorem takes_cut (hR : R.Lawful) {p t : Text} (hblank : value.any isBlank = true)
    (hvalue : value = p ++ QUOTE :: t) (hp : QUOTE ∉ p) : Takes R key value document ↔
      key.finds R (p ++ [92]) document = true ∧ accepts R (escapeQuotes t ++ [QUOTE]) document = true := by
  obtain ⟨hname, hword, -⟩ := key_words key
  have hpart : QUOTE ∉ p ++ [92] := by simp [hp, show QUOTE ≠ 92 by decide]
  have hslash : 92 ∈ p ++ [92] := by simp
  have htrim : trimText (p ++ [92]) ≠ [] := trimText_ne_nil hslash (by decide)
  have htokens := tokens_keyQuoted hname hword (by simp) hpart (escapeQuotes t ++ [QUOTE])
  rw [Takes, token_cut hblank hvalue hp, accepts_cons hR htokens]
  simp [htrim]

-- a value with no blank that looks quoted itself
theorem takes_torn (hR : R.Lawful) {part rest : Text} (hvalue : value = QUOTE :: (part ++ QUOTE :: rest))
    (hblank : value.any isBlank = false) (hpartne : part ≠ []) (hpart : QUOTE ∉ part) :
    Takes R key value document ↔ key.finds R part document = true ∧ accepts R rest document = true := by
  obtain ⟨hname, hword, -⟩ := key_words key
  have hsolid : ∀ u ∈ value, isBlank u = false := by simpa using hblank
  obtain ⟨u, hu⟩ := List.exists_mem_of_ne_nil part hpartne
  have htrim : trimText part ≠ [] := trimText_ne_nil hu (hsolid u (by simp [hvalue, hu]))
  have htokens := tokens_keyQuoted hname hword hpartne hpart rest
  have htoken : utf16 key.name ++ 58 :: value = KeyQuoted (utf16 key.name) part ++ rest := by
    rw [hvalue, KeyQuoted]
    simp
  rw [Takes, token_bare hblank, htoken, accepts_cons hR htokens]
  simp [htrim]

-- a value with no blank that stays whole
theorem takes_whole (hR : R.Lawful) (hne : value ≠ []) (hblank : value.any isBlank = false)
    (hwhole : ¬(value.head? = some QUOTE ∧ QUOTE ∈ value.drop 1 ∧ (value.drop 1).head? ≠ some QUOTE)) :
    Takes R key value document ↔ (trimText value ≠ [] → key.finds R value document = true) := by
  obtain ⟨hname, hword, -⟩ := key_words key
  have hsolid : ∀ u ∈ value, isBlank u = false := by simpa using hblank
  have hno : ∀ q rest, value = q ++ rest → ¬Quoted q := fun q rest he hq => by
    obtain ⟨x, hx, hxq, rfl⟩ := hq
    obtain ⟨u, x, rfl⟩ := List.exists_cons_of_ne_nil hx
    have hu : u ≠ QUOTE := by
      intro heq
      have := hxq u List.mem_cons_self
      rw [heq] at this
      exact absurd this (by decide)
    refine hwhole ⟨by rw [he]; rfl, by rw [he]; simp, ?_⟩
    rw [he]
    simpa using hu
  rw [Takes, token_bare hblank, accepts_single hR (tokens_keyed hname hword hne hsolid hno)]

/-- The search that a value is suggested with takes the documents that have the value, or all of its pieces. -/
theorem accepts_value (hR : R.Lawful) (hne : value ≠ []) :
    accepts R (utf16 key.name ++ utf16 ":" ++ quoteQueryTokenValue value) document = true ↔
      match misread value with
      | none => trimText value ≠ [] → key.finds R value document = true
      | some (part, rest) => key.finds R part document = true ∧ accepts R rest document = true := by
  cases hblank : value.any isBlank with
  | true =>
    rw [misread, if_pos hblank]
    by_cases hquote : QUOTE ∈ value
    · obtain ⟨hvalue, hp⟩ := quote_split hquote
      rw [if_pos hquote]
      exact takes_cut hR hblank hvalue hp
    · rw [if_neg hquote]
      exact takes_quoted hR hne hblank hquote
  | false =>
    rw [misread, hblank, if_neg Bool.false_ne_true]
    by_cases hcut : value.head? = some QUOTE ∧ QUOTE ∈ value.drop 1 ∧ (value.drop 1).head? ≠ some QUOTE
    · rw [if_pos hcut]
      obtain ⟨hhead, hmem, hsecond⟩ := hcut
      obtain ⟨inner, rfl⟩ := List.head?_eq_some_iff.mp hhead
      obtain ⟨hinner, hpart⟩ := quote_split hmem
      refine takes_torn hR (congrArg (QUOTE :: ·) hinner) hblank (fun hnil => hsecond ?_) hpart
      rw [hinner, hnil]
      rfl
    · rw [if_neg hcut]
      exact takes_whole hR hne hblank hcut

end

/-! ## No suggestion repeats another one -/

/-- What `toLowerCase` makes of a text begins with what it makes of an ASCII part in front. -/
def Runtime.KeepsPrefix (R : Runtime) : Prop :=
  ∀ a t : Text, (∀ u ∈ a, u < 128) → R.toLowerCase a <+: R.toLowerCase (a ++ t)

def KEYS : List String :=
  ["status:", "class:", "tag:", "file:", "has:file", "has:legal-hold", "dlp:", "retention:", "owner:"]

def Apart (a b : Text) : Prop := ¬a <+: b ∧ ¬b <+: a

instance (a b : Text) : Decidable (Apart a b) := inferInstanceAs (Decidable (_ ∧ _))

theorem keys_apart : (KEYS.map utf16).Pairwise Apart := by decide

theorem Apart.ne {a b x y : Text} (h : Apart a b) (hx : a <+: x) (hy : b <+: y) : x ≠ y := by
  intro heq
  subst heq
  exact (List.prefix_or_prefix_of_prefix hx hy).elim h.1 h.2

section
variable {R : Runtime} {documents : List DocumentListItem}

theorem uniqueSearchSuggestions_eq (seen : List Text) (l : List DocumentSearchSuggestion)
    (h : (l.map fun s => R.toLowerCase s.token).Nodup) (hseen : ∀ s ∈ l, R.toLowerCase s.token ∉ seen) :
    uniqueSearchSuggestions R seen l = l := by
  induction l generalizing seen with
  | nil => rfl
  | cons s l ih =>
    obtain ⟨hs, hl⟩ := List.nodup_cons.mp h
    have hnot : seen.contains (R.toLowerCase s.token) = false := by
      simpa using hseen s List.mem_cons_self
    rw [uniqueSearchSuggestions, hnot]
    simp only [Bool.false_eq_true, if_false]
    rw [ih _ hl]
    intro s' hs' hmem
    obtain heq | hmem := List.mem_cons.mp hmem
    · exact hs (List.mem_map.mpr ⟨s', hs', heq⟩)
    · exact hseen s' (List.mem_cons_of_mem s hs') hmem

/-- Each suggestion's token begins with its own key. -/
def StartsWith (R : Runtime) (key : String) (suggestion : Option DocumentSearchSuggestion) : Prop :=
  ∀ s ∈ suggestion, utf16 key <+: R.toLowerCase s.token

theorem startsWith_fixed (hR : R.Lawful) (key token description : String)
    (kind : DocumentSearchSuggestionKind) (c : Bool) (hascii : ∀ u ∈ utf16 token, u < 128)
    (hlower : (utf16 token).map (fun u => if 65 ≤ u ∧ u ≤ 90 then u + 32 else u) = utf16 token)
    (hkey : utf16 key <+: utf16 token) :
    StartsWith R key (if c = true then some (fixedSuggestion token description kind) else none) := by
  intro s hs
  cases c with
  | false => cases hs
  | true =>
    obtain rfl := Option.some.inj hs
    have heq : R.toLowerCase (utf16 token) = utf16 token := (hR.lower_ascii _ hascii).trans hlower
    exact heq.symm ▸ hkey

theorem startsWith_value (hR : R.Lawful) (hkeeps : Runtime.KeepsPrefix R) (key : OfferedKey) (value : Option Text)
    (description : Text → Text) (kind : DocumentSearchSuggestionKind) :
    StartsWith R (key.name ++ ":") (value.map fun v => valueSuggestion key.name v (description v) kind) := by
  intro s hs
  obtain ⟨v, -, rfl⟩ := Option.map_eq_some_iff.mp hs
  have hkey : utf16 (key.name ++ ":") = utf16 key.name ++ utf16 ":" := by cases key <;> decide
  have hascii : ∀ u ∈ utf16 (key.name ++ ":"), u < 128 := by cases key <;> decide
  have hlower : R.toLowerCase (utf16 (key.name ++ ":")) = utf16 (key.name ++ ":") := by
    rw [hR.lower_ascii _ hascii]
    cases key <;> decide
  have hpre := hkeeps (utf16 (key.name ++ ":")) (quoteQueryTokenValue v) hascii
  rw [hlower] at hpre
  rw [hkey] at hpre ⊢
  exact hpre

theorem offered_startsWith (hR : R.Lawful) (hkeeps : Runtime.KeepsPrefix R) :
    List.Forall₂ (StartsWith R) KEYS (offered R documents) := by
  refine .cons (startsWith_fixed hR _ _ _ _ _ (by decide) (by decide) (by decide)) ?_
  refine .cons (startsWith_fixed hR _ _ _ _ _ (by decide) (by decide) (by decide)) ?_
  refine .cons (startsWith_value hR hkeeps .tag _ (fun tag => formatEnum R tag ++ utf16 " folder") _) ?_
  refine .cons (startsWith_value hR hkeeps .file _ (fun _ => utf16 "Latest file lookup") _) ?_
  refine .cons (startsWith_fixed hR _ _ _ _ _ (by decide) (by decide) (by decide)) ?_
  refine .cons (startsWith_fixed hR _ _ _ _ _ (by decide) (by decide) (by decide)) ?_
  refine .cons (startsWith_fixed hR _ _ _ _ _ (by decide) (by decide) (by decide)) ?_
  refine .cons (startsWith_fixed hR _ _ _ _ _ (by decide) (by decide) (by decide)) ?_
  exact .cons (startsWith_value hR hkeeps .owner _ (fun _ => utf16 "Owner handoff") _) .nil

theorem forall₂_mem {α β : Type} {P : α → β → Prop} {l : List α} {m : List β} (h : List.Forall₂ P l m) :
    ∀ b ∈ m, ∃ a ∈ l, P a b := by
  induction h with
  | nil => simp
  | cons hab _ ih =>
    intro b hb
    obtain rfl | hb := List.mem_cons.mp hb
    · exact ⟨_, List.mem_cons_self, hab⟩
    · obtain ⟨a, ha, hp⟩ := ih b hb
      exact ⟨a, List.mem_cons_of_mem _ ha, hp⟩

theorem nodup_filterMap {keys : List String} {l : List (Option DocumentSearchSuggestion)}
    (h : List.Forall₂ (StartsWith R) keys l) (hkeys : (keys.map utf16).Pairwise Apart) :
    ((l.filterMap id).map fun s => R.toLowerCase s.token).Nodup := by
  induction h with
  | nil => exact List.nodup_nil
  | @cons key s keys l hs hrest ih =>
    rw [List.map_cons, List.pairwise_cons] at hkeys
    cases s with
    | none => exact ih hkeys.2
    | some s =>
      refine List.nodup_cons.mpr ?_
      refine ⟨fun hmem => ?_, ih hkeys.2⟩
      obtain ⟨s', hs', heq⟩ := List.mem_map.mp hmem
      obtain ⟨o, ho, rfl⟩ := List.mem_filterMap.mp hs'
      obtain ⟨key', hkey', hstart⟩ := forall₂_mem hrest _ ho
      have hapart := hkeys.1 _ (List.mem_map_of_mem hkey')
      exact hapart.ne (hs s rfl) (hstart s' rfl) heq.symm

/-- All that is offered, up to the eighth. -/
theorem buildDocumentSearchSuggestions_eq (hR : R.Lawful) (hkeeps : Runtime.KeepsPrefix R) :
    buildDocumentSearchSuggestions R documents = ((offered R documents).filterMap id).take 8 := by
  rw [buildDocumentSearchSuggestions, uniqueSearchSuggestions_eq [] _
    (nodup_filterMap (offered_startsWith hR hkeeps) keys_apart)]
  simp

end

/-! ## The fixed suggestions -/

section
variable {R : Runtime} {document : DocumentListItem}

/-- ASCII in small letters, with no blank around. -/
def Small (t : Text) : Prop := t ≠ [] ∧ (∀ u ∈ t, u < 128) ∧ trimText t = t ∧ t.map lowerUnit = t

instance (t : Text) : Decidable (Small t) := inferInstanceAs (Decidable (_ ∧ _ ∧ _ ∧ _))

theorem Small.normalizeText (hR : R.Lawful) {t : Text} (h : Small t) : normalizeText R (some t) = t := by
  rw [Search.normalizeText, Option.getD_some, h.2.2.1]
  exact (hR.lower_ascii t h.2.1).trans h.2.2.2

theorem Small.normalizeEnumText (hR : R.Lawful) {t : Text} (h : Small t) :
    normalizeEnumText R (some t) = asciiWord t :=
  normalizeEnumText_ascii hR h.2.1 h.2.2.1

/-- A search of one operator. -/
theorem accepts_operator (hR : R.Lawful) {search key value : Text} {operator : Operator}
    (h : tokens search = [⟨some key, value⟩]) (hop : operatorOf key = operator)
    (hkey : Small key) (hvalue : Small value)
    (document : DocumentListItem) : ∃ term : Term, term.operator = operator ∧ term.word R = value ∧
      (accepts R search document = true ↔ admits R document term = true) := by
  refine ⟨Token.term R ⟨some key, value⟩, ?_, ?_, ?_⟩
  · simp only [Token.term, hkey.normalizeText hR, hop]
  · rw [Term.word, Token.term, hvalue.2.2.1, hvalue.normalizeText hR]
  · have hne : (Token.term R ⟨some key, value⟩).value ≠ [] := by
      simp only [Token.term, hvalue.2.2.1]
      exact hvalue.1
    rw [accepts_iff hR, h, List.forall_mem_singleton]
    simp only [hne, ne_eq, not_false_eq_true, forall_const]

theorem tokens_status : tokens (utf16 "status:pending") = [⟨some (utf16 "status"), utf16 "pending"⟩] := by decide

theorem tokens_class :
    tokens (utf16 "class:confidential") = [⟨some (utf16 "class"), utf16 "confidential"⟩] := by decide

theorem tokens_file : tokens (utf16 "has:file") = [⟨some (utf16 "has"), utf16 "file"⟩] := by decide

theorem tokens_hold : tokens (utf16 "has:legal-hold") = [⟨some (utf16 "has"), utf16 "legal-hold"⟩] := by decide

theorem tokens_dlp : tokens (utf16 "dlp:detected") = [⟨some (utf16 "dlp"), utf16 "detected"⟩] := by decide

theorem tokens_dueSoon :
    tokens (utf16 "retention:due-soon") = [⟨some (utf16 "retention"), utf16 "due-soon"⟩] := by decide

theorem operator_status : operatorOf (utf16 "status") = .status := by decide

theorem operator_class : operatorOf (utf16 "class") = .classification := by decide

theorem operator_has : operatorOf (utf16 "has") = .presence := by decide

theorem operator_dlp : operatorOf (utf16 "dlp") = .dlp := by decide

theorem operator_retention : operatorOf (utf16 "retention") = .retention := by decide

theorem accepts_status (hR : R.Lawful) (h : document.status = .PENDING) :
    accepts R (utf16 "status:pending") document = true := by
  obtain ⟨term, hop, hword, haccepts⟩ :=
    accepts_operator hR tokens_status operator_status (by decide) (by decide) document
  have hsmall : Small (utf16 "pending") := by decide
  have hstatus := statusText_ascii .PENDING
  rw [haccepts, admits, hop, hword]
  simp only [h, normalizeEnumText_ascii hR hstatus.1 hstatus.2, hsmall.normalizeEnumText hR]
  decide

theorem accepts_classification (hR : R.Lawful) (h : document.classification = .CONFIDENTIAL) :
    accepts R (utf16 "class:confidential") document = true := by
  obtain ⟨term, hop, hword, haccepts⟩ :=
    accepts_operator hR tokens_class operator_class (by decide) (by decide) document
  have hsmall : Small (utf16 "confidential") := by decide
  have hlevel := classificationText_ascii .CONFIDENTIAL
  rw [haccepts, admits, hop, hword]
  simp only [h, normalizeEnumText_ascii hR hlevel.1 hlevel.2, hsmall.normalizeEnumText hR]
  decide

theorem accepts_file (hR : R.Lawful) : accepts R (utf16 "has:file") document = true ↔
    documentHasFile document = true := by
  obtain ⟨term, hop, hword, haccepts⟩ :=
    accepts_operator hR tokens_file operator_has (by decide) (by decide) document
  have hsmall : Small (utf16 "file") := by decide
  have hname : asciiWord (utf16 "file") = utf16 "file" := by decide
  rw [haccepts, admits, hop, hword]
  simp only [matchesPresenceOperator, hsmall.normalizeEnumText hR, hname, true_or, if_true]

/-- The list knows no such operator. -/
theorem accepts_hold (hR : R.Lawful) : accepts R (utf16 "has:legal-hold") document = false := by
  obtain ⟨term, hop, hword, haccepts⟩ :=
    accepts_operator hR tokens_hold operator_has (by decide) (by decide) document
  have hsmall : Small (utf16 "legal-hold") := by decide
  have hname : asciiWord (utf16 "legal-hold") = utf16 "legalhold" := by decide
  have hno : utf16 "legalhold" ≠ utf16 "file" ∧ utf16 "legalhold" ≠ utf16 "files" ∧
    utf16 "legalhold" ≠ utf16 "retention" ∧
      utf16 "legalhold" ≠ utf16 "dlp" := by decide
  rw [← Bool.not_eq_true, haccepts, admits, hop, hword]
  simp only [matchesPresenceOperator, hsmall.normalizeEnumText hR, hname, hno, or_self,
    if_false, Bool.false_eq_true, not_false_eq_true]

theorem accepts_dlp (hR : R.Lawful) :
    accepts R (utf16 "dlp:detected") document = true ↔ document.dlpStatus = some (utf16 "DETECTED") := by
  obtain ⟨term, hop, hword, haccepts⟩ :=
    accepts_operator hR tokens_dlp operator_dlp (by decide) (by decide) document
  have hsmall : Small (utf16 "detected") := by decide
  have hname : asciiWord (utf16 "detected") = utf16 "detected" := by decide
  rw [haccepts, admits, hop, hword]
  simp only [matchesDlpOperator, hsmall.normalizeEnumText hR, hname, if_true, decide_eq_true_eq]

theorem accepts_dueSoon (hR : R.Lawful) :
    accepts R (utf16 "retention:due-soon") document = true ↔
      matchesRetentionOperator R document (utf16 "due-soon") = true := by
  obtain ⟨term, hop, hword, haccepts⟩ :=
    accepts_operator hR tokens_dueSoon operator_retention (by decide) (by decide) document
  rw [haccepts, admits, hop, hword]

end

/-! ## All suggestions -/

/-- Each suggested search, with otherwise default filters, finds a document of the list. -/
def SuggestionsFind (R : Runtime) (localeCompare : Text → Text → Int) (documents : List DocumentListItem) : Prop :=
  ∀ suggestion ∈ buildDocumentSearchSuggestions R documents,
    filterAndSortDocuments R localeCompare documents
      { DEFAULT_DOCUMENT_FILTERS with search := suggestion.token } ≠ []

section
variable {R : Runtime} {localeCompare : Text → Text → Int} {documents : List DocumentListItem} {key : OfferedKey}
    {value : Text}

theorem search_ne_nil (search : Text) :
    filterAndSortDocuments R localeCompare documents { DEFAULT_DOCUMENT_FILTERS with search := search } ≠ [] ↔
      ∃ document ∈ documents, accepts R search document = true := by
  have hpasses : documents.filter (documentPassesFilters R { DEFAULT_DOCUMENT_FILTERS with search := search }) =
      documents.filter (accepts R search) :=
    List.filter_congr fun document _ => by
      simp [documentPassesFilters, DEFAULT_DOCUMENT_FILTERS, documentMatchesQuickView]
  rw [filterAndSortDocuments, hpasses, Ne, ← List.length_eq_zero_iff, List.length_insertionSort,
    List.length_eq_zero_iff, List.filter_eq_nil_iff]
  simp only [not_forall, not_not, exists_prop]

/-- A value that some document has is found exactly when it does not fall apart, or the pieces are found. -/
theorem value_found_iff (hR : R.Lawful) (hne : value ≠ [])
    (hhas : ∃ document ∈ documents, key.finds R value document = true) :
    (∃ document ∈ documents,
      accepts R (utf16 key.name ++ utf16 ":" ++ quoteQueryTokenValue value) document = true) ↔
      Findable R documents key value := by
  simp only [accepts_value hR hne]
  unfold Findable
  cases hmisread : misread value with
  | none =>
    obtain ⟨document, hmem, hfinds⟩ := hhas
    exact ⟨fun _ part rest h => (nomatch h), fun _ => ⟨document, hmem, fun _ => hfinds⟩⟩
  | some pieces =>
    obtain ⟨part, rest⟩ := pieces
    simp only [Option.some.injEq, Prod.mk.injEq, and_imp]
    exact ⟨fun h _ _ hpart hrest => hpart ▸ hrest ▸ h, fun h => h part rest rfl rfl⟩

theorem findFirstTag_mem {preferred : Option Text} {tag : Text}
    (h : findFirstTag R documents preferred = some tag) :
    tag ≠ [] ∧ ∃ document ∈ documents, ∃ t ∈ document.tags, trimText t = tag := by
  obtain ⟨t, ht, htrim⟩ := List.mem_map.mp (List.mem_of_find?_eq_some h)
  obtain ⟨document, hmem, ht⟩ := List.mem_flatMap.mp ht
  have hne := List.find?_some h
  simp only [Bool.and_eq_true, decide_eq_true_eq] at hne
  exact ⟨hne.1, document, hmem, t, ht, htrim⟩

theorem preferredTag_found {tag : Text} (h : preferredTag R documents = some tag) :
    tag ≠ [] ∧ ∃ document ∈ documents, OfferedKey.tag.finds R tag document = true := by
  have htag : tag ≠ [] ∧ ∃ document ∈ documents, ∃ t ∈ document.tags, trimText t = tag := by
    obtain h | h := Option.or_eq_some_iff.mp h
    · exact findFirstTag_mem h
    · exact findFirstTag_mem h.2
  obtain ⟨hne, document, hmem, t, ht, htrim⟩ := htag
  refine ⟨hne, document, hmem, List.any_eq_true.mpr ⟨some t, List.mem_map_of_mem ht, ?_⟩⟩
  rw [← htrim, normalizeText_trimText]
  exact includes_self _

theorem latestFilename_found {filename : Text} (h : latestFilename documents = some filename) :
    filename ≠ [] ∧ ∃ document ∈ documents, OfferedKey.file.finds R filename document = true := by
  obtain ⟨document, hfind, hname⟩ := Option.bind_eq_some_iff.mp h
  have htruthy := List.find?_some hfind
  rw [hname] at htruthy
  refine ⟨by simpa [truthy] using htruthy, document, List.mem_of_find?_eq_some hfind, ?_⟩
  rw [OfferedKey.finds, hname]
  exact includes_self _

theorem ownerLabel_found {label : Text} (h : ownerLabel documents = some label) :
    label ≠ [] ∧ ∃ document ∈ documents, OfferedKey.owner.finds R label document = true := by
  obtain ⟨hlabel, hne⟩ := Option.filter_eq_some_iff.mp h
  obtain ⟨document, hfind, rfl⟩ := Option.map_eq_some_iff.mp hlabel
  refine ⟨by simpa using hne, document, List.mem_of_find?_eq_some hfind, List.any_eq_true.mpr ?_⟩
  cases hdisplay : document.ownerDisplay with
  | none => exact ⟨some document.ownerId, by simp, includes_self _⟩
  | some display => exact ⟨some display, by simp, includes_self _⟩

theorem offered_split : ∃ front back : List (Option DocumentSearchSuggestion), front.length = 5 ∧ back.length = 3 ∧
    offered R documents = front ++ (if documents.any fun document => document.legalHold = some true then
      some (fixedSuggestion "has:legal-hold" "Documents under legal hold" .presence) else none) :: back :=
  ⟨[_, _, _, _, _], [_, _, _], rfl, rfl, rfl⟩

/-- The suggestion for held documents is never cut off. -/
theorem hold_suggested (hR : R.Lawful) (hkeeps : Runtime.KeepsPrefix R)
    (hheld : (documents.any fun document => document.legalHold = some true) = true) :
    fixedSuggestion "has:legal-hold" "Documents under legal hold" .presence ∈
      buildDocumentSearchSuggestions R documents := by
  obtain ⟨front, back, hfront, -, hsplit⟩ : ∃ front back : List (Option DocumentSearchSuggestion), _ :=
    offered_split
  rw [buildDocumentSearchSuggestions_eq hR hkeeps, hsplit, hheld, if_pos rfl, List.filterMap_append]
  have hle : (front.filterMap id).length ≤ 5 := hfront ▸ List.length_filterMap_le id front
  rw [List.take_append]
  refine List.mem_append_right _ ?_
  obtain ⟨n, hn⟩ : ∃ n, 8 - (front.filterMap id).length = n + 1 := ⟨7 - (front.filterMap id).length, by omega⟩
  rw [hn]
  exact List.mem_cons_self

/-- Without them nothing is cut off. -/
theorem mem_suggestions (hR : R.Lawful) (hkeeps : Runtime.KeepsPrefix R)
    (hheld : (documents.any fun document => document.legalHold = some true) = false)
    (s : DocumentSearchSuggestion) :
    s ∈ buildDocumentSearchSuggestions R documents ↔ some s ∈ offered R documents := by
  obtain ⟨front, back, hfront, hback, hsplit⟩ : ∃ front back : List (Option DocumentSearchSuggestion), _ :=
    offered_split
  have hlen : ((offered R documents).filterMap id).length ≤ 8 := by
    have hf : (front.filterMap id).length ≤ 5 := hfront ▸ List.length_filterMap_le id front
    have hb : (back.filterMap id).length ≤ 3 := hback ▸ List.length_filterMap_le id back
    rw [hsplit, hheld, if_neg Bool.false_ne_true, List.filterMap_append,
      List.filterMap_cons_none rfl, List.length_append]
    omega
  rw [buildDocumentSearchSuggestions_eq hR hkeeps, List.take_of_length_le hlen]
  simp [List.mem_filterMap]

theorem fixed_found {token : String} {p : DocumentListItem → Bool} (description : String)
    (kind : DocumentSearchSuggestionKind)
    (h : ∀ document, p document = true → accepts R (utf16 token) document = true) :
    ∀ s, (if documents.any p then some (fixedSuggestion token description kind) else none) = some s →
      ∃ document ∈ documents, accepts R s.token document = true := by
  intro s hs
  by_cases hany : documents.any p = true
  · rw [if_pos hany] at hs
    obtain rfl := Option.some.inj hs
    obtain ⟨document, hmem, hp⟩ := List.any_eq_true.mp hany
    exact ⟨document, hmem, h document hp⟩
  · rw [if_neg hany] at hs
    cases hs

theorem value_forall (hR : R.Lawful) (key : OfferedKey) {offer : Option Text} (description : Text → Text)
    (kind : DocumentSearchSuggestionKind)
    (hhas : ∀ v, offer = some v → v ≠ [] ∧ ∃ document ∈ documents, key.finds R v document = true) :
    (∀ s, (offer.map fun v => valueSuggestion key.name v (description v) kind) = some s →
      ∃ document ∈ documents, accepts R s.token document = true) ↔
        ∀ v, offer = some v → Findable R documents key v := by
  cases offer with
  | none => simp
  | some v =>
    obtain ⟨hne, hfinds⟩ := hhas v rfl
    simp only [Option.map_some, Option.some.injEq, forall_eq']
    exact value_found_iff hR hne hfinds

theorem forall_offered {P : DocumentSearchSuggestion → Prop} : (∀ s, some s ∈ offered R documents → P s) ↔
    ∀ o ∈ offered R documents, ∀ s, o = some s → P s := by
  apply Iff.intro
  · intro h o ho s hs
    subst hs
    exact h s ho
  · intro h s hs
    exact h _ hs s rfl

/-- The suggestions all find something exactly when no document is on hold and the three values that are
offered are findable. -/
theorem suggestions_find_iff (hR : R.Lawful) (hkeeps : Runtime.KeepsPrefix R) (localeCompare : Text → Text → Int)
    (documents : List DocumentListItem) :
    SuggestionsFind R localeCompare documents ↔ (∀ document ∈ documents, document.legalHold ≠ some true) ∧
      (∀ tag, preferredTag R documents = some tag → Findable R documents .tag tag) ∧
      (∀ filename, latestFilename documents = some filename → Findable R documents .file filename) ∧
      ∀ label, ownerLabel documents = some label → Findable R documents .owner label := by
  unfold SuggestionsFind
  simp only [search_ne_nil]
  by_cases hheld : (documents.any fun document => document.legalHold = some true) = true
  · have hsome : ¬∀ document ∈ documents, document.legalHold ≠ some true := by simpa using hheld
    refine iff_of_false (fun h => ?_) fun h => hsome h.1
    obtain ⟨document, -, haccepts⟩ := h _ (hold_suggested hR hkeeps hheld)
    rw [fixedSuggestion, accepts_hold hR] at haccepts
    cases haccepts
  · rw [Bool.not_eq_true] at hheld
    have hnone : ∀ document ∈ documents, document.legalHold ≠ some true := by simpa using hheld
    rw [and_iff_right hnone]
    simp only [mem_suggestions hR hkeeps hheld, forall_offered]
    rw [offered, hheld, if_neg Bool.false_ne_true]
    simp only [List.forall_mem_cons, List.not_mem_nil, false_implies, implies_true,
      and_true, reduceCtorEq, true_and]
    refine (and_iff_right (fixed_found _ _ fun d h => accepts_status hR (of_decide_eq_true h))).trans ?_
    refine (and_iff_right (fixed_found _ _ fun d h => accepts_classification hR (of_decide_eq_true h))).trans ?_
    refine and_congr (value_forall hR .tag (fun tag => formatEnum R tag ++ utf16 " folder") _
      fun _ => preferredTag_found) ?_
    refine and_congr (value_forall hR .file (fun _ => utf16 "Latest file lookup") _ fun _ =>
      latestFilename_found) ?_
    refine (and_iff_right (fixed_found _ _ fun d h => (accepts_file hR).mpr h)).trans ?_
    refine (and_iff_right (fixed_found _ _ fun d h => (accepts_dlp hR).mpr (of_decide_eq_true h))).trans ?_
    refine (and_iff_right (fixed_found _ _ fun d h => (accepts_dueSoon hR).mpr h)).trans ?_
    exact value_forall hR .owner (fun _ => utf16 "Owner handoff") _ fun _ => ownerLabel_found

end

/-! ## Two documents -/

def heldDocument : DocumentListItem := { toListSummary heldLease with ownerDisplay := some (utf16 "Alice") }

theorem sampleRuntime_keepsPrefix : Runtime.KeepsPrefix sampleRuntime := fun a t _ => by
  rw [show sampleRuntime.toLowerCase (a ++ t) = sampleRuntime.toLowerCase a ++ sampleRuntime.toLowerCase t from
    List.map_append]
  exact List.prefix_append _ _

/-- A tag of two words, a file and an owner are offered for the two documents. -/
def freeDocuments : List DocumentListItem :=
  [{ heldDocument with legalHold := some false, filename := none },
    { heldDocument with legalHold := none, status := .DRAFT, tags := [utf16 "security review"] }]

theorem offered_free : preferredTag sampleRuntime freeDocuments = some (utf16 "security review") ∧
    latestFilename freeDocuments = some (utf16 "lease.pdf") ∧ ownerLabel freeDocuments = some (utf16 "Alice") := by
  decide +kernel

theorem free_documents_suggested : SuggestionsFind sampleRuntime (fun _ _ => 0) freeDocuments := by
  have hread : ∀ value ∈ [utf16 "security review", utf16 "lease.pdf", utf16 "Alice"], misread value = none := by
    decide +kernel
  have hfindable : ∀ key, ∀ value ∈ [utf16 "security review", utf16 "lease.pdf", utf16 "Alice"],
      Findable sampleRuntime freeDocuments key value := fun key value hv part rest hmisread => by
    rw [hread value hv] at hmisread
    cases hmisread
  obtain ⟨htag, hfile, howner⟩ := offered_free
  refine (suggestions_find_iff sampleRuntime_lawful sampleRuntime_keepsPrefix _ _).mpr ⟨?_,
    fun tag h => ?_, fun file h => ?_, fun label h => ?_⟩
  · decide +kernel
  · obtain rfl := Option.some.inj (htag.symm.trans h)
    exact hfindable _ _ (by simp)
  · obtain rfl := Option.some.inj (hfile.symm.trans h)
    exact hfindable _ _ (by simp)
  · obtain rfl := Option.some.inj (howner.symm.trans h)
    exact hfindable _ _ (by simp)

/-- The search that is suggested for a held document finds nothing. -/
theorem held_document_not_found :
    ¬∀ (R : Runtime) (localeCompare : Text → Text → Int) (documents : List DocumentListItem),
    R.Lawful → Runtime.KeepsPrefix R → SuggestionsFind R localeCompare documents := by
  intro h
  have hfind := h sampleRuntime (fun _ _ => 0) [heldDocument] sampleRuntime_lawful sampleRuntime_keepsPrefix
  have hheld : ([heldDocument].any fun document => document.legalHold = some true) = true := rfl
  have hfound := hfind _ (hold_suggested sampleRuntime_lawful sampleRuntime_keepsPrefix hheld)
  obtain ⟨document, -, haccepts⟩ := (search_ne_nil _).mp hfound
  have hnot : accepts sampleRuntime (utf16 "has:legal-hold") document = false := accepts_hold sampleRuntime_lawful
  exact Bool.false_ne_true (hnot.symm.trans haccepts)

end DocVault.Search.Web
