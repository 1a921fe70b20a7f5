import DocVault.Encoding
import DocVault.JsonParse
import DocVault.RegexScan

/-!
# Whom the gateway authenticates and whom it forwards

`JwtStrategy` takes the token from a Bearer header or else from a cookie,
`ProxyService` forwards any header there is or else the token of the cookie. So
a header of another scheme hides the cookie from the one and not from the other,
a Bearer header is forwarded with more in it than its token, and a cookie that
is no encoded text stops both.
-/

namespace DocVault

/-! ## Cookies -/

inductive URIError where
  | malformed

/-- `pending` are the octets of a character that is not complete yet. -/
def decodeOctets (pending : List UInt8) : List Char → Option (List Char)
  | [] => if pending = [] then some [] else none
  | '%' :: x :: y :: rest => do
    let octets := pending ++ [UInt8.ofNat ((← Json.hexValue x.toNat) * 16 + (← Json.hexValue y.toNat))]
    match octets.toByteArray.utf8DecodeChar? 0 with
    | some c => (decodeOctets [] rest).map (c :: ·)
    | none => if octets.length < 4 then decodeOctets octets rest else none
  | c :: rest => if c = '%' ∨ pending ≠ [] then none else (decodeOctets [] rest).map (c :: ·)

def decodeURIComponent (encoded : String) : Except URIError String :=
  match decodeOctets [] encoded.toList with
  | some cs => .ok (String.ofList cs)
  | none => .error .malformed

-- Only the first `=` divides the name from the value: the others are joined again.
def cookieEntry (c : String) : Except URIError (String × String) := do
  let value ← decodeURIComponent (String.ofList ((c.toList.dropWhile (· ≠ '=')).drop 1))
  return (String.ofList (c.toList.takeWhile (· ≠ '=')), value)

def cookieParts (raw : String) : List String := (raw.toList.splitOn ';').map fun part => trim (String.ofList part)

/-- A property of `Object.fromEntries`: the last entry of a name counts. -/
def property (entries : List (String × String)) (name : String) : Option String := entries.reverse.lookup name

/-! ## The two readers -/

namespace JwtStrategy

def parseCookies (raw : String) : Except URIError (List (String × String)) := (cookieParts raw).mapM cookieEntry

/-- `fromAuthHeaderAsBearerToken` is that of passport-jwt. -/
def extractToken (fromAuthHeaderAsBearerToken : Option String → Option String)
    (authorization cookie : Option String) : Except URIError (Option String) :=
  match fromAuthHeaderAsBearerToken authorization with
  | some token => .ok (some token)
  | none => do
    let cookies ← parseCookies (cookie.getD "")
    return property cookies "dv_access_token"

end JwtStrategy

namespace ProxyService

def parseCookies (raw : String) : Except URIError (List (String × String)) :=
  ((cookieParts raw).filter (· ≠ "")).mapM cookieEntry

-- An empty text is falsy, both as the header and as the token.
def buildAuthorizationHeader (authorization cookie : Option String) : Except URIError (Option String) :=
  match authorization.filter (· ≠ "") with
  | some header => .ok (some header)
  | none => do
    let cookies ← parseCookies (cookie.getD "")
    return ((property cookies "dv_access_token").filter (· ≠ "")).map ("Bearer " ++ ·)

end ProxyService

/-! ## What is to hold -/

def BearerScheme (scheme : String) : Prop := scheme.toList.map Char.toLower = "bearer".toList

def Blanks (s : String) : Prop := ∀ c ∈ s.toList, isSpace c = true

def IsWord (s : String) : Prop := s ≠ "" ∧ ∀ c ∈ s.toList, isSpace c = false

/-- What `/(\S+)\s+(\S+)/` finds: the first word of the header is `bearer` in any
case, and `token` is the second. -/
def BearerHeader (header token : String) : Prop :=
  ∃ before scheme blanks after : String, header = before ++ scheme ++ blanks ++ token ++ after ∧ Blanks before ∧
    BearerScheme scheme ∧ Blanks blanks ∧ blanks ≠ "" ∧ IsWord token ∧ ∀ c ∈ after.toList.head?, isSpace c = true

structure ReadsBearer (fromAuthHeaderAsBearerToken : Option String → Option String) : Prop where
  absent : fromAuthHeaderAsBearerToken none = none
  bearer : ∀ header token : String, BearerHeader header token →
    fromAuthHeaderAsBearerToken (some header) = some token
  other : ∀ header : String, (∀ token, ¬BearerHeader header token) →
    fromAuthHeaderAsBearerToken (some header) = none

/-- Neither reader throws, and the token of the one is the Bearer token of the other. -/
structure ForwardsToken (fromAuthHeaderAsBearerToken : Option String → Option String)
    (authorization cookie : Option String) : Prop where
  extracts : ∃ token, JwtStrategy.extractToken fromAuthHeaderAsBearerToken authorization cookie = .ok token
  builds : ∃ header, ProxyService.buildAuthorizationHeader authorization cookie = .ok header
  same : ∀ token, JwtStrategy.extractToken fromAuthHeaderAsBearerToken authorization cookie = .ok (some token) →
    ∃ scheme : String, BearerScheme scheme ∧
      ProxyService.buildAuthorizationHeader authorization cookie = .ok (some (scheme ++ " " ++ token))

def IsBearer (authorization : Option String) : Prop :=
  ∃ scheme token : String, BearerScheme scheme ∧ IsWord token ∧ authorization = some (scheme ++ " " ++ token)

def NoBearer (authorization : Option String) : Prop := ∀ header ∈ authorization, ∀ token, ¬BearerHeader header token

def cookieToken (cookie : Option String) : Except URIError (Option String) :=
  (JwtStrategy.parseCookies (cookie.getD "")).map fun cookies => property cookies "dv_access_token"

/-- The cookies can be read, and a token in them is not hidden by a header. A blank one
may stand in the header too. -/
def CookieAgrees (authorization cookie : Option String) : Prop :=
  ∃ token, cookieToken cookie = .ok token ∧
    match authorization.filter (· ≠ "") with
    | none => token ≠ some ""
    | some header => ∀ t ∈ token, Blanks t ∧ ∃ scheme : String, BearerScheme scheme ∧ header = scheme ++ " " ++ t

/-! ## The two readers of cookies -/

theorem property_cons (entry : String × String) (entries : List (String × String)) (name : String) :
    property (entry :: entries) name = (property entries name).or ([entry].lookup name) := by
  rw [property, List.reverse_cons, List.lookup_append]
  rfl

theorem cookieEntry_empty : cookieEntry "" = .ok ("", "") := by
  rfl

theorem property_filter {name : String} (hname : name ≠ "") (parts : List String) :
    ((parts.filter (· ≠ "")).mapM cookieEntry).map (fun cookies => property cookies name) =
      (parts.mapM cookieEntry).map fun cookies => property cookies name := by
  induction parts with
  | nil => rfl
  | cons part parts ih =>
    by_cases hpart : part = ""
    · subst hpart
      have hskip : ∀ cookies, property (("", "") :: cookies) name = property cookies name := by
        intro cookies
        simp [property_cons, List.lookup_cons, beq_false_of_ne hname]
      rw [List.filter_cons_of_neg (by simp), ih, List.mapM_cons, cookieEntry_empty]
      cases parts.mapM cookieEntry with
      | error e => rfl
      | ok cookies => exact congrArg Except.ok (hskip cookies).symm
    · rw [List.filter_cons_of_pos (by simpa using hpart), List.mapM_cons, List.mapM_cons]
      cases cookieEntry part with
      | error e => rfl
      | ok entry =>
        have hcons : ∀ x : Except URIError (List (String × String)),
            (x >>= fun cookies => pure (entry :: cookies)).map (fun cookies => property cookies name) =
              (x.map fun cookies => property cookies name).map fun value => value.or ([entry].lookup name) := by
          intro x
          cases x with
          | error e => rfl
          | ok cookies => exact congrArg Except.ok (property_cons entry cookies name)
        exact (hcons _).trans ((congrArg _ ih).trans (hcons _).symm)

/-! ## The words of a header -/

theorem span_exact {p : Char → Bool} {body rest : List Char} (hbody : ∀ c ∈ body, p c = true)
    (hrest : ∀ c ∈ rest.head?, p c = false) :
    (body ++ rest).takeWhile p = body ∧ (body ++ rest).dropWhile p = rest := by
  rw [List.takeWhile_append_of_pos hbody, List.dropWhile_append_of_pos hbody]
  cases rest with
  | nil => simp
  | cons c rest => simp [hrest c rfl]

theorem toLower_space {c : Char} (h : isSpace c = true) : c.toLower = c := by
  have hupper : ¬('A'.val ≤ c.val ∧ c.val ≤ 'Z'.val) := by
    rintro ⟨hlow, hhigh⟩
    simp only [isSpace, Bool.or_eq_true, decide_eq_true_eq, Bool.and_eq_true] at h
    rcases h with h | ⟨h, _⟩
    · simp only [List.mem_cons, List.not_mem_nil, or_false] at h
      rcases h with rfl | rfl | rfl | rfl | rfl | rfl | rfl | rfl | rfl | rfl | rfl | rfl | rfl | rfl <;>
        revert hlow hhigh <;> decide
    · have hle : c.toNat ≤ 90 := UInt32.le_iff_toNat_le.mp hhigh
      omega
  exact dif_neg hupper

theorem BearerScheme.word {scheme : String} (h : BearerScheme scheme) : IsWord scheme := by
  refine ⟨?_, fun c hc => Bool.eq_false_iff.mpr fun hspace => ?_⟩
  · rintro rfl
    cases h
  · have hmem : c.toLower ∈ "bearer".toList := by
      rw [← h]
      exact List.mem_map_of_mem hc
    rw [toLower_space hspace] at hmem
    have hletters : ("bearer".toList.all fun c => !isSpace c) = true := by decide
    have hletter := List.all_eq_true.mp hletters _ hmem
    rw [hspace] at hletter
    cases hletter

theorem IsWord.not {s : String} (h : IsWord s) : ∀ c ∈ s.toList, (!isSpace c) = true := fun c hc => by
  rw [h.2 c hc]
  rfl

theorem IsWord.head {s : String} (h : IsWord s) (rest : List Char) :
    ∀ c ∈ (s.toList ++ rest).head?, isSpace c = false := by
  intro c hc
  refine h.2 c ?_
  cases hs : s.toList with
  | nil => exact absurd (String.toList_inj.mp hs) h.1
  | cons d ds =>
    rw [hs] at hc
    exact List.mem_of_mem_head? hc

theorem first_word {s : String} (h : ¬Blanks s) : ∃ blanks token after : String, s = blanks ++ token ++ after ∧
    Blanks blanks ∧ IsWord token ∧ ∀ c ∈ after.toList.head?, isSpace c = true := by
  refine ⟨String.ofList (s.toList.takeWhile isSpace),
    String.ofList ((s.toList.dropWhile isSpace).takeWhile (!isSpace ·)),
    String.ofList ((s.toList.dropWhile isSpace).dropWhile (!isSpace ·)), ?_, ?_, ⟨?_, ?_⟩, ?_⟩
  · rw [← String.toList_inj, String.toList_append, String.toList_append]
    simp [List.append_assoc]
  · intro c hc
    exact List.mem_takeWhile_imp (by simpa using hc)
  · intro hempty
    have hempty := congrArg String.toList hempty
    have hhead := Regex.head?_dropWhile isSpace s.toList
    cases hrest : s.toList.dropWhile isSpace with
    | nil =>
      refine h fun c hc => ?_
      rw [← List.takeWhile_append_dropWhile (p := isSpace) (l := s.toList), hrest, List.append_nil] at hc
      exact List.mem_takeWhile_imp hc
    | cons c rest =>
      rw [hrest] at hempty hhead
      simp [hhead c rfl] at hempty
  · intro c hc
    rw [String.toList_ofList] at hc
    simpa using List.mem_takeWhile_imp hc
  · intro c hc
    rw [String.toList_ofList] at hc
    simpa using Regex.head?_dropWhile _ _ c hc

theorem bearerHeader_of {scheme token : String} (hscheme : BearerScheme scheme) (htoken : IsWord token) :
    BearerHeader (scheme ++ " " ++ token) token := by
  refine ⟨"", scheme, " ", "", by simp, by simp [Blanks], hscheme, ?_, by decide, htoken, by simp⟩
  rintro c hc
  obtain rfl : c = ' ' := by simpa using hc
  decide

theorem bearerHeader_ne {header token : String} (h : BearerHeader header token) : header ≠ "" := by
  obtain ⟨before, scheme, blanks, after, rfl, -, -, -, -, hword, -⟩ := h
  simp [hword.1]

theorem bearerHeader_rest {scheme t : String} (hscheme : BearerScheme scheme) (ht : ¬Blanks t) :
    ∃ token, BearerHeader (scheme ++ " " ++ t) token := by
  obtain ⟨blanks, token, after, rfl, hblanks, hword, hafter⟩ := first_word ht
  refine ⟨token, "", scheme, " " ++ blanks,
    after, by simp [String.append_assoc], by simp [Blanks], hscheme, ?_, by simp, hword, hafter⟩
  intro c hc
  rw [String.toList_append, List.mem_append] at hc
  rcases hc with hc | hc
  · obtain rfl : c = ' ' := by simpa using hc
    decide
  · exact hblanks c hc

section
variable {fromAuthHeaderAsBearerToken : Option String → Option String} {authorization cookie : Option String}

theorem extractToken_bearer (hreads : ReadsBearer fromAuthHeaderAsBearerToken) {header token : String}
    (h : BearerHeader header token) :
    JwtStrategy.extractToken fromAuthHeaderAsBearerToken (some header) cookie = .ok (some token) := by
  rw [JwtStrategy.extractToken, hreads.bearer header token h]

theorem extractToken_other (hreads : ReadsBearer fromAuthHeaderAsBearerToken) (h : NoBearer authorization) :
    JwtStrategy.extractToken fromAuthHeaderAsBearerToken authorization cookie = cookieToken cookie := by
  have hnone : fromAuthHeaderAsBearerToken authorization = none := by
    cases authorization with
    | none => exact hreads.absent
    | some header => exact hreads.other header (h header rfl)
  rw [JwtStrategy.extractToken, hnone]
  rfl

theorem buildAuthorizationHeader_some {header : String} (h : authorization.filter (· ≠ "") = some header) :
    ProxyService.buildAuthorizationHeader authorization cookie = .ok (some header) := by
  rw [ProxyService.buildAuthorizationHeader, h]

theorem buildAuthorizationHeader_none (h : authorization.filter (· ≠ "") = none) :
    ProxyService.buildAuthorizationHeader authorization cookie =
      (cookieToken cookie).map fun token => (token.filter (· ≠ "")).map ("Bearer " ++ ·) := by
  have hname : "dv_access_token" ≠ "" := by decide
  have hcookies := property_filter hname (cookieParts (cookie.getD ""))
  unfold cookieToken JwtStrategy.parseCookies
  rw [ProxyService.buildAuthorizationHeader, h, ← hcookies]
  unfold ProxyService.parseCookies
  cases ((cookieParts (cookie.getD "")).filter (· ≠ "")).mapM cookieEntry with
  | error e => rfl
  | ok cookies => rfl

theorem forwardsToken_bearer (hreads : ReadsBearer fromAuthHeaderAsBearerToken) {header token : String}
    (h : BearerHeader header token) :
    ForwardsToken fromAuthHeaderAsBearerToken (some header) cookie ↔ IsBearer (some header) := by
  have hextract : JwtStrategy.extractToken fromAuthHeaderAsBearerToken (some header) cookie = _ :=
    extractToken_bearer hreads h
  have hbuild : ProxyService.buildAuthorizationHeader (some header) cookie = .ok (some header) :=
    buildAuthorizationHeader_some (by simp [bearerHeader_ne h])
  have hword : IsWord token := by
    obtain ⟨_, _, _, _, _, _, _, _, _, hword, _⟩ := h
    exact hword
  constructor
  · intro hforwards
    obtain ⟨scheme, hscheme, hsame⟩ := hforwards.same token hextract
    exact ⟨scheme, token, hscheme, hword, Except.ok.inj (hbuild.symm.trans hsame)⟩
  · rintro ⟨scheme, token', hscheme, htoken, heq⟩
    refine ⟨⟨_, hextract⟩, ⟨_, hbuild⟩, fun t ht => ⟨scheme, hscheme, ?_⟩⟩
    have hread : JwtStrategy.extractToken fromAuthHeaderAsBearerToken (some header) cookie = .ok (some token') := by
      rw [heq]
      exact extractToken_bearer hreads (bearerHeader_of hscheme htoken)
    obtain rfl := Option.some.inj (Except.ok.inj (hread.symm.trans ht))
    rw [hbuild, heq]

theorem forwards_cookie_iff {token : Option String}
    (hextract : JwtStrategy.extractToken fromAuthHeaderAsBearerToken authorization cookie = .ok token)
    (hbuild : ProxyService.buildAuthorizationHeader authorization cookie =
      .ok ((token.filter (· ≠ "")).map ("Bearer " ++ ·))) :
    ForwardsToken fromAuthHeaderAsBearerToken authorization cookie ↔ token ≠ some "" := by
  constructor
  · intro hforwards hempty
    subst hempty
    obtain ⟨scheme, -, hsame⟩ := hforwards.same "" hextract
    rw [hbuild] at hsame
    simp at hsame
  · intro hne
    refine ⟨⟨_, hextract⟩, ⟨_, hbuild⟩, fun t ht => ⟨"Bearer", by simp [BearerScheme], ?_⟩⟩
    obtain rfl := Except.ok.inj (hextract.symm.trans ht)
    have ht : t ≠ "" := fun he => hne (congrArg some he)
    rw [hbuild, Option.filter_some, if_pos (by simpa using ht)]
    rfl

theorem forwards_header_iff {token : Option String} {header : String}
    (hextract : JwtStrategy.extractToken fromAuthHeaderAsBearerToken authorization cookie = .ok token)
    (hbuild : ProxyService.buildAuthorizationHeader authorization cookie = .ok (some header))
    (hother : ∀ token, ¬BearerHeader header token) :
    ForwardsToken fromAuthHeaderAsBearerToken authorization cookie ↔
      ∀ t ∈ token, Blanks t ∧ ∃ scheme : String, BearerScheme scheme ∧ header = scheme ++ " " ++ t := by
  constructor
  · rintro hforwards t rfl
    obtain ⟨scheme, hscheme, hsame⟩ := hforwards.same t hextract
    obtain rfl : header = scheme ++ " " ++ t := Option.some.inj (Except.ok.inj (hbuild.symm.trans hsame))
    refine ⟨?_, scheme, hscheme, rfl⟩
    by_contra hblank
    obtain ⟨token, htoken⟩ := bearerHeader_rest hscheme hblank
    exact hother token htoken
  · intro hagree
    refine ⟨⟨_, hextract⟩, ⟨_, hbuild⟩, fun t ht => ?_⟩
    obtain rfl := Except.ok.inj (hextract.symm.trans ht)
    obtain ⟨-, scheme, hscheme, heq⟩ := hagree t rfl
    exact ⟨scheme, hscheme, by rw [hbuild, heq]⟩

theorem forwardsToken_cookie (hreads : ReadsBearer fromAuthHeaderAsBearerToken) (h : NoBearer authorization) :
    ForwardsToken fromAuthHeaderAsBearerToken authorization cookie ↔ CookieAgrees authorization cookie := by
  have hextract : JwtStrategy.extractToken fromAuthHeaderAsBearerToken authorization cookie = _ :=
    extractToken_other hreads h
  cases hcookie : cookieToken cookie with
  | error e =>
    rw [hcookie] at hextract
    refine iff_of_false (fun hf => ?_) fun ha => ?_
    · obtain ⟨token, htoken⟩ := hf.extracts
      nomatch hextract.symm.trans htoken
    · obtain ⟨token, htoken, -⟩ := ha
      nomatch hcookie.symm.trans htoken
  | ok token =>
    rw [hcookie] at hextract
    unfold CookieAgrees
    rw [hcookie]
    simp only [Except.ok.injEq, exists_eq_left']
    cases hheader : authorization.filter (· ≠ "") with
    | none =>
      have hbuild : ProxyService.buildAuthorizationHeader authorization cookie = _ :=
        buildAuthorizationHeader_none hheader
      rw [hcookie] at hbuild
      exact forwards_cookie_iff hextract hbuild
    | some header =>
      have hbuild : ProxyService.buildAuthorizationHeader authorization cookie = _ :=
        buildAuthorizationHeader_some hheader
      exact forwards_header_iff hextract hbuild (h header (Option.filter_eq_some_iff.mp hheader).1)

end

theorem forwards_token_iff {fromAuthHeaderAsBearerToken : Option String → Option String}
    (hreads : ReadsBearer fromAuthHeaderAsBearerToken) (authorization cookie : Option String) :
    ForwardsToken fromAuthHeaderAsBearerToken authorization cookie ↔
      IsBearer authorization ∨ NoBearer authorization ∧ CookieAgrees authorization cookie := by
  by_cases h : NoBearer authorization
  · have hnot : ¬IsBearer authorization := by
      rintro ⟨scheme, token, hscheme, htoken, rfl⟩
      exact h _ rfl token (bearerHeader_of hscheme htoken)
    rw [forwardsToken_cookie hreads h, or_iff_right hnot, and_iff_right h]
  · obtain ⟨header, rfl, token, htoken⟩ : ∃ header, authorization = some header ∧
      ∃ token, BearerHeader header token := by
      simpa [NoBearer] using h
    rw [forwardsToken_bearer hreads htoken, or_iff_left fun ha => h ha.1]

/-! ## A reader of Bearer headers -/

def readBearer : Option String → Option String
  | none => none
  | some header =>
    let words := header.toList.dropWhile isSpace
    let token := ((words.dropWhile (!isSpace ·)).dropWhile isSpace).takeWhile (!isSpace ·)
    if (words.takeWhile (!isSpace ·)).map Char.toLower = "bearer".toList ∧ token ≠ [] then some
      (String.ofList token)
    else none

theorem readBearer_bearer {header token : String} (h : BearerHeader header token) :
    readBearer (some header) = some token := by
  obtain ⟨before, scheme, blanks, after, rfl, hbefore, hscheme, hblanks, hne, hword, hafter⟩ := h
  have hlist : (before ++ scheme ++ blanks ++ token ++ after).toList =
      before.toList ++ (scheme.toList ++ (blanks.toList ++ (token.toList ++ after.toList))) := by simp
  have hgap : ∀ c ∈ (blanks.toList ++ (token.toList ++ after.toList)).head?, (!isSpace c) = false := by
    intro c hc
    cases hb : blanks.toList with
    | nil => exact absurd (String.toList_inj.mp hb) hne
    | cons d ds =>
      rw [hb] at hc
      rw [hblanks c (hb ▸ List.mem_of_mem_head? hc)]
      rfl
  have hwords := (span_exact hbefore (hscheme.word.head (blanks.toList ++ (token.toList ++ after.toList)))).2
  have hfirst := span_exact hscheme.word.not hgap
  have hsecond := (span_exact hblanks (hword.head after.toList)).2
  have hthird := (span_exact hword.not fun c (hc : c ∈ after.toList.head?) => by rw [hafter c hc]; rfl).1
  have htoken : token.toList ≠ [] := fun he => hword.1 (String.toList_inj.mp he)
  simp only [readBearer, hlist, hwords, hfirst.1, hfirst.2, hsecond, hthird]
  rw [if_pos ⟨hscheme, htoken⟩, String.ofList_toList]

theorem readBearer_reads : ReadsBearer readBearer where
  absent := rfl
  bearer _ _ := readBearer_bearer
  other header hother := by
    unfold readBearer
    refine if_neg fun h => ?_
    obtain ⟨hscheme, htoken⟩ := h
    let words := header.toList.dropWhile isSpace
    let rest := words.dropWhile (!isSpace ·)
    refine hother (String.ofList ((rest.dropWhile isSpace).takeWhile (!isSpace ·)))
      ⟨String.ofList (header.toList.takeWhile isSpace), String.ofList (words.takeWhile (!isSpace ·)),
      String.ofList (rest.takeWhile isSpace),
        String.ofList ((rest.dropWhile isSpace).dropWhile (!isSpace ·)), ?_, ?_,
      by simpa [BearerScheme] using hscheme, ?_, fun hempty => ?_, ⟨fun hempty => htoken ?_, ?_⟩, ?_⟩
    · rw [← String.toList_inj]
      simp [words, rest, List.append_assoc]
    · exact fun c hc => List.mem_takeWhile_imp (by simpa using hc)
    · exact fun c hc => List.mem_takeWhile_imp (by simpa using hc)
    · -- the first word ends before a blank, or the text ends with it
      have hempty : rest.takeWhile isSpace = [] := by simpa using congrArg String.toList hempty
      have hhead : ∀ c ∈ rest.head?, (!isSpace c) = false := Regex.head?_dropWhile _ words
      cases hrest : rest with
      | nil =>
        change List.takeWhile _ (rest.dropWhile isSpace) ≠ [] at htoken
        simp [hrest] at htoken
      | cons c cs =>
        rw [hrest] at hempty hhead
        have hspace : isSpace c = true := by simpa using hhead c rfl
        simp [hspace] at hempty
    · simpa using congrArg String.toList hempty
    · intro c hc
      rw [String.toList_ofList] at hc
      simpa using List.mem_takeWhile_imp hc
    · intro c hc
      rw [String.toList_ofList] at hc
      simpa using Regex.head?_dropWhile _ _ c hc

theorem forwards_bearer : ForwardsToken readBearer (some ("bearer" ++ " " ++ "t")) (some "lang=%") :=
  (forwards_token_iff readBearer_reads _ _).mpr
  (.inl ⟨"bearer", "t", by simp [BearerScheme], ⟨by decide, by simp [isSpace]⟩, rfl⟩)

theorem forwards_other : ¬∀ (fromAuthHeaderAsBearerToken : Option String → Option String)
    (authorization cookie : Option String), ReadsBearer fromAuthHeaderAsBearerToken →
    ForwardsToken fromAuthHeaderAsBearerToken authorization cookie := by
  intro hall
  have hforwards := hall readBearer (some "Basic x") (some "dv_access_token=t") readBearer_reads
  obtain ⟨scheme, -, hsame⟩ := hforwards.same "t" rfl
  have heq : "Basic x" = scheme ++ " " ++ "t" := Option.some.inj (Except.ok.inj hsame)
  have hlast := congrArg (fun header : String => header.toList.getLast?) heq
  simp at hlast

end DocVault
