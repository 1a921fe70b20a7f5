import DocVault.WebAuth

/-!
# Where a session comes from

In every order of sign-ins, callbacks, sign-outs, page loads and calls each
token in the browser, and each token that a call was made with, was got for a
code by a callback that carried a state drawn for this browser. The user of a
session is the one of its token: the cookie with a user in it is never one that
the route reading it understands.
-/

namespace DocVault

open Interleave

namespace WebAuth

/-! ## The cookie of the user -/

-- A letter that starts no value of JSON.
theorem parseValue_e (fuel : Nat) (rest : List Char) : Json.parseValue fuel ('e' :: rest) = none := by
  cases fuel with
  | zero => rfl
  | succ fuel =>
    have hspace : Json.skipSpace ('e' :: rest) = 'e' :: rest := Json.skipSpace_cons (by decide)
    have hnumber : Json.parseNumber ('e' :: rest) = none := by
      rw [Json.parseNumber_cons (by decide)]
      rfl
    rw [Json.parseValue, hspace]
    simp [hnumber]

theorem parse_e {text : String} {rest : List Char} (h : text.toList = 'e' :: rest) : Json.parse text = none := by
  rw [Json.parse, h, parseValue_e]
  rfl

theorem base64Digits_brace (bytes : List UInt8) : ∃ rest, Encoding.base64Digits (0x7b :: bytes) = 30 :: rest := by
  match bytes with
  | [] => exact ⟨_, rfl⟩
  | [_] => exact ⟨_, rfl⟩
  | _ :: _ :: _ => exact ⟨_, rfl⟩

theorem bufferToBase64_object {text : String} {rest : List Char} (h : text.toList = '\x7b' :: rest) :
    ∃ digits, (bufferToBase64 text).toList = 'e' :: digits := by
  obtain ⟨digits, hdigits⟩ := base64Digits_brace (Encoding.utf8Encode rest)
  have hbytes : Encoding.utf8Encode ('\x7b' :: rest) = 0x7b :: Encoding.utf8Encode rest := by
    rw [Encoding.utf8Encode, List.flatMap_cons]
    rfl
  have hdigit : Encoding.digit 30 = 'e' := by decide
  rw [bufferToBase64, h, hbytes, Encoding.base64url, hdigits, List.map_cons, hdigit,
    List.map_cons, if_neg (by decide), if_neg (by decide)]
  exact ⟨_, String.toList_ofList⟩

theorem userCookie_unread (payload : JwtPayload) :
    Json.parse (bufferToBase64 (userOfPayload payload).stringify) = none := by
  obtain ⟨rest, hrest⟩ : ∃ rest, (userOfPayload payload).stringify.toList = '\x7b' :: rest :=
    ⟨_, by simp [userOfPayload, fields, Json.stringify]; rfl⟩
  obtain ⟨digits, hdigits⟩ := bufferToBase64_object hrest
  exact parse_e hdigits

/-! ## The invariant -/

def Task.callback : Task → Option CallbackQuery
  | .webCallback query => some query
  | .gatewayCallback query => some query
  | _ => none

section
variable {ι : Type}

/-- The token was got for a code. -/
def Held (s : Browser ι) (token : String) : Prop := ∃ e ∈ s.exchanged, e.tokens.access_token = token

structure UserOf (s : Browser ι) (session : Session) : Prop where
  held : Held s session.accessToken
  user : userFromToken session.accessToken = some session.user ∨
    ∃ data, (session.accessToken, data) ∈ s.told ∧ currentUser data = some session.user

/-- Process `p` is a callback with this code and a state that was drawn. -/
def Checked (tasks : ι → Task) (s : Browser ι) (p : ι) (code : String) : Prop :=
  ∃ query state, (tasks p).callback = some query ∧ truthy query.error = none ∧ truthy query.code = some code ∧
    query.state = some state ∧ state ≠ "" ∧ state ∈ s.drawn

/-- What an answer may set. -/
def Allowed (s : Browser ι) : SetCookie → Prop
  | .delete _ => True
  | .set .kc_state cookie => cookie.value ∈ s.drawn
  | .set .dv_access_token cookie => Held s cookie.value
  | .set .dv_refresh_token cookie => ∃ e ∈ s.exchanged, e.tokens.refresh_token = some cookie.value
  | .set .dv_id_token _ => False
  | .set .dv_user cookie => Json.parse cookie.value = none

structure Sound (tasks : ι → Task) (s : Browser ι) : Prop where
  jar : ∀ name cookie, s.jar name = some cookie → Allowed s (.set name cookie)
  session : ∀ session, s.session = some session → UserOf s session
  exchanged : ∀ e ∈ s.exchanged, Checked tasks s e.process e.code
  sent : ∀ token ∈ s.sent, Held s token

/-! ## What others may do -/

structure Grows (s s' : Browser ι) : Prop where
  drawn : s.drawn ⊆ s'.drawn
  exchanged : s.exchanged ⊆ s'.exchanged
  told : s.told ⊆ s'.told

variable {tasks : ι → Task} {s s' : Browser ι} {p : ι}

theorem Grows.refl (s : Browser ι) : Grows s s := ⟨List.Subset.refl _, List.Subset.refl _, List.Subset.refl _⟩

theorem Grows.trans {s'' : Browser ι} (h : Grows s s') (h' : Grows s' s'') : Grows s s'' :=
  ⟨List.Subset.trans h.drawn h'.drawn, List.Subset.trans h.exchanged h'.exchanged, List.Subset.trans h.told h'.told⟩

theorem Grows.of_eq (hd : s'.drawn = s.drawn) (he : s'.exchanged = s.exchanged)
    (ht : s'.told = s.told) : Grows s s' :=
  ⟨hd ▸ List.Subset.refl _, he ▸ List.Subset.refl _, ht ▸ List.Subset.refl _⟩

theorem Held.mono {token : String} (h : Grows s s') (hh : Held s token) : Held s' token :=
  hh.imp fun _ he => ⟨h.exchanged he.1, he.2⟩

theorem UserOf.mono {session : Session} (h : Grows s s') (hu : UserOf s session) : UserOf s' session :=
  ⟨hu.held.mono h, hu.user.imp_right fun ⟨data, hm, hd⟩ => ⟨data, h.told hm, hd⟩⟩

theorem Checked.mono {code : String} (h : Grows s s') (hc : Checked tasks s p code) : Checked tasks s' p code := by
  obtain ⟨query, state, hq, he, hcode, hs, hne, hm⟩ := hc
  exact ⟨query, state, hq, he, hcode, hs, hne, h.drawn hm⟩

theorem Allowed.mono {header : SetCookie} (h : Grows s s') (ha : Allowed s header) : Allowed s' header := by
  cases header with
  | delete _ => trivial
  | set name cookie =>
    cases name with
    | kc_state => exact h.drawn ha
    | dv_access_token => exact Held.mono h ha
    | dv_refresh_token => exact ha.imp fun _ he => ⟨h.exchanged he.1, he.2⟩
    | dv_id_token => exact ha
    | dv_user => exact ha

theorem exec_grows {o : AuthOp} {r : o.Res} (hx : exec p s o r s') : Grows s s' := by
  cases o with
  | random => subst hx; exact ⟨List.subset_append_left _ _, List.Subset.refl _, List.Subset.refl _⟩
  | cookies => rw [hx.2]; exact .refl s
  | exchange code redirectUri =>
    cases r with
    | none => rw [show s' = s from hx]; exact .refl s
    | some tokens =>
      obtain rfl : s' = { s with exchanged := s.exchanged ++ [⟨p, code, tokens⟩] } := hx
      exact ⟨List.Subset.refl _, List.subset_append_left _ _, List.Subset.refl _⟩
  | loadSession => rw [hx.2]; exact .refl s
  | askMe token =>
    cases r with
    | none =>
      obtain rfl : s' = { s with sent := s.sent ++ [token] } := hx
      exact .of_eq rfl rfl rfl
    | some data =>
      obtain rfl : s' = { s with sent := s.sent ++ [token], told := s.told ++ [(token, data)] } := hx
      exact ⟨List.Subset.refl _, List.Subset.refl _, List.subset_append_left _ _⟩
  | respond _ | deleteCookie _ | arrives | saveSession _ | clearSession | send _ =>
    simp only [exec] at hx
    subst hx
    exact .of_eq rfl rfl rfl

/-- A step that leaves the cookies and the session as they were, or fewer of them. -/
theorem Sound.step (hs : Sound tasks s) (h : Grows s s')
    (hjar : ∀ name cookie, s'.jar name = some cookie → s.jar name = some cookie)
    (hsession : ∀ session, s'.session = some session → s.session = some session)
    (hexchanged : ∀ e ∈ s'.exchanged, e ∈ s.exchanged ∨ Checked tasks s' e.process e.code)
    (hsent : ∀ token ∈ s'.sent, token ∈ s.sent ∨ Held s' token) : Sound tasks s' where
  jar name cookie hc := (hs.jar name cookie (hjar name cookie hc)).mono h
  session session hc := (hs.session session (hsession session hc)).mono h
  exchanged e he := (hexchanged e he).elim (fun he => (hs.exchanged e he).mono h) id
  sent token ht := (hsent token ht).elim (fun ht => (hs.sent token ht).mono h) id

theorem SetCookie.apply_some {header : SetCookie} {jar : Jar} {name : CookieName} {cookie : Cookie}
    (h : header.apply jar name = some cookie) : header = .set name cookie ∨ jar name = some cookie := by
  cases header with
  | set name' cookie' =>
    rw [SetCookie.apply, Function.update_apply] at h
    split at h
    · rename_i hn
      exact .inl (by rw [hn, Option.some.inj h])
    · exact .inr h
  | delete name' =>
    rw [SetCookie.apply, Function.update_apply] at h
    split at h
    · cases h
    · exact .inr h

theorem Sound.apply (hs : Sound tasks s) {header : SetCookie} (ha : Allowed s header) :
    Sound tasks { s with jar := header.apply s.jar } := by
  have hgrows : Grows s { s with jar := header.apply s.jar } := .of_eq rfl rfl rfl
  refine ⟨fun name cookie hc => ?_, fun session hc => (hs.session session hc).mono hgrows,
    fun e he => (hs.exchanged e he).mono hgrows, fun token ht => (hs.sent token ht).mono hgrows⟩
  rcases SetCookie.apply_some hc with rfl | hjar
  · exact ha.mono hgrows
  · exact (hs.jar name cookie hjar).mono hgrows

theorem Sound.respond (hs : Sound tasks s) (headers : List SetCookie) (ha : ∀ header ∈ headers, Allowed s header) :
    Sound tasks { s with jar := headers.foldl (fun jar header => header.apply jar) s.jar } := by
  induction headers generalizing s with
  | nil => exact hs
  | cons header headers ih =>
    refine ih (hs.apply (ha header List.mem_cons_self)) fun header' hm => ?_
    exact (ha header' (List.mem_cons_of_mem _ hm)).mono (.of_eq rfl rfl rfl)

/-! ## One operation of a program -/

def authSpec (tasks : ι → Task) : Spec ι (Browser ι) AuthOp AuthOp.Res where
  exec := exec
  pre _ _ _ := True
  inv := Sound tasks
  rely _ _ := Grows

theorem authSpec_closed (tasks : ι → Task) : (authSpec tasks).Closed where
  refl _ _ := Grows.refl
  trans _ _ _ _ _ := Grows.trans

variable {α : Type} {Q : α → Browser ι → Prop}

abbrev Safe (tasks : ι → Task) (p : ι) (Q : α → Browser ι → Prop) (m : AuthM α) (s : Browser ι) : Prop :=
  Ok (authSpec tasks) p Q (fun _ _ => True) m s

theorem safe_op {o : AuthOp} {k : o.Res → AuthM α}
    (h : ∀ s₁ r s₂, Grows s s₁ → Sound tasks s₁ → exec p s₁ o r s₂ → Sound tasks s₂ ∧ Safe tasks p Q (k r) s₂) :
    Safe tasks p Q (.call o k) s := by
  intro s₁ hr hs
  exact ⟨fun _ => trivial, fun _ => trivial, fun r s₂ _ hx => h s₁ r s₂ hr hs hx⟩

theorem safe_random {k : String → AuthM α} (h : ∀ r s', Grows s s' → r ∈ s'.drawn → Safe tasks p Q (k r) s') :
    Safe tasks p Q (random >>= k) s := by
  refine safe_op fun s₁ r s₂ hg hs hx => ?_
  have hgrows := exec_grows hx
  obtain rfl : s₂ = { s₁ with drawn := s₁.drawn ++ [r] } := hx
  refine ⟨hs.step hgrows (fun _ _ h => h) (fun _ h => h) (fun _ h => .inl h) fun _ h => .inl h, ?_⟩
  exact h r _ (hg.trans hgrows) (List.mem_append_right _ (List.mem_singleton.mpr rfl))

theorem safe_cookies {k : Jar → AuthM α} (h : ∀ s', Grows s s' → Sound tasks s' → Safe tasks p Q (k s'.jar) s') :
    Safe tasks p Q (cookies >>= k) s := by
  refine safe_op fun s₁ r s₂ hg hs hx => ?_
  obtain ⟨rfl, rfl⟩ := hx
  exact ⟨hs, h s₂ hg hs⟩

theorem safe_exchange {code redirectUri : String} {k : Option Tokens → AuthM α} (hc : Checked tasks s p code)
    (hnone : ∀ s', Grows s s' → Safe tasks p Q (k none) s')
    (hsome : ∀ tokens s', Grows s s' → ⟨p, code, tokens⟩ ∈ s'.exchanged → Safe tasks p Q (k (some tokens)) s') :
    Safe tasks p Q (exchange code redirectUri >>= k) s := by
  refine safe_op fun s₁ r s₂ hg hs hx => ?_
  have hgrows := exec_grows hx
  cases r with
  | none =>
    obtain rfl : s₂ = s₁ := hx
    exact ⟨hs, hnone s₂ hg⟩
  | some tokens =>
    obtain rfl : s₂ = { s₁ with exchanged := s₁.exchanged ++ [⟨p, code, tokens⟩] } := hx
    refine ⟨hs.step hgrows (fun _ _ h => h) (fun _ h => h) (fun e he => ?_) fun _ h => .inl h, ?_⟩
    · rcases List.mem_append.mp he with he | he
      · exact .inl he
      · obtain rfl := List.mem_singleton.mp he
        exact .inr (hc.mono (hg.trans hgrows))
    · exact hsome tokens _ (hg.trans hgrows) (List.mem_append_right _ (List.mem_singleton.mpr rfl))

theorem safe_respond {headers : List SetCookie} {k : Unit → AuthM α} (ha : ∀ header ∈ headers, Allowed s header)
    (h : ∀ s', Grows s s' → Safe tasks p Q (k ()) s') : Safe tasks p Q (respond headers >>= k) s := by
  refine safe_op fun s₁ r s₂ hg hs hx => ?_
  have hgrows := exec_grows hx
  simp only [exec] at hx
  subst hx
  exact ⟨hs.respond headers fun header hm => (ha header hm).mono hg, h _ (hg.trans hgrows)⟩

theorem safe_deleteCookie {name : CookieName} {k : Unit → AuthM α}
    (h : ∀ s', Grows s s' → Safe tasks p Q (k ()) s') : Safe tasks p Q (deleteCookie name >>= k) s := by
  refine safe_op fun s₁ r s₂ hg hs hx => ?_
  have hgrows := exec_grows hx
  simp only [exec] at hx
  subst hx
  refine ⟨hs.step hgrows (fun name' cookie hc => ?_) (fun _ h => h) (fun _ h => .inl h) fun _ h => .inl h,
    h _ (hg.trans hgrows)⟩
  simp only [scriptDelete] at hc
  split at hc
  · exact hc
  · by_cases hn : name' = name
    · subst hn
      rw [Function.update_self] at hc
      cases hc
    · rwa [Function.update_of_ne hn] at hc

theorem safe_arrives {k : Bool → AuthM α} (h : ∀ r s', Grows s s' → Safe tasks p Q (k r) s') :
    Safe tasks p Q (arrives >>= k) s := by
  refine safe_op fun s₁ r s₂ hg hs hx => ?_
  obtain rfl : s₂ = s₁ := hx
  exact ⟨hs, h r s₂ hg⟩

theorem safe_loadSession {k : Option Session → AuthM α}
    (h : ∀ r s', Grows s s' → Sound tasks s' → (∀ session, r = some session → UserOf s' session) →
      Safe tasks p Q (k r) s') : Safe tasks p Q (loadSession >>= k) s := by
  refine safe_op fun s₁ r s₂ hg hs hx => ?_
  obtain ⟨rfl, rfl⟩ := hx
  exact ⟨hs, h _ s₂ hg hs hs.session⟩

theorem safe_saveSession {session : Session} {k : Unit → AuthM α} (hu : UserOf s session)
    (h : ∀ s', Grows s s' → Safe tasks p Q (k ()) s') : Safe tasks p Q (saveSession session >>= k) s := by
  refine safe_op fun s₁ r s₂ hg hs hx => ?_
  have hgrows := exec_grows hx
  obtain rfl : s₂ = { s₁ with session := some session } := hx
  refine ⟨⟨fun name cookie hc => (hs.jar name cookie hc).mono hgrows, fun session' hc => ?_,
    fun e he => (hs.exchanged e he).mono hgrows, fun token ht => (hs.sent token ht).mono hgrows⟩,
      h _ (hg.trans hgrows)⟩
  exact Option.some.inj hc ▸ hu.mono (hg.trans hgrows)

theorem safe_clearSession {k : Unit → AuthM α} (h : ∀ s', Grows s s' → Safe tasks p Q (k ()) s') :
    Safe tasks p Q (clearSession >>= k) s := by
  refine safe_op fun s₁ r s₂ hg hs hx => ?_
  have hgrows := exec_grows hx
  obtain rfl : s₂ = { s₁ with session := none } := hx
  exact ⟨hs.step hgrows (fun _ _ h => h) (fun _ h => nomatch h) (fun _ h => .inl h) fun _ h => .inl h,
    h _ (hg.trans hgrows)⟩

theorem safe_send {authorization : Option String} {k : Nat → AuthM α}
    (ha : ∀ token, authorization = some token → Held s token)
    (h : ∀ r s', Grows s s' → Sound tasks s' → Safe tasks p Q (k r) s') :
    Safe tasks p Q (send authorization >>= k) s := by
  refine safe_op fun s₁ r s₂ hg hs hx => ?_
  have hgrows := exec_grows hx
  obtain rfl : s₂ = { s₁ with sent := s₁.sent ++ (extractToken authorization s₁.jar).toList } := hx
  have hs' : Sound tasks { s₁ with sent := s₁.sent ++ (extractToken authorization s₁.jar).toList } := by
    refine hs.step hgrows (fun _ _ h => h) (fun _ h => h) (fun _ h => .inl h) fun token ht => ?_
    rcases List.mem_append.mp ht with ht | ht
    · exact .inl ht
    refine .inr (Held.mono hgrows ?_)
    have htoken : extractToken authorization s₁.jar = some token := Option.mem_toList.mp ht
    cases authorization with
    | some token' => exact Held.mono hg (ha token (by simpa [extractToken] using htoken))
    | none =>
      obtain ⟨cookie, hc, rfl⟩ : ∃ cookie, s₁.jar .dv_access_token = some cookie ∧ cookie.value = token := by
        simpa [extractToken] using htoken
      exact hs.jar _ cookie hc
  exact ⟨hs', h r _ (hg.trans hgrows) hs'⟩

theorem safe_askMe {token : String} {k : Option Json → AuthM α} (ht : Held s token)
    (h : ∀ r s', Grows s s' → (∀ data, r = some data → (token, data) ∈ s'.told) → Safe tasks p Q (k r) s') :
    Safe tasks p Q (askMe token >>= k) s := by
  refine safe_op fun s₁ r s₂ hg hs hx => ?_
  have hgrows := exec_grows hx
  have hsent : ∀ token' ∈ s₁.sent ++ [token], token' ∈ s₁.sent ∨ Held s₂ token' := by
    intro token' hm
    refine (List.mem_append.mp hm).imp_right fun hm => ?_
    rw [List.mem_singleton.mp hm]
    exact ht.mono (hg.trans hgrows)
  cases r with
  | none =>
    obtain rfl : s₂ = { s₁ with sent := s₁.sent ++ [token] } := hx
    exact ⟨hs.step hgrows (fun _ _ h => h) (fun _ h => h) (fun _ h => .inl h) hsent, h _ _ (hg.trans hgrows) nofun⟩
  | some data =>
    obtain rfl : s₂ = { s₁ with sent := s₁.sent ++ [token], told := s₁.told ++ [(token, data)] } := hx
    refine ⟨hs.step hgrows (fun _ _ h => h) (fun _ h => h) (fun _ h => .inl h) hsent, h _ _ (hg.trans hgrows) ?_⟩
    exact fun data' hd => Option.some.inj hd ▸ List.mem_append_right _ (List.mem_singleton.mpr rfl)

/-! ## The programs -/

abbrev Ends (tasks : ι → Task) (p : ι) (m : AuthM Outcome) (s : Browser ι) : Prop :=
  Safe tasks p (fun _ _ => True) m s

variable {env : WebEnv}

theorem allowed_state {state : String} (h : state ∈ s.drawn) :
    ∀ header ∈ [SetCookie.set .kc_state ⟨state, true⟩], Allowed s header := by
  intro header hm
  obtain rfl := List.mem_singleton.mp hm
  exact h

theorem allowed_deletes {headers : List SetCookie} (h : ∀ header ∈ headers, ∃ name, header = .delete name) :
    ∀ header ∈ headers, Allowed s header := by
  intro header hm
  obtain ⟨name, rfl⟩ := h header hm
  trivial

theorem allowed_tokens {code : String} {tokens : Tokens} (he : ⟨p, code, tokens⟩ ∈ s.exchanged) :
    ∀ header ∈ SetCookie.delete .kc_state :: tokenCookies tokens, Allowed s header := by
  intro header hm
  rcases List.mem_cons.mp hm with rfl | hm
  · trivial
  rcases List.mem_cons.mp hm with rfl | hm
  · exact ⟨_, he, rfl⟩
  obtain ⟨token, ht, rfl⟩ := Option.map_eq_some_iff.mp (Option.mem_toList.mp hm)
  exact ⟨_, he, (Option.filter_eq_some_iff.mp ht).1⟩

theorem webLogin_safe (reauth : Bool) : Ends tasks p (webLogin env reauth) s :=
  safe_random fun _ _ _ hdrawn => safe_random fun _ _ hg _ =>
    safe_respond (allowed_state (hg.drawn hdrawn)) fun _ _ => trivial

theorem gatewayLogin_safe : Ends tasks p (gatewayLogin env) s :=
  safe_random fun _ _ _ hdrawn => safe_respond (allowed_state hdrawn) fun _ _ => trivial

-- The state in the cookie, which is a drawn one, is the one that the callback carries.
theorem checked_state {query : CallbackQuery} (hs : Sound tasks s) (hp : (tasks p).callback = some query)
    (herror : truthy query.error = none)
    (hstate : ¬((s.jar.value .kc_state).isNone || (s.jar .kc_state).map (·.value) ≠ query.state) = true)
    {code : String} (hcode : truthy query.code = some code) : Checked tasks s p code := by
  simp only [Bool.or_eq_true, decide_eq_true_eq, not_or, not_not, Option.isNone_iff_eq_none] at hstate
  obtain ⟨hvalue, hsame⟩ := hstate
  obtain ⟨state, hvalue⟩ := Option.ne_none_iff_exists'.mp hvalue
  obtain ⟨hmap, hne⟩ := Option.filter_eq_some_iff.mp hvalue
  obtain ⟨cookie, hc, rfl⟩ := Option.map_eq_some_iff.mp hmap
  exact ⟨query, cookie.value, hp, herror, hcode, hsame.symm.trans hmap, by simpa using hne, hs.jar _ cookie hc⟩

theorem webCallback_safe {query : CallbackQuery} (hp : (tasks p).callback = some query) :
    Ends tasks p (webCallback env query) s := by
  refine safe_cookies fun s₁ _ hs => ?_
  split
  · trivial
  rename_i herror
  split
  · trivial
  rename_i hstate
  split
  · trivial
  rename_i code hcode
  refine safe_exchange (checked_state hs hp herror hstate hcode) (fun _ _ => trivial) fun tokens s₂ _ he => ?_
  exact safe_respond (allowed_tokens he) fun _ _ => trivial

theorem gatewayCallback_safe {query : CallbackQuery} (hp : (tasks p).callback = some query) :
    Ends tasks p (gatewayCallback env query) s := by
  have hdelete : ∀ s : Browser ι, ∀ header ∈ [SetCookie.delete .kc_state], Allowed s header := fun s =>
    allowed_deletes fun header hm => ⟨_, List.mem_singleton.mp hm⟩
  refine safe_cookies fun s₁ _ hs => ?_
  split
  · trivial
  rename_i herror
  split
  · trivial
  rename_i hstate
  split
  · exact safe_respond (hdelete _) fun _ _ => trivial
  rename_i code hcode
  refine safe_exchange (checked_state hs hp herror hstate hcode)
    (fun _ _ => safe_respond (hdelete _) fun _ _ => trivial) fun tokens s₂ _ he => ?_
  dsimp only
  split
  · exact safe_respond (hdelete _) fun _ _ => trivial
  rename_i payload _
  refine safe_respond (fun header hm => ?_) fun _ _ => trivial
  rcases List.mem_append.mp hm with hm | hm
  · exact allowed_tokens he header hm
  · obtain rfl := List.mem_singleton.mp hm
    exact userCookie_unread payload

theorem webLogout_safe : Ends tasks p (webLogout env) s :=
  safe_cookies fun _ _ _ => safe_respond (allowed_deletes (by simp)) fun _ _ => trivial

theorem gatewayLogout_safe : Ends tasks p (gatewayLogout env) s :=
  safe_respond (allowed_deletes (by simp)) fun _ _ => trivial

theorem meAnswer_user (hs : Sound tasks s) {session : Session} (h : meAnswer s.jar = some session) :
    UserOf s session := by
  unfold meAnswer at h
  split at h
  · cases h
  rename_i accessToken htoken
  have hheld : Held s accessToken := by
    obtain ⟨cookie, hc, rfl⟩ := Option.map_eq_some_iff.mp (Option.filter_eq_some_iff.mp htoken).1
    exact hs.jar _ cookie hc
  split at h
  · rename_i user huser
    obtain ⟨text, htext, hparse⟩ := Option.bind_eq_some_iff.mp huser
    obtain ⟨cookie, hc, rfl⟩ := Option.map_eq_some_iff.mp (Option.filter_eq_some_iff.mp htext).1
    exact nomatch (hs.jar _ cookie hc : Json.parse cookie.value = none).symm.trans hparse
  · obtain ⟨user, huser, rfl⟩ := Option.map_eq_some_iff.mp h
    exact ⟨hheld, .inl huser⟩

theorem fetchMe_safe : Safe tasks p (fun r s => ∀ session, r = some session → UserOf s session) fetchMe s := by
  refine safe_cookies fun s₁ _ hs => safe_arrives fun r s₂ hg => ?_
  intro session hsession
  split at hsession
  · exact (meAnswer_user hs hsession).mono hg
  · cases hsession

theorem hydrateSession_safe : Ends tasks p hydrateSession s := by
  refine safe_loadSession fun r s₁ _ hs _ => ?_
  split
  · trivial
  refine Ok_bind (fun r s₂ _ hr => ?_) fetchMe s₁ hs fetchMe_safe
  split
  · exact safe_saveSession (hr _ rfl) fun _ _ => trivial
  · exact safe_clearSession fun _ _ => trivial

theorem loginPage_safe (query : LoginQuery) (hs : Sound tasks s) : Ends tasks p (loginPage query) s := by
  unfold loginPage
  split
  · exact safe_clearSession fun _ _ => safe_deleteCookie fun _ _ => safe_deleteCookie fun _ _ => trivial
  split
  · trivial
  split
  · refine Ok_bind (fun r s₁ _ hr => ?_) fetchMe s hs fetchMe_safe
    split
    · exact safe_saveSession (hr _ rfl) fun _ _ => safe_deleteCookie fun _ _ => trivial
    · trivial
  · trivial

theorem refreshSession_safe :
    Safe tasks p (fun r s => ∀ session, r = some session → UserOf s session) refreshSessionIfNeeded s := by
  refine safe_loadSession fun r s₁ _ _ hu => ?_
  split
  · exact nofun
  rename_i session
  split
  · exact nofun
  refine safe_askMe (hu session rfl).held fun r s₂ hg ht => ?_
  intro session' hsession
  obtain ⟨user, huser, rfl⟩ := Option.map_eq_some_iff.mp hsession
  obtain ⟨data, rfl, hdata⟩ := Option.bind_eq_some_iff.mp huser
  exact ⟨(hu session rfl).held.mono hg, .inr ⟨data, ht data rfl, hdata⟩⟩

theorem apiCall_safe (fuel : Nat) {header : Option String} (hh : ∀ token, header = some token → Held s token) :
    Ends tasks p (apiCall fuel header) s := by
  induction fuel generalizing header s with
  | zero => trivial
  | succ fuel ih =>
    refine safe_loadSession fun session s₁ hg hs hu => safe_send (fun token ht => ?_) fun status s₂ hg₂ hs₂ => ?_
    · rcases Option.or_eq_some_iff.mp (Option.orElse_eq_or.symm.trans ht) with ht | ⟨-, ht⟩
      · obtain ⟨session', rfl, rfl⟩ := Option.map_eq_some_iff.mp (Option.filter_eq_some_iff.mp ht).1
        exact (hu session' rfl).held
      · exact (hh token ht).mono hg
    · split
      · refine Ok_bind (fun r s₃ _ hr => ?_) refreshSessionIfNeeded s₂ hs₂ refreshSession_safe
        split
        · rename_i refreshed
          refine safe_saveSession (hr refreshed rfl) fun s₄ hg₄ => ih fun token ht => ?_
          exact Option.some.inj ht ▸ (hr refreshed rfl).held.mono hg₄
        · exact safe_clearSession fun _ _ => trivial
      · trivial

theorem task_safe (hs : Sound tasks s) (p : ι) : Ends tasks p ((tasks p).run env) s := by
  cases htask : tasks p with
  | webLogin reauth => exact webLogin_safe reauth
  | gatewayLogin => exact gatewayLogin_safe
  | webCallback query => exact webCallback_safe (by rw [htask]; rfl)
  | gatewayCallback query => exact gatewayCallback_safe (by rw [htask]; rfl)
  | webLogout => exact webLogout_safe
  | gatewayLogout => exact gatewayLogout_safe
  | hydrateSession => exact hydrateSession_safe
  | loginPage query => exact loginPage_safe query hs
  | signOut => exact safe_clearSession fun _ _ => webLogout_safe
  | apiCall fuel => exact apiCall_safe fuel nofun
  | expire name => exact safe_respond (allowed_deletes (by simp)) fun _ _ => trivial

/-! ## Every order of events -/

theorem fresh_sound : Sound tasks (Browser.fresh : Browser ι) :=
  ⟨nofun, nofun, fun _ h => absurd h List.not_mem_nil, fun _ h => absurd h List.not_mem_nil⟩

theorem reach_sound [DecidableEq ι] {c : Config ι (Browser ι) AuthOp AuthOp.Res Unit Outcome} (hs : Sound tasks s)
    (hr : Reach exec (fun _ _ _ => True) ⟨s, fun p => (tasks p).run env⟩ c) : Sound tasks c.store :=
  (Reach.ok (S := authSpec tasks) (Q := fun _ _ _ => True) (E := fun _ _ _ => True) hr (authSpec_closed tasks) hs
    (task_safe hs) (fun _ _ _ _ => trivial) (fun _ _ _ _ _ _ _ => trivial) (fun _ _ _ _ _ _ _ => trivial)
    fun _ _ _ _ _ _ _ _ _ hx _ _ _ => exec_grows hx).1

theorem session_origin [DecidableEq ι] {c : Config ι (Browser ι) AuthOp AuthOp.Res Unit Outcome}
    (hr : Reach exec (fun _ _ _ => True) ⟨Browser.fresh, fun p => (tasks p).run env⟩ c) : Sound tasks c.store :=
  reach_sound fresh_sound hr

/-! ## After a sign-out -/

/-- The browser with nothing known of the time before. -/
def Browser.forget (s : Browser ι) : Browser ι := { s with drawn := [], exchanged := [], sent := [], told := [] }

theorem signOut_leaves {out : Outcome} (hx : Eval exec p (signOut env) s (.ok out) s') :
    s'.forget = Browser.fresh := by
  obtain ⟨_, s₁, h₁, hx⟩ := eval_op_bind.mp hx
  obtain ⟨jar, s₂, h₂, hx⟩ := eval_op_bind.mp hx
  obtain ⟨_, s₃, h₃, hx⟩ := eval_op_bind.mp hx
  obtain rfl : s₁ = { s with session := none } := h₁
  obtain ⟨rfl, rfl⟩ := h₂
  simp only [exec] at h₃
  subst h₃
  cases hx
  have hjar : ∀ jar : Jar, [SetCookie.delete .dv_access_token, .delete .dv_refresh_token, .delete .dv_id_token,
      .delete .dv_user, .delete .kc_state].foldl (fun jar header => header.apply jar) jar = fun _ => none := by
    intro jar
    funext name
    cases name <;> rfl
  rw [Browser.forget, Browser.fresh, hjar]

/-- A sign-out leaves nothing in the browser: each later token was got for a code after it. -/
theorem signOut_forgets [DecidableEq ι] {out : Outcome} (hx : Eval exec p (signOut env) s (.ok out) s') :
    s'.forget = Browser.fresh ∧ ∀ c : Config ι (Browser ι) AuthOp AuthOp.Res Unit Outcome,
      Reach exec (fun _ _ _ => True) ⟨s'.forget, fun p => (tasks p).run env⟩ c → Sound tasks c.store := by
  have hleft := signOut_leaves hx
  refine ⟨hleft, fun c hr => ?_⟩
  rw [hleft] at hr
  exact reach_sound fresh_sound hr

end

/-! ## A sign-in with a call -/

section
variable {ι : Type}

/-- A gateway and a Keycloak that answer every request alike. -/
def answer (state : String) (tokens : Tokens) (p : ι) (s : Browser ι) : (o : AuthOp) → o.Res × Browser ι
  | .random => (state, { s with drawn := s.drawn ++ [state] })
  | .cookies => (s.jar, s)
  | .exchange code _ => (some tokens, { s with exchanged := s.exchanged ++ [⟨p, code, tokens⟩] })
  | .respond headers => ((), { s with jar := headers.foldl (fun jar header => header.apply jar) s.jar })
  | .deleteCookie name => ((), { s with jar := scriptDelete name s.jar })
  | .arrives => (true, s)
  | .loadSession => (s.session, s)
  | .saveSession session => ((), { s with session := some session })
  | .clearSession => ((), { s with session := none })
  | .send authorization => (200, { s with sent := s.sent ++ (extractToken authorization s.jar).toList })
  | .askMe token => (none, { s with sent := s.sent ++ [token] })

theorem answer_exec (state : String) (tokens : Tokens) (p : ι) (s : Browser ι) (o : AuthOp) :
    exec p s o (answer state tokens p s o).1 (answer state tokens p s o).2 := by
  cases o <;> first | rfl | exact ⟨rfl, rfl⟩

end

def sampleEnv : WebEnv where
  keycloakBrowserBase := "http://localhost:8080"
  keycloakBase := "http://keycloak:8080"
  realm := "docvault"
  clientId := "docvault-gateway"
  webOrigin := "http://localhost:3006"
  gatewayUrl := "http://localhost:3000"
  frontendUrl := "http://localhost:3006"
  jwtDecode _ := none

def sampleTasks : Fin 4 → Task
  | 0 => .webLogin false
  | 1 => .webCallback ⟨some "c-1", some "s-1", none⟩
  | 2 => .loginPage ⟨none, some "ok", none⟩
  | 3 => .apiCall 1

def sampleAnswer : Fin 4 → Browser (Fin 4) → (o : AuthOp) → o.Res × Browser (Fin 4) :=
  answer "s-1" ⟨"a.eyJzdWIiOiJ1LTEifQ.s", none⟩

def sampleStart : Config (Fin 4) (Browser (Fin 4)) AuthOp AuthOp.Res Unit Outcome :=
  ⟨Browser.fresh, fun p => (sampleTasks p).run sampleEnv⟩

theorem session_origin_sample :
    Sound sampleTasks (schedule sampleAnswer sampleStart [0, 0, 0, 1, 1, 1, 2, 2, 2, 2, 3, 3]).store :=
  session_origin (Reach.schedule (answer_exec _ _) _ _ .refl (meets_true _ _))

def signedIn : Browser (Fin 4) := { Browser.fresh with session := some ⟨"a.eyJzdWIiOiJ1LTEifQ.s", .null⟩ }

def signedOut : Browser (Fin 4) := ((signOut sampleEnv).result sampleAnswer (Fin.last 3) signedIn).2

theorem signOut_forgets_sample : signedOut.forget = Browser.fresh ∧ Sound sampleTasks
    (schedule sampleAnswer ⟨signedOut.forget, fun p => (sampleTasks p).run sampleEnv⟩ [0, 0, 0, 1]).store := by
  have hx := eval_result sampleAnswer 3 (answer_exec _ _) (signOut sampleEnv) signedIn
  exact (signOut_forgets hx).imp_right fun hsound =>
    hsound _ (Reach.schedule (answer_exec _ _) _ _ .refl (meets_true _ _))

end WebAuth

end DocVault
