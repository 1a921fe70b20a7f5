import DocVault.FormUrlEncoded
import DocVault.Grants
import DocVault.Interleave
import DocVault.JsonParse

/-!
# Signing in

The routes of the web application and of the gateway that sign a browser in
and out, the pages that take the session over, and the client that calls with
it, as programs over one browser: its cookies, which both share, and its local
storage. Any number of them run at once, in tabs and in redirects that others
may have made up.
-/

namespace DocVault

open Interleave
open FormUrlEncoded (encodeURIComponent)

namespace WebAuth

/-! ## The browser -/

inductive CookieName where
  | kc_state
  | dv_access_token
  | dv_refresh_token
  | dv_id_token
  | dv_user
  deriving DecidableEq

structure Cookie where
  value : String
  httpOnly : Bool
  deriving DecidableEq

abbrev Jar := CookieName → Option Cookie

inductive SetCookie where
  | set (name : CookieName) (cookie : Cookie)
  | delete (name : CookieName)

def SetCookie.apply : SetCookie → Jar → Jar
  | .set name cookie, jar => Function.update jar name (some cookie)
  | .delete name, jar => Function.update jar name none

-- A script neither sees nor drops a cookie of the server's own.
def scriptDelete (name : CookieName) (jar : Jar) : Jar :=
  if (jar name).any (·.httpOnly) then jar else Function.update jar name none

/-- `''` is no value. -/
def truthy (text : Option String) : Option String := text.filter (· ≠ "")

def Jar.value (jar : Jar) (name : CookieName) : Option String := truthy ((jar name).map (·.value))

structure Session where
  accessToken : String
  user : Json

structure Tokens where
  access_token : String
  refresh_token : Option String

/-! ## What a token says -/

/-- A list of texts, `[]` where there is none; nothing where reading it throws. -/
def readStrings (value : Option Json) : Option (List String) :=
  match Json.nullish value with
  | none => some []
  | some (.arr items) => items.mapM fun
    | .str text => some text
    | _ => none
  | some _ => none

def fields (l : List (String × Option Json)) : Json :=
  .obj (l.filterMap fun field => field.2.map fun value => (field.1, value))

def strings (l : List String) : Json := .arr (l.map .str)

-- Node.js reads both alphabets of base64 alike.
def bufferFromBase64 (text : String) : String := bufferFromBase64url text

def decodeJwtPayload (token : String) : Option Json :=
  match truthy (token.splitOn ".")[1]? with
  | none => none
  | some payload =>
    let normalized := payload.toList.map fun c => if c = '-' then '+' else if c = '_' then '/' else c
    let padded := normalized ++ List.replicate ((4 - normalized.length % 4) % 4) '='
    Json.parse (bufferFromBase64 (String.ofList padded))

/-- The user of the web application's `/api/auth/me`. -/
def userFromToken (accessToken : String) : Option Json := do
  let payload ← decodeJwtPayload accessToken
  let sub ← (payload.prop "sub").filter Json.truthy
  let roles ← readStrings ((payload.prop "realm_access").bind fun access => access.prop "roles")
  let groups ← readStrings (payload.prop "groups")
  let roles := roles.eraseDups
  let roles := if roles.contains "co" then (roles ++ ["compliance_officer"]).eraseDups else roles
  some (fields [("sub", sub),
    ("username", ((Json.nullish (payload.prop "preferred_username")).orElse fun _ =>
      Json.nullish (payload.prop "username")).getD (.str "unknown")),
    ("email", payload.prop "email"),
    ("roles", strings roles),
    ("groups", strings (normalizeGroups groups))])

/-- The user that the client makes of the gateway's answer at `/me`. -/
def currentUser (data : Json) : Option Json :=
  match data with
  | .null => none
  | data => (readStrings (data.prop "groups")).map fun groups =>
    let username := (Json.nullish (data.prop "username")).getD (.str "unknown")
    fields [("sub", (Json.nullish (data.prop "sub")).getD (.str "")), ("username", username),
      ("preferred_username", username),
      ("email", data.prop "email"), ("firstName", data.prop "firstName"), ("lastName", data.prop "lastName"),
      ("displayName", data.prop "displayName"), ("roles", (Json.nullish (data.prop "roles")).getD (.arr [])),
      ("groups", strings (normalizeGroups groups))]

/-- The claims that the gateway's callback reads. -/
structure JwtPayload where
  sub : Option String := none
  preferred_username : Option String := none
  username : Option String := none
  name : Option String := none
  email : Option String := none
  given_name : Option String := none
  family_name : Option String := none
  roles : Option (List String) := none
  groups : Option (List String) := none

def displayName (payload : JwtPayload) : Option String :=
  payload.name.orElse fun _ =>
    truthy (some (" ".intercalate ([payload.given_name, payload.family_name].filterMap truthy)))

def userOfPayload (payload : JwtPayload) : Json :=
  fields [("sub", payload.sub.map .str),
    ("username", (payload.preferred_username.orElse fun _ => payload.username).map .str),
    ("email", payload.email.map .str), ("firstName", payload.given_name.map .str),
    ("lastName", payload.family_name.map .str), ("displayName", (displayName payload).map .str),
    ("roles", strings (payload.roles.getD [])), ("groups", strings (normalizeGroups (payload.groups.getD [])))]

/-- `Buffer.from(text).toString('base64')`. -/
def bufferToBase64 (text : String) : String :=
  let digits := (Encoding.base64url (Encoding.utf8Encode text.toList)).map fun c =>
    if c = '-' then '+' else if c = '_' then '/' else c
  String.ofList (digits ++ List.replicate ((4 - digits.length % 4) % 4) '=')

/-! ## What the programs do -/

inductive AuthOp where
  | random
  | cookies
  | exchange (code redirectUri : String)
  | respond (headers : List SetCookie)
  | deleteCookie (name : CookieName)
  | arrives
  | loadSession
  | saveSession (session : Session)
  | clearSession
  | send (authorization : Option String)
  | askMe (token : String)

abbrev AuthOp.Res : AuthOp → Type
  | random => String
  | cookies => Jar
  | exchange _ _ => Option Tokens
  | respond _ => Unit
  | deleteCookie _ => Unit
  | arrives => Bool
  | loadSession => Option Session
  | saveSession _ => Unit
  | clearSession => Unit
  | send _ => Nat
  | askMe _ => Option Json

structure Exchange (ι : Type) where
  process : ι
  code : String
  tokens : Tokens

/-- The browser, with what was drawn for it, what was got for codes, the tokens
that calls were made with and what `/me` told of a token. -/
structure Browser (ι : Type) where
  jar : Jar
  session : Option Session
  drawn : List String
  exchanged : List (Exchange ι)
  sent : List String
  told : List (String × Json)

def Browser.fresh {ι : Type} : Browser ι := ⟨fun _ => none, none, [], [], [], []⟩

/-- The token the gateway takes from a call: that of the header, else the cookie's. -/
def extractToken (authorization : Option String) (jar : Jar) : Option String :=
  authorization.orElse fun _ => (jar .dv_access_token).map (·.value)

/-- Keycloak may answer a code with any tokens or refuse it, and the gateway any call. -/
def exec {ι : Type} (p : ι) (s : Browser ι) : (o : AuthOp) → o.Res → Browser ι → Prop
  | .random, r, s' => s' = { s with drawn := s.drawn ++ [r] }
  | .cookies, r, s' => r = s.jar ∧ s' = s
  | .exchange code _, r, s' => match r with
    | some tokens => s' = { s with exchanged := s.exchanged ++ [⟨p, code, tokens⟩] }
    | none => s' = s
  | .respond headers, _, s' => s' = { s with jar := headers.foldl (fun jar header => header.apply jar) s.jar }
  | .deleteCookie name, _, s' => s' = { s with jar := scriptDelete name s.jar }
  | .arrives, _, s' => s' = s
  | .loadSession, r, s' => r = s.session ∧ s' = s
  | .saveSession session, _, s' => s' = { s with session := some session }
  | .clearSession, _, s' => s' = { s with session := none }
  | .send authorization, _, s' => s' = { s with sent := s.sent ++ (extractToken authorization s.jar).toList }
  | .askMe token, r, s' => match r with
    | some data => s' = { s with sent := s.sent ++ [token], told := s.told ++ [(token, data)] }
    | none => s' = { s with sent := s.sent ++ [token] }

/-! ## The routes -/

structure WebEnv where
  keycloakBrowserBase : String
  keycloakBase : String
  realm : String
  clientId : String
  webOrigin : String
  gatewayUrl : String
  frontendUrl : String
  jwtDecode : String → Option JwtPayload

inductive Outcome where
  | redirect (location : String)
  | done
  | answered (status : Nat)
  /-- The client sends the page to `/login`. -/
  | unauthorized

abbrev AuthM := Prog AuthOp AuthOp.Res Unit

abbrev random : AuthM String := Prog.op AuthOp.random

abbrev cookies : AuthM Jar := Prog.op AuthOp.cookies

abbrev exchange (code redirectUri : String) : AuthM (Option Tokens) := Prog.op (AuthOp.exchange code redirectUri)

abbrev respond (headers : List SetCookie) : AuthM Unit := Prog.op (AuthOp.respond headers)

abbrev deleteCookie (name : CookieName) : AuthM Unit := Prog.op (AuthOp.deleteCookie name)

abbrev arrives : AuthM Bool := Prog.op AuthOp.arrives

abbrev loadSession : AuthM (Option Session) := Prog.op AuthOp.loadSession

abbrev saveSession (session : Session) : AuthM Unit := Prog.op (AuthOp.saveSession session)

abbrev clearSession : AuthM Unit := Prog.op AuthOp.clearSession

abbrev send (authorization : Option String) : AuthM Nat := Prog.op (AuthOp.send authorization)

abbrev askMe (token : String) : AuthM (Option Json) := Prog.op (AuthOp.askMe token)

structure CallbackQuery where
  code : Option String
  state : Option String
  error : Option String

section
variable (env : WebEnv)

def realmUrl (base : String) : String := s!"{base}/realms/{env.realm}/protocol/openid-connect"

def callbackUrl (origin : String) : String := s!"{origin}/api/auth/callback"

def buildKeycloakAuthUrl (state nonce : String) (reauth : Bool) : String :=
  realmUrl env env.keycloakBrowserBase ++ "/auth?" ++ FormUrlEncoded.serialize ([("client_id", env.clientId),
    ("redirect_uri", callbackUrl env.webOrigin), ("response_type", "code"), ("scope", "openid profile email"),
    ("state", state), ("nonce", nonce)] ++ if reauth then [("prompt", "login"), ("max_age", "0")] else [])

def webLogin (reauth : Bool) : AuthM Outcome := do
  let state ← random
  let nonce ← random
  respond [.set .kc_state ⟨state, true⟩]
  pure (.redirect (buildKeycloakAuthUrl env state nonce reauth))

def gatewayLogin : AuthM Outcome := do
  let state ← random
  respond [.set .kc_state ⟨state, true⟩]
  pure (.redirect (realmUrl env env.keycloakBase ++ "/auth?" ++ FormUrlEncoded.serialize
    [("client_id", env.clientId),
    ("redirect_uri", callbackUrl env.gatewayUrl), ("response_type", "code"), ("scope", "openid profile email"),
    ("state", state)]))

def loginError (origin error : String) : Outcome := .redirect s!"{origin}/login?error={error}"

def tokenCookies (tokens : Tokens) : List SetCookie :=
  .set .dv_access_token ⟨tokens.access_token, true⟩ ::
    ((truthy tokens.refresh_token).map fun token => SetCookie.set .dv_refresh_token ⟨token, true⟩).toList

def webCallback (query : CallbackQuery) : AuthM Outcome := do
  let jar ← cookies
  match truthy query.error with
  | some error => pure (loginError env.webOrigin (encodeURIComponent error))
  | none =>
    if (jar.value .kc_state).isNone || (jar .kc_state).map (·.value) ≠ query.state then
      pure (loginError env.webOrigin "invalid_state")
    else
      match truthy query.code with
      | none => pure (loginError env.webOrigin "no_code")
      | some code =>
        match ← exchange code (callbackUrl env.webOrigin) with
        | none => pure (loginError env.webOrigin "token_exchange_failed")
        | some tokens =>
          respond (.delete .kc_state :: tokenCookies tokens)
          pure (.redirect s!"{env.webOrigin}/login?auth=ok")

def userCookie (payload : JwtPayload) : SetCookie :=
  .set .dv_user ⟨bufferToBase64 (userOfPayload payload).stringify, false⟩

/-- The state goes with the first answer after it was right, whatever comes of the code. -/
def gatewayCallback (query : CallbackQuery) : AuthM Outcome := do
  let jar ← cookies
  match truthy query.error with
  | some error => pure (loginError env.frontendUrl (encodeURIComponent error))
  | none =>
    if (jar.value .kc_state).isNone || (jar .kc_state).map (·.value) ≠ query.state then
      pure (loginError env.frontendUrl "invalid_state")
    else
      match truthy query.code with
      | none =>
        respond [.delete .kc_state]
        pure (loginError env.frontendUrl "no_code")
      | some code =>
        match ← exchange code (callbackUrl env.gatewayUrl) with
        | none =>
          respond [.delete .kc_state]
          pure (loginError env.frontendUrl "token_exchange_failed")
        | some tokens =>
          match env.jwtDecode tokens.access_token with
          | none =>
            respond [.delete .kc_state]
            pure (loginError env.frontendUrl "token_exchange_failed")
          | some payload =>
            respond (.delete .kc_state :: tokenCookies tokens ++ [userCookie payload])
            pure (.redirect s!"{env.frontendUrl}/login?auth=ok")

def webLogout : AuthM Outcome := do
  let jar ← cookies
  respond [.delete .dv_access_token, .delete .dv_refresh_token, .delete .dv_id_token, .delete .dv_user,
    .delete .kc_state]
  pure (.redirect (realmUrl env env.keycloakBrowserBase ++ "/logout?" ++ FormUrlEncoded.serialize (
    [("client_id", env.clientId), ("post_logout_redirect_uri", s!"{env.webOrigin}/login?logged_out=1")] ++
      ((jar.value .dv_id_token).map fun idToken => ("id_token_hint", idToken)).toList)))

def gatewayLogout : AuthM Outcome := do
  respond [.delete .dv_access_token, .delete .dv_refresh_token, .delete .dv_user]
  let postLogoutUri := s!"{env.frontendUrl}/login"
  pure (.redirect (realmUrl env env.keycloakBase ++ "/logouts?client_id=" ++ env.clientId ++ "&redirect_uri=" ++
    encodeURIComponent postLogoutUri))

end

/-- What `/api/auth/me` makes of the cookies: nothing for a refusal. -/
def meAnswer (jar : Jar) : Option Session :=
  match jar.value .dv_access_token with
  | none => none
  | some accessToken =>
    match (jar.value .dv_user).bind Json.parse with
    | some user => some ⟨accessToken, user⟩
    | none => (userFromToken accessToken).map fun user => ⟨accessToken, user⟩

/-- `fetch('/api/auth/me')`, with nothing for an answer that is lost or no success. -/
def fetchMe : AuthM (Option Session) := do
  let jar ← cookies
  let arrives ← arrives
  pure (if arrives then meAnswer jar else none)

/-! ## The pages and the client -/

def hydrateSession : AuthM Outcome := do
  match ← loadSession with
  | some _ => pure .done
  | none =>
    match ← fetchMe with
    | some session => saveSession session
    | none => clearSession
    pure .done

structure LoginQuery where
  error : Option String
  auth : Option String
  logged_out : Option String

def loginPage (query : LoginQuery) : AuthM Outcome := do
  if (truthy query.logged_out).isSome then
    clearSession
    deleteCookie .dv_user
    deleteCookie .kc_state
    pure (.redirect "/login")
  else if (truthy query.error).isSome then pure (.redirect "/login")
  else if query.auth = some "ok" then
    match ← fetchMe with
    | some session =>
      saveSession session
      deleteCookie .dv_user
      pure (.redirect "/dashboard")
    | none => pure (.redirect "/login")
  else pure .done

/-- The button of the top bar, up to the request that it makes. -/
def signOut (env : WebEnv) : AuthM Outcome := do
  clearSession
  webLogout env

def isDemoToken (token : String) : Bool := decide ("demo_token_".toList <+: token.toList)

def refreshSessionIfNeeded : AuthM (Option Session) := do
  match ← loadSession with
  | none => pure none
  | some session =>
    if session.accessToken = "" || isDemoToken session.accessToken then pure none
    else
      let data ← askMe session.accessToken
      pure ((data.bind currentUser).map fun user => ⟨session.accessToken, user⟩)

/-- A call of the client with the header it has so far. A call that is refused is made again as often as
the session can be refreshed; `fuel` bounds how often that is looked at. -/
def apiCall : Nat → Option String → AuthM Outcome
  | 0, _ => .throw ()
  | fuel + 1, header => do
    let session ← loadSession
    let authorization := (truthy (session.map (·.accessToken))).orElse fun _ => header
    let status ← send authorization
    if status = 401 then
      match ← refreshSessionIfNeeded with
      | some refreshed =>
        saveSession refreshed
        apiCall fuel (some refreshed.accessToken)
      | none =>
        clearSession
        pure .unauthorized
    else pure (.answered status)

inductive Task where
  | webLogin (reauth : Bool)
  | gatewayLogin
  | webCallback (query : CallbackQuery)
  | gatewayCallback (query : CallbackQuery)
  | webLogout
  | gatewayLogout
  | hydrateSession
  | loginPage (query : LoginQuery)
  | signOut
  | apiCall (fuel : Nat)
  /-- The browser drops a cookie whose age is over. -/
  | expire (name : CookieName)

def Task.run (env : WebEnv) : Task → AuthM Outcome
  | .webLogin reauth => WebAuth.webLogin env reauth
  | .gatewayLogin => WebAuth.gatewayLogin env
  | .webCallback query => WebAuth.webCallback env query
  | .gatewayCallback query => WebAuth.gatewayCallback env query
  | .webLogout => WebAuth.webLogout env
  | .gatewayLogout => WebAuth.gatewayLogout env
  | .hydrateSession => WebAuth.hydrateSession
  | .loginPage query => WebAuth.loginPage query
  | .signOut => WebAuth.signOut env
  | .apiCall fuel => WebAuth.apiCall fuel none
  | .expire name => do
    respond [.delete name]
    pure .done

end WebAuth

end DocVault
