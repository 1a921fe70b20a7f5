import DocVault.AuditEvent

/-!
# Reading the chain back

`getCurrentChainTail`, `orderEventsByChain` and `verifyEventSequence` of
`audit.service.ts`: the tail a writer links to, the reconstruction of the
chain order from the stored records, and the check of the ordered chain.
-/

namespace DocVault

inductive AuditError where
  | serviceUnavailable (message : String)
  | badRequest (message : String)
  | rangeError
  | validation
  | store
  deriving DecidableEq

def getCurrentChainTail (epochId : String) (events : List AuditEvent) : Except AuditError (Option AuditEvent) :=
  if events.isEmpty then .ok none
  else
    let prevHashes := events.filterMap fun event => event.prevHash.toOption
    let tails := events.filter fun event => event.hash.toOption.any (· ∉ prevHashes)
    match tails with
    | [tail] => .ok (some tail)
    | _ => .error (.serviceUnavailable
        s!"Audit chain tail is ambiguous; found {tails.length} candidate tails in epoch {epochId}.")

structure AuditChainVerificationResult where
  valid : Bool
  checked : Nat
  firstBrokenIndex : Option Nat := none
  firstBrokenEventId : Option String := none
  lastTrustedHash : Option String := none
  message : Option String := none
  signedCount : Option Nat := none
  unsignedCount : Option Nat := none
  signatureValid : Option Bool := none
  deriving DecidableEq

structure OrderedAuditChain where
  events : List AuditEvent
  error : Option AuditChainVerificationResult := none

/-! ## orderEventsByChain -/

def normalizePrevHash (value : Nullable String) : Option String := value.toOption

-- `String(event.eventId ?? event._id ?? event.hash)`; the records are read without `_id`.
def eventIdentity (event : AuditEvent) : String := event.eventId.getD event.hash.show

/-- `childrenByPrevHash`: the bucket of each key, in the order of insertion. -/
abbrev Children := Option String → List AuditEvent

def childrenAdd (children : Children) (event : AuditEvent) : Children := fun key =>
  if key = normalizePrevHash event.prevHash then children key ++ [event] else children key

-- The first loop: index the events, or report the first identity seen twice.
def indexEvents : List AuditEvent → List String → Children → Except String Children
  | [], _, children => .ok children
  | event :: events, eventKeys, children =>
    if eventIdentity event ∈ eventKeys then .error (eventIdentity event)
    else indexEvents events (eventIdentity event :: eventKeys) (childrenAdd children event)

-- `childrenByPrevHash.get(current.hash) ?? []`: no key of the map is `undefined`.
def childrenOf (children : Children) : Nullable String → List AuditEvent
  | .undef => []
  | .null => children none
  | .val h => children (some h)

def cycleError (current : AuditEvent) (ordered : List AuditEvent) : AuditChainVerificationResult where
  valid := false
  checked := ordered.length
  firstBrokenEventId := current.eventId
  message := some s!"Audit chain cycle detected at eventId={showOpt current.eventId}."

def forkError (current : AuditEvent) (ordered children : List AuditEvent) : AuditChainVerificationResult where
  valid := false
  checked := ordered.length
  firstBrokenEventId := current.eventId
  lastTrustedHash := current.hash.toOption
  message := some
    s!"Audit chain fork detected after eventId={showOpt current.eventId}; {children.length} events reference the same prevHash."

/-- The `while (current)` loop. Each turn visits one more identity, so with as
many turns as there are events, plus one, the loop has ended (`walk_fuel`). -/
def walk (children : Children) : Nat → AuditEvent → List String → List AuditEvent → OrderedAuditChain
  | 0, current, _, ordered => ⟨ordered, some (cycleError current ordered)⟩
  | n + 1, current, visited, ordered =>
    if eventIdentity current ∈ visited then ⟨ordered, some (cycleError current ordered)⟩
    else
      match childrenOf children current.hash with
      | [] => ⟨ordered ++ [current], none⟩
      | [next] => walk children n next (eventIdentity current :: visited) (ordered ++ [current])
      | bucket => ⟨ordered ++ [current], some (forkError current (ordered ++ [current]) bucket)⟩

def disconnectedError (events ordered : List AuditEvent) : AuditChainVerificationResult where
  valid := false
  checked := ordered.length
  firstBrokenEventId :=
    (events.find? fun event => eventIdentity event ∉ ordered.map eventIdentity).bind fun event => event.eventId
  message := some s!"Audit chain has {events.length - ordered.length} disconnected event(s)."

def orderEventsByChain (events : List AuditEvent) : OrderedAuditChain :=
  if events.isEmpty then ⟨[], none⟩
  else
    match indexEvents events [] fun _ => [] with
    | .error key =>
      ⟨[], some
        { valid := false, checked := 0, message := some s!"Duplicate audit event identity detected: {key}." }⟩
    | .ok children =>
      match children none with
      | [genesis] =>
        let chain := walk children (events.length + 1) genesis [] []
        if chain.error.isSome then chain
        else if chain.events.length ≠ events.length then
          ⟨chain.events, some (disconnectedError events chain.events)⟩
        else chain
      | genesisEvents =>
        ⟨[], some
          { valid := false, checked := 0
            message := some
              s!"Expected exactly one audit-chain genesis event, found {genesisEvents.length}." }⟩

/-! ## verifyEventSequence -/

section
variable (N : Node) (env : Env)

def brokenAt (i : Nat) (event : AuditEvent) (last : Nullable String) (message : String) :
    AuditChainVerificationResult where
  valid := false
  checked := i + 1
  firstBrokenIndex := some i
  firstBrokenEventId := event.eventId
  lastTrustedHash := if i = 0 then none else last.toOption
  message := some message

def expectedHash (last : Nullable String) (event : AuditEvent) : String :=
  computeHash N last.toOption (buildCanonicalPayload (eventFields event.toAuditContent))

inductive SignatureCheck where
  | signed
  | unsigned
  | mismatch

-- A signed event must carry a valid HMAC over its hash; without a secret for
-- its key it counts as unsigned.
def checkSignature (event : AuditEvent) : SignatureCheck :=
  match event.signature with
  | some signature =>
    if signature = "" then .unsigned
    else
      match getVerifySecret env event.signatureKid with
      | none => .unsigned
      | some secret => if signHash N event.hash.show secret ≠ signature then .mismatch else .signed
  | none => .unsigned

/-- The loop from index `i` on, after a record with hash `last` (`null` at the start). -/
def verifyFrom (i : Nat) (last : Nullable String) (signedCount unsignedCount : Nat) :
    List AuditEvent → AuditChainVerificationResult
  | [] =>
    { valid := true, checked := i, signedCount := some signedCount, unsignedCount := some unsignedCount
      signatureValid := if unsignedCount = 0 then some true else none }
  | event :: events =>
    if event.hash ≠ .val (expectedHash N last event) then
      brokenAt i event last
        s!"Hash mismatch at event index {i} (eventId={showOpt event.eventId}). Expected={expectedHash N last event}, got={event.hash.show}"
    else if event.prevHash ≠ last then
      brokenAt i event last
        s!"prevHash mismatch at event index {i} (eventId={showOpt event.eventId}). Expected={last.show}, got={event.prevHash.show}"
    else
      match checkSignature N env event with
      | .mismatch =>
        { brokenAt i event last s!"Signature mismatch at event index {i} (eventId={showOpt event.eventId})." with
          signatureValid := some false }
      | .signed => verifyFrom (i + 1) event.hash (signedCount + 1) unsignedCount events
      | .unsigned => verifyFrom (i + 1) event.hash signedCount (unsignedCount + 1) events

def verifyEventSequence (events : List AuditEvent) : AuditChainVerificationResult :=
  if events.isEmpty then { valid := true, checked := 0, signedCount := some 0, unsignedCount := some 0 }
  else verifyFrom N env 0 .null 0 0 events

/-- `ordered.error ?? this.verifyEventSequence(ordered.events.slice(0, limit))` -/
def verifyEvents (limit : Nat) (events : List AuditEvent) : AuditChainVerificationResult :=
  let ordered := orderEventsByChain events
  ordered.error.getD (verifyEventSequence N env (ordered.events.take limit))

end

end DocVault
