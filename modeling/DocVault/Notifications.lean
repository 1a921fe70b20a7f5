import DocVault.Documents
import DocVault.JsNumber
import DocVault.Keyed
import DocVault.Redaction

/-!
# Notifications

`NotificationService` and the endpoints over it. Rows stand in the order in
which they were created.
-/

namespace DocVault

inductive NotifyType where
  | SUBMITTED | APPROVED | REJECTED | ARCHIVED | DELETED | MENTIONED | COMMENTED | VERSION_UPLOADED | DLP_DETECTED
  deriving DecidableEq

structure NotifyDto where
  type : NotifyType
  docId : String
  recipientId : Option String := none
  recipientIds : Option (List String) := none
  docTitle : Nullable String := .undef
  reason : Nullable String := .undef
  traceId : Nullable String := .undef
  metadata : Option (List (String × Json)) := none

structure Notification where
  _id : Nat
  id : String
  type : NotifyType
  docId : String
  recipientId : String
  docTitle : Nullable String
  reason : Nullable String
  traceId : Nullable String
  metadata : Option Json
  createdAt : JsDate
  read : Bool

namespace NotificationService

def MAX_PER_RECIPIENT : Nat := 100

/-- `id` has a unique index. -/
abbrev Collection := Keyed.Table Notification.id

abbrev NewestFirst (a b : Notification) : Prop :=
  b.createdAt.ms < a.createdAt.ms ∨ b.createdAt.ms = a.createdAt.ms ∧ b._id ≤ a._id

def rowsOf (recipientId : String) (rows : List Notification) : List Notification :=
  rows.filter fun n => n.recipientId = recipientId

def byNewest (rows : List Notification) : List Notification := rows.insertionSort NewestFirst

/-! ## notify -/

inductive StoreError where
  /-- `Path is required`, which no empty text meets. -/
  | required (path : String)
  | duplicate (id : String)
  deriving DecidableEq

def create (t : Collection) (n : Notification) : Except StoreError Collection :=
  if n.id = "" then .error (.required "id")
  else if n.docId = "" then .error (.required "docId")
  else if n.recipientId = "" then .error (.required "recipientId")
  else match t.insert n with
    | none => .error (.duplicate n.id)
    | some t => .ok t

def pruneRecipient (recipientId : String) (t : Collection) : Collection :=
  let total := (rowsOf recipientId t.rows).length
  if total ≤ MAX_PER_RECIPIENT then t
  else
    let stale := (byNewest (rowsOf recipientId t.rows)).drop MAX_PER_RECIPIENT
    let staleIds := stale.map (·.id)
    if 0 < staleIds.length then t.filter fun n => !(n.recipientId = recipientId && staleIds.contains n.id) else t

def uniqueRecipients (dto : NotifyDto) : List String :=
  let recipients := dto.recipientIds.getD [] ++ (match dto.recipientId with
    | some recipientId => if recipientId = "" then [] else [recipientId]
    | none => [])
  recipients.eraseDups

/-- What the creations of a run draw one after another: the clock does not go
back, each `_id` is above those before, and no two public ids are equal. -/
structure Draws where
  now : Nat → JsDate
  _id : Nat → Nat
  random : Nat → String
  now_le : ∀ {k l}, k ≤ l → (now k).ms ≤ (now l).ms
  _id_lt : ∀ {k l}, k < l → _id k < _id l
  uid_inj : ∀ {k l}, toString (now k).ms ++ "-" ++ random k = toString (now l).ms ++ "-" ++ random l → k = l

def Draws.uid (draws : Draws) (k : Nat) : String := toString (draws.now k).ms ++ "-" ++ draws.random k

/-- The collection, all that was ever created, and how much was drawn. -/
structure NotifyState where
  store : Collection
  created : List Notification
  drawn : Nat

structure NotifyResult where
  accepted : Bool
  type : NotifyType
  docId : String
  recipients : List String
  deriving DecidableEq

section
variable (draws : Draws)

def newRecord (dto : NotifyDto) (recipientId : String) (k : Nat) : Notification where
  _id := draws._id k
  id := draws.uid k
  type := dto.type
  docId := dto.docId
  recipientId := recipientId
  docTitle := dto.docTitle
  reason := dto.reason
  traceId := dto.traceId
  metadata := dto.metadata.map fun fields => sanitizeNotificationMetadata (.obj fields)
  createdAt := draws.now k
  read := false

/-- The loop over the recipients. It ends with the first record that the store does not take. -/
def notifyEach (dto : NotifyDto) : List String → NotifyState → NotifyState × Option StoreError
  | [], s => (s, none)
  | recipientId :: rest, s =>
    let n := newRecord draws dto recipientId s.drawn
    match create s.store n with
    | .error e => ({ s with drawn := s.drawn + 1 }, some e)
    | .ok store =>
      notifyEach dto rest
        { store := pruneRecipient recipientId store, created := s.created ++ [n], drawn := s.drawn + 1 }

def notify (dto : NotifyDto) (s : NotifyState) : NotifyState × Except StoreError NotifyResult :=
  match notifyEach draws dto (uniqueRecipients dto) s with
  | (s, some e) => (s, .error e)
  | (s, none) => (s,
      .ok { accepted := true, type := dto.type, docId := dto.docId, recipients := uniqueRecipients dto })

def notifyRun (calls : List NotifyDto) : NotifyState :=
  calls.foldl (fun s dto => (notify draws dto s).1)
    { store := Keyed.Table.empty Notification.id, created := [], drawn := 0 }

end

/-! ## Reading and marking -/

structure NotificationRecord where
  id : String
  type : NotifyType
  docId : String
  recipientId : String
  docTitle : Nullable String
  reason : Nullable String
  traceId : Nullable String
  metadata : Option Json
  createdAt : String
  read : Bool

structure NotificationPage where
  records : List NotificationRecord
  total : Nat
  page : JsNumber
  pages : JsNumber

def toRecord (n : Notification) : NotificationRecord where
  id := n.id
  type := n.type
  docId := n.docId
  recipientId := n.recipientId
  docTitle := n.docTitle
  reason := n.reason
  traceId := n.traceId
  metadata := n.metadata
  createdAt := n.createdAt.toISOString
  read := n.read

/-- What the database makes of `.skip(skip).limit(limit)` on the sorted rows. Both may be `NaN`,
and numbers that it cannot take fail the call. -/
abbrev Cursor := JsNumber → JsNumber → List Notification → Option (List Notification)

def getForUser (cursor : Cursor) (t : Collection) (userId : String) (page limit : JsNumber) :
    Option NotificationPage := do
  let safeL := ((JsNumber.finite 1).max limit).min (.finite 100)
  let safeP := (JsNumber.finite 1).max page
  let skip := (safeP.sub (.finite 1)).mul safeL
  let docs ← cursor skip safeL (byNewest (rowsOf userId t.rows))
  let total := (rowsOf userId t.rows).length
  pure
    { records := docs.map toRecord, total := total, page := safeP,
      pages := (JsNumber.div (.finite total) safeL).ceil }

def getUnreadCount (t : Collection) (userId : String) : Nat :=
  t.rows.countP fun n => n.recipientId = userId && n.read = false

def markAsRead (t : Collection) (id : String) : Bool × Collection :=
  match t.find id with
  | none => (false, t)
  | some n => (!n.read, t.put { n with read := true })

def readBy (userId : String) (n : Notification) : Notification :=
  if n.recipientId = userId && n.read = false then { n with read := true } else n

theorem readBy_id (userId : String) (n : Notification) : (readBy userId n).id = n.id := by
  unfold readBy
  split
  · rfl
  · rfl

def markAllRead (t : Collection) (userId : String) : Collection where
  rows := t.rows.map (readBy userId)
  unique := by
    have hids : (t.rows.map (readBy userId)).map Notification.id = t.rows.map Notification.id := by
      rw [List.map_map]
      exact List.map_congr_left fun n _ => readBy_id userId n
    unfold Keyed.Unique
    rw [hids]
    exact t.unique

end NotificationService

namespace NotificationController

open NotificationService

def userIdOf (user : Option ServiceUser) : String :=
  ((user.bind (·.sub)).or (user.bind (·.username))).getD "anonymous"

def queryNumber (otherwise : Nat) : Option String → JsNumber
  | none => .finite otherwise
  | some text => if text = "" then .finite otherwise else parseInt text

inductive NotificationRequest where
  | list (page limit : Option String)
  | unreadCount
  | markAsRead (id : String)
  | markAllRead

def NotificationRequest.guarded : NotificationRequest → Bool
  | .unreadCount => false
  | _ => true

inductive Reply where
  | page (page : NotificationPage)
  | count (count : Nat)
  | ok (ok : Bool)
  | failed

/-- A request that `caller` is authenticated for. -/
def handle (cursor : Cursor) (caller : ServiceUser) (request : NotificationRequest)
    (t : Collection) : Reply × Collection :=
  let user := if request.guarded then some caller else none
  let userId := userIdOf user
  match request with
  | .list page limit =>
    match getForUser cursor t userId (queryNumber 1 page) (queryNumber 20 limit) with
    | none => (.failed, t)
    | some page => (.page page, t)
  | .unreadCount => (.count (getUnreadCount t userId), t)
  | .markAsRead id => let (modified, t) := NotificationService.markAsRead t id; (.ok modified, t)
  | .markAllRead => (.ok true, NotificationService.markAllRead t userId)

end NotificationController

end DocVault
