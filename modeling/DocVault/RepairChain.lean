import DocVault.AppendSound

/-!
# The repair script

`scripts/repair-audit-chain.ts` with `--apply`: it reads every event of the
collection in the order of the timestamps, whatever its epoch, finds the first
one that does not continue the one before it, and writes hashes, links and
signatures from there on. `signHash` is the script's own.
-/

namespace DocVault

/-- A document of the collection: an event under its `_id`. -/
structure AuditEventRecord extends AuditEvent where
  id : Nat

structure AuditCollection where
  records : List AuditEventRecord
  ids : (records.map (·.id)).Nodup

namespace RepairAuditChain

/-! ## The helpers mirrored from AuditService -/

def canonicalTimestamp : Stamp → FieldValue
  | .date d => .text d.toISOString
  | .text s => .text s
  | .missing => .missing

def getCanonicalFields (event : AuditEventRecord) : List (String × FieldValue) :=
  [("eventId", .ofOption event.eventId), ("timestamp", canonicalTimestamp event.timestamp),
    ("actorId", .text event.actorId), ("actorRoles", .list event.actorRoles), ("action", .text event.action),
    ("resourceType", .text event.resourceType), ("resourceId", .ofOption event.resourceId),
    ("result", .text event.result), ("reason", .ofOption event.reason), ("ip", .ofOption event.ip),
    ("traceId", .ofOption event.traceId)] ++ metadataField event.metadata

section
variable (N : Node)

def signHash (hash secret : String) : String := N.sha256 (secret ++ ":" ++ hash)

def payload (event : AuditEventRecord) : String := buildCanonicalPayload (getCanonicalFields event)

/-! ## main -/

/-- `sort({ timestamp: 1, _id: 1 })` -/
def before (a b : AuditEventRecord) : Bool :=
  if a.timestamp = b.timestamp then a.id ≤ b.id else a.timestamp.le b.timestamp

def load (records : List AuditEventRecord) : List AuditEventRecord := records.insertionSort fun a b => before a b

def prevHashOf : Option String → Nullable String
  | some hash => .val hash
  | none => .null

-- Step 1, after a record with hash `last` (`null` at the start).
def firstBrokenIndex (last : Nullable String) : List AuditEventRecord → Option Nat
  | [] => none
  | event :: events =>
    if event.hash ≠ .val (computeHash N last.toOption (payload event)) || event.prevHash ≠ last then some 0
    else (firstBrokenIndex event.hash events).map (· + 1)

structure Update where
  id : Nat
  newHash : String
  newPrevHash : Option String

-- Step 2
def recompute (runningPrevHash : Option String) : List AuditEventRecord → List Update
  | [] => []
  | event :: events =>
    let newHash := computeHash N runningPrevHash (payload event)
    (if event.hash ≠ .val newHash || event.prevHash ≠ prevHashOf runningPrevHash then
      [⟨event.id, newHash, runningPrevHash⟩] else []) ++ recompute (some newHash) events

def updates (events : List AuditEventRecord) : List Update :=
  match firstBrokenIndex N .null events with
  | none => []
  | some 0 => recompute N none events
  | some (i + 1) => recompute N (events[i]?.bind (·.hash.toOption)) (events.drop (i + 1))

-- Step 4: `$set` of the update's fields. Without a key id the stored one stays, without a
-- secret the stored signature.
def updateFields (signing : Option SigningKey) (u : Update) (event : AuditEventRecord) : AuditEventRecord :=
  { event with
    hash := .val u.newHash
    prevHash := prevHashOf u.newPrevHash
    signature := match signing with
      | some key => some (signHash N u.newHash key.secret)
      | none => event.signature
    signatureKid := (signing.bind (·.kid)).orElse fun _ => event.signatureKid }

def updateOne (signing : Option SigningKey) (records : List AuditEventRecord) (u : Update) :
    List AuditEventRecord :=
  records.map fun event => if event.id = u.id then updateFields N signing u event else event

def applyUpdates (signing : Option SigningKey) (records : List AuditEventRecord) (us : List Update) :
    List AuditEventRecord :=
  us.foldl (updateOne N signing) records

theorem updateOne_ids (signing : Option SigningKey) (records : List AuditEventRecord) (u : Update) :
    (updateOne N signing records u).map (·.id) = records.map (·.id) := by
  rw [updateOne, List.map_map]
  refine List.map_congr_left fun event _ => ?_
  by_cases h : event.id = u.id <;> simp [h, updateFields]

theorem applyUpdates_ids (signing : Option SigningKey) (records : List AuditEventRecord) (us : List Update) :
    (applyUpdates N signing records us).map (·.id) = records.map (·.id) := by
  induction us generalizing records with
  | nil => rfl
  | cons u us ih => exact (ih _).trans (updateOne_ids N signing records u)

def repair (env : Env) (collection : AuditCollection) : AuditCollection where
  records := applyUpdates N (getSigningSecret env) collection.records (updates N (load collection.records))
  ids := by
    rw [applyUpdates_ids]
    exact collection.ids

end

theorem payload_eq (event : AuditEventRecord) :
    payload event = buildCanonicalPayload (eventFields event.toAuditContent) := by
  unfold payload getCanonicalFields eventFields
  cases event.timestamp <;> rfl

/-! ## What the script links -/

/-- An event with the hash of the event before it and the hash that follows from both. -/
structure Link where
  event : AuditEventRecord
  prevHash : Option String
  hash : String

section
variable (N : Node)

def links (prevHash : Option String) : List AuditEventRecord → List Link
  | [] => []
  | event :: events =>
    let hash := computeHash N prevHash (payload event)
    ⟨event, prevHash, hash⟩ :: links (some hash) events

def Link.holds (x : Link) : Bool := x.event.hash = .val x.hash && x.event.prevHash = prevHashOf x.prevHash

def Link.relinked (signing : Option SigningKey) (x : Link) : AuditEventRecord :=
  if x.holds then x.event else updateFields N signing ⟨x.event.id, x.hash, x.prevHash⟩ x.event

def relinked (signing : Option SigningKey) (events : List AuditEventRecord) : List AuditEventRecord :=
  (links N none events).map (Link.relinked N signing)

variable {N} {signing : Option SigningKey}

@[simp] theorem relinked_id (x : Link) : (x.relinked N signing).id = x.event.id := by
  unfold Link.relinked
  split <;> rfl

@[simp] theorem relinked_content (x : Link) : (x.relinked N signing).toAuditContent = x.event.toAuditContent := by
  unfold Link.relinked
  split <;> rfl

@[simp] theorem relinked_epochId (x : Link) : (x.relinked N signing).epochId = x.event.epochId := by
  unfold Link.relinked
  split <;> rfl

@[simp] theorem relinked_hash (x : Link) : (x.relinked N signing).hash = .val x.hash := by
  unfold Link.relinked
  split
  · rename_i h
    simp only [Link.holds, Bool.and_eq_true, decide_eq_true_eq] at h
    exact h.1
  · rfl

@[simp] theorem relinked_prevHash (x : Link) : (x.relinked N signing).prevHash = prevHashOf x.prevHash := by
  unfold Link.relinked
  split
  · rename_i h
    simp only [Link.holds, Bool.and_eq_true, decide_eq_true_eq] at h
    exact h.2
  · rfl

theorem links_events (prevHash : Option String) (events : List AuditEventRecord) :
    (links N prevHash events).map (·.event) = events := by
  induction events generalizing prevHash with
  | nil => rfl
  | cons event events ih => simp [links, ih]

theorem relinked_ids (prevHash : Option String) (events : List AuditEventRecord) :
    ((links N prevHash events).map (Link.relinked N signing)).map (·.id) = events.map (·.id) := by
  rw [List.map_map]
  conv_rhs => rw [← links_events (N := N) prevHash events, List.map_map]
  exact List.map_congr_left fun x _ => relinked_id x

theorem updateOne_beside {u : Update} {records : List AuditEventRecord} (h : ∀ event ∈ records, event.id ≠ u.id) :
    updateOne N signing records u = records := by
  rw [updateOne]
  conv_rhs => rw [← List.map_id records]
  exact List.map_congr_left fun event hm => if_neg (h event hm)

theorem updateOne_append (l m : List AuditEventRecord) (u : Update) :
    updateOne N signing (l ++ m) u = updateOne N signing l u ++ updateOne N signing m u := List.map_append

-- The updates of the rest do not touch the events before it.
theorem applyUpdates_recompute : ∀ (events done : List AuditEventRecord) (prevHash : Option String),
    ((done ++ events).map (·.id)).Nodup → applyUpdates N signing (done ++ events) (recompute N prevHash events) =
      done ++ (links N prevHash events).map (Link.relinked N signing) := by
  intro events
  induction events with
  | nil => intro done _ _; rfl
  | cons event events ih =>
    intro done prevHash hn
    have hne : ∀ e ∈ done ++ events, e.id ≠ event.id := by
      have hperm : ((done ++ event :: events).map (·.id)).Perm ((event :: (done ++ events)).map (·.id)) :=
        List.perm_middle.map AuditEventRecord.id
      have hcons := hperm.nodup_iff.mp hn
      rw [List.map_cons, List.nodup_cons] at hcons
      exact fun e he heq => hcons.1 (heq ▸ List.mem_map_of_mem he)
    have hrest : ∀ event' : AuditEventRecord, event'.id = event.id →
        applyUpdates N signing (done ++ event' :: events) (recompute N
          (some (computeHash N prevHash (payload event))) events) =
          done ++ event' :: (links N (some (computeHash N prevHash (payload event))) events).map
            (Link.relinked N signing) := by
      intro event' hid
      have := ih (done ++ [event']) (some (computeHash N prevHash (payload event))) (by simpa [hid] using hn)
      simpa using this
    have hbroken : (event.hash ≠ .val (computeHash N prevHash (payload event)) ||
      event.prevHash ≠ prevHashOf prevHash) =
        !(Link.mk event prevHash (computeHash N prevHash (payload event))).holds := by
      simp [Link.holds, Bool.not_and]
    simp only [recompute, links, List.map_cons, hbroken]
    cases hx : (Link.mk event prevHash (computeHash N prevHash (payload event))).holds with
    | true =>
      have hkeep : Link.relinked N signing ⟨event, prevHash, computeHash N prevHash (payload event)⟩ =
        event := if_pos hx
      rw [hkeep]
      exact hrest event rfl
    | false =>
      have hwrite : Link.relinked N signing ⟨event, prevHash, computeHash N prevHash (payload event)⟩ =
          updateFields N signing ⟨event.id, computeHash N prevHash (payload event), prevHash⟩ event :=
        if_neg (Bool.eq_false_iff.mp hx)
      have hsplit : updateOne N signing (done ++ event :: events)
            ⟨event.id, computeHash N prevHash (payload event), prevHash⟩ =
          done ++ updateFields N signing ⟨event.id, computeHash N prevHash (payload event),
            prevHash⟩ event :: events := by
        have hself : updateOne N signing (event :: events) ⟨event.id,
          computeHash N prevHash (payload event), prevHash⟩ =
            updateFields N signing ⟨event.id, computeHash N prevHash (payload event), prevHash⟩ event ::
              updateOne N signing events ⟨event.id, computeHash N prevHash (payload event), prevHash⟩ := by
          rw [updateOne, List.map_cons, if_pos rfl]
          rfl
        rw [updateOne_append, updateOne_beside (fun e he => hne e (List.mem_append_left _ he)), hself,
          updateOne_beside (fun e he => hne e (List.mem_append_right _ he))]
      rw [hwrite, if_pos (show (!false) = true from rfl), List.singleton_append, applyUpdates,
        List.foldl_cons, hsplit]
      exact hrest _ rfl

end

end RepairAuditChain

end DocVault
