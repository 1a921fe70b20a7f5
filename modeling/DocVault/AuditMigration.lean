import DocVault.RepairSound
import DocVault.AppendVerify
import DocVault.Paging

/-!
# The migration from PostgreSQL

`scripts/migrate-to-mongo.ts` reads the table in pages ordered by the
timestamp and chains the rows anew into an empty collection. When the service
accepts what it wrote: for one run, and for every way in which the database
may order the rows of one timestamp.
-/

namespace DocVault

open Interleave

namespace MigrateToMongo

def BATCH_SIZE : Nat := 500

structure PgAuditEvent where
  eventId : String
  timestamp : JsDate
  actorId : String
  actorRoles : List String
  action : String
  resourceType : String
  resourceId : Option String
  result : String
  reason : Option String
  ip : Option String
  traceId : Option String
  prevHash : Option String
  hash : String

/-- A row of the table: what a query returns of it, and the value of its
`timestamp` column, of which the `Date` keeps the milliseconds. -/
structure PgRow extends PgAuditEvent where
  column : Int

/-! ## The script -/

def canonicalFields (row : PgAuditEvent) : List (String × FieldValue) :=
  [("eventId", .text row.eventId), ("timestamp", .text row.timestamp.toISOString), ("actorId", .text row.actorId),
    ("actorRoles", .list row.actorRoles), ("action", .text row.action), ("resourceType", .text row.resourceType),
    ("resourceId", .ofOption row.resourceId), ("result", .text row.result), ("reason", .ofOption row.reason),
    ("ip", .ofOption row.ip), ("traceId", .ofOption row.traceId)]

section
variable (N : Node) (ignoreUndefined : Bool)

-- `prevHash ?? undefined`: without the driver's `ignoreUndefined` the field is stored as `null`.
def storedPrevHash : Option String → Nullable String
  | some hash => .val hash
  | none => if ignoreUndefined then .undef else .null

def mongoEvent (row : PgAuditEvent) (prevHash : Option String) (hash : String) : AuditEvent where
  eventId := some row.eventId
  timestamp := .date row.timestamp
  actorId := row.actorId
  actorRoles := row.actorRoles
  action := row.action
  resourceType := row.resourceType
  resourceId := row.resourceId
  result := row.result
  reason := row.reason
  ip := row.ip
  traceId := row.traceId
  metadata := none
  epochId := none
  prevHash := storedPrevHash ignoreUndefined prevHash
  hash := .val hash
  signature := none
  signatureKid := none

/-- The `for` loop over a batch: its events, and the hash the next batch starts from. -/
def migrateBatch (prevHash : Option String) : List PgRow → List AuditEvent × Option String
  | [] => ([], prevHash)
  | row :: batch =>
    let hash := computeHash N prevHash (buildCanonicalPayload (canonicalFields row.toPgAuditEvent))
    let rest := migrateBatch (some hash) batch
    (mongoEvent ignoreUndefined row.toPgAuditEvent prevHash hash :: rest.1, rest.2)

inductive MigrateError where
  | notEmpty (existingCount : Nat)
  | duplicateKey
  deriving DecidableEq

-- `insertMany` under the unique index on `(epochId, prevHash)`.
def insertMany (collection mongoEvents : List AuditEvent) : Except MigrateError (List AuditEvent) :=
  if ((collection ++ mongoEvents).map fun e => (e.epochId, normalizePrevHash e.prevHash)).Nodup then
    .ok (collection ++ mongoEvents)
  else .error .duplicateKey

/-- `ORDER BY "timestamp" ASC LIMIT 500 OFFSET offset`, of the order that the
database puts the rows in for this query. -/
def select (order : Nat → List PgRow) (offset : Nat) : List PgRow := ((order offset).drop offset).take BATCH_SIZE

-- The `while` loop, which moves on by a batch a turn.
def migrateBatches (order : Nat → List PgRow) (total : Nat) : Nat → Nat → Option String → List AuditEvent →
    Except MigrateError (List AuditEvent)
  | 0, _, _, collection => .ok collection
  | turns + 1, offset, prevHash, collection =>
    if offset < total then
      let batch := select order offset
      if batch.isEmpty then .ok collection
      else do
        let migrated := migrateBatch N ignoreUndefined prevHash batch
        let collection ← insertMany collection migrated.1
        migrateBatches order total turns (offset + BATCH_SIZE) migrated.2 collection
    else .ok collection

def migrate (order : Nat → List PgRow) (total : Nat) (collection : List AuditEvent) :
    Except MigrateError (List AuditEvent) :=
  if collection.length > 0 then .error (.notEmpty collection.length)
  else if total = 0 then .ok collection
  else migrateBatches N ignoreUndefined order total total 0 none collection

end

/-! ## The batches together -/

def byTime (a b : PgRow) : Prop := a.column ≤ b.column

instance : DecidableRel byTime := fun a b => inferInstanceAs (Decidable (a.column ≤ b.column))

instance : Std.Total byTime := ⟨fun a b => Int.le_total a.column b.column⟩

instance : IsTrans PgRow byTime := ⟨fun _ _ _ h h' => Int.le_trans h h'⟩

/-- The rows of the pages, in the order in which they are read. -/
def migratedRows (order : Nat → List PgRow) (total : Nat) : List PgRow :=
  Paging.pages BATCH_SIZE (Paging.pageCount BATCH_SIZE total) fun k => order (k * BATCH_SIZE)

section
variable {N : Node} {ignoreUndefined : Bool}

theorem migrateBatch_append (prevHash : Option String) (l m : List PgRow) :
    migrateBatch N ignoreUndefined prevHash (l ++ m) =
      ((migrateBatch N ignoreUndefined prevHash l).1 ++
          (migrateBatch N ignoreUndefined (migrateBatch N ignoreUndefined prevHash l).2 m).1,
        (migrateBatch N ignoreUndefined (migrateBatch N ignoreUndefined prevHash l).2 m).2) := by
  induction l generalizing prevHash with
  | nil => rfl
  | cons row l ih => simp [migrateBatch, ih]

/-- The row as the service would store it before it is linked. -/
def unlinked (row : PgRow) : AuditEventRecord :=
  { mongoEvent false row.toPgAuditEvent none "" with hash := .undef, id := 0 }

theorem payload_unlinked (row : PgRow) :
    RepairAuditChain.payload (unlinked row) = buildCanonicalPayload (canonicalFields row.toPgAuditEvent) := rfl

def sealed (ignoreUndefined : Bool) (x : RepairAuditChain.Link) : AuditEvent :=
  { x.event.toAuditEvent with prevHash := storedPrevHash ignoreUndefined x.prevHash, hash := .val x.hash }

theorem migrateBatch_links (prevHash : Option String) (rows : List PgRow) :
    (migrateBatch N ignoreUndefined prevHash rows).1 =
      (RepairAuditChain.links N prevHash (rows.map unlinked)).map (sealed ignoreUndefined) := by
  induction rows generalizing prevHash with
  | nil => rfl
  | cons row rows ih =>
    rw [List.map_cons, RepairAuditChain.links, List.map_cons, payload_unlinked, migrateBatch, ih]
    rfl

theorem prevKey_sealed (x : RepairAuditChain.Link) : prevKey (sealed ignoreUndefined x) = x.prevHash := by
  cases hx : x.prevHash with
  | some k => simp [prevKey, normalizePrevHash, sealed, hx, storedPrevHash]
  | none => cases ignoreUndefined <;> simp [prevKey, normalizePrevHash, sealed, hx, storedPrevHash]

theorem migrateBatch_chain (hN : Digest.CollisionFree N.sha256) (rows : List PgRow) :
    AuditChain (migrateBatch N ignoreUndefined none rows).1 := by
  rw [migrateBatch_links]
  exact (RepairAuditChain.links_chain hN _).map prevKey_sealed fun _ => rfl

theorem migrateBatch_epochs {prevHash : Option String} {rows : List PgRow} :
    ∀ e ∈ (migrateBatch N ignoreUndefined prevHash rows).1, e.epochId = none ∧ e.signature = none := by
  induction rows generalizing prevHash with
  | nil => exact fun _ he => absurd he List.not_mem_nil
  | cons row rows ih => exact List.forall_mem_cons.mpr ⟨⟨rfl, rfl⟩, ih⟩

theorem migrateBatch_identities {prevHash : Option String} {rows : List PgRow} :
    (migrateBatch N ignoreUndefined prevHash rows).1.map eventIdentity = rows.map fun row => row.eventId := by
  induction rows generalizing prevHash with
  | nil => rfl
  | cons row rows ih =>
    rw [migrateBatch, List.map_cons, ih]
    rfl

theorem migrateBatch_length (prevHash : Option String) (rows : List PgRow) :
    (migrateBatch N ignoreUndefined prevHash rows).1.length = rows.length := by
  have hids : (migrateBatch N ignoreUndefined prevHash rows).1.map eventIdentity =
    rows.map fun row => row.eventId :=
    migrateBatch_identities
  simpa using congrArg List.length hids

-- No two events of the migration have the key of the index.
theorem insertMany_migrated (hN : Digest.CollisionFree N.sha256) (l m : List PgRow) :
    insertMany (migrateBatch N ignoreUndefined none l).1
        (migrateBatch N ignoreUndefined (migrateBatch N ignoreUndefined none l).2 m).1 =
      .ok (migrateBatch N ignoreUndefined none (l ++ m)).1 := by
  have happ : (migrateBatch N ignoreUndefined none (l ++ m)).1 = (migrateBatch N ignoreUndefined none l).1 ++
      (migrateBatch N ignoreUndefined (migrateBatch N ignoreUndefined none l).2 m).1 := by rw [migrateBatch_append]
  rw [insertMany, ← happ, if_pos]
  have hn : ((migrateBatch N ignoreUndefined none (l ++ m)).1.map prevKey).Nodup := (migrateBatch_chain hN _).nodup
  exact List.Nodup.of_map Prod.snd (by rwa [List.map_map])

theorem select_eq_page (order : Nat → List PgRow) (k : Nat) :
    select order (k * BATCH_SIZE) = Paging.page BATCH_SIZE k (order (k * BATCH_SIZE)) := rfl

theorem pageCount_le {k total : Nat} (h : total ≤ k * BATCH_SIZE) : Paging.pageCount BATCH_SIZE total ≤ k := by
  unfold Paging.pageCount BATCH_SIZE at *
  omega

/-- After `k` turns the collection holds the first `k` pages. -/
theorem migrateBatches_eq (hN : Digest.CollisionFree N.sha256) {order : Nat → List PgRow} {total : Nat}
    (hlen : ∀ offset, (order offset).length = total) :
    ∀ {turns k : Nat}, Paging.pageCount BATCH_SIZE total ≤ k + turns → k ≤ Paging.pageCount BATCH_SIZE total →
      migrateBatches N ignoreUndefined order total turns (k * BATCH_SIZE)
          (migrateBatch N ignoreUndefined none (Paging.pages BATCH_SIZE k fun k => order (k * BATCH_SIZE))).2
          (migrateBatch N ignoreUndefined none (Paging.pages BATCH_SIZE k fun k => order (k * BATCH_SIZE))).1 =
        .ok (migrateBatch N ignoreUndefined none (migratedRows order total)).1 := by
  intro turns
  induction turns with
  | zero =>
    intro k hle hk
    rw [migrateBatches, migratedRows, show k = Paging.pageCount BATCH_SIZE total by omega]
  | succ turns ih =>
    intro k hle hk
    rw [migrateBatches]
    by_cases hoff : k * BATCH_SIZE < total
    · have hlt : k < Paging.pageCount BATCH_SIZE total := Paging.lt_pageCount (by decide) hoff
      have hne : (select order (k * BATCH_SIZE)).isEmpty = false := by
        have hpos : 0 < (select order (k * BATCH_SIZE)).length := by
          rw [select, List.length_take, List.length_drop, hlen, BATCH_SIZE] at *
          omega
        exact List.isEmpty_eq_false_iff.mpr (List.length_pos_iff.mp hpos)
      have hnext := ih (k := k + 1) (by omega) (by omega)
      rw [Paging.pages_succ, ← select_eq_page, Nat.succ_mul] at hnext
      simp only [if_pos hoff, hne, Bool.false_eq_true, if_false, insertMany_migrated hN]
      rw [migrateBatch_append] at hnext ⊢
      exact hnext
    · rw [if_neg hoff, migratedRows, show Paging.pageCount BATCH_SIZE total = k from
        Nat.le_antisymm (pageCount_le (Nat.not_lt.mp hoff)) hk]

theorem migrate_eq (hN : Digest.CollisionFree N.sha256) {order : Nat → List PgRow} {total : Nat}
    (hlen : ∀ offset, (order offset).length = total) : migrate N ignoreUndefined order total [] =
      .ok (migrateBatch N ignoreUndefined none (migratedRows order total)).1 := by
  rw [migrate, if_neg (by simp)]
  by_cases ht : total = 0
  · subst ht
    rw [if_pos rfl]
    rfl
  · have hcount : Paging.pageCount BATCH_SIZE total ≤ 0 + total := by
      unfold Paging.pageCount BATCH_SIZE
      omega
    have hall := @migrateBatches_eq N ignoreUndefined hN order total hlen total 0 hcount (Nat.zero_le _)
    rw [Nat.zero_mul] at hall
    rw [if_neg ht]
    exact hall

/-! ## What the service answers -/

theorem migrateBatch_verified (env : Env) {prevHash : Option String} {rows : List PgRow} :
    Verified N env (RepairAuditChain.prevHashOf prevHash) (migrateBatch N false prevHash rows).1 := by
  induction rows generalizing prevHash with
  | nil => trivial
  | cons row rows ih =>
    refine ⟨?_, ?_, by simp [checkSignature, mongoEvent], @ih (some _)⟩
    · rw [expectedHash, RepairAuditChain.prevHashOf_toOption]
      rfl
    · cases prevHash <;> rfl

theorem verified_take {env : Env} {l : List AuditEvent} {last : Nullable String}
    (h : Verified N env last l) (n : Nat) : Verified N env last (l.take n) := by
  rw [← List.take_append_drop n l] at h
  exact verified_append h

-- With `ignoreUndefined` the first event has no `prevHash`, which is not `null`.
theorem migrateBatch_undefined {env : Env} {rows : List PgRow} {n : Nat}
    (h : Verified N env .null ((migrateBatch N true none rows).1.take n)) : rows.take n = [] := by
  cases rows with
  | nil => simp
  | cons row rows =>
    cases n with
    | zero => rfl
    | succ n => exact absurd h.2.1 nofun

theorem verifyEvents_of_chain {env : Env} {limit : Nat} {l records : List AuditEvent} (hl : AuditChain l)
    (hnull : ∀ e ∈ l, e.hash ≠ .null) (hp : records.Perm l) :
    ((l.map eventIdentity).Nodup → verifyEvents N env limit records = verifyEventSequence N env (l.take limit)) ∧
    (¬ (l.map eventIdentity).Nodup → (verifyEvents N env limit records).valid = false) := by
  have hids : (records.map eventIdentity).Nodup ↔ (l.map eventIdentity).Nodup := (hp.map eventIdentity).nodup_iff
  constructor
  · intro hn
    have ho := (orderEventsByChain_eq_ok_iff records l).mpr ⟨hids.mpr hn, hp.symm, hl, hnull⟩
    rw [verifyEvents, ho]
    rfl
  · intro hn
    cases ho : orderEventsByChain records with
    | mk m error =>
      cases error with
      | none => exact absurd (hids.mp ((orderEventsByChain_eq_ok_iff records m).mp ho).1) hn
      | some r =>
        rw [verifyEvents, ho]
        exact order_error_valid records (by rw [ho]; rfl)

theorem migrateBatch_hash {rows : List PgRow} :
    ∀ e ∈ (migrateBatch N ignoreUndefined none rows).1, e.hash ≠ .null := by
  intro e he
  rw [migrateBatch_links] at he
  obtain ⟨x, _, rfl⟩ := List.mem_map.mp he
  exact nofun

/-- The chain of migrated rows is accepted exactly when their ids are distinct. -/
theorem verifyEvents_migrated (hN : Digest.CollisionFree N.sha256) {env : Env} {limit : Nat} {rows : List PgRow}
    {records : List AuditEvent} (hp : records.Perm (migrateBatch N ignoreUndefined none rows).1) :
    ((verifyEvents N env limit records).valid = true ↔
      (rows.map fun row => row.eventId).Nodup ∧ (ignoreUndefined = false ∨ rows.take limit = [])) ∧
    ((verifyEvents N env limit records).valid = true →
      (verifyEvents N env limit records).checked = min limit rows.length) := by
  obtain ⟨hok, hbad⟩ := @verifyEvents_of_chain N env limit _ _ (migrateBatch_chain hN rows) migrateBatch_hash hp
  rw [migrateBatch_identities] at hok hbad
  by_cases hn : (rows.map fun row => row.eventId).Nodup
  · rw [hok hn, and_iff_right hn]
    refine ⟨?_, fun h => ?_⟩
    · rw [verifyEventSequence_valid_iff]
      cases ignoreUndefined with
      | false => exact iff_of_true (verified_take (@migrateBatch_verified N env none rows) limit) (.inl rfl)
      | true =>
        refine ⟨fun h => .inr (migrateBatch_undefined h), fun h => ?_⟩
        have hnil : (migrateBatch N true none rows).1.take limit = [] := by
          rw [List.take_eq_nil_iff] at h ⊢
          rcases h with h | h | h
          · cases h
          · exact .inl h
          · exact .inr (by rw [h]; rfl)
        rw [hnil]
        trivial
    · rw [verifyEventSequence_checked N env h, List.length_take, migrateBatch_length]
  · simp [hbad hn, hn]

end

/-! ## Only the default epoch -/

section
variable {ι : Type} {N : Node} {p : ι}

def defaultEpochs (ι : Type) : Spec ι (AuditDb ι) AuditOp AuditOp.Res where
  exec := AuditExec
  pre _ _ _ := True
  inv db := ∀ epoch ∈ db.epochs, epoch.epochId = DEFAULT_EPOCH_ID
  rely _ _ db db' := db' = db

theorem defaultEpochs_closed : (defaultEpochs ι).Closed where
  refl _ _ _ := rfl
  trans _ _ _ _ _ h h' := h'.trans h

theorem findsActive_default {db : AuditDb ι} (hd : ∀ epoch ∈ db.epochs, epoch.epochId = DEFAULT_EPOCH_ID)
    {r : Option AuditChainEpoch} (hf : FindsActive db r) : epochIdOf r = DEFAULT_EPOCH_ID := by
  cases r with
  | none => rfl
  | some activeEpoch => exact hd activeEpoch hf.1

theorem verifyChain_defaultEpoch {env : Env} {reader : EpochReader} {limit : Nat}
    {now : JsDate} {db db' : AuditDb ι}
    {result : ChainVerification} (hd : ∀ epoch ∈ db.epochs, epoch.epochId = DEFAULT_EPOCH_ID)
    (hx : Eval AuditExec p (verifyChain N env reader limit now) db (.ok result) db') :
    result.epochId = DEFAULT_EPOCH_ID := by
  have hread : Ok (defaultEpochs ι) p (fun activeEpoch _ => epochIdOf activeEpoch = DEFAULT_EPOCH_ID)
    (fun _ _ => True)
      (getActiveEpochRecord reader now) db := by
    refine Ok_op (fun _ _ _ _ => trivial) (fun _ _ _ _ => trivial) fun db₁ r db₂ _ hd _ hx => ?_
    obtain ⟨hf, rfl⟩ := hx
    refine ⟨hd, ?_⟩
    cases r with
    | some activeEpoch => exact findsActive_default hd hf
    | none =>
      refine Ok_op (fun _ _ _ _ => trivial) (fun _ _ _ _ => trivial) fun db₁ r db₂ _ hd _ hx => ?_
      rcases create_cases hx with ⟨rfl, _, rfl⟩ | ⟨rfl, _, rfl⟩
      · refine ⟨fun e he => ?_, rfl⟩
        rcases List.mem_append.mp he with h | h
        · exact hd e h
        · rw [List.mem_singleton.mp h]
          rfl
      · refine ⟨hd, Ok_op (k := .ret) (fun _ _ _ _ => trivial) (fun _ _ _ _ => trivial)
          fun db₁ r db₂ _ hd _ hx => ?_⟩
        obtain ⟨hf, rfl⟩ := hx
        exact ⟨hd, findsActive_default hd hf⟩
  have hok : Ok (defaultEpochs ι) p (fun result _ => result.epochId = DEFAULT_EPOCH_ID) (fun _ _ => True)
      (verifyChain N env reader limit now) db := by
    refine Ok_bind (fun activeEpoch db₁ _ h => ?_) _ db hd hread
    refine Ok_op (fun _ _ _ _ => trivial) (fun _ _ _ _ => trivial) fun db₂ r db₃ _ hd _ hx => ⟨by rwa [hx.2], ?_⟩
    exact Ok_op (fun _ _ _ _ => trivial) (fun _ _ _ _ => trivial) fun db₂ r db₃ _ hd _ hx => ⟨by rwa [hx.2], h⟩
  exact (Ok.eval defaultEpochs_closed (fun _ _ => trivial) hx hd hok).2.1 result rfl

/-! ## The migration as a whole -/

/-- The script succeeds, and whatever is said of the answers holds of every
answer of `verifyChain` over the events it stored, in any order. -/
def MigratesTo (N : Node) (env : Env) (ignoreUndefined : Bool) (limit : Nat)
    (order : Nat → List PgRow) (total : Nat) (answer : AuditChainVerificationResult → Prop) : Prop :=
  ∃ collection, migrate N ignoreUndefined order total [] = .ok collection ∧
    ∀ db : AuditDb Unit, (db.events.map Prod.snd).Perm collection →
      (∀ epoch ∈ db.epochs, epoch.epochId = DEFAULT_EPOCH_ID) → ∀ now : JsDate,
        (∃ result db', Eval AuditExec () (verifyChain N env .verify limit now) db (.ok result) db') ∧
          ∀ result db', Eval AuditExec () (verifyChain N env .verify limit now) db (.ok result) db' →
          answer result.chain

section
variable {env : Env} {ignoreUndefined : Bool} {limit : Nat} {order : Nat → List PgRow} {rows : List PgRow}

theorem migratesTo_iff (hN : Digest.CollisionFree N.sha256)
    (horder : ∀ offset, Paging.Arranged byTime (order offset) rows) :
    MigratesTo N env ignoreUndefined limit order rows.length fun chain =>
      (chain.valid = true ↔ ((migratedRows order rows.length).map fun row => row.eventId).Nodup ∧
        (ignoreUndefined = false ∨ (migratedRows order rows.length).take limit = [])) ∧
      (chain.valid = true → chain.checked = min limit (migratedRows order rows.length).length) := by
  refine ⟨_, migrate_eq hN fun offset => (horder offset).perm.length_eq, fun db hp hd now =>
    ⟨verifyChain_answers N env limit now db, fun result db' hx => ?_⟩⟩
  obtain ⟨records, hr, hc⟩ := verifyChain_reads hx
  rw [verifyChain_defaultEpoch hd hx] at hr
  have hall : db.epochEvents DEFAULT_EPOCH_ID = db.events.map Prod.snd := by
    refine List.filter_eq_self.mpr fun e he => ?_
    rw [inEpoch, (migrateBatch_epochs e (hp.subset he)).1]
    rfl
  rw [hall] at hr
  rw [hc]
  exact verifyEvents_migrated hN (hr.trans hp)

theorem MigratesTo.mono {total : Nat} {answer answer' : AuditChainVerificationResult → Prop}
    (h : MigratesTo N env ignoreUndefined limit order total answer) (himp : ∀ chain, answer chain → answer' chain) :
    MigratesTo N env ignoreUndefined limit order total answer' := by
  obtain ⟨collection, hm, hall⟩ := h
  refine ⟨collection, hm, fun db hp hd now => ⟨(hall db hp hd now).1, fun result db' hx => ?_⟩⟩
  exact himp _ ((hall db hp hd now).2 result db' hx)

/-! ## Every row once -/

theorem pages_length {n total : Nat} {σ : Nat → List PgRow} (hlen : ∀ k, (σ k).length = total) :
    (Paging.pages BATCH_SIZE n σ).length = min (n * BATCH_SIZE) total := by
  induction n with
  | zero => simp [Paging.pages]
  | succ n ih =>
    rw [Paging.pages_succ, List.length_append, ih, Paging.page, List.length_take,
      List.length_drop, hlen, Nat.succ_mul]
    omega

theorem migratedRows_length (horder : ∀ offset, Paging.Arranged byTime (order offset) rows) :
    (migratedRows order rows.length).length = rows.length := by
  rw [migratedRows, pages_length fun k => (horder _).perm.length_eq]
  exact Nat.min_eq_right (Paging.le_pageCount (by decide) rows.length)

theorem migratedRows_subset (horder : ∀ offset, Paging.Arranged byTime (order offset) rows) :
    migratedRows order rows.length ⊆ rows := by
  intro row hrow
  obtain ⟨k, _, hk⟩ := List.mem_flatMap.mp hrow
  exact (horder _).perm.subset (List.mem_of_mem_drop (List.mem_of_mem_take hk))

theorem migratedRows_perm_iff (horder : ∀ offset, Paging.Arranged byTime (order offset) rows)
    (hids : (rows.map fun row => row.eventId).Nodup) :
    ((migratedRows order rows.length).map fun row => row.eventId).Nodup ↔
    (migratedRows order rows.length).Perm rows := by
  constructor
  · intro hn
    have hsub := List.subperm_of_subset (List.Nodup.of_map _ hn) (migratedRows_subset horder)
    exact hsub.perm_of_length_le (by rw [migratedRows_length horder])
  · intro hp
    exact (hp.map _).nodup_iff.mpr hids

/-- After a migration the service accepts the chain exactly when the pages have
brought every row once; it has then checked them all. -/
theorem migration_verifies_iff (hN : Digest.CollisionFree N.sha256) (env : Env) (limit : Nat)
    (hids : (rows.map fun row => row.eventId).Nodup)
    (horder : ∀ offset, Paging.Arranged byTime (order offset) rows) :
    MigratesTo N env false limit order rows.length fun chain =>
      (chain.valid = true ↔ (migratedRows order rows.length).Perm rows) ∧
      (chain.valid = true → chain.checked = min limit rows.length) := by
  refine (migratesTo_iff hN horder).mono fun chain h => ?_
  rw [migratedRows_perm_iff horder hids, migratedRows_length horder] at h
  simpa using h

/-- The service accepts the migrated chain, however the database orders the rows of one timestamp
for each page, exactly when no such rows can be on different pages. -/
theorem migration_unsplit_iff (hN : Digest.CollisionFree N.sha256) (env : Env) (limit : Nat)
    (hids : (rows.map fun row => row.eventId).Nodup) :
    (∀ order : Nat → List PgRow, (∀ offset, Paging.Arranged byTime (order offset) rows) →
      MigratesTo N env false limit order rows.length fun chain =>
        chain.valid = true ∧ chain.checked = min limit rows.length) ↔ Paging.Unsplit byTime BATCH_SIZE rows := by
  rw [← Paging.pages_iff (by decide)]
  constructor
  · intro h σ hσ
    have hm := h (fun offset => σ (offset / BATCH_SIZE)) fun offset => hσ _
    obtain ⟨collection, hc, hall⟩ := hm
    obtain ⟨_, hc', hall'⟩ := migration_verifies_iff hN env limit hids fun offset => hσ (offset / BATCH_SIZE)
    obtain rfl := Except.ok.inj (hc.symm.trans hc')
    have hdb : (AuditDb.mk [] [] (collection.map fun e => ((), e))).events.map Prod.snd = collection := by simp
    obtain ⟨⟨result, db', hx⟩, hv⟩ := hall ⟨[], [], collection.map fun e => ((), e)⟩ (by rw [hdb])
      (fun _ he => absurd he List.not_mem_nil) ⟨0, by decide⟩
    have hiff := (hall' _ (by rw [hdb]) (fun _ he => absurd he List.not_mem_nil) ⟨0, by decide⟩).2 result db' hx
    have hp := hiff.1.mp (hv result db' hx).1
    simpa [migratedRows, BATCH_SIZE] using hp
  · intro h order horder
    refine (migration_verifies_iff hN env limit hids horder).mono fun chain hc => ?_
    have hv := hc.1.mpr (h (fun k => order (k * BATCH_SIZE)) fun k => horder _)
    exact ⟨hv, hc.2 hv⟩

end

end

/-! ## A table of two rows -/

def sampleRow (eventId : String) (column : Int) : PgRow where
  eventId := eventId
  timestamp := sampleTime
  actorId := "u-1"
  actorRoles := ["viewer"]
  action := "DOCUMENT_DOWNLOAD"
  resourceType := "DOCUMENT"
  resourceId := some "d-1"
  result := "SUCCESS"
  reason := none
  ip := some "10.0.0.7"
  traceId := none
  prevHash := none
  hash := ""
  column := column

def sampleRows : List PgRow := [sampleRow "e-1" 1, sampleRow "e-2" 2]

def sampleOrder : Nat → List PgRow := fun _ => sampleRows

theorem sampleRows_arranged (offset : Nat) : Paging.Arranged byTime (sampleOrder offset) sampleRows :=
  ⟨.refl _, show sampleRows.Pairwise byTime by decide⟩

theorem migration_verifies_sample :
    MigratesTo sampleNode noEnv false 1000 sampleOrder sampleRows.length fun chain =>
    (chain.valid = true ↔ (migratedRows sampleOrder sampleRows.length).Perm sampleRows) ∧
    (chain.valid = true → chain.checked = min 1000 sampleRows.length) :=
  migration_verifies_iff sampleNode_collisionFree noEnv 1000 (by decide) sampleRows_arranged

/-- Two pages of rows; only the last two rows, which are on the second page, have one timestamp. -/
def pagedRow (k : Nat) : PgRow := sampleRow (String.ofList (List.replicate k 'e')) (min (k : Int) 500)

def pagedRows : List PgRow := (List.range 502).map pagedRow

theorem pagedRows_nodup : (pagedRows.map fun row => row.eventId).Nodup := by
  rw [pagedRows, List.map_map]
  refine List.nodup_range.map fun j k h => ?_
  simpa using congrArg String.length
    (show String.ofList (List.replicate j 'e') = String.ofList (List.replicate k 'e') from h)

theorem pagedRows_unsplit : Paging.Unsplit byTime BATCH_SIZE pagedRows := by
  intro a ha b hb hab hba hne
  obtain ⟨j, -, rfl⟩ := List.mem_map.mp ha
  obtain ⟨k, -, rfl⟩ := List.mem_map.mp hb
  have hcolumn : min (j : Int) 500 = min (k : Int) 500 := Int.le_antisymm hab hba
  have hlast : (pagedRow j).column = 500 := by
    have hjk : j ≠ k := fun h => hne (congrArg pagedRow h)
    show min (j : Int) 500 = 500
    omega
  have hahead : Paging.ahead byTime pagedRows (pagedRow j) = 500 := by
    simp only [Paging.ahead, byTime, hlast]
    decide +kernel
  have hupTo : Paging.upTo byTime pagedRows (pagedRow j) = 502 := by
    simp only [Paging.upTo, byTime, hlast]
    decide +kernel
  rw [hahead, hupTo]
  rfl

theorem migration_unsplit_sample : Paging.Unsplit byTime BATCH_SIZE pagedRows ∧
    ((∀ order : Nat → List PgRow, (∀ offset, Paging.Arranged byTime (order offset) pagedRows) →
      MigratesTo sampleNode noEnv false 1000 order pagedRows.length fun chain =>
        chain.valid = true ∧ chain.checked = min 1000 pagedRows.length) ↔
      Paging.Unsplit byTime BATCH_SIZE pagedRows) :=
  ⟨pagedRows_unsplit, migration_unsplit_iff sampleNode_collisionFree noEnv 1000 pagedRows_nodup⟩

end MigrateToMongo

end DocVault
