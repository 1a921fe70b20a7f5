import DocVault.AppendVerify
import Mathlib.Data.Fintype.Basic

/-!
# Active and closed epochs

Sealing reads, marks and creates in separate steps. No second epoch becomes
active as long as no seal creates its epoch while another one is between its
look at the active epoch and its own creation. No event is inserted into an
epoch that is not active as long as no epoch is marked under a writer that has
resolved it and no writer falls back to the default epoch when none is active.
-/

namespace DocVault

open Interleave

section
variable {ι : Type} {N : Node} {p : ι} {α : Type}

def AuditDb.active (db : AuditDb ι) : List AuditChainEpoch := db.epochs.filter (·.status = .ACTIVE)

-- The instances at the start, over a store that may hold events already.
def startOn (N : Node) (tasks : ι → Task) (db : AuditDb ι) :
    Config ι (AuditDb ι) AuditOp AuditOp.Res AuditError Outcome := ⟨db, fun p => (tasks p).prog N⟩

/-! ## One active epoch -/

def Task.isSeal : Task → Bool
  | .sealChain _ _ => true
  | _ => false

/-- The operations of a seal from the one after its look at the active epoch to the creation of the next epoch. -/
def AuditOp.seals : AuditOp → Bool
  | .loadEpochEvents _ .all | .findCompromisedEpochs | .createIncident _ | .markCompromised _ _ => true
  | .createEpoch epoch => epoch.genesisReason = .COMPROMISE_RECOVERY
  | _ => false

abbrev AuditConfig (ι : Type) : Type := Config ι (AuditDb ι) AuditOp AuditOp.Res AuditError Outcome

/-- The process has looked at the active epoch for a seal and has not created the next epoch yet. -/
def Sealing (tasks : ι → Task) (c : AuditConfig ι) (p : ι) : Prop :=
  (tasks p).isSeal = true ∧ (c.procs p).next.any AuditOp.seals = true

/-- No seal creates its epoch while another one is between its look at the active epoch and its own creation. -/
def SealsApart (tasks : ι → Task) (c : AuditConfig ι) (p : ι) : AuditOp → Prop
  | .createEpoch epoch => epoch.genesisReason = .COMPROMISE_RECOVERY → ∀ q, q ≠ p → ¬Sealing tasks c q
  | _ => True

def HasDefault (db : AuditDb ι) : Prop := ∃ e ∈ db.epochs, e.epochId = DEFAULT_EPOCH_ID

-- Epochs other than the default one come after it.
structure OneActive (db : AuditDb ι) : Prop where
  default : db.epochs = [] ∨ HasDefault db
  single : db.active.length ≤ 1

def NoneActive (db : AuditDb ι) : Prop := ∀ e ∈ db.epochs, e.status ≠ .ACTIVE

def OnlyActive (db : AuditDb ι) (epochId : String) : Prop :=
  ∀ e ∈ db.epochs, e.status = .ACTIVE → e.epochId = epochId

def NoneOpened (db db' : AuditDb ι) : Prop :=
  ∀ e' ∈ db'.epochs, e'.status = .ACTIVE → ∃ e ∈ db.epochs, e.status = .ACTIVE ∧ e.epochId = e'.epochId

/-- An epoch is created as the first one of all, or as a recovery epoch when none is active. -/
def Creates (db : AuditDb ι) : AuditOp → Prop
  | .createEpoch epoch => epoch.epochId = DEFAULT_EPOCH_ID ∨
      HasDefault db ∧ epoch.genesisReason = .COMPROMISE_RECOVERY ∧ NoneActive db
  | _ => True

def oneSpec (tasks : ι → Task) : Spec ι (AuditDb ι) AuditOp AuditOp.Res where
  exec := AuditExec
  pre _ _ _ := True
  inv := OneActive
  rely p o db db' := (HasDefault db → HasDefault db') ∧
    ((tasks p).isSeal = true → o.any AuditOp.seals = true → HasDefault db → NoneOpened db db')
  guar _ := Creates

theorem noneOpened_trans {db db' db'' : AuditDb ι} (h : NoneOpened db db') (h' : NoneOpened db' db'') :
    NoneOpened db db'' := by
  intro e'' hm hs
  obtain ⟨e', hm', hs', hid'⟩ := h' e'' hm hs
  obtain ⟨e, hm, hs, hid⟩ := h e' hm' hs'
  exact ⟨e, hm, hs, hid.trans hid'⟩

variable {tasks : ι → Task}

theorem oneSpec_closed : (oneSpec tasks).Closed where
  refl _ _ _ := ⟨id, fun _ _ _ e hm hs => ⟨e, hm, hs, rfl⟩⟩
  trans _ _ _ _ _ h h' := ⟨h'.1 ∘ h.1, fun ht ho hd => noneOpened_trans (h.2 ht ho hd) (h'.2 ht ho (h.1 hd))⟩

theorem mark_ids (db : AuditDb ι) (epochId : String) (fields : CompromiseFields) :
    (db.mark epochId fields).epochs.map (·.epochId) = db.epochs.map (·.epochId) := by
  simp only [AuditDb.mark, List.map_map]
  refine List.map_congr_left fun e _ => ?_
  rw [Function.comp_apply]
  split <;> rfl

theorem hasDefault_iff (db : AuditDb ι) : HasDefault db ↔ DEFAULT_EPOCH_ID ∈ db.epochs.map (·.epochId) := by
  simp [HasDefault]

theorem exec_ids {db db' : AuditDb ι} {o : AuditOp} {r : o.Res} (h : AuditExec p db o r db') :
    db.epochs.map (·.epochId) <+: db'.epochs.map (·.epochId) := by
  rcases exec_epochs h with he | ⟨epoch, _, _, rfl⟩ | ⟨epochId, fields, _, rfl⟩
  · exact ⟨[], by rw [List.append_nil, he]⟩
  · exact ⟨[epoch.epochId], by rw [List.map_append]; rfl⟩
  · exact ⟨[], by rw [List.append_nil, mark_ids]⟩

theorem exec_hasDefault {db db' : AuditDb ι} {o : AuditOp} {r : o.Res} (h : AuditExec p db o r db')
    (hd : HasDefault db) : HasDefault db' := by
  rw [hasDefault_iff] at hd ⊢
  exact (exec_ids h).subset hd

theorem mark_active_length (db : AuditDb ι) (epochId : String) (fields : CompromiseFields) :
    (db.mark epochId fields).active.length ≤ db.active.length := by
  simp only [AuditDb.active, AuditDb.mark, List.filter_map, List.length_map]
  refine (List.monotone_filter_right db.epochs fun e he => ?_).length_le
  rw [Function.comp_apply] at he
  split at he
  · simp [CompromiseFields.set] at he
  · exact he

theorem mark_active {db : AuditDb ι} {epochId : String} {fields : CompromiseFields} {e : AuditChainEpoch}
    (hm : e ∈ (db.mark epochId fields).epochs) (hs : e.status = .ACTIVE) : e ∈ db.epochs ∧ e.epochId ≠ epochId := by
  obtain ⟨e₀, hm₀, rfl⟩ := List.mem_map.mp hm
  split at hs
  · cases hs
  · rename_i hne
    rw [if_neg hne]
    exact ⟨hm₀, hne⟩

theorem mark_only {db : AuditDb ι} {epochId : String} (h : OnlyActive db epochId) (fields : CompromiseFields) :
    NoneActive (db.mark epochId fields) := by
  intro e hm hs
  obtain ⟨hm₀, hne⟩ := mark_active hm hs
  exact hne (h e hm₀ hs)

theorem finds_only {db : AuditDb ι} (hi : OneActive db) {activeEpoch : Option AuditChainEpoch}
    (hf : FindsActive db activeEpoch) : OnlyActive db (epochIdOf activeEpoch) := by
  intro e hm hs
  cases activeEpoch with
  | none => exact absurd hs (hf e hm)
  | some active =>
    have hin : e ∈ db.active := List.mem_filter.mpr ⟨hm, by simpa using hs⟩
    have hin' : active ∈ db.active := List.mem_filter.mpr ⟨hf.1, by simpa using hf.2.1⟩
    obtain ⟨first, hone⟩ := List.length_eq_one_iff.mp (Nat.le_antisymm hi.single (List.length_pos_of_mem hin))
    rw [hone, List.mem_singleton] at hin hin'
    rw [hin, ← hin']
    rfl

theorem OneActive.step {db db' : AuditDb ι} {o : AuditOp} {r : o.Res} (hi : OneActive db) (ho : Creates db o)
    (h : AuditExec p db o r db') : OneActive db' := by
  rcases exec_epochs h with he | ⟨epoch, rfl, hnew, rfl⟩ | ⟨epochId, fields, rfl, rfl⟩
  · have hid : HasDefault db' ↔ HasDefault db := by unfold HasDefault; rw [he]
    exact ⟨by rw [he, hid]; exact hi.default, by unfold AuditDb.active; rw [he]; exact hi.single⟩
  · rcases ho with hdef | ⟨hd, _, hnone⟩
    · have hempty : db.epochs = [] := hi.default.resolve_right fun ⟨e, he, hid⟩ => hnew e he (hid.trans hdef.symm)
      refine ⟨.inr ⟨epoch, List.mem_append_right _ (List.mem_singleton.mpr rfl), hdef⟩, ?_⟩
      unfold AuditDb.active
      simp only [hempty, List.nil_append]
      exact List.length_filter_le _ _
    · refine ⟨.inr (exec_hasDefault h hd), ?_⟩
      have hfilter : db.epochs.filter (·.status = .ACTIVE) = [] :=
        List.filter_eq_nil_iff.mpr fun e he hs => hnone e he (by simpa using hs)
      unfold AuditDb.active
      rw [List.filter_append, hfilter, List.nil_append]
      exact List.length_filter_le _ _
  · refine ⟨?_, Nat.le_trans (mark_active_length db epochId fields) hi.single⟩
    rcases hi.default with hempty | hd
    · exact .inl (by simp [AuditDb.mark, hempty])
    · exact .inr (exec_hasDefault h hd)

/-- Only the creation of a recovery epoch makes an epoch active once there is the default one. -/
theorem exec_opens {db db' : AuditDb ι} {o : AuditOp} {r : o.Res} (hd : HasDefault db) (ho : Creates db o)
    (hn : ∀ epoch, o = .createEpoch epoch → epoch.genesisReason ≠ .COMPROMISE_RECOVERY)
    (h : AuditExec p db o r db') : NoneOpened db db' := by
  intro e hm hs
  rcases exec_epochs h with he | ⟨epoch, rfl, hnew, rfl⟩ | ⟨epochId, fields, rfl, rfl⟩
  · exact ⟨e, he ▸ hm, hs, rfl⟩
  · rcases ho with hdef | ⟨_, hrec, _⟩
    · obtain ⟨e₀, hm₀, hid⟩ := hd
      exact absurd (hid.trans hdef.symm) (hnew e₀ hm₀)
    · exact absurd hrec (hn epoch rfl)
  · exact ⟨e, (mark_active hm hs).1, hs, rfl⟩

theorem ok_one {Q : α → AuditDb ι → Prop} {o : AuditOp} {k : o.Res → AuditM α} {db : AuditDb ι}
    (hk : ∀ r db' db'', (oneSpec tasks).rely p (some o) db db' → OneActive db' → OneActive db'' →
      AuditExec p db' o r db'' → Ok (oneSpec tasks) p Q (fun _ _ => True) (k r) db'')
    (ho : ∀ db' : AuditDb ι, (oneSpec tasks).rely p (some o) db db' → Creates db' o := by intro _ _; trivial) :
    Ok (oneSpec tasks) p Q (fun _ _ => True) (Prog.op o >>= k) db := by
  refine Ok_op (fun db' hr _ _ => ho db' hr) (fun _ _ _ _ => trivial) fun db' r db'' hr hi _ hx => ?_
  have hi' : OneActive db'' := OneActive.step hi (ho db' hr) hx
  exact ⟨hi', hk r db' db'' hr hi hi' hx⟩

theorem uses_one {U : AuditOp → Prop} (hU : ∀ o (db : AuditDb ι), U o → Creates db o) {m : AuditM α} (hm : m.Uses U)
    (db : AuditDb ι) : Ok (oneSpec tasks) p (fun _ _ => True) (fun _ _ => True) m db := by
  refine Ok_uses (J := fun _ => True) (fun _ _ _ _ _ _ _ => trivial)
    (fun o db ho _ _ _ => hU o db ho) ?_ m db hm trivial
  intro o db r db' ho hi _ _ hx
  exact ⟨OneActive.step hi (hU o db ho) hx, trivial⟩

theorem Reads.creates {reader : EpochReader} {now : JsDate} (o : AuditOp) (db : AuditDb ι)
    (h : Reads reader now o) : Creates db o := by
  cases o with
  | createEpoch epoch => exact .inl (congrArg AuditChainEpoch.epochId h)
  | _ => trivial

theorem Appends.creates {epochId : String} (o : AuditOp) (db : AuditDb ι) (h : Appends epochId o) :
    Creates db o := by
  cases o with
  | createEpoch epoch => exact absurd h id
  | _ => trivial

theorem getActiveEpochRecord_only (reader : EpochReader) (now : JsDate) (db : AuditDb ι) :
    Ok (oneSpec tasks) p (fun activeEpoch db => HasDefault db ∧ OnlyActive db (epochIdOf activeEpoch))
      (fun _ _ => True) (getActiveEpochRecord reader now) db := by
  refine ok_one fun r db' db₁ _ hi _ hx => ?_
  obtain ⟨hf, rfl⟩ := hx
  cases r with
  | some activeEpoch =>
    refine ⟨hi.default.resolve_left fun h => ?_, finds_only hi hf⟩
    rw [FindsActive, h] at hf
    exact absurd hf.1 List.not_mem_nil
  | none =>
    refine ok_one (fun r db' db₂ _ hi hi' hx => ?_) fun _ _ => .inl rfl
    rcases create_cases hx with ⟨rfl, hnew, rfl⟩ | ⟨rfl, hdup, rfl⟩
    · have hd : HasDefault { db' with epochs := db'.epochs ++ [initialEpoch now] } :=
        ⟨_, List.mem_append_right _ (List.mem_singleton.mpr rfl), rfl⟩
      have hempty : db'.epochs = [] := hi.default.resolve_right fun ⟨e, he, hid⟩ => hnew e he hid
      refine ⟨hd, fun e hm _ => ?_⟩
      rw [hempty, List.nil_append] at hm
      rw [List.mem_singleton.mp hm]
      rfl
    · refine ok_one (k := .ret) fun r db' db₃ hr hi _ hx => ?_
      obtain ⟨hf, rfl⟩ := hx
      exact ⟨hr.1 hdup, finds_only hi hf⟩

theorem appendEvent_one (env : Env) (call : CreateCall) {db : AuditDb ι} (hi : OneActive db) :
    Ok (oneSpec tasks) p (fun _ _ => True) (fun _ _ => True) (appendEvent N env call) db := by
  have hread : Ok (oneSpec tasks) p (fun _ _ => True) (fun _ _ => True) (getActiveEpochId call.epochNow) db := by
    refine Ok_bind (fun _ _ _ _ => ?_) _ db hi (getActiveEpochRecord_only .append call.epochNow db)
    trivial
  refine Ok_bind (fun epochId db' _ _ => ?_) _ db hi hread
  cases call.eventTimestamp N with
  | none => trivial
  | some eventTimestamp =>
    exact uses_one Appends.creates (appendAttempts_uses N _ epochId call.eventId eventTimestamp call.dto _) db'

theorem verifyChain_only (hs : (tasks p).isSeal = true) (env : Env) (limit : Nat) (now : JsDate) {db : AuditDb ι}
    (hi : OneActive db) :
    Ok (oneSpec tasks) p (fun verification db => HasDefault db ∧ OnlyActive db verification.epochId)
      (fun _ _ => True) (verifyChain N env .sealChain limit now) db := by
  refine Ok_bind (fun activeEpoch db _ hread => ?_) _ db hi (getActiveEpochRecord_only .sealChain now db)
  refine ok_one fun events db₁ db₂ hr _ _ hx => ?_
  obtain ⟨_, rfl⟩ := hx
  refine ok_one fun compromisedEpochs db₃ db₄ hr' _ _ hx => ?_
  obtain ⟨_, rfl⟩ := hx
  refine ⟨hr'.1 (hr.1 hread.1), fun e hm hact => ?_⟩
  obtain ⟨e₁, hm₁, hact₁, hid₁⟩ := hr'.2 hs rfl (hr.1 hread.1) e hm hact
  obtain ⟨e₀, hm₀, hact₀, hid₀⟩ := hr.2 hs rfl hread.1 e₁ hm₁ hact₁
  rw [← hid₁, ← hid₀]
  exact hread.2 e₀ hm₀ hact₀

theorem sealChain_one (hs : (tasks p).isSeal = true) (env : Env) (call : SealCall)
    {db : AuditDb ι} (hi : OneActive db) :
    Ok (oneSpec tasks) p (fun _ _ => True) (fun _ _ => True) (sealCompromisedChainAndStartEpoch N env call) db := by
  refine Ok_bind (fun _ db hi _ => ?_) _ db hi (getActiveEpochRecord_only .sealChain call.epochNow db)
  refine Ok_bind (fun verification db hi hv => ?_) _ db hi (verifyChain_only hs env 5000 call.epochNow hi)
  by_cases hvalid : verification.chain.valid = true
  · rw [if_pos hvalid]; trivial
  · rw [if_neg hvalid]
    refine ok_one fun r db₁ db₂ hr _ _ hx => ?_
    have hsame : db₂.epochs = db₁.epochs := (report_cases hx).1
    cases r with
    | duplicateKey => trivial
    | saved =>
      refine ok_one fun r db₃ db₄ hr' _ _ hx => ?_
      have hmark : db₄ = db₃.mark verification.epochId (call.fields verification.chain) := hx
      have hd₂ : HasDefault db₂ := by
        unfold HasDefault
        rw [hsame]
        exact hr.1 hv.1
      -- what was active when the chain was verified is so no longer
      have honly : OnlyActive db₃ verification.epochId := by
        intro e hm hact
        obtain ⟨e₁, hm₁, hact₁, hid₁⟩ := hr'.2 hs rfl hd₂ e hm hact
        obtain ⟨e₀, hm₀, hact₀, hid₀⟩ := hr.2 hs rfl hv.1 e₁ (hsame ▸ hm₁) hact₁
        rw [← hid₁, ← hid₀]
        exact hv.2 e₀ hm₀ hact₀
      have hd₄ : HasDefault db₄ := exec_hasDefault hx (hr'.1 hd₂)
      have hnone : NoneActive db₄ := by
        rw [hmark]
        exact mark_only honly _
      refine ok_one (fun r _ db₅ _ _ hi _ => ?_) fun db' h => .inr ⟨h.1 hd₄, rfl, fun e hm hact => ?_⟩
      · cases r with
        | duplicateKey => trivial
        | saved =>
          refine Ok_bind (fun _ _ _ _ => ?_) _ db₅ hi (appendEvent_one env _ hi)
          trivial
      · obtain ⟨e₀, hm₀, hact₀, _⟩ := h.2 hs rfl hd₄ e hm hact
        exact hnone e₀ hm₀ hact₀

theorem task_one (t : Task) (ht : tasks p = t) {db : AuditDb ι} (hi : OneActive db) :
    Ok (oneSpec tasks) p (fun _ _ => True) (fun _ _ => True) (t.prog N) db := by
  cases t with
  | create env call =>
    refine Ok_bind (fun _ _ _ _ => ?_) _ db hi (appendEvent_one env call hi)
    trivial
  | verify env limit now =>
    refine Ok_bind (fun _ _ _ _ => ?_) _ db hi
      (uses_one Reads.creates (verifyChain_uses N env .verify limit now) db)
    trivial
  | sealChain env call =>
    have hs : (tasks p).isSeal = true := by rw [ht]; rfl
    refine Ok_bind (fun _ _ _ _ => ?_) _ db hi (sealChain_one hs env call hi)
    trivial

variable [DecidableEq ι]

/-- As long as no seal creates its epoch while another one is under way, at most one epoch is active: a seal closes
the one it has found before it creates the next. -/
theorem one_active_epoch {db : AuditDb ι} (h₀ : db.epochs = []) {c : AuditConfig ι}
    (hr : Reach AuditExec (SealsApart tasks) (startOn N tasks db) c) : c.store.active.length ≤ 1 := by
  have hi : OneActive db := ⟨.inl h₀, by simp [AuditDb.active, h₀]⟩
  have hok := Reach.ok (S := oneSpec tasks) (Q := fun _ _ _ => True) (E := fun _ _ _ => True) hr oneSpec_closed hi
    (fun p => task_one (tasks p) rfl hi) (fun _ _ _ _ => trivial) (fun _ _ _ _ _ _ _ => trivial)
    (fun _ _ _ _ _ _ _ => trivial) ?_
  · exact hok.1.single
  · intro c p q o k r db' _ _ hx hc hcreates hpq
    refine ⟨exec_hasDefault hx, fun hs ho hd => exec_opens hd hcreates (fun epoch he hrec => ?_) hx⟩
    subst he
    exact hc hrec p hpq ⟨hs, ho⟩

end

instance {ι : Type} (tasks : ι → Task) (c : AuditConfig ι) (p : ι) : Decidable (Sealing tasks c p) :=
  inferInstanceAs (Decidable (_ ∧ _))

instance {ι : Type} [Fintype ι] [DecidableEq ι] (tasks : ι → Task) (c : AuditConfig ι) (p : ι) :
    DecidablePred (SealsApart tasks c p)
  | .createEpoch epoch => inferInstanceAs (Decidable (epoch.genesisReason = .COMPROMISE_RECOVERY →
      ∀ q, q ≠ p → ¬Sealing tasks c q))
  | .findActiveEpoch _ | .findActiveEpochAgain _ | .loadEpochEvents _ _ | .insertEvent _ | .createIncident _
  | .markCompromised _ _ | .findCompromisedEpochs => isTrue trivial

/-! Records from before epochs, with one id twice, and two instances that seal for them. -/

def brokenDigests : List (String × String) :=
  repeatedDigests ++ [("09c8670c2ba36106681c0ff522aa10b43a75258ef36780832cc5f89ae42fcc25" ++ "|" ++
    buildCanonicalPayload (appendFields "e-2" sampleTime downloadDto),
    "c80a95772090f779cba2ad20eba6dab62ec20ed4953053bd7c7da604ee0c0e26")]

def brokenNode : Node := { sampleNode with sha256 := Digest.ofTable brokenDigests }

def brokenDb : AuditDb Bool where
  epochs := []
  incidents := []
  events :=
    [(true, appendRecord brokenNode none "default" "e-1" sampleTime downloadDto none),
      (true, appendRecord brokenNode none "default" "e-1" sampleTime downloadDto (some sampleHash₁))]

def recovery (uuid : String) : SealCall where
  reason := "duplicate event"
  viewer := { actorId := some "u-9", roles := some ["admin"], ip := none, traceId := none }
  incidentUuid := uuid
  epochUuid := uuid
  eventUuid := uuid
  now := sampleTime
  epochNow := sampleTime

def twoSeals (p : Bool) : Task := .sealChain noEnv (recovery (if p then "u-1" else "u-2"))

-- The second seal starts while the first one verifies, and looks at the active epoch when
-- that one has created its own.
theorem one_active_epoch_sample : (schedule auditRun (startOn brokenNode twoSeals brokenDb)
    ([true, true, false] ++ List.replicate 6 true ++ List.replicate 3 false)).store.active.length ≤ 1 :=
  one_active_epoch rfl (Reach.schedule auditRun_exec _ _ .refl (meets_iff _ _ (by decide +kernel)))

-- Both instances verify before either marks the default epoch.
def twoActive : Config Bool (AuditDb Bool) AuditOp AuditOp.Res AuditError Outcome :=
  schedule auditRun (startOn brokenNode twoSeals brokenDb)
    (List.replicate 5 true ++ List.replicate 4 false ++ List.replicate 3 true ++ List.replicate 3 false)

theorem two_active_epochs :
    ¬ ∀ (N : Node) (tasks : Bool → Task) (db : AuditDb Bool)
      (c : Config Bool (AuditDb Bool) AuditOp AuditOp.Res AuditError Outcome), db.epochs = [] →
      Reach AuditExec (fun _ _ _ => True) (startOn N tasks db) c → c.store.active.length ≤ 1 := by
  intro h
  have hr : Reach AuditExec (fun _ _ _ => True) (startOn brokenNode twoSeals brokenDb) twoActive :=
    Reach.schedule auditRun_exec _ _ .refl (meets_true _ _)
  have hle := h brokenNode twoSeals brokenDb twoActive rfl hr
  have hlen : twoActive.store.active.length = 2 := by decide +kernel
  omega

/-! ## Closed epochs -/

section
variable {ι : Type} {N : Node} {p : ι} {α : Type}

def Active (db : AuditDb ι) (epochId : String) : Prop := ∃ e ∈ db.epochs, e.epochId = epochId ∧ e.status = .ACTIVE

/-- No epoch is marked while another process is about to read or extend its
chain, and no writer falls back to the default epoch for want of an active one. -/
def Closes (c : Config ι (AuditDb ι) AuditOp AuditOp.Res AuditError Outcome) (p : ι) : AuditOp → Prop
  | .markCompromised epochId _ => ∀ q, q ≠ p → ∀ o, (c.procs q).next = some o → ¬ Appends epochId o
  | .findActiveEpochAgain .append => ∃ e ∈ c.store.epochs, e.status = .ACTIVE
  | _ => True

def UniqueIds (db : AuditDb ι) : Prop := (db.epochs.map (·.epochId)).Nodup

def closedSpec (ι : Type) : Spec ι (AuditDb ι) AuditOp AuditOp.Res where
  exec := AuditExec
  pre _ db o := o = .findActiveEpochAgain .append → ∃ e ∈ db.epochs, e.status = .ACTIVE
  inv := UniqueIds
  rely _ o db db' := ∀ epochId, (∃ o', o = some o' ∧ Appends epochId o') → Active db epochId → Active db' epochId
  guar _ db o := ∀ event, o = .insertEvent event → ∃ epochId, event.epochId = some epochId ∧ Active db epochId

theorem closedSpec_closed : (closedSpec ι).Closed where
  refl _ _ _ _ _ h := h
  trans _ _ _ _ _ h h' epochId ho ha := h' epochId ho (h epochId ho ha)

theorem exec_unique {db db' : AuditDb ι} {o : AuditOp} {r : o.Res}
    (h : AuditExec p db o r db') (hi : UniqueIds db) : UniqueIds db' := by
  unfold UniqueIds at hi ⊢
  rcases exec_epochs h with he | ⟨epoch, _, hnew, rfl⟩ | ⟨epochId, fields, _, rfl⟩
  · rw [he]; exact hi
  · rw [List.map_append, List.nodup_append]
    refine ⟨hi, List.nodup_singleton _, fun a ha b hb => ?_⟩
    obtain ⟨e, he, rfl⟩ := List.mem_map.mp ha
    rw [List.mem_singleton.mp hb]
    exact hnew e he
  · rw [mark_ids]; exact hi

theorem exec_active {db db' : AuditDb ι} {o : AuditOp} {r : o.Res} (h : AuditExec p db o r db') {epochId : String}
    (ho : ∀ fields, o ≠ .markCompromised epochId fields) (ha : Active db epochId) : Active db' epochId := by
  obtain ⟨e, he, hid, hs⟩ := ha
  rcases exec_epochs h with heq | ⟨epoch, _, _, rfl⟩ | ⟨other, fields, rfl, rfl⟩
  · exact ⟨e, heq ▸ he, hid, hs⟩
  · exact ⟨e, List.mem_append_left _ he, hid, hs⟩
  · have hne : e.epochId ≠ other := fun heq => ho fields (by rw [← hid, heq])
    exact ⟨e, List.mem_map.mpr ⟨e, he, if_neg hne⟩, hid, hs⟩

theorem finds_active {db : AuditDb ι} {activeEpoch : Option AuditChainEpoch} (hf : FindsActive db activeEpoch)
    (ha : ∃ e ∈ db.epochs, e.status = .ACTIVE) : Active db (epochIdOf activeEpoch) := by
  cases activeEpoch with
  | some e => exact ⟨e, hf.1, rfl, hf.2.1⟩
  | none =>
    obtain ⟨e, he, hs⟩ := ha
    exact absurd hs (hf e he)

theorem ok_closed {Q : α → AuditDb ι → Prop} {o : AuditOp} {k : o.Res → AuditM α} {db : AuditDb ι}
    (hk : ∀ r db' db'', (closedSpec ι).pre p db' o → UniqueIds db'' → AuditExec p db' o r db'' →
      Ok (closedSpec ι) p Q (fun _ _ => True) (k r) db'')
    (ho : o.inserts = false := by rfl) : Ok (closedSpec ι) p Q (fun _ _ => True) (Prog.op o >>= k) db := by
  refine Ok_op (fun _ _ _ _ event he => ?_) (fun _ _ _ _ => trivial) fun db' r db'' _ hi hp hx => ?_
  · rw [he] at ho; cases ho
  · exact ⟨exec_unique hx hi, hk r db' db'' hp (exec_unique hx hi) hx⟩

theorem getActiveEpochRecord_active (now : JsDate) (db : AuditDb ι) :
    Ok (closedSpec ι) p (fun activeEpoch db => Active db (epochIdOf activeEpoch)) (fun _ _ => True)
      (getActiveEpochRecord .append now) db := by
  refine ok_closed fun r db' db₁ _ _ hx => ?_
  cases r with
  | some activeEpoch =>
    obtain ⟨hf, rfl⟩ := hx
    exact ⟨activeEpoch, hf.1, rfl, hf.2.1⟩
  | none =>
    refine ok_closed fun r db' db₂ _ _ hx => ?_
    rcases create_cases hx with ⟨rfl, _, rfl⟩ | ⟨rfl, _, rfl⟩
    · exact ⟨_, List.mem_append_right _ (List.mem_singleton.mpr rfl), rfl, rfl⟩
    · refine ok_closed (k := .ret) fun r db' db₃ hp _ hx => ?_
      obtain ⟨hf, rfl⟩ := hx
      exact finds_active hf (hp rfl)

theorem appendEvent_active (env : Env) (call : CreateCall) {db : AuditDb ι} (hi : UniqueIds db) :
    Ok (closedSpec ι) p (fun _ _ => True) (fun _ _ => True) (appendEvent N env call) db := by
  have hread : Ok (closedSpec ι) p (fun epochId db => Active db epochId) (fun _ _ => True)
      (getActiveEpochId call.epochNow) db := by
    refine Ok_bind (fun _ _ _ h => ?_) _ db hi (getActiveEpochRecord_active call.epochNow db)
    exact h
  refine Ok_bind (fun epochId db' _ ha => ?_) _ db hi hread
  cases call.eventTimestamp N with
  | none => trivial
  | some eventTimestamp =>
    refine Ok_mono (fun _ _ _ => trivial) (fun _ _ _ => trivial) _ db'
      (Ok_uses (J := fun db => Active db epochId) ?_ ?_ ?_
      _ db' (appendAttempts_uses N _ epochId call.eventId eventTimestamp call.dto _) ha)
    · intro o db db' ho ha hr _
      exact hr epochId ⟨o, rfl, ho⟩ ha
    · intro o db ho _ ha _ event he
      exact ⟨epochId, by rw [he] at ho; exact ho, ha⟩
    · intro o db r db' ho hi ha _ hx
      refine ⟨exec_unique hx hi, exec_active hx (fun fields he => ?_) ha⟩
      rw [he] at ho
      exact ho

theorem reads_closed {reader : EpochReader} {now : JsDate} {m : AuditM α}
    (hm : m.Uses (Reads reader now)) (db : AuditDb ι) :
    Ok (closedSpec ι) p (fun _ _ => True) (fun _ _ => True) m db := by
  refine Ok_uses (fun _ _ _ _ _ _ _ => trivial) ?_ ?_ m db hm trivial
  · intro o db ho _ _ _ event he
    rw [he] at ho
    exact absurd ho id
  · exact fun o db r db' _ hi _ _ hx => ⟨exec_unique hx hi, trivial⟩

theorem sealChain_active (env : Env) (call : SealCall) {db : AuditDb ι} (hi : UniqueIds db) :
    Ok (closedSpec ι) p (fun _ _ => True) (fun _ _ => True) (sealCompromisedChainAndStartEpoch N env call) db := by
  refine Ok_bind (fun _ db hi _ => ?_) _ db hi
    (reads_closed (getActiveEpochRecord_uses .sealChain call.epochNow) db)
  refine Ok_bind (fun verification db hi _ => ?_) _ db hi
    (reads_closed (verifyChain_uses N env .sealChain 5000 call.epochNow) db)
  by_cases hvalid : verification.chain.valid = true
  · rw [if_pos hvalid]; trivial
  · rw [if_neg hvalid]
    refine ok_closed fun r _ _ _ _ _ => ?_
    cases r with
    | duplicateKey => trivial
    | saved =>
      refine ok_closed fun r _ _ _ _ _ => ?_
      refine ok_closed fun r _ db' _ hi _ => ?_
      cases r with
      | duplicateKey => trivial
      | saved =>
        refine Ok_bind (fun _ _ _ _ => ?_) _ db' hi (appendEvent_active env _ hi)
        trivial

theorem task_active (t : Task) {db : AuditDb ι} (hi : UniqueIds db) :
    Ok (closedSpec ι) p (fun _ _ => True) (fun _ _ => True) (t.prog N) db := by
  cases t with
  | create env call =>
    refine Ok_bind (fun _ _ _ _ => ?_) _ db hi (appendEvent_active env call hi)
    trivial
  | verify env limit now =>
    refine Ok_bind (fun _ _ _ _ => ?_) _ db hi (reads_closed (verifyChain_uses N env .verify limit now) db)
    trivial
  | sealChain env call =>
    refine Ok_bind (fun _ _ _ _ => ?_) _ db hi (sealChain_active env call hi)
    trivial

variable [DecidableEq ι]

/-- An event that is inserted is inserted into an active epoch, and no epoch of its id is closed. -/
def ClosedEpochs (c : Config ι (AuditDb ι) AuditOp AuditOp.Res AuditError Outcome) : Prop :=
  ∀ p event, (c.procs p).next = some (.insertEvent event) → (c.store.insert p event).1 = .saved →
    ∃ epochId, event.epochId = some epochId ∧ Active c.store epochId ∧
      ∀ e ∈ c.store.epochs, e.epochId = epochId → e.status = .ACTIVE

theorem insert_active {tasks : ι → Task} {db : AuditDb ι} (h₀ : UniqueIds db)
    {c : Config ι (AuditDb ι) AuditOp AuditOp.Res AuditError Outcome}
    (hr : Reach AuditExec Closes (startOn N tasks db) c) : ClosedEpochs c := by
  intro p event hp _
  have hok := Reach.ok (S := closedSpec ι) (Q := fun _ _ _ => True) (E := fun _ _ _ => True) hr closedSpec_closed h₀
    (fun p => task_active (tasks p) h₀) (fun c p o hc ho => by rw [ho] at hc; exact hc)
    (fun _ _ _ _ _ _ _ => trivial) (fun _ _ _ _ _ _ _ => trivial) ?_
  · obtain ⟨k, hk⟩ := Prog.next_eq_some hp
    have hown := hok.2 p
    rw [hk] at hown
    obtain ⟨epochId, he, ha⟩ := hown.guar closedSpec_closed hok.1 nofun event rfl
    refine ⟨epochId, he, ha, fun e hm hid => ?_⟩
    obtain ⟨a, ham, haid, has⟩ := ha
    rw [List.inj_on_of_nodup_map hok.1 hm ham (hid.trans haid.symm)]
    exact has
  · intro c p q o k r db' _ _ hx hc _ hpq epochId ⟨o', hnext, ho'⟩ ha
    refine exec_active hx (fun fields he => ?_) ha
    rw [he] at hc
    exact hc p hpq o' hnext ho'

end

instance (epochId : String) : DecidablePred (Appends epochId)
  | .loadEpochEvents e projection => inferInstanceAs (Decidable (e = epochId ∧ projection = .tail))
  | .insertEvent event => inferInstanceAs (Decidable (event.epochId = some epochId))
  | .findActiveEpoch _ | .findActiveEpochAgain _ | .createEpoch _ | .createIncident _ | .markCompromised _ _
  | .findCompromisedEpochs => isFalse id

instance {ι : Type} [Fintype ι] [DecidableEq ι] (c : Config ι (AuditDb ι) AuditOp AuditOp.Res AuditError Outcome)
    (p : ι) : DecidablePred (Closes c p)
  | .markCompromised epochId _ =>
    inferInstanceAs (Decidable (∀ q, q ≠ p → ∀ o ∈ (c.procs q).next, ¬ Appends epochId o))
  | .findActiveEpochAgain .append => inferInstanceAs (Decidable (∃ e ∈ c.store.epochs, e.status = .ACTIVE))
  | .findActiveEpochAgain .verify | .findActiveEpochAgain .sealChain | .findActiveEpoch _ | .createEpoch _
  | .loadEpochEvents _ _ | .insertEvent _ | .createIncident _ | .findCompromisedEpochs => isTrue trivial

theorem brokenDb_unique : UniqueIds brokenDb := List.nodup_nil

-- A seal up to the insertion of its own event, into the recovery epoch.
theorem insert_active_sample :
    ClosedEpochs (schedule auditRun (startOn brokenNode twoSeals brokenDb) (List.replicate 10 true)) :=
  insert_active brokenDb_unique (Reach.schedule auditRun_exec _ _ .refl (meets_iff _ _ (by decide +kernel)))

def insertedBy {ι : Type} (c : Config ι (AuditDb ι) AuditOp AuditOp.Res AuditError Outcome)
    (p : ι) : Option AuditEvent :=
  match (c.procs p).next with
  | some (.insertEvent event) => some event
  | _ => none

theorem insertedBy_next {ι : Type} {c : Config ι (AuditDb ι) AuditOp AuditOp.Res AuditError Outcome} {p : ι}
    {event : AuditEvent} (h : insertedBy c p = some event) : (c.procs p).next = some (.insertEvent event) := by
  unfold insertedBy at h
  split at h
  · rename_i hn
    rw [hn, Option.some.inj h]
  · cases h

def createAndSeal : Bool → Task
  | true => .create noEnv ⟨downloadDto, "e-2", sampleTime, sampleTime⟩
  | false => .sealChain noEnv (recovery "u-1")

-- The seal marks the default epoch after the writer has read its tail.
def lateInsert : Config Bool (AuditDb Bool) AuditOp AuditOp.Res AuditError Outcome :=
  schedule auditRun (startOn brokenNode createAndSeal brokenDb) (List.replicate 3 true ++ List.replicate 6 false)

theorem insert_into_closed :
    ¬ ∀ (N : Node) (tasks : Bool → Task) (db : AuditDb Bool)
      (c : Config Bool (AuditDb Bool) AuditOp AuditOp.Res AuditError Outcome), UniqueIds db →
      Reach AuditExec (fun _ _ _ => True) (startOn N tasks db) c → ClosedEpochs c := by
  intro h
  have hr : Reach AuditExec (fun _ _ _ => True) (startOn brokenNode createAndSeal brokenDb) lateInsert :=
    Reach.schedule auditRun_exec _ _ .refl (meets_true _ _)
  have hc := h brokenNode createAndSeal brokenDb lateInsert brokenDb_unique hr true
  have hsaved : (insertedBy lateInsert true).any fun event => (lateInsert.store.insert true event).1 = .saved := by
    decide +kernel
  have hclosed : ∀ e ∈ lateInsert.store.epochs, e.status ≠ .ACTIVE := by decide +kernel
  obtain ⟨event, hnext, hins⟩ := (Option.any_eq_true ..).mp hsaved
  obtain ⟨_, _, ⟨e, he, _, hs⟩, _⟩ := hc event (insertedBy_next hnext) (by simpa using hins)
  exact hclosed e he hs

end DocVault
