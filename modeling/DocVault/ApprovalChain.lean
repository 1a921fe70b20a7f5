import DocVault.Workflow

/-!
# Approvals in the order of the chain

A document with an approval chain is published by its last approver, after
each of the others in turn. The step that counts them is neither reset by a
rejection nor written together with the check, and two routes write past the
check. `published_in_order` is about the runs without these: no two requests
overlap on one chain, a submission finds its start, and nobody writes past the
check. The check of `approve` then holds at the write (`approve_in_turn`).
-/

namespace DocVault

open Interleave

section
variable {ι : Type} (tasks : ι → DocumentTask) (id : String)

/-! ## Approvals in the log -/

def DocumentTask.isAdmin : DocumentTask → Bool
  | updateStatus _ _ request | approve _ request => request.user.roles.contains "admin"
  | _ => false

def submits (w : Write ι) : Bool :=
  match w.op with
  | .updateDocument docId _ _ (some row) => docId = id && row.action = .SUBMIT && w.document.status = .DRAFT
  | _ => false

def approver (w : Write ι) : Option String :=
  match w.op with
  | .updateDocument docId _ _ (some row) => if docId = id ∧ row.action = .APPROVE then some row.actorId else none
  | .updateDocument docId _ _ none =>
    match tasks w.process with
    | .approve _ request => if docId = id then some (buildActorId request.user) else none
    | _ => none
  | _ => none

/-- The approvals since the document was last submitted, in order. -/
def approvals (log : List (Write ι)) : List String :=
  log.foldl (fun approved w => if submits id w then [] else approved ++ (approver tasks id w).toList) []

def publishes (w : Write ι) : Bool :=
  match w.op with
  | .updateDocument docId _ data _ =>
      docId = id && data.status = some .PUBLISHED && w.document.status ≠ .PUBLISHED && !(tasks w.process).isAdmin
  | _ => false

/-- Every publication in the log comes after the approvals of the whole chain, in order. -/
def ApprovedInOrder (log : List (Write ι)) : Prop :=
  ∀ before w, before ++ [w] <+: log → ∀ id, publishes tasks id w = true →
    w.document.approvalChain.Sublist (approvals tasks id (before ++ [w]))

/-! ## What keeps the order -/

def movesTo (w : Write ι) : Option Nat :=
  match w.op with
  | .updateDocument _ _ data none => if data.approvalChain = none then data.approvalStep else none
  | _ => none

def passed (document : Document) (step : Nat) : List String :=
  (document.approvalChain.take step).drop document.approvalStep

/-- A document is submitted at the start of its chain, a step of the chain
passes over none but the approver whose request makes it, and a document is
published past none but its publisher. -/
structure KeepsOrder (w : Write ι) : Prop where
  submitted : submits w.document.id w = true → w.document.approvalChain.take w.document.approvalStep = []
  advanced : ∀ step, movesTo w = some step →
    (passed w.document step).Sublist (approver tasks w.document.id w).toList
  published : publishes tasks w.document.id w = true →
    (passed w.document w.document.approvalChain.length).Sublist (approver tasks w.document.id w).toList

def InTurn (db : MetadataDb ι) (p : ι) (o : DocumentOp) : Prop :=
  match o with
  | .updateDocument docId notDeleted _ _ => ∀ document, db.target docId notDeleted = some document →
      KeepsOrder tasks ⟨p, o, document⟩
  | _ => True

/-! ## Approvals after a write -/

variable {tasks id}

theorem approvals_append (log : List (Write ι)) (w : Write ι) : approvals tasks id (log ++ [w]) =
    if submits id w then [] else approvals tasks id log ++ (approver tasks id w).toList := by
  rw [approvals, List.foldl_append]
  rfl

theorem approvals_other {log : List (Write ι)} {w : Write ι}
    (h : ∀ docId notDeleted data row, w.op = .updateDocument docId notDeleted data row → docId ≠ id) :
    approvals tasks id (log ++ [w]) = approvals tasks id log := by
  have hs : submits id w = false := by
    unfold submits
    split
    · rename_i ho
      simp [h _ _ _ _ ho]
    · rfl
  have ha : approver tasks id w = none := by
    unfold approver
    split
    · rename_i ho
      simp [h _ _ _ _ ho]
    · rename_i ho
      split <;> simp [h _ _ _ _ ho]
    · rfl
  rw [approvals_append, hs, ha]
  simp

theorem take_passed (document : Document) (step : Nat) :
    (document.approvalChain.take step).Sublist
      (document.approvalChain.take document.approvalStep ++ passed document step) := by
  unfold passed
  rcases Nat.le_total step document.approvalStep with h | h
  · refine List.Sublist.trans ?_ (List.sublist_append_left ..)
    exact (List.take_prefix_take_left h).sublist
  · have htake : document.approvalChain.take document.approvalStep =
        (document.approvalChain.take step).take document.approvalStep := by
      rw [List.take_take, Nat.min_eq_left h]
    rw [htake, List.take_append_drop]

theorem issued_publish {w : Write ι} {docId : String} {notDeleted : Bool} {data : DocumentUpdate}
    {row : Option DocumentWorkflowHistory} (ho : w.op = .updateDocument docId notDeleted data row)
    (hu : UpdateIssued docId data row) (h : publishes tasks id w = true) : submits id w = false := by
  unfold publishes at h
  rw [ho] at h
  simp only [Bool.and_eq_true, decide_eq_true_eq] at h
  obtain ⟨⟨⟨_, hstatus⟩, _⟩, _⟩ := h
  unfold submits
  rw [ho]
  cases row with
  | none => rfl
  | some row =>
    obtain ⟨_, hedge, hs, _⟩ := hu.recorded row rfl
    rw [hs] at hstatus
    have hto := Option.some.inj hstatus
    cases ha : row.action <;> simp_all [isEdge, TRANSITION_MAP]

/-! ## The invariant -/

variable (tasks) in
structure InOrder (db : MetadataDb ι) : Prop where
  steps : ∀ id document, db.find id = some document →
    (document.approvalChain.take document.approvalStep).Sublist (approvals tasks id db.log)
  published : ApprovedInOrder tasks db.log

theorem ApprovedInOrder.append {log : List (Write ι)} {w : Write ι} (h : ApprovedInOrder tasks log)
    (hw : ∀ id, publishes tasks id w = true → w.document.approvalChain.Sublist (approvals tasks id (log ++ [w]))) :
    ApprovedInOrder tasks (log ++ [w]) := by
  intro before w' hpre id hp
  rcases List.prefix_concat_iff.mp hpre with heq | hpre
  · obtain ⟨rfl, hlast⟩ := List.append_inj' heq rfl
    obtain rfl := List.singleton_inj.mp hlast
    exact hw id hp
  · exact h before w' hpre id hp

theorem InOrder.create {db : MetadataDb ι} {p : ι} (hi : InOrder tasks db) {document : Document}
    (new : db.find document.id = none) (hs : document.approvalStep = 0) : InOrder tasks (db.create p document) where
  steps id d hd := by
    rw [find_create new] at hd
    split at hd
    · obtain rfl := Option.some.inj hd
      rw [hs, List.take_zero]
      exact List.nil_sublist _
    · have hlog : (db.create p document).log = db.log ++ [⟨p, .createDocument document, document⟩] := rfl
      rw [hlog, approvals_other fun _ _ _ _ h => by cases h]
      exact hi.steps id d hd
  published := hi.published.append fun id hp => by cases hp

theorem InOrder.delete {db : MetadataDb ι} {p : ι} (hi : InOrder tasks db) (id : String) (document : Document) :
    InOrder tasks (db.delete p id document) where
  steps id' d hd := by
    rw [find_delete] at hd
    split at hd
    · cases hd
    · have hlog : (db.delete p id document).log = db.log ++ [⟨p, .deleteDocument id, document⟩] := rfl
      rw [hlog, approvals_other fun _ _ _ _ h => by cases h]
      exact hi.steps id' d hd
  published := hi.published.append fun id hp => by cases hp

theorem InOrder.update {db : MetadataDb ι} {p : ι} (hi : InOrder tasks db) {id : String} {notDeleted : Bool}
    {data : DocumentUpdate} {row : Option DocumentWorkflowHistory} {document : Document}
    (found : db.target id notDeleted = some document) (hu : UpdateIssued id data row)
    (hk : KeepsOrder tasks ⟨p, .updateDocument id notDeleted data row, document⟩) :
    InOrder tasks (db.update p id notDeleted data row document) := by
  have hid : document.id = id := find_id (target_find found)
  have hsteps := hi.steps id document (target_find found)
  have hlog : (db.update p id notDeleted data row document).log = db.log ++ [⟨p, _, document⟩] := rfl
  refine ⟨fun id' d hd => ?_, hi.published.append fun id' hp => ?_⟩
  · rw [find_update (target_find found)] at hd
    rw [hlog]
    split at hd
    · rename_i heq
      subst heq
      obtain rfl := Option.some.inj hd
      show ((data.approvalChain.getD document.approvalChain).take
        (data.approvalStep.getD document.approvalStep)).Sublist _
      cases hc : data.approvalChain with
      | some approvers =>
        rw [hu.chain (by simp [hc]), Option.getD_some, List.take_zero]
        exact List.nil_sublist _
      | none =>
        rw [Option.getD_none, approvals_append]
        cases hs : data.approvalStep with
        | some step =>
          -- a step has no row, so it does not submit
          cases row with
          | some r => rw [(hu.recorded r rfl).2.2.2] at hs; cases hs
          | none =>
            rw [if_neg (by simp [submits]), Option.getD_some]
            have hpass := hk.advanced step (by simp [movesTo, hc, hs])
            rw [show document.id = _ from hid] at hpass
            exact (take_passed document step).trans (hsteps.append hpass)
        | none =>
          rw [Option.getD_none]
          split
          · rename_i hsub
            rw [hk.submitted (by rw [hid]; exact hsub)]
          · exact hsteps.trans (List.sublist_append_left ..)
    · rename_i hne
      rw [approvals_other fun docId nd dt rw' he => by cases he; exact hne]
      exact hi.steps id' d hd
  · have heq : id = id' := by
      unfold publishes at hp
      simp only [Bool.and_eq_true, decide_eq_true_eq] at hp
      exact hp.1.1.1
    subst heq
    rw [approvals_append, if_neg (by rw [issued_publish rfl hu hp]; exact nofun)]
    have hpass := hk.published (by rw [hid]; exact hp)
    rw [show document.id = _ from hid] at hpass
    have htake := take_passed document document.approvalChain.length
    rw [List.take_length] at htake
    exact htake.trans (hsteps.append hpass)

theorem InOrder.createVersion {db : MetadataDb ι} {p : ι} (hi : InOrder tasks db) {row : DocumentVersion}
    {data : DocumentUpdate} {document : Document} (found : db.find row.docId = some document)
    (hu : VersionIssued row data) : InOrder tasks (db.createVersion p row data document) where
  steps id d hd := by
    have hlog : (db.createVersion p row data document).log =
      db.log ++ [⟨p, .createVersion row data, document⟩] := rfl
    rw [hlog, approvals_other fun _ _ _ _ h => by cases h]
    rw [find_createVersion found] at hd
    split at hd
    · rename_i hid
      obtain rfl := Option.some.inj hd
      show ((data.approvalChain.getD document.approvalChain).take
        (data.approvalStep.getD document.approvalStep)).Sublist _
      rw [hu.workflow.2.1, hu.workflow.2.2, Option.getD_none, Option.getD_none]
      exact hi.steps id document (hid ▸ found)
    · exact hi.steps id d hd
  published := hi.published.append fun id hp => by cases hp

theorem InOrder.step {db db' : MetadataDb ι} {p : ι} {o : DocumentOp} {r : o.Res}
    (hi : InOrder tasks db) (hu : Issued o)
    (ht : InTurn tasks db p o) (hx : DocumentExec p db o r db') : InOrder tasks db' := by
  rcases exec_writes hx with rfl | hw
  · exact hi
  · cases hw with
    | create new => exact hi.create new hu.2.1
    | update found => exact hi.update found hu (ht _ found)
    | delete found => exact hi.delete _ _
    | createVersion found => exact hi.createVersion found hu

theorem reach_inOrder [DecidableEq ι]
    {c : Config ι (MetadataDb ι) DocumentOp DocumentOp.Res HttpError DocumentOutcome}
    (hr : Reach DocumentExec (fun c p o => InTurn tasks c.store p o) (startTasks tasks) c) :
    InOrder tasks c.store := by
  have h₀ : InOrder tasks (emptyMetadata ι) := by
    refine ⟨fun _ _ => nofun, fun before w hpre => ?_⟩
    exact absurd (List.prefix_nil.mp hpre) (by simp)
  exact hr.invariant (I := InOrder tasks) (fun p => (tasks p).uses) h₀ fun _ _ _ _ _ hi hu ht hx => hi.step hu ht hx

end

/-! ## Approvals that do not overlap -/

/-- The requests that write past the check of `approve`, to the routes behind it. -/
def DocumentTask.isDirect : DocumentTask → Bool
  | advanceApprovalStep _ _ => true
  | updateStatus _ dto request => dto.action = .APPROVE && !request.user.roles.contains "admin"
  | _ => false

/-- The document whose chain or step the operation writes. -/
def DocumentOp.setsChain : DocumentOp → Option String
  | .createDocument document => some document.id
  | .updateDocument id _ data _ => if data.approvalChain = none ∧ data.approvalStep = none then none else some id
  | _ => none

section
variable {ι : Type} (tasks : ι → DocumentTask) (docId : String) {p : ι} {α : Type}

def FindsStart (db : MetadataDb ι) (p : ι) (o : DocumentOp) : Prop :=
  match o with
  | .updateDocument id notDeleted _ _ => ∀ document, db.target id notDeleted = some document →
      submits id (⟨p, o, document⟩ : Write ι) = true → document.approvalChain.take document.approvalStep = []
  | _ => True

/-- Nobody else writes the chain of a document or its step while a request to
approve it is under way, a submission finds the start of the chain, and nobody
writes past the check. -/
structure ChainsApart (c : Config ι (MetadataDb ι) DocumentOp DocumentOp.Res HttpError DocumentOutcome) (p : ι)
    (o : DocumentOp) : Prop where
  alone : ∀ id, o.setsChain = some id → ∀ q, q ≠ p → ∀ request, tasks q = .approve id request →
    ¬UnderWay (startTasks tasks) c q
  start : FindsStart c.store p o
  indirect : (tasks p).isDirect = false

def chainOf (db : MetadataDb ι) : Option (List String × Nat) :=
  (db.find docId).map fun document => (document.approvalChain, document.approvalStep)

def ChainIs (chain : List String) (step : Nat) (db : MetadataDb ι) : Prop :=
  ∀ x, chainOf docId db = some x → x = (chain, step)

/-- What the others leave as it is while process `p` approves. -/
def approving : Spec ι (MetadataDb ι) DocumentOp DocumentOp.Res where
  exec := DocumentExec
  pre p db o := FindsStart db p o ∧ (tasks p).isDirect = false
  inv _ := True
  rely p o db db' := o ≠ none → ∀ docId request, tasks p = .approve docId request →
    chainOf docId db' = none ∨ chainOf docId db' = chainOf docId db
  guar p db o := InTurn tasks db p o

variable {tasks docId}

theorem approving_closed : (approving tasks).Closed := by
  refine ⟨fun _ _ _ _ _ _ _ => .inr rfl, fun _ _ _ _ _ h₁ h₂ ho docId request ht => ?_⟩
  rcases h₂ ho docId request ht with h | h
  · exact .inl h
  · exact (h₁ ho docId request ht).imp h.trans h.trans

theorem chain_kept {db db' : MetadataDb ι} {o : DocumentOp} {r : o.Res} (hu : Issued o)
    (ho : o.setsChain ≠ some docId)
    (hx : DocumentExec p db o r db') : chainOf docId db' = none ∨ chainOf docId db' = chainOf docId db := by
  unfold chainOf
  rcases exec_writes hx with rfl | hw
  · exact .inr rfl
  · cases hw with
    | @create document new =>
      have hid : document.id ≠ docId := fun h => ho (congrArg some h)
      rw [find_create new, if_neg hid]
      exact .inr rfl
    | @update id notDeleted data row document found =>
      have found := target_find found
      rw [find_update found]
      split
      · rename_i hid
        subst hid
        have hdata : data.approvalChain = none ∧ data.approvalStep = none := by
          by_contra h
          exact ho (if_neg h)
        refine .inr ?_
        rw [found, Option.map_some, Option.map_some]
        show some (data.approvalChain.getD _, data.approvalStep.getD _) = _
        rw [hdata.1, hdata.2, Option.getD_none, Option.getD_none]
      · exact .inr rfl
    | @delete id document found =>
      rw [find_delete]
      split
      · exact .inl rfl
      · exact .inr rfl
    | @createVersion row data document found _ =>
      rw [find_createVersion found]
      split
      · rename_i hid
        subst hid
        refine .inr ?_
        rw [found, Option.map_some, Option.map_some]
        show some (data.approvalChain.getD _, data.approvalStep.getD _) = _
        rw [hu.workflow.2.1, hu.workflow.2.2, Option.getD_none, Option.getD_none]
      · exact .inr rfl

/-! ### The requests to approve -/

section
variable {request : Request}

theorem ChainIs.rely (h : tasks p = .approve docId request) {chain : List String} {step : Nat} {o : DocumentOp}
    {db db' : MetadataDb ι} (hc : ChainIs docId chain step db) (hs : (approving tasks).rely p (some o) db db') :
    ChainIs docId chain step db' := by
  intro x hx
  rcases hs (by simp) docId request h with hnone | hsame
  · rw [hnone] at hx
    cases hx
  · exact hc x (hsame ▸ hx)

theorem chainIs_find {db : MetadataDb ι} {document : Document} (h : db.find docId = some document) :
    ChainIs docId document.approvalChain document.approvalStep db := by
  rintro x hx
  rw [chainOf, h] at hx
  exact (Option.some.inj hx).symm

theorem approving_find {Q : α → MetadataDb ι → Prop} {k : Option Document → DocumentM α} {organizationId : String}
    {db : MetadataDb ι} (hnone : ∀ db', Ok (approving tasks) p Q (fun _ _ => True) (k none) db')
    (hk : ∀ document db', (approving tasks).rely p (some (.findDocument docId organizationId)) db db' →
      db'.find docId = some document → Ok (approving tasks) p Q (fun _ _ => True) (k (some document)) db') :
    Ok (approving tasks) p Q (fun _ _ => True) (findDocument docId organizationId >>= k) db := by
  refine Ok_op (fun _ _ _ _ => trivial) (fun _ _ _ _ => trivial) fun db' r db'' hs _ _ hx => ⟨trivial, ?_⟩
  obtain ⟨hfound, rfl⟩ := Prod.mk.inj hx
  cases r with
  | none => exact hnone _
  | some document => exact hk document _ hs (Option.filter_eq_some_iff.mp hfound.symm).1

theorem approving_update (h : tasks p = .approve docId request) {chain : List String}
    {step : Nat} {data : DocumentUpdate}
    {row : Option DocumentWorkflowHistory} {db : MetadataDb ι} (hc : ChainIs docId chain step db)
    (hk : ∀ d : Document, d.id = docId → d.approvalChain = chain → d.approvalStep = step →
      KeepsOrder tasks ⟨p, .updateDocument docId false data row, d⟩) :
    Ok (approving tasks) p (fun _ _ => True) (fun _ _ => True)
      (updateDocument docId false data row >>= fun result => Prog.ofExcept (updated result)) db := by
  refine Ok_op (fun db' hs _ _ d hd => ?_) (fun _ _ _ _ => trivial) fun _ r _ _ _ _ _ => ⟨trivial, ?_⟩
  · have hd := target_find hd
    obtain ⟨hchain, hstep⟩ := Prod.mk.inj (hc.rely h hs _ (by rw [chainOf, hd]; rfl))
    exact hk d (find_id hd) hchain hstep
  · exact Ok_ofExcept (fun _ _ => trivial) fun _ _ => trivial

theorem findOne_chain (request : Request) (db : MetadataDb ι) : Ok (approving tasks) p
    (fun document => ChainIs docId document.approvalChain document.approvalStep) (fun _ _ => True)
    (DocumentsController.findOne docId request) db := by
  refine Ok_ofExcept_bind (fun _ _ => ?_) fun _ _ => trivial
  refine Ok_ofExcept_bind (fun _ _ => ?_) fun _ _ => trivial
  refine approving_find (fun _ => trivial) fun document db' _ hfound => ?_
  dsimp only
  split
  · trivial
  · exact chainIs_find hfound

/-! What the check of `approve` says of the step. -/

theorem passed_next {document : Document} {actor : String}
    (h : document.approvalChain[document.approvalStep]? = some actor) :
    passed document (document.approvalStep + 1) = [actor] := by
  have hlt : document.approvalStep < document.approvalChain.length := (List.getElem?_eq_some_iff.mp h).1
  unfold passed
  rw [List.take_add_one, h, List.drop_append_of_le_length (by rw [List.length_take]; omega),
    List.drop_eq_nil_of_le (by rw [List.length_take]; omega)]
  rfl

theorem passed_last {document : Document} {actor : String}
    (h : document.approvalChain[document.approvalStep]? = some actor)
    (hl : document.approvalChain.length ≤ document.approvalStep + 1) :
    passed document document.approvalChain.length = [actor] := by
  rw [← passed_next h]
  unfold passed
  rw [List.take_length, List.take_of_length_le hl]

theorem approveGuard_cases {request : Request} {document : Document} {final : Bool}
    (h : WorkflowService.approveGuard request document = .ok final) :
    (final = true ∧ (document.approvalChain = [] ∨ "admin" ∈ request.user.roles)) ∨
    (document.approvalChain[document.approvalStep]? = some (buildActorId request.user) ∧
      (final = true → document.approvalChain.length ≤ document.approvalStep + 1)) := by
  unfold WorkflowService.approveGuard at h
  dsimp only at h
  split at h
  · cases h
  · split at h
    · cases h
    · split at h
      · split at h
        · cases h
        · rename_i hturn
          refine .inr ⟨not_not.mp hturn, fun hf => ?_⟩
          rw [hf] at h
          exact of_decide_eq_true (Except.ok.inj h)
      · rename_i hn
        refine .inl ⟨(Except.ok.inj h).symm, ?_⟩
        by_cases hc : document.approvalChain = []
        · exact .inl hc
        · exact .inr (by simpa [List.length_pos_iff, hc] using hn)

theorem keepsOrder_publish {request : Request} (h : tasks p = .approve docId request) {document : Document}
    (hid : document.id = docId) {notDeleted : Bool} {data : DocumentUpdate} {row : DocumentWorkflowHistory}
    (ha : row.action = .APPROVE) (hactor : row.actorId = buildActorId request.user)
    (hp : "admin" ∉ request.user.roles →
      (passed document document.approvalChain.length).Sublist [buildActorId request.user]) :
    KeepsOrder tasks ⟨p, .updateDocument docId notDeleted data (some row), document⟩ where
  submitted hs := by simp [submits, ha] at hs
  advanced step hs := by cases hs
  published hpub := by
    have hadmin : "admin" ∉ request.user.roles := by
      simp only [publishes, h, DocumentTask.isAdmin, Bool.and_eq_true, Bool.not_eq_true'] at hpub
      simpa using hpub.2
    have happ : approver tasks document.id ⟨p, .updateDocument docId notDeleted data (some row), document⟩ =
        some (buildActorId request.user) := by
      simp [approver, hid, ha, hactor]
    rw [happ]
    exact hp hadmin

theorem keepsOrder_advance {request : Request} (h : tasks p = .approve docId request) {document : Document}
    (hid : document.id = docId) {notDeleted : Bool}
    (ht : document.approvalChain[document.approvalStep]? = some (buildActorId request.user)) :
    KeepsOrder tasks ⟨p, .updateDocument docId notDeleted { approvalStep := some (document.approvalStep + 1) } none,
      document⟩ where
  submitted hs := by cases hs
  advanced step hs := by
    obtain rfl := Option.some.inj hs
    rw [passed_next ht]
    simp [approver, h, hid]
  published hpub := by simp [publishes] at hpub

theorem approve_in_turn (h : tasks p = .approve docId request) (db : MetadataDb ι) :
    Ok (approving tasks) p (fun _ _ => True) (fun _ _ => True) (tasks p).prog db := by
  rw [h]
  show Ok _ p _ _ (answered (WorkflowController.approve docId request)) db
  refine Ok_bind (Q := fun _ _ => True) (fun document db _ _ => ?_) _ db trivial ?_
  · trivial
  refine Ok_ofExcept_bind (fun _ _ => ?_) fun _ _ => trivial
  refine Ok_bind (fun document db _ hc => ?_) _ db trivial (findOne_chain request db)
  refine Ok_ofExcept_bind (fun final hg => ?_) fun _ _ => trivial
  cases final with
  | true =>
    rw [if_pos rfl]
    refine Ok_ofExcept_bind (fun _ _ => ?_) fun _ _ => trivial
    refine Ok_ofExcept_bind (fun _ _ => ?_) fun _ _ => trivial
    refine approving_find (fun _ => trivial) fun found db' hs _ => ?_
    refine Ok_ofExcept_bind (fun transition _ => ?_) fun _ _ => trivial
    refine approving_update h (hc.rely h hs) fun d hid hchain hstep =>
      keepsOrder_publish h hid rfl rfl fun hadmin => ?_
    rcases approveGuard_cases hg with ⟨_, hempty | ha⟩ | ⟨ht, hl⟩
    · simp [passed, hchain, hempty]
    · exact absurd ha hadmin
    · rw [passed_last (by rw [hchain, hstep]; exact ht) (by rw [hchain, hstep]; exact hl rfl)]
  | false =>
    rw [if_neg (by decide)]
    refine Ok_bind (Q := fun _ _ => True) (fun _ _ _ _ => ?_) _ db trivial ?_
    · trivial
    refine Ok_ofExcept_bind (fun _ _ => ?_) fun _ _ => trivial
    refine Ok_bind (Q := fun found db => ChainIs docId document.approvalChain document.approvalStep db ∧
      found.approvalStep = document.approvalStep) (fun found db _ hfound => ?_) _ db trivial ?_
    · refine approving_update h hfound.1 fun d hid hchain hstep => ?_
      have ht : d.approvalChain[d.approvalStep]? = some (buildActorId request.user) := by
        rw [hchain, hstep]
        exact (approveGuard_cases hg).elim (fun hf => absurd hf.1 (by decide)) fun ht => ht.1
      rw [hfound.2, ← hstep]
      exact keepsOrder_advance h hid ht
    · refine Ok_ofExcept_bind (fun _ _ => ?_) fun _ _ => trivial
      refine approving_find (fun _ => trivial) fun found db' hs hfound => ?_
      have hc' := hc.rely h hs
      exact ⟨hc', (Prod.mk.inj (hc' _ (by rw [chainOf, hfound]; rfl))).2⟩

end

/-! ### The other requests -/

/-- Only the direct requests, and those of admins, write a step or publish without the check of `approve`. -/
def Indirect (t : DocumentTask) : DocumentOp → Prop
  | .updateDocument _ _ data row => (data.status = some .PUBLISHED → t.isAdmin = true ∨ t.isDirect = true) ∧
      (row = none → data.approvalChain = none → data.approvalStep ≠ none → t.isDirect = true)
  | _ => True

theorem Issues.indirect {t : DocumentTask} {o : DocumentOp} (h : Issues t o)
    (ht : ∀ docId request, t ≠ .approve docId request) : Indirect t o := by
  cases h with
  | read h => cases o <;> trivial
  | @status _ docId dto request document htransition hmap =>
    refine ⟨fun hstatus => ?_, nofun⟩
    have hpub : dto.status = .PUBLISHED := Option.some.inj hstatus
    cases t with
    | updateStatus docId' dto' request' =>
      obtain ⟨rfl, rfl, rfl⟩ : docId' = docId ∧ dto' = dto ∧ request' = request := by
        simpa [DocumentTask.transition] using htransition
      have haction : dto'.action = .APPROVE := by
        rw [hpub] at hmap
        cases ha : dto'.action <;> simp [ha, TRANSITION_MAP] at hmap ⊢
      simp only [DocumentTask.isAdmin, DocumentTask.isDirect, haction]
      cases request'.user.roles.contains "admin" <;> simp
    | approve docId request => exact absurd rfl (ht docId request)
    | submit | reject | archive | delete =>
      obtain ⟨_, rfl, _⟩ := by simpa [DocumentTask.transition] using htransition
      cases hpub
    | _ => cases htransition
  | approve => exact absurd rfl (ht _ _)
  | advanceApprovalStep => exact ⟨nofun, fun _ _ _ => rfl⟩
  | setApprovalChain | runRetention => exact ⟨nofun, nofun⟩
  | create | createVersion | restoreVersion | purgeExpiredTrash => trivial
  | _ => exact ⟨nofun, fun _ _ h => absurd rfl h⟩

theorem inTurn_indirect {db : MetadataDb ι} {o : DocumentOp} (hu : Indirect (tasks p) o)
    (hp : (approving tasks).pre p db o) : InTurn tasks db p o := by
  cases o with
  | updateDocument id notDeleted data row =>
    intro document hd
    have hid : document.id = id := find_id (target_find hd)
    have hindirect : (tasks p).isDirect ≠ true := Bool.eq_false_iff.mp hp.2
    refine ⟨fun hs => ?_, fun step hs => ?_, fun hpub => ?_⟩
    · have hs : submits document.id (⟨p, _, document⟩ : Write ι) = true := hs
      rw [hid] at hs
      exact hp.1 document hd hs
    · cases row with
      | some row => cases hs
      | none =>
        simp only [movesTo, Option.ite_none_right_eq_some] at hs
        exact absurd (hu.2 rfl hs.1 (by simp [hs.2])) hindirect
    · simp only [publishes, Bool.and_eq_true, decide_eq_true_eq, Bool.not_eq_true'] at hpub
      rcases hu.1 hpub.1.1.2 with hadmin | hdirect
      · rw [hpub.2] at hadmin
        cases hadmin
      · exact absurd hdirect hindirect
  | _ => trivial

theorem task_in_turn (p : ι) (db : MetadataDb ι) :
    Ok (approving tasks) p (fun _ _ => True) (fun _ _ => True) (tasks p).prog db := by
  by_cases ht : ∃ docId request, tasks p = .approve docId request
  · obtain ⟨docId, request, ht⟩ := ht
    exact approve_in_turn ht db
  · push Not at ht
    exact Ok_uses (J := fun _ => True) (fun _ _ _ _ _ _ _ => trivial) (fun _ _ hu _ _ hp => inTurn_indirect hu hp)
      (fun _ _ _ _ _ _ _ _ _ => ⟨trivial, trivial⟩) _ db ((tasks p).issues.mono fun _ h => h.indirect ht) trivial

end

/-! ## Runs -/

instance {ι : Type} (db : MetadataDb ι) (p : ι) : DecidablePred (FindsStart db p)
  | .updateDocument id notDeleted data row => inferInstanceAs (Decidable (∀ document ∈ db.target id notDeleted,
      submits id (⟨p, .updateDocument id notDeleted data row, document⟩ : Write ι) = true →
        document.approvalChain.take document.approvalStep = []))
  | .findDocument _ _ | .findCandidates | .findExpired _ | .createDocument _ | .deleteDocument _ | .findVersion _ _
  | .createVersion _ _ => isTrue trivial

section
variable {ι : Type} [DecidableEq ι] {tasks : ι → DocumentTask}
  {c : Config ι (MetadataDb ι) DocumentOp DocumentOp.Res HttpError DocumentOutcome}

theorem reach_issued {cond : Config ι (MetadataDb ι) DocumentOp DocumentOp.Res HttpError DocumentOutcome → ι →
    DocumentOp → Prop} (hr : Reach DocumentExec cond (startTasks tasks) c) :
    Reach DocumentExec (fun c p o => cond c p o ∧ Issued o) (startTasks tasks) c := by
  refine hr.refine fun c p o k r db' hc hp hx ha => ⟨hx, ha, ?_⟩
  have hu := hc.uses (U := fun _ => Issued) (fun p => (tasks p).uses) p
  rw [hp] at hu
  exact hu.1

theorem reach_in_turn (hr : Reach DocumentExec (ChainsApart tasks) (startTasks tasks) c) (p : ι) :
    Ok (approving tasks) p (fun _ _ => True) (fun _ _ => True) (c.procs p) c.store := by
  refine (Reach.started (S := approving tasks) (Q := fun _ _ _ => True) (E := fun _ _ _ => True) (reach_issued hr)
    approving_closed trivial (fun p db _ => task_in_turn p db) (fun c p o hc => ⟨hc.1.start, hc.1.indirect⟩)
    (fun _ _ _ _ _ _ _ => trivial) (fun _ _ _ _ _ _ _ => trivial) ?_).2 p
  intro c p q o k r db' _ _ hx hc _ hne hbegun hnext docId request ht
  exact chain_kept hc.2 (fun ho => hc.1.alone docId ho p hne request ht ⟨hbegun, hnext⟩) hx

theorem reach_inTurn (hr : Reach DocumentExec (ChainsApart tasks) (startTasks tasks) c) :
    Reach DocumentExec (fun c p o => InTurn tasks c.store p o) (startTasks tasks) c := by
  refine hr.refine fun c p o k r db' hc hp hx ha => ⟨hx, ?_⟩
  have hown := reach_in_turn hc p
  rw [hp] at hown
  exact hown.guar approving_closed trivial ⟨ha.start, ha.indirect⟩

/-- Whoever publishes a document without being an admin does so after its
whole chain has approved it, in order, since it was last submitted, in a run in
which the requests to approve are not overlapped and nobody writes past them. -/
theorem published_in_order (hr : Reach DocumentExec (ChainsApart tasks) (startTasks tasks) c) :
    ApprovedInOrder tasks c.store.log :=
  (reach_inOrder (reach_inTurn hr)).published

/-- No request to approve that has begun and not ended has its document's chain written by another. -/
def chainsApart (tasks : ι → DocumentTask)
    (c : Config ι (MetadataDb ι) DocumentOp DocumentOp.Res HttpError DocumentOutcome) (begun : List ι) (p : ι)
    (o : DocumentOp) : Bool :=
  begun.all (fun q => q = p || (c.procs q).next.isNone || match tasks q with
    | .approve id _ => o.setsChain ≠ some id
    | _ => true) && decide (FindsStart c.store p o) && !(tasks p).isDirect

theorem chainsApart_sound (c : Config ι (MetadataDb ι) DocumentOp DocumentOp.Res HttpError DocumentOutcome)
    (begun : List ι) (p : ι) (o : DocumentOp) (hb : ∀ q, q ∉ begun → c.procs q = (startTasks tasks).procs q)
    (h : chainsApart tasks c begun p o = true) : ChainsApart tasks c p o := by
  simp only [chainsApart, Bool.and_eq_true, List.all_eq_true, decide_eq_true_eq, Bool.not_eq_true'] at h
  refine ⟨fun id hset q hne request ht hway => ?_, h.1.2, h.2⟩
  have hq := h.1.1 q (by_contra fun hq => hway.1 (hb q hq))
  simp [hne, ht, hset, hway.2] at hq

end

def editorOf (actor : String) : Request := ⟨⟨some actor, none, ["editor"]⟩, some "o-1", 0⟩

def approverOf (actor : String) : Request := ⟨⟨some actor, none, ["approver"]⟩, some "o-1", 0⟩

-- Two approvers, the second of whom first rejects the document.
def chainTasks : Nat → DocumentTask
  | 0 => .create {} (editorOf "u-1") "d-1"
  | 1 => .submit "d-1" (editorOf "u-1")
  | 2 => .setApprovalChain "d-1" ⟨["u-7", "u-8"]⟩ (editorOf "u-1")
  | 3 => .approve "d-1" (approverOf "u-7")
  | 4 => .reject "d-1" (some "incomplete") (approverOf "u-8")
  | 5 => .submit "d-1" (editorOf "u-1")
  | _ => .approve "d-1" (approverOf "u-8")

def approvedRun : Config Nat (MetadataDb Nat) DocumentOp DocumentOp.Res HttpError DocumentOutcome :=
  schedule documentRun (startTasks chainTasks) [0, 1, 1, 1, 2, 2, 3, 3, 3, 6, 6, 6]

theorem published_in_order_sample : ApprovedInOrder chainTasks approvedRun.store.log :=
  published_in_order (Reach.schedule documentRun_exec _ _ .refl
    (meets_of_begun chainsApart_sound _ _ [] (fun _ _ => rfl) (by decide +kernel)))

-- After the rejection and the second submission the first approver is not asked again.
def resubmitted : Config Nat (MetadataDb Nat) DocumentOp DocumentOp.Res HttpError DocumentOutcome :=
  schedule documentRun (startTasks chainTasks) [0, 1, 1, 1, 2, 2, 3, 3, 3, 4, 4, 4, 5, 5, 5, 6, 6, 6]

theorem published_out_of_order :
    ¬ ∀ (tasks : Nat → DocumentTask)
      (c : Config Nat (MetadataDb Nat) DocumentOp DocumentOp.Res HttpError DocumentOutcome),
      Reach DocumentExec (fun _ _ _ => True) (startTasks tasks) c → ApprovedInOrder tasks c.store.log := by
  intro h
  have hr : Reach DocumentExec (fun _ _ _ => True) (startTasks chainTasks) resubmitted :=
    Reach.schedule documentRun_exec _ _ .refl (meets_true _ _)
  have hlast : resubmitted.store.log.getLast?.any fun w => publishes chainTasks "d-1" w &&
      !decide (w.document.approvalChain.Sublist (approvals chainTasks "d-1" resubmitted.store.log)) := by
    decide +kernel
  obtain ⟨w, hw, hbad⟩ := (Option.any_eq_true ..).mp hlast
  have hlog := List.dropLast_append_getLast? w hw
  simp only [Bool.and_eq_true, Bool.not_eq_true', decide_eq_false_iff_not] at hbad
  have hin := h chainTasks resubmitted hr resubmitted.store.log.dropLast w
    ⟨[], by rw [List.append_nil, hlog]⟩ "d-1" hbad.1
  rw [hlog] at hin
  exact hbad.2 hin

end DocVault
