import Mathlib.Data.List.Dedup
import Mathlib.Data.List.DropRight
import DocVault.WorkflowButtons
import DocVault.ApprovalChain

/-!
# The approval chain card

The card of a document shows how far its approval chain has come, and lets the
owner and the admins edit the chain. Editing works on a draft, and what is
sent is the draft without its blank rows. `chain_saved_iff` compares the checks
of the card with those of the route that it sends the chain to.
-/

namespace DocVault

open Interleave

namespace ApprovalChainCard

/-! ## What the card shows -/

inductive StepState where
  | approved
  | current
  | pending
  deriving DecidableEq

structure ApprovalChainStep where
  approverId : String
  position : Nat
  state : StepState
  deriving DecidableEq

structure ApprovalChainModel where
  configured : Bool
  steps : List ApprovalChainStep
  currentApproverId : Option String
  totalSteps : Nat
  approvedCount : Nat
  deriving DecidableEq

structure DocumentDetail where
  approvalChain : Option (List String) := none
  approvalStep : Option Nat := none
  status : DocumentStatus

def stepState (published : Bool) (step index : Nat) : StepState :=
  if published || index < step then .approved else if index = step then .current else .pending

def buildApprovalChainModel (document : DocumentDetail) : ApprovalChainModel :=
  let chain := document.approvalChain.getD []
  let step := document.approvalStep.getD 0
  let published := document.status = .PUBLISHED
  { configured := chain.length > 0
    steps := chain.mapIdx fun index approverId => ⟨approverId, index + 1, stepState published step index⟩
    currentApproverId := if published then none else chain[step]?
    totalSteps := chain.length
    approvedCount := if published then chain.length else min step chain.length }

def canEditApprovalChain (document : DocumentDetail) (canManage : Bool) : Bool :=
  canManage && document.status = .PENDING

/-! ## The draft -/

def normalizeApprovalChainApprovers (values : List String) : List String := (values.map trim).filter (· ≠ "")

def createApprovalChainDraft (approverIds : List String) : List String :=
  let normalized := normalizeApprovalChainApprovers approverIds
  if normalized.length > 0 then normalized else [""]

def hasDuplicateApprovalChainApprovers (values : List String) : Bool :=
  let normalized := normalizeApprovalChainApprovers values
  normalized.dedup.length ≠ normalized.length

def updateApprovalChainApprover (values : List String) (index : Nat) (approverId : String) : List String :=
  values.mapIdx fun currentIndex value => if currentIndex = index then approverId else value

def removeApprovalChainApprover (values : List String) (index : Nat) : List String :=
  (values.zipIdx.filter fun value => value.2 ≠ index).map (·.1)

def moveApprovalChainApprover (values : List String) (index direction : Int) : List String :=
  let targetIndex := index + direction
  if index < 0 || index ≥ values.length || targetIndex < 0 || targetIndex ≥ values.length then values
  else
    let value := values.getD index.toNat ""
    let target := values.getD targetIndex.toNat ""
    (values.set index.toNat target).set targetIndex.toNat value

/-- What the user does to the draft. -/
inductive ChainEdit where
  | add
  | update (index : Nat) (approverId : String)
  | remove (index : Nat)
  | moveUp (index : Nat)
  | moveDown (index : Nat)

def ChainEdit.apply (values : List String) : ChainEdit → List String
  | add => values ++ [""]
  | update index approverId => updateApprovalChainApprover values index approverId
  | remove index => removeApprovalChainApprover values index
  | moveUp index => moveApprovalChainApprover values index (-1)
  | moveDown index => moveApprovalChainApprover values index 1

-- No chain is sent while another one is on its way.
def canSaveDraft (isPending : Bool) (values : List String) : Bool :=
  (normalizeApprovalChainApprovers values).length > 0 && !hasDuplicateApprovalChainApprovers values && !isPending

end ApprovalChainCard

def WebPermissions.canEditDocument (session : Option Session) (doc : DocumentContext) : Bool :=
  if session.isNone then false
  else if hasRole session "admin" then true
  else if hasRole session "editor" && isOwner session doc.ownerId then true
  else false

/-- The document as the card gets it. -/
def Document.chainDetail (document : Document) : ApprovalChainCard.DocumentDetail where
  approvalChain := some document.approvalChain
  approvalStep := some document.approvalStep
  status := document.status

/-! ## The route -/

section
-- `MaxLength` of the validation package.
variable (maxLength : Nat → String → Bool)

def ApprovalChainDto.isValid (dto : ApprovalChainDto) : Bool :=
  dto.approvers.length ≥ 1 && dto.approvers.length ≤ 20 && dto.approvers.all (maxLength 120)

def GatewayMetadata.setApprovalChain (docId : String) (dto : ApprovalChainDto) (request : Request) :
    DocumentM Document := do
  let _ ← Prog.ofExcept (RolesGuard ["editor", "admin"] request.user)
  if dto.isValid maxLength then DocumentsController.setApprovalChain docId dto request
  else .throw (.badRequest "Bad Request Exception")

end

namespace ApprovalChainCard

/-! ## The states of the members -/

section
variable {document : Document}

/-- The members shown in a state, in the order of the chain. -/
def shown (state : StepState) (model : ApprovalChainModel) : List String :=
  (model.steps.filter fun step => step.state = state).map (·.approverId)

theorem filter_mapIdx {α β : Type} (f : Nat → α → β) (p : β → Bool) (g : β → α)
    (hg : ∀ i a, g (f i a) = a) (n : Nat)
    (hp : ∀ i a, p (f i a) = decide (i < n)) : ∀ l : List α, ((l.mapIdx f).filter p).map g = l.take n := by
  intro l
  induction l generalizing f n with
  | nil => simp
  | cons a l ih =>
    rw [List.mapIdx_cons]
    cases n with
    | zero =>
      have hnone : (List.mapIdx (fun i => f (i + 1)) l).filter p = [] := by
        rw [List.filter_eq_nil_iff]
        intro b hb
        obtain ⟨i, hi, rfl⟩ := List.mem_mapIdx.mp hb
        simp [hp]
      simp [hp, hnone]
    | succ n =>
      rw [List.filter_cons_of_pos (by simp [hp]), List.map_cons, hg, List.take_succ_cons,
        ih (fun i => f (i + 1)) (fun i a => hg (i + 1) a) n fun i a => by simp [hp]]

theorem filter_mapIdx_eq {α β : Type} (f : Nat → α → β) (p : β → Bool) (g : β → α)
    (hg : ∀ i a, g (f i a) = a) (n : Nat)
    (hp : ∀ i a, p (f i a) = decide (i = n)) : ∀ l : List α, ((l.mapIdx f).filter p).map g = l[n]?.toList := by
  intro l
  induction l generalizing f n with
  | nil => simp
  | cons a l ih =>
    rw [List.mapIdx_cons]
    cases n with
    | zero =>
      have hnone : (List.mapIdx (fun i => f (i + 1)) l).filter p = [] := by
        rw [List.filter_eq_nil_iff]
        intro b hb
        obtain ⟨i, hi, rfl⟩ := List.mem_mapIdx.mp hb
        simp [hp]
      rw [List.filter_cons_of_pos (by simp [hp]), hnone]
      simp [hg]
    | succ n =>
      rw [List.filter_cons_of_neg (by simp [hp]), List.getElem?_cons_succ,
        ih (fun i => f (i + 1)) (fun i a => hg (i + 1) a) n fun i a => by simp [hp]]

theorem steps_ids :
    (buildApprovalChainModel document.chainDetail).steps.map (·.approverId) = document.approvalChain := by
  show (document.approvalChain.mapIdx _).map _ = _
  rw [List.mapIdx_eq_zipIdx_map, List.map_map]
  exact List.zipIdx_map_fst 0 document.approvalChain

theorem shown_approved : shown .approved (buildApprovalChainModel document.chainDetail) =
    if document.status = .PUBLISHED then document.approvalChain
      else document.approvalChain.take document.approvalStep := by
  unfold shown
  split
  · rename_i hp
    rw [List.filter_eq_self.mpr, steps_ids]
    intro step hs
    obtain ⟨i, hi, rfl⟩ := List.mem_mapIdx.mp hs
    simp [stepState, Document.chainDetail, hp]
  · rename_i hp
    refine filter_mapIdx _ _ _ (fun _ _ => rfl) _ (fun i a => ?_) _
    by_cases hlt : i < document.approvalStep
    · simp [Document.chainDetail, stepState, hlt]
    · by_cases heq : i = document.approvalStep <;> simp [Document.chainDetail, stepState, hp, heq, hlt]

/-- The member shown as current is the one that the card waits for. -/
theorem shown_current : shown .current (buildApprovalChainModel document.chainDetail) =
    (buildApprovalChainModel document.chainDetail).currentApproverId.toList := by
  unfold shown
  by_cases hp : document.status = .PUBLISHED
  · have hnone : (buildApprovalChainModel document.chainDetail).steps.filter (fun step =>
      step.state = .current) = [] := by
      rw [List.filter_eq_nil_iff]
      intro step hs
      obtain ⟨i, hi, rfl⟩ := List.mem_mapIdx.mp hs
      simp [stepState, Document.chainDetail, hp]
    rw [hnone]
    simp [buildApprovalChainModel, Document.chainDetail, hp]
  · have hcurrent : (buildApprovalChainModel document.chainDetail).currentApproverId =
        document.approvalChain[document.approvalStep]? := by
      simp [buildApprovalChainModel, Document.chainDetail, hp]
    rw [hcurrent]
    refine filter_mapIdx_eq _ _ _ (fun _ _ => rfl) _ (fun i a => ?_) _
    by_cases hlt : i < document.approvalStep
    · have hne : i ≠ document.approvalStep := Nat.ne_of_lt hlt
      simp [Document.chainDetail, stepState, hlt, hne]
    · by_cases heq : i = document.approvalStep <;> simp [Document.chainDetail, stepState, hp, heq, hlt]

end

/-! ## What is sent -/

theorem trim_trim (s : String) : trim (trim s) = trim s := by
  unfold trim
  rw [String.toList_ofList]
  have hend : ∀ l : List Char, (l.reverse.dropWhile isSpace).reverse = l.rdropWhile isSpace := fun _ => rfl
  have hkept : ((s.toList.dropWhile isSpace).rdropWhile isSpace).dropWhile isSpace =
      (s.toList.dropWhile isSpace).rdropWhile isSpace := by
    rw [List.dropWhile_eq_self_iff]
    intro hl hspace
    have hpre := List.rdropWhile_prefix isSpace (l := s.toList.dropWhile isSpace)
    refine List.dropWhile_get_zero_not isSpace s.toList (hl.trans_le hpre.length_le) ?_
    rwa [List.get_eq_getElem, ← hpre.getElem hl]
  rw [hend, hend, hkept, List.rdropWhile_idempotent]

section
variable (values : List String)

theorem trim_normalized {value : String} (h : value ∈ normalizeApprovalChainApprovers values) :
    trim value = value := by
  obtain ⟨hmem, -⟩ := List.mem_filter.mp h
  obtain ⟨v, -, rfl⟩ := List.mem_map.mp hmem
  exact trim_trim v

theorem normalize_normalize : normalizeApprovalChainApprovers (normalizeApprovalChainApprovers values) =
    normalizeApprovalChainApprovers values := by
  have hmap : (normalizeApprovalChainApprovers values).map trim = normalizeApprovalChainApprovers values :=
    (List.map_congr_left fun value h => trim_normalized values h).trans (List.map_id _)
  rw [normalizeApprovalChainApprovers, hmap, normalizeApprovalChainApprovers, List.filter_filter]
  simp

theorem dedup_length {l : List String} : l.dedup.length = l.length ↔ l.Nodup := by
  rw [← List.dedup_eq_self]
  apply Iff.intro
  · exact (List.dedup_sublist l).eq_of_length
  · intro h
    rw [h]

theorem canSaveDraft_iff : canSaveDraft false values = true ↔
    normalizeApprovalChainApprovers values ≠ [] ∧ (normalizeApprovalChainApprovers values).Nodup := by
  unfold canSaveDraft hasDuplicateApprovalChainApprovers
  simp only [Bool.and_eq_true, Bool.not_false, and_true, Bool.not_eq_true', decide_eq_true_eq,
    decide_eq_false_iff_not, ne_eq, not_not, dedup_length, gt_iff_lt, List.length_pos_iff]

/-- Only a selection brings a member into the draft. -/
def ChainEdit.selects : ChainEdit → Bool
  | update _ _ => true
  | _ => false

theorem move_perm (index direction : Int) : (moveApprovalChainApprover values index direction).Perm values := by
  unfold moveApprovalChainApprover
  dsimp only
  split
  · exact List.Perm.refl values
  · rename_i hin
    simp only [Bool.or_eq_true, decide_eq_true_eq, not_or, not_lt, ge_iff_le, not_le] at hin
    obtain ⟨⟨⟨hi, hi'⟩, hj⟩, hj'⟩ := hin
    have hi₁ : index.toNat < values.length := by omega
    have hj₁ : (index + direction).toNat < values.length := by omega
    have hget : ∀ {i : Nat} (hi : i < values.length), values.getD i "" = values[i] := fun hi => by
      rw [List.getD_eq_getElem?_getD, List.getElem?_eq_getElem hi, Option.getD_some]
    rw [hget hi₁, hget hj₁]
    exact List.set_set_perm hi₁ hj₁

theorem edit_subperm {edit : ChainEdit} (h : edit.selects = false) :
    (normalizeApprovalChainApprovers (edit.apply values)).Subperm (normalizeApprovalChainApprovers values) := by
  cases edit with
  | add =>
    have hblank : trim "" = "" := by decide
    simp [ChainEdit.apply, normalizeApprovalChainApprovers, hblank, List.Subperm.refl]
  | update index approverId => cases h
  | remove index =>
    have hrows : (removeApprovalChainApprover values index).Sublist values := by
      have hsub := ((List.filter_sublist (l := values.zipIdx) (p := fun value => value.2 ≠ index)).map Prod.fst)
      rwa [List.zipIdx_map_fst] at hsub
    exact ((hrows.map trim).filter _).subperm
  | moveUp index => exact (((move_perm values index (-1)).map trim).filter _).subperm
  | moveDown index => exact (((move_perm values index 1).map trim).filter _).subperm

/-- As long as nobody is selected, the members of the draft only go or change places. -/
theorem edits_subperm {edits : List ChainEdit} (h : ∀ edit ∈ edits, edit.selects = false) :
    (normalizeApprovalChainApprovers (edits.foldl ChainEdit.apply values)).Subperm
      (normalizeApprovalChainApprovers values) := by
  induction edits generalizing values with
  | nil => exact .refl _
  | cons edit edits ih =>
    obtain ⟨hedit, hedits⟩ := List.forall_mem_cons.mp h
    exact (ih (edit.apply values) hedits).trans (edit_subperm values hedit)

theorem subperm_nodup {l l' : List String} (h : l.Subperm l') (hn : l'.Nodup) : l.Nodup := by
  obtain ⟨m, hperm, hsub⟩ := h
  exact hperm.nodup_iff.mp (hn.sublist hsub)

/-- A chain that is shown is put back into the draft as it is. -/
theorem draft_normalized (h : normalizeApprovalChainApprovers values ≠ []) :
    createApprovalChainDraft (normalizeApprovalChainApprovers values) = normalizeApprovalChainApprovers values := by
  unfold createApprovalChainDraft
  rw [normalize_normalize, if_pos (List.length_pos_iff.mpr h)]

end

/-! ## The checks of the route -/

section
variable {request : Request} {document : Document} {values : List String}

theorem approvalChainGuard_ok {approvers : List String} :
    DocumentsService.approvalChainGuard ⟨normalizeApprovalChainApprovers values⟩ request document = .ok approvers ↔
      ("admin" ∈ request.user.roles ∨ document.ownerId = buildActorId request.user ∧
        "editor" ∈ request.user.roles) ∧
        document.status = .PENDING ∧ document.approvalStep = 0 ∧ canSaveDraft false values = true ∧
        approvers = normalizeApprovalChainApprovers values := by
  have hsame : ((normalizeApprovalChainApprovers values).map trim).filter (· ≠ "") =
    normalizeApprovalChainApprovers values := normalize_normalize values
  unfold DocumentsService.approvalChainGuard
  dsimp only
  rw [hsame, canSaveDraft_iff]
  have hactor : request.context.actorId = buildActorId request.user := rfl
  have hroles : request.context.roles = request.user.roles := rfl
  rw [hactor, hroles]
  by_cases hmay : "admin" ∈ request.user.roles ∨ document.ownerId = buildActorId request.user ∧
    "editor" ∈ request.user.roles
  · have hpass : ¬((!request.user.roles.contains "admin" &&
      !(decide (document.ownerId = buildActorId request.user) &&
        (request.user.roles.contains "editor" || request.user.roles.contains "admin"))) = true) := by
      rcases hmay with h | h <;> simp [h]
    rw [if_neg hpass]
    by_cases hstart : document.status = .PENDING ∧ document.approvalStep = 0
    · rw [if_neg (by simp [hstart])]
      by_cases hempty : normalizeApprovalChainApprovers values = []
      · simp [hempty]
      · rw [if_neg (by simpa using hempty)]
        by_cases hnodup : (normalizeApprovalChainApprovers values).Nodup
        · rw [if_neg (by simpa [dedup_length] using hnodup)]
          simp only [Except.ok.injEq, hmay, hstart, hempty, hnodup, true_and, ne_eq, not_false_eq_true, eq_comm]
        · rw [if_pos (by simpa [dedup_length] using hnodup)]
          simp [hnodup]
    · rw [if_pos (by simpa [or_iff_not_imp_left] using hstart)]
      apply Iff.intro
      · intro h
        cases h
      · intro h
        exact absurd ⟨h.2.1, h.2.2.1⟩ hstart
  · have hrefuse : (!request.user.roles.contains "admin" &&
      !(decide (document.ownerId = buildActorId request.user) &&
        (request.user.roles.contains "editor" || request.user.roles.contains "admin"))) = true := by
      obtain ⟨hadmin, howner⟩ := not_or.mp hmay
      simpa [hadmin, imp_iff_not_or] using howner
    rw [if_pos hrefuse]
    simp [hmay]

end

section
variable {ι : Type} (p : ι) {db db' : MetadataDb ι} {docId : String} {request : Request} {document saved : Document}

theorem findInOrg_eval : Eval DocumentExec p (findInOrg docId request) db (.ok document) db' ↔
    request.organizationId = some document.organizationId ∧ db.find docId = some document ∧ db' = db := by
  unfold findInOrg
  rw [eval_ofExcept_bind]
  apply Iff.intro
  · intro h
    obtain ⟨organizationId, horg, h⟩ := h
    obtain ⟨answer, db₁, hfind, h⟩ := eval_op_bind.mp h
    obtain ⟨hanswer, hdb⟩ := Prod.mk.inj hfind
    cases answer with
    | none => cases h
    | some d =>
      obtain ⟨hd, hsame⟩ := Option.filter_eq_some_iff.mp hanswer.symm
      cases h
      exact ⟨by rw [requireOrgId_ok.mp horg, of_decide_eq_true hsame], hd, hdb⟩
  · intro h
    obtain ⟨horg, hfind, rfl⟩ := h
    refine ⟨_, requireOrgId_ok.mpr horg, eval_op_bind.mpr ⟨some document, db', ?_, .ret ..⟩⟩
    simp [DocumentExec, documentRun, hfind, Option.filter]

theorem update_eval {data : DocumentUpdate} {row : Option DocumentWorkflowHistory} :
    Eval DocumentExec p (updateDocument docId false data row >>= fun result => Prog.ofExcept (updated result)) db
      (.ok saved) db' ↔
    ∃ found, db.find docId = some found ∧ saved = data.set found ∧
    db' = db.update p docId false data row found := by
  rw [eval_op_bind]
  have htarget : db.target docId false = db.find docId := by
    unfold MetadataDb.target
    cases db.find docId <;> simp [Option.filter]
  apply Iff.intro
  · intro h
    obtain ⟨answer, db₁, hx, h⟩ := h
    obtain ⟨hanswer, rfl⟩ := eval_ofExcept.mp h
    rcases hx with hx | ⟨rfl, -⟩
    · simp only [documentRun, htarget] at hx
      cases hfound : db.find docId with
      | none =>
        rw [hfound] at hx
        obtain ⟨rfl, -⟩ := Prod.mk.inj hx
        cases hanswer
      | some found =>
        rw [hfound] at hx
        obtain ⟨rfl, rfl⟩ := Prod.mk.inj hx
        exact ⟨found, rfl, (Except.ok.inj hanswer).symm, rfl⟩
    · cases hanswer
  · intro h
    obtain ⟨found, hfound, rfl, rfl⟩ := h
    refine ⟨_, _, documentRun_exec p db _, ?_⟩
    simp only [documentRun, htarget, hfound]
    exact eval_ofExcept.mpr ⟨rfl, rfl⟩

variable (maxLength : Nat → String → Bool) (values : List String)

/-- What the route stores, and when. -/
theorem setApprovalChain_eval : Eval DocumentExec p (GatewayMetadata.setApprovalChain maxLength docId
      ⟨normalizeApprovalChainApprovers values⟩ request) db (.ok saved) db' ↔
    ApprovalChainDto.isValid maxLength ⟨normalizeApprovalChainApprovers values⟩ = true ∧ ∃ found,
      db.find docId = some found ∧ request.organizationId = some found.organizationId ∧
      ("admin" ∈ request.user.roles ∨ found.ownerId = buildActorId request.user ∧ "editor" ∈ request.user.roles) ∧
      found.status = .PENDING ∧ found.approvalStep = 0 ∧ canSaveDraft false values = true ∧
      saved = { found with approvalChain := normalizeApprovalChainApprovers values, approvalStep := 0 } ∧
      db' = db.update p docId false
        { approvalChain := some (normalizeApprovalChainApprovers values), approvalStep := some 0 } none found := by
  unfold GatewayMetadata.setApprovalChain DocumentsController.setApprovalChain DocumentsService.setApprovalChain
  rw [eval_ofExcept_bind]
  apply Iff.intro
  · intro h
    obtain ⟨_, _, h⟩ := h
    split at h
    · rename_i hvalid
      obtain ⟨_, _, hread⟩ := eval_ofExcept_bind.mp h
      obtain ⟨found, db₁, hfind, hrest⟩ := eval_bind.mp hread
      obtain ⟨horg, hfind, rfl⟩ := (findInOrg_eval p).mp hfind
      obtain ⟨approvers, hguard, hwrite⟩ := eval_ofExcept_bind.mp hrest
      obtain ⟨hmay, hstatus, hstep, hsave, rfl⟩ := approvalChainGuard_ok.mp hguard
      obtain ⟨found', hfind', rfl, rfl⟩ := (update_eval p).mp hwrite
      obtain rfl := Option.some.inj (hfind.symm.trans hfind')
      exact ⟨hvalid, found, hfind, horg, hmay, hstatus, hstep, hsave, rfl, rfl⟩
    · cases h
  · intro h
    obtain ⟨hvalid, found, hfind, horg, hmay, hstatus, hstep, hsave, rfl, rfl⟩ := h
    have hrole : hasSome ["editor", "admin"] request.user.roles = true := by
      rcases hmay with h | h <;> simp [hasSome, h]
    refine ⟨(), rolesGuard_ok.mpr hrole, ?_⟩
    rw [if_pos hvalid, eval_ofExcept_bind]
    refine ⟨(), rolesGuard_ok.mpr hrole, eval_bind.mpr ⟨found, db, (findInOrg_eval p).mpr ⟨horg, hfind, rfl⟩, ?_⟩⟩
    refine eval_ofExcept_bind.mpr ⟨_, approvalChainGuard_ok.mpr ⟨hmay, hstatus, hstep, hsave, rfl⟩, ?_⟩
    exact (update_eval p).mpr ⟨found, hfind, rfl, rfl⟩

/-- A stored chain that is edited without selecting anybody is stored again unless it is empty. -/
theorem edited_saved {edits : List ChainEdit} (hedits : ∀ edit ∈ edits, edit.selects = false)
    (h : Eval DocumentExec p (GatewayMetadata.setApprovalChain maxLength docId
      ⟨normalizeApprovalChainApprovers values⟩ request) db (.ok saved) db') :
    let draft := edits.foldl ChainEdit.apply (createApprovalChainDraft saved.approvalChain)
    (∃ again db'', Eval DocumentExec p (GatewayMetadata.setApprovalChain maxLength docId
      ⟨normalizeApprovalChainApprovers draft⟩ request) db' (.ok again) db'') ↔
      normalizeApprovalChainApprovers draft ≠ [] := by
  intro draft
  obtain ⟨hvalid, found, hfind, horg, hmay, hstatus, -, hsave, rfl, rfl⟩ :=
    (setApprovalChain_eval p maxLength values).mp h
  obtain ⟨hne, hnodup⟩ := (canSaveDraft_iff values).mp hsave
  have hsub : (normalizeApprovalChainApprovers draft).Subperm (normalizeApprovalChainApprovers values) := by
    have hstart : normalizeApprovalChainApprovers (createApprovalChainDraft
      (normalizeApprovalChainApprovers values)) =
        normalizeApprovalChainApprovers values := by rw [draft_normalized values hne, normalize_normalize]
    rw [← hstart]
    exact edits_subperm _ hedits
  rw [ApprovalChainDto.isValid, Bool.and_eq_true, Bool.and_eq_true, decide_eq_true_eq, List.all_eq_true] at hvalid
  obtain ⟨⟨-, hshort⟩, hwords⟩ := hvalid
  apply Iff.intro
  · intro hagain
    obtain ⟨again, db'', hx⟩ := hagain
    obtain ⟨-, _, -, -, -, -, -, hdraft, -⟩ := (setApprovalChain_eval p maxLength draft).mp hx
    exact ((canSaveDraft_iff draft).mp hdraft).1
  · intro hdraft
    have hshort' : (normalizeApprovalChainApprovers draft).length ≤ 20 :=
      hsub.length_le.trans (of_decide_eq_true hshort)
    refine ⟨_, _, (setApprovalChain_eval p maxLength draft).mpr
      ⟨?_, _, (find_update hfind docId).trans (if_pos rfl), horg,
      hmay, hstatus, rfl, (canSaveDraft_iff draft).mpr ⟨hdraft, subperm_nodup hsub hnodup⟩, rfl, rfl⟩⟩
    rw [ApprovalChainDto.isValid, Bool.and_eq_true, Bool.and_eq_true, decide_eq_true_eq, List.all_eq_true]
    exact ⟨⟨List.length_pos_iff.mpr hdraft, decide_eq_true hshort'⟩,
      fun approver hmem => hwords approver (hsub.subset hmem)⟩

/-- The card saves a chain exactly if the route takes it, but for a chain that has started or is too long, and
what it shows afterwards and edits next is the chain that was sent. -/
theorem chain_saved_iff (session : Session) (organizationId : Option String) (now : Time)
    (h : Readable p db docId (session.request organizationId now) document) :
    ((∃ saved db', Eval DocumentExec p (GatewayMetadata.setApprovalChain maxLength docId
        ⟨normalizeApprovalChainApprovers values⟩ (session.request organizationId now)) db (.ok saved) db') ↔
      canSaveDraft false values = true ∧ canEditApprovalChain document.chainDetail
          (WebPermissions.canEditDocument (some session) document.loaded) = true ∧
        document.approvalStep = 0 ∧ (normalizeApprovalChainApprovers values).length ≤ 20 ∧
        ∀ approver ∈ normalizeApprovalChainApprovers values, maxLength 120 approver = true) ∧
    ∀ saved db', Eval DocumentExec p (GatewayMetadata.setApprovalChain maxLength docId
        ⟨normalizeApprovalChainApprovers values⟩ (session.request organizationId now)) db (.ok saved) db' →
      db'.find docId = some saved ∧ shown .approved (buildApprovalChainModel saved.chainDetail) = [] ∧
      shown .current (buildApprovalChainModel saved.chainDetail) = (normalizeApprovalChainApprovers values).take 1 ∧
      createApprovalChainDraft ((buildApprovalChainModel saved.chainDetail).steps.map (·.approverId)) =
        normalizeApprovalChainApprovers values := by
  obtain ⟨hfind, horg⟩ := h.found p
  have hmay : WebPermissions.canEditDocument (some session) document.loaded = true ↔
      "admin" ∈ session.user.roles ∨ document.ownerId = session.user.sub ∧ "editor" ∈ session.user.roles := by
    unfold WebPermissions.canEditDocument
    by_cases hadmin : "admin" ∈ session.user.roles <;> by_cases heditor : "editor" ∈ session.user.roles <;>
      simp [WebPermissions.hasRole, WebPermissions.isOwner, Document.loaded, hadmin, heditor]
  have hvalid : canSaveDraft false values = true →
      (ApprovalChainDto.isValid maxLength ⟨normalizeApprovalChainApprovers values⟩ = true ↔
        (normalizeApprovalChainApprovers values).length ≤ 20 ∧
          ∀ approver ∈ normalizeApprovalChainApprovers values, maxLength 120 approver = true) := by
    intro hsave
    have hpos : 1 ≤ (normalizeApprovalChainApprovers values).length :=
      List.length_pos_iff.mpr ((canSaveDraft_iff values).mp hsave).1
    simp [ApprovalChainDto.isValid, hpos]
  refine ⟨?_, fun saved db' hx => ?_⟩
  · simp only [setApprovalChain_eval]
    apply Iff.intro
    · intro hx
      obtain ⟨saved, db', hv, found, hfind', -, hm, hstatus, hstep, hsave, -, -⟩ := hx
      obtain rfl := Option.some.inj (hfind.symm.trans hfind')
      refine ⟨hsave, ?_, hstep, (hvalid hsave).mp hv⟩
      rw [canEditApprovalChain, hmay.mpr hm]
      simp [Document.chainDetail, hstatus]
    · intro hx
      obtain ⟨hsave, hedit, hstep, hshort⟩ := hx
      simp only [canEditApprovalChain, Document.chainDetail, Bool.and_eq_true] at hedit
      exact ⟨_, _, (hvalid hsave).mpr hshort, document, hfind, horg, hmay.mp hedit.1,
        of_decide_eq_true hedit.2, hstep, hsave, rfl, rfl⟩
  · obtain ⟨-, found, hfind', -, -, hstatus, -, hsave, rfl, rfl⟩ := (setApprovalChain_eval p maxLength values).mp hx
    have hne : normalizeApprovalChainApprovers values ≠ [] := ((canSaveDraft_iff values).mp hsave).1
    refine ⟨?_, ?_, ?_, ?_⟩
    · rw [find_update hfind', if_pos rfl]
      rfl
    · rw [shown_approved, hstatus]
      simp
    · rw [shown_current]
      simp [buildApprovalChainModel, Document.chainDetail, hstatus, List.take_one, List.head?_eq_getElem?]
    · rw [steps_ids, draft_normalized values hne]

end

def ownerSession : Session := ⟨⟨"u-1", ["editor"], []⟩⟩

theorem owner_readable : Readable () pendingDb "d-1" (ownerSession.request (some "o-1") 0) pendingDocument :=
  ⟨pendingDb, (findOne_eval ()).mpr
    ⟨by simp [hasSome, ownerSession, Session.request], rfl, pendingDb_find, by decide, rfl⟩⟩

theorem chain_saved_sample :
    ∃ saved db', Eval DocumentExec () (GatewayMetadata.setApprovalChain (fun n s => s.length ≤ n)
    "d-1" ⟨normalizeApprovalChainApprovers [" u-8", "", "u-7"]⟩ (ownerSession.request (some "o-1") 0)) pendingDb
      (.ok saved) db' :=
  (chain_saved_iff () (fun n s => s.length ≤ n) [" u-8", "", "u-7"] ownerSession
    (some "o-1") 0 owner_readable).1.mpr
    ⟨by decide +kernel, by decide +kernel, rfl, by decide +kernel, by decide +kernel⟩

end ApprovalChainCard

end DocVault
