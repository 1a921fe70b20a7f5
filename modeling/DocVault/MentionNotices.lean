import DocVault.Mentions
import DocVault.TenantRoutes
import DocVault.UnreadBadge

/-!
# Notices of mentions

What `CommentsService.create` sends to the notification service for the users
that a comment mentions, and what these find in their inboxes. The notices are
sent to usernames; an inbox is read by the subject of the token.
-/

namespace DocVault

/-! ## The notice -/

namespace CommentsService

def stringOf (units : Text) : String := String.ofList (units.map Char.ofNat)

/-- `parseMentions(content)` -/
def mentionsOf (content : String) : List String := (parseMentions (utf16 content)).map stringOf

def mentioned (comment : DocumentComment) : List String :=
  (mentionsOf comment.content).filter fun username => username ≠ comment.authorId

def mentionNotice (comment : DocumentComment) (traceId : Nullable String) : NotifyDto where
  type := .MENTIONED
  docId := comment.docId
  recipientIds := some (mentioned comment)
  traceId := traceId
  metadata := some [("commentId", .str comment.id), ("mentionedBy", .str comment.authorId)]

/-! ### Usernames as strings -/

theorem utf16_stringOf {units : Text} (h : ∀ u ∈ units, u < 128) : utf16 (stringOf units) = units := by
  have hunit : ∀ u < 128, utf16Units (Char.ofNat u) = [u] := by decide
  unfold utf16 stringOf
  rw [String.toList_ofList, List.flatMap_map]
  induction units with
  | nil => rfl
  | cons u units ih =>
    obtain ⟨hu, hunits⟩ := List.forall_mem_cons.mp h
    rw [List.flatMap_cons, hunit u hu, ih hunits]
    rfl

theorem stringOf_utf16 {s : String} (h : ∀ u ∈ utf16 s, u < 128) : stringOf (utf16 s) = s := by
  have hchar : ∀ c : Char, (∀ u ∈ utf16Units c, u < 128) → (utf16Units c).map Char.ofNat = [c] := by
    intro c hc
    unfold utf16Units at hc ⊢
    split
    · simp
    · rename_i hlarge
      rw [if_neg hlarge] at hc
      have hsurrogate := hc _ List.mem_cons_self
      omega
  have hall : ∀ l : List Char, (∀ u ∈ l.flatMap utf16Units, u < 128) →
    (l.flatMap utf16Units).map Char.ofNat = l := by
    intro l hl
    induction l with
    | nil => rfl
    | cons c l ih =>
      simp only [List.flatMap_cons, List.forall_mem_append] at hl
      rw [List.flatMap_cons, List.map_append, hchar c hl.1, ih hl.2]
      rfl
  unfold stringOf
  rw [utf16, hall s.toList h, String.ofList_toList]

/-- A string is among the mentions as its units are among the parsed ones. -/
theorem mem_mentionsOf {content username : String} :
    username ∈ mentionsOf content ↔ utf16 username ∈ parseMentions (utf16 content) := by
  have hascii : ∀ u ∈ parseMentions (utf16 content), ∀ v ∈ u, v < 128 := by
    intro u hu v hv
    obtain ⟨i, hi⟩ := ((Mentions.parses (utf16 content)).exact u).mp hu
    exact Mentions.nameUnit_lt ((Mentions.username_of_mention hi).names v hv)
  unfold mentionsOf
  rw [List.mem_map]
  apply Iff.intro
  · intro h
    obtain ⟨u, hu, rfl⟩ := h
    rw [utf16_stringOf (hascii u hu)]
    exact hu
  · intro h
    exact ⟨_, h, stringOf_utf16 (hascii _ h)⟩

end CommentsService

open NotificationService NotificationController
open CommentsService (mentionsOf mentioned mentionNotice newComment)

/-- What `create` leaves in the notification service, and whether the notice was delivered if there was one. -/
def notifyMentions (draws : Draws) (comment : DocumentComment) (traceId : Nullable String) (s : NotifyState) :
    NotifyState × Bool :=
  if 0 < (mentioned comment).length then
    match notify draws (mentionNotice comment traceId) s with
    | (s, .ok _) => (s, true)
    | (s, .error _) => (s, false)
  else (s, true)

/-! ## Inboxes over time -/

inductive InboxStep where
  | notify (dto : NotifyDto)
  | markAsRead (id : String)
  | markAllRead (userId : String)

def inboxStep (draws : Draws) (s : NotifyState) : InboxStep → NotifyState
  | .notify dto => (notify draws dto s).1
  | .markAsRead id => { s with store := (NotificationService.markAsRead s.store id).2 }
  | .markAllRead userId => { s with store := NotificationService.markAllRead s.store userId }

def inboxRun (draws : Draws) (steps : List InboxStep) : NotifyState :=
  steps.foldl (inboxStep draws) { store := Keyed.Table.empty Notification.id, created := [], drawn := 0 }

/-! ## What the users see -/

structure TokenUser where
  sub : String
  username : String
  roles : List String

def TokenUser.user (u : TokenUser) : ServiceUser := ⟨some u.sub, some u.username, u.roles⟩

def isMention (commentId : String) (record : NotificationRecord) : Bool :=
  record.type = .MENTIONED && match record.metadata.bind fun metadata => metadata.get? [.key "commentId"] with
    | some (.str id) => id = commentId
    | _ => false

/-- The pages of the user's list, asked for with any numeric limit, hold `n` notices of a mention in the comment. -/
def Sees (cursor : Cursor) (t : Collection) (caller : ServiceUser) (commentId : String) (n : Nat) : Prop :=
  ∀ limit, queryNumber 20 limit ≠ .nan → ∃ size : Nat, pageSize limit = .finite size ∧
    (listed cursor caller t limit (Paging.pageCount size (ownRows caller t).length)).map
      (fun records => records.countP (isMention commentId)) = some n

/-- The mentioned users, and they alone, see one notice each; the author sees none. -/
structure MentionsReach (cursor : Cursor) (t : Collection) (users : List TokenUser) (author : TokenUser)
    (comment : DocumentComment) : Prop where
  users : ∀ user ∈ users, user.sub ≠ author.sub →
    (Sees cursor t user.user comment.id 1 ↔ user.username ∈ mentionsOf comment.content)
  author : Sees cursor t author.user comment.id 0

/-! ## What holds of the inboxes -/

section
variable {draws : Draws} {s s' : NotifyState} {dto : NotifyDto} {r : String}

def DrawnRow (draws : Draws) (drawn : Nat) (n : Notification) : Prop :=
  ∃ k < drawn, n._id = draws._id k ∧ n.createdAt = draws.now k ∧ n.id = draws.uid k

structure InboxInv (draws : Draws) (s : NotifyState) : Prop where
  drawn : ∀ n ∈ s.store.rows, DrawnRow draws s.drawn n
  ordered : s.store.rows.Pairwise Older
  bounded : ∀ r, (rowsOf r s.store.rows).length ≤ MAX_PER_RECIPIENT

theorem DrawnRow.later {n : Notification} {k : Nat} (h : DrawnRow draws k n) : DrawnRow draws (k + 1) n := by
  obtain ⟨j, hj, hn⟩ := h
  exact ⟨j, Nat.lt_succ_of_lt hj, hn⟩

theorem DrawnRow.older {n : Notification} {k : Nat} (h : DrawnRow draws k n) :
    Older n (newRecord draws dto r k) := by
  obtain ⟨j, hj, hid, hat, -⟩ := h
  exact ⟨(congrArg JsDate.ms hat).trans_le (draws.now_le hj.le), hid.trans_lt (draws._id_lt hj)⟩

theorem InboxInv.refused (h : InboxInv draws s) : InboxInv draws { s with drawn := s.drawn + 1 } :=
  ⟨fun n hn => (h.drawn n hn).later, h.ordered, h.bounded⟩

theorem create_rows {t t' : Collection} {n : Notification} (h : create t n = .ok t') : t'.rows = t.rows ++ [n] := by
  unfold create at h
  split at h
  · cases h
  · split at h
    · cases h
    · split at h
      · cases h
      · split at h
        · cases h
        · rename_i hinsert
          rw [← Except.ok.inj h]
          exact (Keyed.Table.insert_some.mp hinsert).2

structure Received (before after : List Notification) (n : Notification) : Prop where
  kept : ∃ kept, after = kept ++ [n] ∧ kept.Sublist before
  bounded : after.length ≤ MAX_PER_RECIPIENT

theorem pruneRecipient_sublist (t : Collection) : (pruneRecipient r t).rows.Sublist t.rows := by
  unfold pruneRecipient
  simp only []
  split
  · exact List.Sublist.refl _
  · split
    · exact List.filter_sublist
    · exact List.Sublist.refl _

theorem received_of_create {t : Collection} (hinv : InboxInv draws s)
    (ht : t.rows = s.store.rows ++ [newRecord draws dto r s.drawn]) :
    InboxInv draws
      { store := pruneRecipient r t, created := s.created ++ [newRecord draws dto r s.drawn],
        drawn := s.drawn + 1 } ∧
      Received (rowsOf r s.store.rows) (rowsOf r (pruneRecipient r t).rows) (newRecord draws dto r s.drawn) ∧
      ∀ r' ≠ r, rowsOf r' (pruneRecipient r t).rows = rowsOf r' s.store.rows := by
  have hn : (newRecord draws dto r s.drawn).recipientId = r := rfl
  have hordered : t.rows.Pairwise Older := by
    rw [ht]
    refine List.pairwise_append.mpr ⟨hinv.ordered, List.pairwise_singleton _ _, fun m hm n hn => ?_⟩
    rw [List.mem_singleton.mp hn]
    exact (hinv.drawn m hm).older
  have hrow : ∀ n ∈ t.rows, DrawnRow draws (s.drawn + 1) n := by
    intro n hn
    rw [ht] at hn
    obtain hn | hn := List.mem_append.mp hn
    · exact (hinv.drawn n hn).later
    · rw [List.mem_singleton.mp hn]
      exact ⟨s.drawn, Nat.lt_succ_self _, rfl, rfl, rfl⟩
  have hothers : ∀ r' ≠ r, rowsOf r' (pruneRecipient r t).rows = rowsOf r' s.store.rows := by
    intro r' hne
    rw [pruneRecipient_others hne, ht, rowsOf_append, rowsOf_other (hn.trans_ne hne.symm), List.append_nil]
  have hown : rowsOf r (pruneRecipient r t).rows =
      (rowsOf r s.store.rows ++ [newRecord draws dto r s.drawn]).rtake MAX_PER_RECIPIENT := by
    rw [pruneRecipient_own (hordered.filter _), ht, rowsOf_append, rowsOf_own hn]
  have hlast : (rowsOf r s.store.rows ++ [newRecord draws dto r s.drawn]).rtake MAX_PER_RECIPIENT =
      (rowsOf r s.store.rows).rtake 99 ++ [newRecord draws dto r s.drawn] := List.rtake_concat_succ _ 99 _
  have hlength : (rowsOf r (pruneRecipient r t).rows).length ≤ MAX_PER_RECIPIENT := by
    rw [hown, List.rtake, List.length_drop]
    omega
  refine ⟨⟨fun n hn => hrow n ((pruneRecipient_sublist t).subset hn),
    hordered.sublist (pruneRecipient_sublist t), ?_⟩,
    ⟨⟨_, hown.trans hlast, List.drop_sublist _ _⟩, hlength⟩, hothers⟩
  intro r'
  by_cases hr : r' = r
  · rw [hr]
    exact hlength
  · rw [hothers r' hr]
    exact hinv.bounded r'

structure Delivers (dto : NotifyDto) (recipients : List String) (draws : Draws) (s s' : NotifyState) : Prop where
  own : ∀ r ∈ recipients, ∃ k, Received (rowsOf r s.store.rows) (rowsOf r s'.store.rows) (newRecord draws dto r k)
  others : ∀ r ∉ recipients, rowsOf r s'.store.rows = rowsOf r s.store.rows

theorem notifyEach_inbox (recipients : List String) (hinv : InboxInv draws s) (hnodup : recipients.Nodup) :
    InboxInv draws (notifyEach draws dto recipients s).1 ∧
      ((notifyEach draws dto recipients s).2 = none →
        Delivers dto recipients draws s (notifyEach draws dto recipients s).1) := by
  induction recipients generalizing s with
  | nil => exact ⟨hinv, fun _ => ⟨by simp, fun _ _ => rfl⟩⟩
  | cons r rest ih =>
    obtain ⟨hr, hrest⟩ := List.nodup_cons.mp hnodup
    rw [notifyEach]
    cases hcreate : create s.store (newRecord draws dto r s.drawn) with
    | error e => exact ⟨hinv.refused, by simp⟩
    | ok t =>
      obtain ⟨hinv', hreceived, hothers⟩ := received_of_create hinv (create_rows hcreate)
      obtain ⟨hafter, hdelivers⟩ := ih hinv' hrest
      refine ⟨hafter, fun hnone => ?_⟩
      have hd := hdelivers hnone
      refine ⟨fun r' hr' => ?_, fun r' hr' => ?_⟩
      · obtain rfl | hr' := List.mem_cons.mp hr'
        · refine ⟨s.drawn, ?_⟩
          rw [hd.others r' hr]
          exact hreceived
        · obtain ⟨k, hk⟩ := hd.own r' hr'
          have hne : r' ≠ r := fun heq => hr (heq ▸ hr')
          rw [hothers r' hne] at hk
          exact ⟨k, hk⟩
      · rw [List.mem_cons, not_or] at hr'
        rw [hd.others r' hr'.2, hothers r' hr'.1]

/-! ### Marking -/

theorem InboxInv.marked {t : Collection} (h : InboxInv draws s) {f : Notification → Notification}
    (hf : ∀ n ∈ s.store.rows, f n = { n with read := (f n).read }) (ht : t.rows = s.store.rows.map f) :
    InboxInv draws { s with store := t } := by
  have hrecipient : ∀ r, rowsOf r t.rows = (rowsOf r s.store.rows).map f := by
    intro r
    rw [ht]
    unfold rowsOf
    rw [List.filter_map]
    congr 1
    refine List.filter_congr fun n hn => ?_
    have hsame := congrArg Notification.recipientId (hf n hn)
    simp [hsame]
  refine ⟨fun n hn => ?_, ?_, fun r => ?_⟩
  · rw [ht] at hn
    obtain ⟨m, hm, rfl⟩ := List.mem_map.mp hn
    rw [hf m hm]
    exact h.drawn m hm
  · change t.rows.Pairwise Older
    rw [ht, List.pairwise_map]
    refine h.ordered.imp_of_mem fun ha hb hab => ?_
    rw [hf _ ha, hf _ hb]
    exact hab
  · change (rowsOf r t.rows).length ≤ _
    rw [hrecipient, List.length_map]
    exact h.bounded r

theorem InboxInv.markAllRead (h : InboxInv draws s) (userId : String) :
    InboxInv draws { s with store := NotificationService.markAllRead s.store userId } := by
  refine h.marked (f := readBy userId) (fun n _ => ?_) rfl
  unfold readBy
  split <;> rfl

theorem InboxInv.markAsRead (h : InboxInv draws s) (id : String) :
    InboxInv draws { s with store := (NotificationService.markAsRead s.store id).2 } := by
  cases hfind : s.store.find id with
  | none =>
    rw [markAsRead_missing hfind]
    exact h
  | some n =>
    rw [markAsRead_found hfind]
    refine h.marked (f := fun m => if m.id = n.id then { n with read := true } else m) (fun m hm => ?_) rfl
    by_cases hid : m.id = n.id
    · rw [if_pos hid, s.store.unique.eq hm (Keyed.find_some hfind).1 hid]
    · rw [if_neg hid]

theorem nodup_uniqueRecipients (dto : NotifyDto) : (uniqueRecipients dto).Nodup := nodup_eraseDups _

theorem inboxRun_inv (draws : Draws) (steps : List InboxStep) : InboxInv draws (inboxRun draws steps) := by
  induction steps using List.reverseRecOn with
  | nil => exact ⟨fun n hn => absurd hn List.not_mem_nil, List.Pairwise.nil, fun r => Nat.zero_le _⟩
  | append_singleton steps step ih =>
    rw [inboxRun, List.foldl_append, List.foldl_cons, List.foldl_nil]
    cases step with
    | notify dto =>
      rw [inboxStep, notify_state]
      exact (notifyEach_inbox _ ih (nodup_uniqueRecipients dto)).1
    | markAsRead id => exact ih.markAsRead id
    | markAllRead userId => exact ih.markAllRead userId

end

/-! ## What is seen -/

section
variable {draws : Draws} {s : NotifyState} {cursor : Cursor} {comment : DocumentComment} {traceId : Nullable String}
  {r commentId : String} {t : Collection}

/-- The notices of a mention in the comment that are stored for a recipient. -/
def noticesFor (commentId r : String) (t : Collection) : Nat :=
  (rowsOf r t.rows).countP fun n => isMention commentId (toRecord n)

theorem sees_iff (hcuts : Cuts cursor) (caller : ServiceUser)
    (hbounded : (ownRows caller t).length ≤ MAX_PER_RECIPIENT)
    (n : Nat) : Sees cursor t caller commentId n ↔ noticesFor commentId (userIdOf (some caller)) t = n := by
  have htotal : (ownRows caller t).length < 2 ^ 53 := lt_of_le_of_lt hbounded (by decide)
  have hcount : ∀ limit, queryNumber 20 limit ≠ .nan → ∃ size : Nat, pageSize limit = .finite size ∧
      (listed cursor caller t limit (Paging.pageCount size (ownRows caller t).length)).map
        (fun records => records.countP (isMention commentId)) =
          some (noticesFor commentId (userIdOf (some caller)) t) := by
    intro limit hlimit
    obtain ⟨size, hsize, hall⟩ := listed_all hcuts hlimit htotal
    refine ⟨size, hsize, ?_⟩
    rw [hall, Option.map_some, countP_byNewest]
    rfl
  apply Iff.intro
  · intro h
    have hlimit : queryNumber 20 none ≠ .nan := by simp [queryNumber]
    obtain ⟨size, hsize, hn⟩ := h none hlimit
    obtain ⟨size', hsize', hn'⟩ := hcount none hlimit
    have heq : size' = size := by
      have hfinite := JsNumber.finite.inj (hsize'.symm.trans hsize)
      exact Rat.natCast_inj.mp hfinite
    rw [heq] at hn'
    exact Option.some.inj (hn'.symm.trans hn)
  · intro h
    rw [← h]
    exact hcount

theorem isMention_notice (k : Nat) :
    isMention comment.id (toRecord (newRecord draws (mentionNotice comment traceId) r k)) = true := by
  have hmetadata : (sanitizeNotificationMetadata
      (.obj [("commentId", .str comment.id), ("mentionedBy", .str comment.authorId)])).get? [.key "commentId"] =
        some (.str comment.id) := rfl
  simp [isMention, toRecord, newRecord, mentionNotice, hmetadata]

theorem notified_inbox (hinv : InboxInv draws s) (hdelivered : (notifyMentions draws comment traceId s).2 = true) :
    InboxInv draws (notifyMentions draws comment traceId s).1 ∧
      Delivers (mentionNotice comment traceId) (uniqueRecipients (mentionNotice comment traceId)) draws s
        (notifyMentions draws comment traceId s).1 := by
  have hnodup := nodup_uniqueRecipients (mentionNotice comment traceId)
  have heach : _ ∧ (_ → Delivers (mentionNotice comment traceId) _ draws s _) := notifyEach_inbox _ hinv hnodup
  unfold notifyMentions at hdelivered ⊢
  by_cases hsome : 0 < (mentioned comment).length
  · rw [if_pos hsome] at hdelivered ⊢
    unfold notify at hdelivered ⊢
    generalize notifyEach draws (mentionNotice comment traceId)
      (uniqueRecipients (mentionNotice comment traceId)) s = result at heach hdelivered ⊢
    obtain ⟨s', e⟩ := result
    cases e with
    | none => exact ⟨heach.1, heach.2 rfl⟩
    | some e => cases hdelivered
  · have hnone : mentioned comment = [] := List.eq_nil_of_length_eq_zero (by omega)
    have hempty : uniqueRecipients (mentionNotice comment traceId) = [] := by
      simp [uniqueRecipients, mentionNotice, hnone]
    rw [if_neg hsome, hempty]
    exact ⟨hinv, ⟨by simp, fun _ _ => rfl⟩⟩

theorem mem_recipients : r ∈ uniqueRecipients (mentionNotice comment traceId) ↔
    r ∈ mentionsOf comment.content ∧ r ≠ comment.authorId := by
  rw [mem_uniqueRecipients]
  simp [Addressed, mentionNotice, mentioned]

theorem noticesFor_after (hinv : InboxInv draws s) (hdelivered : (notifyMentions draws comment traceId s).2 = true)
    (hfresh : ∀ n ∈ s.store.rows, isMention comment.id (toRecord n) = false) (r : String) :
    noticesFor comment.id r (notifyMentions draws comment traceId s).1.store =
      if r ∈ mentionsOf comment.content ∧ r ≠ comment.authorId then 1 else 0 := by
  obtain ⟨-, hdelivers⟩ := notified_inbox hinv hdelivered
  have hnone : ∀ rows : List Notification, rows.Sublist (rowsOf r s.store.rows) →
      (rows.countP fun n => isMention comment.id (toRecord n)) = 0 := by
    intro rows hsub
    rw [List.countP_eq_zero]
    intro n hn
    rw [hfresh n (List.mem_of_mem_filter (hsub.subset hn))]
    exact Bool.false_ne_true
  unfold noticesFor
  split
  · rename_i h
    obtain ⟨k, ⟨kept, hafter, hsub⟩, -⟩ := hdelivers.own r (mem_recipients.mpr h)
    rw [hafter, List.countP_append, hnone kept hsub, List.countP_singleton, isMention_notice]
    rfl
  · rename_i h
    rw [hdelivers.others r fun hr => h (mem_recipients.mp hr)]
    exact hnone _ (List.Sublist.refl _)

end

/-! ## Who is reached -/

theorem sees_after {draws : Draws} {s : NotifyState} {cursor : Cursor} {comment : DocumentComment}
    {traceId : Nullable String} (hcuts : Cuts cursor) (hinv : InboxInv draws s)
    (hfresh : ∀ n ∈ s.store.rows, isMention comment.id (toRecord n) = false)
    (hdelivered : (notifyMentions draws comment traceId s).2 = true) (user : TokenUser) (n : Nat) :
    Sees cursor (notifyMentions draws comment traceId s).1.store user.user comment.id n ↔
      (if user.sub ∈ mentionsOf comment.content ∧ user.sub ≠ comment.authorId then 1 else 0) = n := by
  obtain ⟨hafter, -⟩ := notified_inbox hinv hdelivered
  rw [sees_iff hcuts user.user (hafter.bounded user.sub)]
  exact Eq.congr_left (noticesFor_after hinv hdelivered hfresh user.sub)

/-- The notices reach the mentioned users exactly when the comment names each user by the username
if and only if it also names them by the subject of their token. -/
theorem mentions_reach_iff (draws : Draws) (cursor : Cursor) (steps : List InboxStep) (users : List TokenUser)
    (author : TokenUser) (docId content commentId : String) (organizationId : Option String) (now : Time)
    (traceId : Nullable String) (hcuts : Cuts cursor)
    (hfresh : ∀ n ∈ (inboxRun draws steps).store.rows, isMention commentId (toRecord n) = false)
    (hdelivered : (notifyMentions draws
      (newComment docId content commentId ⟨author.user, organizationId, now⟩) traceId
      (inboxRun draws steps)).2 = true) :
    let comment := newComment docId content commentId ⟨author.user, organizationId, now⟩
    MentionsReach cursor (notifyMentions draws comment traceId
      (inboxRun draws steps)).1.store users author comment ↔
      ∀ user ∈ users, user.sub ≠ author.sub →
      (user.sub ∈ mentionsOf content ↔ user.username ∈ mentionsOf content) := by
  intro comment
  have hsees : ∀ (user : TokenUser) (n : Nat),
      Sees cursor (notifyMentions draws comment traceId (inboxRun draws steps)).1.store user.user comment.id n ↔
        (if user.sub ∈ mentionsOf comment.content ∧ user.sub ≠ comment.authorId then 1 else 0) = n :=
    sees_after hcuts (inboxRun_inv draws steps) hfresh hdelivered
  have hauthor : comment.authorId = author.sub := rfl
  have hcontent : comment.content = content := rfl
  have hone : ∀ user : TokenUser, user.sub ≠ author.sub →
      (Sees cursor (notifyMentions draws comment traceId (inboxRun draws steps)).1.store user.user comment.id 1 ↔
        user.sub ∈ mentionsOf content) := by
    intro user hne
    rw [hsees, hauthor, hcontent]
    by_cases h : user.sub ∈ mentionsOf content <;> simp [h, hne]
  apply Iff.intro
  · intro h user hu hne
    rw [← hone user hne]
    exact h.users user hu hne
  · intro h
    refine ⟨fun user hu hne => ?_, ?_⟩
    · rw [hone user hne]
      exact h user hu hne
    · rw [hsees, hauthor]
      simp

def annToken : TokenUser := ⟨"f3a1", "ann", []⟩

def bobToken : TokenUser := ⟨"9c04", "bob", []⟩

def annsComment (content : String) : DocumentComment :=
  newComment "d-1" content "c-1" ⟨annToken.user, some "o-1", 0⟩

def olderSteps : List InboxStep :=
  [.notify (mentionNotice (newComment "d-1" "@9c04" "c-0" ⟨annToken.user, some "o-1", 0⟩) .undef)]

theorem bothNames : mentionsOf "@bob @9c04" = ["bob", "9c04"] := by decide +kernel

theorem mentions_reach_sample :
    MentionsReach cutter
      (notifyMentions ticks (annsComment "@bob @9c04") .undef (inboxRun ticks olderSteps)).1.store
      [annToken, bobToken] annToken (annsComment "@bob @9c04") := by
  refine (mentions_reach_iff ticks cutter olderSteps [annToken,
    bobToken] annToken "d-1" "@bob @9c04" "c-1" (some "o-1") 0
    .undef cutter_cuts (by decide +kernel) (by decide +kernel)).mpr fun user hu hne => ?_
  rw [bothNames]
  rcases List.mem_cons.mp hu with rfl | hu
  · exact absurd rfl hne
  · obtain rfl := List.mem_singleton.mp hu
    decide

theorem mention_is_lost :
    ¬MentionsReach cutter (notifyMentions ticks (annsComment "@bob") .undef (inboxRun ticks [])).1.store
      [bobToken] annToken (annsComment "@bob") := by
  intro h
  have hbob : mentionsOf "@bob" = ["bob"] := by decide +kernel
  have hsees := (h.users bobToken (List.mem_singleton_self _) (by decide)).mpr
    (by simp [annsComment, newComment, hbob, bobToken])
  rw [sees_after cutter_cuts (inboxRun_inv ticks []) (by simp [inboxRun, Keyed.Table.empty])
    (by decide +kernel)] at hsees
  simp [annsComment, newComment, hbob, bobToken] at hsees

end DocVault
