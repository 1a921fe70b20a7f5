import DocVault.Notifications

/-!
# Notifications of other users

What a user's requests do to the notifications of others, and whether these show
in the answers. Listing and marking all look at the rows of the user alone.
Marking one row goes by its public id only, and the count of unread rows, which
no guard protects, is that of `anonymous` for everybody.
-/

namespace DocVault.NotificationController

open NotificationService

def others (userId : String) (t : Collection) : List Notification := t.rows.filter fun n => n.recipientId ≠ userId

def own (userId : String) (t : Collection) : Collection := t.filter fun n => n.recipientId = userId

section
variable (cursor : Cursor) (caller : ServiceUser)

def handleAll : List NotificationRequest → Collection → List Reply × Collection
  | [], t => ([], t)
  | request :: requests, t =>
    let (reply, t) := handle cursor caller request t
    let (replies, t) := handleAll requests t
    (reply :: replies, t)

/-- At no time has a notification of another user changed, and the answers are those
that the caller would get if there were none. -/
def Isolated (requests : List NotificationRequest) (t : Collection) : Prop :=
  let userId := userIdOf (some caller)
  (∀ k, others userId (handleAll cursor caller (requests.take k) t).2 = others userId t) ∧
    (handleAll cursor caller requests t).1 = (handleAll cursor caller requests (own userId t)).1

/-- The request stays with the caller's notifications. -/
def Scoped (request : NotificationRequest) (t : Collection) : Prop :=
  let userId := userIdOf (some caller)
  match request with
  | .markAsRead id => ∀ n ∈ t.rows, n.id = id → n.recipientId ≠ userId → n.read = true
  | .unreadCount => userId = "anonymous" ∨ ∀ n ∈ t.rows, n.recipientId = "anonymous" → n.read = true
  | .list _ _ => True
  | .markAllRead => True

def ScopedRun : List NotificationRequest → Collection → Prop
  | [], _ => True
  | request :: requests, t => Scoped caller request t ∧ ScopedRun requests (handle cursor caller request t).2

end

/-! ## One request -/

section
variable {cursor : Cursor} {caller : ServiceUser} {t : Collection} {userId : String}

theorem rowsOf_own : rowsOf userId (own userId t).rows = rowsOf userId t.rows :=
  List.filter_filter .. |>.trans (by simp [rowsOf])

theorem getForUser_own (page limit : JsNumber) :
    getForUser cursor (own userId t) userId page limit = getForUser cursor t userId page limit := by
  rw [getForUser, getForUser, rowsOf_own]

theorem readBy_recipientId (n : Notification) : (readBy userId n).recipientId = n.recipientId := by
  unfold readBy
  split
  · rfl
  · rfl

theorem readBy_other {n : Notification} (h : n.recipientId ≠ userId) : readBy userId n = n := by
  simp [readBy, h]

theorem markAllRead_own : markAllRead (own userId t) userId = own userId (markAllRead t userId) := by
  refine Keyed.Table.ext ?_
  change (t.rows.filter _).map (readBy userId) = (t.rows.map (readBy userId)).filter _
  rw [List.filter_map]
  exact congrArg _ (List.filter_congr fun n _ => by simp [readBy_recipientId])

theorem markAllRead_others : others userId (markAllRead t userId) = others userId t := by
  change (t.rows.map (readBy userId)).filter _ = t.rows.filter _
  rw [List.filter_map]
  have hfilter : t.rows.filter ((fun n => decide (n.recipientId ≠ userId)) ∘ readBy userId) = others userId t :=
    List.filter_congr fun n _ => by simp [readBy_recipientId]
  rw [hfilter]
  refine (List.map_congr_left fun n hn => ?_).trans (List.map_id _)
  exact readBy_other (of_decide_eq_true (List.mem_filter.mp hn).2)

/-! ### markAsRead -/

section
variable {id : String} {n : Notification}

theorem own_find : (own userId t).find id = (t.find id).filter fun n => n.recipientId = userId :=
  Keyed.Table.find_filter

theorem markAsRead_missing (h : t.find id = none) : markAsRead t id = (false, t) := by rw [markAsRead, h]

theorem markAsRead_found (h : t.find id = some n) : markAsRead t id = (!n.read, t.put { n with read := true }) := by
  rw [markAsRead, h]

theorem put_found (h : t.find id = some n) (hread : n.read = true) : t.put { n with read := true } = t := by
  have hn : { n with read := true } = n := by
    rw [← hread]
  rw [hn]
  refine Keyed.Table.ext ((List.map_congr_left fun r hr => ?_).trans (List.map_id _))
  by_cases hk : r.id = n.id
  · rw [if_pos hk, t.unique.eq hr (Keyed.find_some h).1 hk]
    rfl
  · rw [if_neg hk]
    rfl

theorem put_own (h : t.find id = some n) :
    (own userId t).put { n with read := true } = own userId (t.put { n with read := true }) := by
  refine Keyed.Table.ext (Keyed.put_filter fun r hr hk => ?_).symm
  rw [t.unique.eq hr (Keyed.find_some h).1 hk]

theorem put_others (h : t.find id = some n) (hown : n.recipientId = userId) :
    others userId (t.put { n with read := true }) = others userId t := by
  refine Keyed.put_filter_ne (by simpa using hown) fun r hr hk => ?_
  rw [t.unique.eq hr (Keyed.find_some h).1 hk]
  simpa using hown

theorem put_changes (h : t.find id = some n) (hother : n.recipientId ≠ userId) (hread : n.read = false) :
    others userId (t.put { n with read := true }) ≠ others userId t := by
  intro heq
  obtain ⟨-, rfl⟩ := Keyed.find_some h
  have hmem : { n with read := true } ∈ others userId (t.put { n with read := true }) :=
    List.mem_filter.mpr ⟨(Keyed.mem_put h).mpr (.inl rfl), by simpa using hother⟩
  rw [heq] at hmem
  have hsame := t.unique.eq (List.mem_of_mem_filter hmem) (Keyed.find_some h).1 rfl
  rw [← hsame] at hread
  cases hread

theorem markAsRead_beside (h : ∀ n ∈ t.rows, n.id = id → n.recipientId ≠ userId → n.read = true) :
    others userId (NotificationService.markAsRead t id).2 = others userId t ∧
      NotificationService.markAsRead (own userId t) id =
        ((NotificationService.markAsRead t id).1, own userId (NotificationService.markAsRead t id).2) := by
  cases hfind : t.find id with
  | none =>
    have hnone : (own userId t).find id = none := by rw [own_find, hfind, Option.filter_none]
    rw [markAsRead_missing hfind, markAsRead_missing hnone]
    exact ⟨rfl, rfl⟩
  | some n =>
    rw [markAsRead_found hfind]
    by_cases hown : n.recipientId = userId
    · have hsome : (own userId t).find id = some n := by
        rw [own_find, hfind, Option.filter_some_pos (by simpa using hown)]
      rw [markAsRead_found hsome, put_own hfind]
      exact ⟨put_others hfind hown, rfl⟩
    · -- The row was read before, and without it there is nothing to mark.
      have hread : n.read = true := h n (Keyed.find_some hfind).1 (Keyed.find_some hfind).2 hown
      have hnone : (own userId t).find id = none := by
        rw [own_find, hfind, Option.filter_some_neg (by simpa using hown)]
      rw [put_found hfind hread, markAsRead_missing hnone, hread]
      exact ⟨rfl, rfl⟩

end

/-! ### unread-count -/

theorem unread_zero : getUnreadCount t userId = 0 ↔ ∀ n ∈ t.rows, n.recipientId = userId → n.read = true := by
  simp [getUnreadCount, List.countP_eq_zero]

theorem unread_own : getUnreadCount (own userId t) userId = getUnreadCount t userId := by
  unfold getUnreadCount
  refine List.countP_filter .. |>.trans (List.countP_congr fun n _ => ?_)
  by_cases h : n.recipientId = userId
  · simp [h]
  · simp [h]

theorem unread_own_iff (reader : String) : getUnreadCount (own userId t) reader = getUnreadCount t reader ↔
    userId = reader ∨ ∀ n ∈ t.rows, n.recipientId = reader → n.read = true := by
  by_cases h : userId = reader
  · subst h
    simp [unread_own]
  · have hzero : getUnreadCount (own userId t) reader = 0 := unread_zero.mpr fun n hn hr => by
      have hown : n.recipientId = userId := of_decide_eq_true (List.mem_filter.mp hn).2
      exact absurd (hown.symm.trans hr) h
    rw [hzero, eq_comm, unread_zero]
    simp [h]

/-! ### All requests -/

theorem handle_list (page limit : Option String) : handle cursor caller (.list page limit) t =
    ((getForUser cursor t (userIdOf (some caller)) (queryNumber 1 page) (queryNumber 20 limit)).elim .failed .page,
      t) := by
  unfold handle
  simp only [NotificationRequest.guarded, if_true]
  cases getForUser cursor t (userIdOf (some caller)) (queryNumber 1 page) (queryNumber 20 limit) with
  | none => rfl
  | some page => rfl

theorem handle_unreadCount : handle cursor caller .unreadCount t = (.count (getUnreadCount t "anonymous"), t) := rfl

theorem handle_markAsRead (id : String) : handle cursor caller (.markAsRead id) t =
    (.ok (NotificationService.markAsRead t id).1, (NotificationService.markAsRead t id).2) := rfl

/-- The other users' notifications stay, and a request without them is answered alike and leaves the same. -/
structure Beside (cursor : Cursor) (caller : ServiceUser) (request : NotificationRequest)
    (t : Collection) : Prop where
  others_eq : others (userIdOf (some caller)) (handle cursor caller request t).2 = others (userIdOf (some caller)) t
  reply_eq : (handle cursor caller request t).1 = (handle cursor caller request (own (userIdOf (some caller)) t)).1
  own_eq : (handle cursor caller request (own (userIdOf (some caller)) t)).2 =
    own (userIdOf (some caller)) (handle cursor caller request t).2

theorem Scoped.beside {request : NotificationRequest} (h : Scoped caller request t) :
    Beside cursor caller request t := by
  cases request with
  | list page limit =>
    refine ⟨?_, ?_, ?_⟩
    · rw [handle_list]
    · rw [handle_list, handle_list, getForUser_own]
    · rw [handle_list, handle_list]
  | unreadCount =>
    refine ⟨rfl, ?_, rfl⟩
    rw [handle_unreadCount, handle_unreadCount, (unread_own_iff "anonymous").mpr h]
  | markAllRead => exact ⟨markAllRead_others, rfl, markAllRead_own⟩
  | markAsRead id =>
    obtain ⟨hothers, hown⟩ := markAsRead_beside h
    refine ⟨hothers, ?_, ?_⟩
    · rw [handle_markAsRead, handle_markAsRead, hown]
    · rw [handle_markAsRead, handle_markAsRead, hown]

theorem scoped_of_beside {request : NotificationRequest}
    (hothers : others (userIdOf (some caller)) (handle cursor caller request t).2 =
      others (userIdOf (some caller)) t)
    (hreply : (handle cursor caller request t).1 =
      (handle cursor caller request (own (userIdOf (some caller)) t)).1) :
    Scoped caller request t := by
  cases request with
  | list page limit => trivial
  | markAllRead => trivial
  | unreadCount =>
    rw [handle_unreadCount, handle_unreadCount, Reply.count.injEq] at hreply
    exact (unread_own_iff "anonymous").mp hreply.symm
  | markAsRead id =>
    intro n hn hid hother
    by_contra hread
    obtain rfl := hid
    have hfind : t.find n.id = some n := t.unique.find hn
    rw [handle_markAsRead, markAsRead_found hfind] at hothers
    exact put_changes hfind hother (Bool.not_eq_true _ ▸ hread) hothers

/-! ## Every run -/

theorem handleAll_cons (request : NotificationRequest) (requests : List NotificationRequest) :
    handleAll cursor caller (request :: requests) t =
      ((handle cursor caller request t).1 :: (handleAll cursor caller requests
        (handle cursor caller request t).2).1,
        (handleAll cursor caller requests (handle cursor caller request t).2).2) := rfl

theorem isolated_cons (request : NotificationRequest) (requests : List NotificationRequest) :
    Isolated cursor caller (request :: requests) t ↔
      Scoped caller request t ∧ Isolated cursor caller requests (handle cursor caller request t).2 := by
  unfold Isolated
  simp only [handleAll_cons, List.cons.injEq]
  apply Iff.intro
  · intro h
    obtain ⟨hothers, hreply, hrest⟩ := h
    have hone := hothers 1
    rw [List.take_succ_cons, handleAll_cons] at hone
    have hscoped : Scoped caller request t := scoped_of_beside hone hreply
    refine ⟨hscoped, fun k => ?_, ?_⟩
    · have hk := hothers (k + 1)
      rw [List.take_succ_cons, handleAll_cons] at hk
      rw [hk, hscoped.beside.others_eq]
    · rw [hrest, hscoped.beside.own_eq]
  · intro h
    obtain ⟨hscoped, hothers, hrest⟩ := h
    refine ⟨fun k => ?_, hscoped.beside.reply_eq, ?_⟩
    · cases k with
      | zero => rfl
      | succ k =>
        rw [List.take_succ_cons, handleAll_cons]
        exact (hothers k).trans hscoped.beside.others_eq
    · rw [hrest, hscoped.beside.own_eq]

/-- A run is isolated exactly when no request of it marks an unread notification of another user or counts
those of `anonymous` for another user. -/
theorem isolated_iff_scoped (cursor : Cursor) (caller : ServiceUser) (requests : List NotificationRequest)
    (t : Collection) : Isolated cursor caller requests t ↔ ScopedRun cursor caller requests t := by
  induction requests generalizing t with
  | nil => exact ⟨fun _ => trivial, fun _ => ⟨fun k => by rw [List.take_nil]; rfl, rfl⟩⟩
  | cons request requests ih => rw [isolated_cons, ih, ScopedRun]

end

/-! ## A notification of another user -/

def ann : ServiceUser where
  sub := some "ann"
  roles := []

def bobs : Notification where
  _id := 0
  id := "n-1"
  type := .REJECTED
  docId := "doc-1"
  recipientId := "bob"
  docTitle := .undef
  reason := .undef
  traceId := .undef
  metadata := none
  createdAt := .epoch
  read := false

theorem marks_the_notification_of_another_user :
    ¬∀ (cursor : Cursor) (caller : ServiceUser) (requests : List NotificationRequest) (t : Collection),
      Isolated cursor caller requests t := by
  intro h
  have hothers := (h (fun _ _ rows => some rows) ann [.markAsRead "n-1"] ⟨[bobs], List.nodup_singleton _⟩).1 1
  have hread := congrArg (List.map (·.read)) hothers
  revert hread
  decide

end DocVault.NotificationController
