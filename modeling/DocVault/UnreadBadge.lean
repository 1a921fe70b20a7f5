import DocVault.NotificationScope
import DocVault.NotificationRetention
import DocVault.Paging

/-!
# The unread badge

The count of unread notifications beside the pages of the list that it stands
for. The count is asked for without a guard, and so for `anonymous`: it is the
caller's only where that is the caller's name, or where there is nothing to
count.
-/

namespace DocVault.NotificationController

open NotificationService

/-! ## What a client sees -/

section
variable (cursor : Cursor) (caller : ServiceUser) (t : Collection)

def badge : Option Nat :=
  match (handle cursor caller .unreadCount t).1 with
  | .count count => some count
  | _ => none

def pageOf (limit : Option String) (k : Nat) : Option NotificationPage :=
  match (handle cursor caller (.list (some (toString (k + 1))) limit) t).1 with
  | .page page => some page
  | _ => none

def listed (limit : Option String) : Nat → Option (List NotificationRecord)
  | 0 => some []
  | n + 1 => do
    let records ← listed limit n
    let page ← pageOf cursor caller t limit n
    some (records ++ page.records)

end

/-- The number of records of a page, `safeL` of `getForUser`. -/
def pageSize (limit : Option String) : JsNumber :=
  ((JsNumber.finite 1).max (queryNumber 20 limit)).min (.finite 100)

def ownRows (caller : ServiceUser) (t : Collection) : List Notification := rowsOf (userIdOf (some caller)) t.rows

/-- The badge is the number of unread records on all pages, whatever numeric limit these are asked for with.
Page numbers are numbers of JavaScript, which are exact below 2^53. -/
def ListedUnread (cursor : Cursor) (caller : ServiceUser) (t : Collection) : Prop :=
  ∀ limit, queryNumber 20 limit ≠ .nan → (ownRows caller t).length < 2 ^ 53 →
    ∃ size : Nat, pageSize limit = .finite size ∧
      (listed cursor caller t limit (Paging.pageCount size (ownRows caller t).length)).map
        (fun records => records.countP fun record => record.read = false) = badge cursor caller t

structure BadgeAgrees (cursor : Cursor) (caller : ServiceUser) (t : Collection) : Prop where
  listed : ListedUnread cursor caller t
  allRead : badge cursor caller (handle cursor caller .markAllRead t).2 = some 0
  oneRead : ∀ n ∈ ownRows caller t, n.read = false →
    (badge cursor caller (handle cursor caller (.markAsRead n.id) t).2).map (· + 1) = badge cursor caller t

/-- What the database does with whole numbers. -/
def Cuts (cursor : Cursor) : Prop :=
  ∀ (skip limit : Nat) (rows : List Notification), 0 < limit →
    cursor (.finite skip) (.finite limit) rows = some ((rows.drop skip).take limit)

/-! ## Pages -/

section
variable {cursor : Cursor} {caller : ServiceUser} {t : Collection} {limit : Option String} {size : Nat}

theorem clamp_nat (n : Nat) :
    ∃ size : Nat, 0 < size ∧ ((JsNumber.finite 1).max (.finite n)).min (.finite 100) = .finite size := by
  have hmax : (JsNumber.finite 1).max (.finite n) = .finite (max 1 n : Nat) := JsNumber.max_nat 1 n
  refine ⟨min (max 1 n) 100, by omega, ?_⟩
  rw [hmax]
  exact JsNumber.min_nat _ 100

theorem clamp_low {q : Rat} (hq : ¬1 ≤ q) :
    ((JsNumber.finite 1).max (.finite q)).min (.finite 100) = .finite 1 := by
  have hmax : (JsNumber.finite 1).max (.finite q) = .finite 1 := by simp [JsNumber.max, JsNumber.le, hq]
  rw [hmax]
  exact JsNumber.min_nat 1 100

theorem clamp_large {v : JsNumber} (h : (JsNumber.finite (2 ^ 53 : Nat)).le v = true) :
    ((JsNumber.finite 1).max v).min (.finite 100) = .finite 100 ∧
      ((JsNumber.finite 1).max v.neg).min (.finite 100) = .finite 1 := by
  cases v with
  | nan => cases h
  | infinity negative =>
    cases negative with
    | true => cases h
    | false => exact ⟨by decide, by decide⟩
  | finite q =>
    have hq : ((2 ^ 53 : Nat) : Rat) ≤ q := of_decide_eq_true h
    have h1 : (1 : Rat) ≤ q := by grind
    have h100 : (100 : Rat) < q := by grind
    have hneg : ¬ (1 : Rat) ≤ -q := by grind
    refine ⟨?_, clamp_low hneg⟩
    simp [JsNumber.max, JsNumber.min, JsNumber.le, h1, Rat.not_le.mpr h100]

theorem clamp_neg (n : Nat) : ((JsNumber.finite 1).max (JsNumber.finite n).neg).min (.finite 100) = .finite 1 := by
  have hneg : ¬ (1 : Rat) ≤ -(n : Rat) := by
    have hn : (0 : Rat) ≤ n := Rat.natCast_nonneg
    grind
  exact clamp_low hneg

theorem pageSize_nat (h : queryNumber 20 limit ≠ .nan) :
    ∃ size : Nat, 0 < size ∧ pageSize limit = .finite size := by
  have htext : ∀ text, parseInt text ≠ .nan →
      ∃ size : Nat, 0 < size ∧ ((JsNumber.finite 1).max (parseInt text)).min (.finite 100) = .finite size := by
    intro text hne
    obtain hnan | ⟨n, hn | hn⟩ := JsNumber.parseInt_cases text
    · exact absurd hnan hne
    · rw [hn]
      obtain heq | ⟨-, hlarge⟩ := JsNumber.nearest_cases n
      · rw [heq]
        exact clamp_nat n
      · exact ⟨100, by omega, (clamp_large hlarge).1⟩
    · rw [hn]
      obtain heq | ⟨-, hlarge⟩ := JsNumber.nearest_cases n
      · rw [heq]
        exact ⟨1, by omega, clamp_neg n⟩
      · exact ⟨1, by omega, (clamp_large hlarge).2⟩
  unfold pageSize
  cases limit with
  | none => exact clamp_nat 20
  | some text =>
    by_cases hempty : text = ""
    · simp only [queryNumber, hempty, if_true]
      exact clamp_nat 20
    · simp only [queryNumber, hempty, if_false] at h ⊢
      exact htext text h

theorem queryNumber_page {k : Nat} (h : k + 1 < 2 ^ 53) :
    queryNumber 1 (some (toString (k + 1))) = .finite (k + 1 : Nat) := by
  have htext : toString (k + 1) ≠ "" := by
    intro hempty
    have hnil := congrArg String.toList hempty
    simp at hnil
  simp only [queryNumber, htext, if_false]
  exact JsNumber.parseInt_toString h

theorem pageOf_eq (hcuts : Cuts cursor) (hpos : 0 < size) (hsize : pageSize limit = .finite size) {k : Nat}
    (hk : k + 1 < 2 ^ 53) (hskip : k * size < 2 ^ 53) :
    (pageOf cursor caller t limit k).map (·.records) =
      some ((Paging.page size k (byNewest (ownRows caller t))).map toRecord) := by
  have hfirst : (JsNumber.finite 1).max (.finite (k + 1 : Nat)) = .finite (k + 1 : Nat) := by
    have hmax : (JsNumber.finite 1).max (.finite (k + 1 : Nat)) = .finite (max 1 (k + 1) : Nat) :=
      JsNumber.max_nat 1 (k + 1)
    rw [hmax, Nat.max_eq_right (by omega)]
  unfold pageSize at hsize
  unfold pageOf
  rw [handle_list]
  dsimp only
  unfold getForUser
  simp only [queryNumber_page hk, hsize, hfirst, JsNumber.sub_one_nat (Nat.lt_of_succ_lt hk),
    JsNumber.mul_nat hskip, hcuts _ _ _ hpos]
  rfl

theorem listed_eq (hcuts : Cuts cursor) (hpos : 0 < size) (hsize : pageSize limit = .finite size) {n : Nat}
    (hn : ∀ k < n, k + 1 < 2 ^ 53 ∧ k * size < 2 ^ 53) :
    listed cursor caller t limit n =
      some ((Paging.pages size n fun _ => byNewest (ownRows caller t)).map toRecord) := by
  induction n with
  | zero => rfl
  | succ n ih =>
    obtain ⟨hk, hskip⟩ := hn n n.lt_succ_self
    have hpageOf : (pageOf cursor caller t limit n).map (·.records) =
        some ((Paging.page size n (byNewest (ownRows caller t))).map toRecord) :=
          pageOf_eq hcuts hpos hsize hk hskip
    obtain ⟨page, hpage, hrecords⟩ := Option.map_eq_some_iff.mp hpageOf
    rw [listed, ih fun k hlt => hn k (Nat.lt_succ_of_lt hlt), hpage, Paging.pages_succ, List.map_append, ← hrecords]
    rfl

theorem listed_all (hcuts : Cuts cursor) (hlimit : queryNumber 20 limit ≠ .nan)
    (htotal : (ownRows caller t).length < 2 ^ 53) : ∃ size : Nat, pageSize limit = .finite size ∧
      listed cursor caller t limit (Paging.pageCount size (ownRows caller t).length) =
        some ((byNewest (ownRows caller t)).map toRecord) := by
  obtain ⟨size, hpos, hsize⟩ := pageSize_nat hlimit
  have hsort : (byNewest (ownRows caller t)).Perm (ownRows caller t) := List.perm_insertionSort ..
  have hlast : ∀ k < Paging.pageCount size (ownRows caller t).length, k * size < (ownRows caller t).length := by
    intro k hk
    unfold Paging.pageCount at hk
    have hle : (k + 1) * size ≤ (ownRows caller t).length + size - 1 := (Nat.le_div_iff_mul_le hpos).mp hk
    rw [Nat.add_mul] at hle
    omega
  refine ⟨size, hsize, ?_⟩
  rw [listed_eq hcuts hpos hsize fun k hk => ?_, Paging.pages_const _ fun _ _ => rfl, List.take_of_length_le ?_]
  · rw [hsort.length_eq]
    exact Paging.le_pageCount hpos _
  · have hskip := hlast k hk
    have hle : k * 1 ≤ k * size := Nat.mul_le_mul_left k hpos
    omega

theorem countP_byNewest (p : NotificationRecord → Bool) (rows : List Notification) :
    ((byNewest rows).map toRecord).countP p = rows.countP fun n => p (toRecord n) := by
  have hsort : (byNewest rows).Perm rows := List.perm_insertionSort ..
  rw [List.countP_map, hsort.countP_eq]
  rfl

theorem listed_unread (hcuts : Cuts cursor) (hlimit : queryNumber 20 limit ≠ .nan)
    (htotal : (ownRows caller t).length < 2 ^ 53) : ∃ size : Nat, pageSize limit = .finite size ∧
      (listed cursor caller t limit (Paging.pageCount size (ownRows caller t).length)).map
        (fun records => records.countP fun record => record.read = false) =
        some (getUnreadCount t (userIdOf (some caller))) := by
  obtain ⟨size, hsize, hall⟩ := listed_all hcuts hlimit htotal
  refine ⟨size, hsize, ?_⟩
  rw [hall, Option.map_some, countP_byNewest]
  unfold ownRows rowsOf getUnreadCount
  rw [List.countP_filter]
  refine congrArg some (List.countP_congr fun n _ => ?_)
  cases hread : n.read <;> simp [toRecord, hread]

end

/-! ## Marking -/

section
variable {cursor : Cursor} {caller : ServiceUser} {t : Collection} {userId reader : String} {n : Notification}

theorem badge_eq : badge cursor caller t = some (getUnreadCount t "anonymous") := rfl

theorem unread_markAllRead : getUnreadCount (NotificationService.markAllRead t userId) reader =
    if reader = userId then 0 else getUnreadCount t reader := by
  have hcount : getUnreadCount (NotificationService.markAllRead t userId) reader =
      t.rows.countP fun n => (readBy userId n).recipientId = reader && (readBy userId n).read = false :=
    List.countP_map ..
  rw [hcount]
  split
  · rename_i h
    subst h
    rw [List.countP_eq_zero]
    intro n _
    by_cases hown : n.recipientId = reader <;> cases hread : n.read <;> simp [readBy, hown, hread]
  · rename_i h
    refine List.countP_congr fun n _ => ?_
    by_cases hown : n.recipientId = userId
    · have hother : n.recipientId ≠ reader := fun heq => h (heq.symm.trans hown)
      simp [readBy_recipientId, hother]
    · rw [readBy_other hown]

theorem unread_markAsRead (hn : n ∈ t.rows) (hread : n.read = false) (reader : String) :
    getUnreadCount (NotificationService.markAsRead t n.id).2 reader + (if n.recipientId = reader then 1 else 0) =
      getUnreadCount t reader := by
  rw [markAsRead_found (t.unique.find hn)]
  split
  · rename_i h
    exact Keyed.countP_put t.unique hn rfl (by simp [h, hread]) (by simp)
  · rename_i h
    -- The row is none of the reader's, before and after.
    have hsame : (t.put { n with read := true }).rows.filter (fun m => m.recipientId = reader && m.read = false) =
        t.rows.filter fun m => m.recipientId = reader && m.read = false := by
      refine Keyed.put_filter_ne (by simp) fun r hr hk => ?_
      rw [t.unique.eq hr hn hk]
      simp [h]
    unfold getUnreadCount
    rw [List.countP_eq_length_filter, hsame, ← List.countP_eq_length_filter, Nat.add_zero]

end

/-! ## When the badge is right -/

section
variable {cursor : Cursor} {caller : ServiceUser} {t : Collection}

theorem mem_ownRows {n : Notification} :
    n ∈ ownRows caller t ↔ n ∈ t.rows ∧ n.recipientId = userIdOf (some caller) := by
  unfold ownRows rowsOf
  rw [List.mem_filter, decide_eq_true_eq]

theorem handle_markAllRead_snd : (handle cursor caller .markAllRead t).2 =
    NotificationService.markAllRead t (userIdOf (some caller)) := rfl

theorem handle_markAsRead_snd (id : String) :
    (handle cursor caller (.markAsRead id) t).2 = (NotificationService.markAsRead t id).2 := rfl

/-- A badge that is right after both ways of reading leaves nothing unread. -/
theorem BadgeAgrees.all_read (h : BadgeAgrees cursor caller t) (hanonymous : userIdOf (some caller) ≠ "anonymous") :
    ∀ n ∈ t.rows, n.recipientId = userIdOf (some caller) ∨ n.recipientId = "anonymous" → n.read = true := by
  obtain ⟨-, hall, hone⟩ := h
  intro n hn hrecipient
  obtain hrecipient | hrecipient := hrecipient
  · -- The badge would go down by one and counts somebody else's.
    by_contra hread
    have hread := Bool.eq_false_iff.mpr hread
    have hdown := hone n (mem_ownRows.mpr ⟨hn, hrecipient⟩) hread
    have hstays := unread_markAsRead hn hread "anonymous"
    rw [hrecipient, if_neg hanonymous] at hstays
    rw [badge_eq, badge_eq, Option.map_some, Option.some.injEq, handle_markAsRead_snd] at hdown
    omega
  · rw [badge_eq, handle_markAllRead_snd, unread_markAllRead, if_neg (Ne.symm hanonymous), Option.some.injEq,
      unread_zero] at hall
    exact hall n hn hrecipient

theorem badge_agrees (hcuts : Cuts cursor) (h : userIdOf (some caller) = "anonymous" ∨
    ∀ n ∈ t.rows, n.recipientId = userIdOf (some caller) ∨ n.recipientId = "anonymous" → n.read = true) :
    BadgeAgrees cursor caller t := by
  have hsame : getUnreadCount t (userIdOf (some caller)) = getUnreadCount t "anonymous" := by
    obtain h | h := h
    · rw [h]
    · rw [unread_zero.mpr fun n hn hr => h n hn (.inl hr), unread_zero.mpr fun n hn hr => h n hn (.inr hr)]
  refine ⟨?_, ?_, ?_⟩
  · intro limit hlimit htotal
    obtain ⟨size, hsize, hlisted⟩ := listed_unread hcuts hlimit htotal
    exact ⟨size, hsize, by rw [hlisted, hsame, badge_eq]⟩
  · rw [badge_eq, handle_markAllRead_snd, unread_markAllRead]
    split
    · rfl
    · rename_i hother
      rw [unread_zero.mpr fun n hn hr => (h.resolve_left (Ne.symm hother)) n hn (.inr hr)]
  · intro n hn hread
    obtain ⟨hn, hrecipient⟩ := mem_ownRows.mp hn
    obtain h | h := h
    · have hdown := unread_markAsRead hn hread "anonymous"
      rw [hrecipient, h, if_pos rfl] at hdown
      rw [badge_eq, badge_eq, handle_markAsRead_snd, Option.map_some, hdown]
    · rw [h n hn (.inl hrecipient)] at hread
      cases hread

end

/-- The badge is right exactly for `anonymous`, and as long as neither the caller nor
`anonymous` has something unread. -/
theorem badge_agrees_iff (cursor : Cursor) (caller : ServiceUser) (t : Collection) (hcuts : Cuts cursor) :
    BadgeAgrees cursor caller t ↔ userIdOf (some caller) = "anonymous" ∨
      ∀ n ∈ t.rows, n.recipientId = userIdOf (some caller) ∨ n.recipientId = "anonymous" → n.read = true := by
  apply Iff.intro
  · intro h
    by_cases hanonymous : userIdOf (some caller) = "anonymous"
    · exact .inl hanonymous
    · exact .inr (h.all_read hanonymous)
  · exact badge_agrees hcuts

/-! ## An unread notification -/

def cutter : Cursor
  | .finite skip, .finite limit, rows => some ((rows.drop skip.num.toNat).take limit.num.toNat)
  | _, _, _ => none

theorem cutter_cuts : Cuts cutter := by
  intro skip limit rows _
  simp [cutter]

def readByAnn : Collection :=
  ⟨[{ bobs with id := "n-2", recipientId := "ann", read := true }, bobs,
    { bobs with id := "n-3", recipientId := "ann", read := true }], by decide⟩

theorem badge_agrees_sample : BadgeAgrees cutter ann readByAnn := by
  refine (badge_agrees_iff cutter ann readByAnn cutter_cuts).mpr (.inr ?_)
  decide

def unreadOfAnn : Collection := ⟨[{ bobs with recipientId := "ann" }], List.nodup_singleton _⟩

theorem badge_misses_unread : badge cutter ann unreadOfAnn = some 0 ∧
    (listed cutter ann unreadOfAnn none 1).map (fun records => records.countP fun record =>
      record.read = false) = some 1 ∧ ¬BadgeAgrees cutter ann unreadOfAnn := by
  refine ⟨rfl, by decide +kernel, fun h => ?_⟩
  have hdown := h.oneRead { bobs with recipientId := "ann" }
    (by simp [ownRows, rowsOf, unreadOfAnn, userIdOf, ann]) rfl
  cases hdown

end DocVault.NotificationController
