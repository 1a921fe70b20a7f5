import Mathlib.Data.List.DropRight
import DocVault.Notifications

/-!
# Notification retention

After every call each recipient has the newest of all records ever created for
them, at most `MAX_PER_RECIPIENT`. A call with an empty document id or recipient
id ends at the record that the schema refuses: it has created records for the
recipients in front of it alone.
-/

namespace DocVault

/-! ## The end of a list -/

section
variable {α β : Type}

theorem rtake_append {c : Nat} (hc : 0 < c) (l : List α) (x : α) :
    (l.rtake c ++ [x]).rtake c = (l ++ [x]).rtake c := by
  obtain ⟨c, rfl⟩ := Nat.exists_eq_add_one_of_ne_zero hc.ne'
  rw [List.rtake_concat_succ, List.rtake_concat_succ]
  simp only [List.rtake_eq_reverse_take_reverse, List.reverse_reverse, List.take_take]
  rw [Nat.min_eq_left (Nat.le_succ c)]

theorem rtake_of_length_le {c : Nat} {l : List α} (h : l.length ≤ c) : l.rtake c = l := by
  rw [List.rtake, Nat.sub_eq_zero_of_le h, List.drop_zero]

theorem filter_notMem_take [DecidableEq β] (f : α → β) (m : Nat) {l : List α} (h : (l.map f).Nodup) :
    (l.filter fun x => f x ∉ (l.take m).map f) = l.drop m := by
  induction l generalizing m with
  | nil => simp
  | cons x l ih =>
    obtain ⟨hx, hl⟩ := List.nodup_cons.mp h
    cases m with
    | zero => simp
    | succ m =>
      rw [List.take_succ_cons, List.map_cons, List.filter_cons_of_neg (by simp), List.drop_succ_cons, ← ih m hl]
      refine List.filter_congr fun y hy => ?_
      have hne : f y ≠ f x := fun heq => hx (heq ▸ List.mem_map_of_mem hy)
      simp [hne]

end

namespace NotificationService

/-! ## The order of creation -/

/-- `b` was created after `a`. -/
def Older (a b : Notification) : Prop := a.createdAt.ms ≤ b.createdAt.ms ∧ a._id < b._id

theorem Older.newestFirst {a b : Notification} (h : Older a b) : NewestFirst b a := by
  by_cases heq : a.createdAt.ms = b.createdAt.ms
  · exact .inr ⟨heq, h.2.le⟩
  · exact .inl (lt_of_le_of_ne h.1 heq)

instance : Std.Total NewestFirst := ⟨fun a b => by unfold NewestFirst; omega⟩

instance : IsTrans Notification NewestFirst := ⟨fun a b c h h' => by unfold NewestFirst at *; omega⟩

/-- Rows in the order of their creation, sorted. -/
theorem byNewest_eq {rows : List Notification} (h : rows.Pairwise Older) : byNewest rows = rows.reverse := by
  have hrev : rows.reverse.Pairwise fun a b => Older b a := List.pairwise_reverse.mpr h
  refine List.Perm.eq_of_pairwise (fun a b ha hb hab hba => ?_) (List.pairwise_insertionSort NewestFirst rows)
    (hrev.imp Older.newestFirst) ((List.perm_insertionSort _ rows).trans (List.reverse_perm rows).symm)
  have hids : (rows.map (·._id)).Nodup := List.pairwise_map.mpr (h.imp fun hold => hold.2.ne)
  refine List.inj_on_of_nodup_map hids ((List.mem_insertionSort _).mp ha) (List.mem_reverse.mp hb) ?_
  unfold NewestFirst at hab hba
  omega

/-! ## pruneRecipient -/

section
variable {t : Collection} {r r' : String}

theorem rowsOf_filter_own (p : Notification → Bool) (rows : List Notification) :
    rowsOf r (rows.filter fun n => !(n.recipientId = r && p n)) = (rowsOf r rows).filter fun n => !p n := by
  rw [rowsOf, rowsOf, List.filter_filter, List.filter_filter]
  refine List.filter_congr fun n _ => ?_
  by_cases h : n.recipientId = r
  · simp [h]
  · simp [h]

theorem rowsOf_filter_other (hne : r' ≠ r) (p : Notification → Bool) (rows : List Notification) :
    rowsOf r' (rows.filter fun n => !(n.recipientId = r && p n)) = rowsOf r' rows := by
  rw [rowsOf, rowsOf, List.filter_filter]
  refine List.filter_congr fun n _ => ?_
  by_cases h : n.recipientId = r'
  · simp [h, hne]
  · simp [h]

theorem pruneRecipient_others (hne : r' ≠ r) : rowsOf r' (pruneRecipient r t).rows = rowsOf r' t.rows := by
  unfold pruneRecipient
  simp only []
  split
  · rfl
  · split
    · exact rowsOf_filter_other hne _ t.rows
    · rfl

theorem pruneRecipient_own (h : (rowsOf r t.rows).Pairwise Older) :
    rowsOf r (pruneRecipient r t).rows = (rowsOf r t.rows).rtake MAX_PER_RECIPIENT := by
  unfold pruneRecipient
  simp only []
  by_cases htotal : (rowsOf r t.rows).length ≤ MAX_PER_RECIPIENT
  · rw [if_pos htotal, rtake_of_length_le htotal]
  · have hids : ((rowsOf r t.rows).map (·.id)).Nodup := t.unique.filter _
    -- The stale rows are those in front of the newest ones.
    have hstale : (byNewest (rowsOf r t.rows)).drop MAX_PER_RECIPIENT =
        ((rowsOf r t.rows).take ((rowsOf r t.rows).length - MAX_PER_RECIPIENT)).reverse := by
      rw [byNewest_eq h, List.drop_reverse]
    have hsome : 0 < (((byNewest (rowsOf r t.rows)).drop MAX_PER_RECIPIENT).map (·.id)).length := by
      rw [hstale, List.length_map, List.length_reverse, List.length_take]
      omega
    rw [if_neg htotal, if_pos hsome, hstale]
    refine (rowsOf_filter_own _ t.rows).trans ?_
    rw [List.rtake, ← filter_notMem_take (·.id) _ hids]
    refine List.filter_congr fun n _ => ?_
    simp

end

/-! ## One record -/

section
variable {draws : Draws} {s s' : NotifyState} {dto : NotifyDto} {r r' : String}

structure NotifyInv (draws : Draws) (s : NotifyState) : Prop where
  drawn : ∀ n ∈ s.created, ∃ k < s.drawn, n._id = draws._id k ∧ n.createdAt = draws.now k ∧ n.id = draws.uid k
  ordered : s.created.Pairwise Older
  kept : ∀ r, rowsOf r s.store.rows = (rowsOf r s.created).rtake MAX_PER_RECIPIENT

theorem rowsOf_append (r : String) (rows new : List Notification) :
    rowsOf r (rows ++ new) = rowsOf r rows ++ rowsOf r new :=
  List.filter_append ..

theorem rowsOf_own {n : Notification} (h : n.recipientId = r) : rowsOf r [n] = [n] := by simp [rowsOf, h]

theorem rowsOf_other {n : Notification} (h : n.recipientId ≠ r) : rowsOf r [n] = [] := by simp [rowsOf, h]

theorem NotifyInv.mem_created (hinv : NotifyInv draws s) {n : Notification} (h : n ∈ s.store.rows) :
    n ∈ s.created := by
  have hown : n ∈ rowsOf n.recipientId s.store.rows := List.mem_filter.mpr ⟨h, by simp⟩
  rw [hinv.kept] at hown
  exact List.mem_of_mem_filter (List.mem_of_mem_drop hown)

/-- A new public id is in no row of the collection. -/
theorem NotifyInv.fresh (hinv : NotifyInv draws s) : s.store.find (draws.uid s.drawn) = none := by
  refine Keyed.find_none.mpr fun n hn heq => ?_
  obtain ⟨k, hk, -, -, hid⟩ := hinv.drawn n (hinv.mem_created hn)
  have := draws.uid_inj (hid.symm.trans heq)
  omega

theorem NotifyInv.newest (hinv : NotifyInv draws s) {n : Notification} (h : n ∈ s.created) :
    Older n (newRecord draws dto r s.drawn) := by
  obtain ⟨k, hk, hid, hat, -⟩ := hinv.drawn n h
  exact ⟨(congrArg JsDate.ms hat).trans_le (draws.now_le hk.le), hid.trans_lt (draws._id_lt hk)⟩

theorem newRecord_id_ne (k : Nat) : (newRecord draws dto r k).id ≠ "" := by
  intro h
  have hl := congrArg String.length h
  simp [newRecord, Draws.uid, String.length_append] at hl

@[simp] theorem newRecord_docId (k : Nat) : (newRecord draws dto r k).docId = dto.docId := rfl

@[simp] theorem newRecord_recipientId (k : Nat) : (newRecord draws dto r k).recipientId = r := rfl

/-- What the schema asks of the record of one recipient. -/
def Storable (dto : NotifyDto) (r : String) : Prop := dto.docId ≠ "" ∧ r ≠ ""

instance : Decidable (Storable dto r) := inferInstanceAs (Decidable (_ ∧ _))

/-- The state after a record for `r` and the pruning behind it. -/
structure Records (draws : Draws) (dto : NotifyDto) (r : String) (s s' : NotifyState) : Prop where
  inv : NotifyInv draws s'
  created : s'.created = s.created ++ [newRecord draws dto r s.drawn]
  others : ∀ r' ≠ r, rowsOf r' s'.store.rows = rowsOf r' s.store.rows

theorem create_storable (hinv : NotifyInv draws s) (h : Storable dto r) :
    ∃ t, create s.store (newRecord draws dto r s.drawn) = .ok t ∧
      t.rows = s.store.rows ++ [newRecord draws dto r s.drawn] := by
  have hnone : s.store.find (newRecord draws dto r s.drawn).id = none := hinv.fresh
  obtain ⟨t, ht⟩ : ∃ t, s.store.insert (newRecord draws dto r s.drawn) = some t := by
    simp [Keyed.Table.insert, hnone]
  refine ⟨t, ?_, (Keyed.Table.insert_some.mp ht).2⟩
  simp [create, newRecord_id_ne, h.1, h.2, ht]

theorem create_refused (h : ¬Storable dto r) : ∃ e, create s.store (newRecord draws dto r s.drawn) = .error e := by
  rw [create, if_neg (newRecord_id_ne s.drawn)]
  by_cases hdoc : dto.docId = ""
  · exact ⟨_, if_pos hdoc⟩
  · have hr : r = "" := by
      by_contra hne
      exact h ⟨hdoc, hne⟩
    exact ⟨_, (if_neg hdoc).trans (if_pos hr)⟩

theorem records_of_create (hinv : NotifyInv draws s) {t : Collection}
    (ht : t.rows = s.store.rows ++ [newRecord draws dto r s.drawn]) :
    Records draws dto r s
      { store := pruneRecipient r t, created := s.created ++ [newRecord draws dto r s.drawn],
        drawn := s.drawn + 1 } := by
  set n := newRecord draws dto r s.drawn with hn
  have hr : n.recipientId = r := rfl
  have hordered : (s.created ++ [n]).Pairwise Older := by
    refine List.pairwise_append.mpr ⟨hinv.ordered, List.pairwise_singleton _ _, fun m hm n' hn' => ?_⟩
    rw [List.mem_singleton.mp hn']
    exact hinv.newest hm
  have hothers : ∀ r' ≠ r, rowsOf r' (pruneRecipient r t).rows = rowsOf r' s.store.rows := fun r' hne => by
    rw [pruneRecipient_others hne, ht, rowsOf_append, rowsOf_other (hr.trans_ne hne.symm), List.append_nil]
  have hown : rowsOf r t.rows = (rowsOf r s.created).rtake MAX_PER_RECIPIENT ++ [n] := by
    rw [ht, rowsOf_append, rowsOf_own hr, hinv.kept]
  have hcreated : rowsOf r (s.created ++ [n]) = rowsOf r s.created ++ [n] := by
    rw [rowsOf_append, rowsOf_own hr]
  refine ⟨⟨fun m hm => ?_, hordered, fun r' => ?_⟩, rfl, hothers⟩
  · obtain hm | hm := List.mem_append.mp hm
    · obtain ⟨k, hk, h⟩ := hinv.drawn m hm
      exact ⟨k, Nat.lt_succ_of_lt hk, h⟩
    · rw [List.mem_singleton.mp hm]
      exact ⟨s.drawn, Nat.lt_succ_self _, rfl, rfl, rfl⟩
  · by_cases hother : r' = r
    · subst hother
      have hsub : (rowsOf r' t.rows).Sublist (rowsOf r' (s.created ++ [n])) := by
        rw [hown, hcreated]
        exact (List.drop_sublist _ _).append_right _
      have hold : (rowsOf r' t.rows).Pairwise Older := (hordered.filter _).sublist hsub
      rw [pruneRecipient_own hold, hown, hcreated, rtake_append (by decide)]
    · rw [hothers r' hother, hinv.kept, rowsOf_append, rowsOf_other (hr.trans_ne (Ne.symm hother)), List.append_nil]

/-! ## A call -/

/-- The recipients up to the first one whose record the schema refuses. -/
def reached (dto : NotifyDto) (recipients : List String) : List String :=
  recipients.takeWhile fun r => Storable dto r

/-- The loop over `recipients` took `s` to `s'` and ended with `e`. -/
structure Notified (draws : Draws) (dto : NotifyDto) (recipients : List String) (s s' : NotifyState)
    (e : Option StoreError) :
    Prop where
  inv : NotifyInv draws s'
  created : ∃ new, s'.created = s.created ++ new ∧ new.map (·.recipientId) = reached dto recipients
  others : ∀ r ∉ reached dto recipients, rowsOf r s'.store.rows = rowsOf r s.store.rows
  ends : e = none ↔ ∀ r ∈ recipients, Storable dto r

theorem Records.notified {rest : List String} {e : Option StoreError} {t : NotifyState} (hst : Storable dto r)
    (h : Records draws dto r s t) (hrest : Notified draws dto rest t s' e) :
    Notified draws dto (r :: rest) s s' e := by
  have hreached : reached dto (r :: rest) = r :: reached dto rest := List.takeWhile_cons_of_pos (decide_eq_true hst)
  obtain ⟨new, hnew, hrecipients⟩ := hrest.created
  refine ⟨hrest.inv, ⟨newRecord draws dto r s.drawn :: new, ?_, ?_⟩, fun r' hr' => ?_, ?_⟩
  · rw [hnew, h.created, List.append_assoc, List.singleton_append]
  · rw [hreached, List.map_cons, hrecipients, newRecord_recipientId]
  · rw [hreached, List.mem_cons, not_or] at hr'
    rw [hrest.others r' hr'.2, h.others r' hr'.1]
  · rw [hrest.ends, List.forall_mem_cons, and_iff_right hst]

theorem notifyEach_notified (recipients : List String) (hinv : NotifyInv draws s) :
    Notified draws dto recipients s (notifyEach draws dto recipients s).1
      (notifyEach draws dto recipients s).2 := by
  induction recipients generalizing s with
  | nil => exact ⟨hinv, ⟨[], by simp [notifyEach, reached]⟩, fun _ _ => rfl, by simp [notifyEach]⟩
  | cons r rest ih =>
    by_cases hst : Storable dto r
    · obtain ⟨t, hcreate, ht⟩ := create_storable hinv hst
      have hrecords := records_of_create hinv ht
      rw [notifyEach, hcreate]
      exact hrecords.notified hst (ih hrecords.inv)
    · obtain ⟨e, hcreate⟩ : ∃ e, create s.store (newRecord draws dto r s.drawn) = .error e := create_refused hst
      have hnone : reached dto (r :: rest) = [] := List.takeWhile_cons_of_neg (by simpa using hst)
      rw [notifyEach, hcreate]
      refine ⟨⟨fun n hn => ?_, hinv.ordered, hinv.kept⟩, ⟨[], by simp [hnone]⟩, fun _ _ => rfl, by simp [hst]⟩
      obtain ⟨k, hk, h⟩ := hinv.drawn n hn
      exact ⟨k, Nat.lt_succ_of_lt hk, h⟩

theorem notify_state : (notify draws dto s).1 = (notifyEach draws dto (uniqueRecipients dto) s).1 := by
  rw [notify]
  generalize notifyEach draws dto (uniqueRecipients dto) s = result
  obtain ⟨s', e⟩ := result
  cases e with
  | none => rfl
  | some e => rfl

theorem notify_refused :
    (∃ e, (notify draws dto s).2 = .error e) ↔ (notifyEach draws dto (uniqueRecipients dto) s).2 ≠ none := by
  rw [notify]
  generalize notifyEach draws dto (uniqueRecipients dto) s = result
  obtain ⟨s', e⟩ := result
  cases e with
  | none => simp
  | some e => simp

theorem notifyRun_inv (calls : List NotifyDto) : NotifyInv draws (notifyRun draws calls) := by
  induction calls using List.reverseRecOn with
  | nil => exact ⟨fun n hn => absurd hn List.not_mem_nil, List.Pairwise.nil, fun r => rfl⟩
  | append_singleton calls dto ih =>
    rw [notifyRun, List.foldl_append, List.foldl_cons, List.foldl_nil, notify_state]
    exact (notifyEach_notified (uniqueRecipients dto) ih).inv

end

/-! ## Every run -/

/-- The recipients that a call names. An empty `recipientId` names nobody. -/
def Addressed (dto : NotifyDto) (r : String) : Prop :=
  r ∈ dto.recipientIds.getD [] ∨ dto.recipientId = some r ∧ r ≠ ""

/-- Every recipient's records are the newest of all created for them. -/
def KeepsNewest (s : NotifyState) : Prop :=
  ∀ r, byNewest (rowsOf r s.store.rows) = (byNewest (rowsOf r s.created)).take MAX_PER_RECIPIENT ∧
    (rowsOf r s.store.rows).length = min MAX_PER_RECIPIENT (rowsOf r s.created).length

/-- Between `s` and `s'` one record was created for each recipient the call names, and none for anybody else. -/
def CreatesEach (dto : NotifyDto) (s s' : NotifyState) : Prop :=
  ∃ new, s'.created = s.created ++ new ∧
    (∀ r, Addressed dto r → (rowsOf r new).length = 1) ∧ ∀ r, ¬Addressed dto r → rowsOf r new = []

def OthersKept (dto : NotifyDto) (s s' : NotifyState) : Prop :=
  ∀ r, ¬Addressed dto r → rowsOf r s'.store.rows = rowsOf r s.store.rows

theorem mem_uniqueRecipients {dto : NotifyDto} {r : String} : r ∈ uniqueRecipients dto ↔ Addressed dto r := by
  unfold uniqueRecipients Addressed
  rw [List.mem_eraseDups, List.mem_append]
  refine or_congr_right ?_
  cases dto.recipientId with
  | none => simp
  | some recipientId =>
    by_cases h : recipientId = ""
    · simp only [h, if_true, List.not_mem_nil, Option.some.injEq, false_iff, not_and, not_not]
      exact fun heq => heq.symm
    · simp only [h, if_false, List.mem_singleton, Option.some.injEq]
      exact ⟨fun heq => ⟨heq.symm, heq ▸ h⟩, fun heq => heq.1.symm⟩

theorem NotifyInv.keepsNewest {draws : Draws} {s : NotifyState} (hinv : NotifyInv draws s) : KeepsNewest s := by
  intro r
  have hcreated : (rowsOf r s.created).Pairwise Older := hinv.ordered.filter _
  have hstored : (rowsOf r s.store.rows).Pairwise Older := by
    rw [hinv.kept]
    exact hcreated.sublist (List.drop_sublist _ _)
  rw [byNewest_eq hcreated, byNewest_eq hstored, hinv.kept]
  refine ⟨?_, ?_⟩
  · rw [List.rtake_eq_reverse_take_reverse, List.reverse_reverse]
  · rw [List.rtake_eq_reverse_take_reverse, List.length_reverse, List.length_take, List.length_reverse]

theorem length_rowsOf (r : String) (rows : List Notification) :
    (rowsOf r rows).length = (rows.map (·.recipientId)).count r := by
  rw [rowsOf, ← List.countP_eq_length_filter, List.count, List.countP_map]
  exact List.countP_congr fun n _ => by simp

theorem Notified.createsEach {draws : Draws} {dto : NotifyDto} {s s' : NotifyState} {e : Option StoreError}
    (h : Notified draws dto (uniqueRecipients dto) s s' e) (hall : ∀ r, Addressed dto r → Storable dto r) :
    CreatesEach dto s s' := by
  obtain ⟨new, hnew, hrecipients⟩ := h.created
  have hreached : reached dto (uniqueRecipients dto) = uniqueRecipients dto :=
    List.takeWhile_eq_self_iff.mpr fun r hr => decide_eq_true (hall r (mem_uniqueRecipients.mp hr))
  rw [hreached] at hrecipients
  have hcount : ∀ r, (rowsOf r new).length = (uniqueRecipients dto).count r := fun r => by
    rw [length_rowsOf, hrecipients]
  refine ⟨new, hnew, fun r hr => ?_, fun r hr => List.eq_nil_of_length_eq_zero ?_⟩
  · rw [hcount]
    exact List.count_eq_one_of_mem (nodup_eraseDups _) (mem_uniqueRecipients.mpr hr)
  · rw [hcount]
    exact List.count_eq_zero_of_not_mem fun hmem => hr (mem_uniqueRecipients.mp hmem)

/-- What a call of a run leaves. It is refused exactly when the schema refuses the record of a recipient it names,
and has created the records in front of that one then. -/
theorem notify_keeps_newest (draws : Draws) (calls : List NotifyDto) (dto : NotifyDto) :
    let before := notifyRun draws calls
    let after := notifyRun draws (calls ++ [dto])
    KeepsNewest after ∧ OthersKept dto before after ∧
      ((∃ e, (notify draws dto before).2 = .error e) ↔ ∃ r, Addressed dto r ∧ ¬Storable dto r) ∧
      ((∀ r, Addressed dto r → Storable dto r) → CreatesEach dto before after) ∧
      ∃ new, after.created = before.created ++ new ∧
      new.map (·.recipientId) = reached dto (uniqueRecipients dto) := by
  intro before after
  have hafter : after = (notifyEach draws dto (uniqueRecipients dto) before).1 := by
    rw [← notify_state]
    exact List.foldl_append ..
  have hcall : Notified draws dto (uniqueRecipients dto) before _ _ := notifyEach_notified _ (notifyRun_inv calls)
  rw [hafter]
  refine ⟨hcall.inv.keepsNewest, fun r hr => hcall.others r fun hmem => ?_, ?_, hcall.createsEach, hcall.created⟩
  · exact hr (mem_uniqueRecipients.mp ((List.takeWhile_sublist _).subset hmem))
  · rw [notify_refused, Ne, hcall.ends]
    simp only [not_forall, mem_uniqueRecipients, exists_prop]

/-! ## An empty recipient -/

def ticks : Draws where
  now _ := .epoch
  _id k := k
  random k := String.ofList (List.replicate k '0')
  now_le _ := Int.le_refl 0
  _id_lt h := h
  uid_inj h := by
    have hlength := congrArg String.length h
    simpa [String.length_append] using hlength

/-- Of three recipients the second is empty: the third gets no record. -/
def emptyRecipient : NotifyDto where
  type := .SUBMITTED
  docId := "doc-1"
  recipientIds := some ["ann", "", "bob"]

theorem empty_recipient_ends_the_call :
    ¬∀ (draws : Draws) (calls : List NotifyDto) (dto : NotifyDto),
      KeepsNewest (notifyRun draws (calls ++ [dto])) ∧
        CreatesEach dto (notifyRun draws calls) (notifyRun draws (calls ++ [dto])) ∧
        OthersKept dto (notifyRun draws calls) (notifyRun draws (calls ++ [dto])) := by
  intro h
  obtain ⟨new, hnew, heach, -⟩ := (h ticks [] emptyRecipient).2.1
  have hbob := heach "bob" (.inl (by decide))
  have hcreated : (notifyRun ticks [emptyRecipient]).created = [newRecord ticks emptyRecipient "ann" 0] := by rfl
  rw [List.nil_append, hcreated] at hnew
  have hnone : rowsOf "bob" new = [] := by
    rw [← List.nil_append new]
    exact (congrArg (rowsOf "bob") hnew).symm.trans (rowsOf_other (by decide))
  rw [hnone] at hbob
  cases hbob

end NotificationService

end DocVault
