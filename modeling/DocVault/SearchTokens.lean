import DocVault.DocumentSearch
import DocVault.RegexScan

/-!
# The tokens of a search

Blanks around a search make no token, so that both sides cut it into the same
tokens although one of them trims it before.
-/

namespace DocVault.Search

open Regex

/-! ## Quoted tokens -/

abbrev QUOTE : Nat := 34

def Quoted (w : Text) : Prop := ∃ v, v ≠ [] ∧ (∀ u ∈ v, (!isOneOf "\"" u) = true) ∧ w = QUOTE :: (v ++ [QUOTE])

def KeyedQuoted (w : Text) : Prop := ∃ k q, (k ≠ [] ∧ ∀ u ∈ k, isWord u = true) ∧ Quoted q ∧ w = k ++ 58 :: q

theorem denotes_quoted : Denotes isWord quoted Quoted := by
  have h : Denotes isWord _ _ := denotes_seq (denotes_lit (utf16 "\""))
    (denotes_seq (denotes_plus fun u => !isOneOf "\"" u) (denotes_seq (denotes_lit (utf16 "\"")) denotes_empty))
  intro b t c
  refine (h b t c).trans (exists_congr fun w => and_congr_left' ?_)
  apply Iff.intro
  · intro hw
    obtain ⟨_, _, rfl, rfl, v, _, rfl, ⟨hne, hv⟩, _, _, rfl, rfl, rfl⟩ := hw
    exact ⟨v, hne, hv, rfl⟩
  · intro hw
    obtain ⟨v, hne, hv, rfl⟩ := hw
    exact ⟨_, _, rfl, rfl, v, _, rfl, ⟨hne, hv⟩, _, [], rfl, rfl, rfl⟩

theorem denotes_keyedQuoted : Denotes isWord keyedQuoted KeyedQuoted := by
  have h : Denotes isWord _ _ := denotes_seq (denotes_plus isWord) (denotes_seq (denotes_lit (utf16 ":\""))
    (denotes_seq (denotes_plus fun u => !isOneOf "\"" u) (denotes_seq (denotes_lit (utf16 "\"")) denotes_empty)))
  intro b t c
  refine (h b t c).trans (exists_congr fun w => and_congr_left' ?_)
  apply Iff.intro
  · intro hw
    obtain ⟨k, _, rfl, hk, _, _, rfl, rfl, v, _, rfl, ⟨hne, hv⟩, _, _, rfl, rfl, rfl⟩ := hw
    exact ⟨k, _, hk, ⟨v, hne, hv, rfl⟩, rfl⟩
  · intro hw
    obtain ⟨k, q, hk, ⟨v, hne, hv, rfl⟩, rfl⟩ := hw
    exact ⟨k, _, rfl, hk, _, _, rfl, rfl, v, _, rfl, ⟨hne, hv⟩, _, [], rfl, rfl, rfl⟩

theorem quoted_unique {q q' rest left : Text} (hq : Quoted q) (hq' : Quoted q')
    (h : q ++ rest = q' ++ left) : q = q' := by
  obtain ⟨v, -, hv, rfl⟩ := hq
  obtain ⟨v', -, hv', rfl⟩ := hq'
  simp only [List.cons_append, List.append_assoc] at h
  rw [(span_unique (by decide) hv hv' (List.cons.inj h).2).1]

theorem keyedQuoted_unique : PrefixFree KeyedQuoted := by
  intro w w' rest left hw hw' h
  obtain ⟨k, q, ⟨-, hk⟩, hq, rfl⟩ := hw
  obtain ⟨k', q', ⟨-, hk'⟩, hq', rfl⟩ := hw'
  simp only [List.cons_append, List.append_assoc] at h
  obtain ⟨rfl, htail⟩ := span_unique (by decide) hk hk' h
  rw [quoted_unique hq hq' htail]

theorem quoted_end {w : Text} (h : Quoted w) : ∃ v, w = v ++ [QUOTE] := by
  obtain ⟨v, -, -, rfl⟩ := h
  exact ⟨QUOTE :: v, rfl⟩

theorem keyedQuoted_end {w : Text} (h : KeyedQuoted w) : ∃ v, w = v ++ [QUOTE] := by
  obtain ⟨k, q, -, hq, rfl⟩ := h
  obtain ⟨v, rfl⟩ := quoted_end hq
  exact ⟨k ++ 58 :: v, by simp⟩

/-! ## Blanks behind a search -/

theorem isWord_of_blank {u : Nat} (hu : isBlank u = true) : isWord u = false := by
  have hall : ∀ u < 123, isWord u = true → isBlank u = false := by decide
  by_contra hw
  have hword : isWord u = true := by simpa using hw
  have hlt : u < 123 := by
    simp only [isWord, isDigit, isLetter, Bool.or_eq_true, Bool.and_eq_true, decide_eq_true_eq] at hword
    omega
  rw [hall u hlt hword] at hu
  cases hu

theorem avoids_keyed (u : Nat) (hu : isBlank u = true) : keyed.Avoids u := by
  have hcolon : decide (u = 58) = false := by
    rw [decide_eq_false_iff_not]
    intro h
    rw [h] at hu
    exact absurd hu (by decide)
  have hword := isWord_of_blank hu
  have hblank : (!isBlank u) = false := by rw [hu]; rfl
  exact ⟨⟨hword, hword⟩, ⟨hcolon, trivial⟩, ⟨hblank, hblank⟩, trivial⟩

theorem avoids_bare (u : Nat) (hu : isBlank u = true) : bare.Avoids u := by
  have hblank : (!isBlank u) = false := by rw [hu]; rfl
  exact ⟨hblank, hblank⟩

section
variable {blanks : Text} (hb : ∀ u ∈ blanks, isBlank u = true)
include hb

theorem head?_push_of_denotes {r : Regex Nat} {L : Text → Prop} (hr : Denotes isWord r L) (hL : PrefixFree L)
    (hend : ∀ w, L w → ∃ v, w = v ++ [QUOTE]) (b : Bool) (t : Text) :
    (r.run isWord (b, t ++ blanks)).head? = (r.run isWord (b, t)).head?.map (Cursor.push blanks) := by
  by_cases h : ∃ w rest, t = w ++ rest ∧ L w
  · obtain ⟨w, rest, rfl, hw⟩ := h
    rw [List.append_assoc, head?_of_denotes hr hL hw, head?_of_denotes hr hL hw]
    rfl
  · have hno : ∀ w rest, t = w ++ rest → ¬ L w := fun w rest he hw => h ⟨w, rest, he, hw⟩
    have hno' : ∀ w rest, t ++ blanks = w ++ rest → ¬ L w := by
      intro w rest he hw
      rcases List.append_eq_append_iff.mp he with ⟨q, hq, hrest⟩ | ⟨q, hq, -⟩
      · obtain ⟨v, hv⟩ := hend w hw
        rcases List.eq_nil_or_concat q with rfl | ⟨q, x, rfl⟩
        · rw [List.append_nil] at hq
          exact hno w [] (by rw [hq, List.append_nil]) hw
        · -- the quote at the end of the word would be a blank
          have hx : x = QUOTE := by
            rw [hq, List.concat_eq_append, ← List.append_assoc] at hv
            exact (List.append_inj' hv rfl).2 |> fun h => (List.cons.inj h).1
          have hblank := hb x (by rw [hrest]; simp)
          rw [hx] at hblank
          exact absurd hblank (by decide)
      · exact hno w q hq hw
    rw [head?_of_not_denotes hr hno, head?_of_not_denotes hr hno']
    rfl

theorem head?_push_of_avoids {r : Regex Nat} (hr : ∀ u, isBlank u = true → r.Avoids u) (b : Bool) (t : Text) :
    (r.run isWord (b, t ++ blanks)).head? = (r.run isWord (b, t)).head?.map (Cursor.push blanks) := by
  cases blanks with
  | nil =>
    have hid : Cursor.push (α := Nat) [] = id := by
      funext c
      simp [Cursor.push]
    rw [List.append_nil, hid, Option.map_id, id]
  | cons u rest =>
    have hu := hb u List.mem_cons_self
    have hpush := run_map_push (isWord_of_blank hu) (hr u hu) rest (b, t)
    have hhead := congrArg List.head? hpush
    rw [List.head?_map] at hhead
    exact hhead

theorem head?_push (b : Bool) (t : Text) : (tokenPattern.run isWord (b, t ++ blanks)).head? =
    (tokenPattern.run isWord (b, t)).head?.map (Cursor.push blanks) := by
  have hkeyedQuoted :=
    head?_push_of_denotes hb denotes_keyedQuoted keyedQuoted_unique (fun _ => keyedQuoted_end) b t
  have hquoted := head?_push_of_denotes hb denotes_quoted (fun w w' rest left hw hw' => quoted_unique hw hw')
    (fun _ => quoted_end) b t
  have hkeyed := head?_push_of_avoids hb avoids_keyed b t
  have hbare := head?_push_of_avoids hb avoids_bare b t
  simp only [tokenPattern, run, List.head?_append, hkeyedQuoted, hquoted, hkeyed, hbare, Option.map_or]

end

theorem run_blank {u : Nat} (hu : isBlank u = true) (b : Bool) (rest : Text) :
    tokenPattern.run isWord (b, u :: rest) = [] := by
  have hreads : ∀ (r : Regex Nat) (L : Text → Prop), Denotes isWord r L →
      (∀ w, L w → ∃ v x, w = v :: x ∧ isBlank v = false) → r.run isWord (b, u :: rest) = [] := by
    intro r L hr hL
    apply List.head?_eq_none_iff.mp
    apply head?_of_not_denotes hr
    intro w left he hw
    obtain ⟨v, x, rfl, hv⟩ := hL w hw
    rw [← (List.cons.inj he).1, hu] at hv
    cases hv
  have havoids : ∀ r : Regex Nat, (∀ u, isBlank u = true → r.Avoids u) → r.run isWord (b, []) = [] →
      r.run isWord (b, u :: rest) = [] := by
    intro r hr hnil
    have h := run_map_push (isWord_of_blank hu) (hr u hu) rest (b, [])
    rw [hnil] at h
    exact h
  have hkeyedQuoted := hreads _ _ denotes_keyedQuoted fun w hw => by
    obtain ⟨k, q, ⟨hne, hk⟩, -, rfl⟩ := hw
    obtain ⟨v, k, rfl⟩ := List.exists_cons_of_ne_nil hne
    refine ⟨v, _, rfl, ?_⟩
    by_contra hv
    have hword := isWord_of_blank (Bool.not_eq_false _ ▸ hv : isBlank v = true)
    rw [hk v List.mem_cons_self] at hword
    cases hword
  have hquoted := hreads _ _ denotes_quoted fun w hw => by
    obtain ⟨v, -, -, rfl⟩ := hw
    exact ⟨QUOTE, _, rfl, by decide⟩
  have hkeyed := havoids _ avoids_keyed rfl
  have hbare := havoids _ avoids_bare rfl
  rw [tokenPattern, run, run, run, hkeyedQuoted, hquoted, hkeyed, hbare]
  rfl

theorem skips_blanks {blanks : Text} (hb : ∀ u ∈ blanks, isBlank u = true) (rest : Text) :
    Skips isWord tokenPattern blanks rest := by
  induction blanks with
  | nil => exact skips_nil rest
  | cons u blanks ih =>
    have hu : Skips isWord tokenPattern [u] (blanks ++ rest) :=
      skips_singleton fun b => run_blank (hb u List.mem_cons_self) b _
    exact hu.append (ih fun v hv => hb v (List.mem_cons_of_mem u hv))

theorem after_blanks {blanks : Text} (hb : ∀ u ∈ blanks, isBlank u = true) : after isWord false blanks = false := by
  induction blanks with
  | nil => rfl
  | cons u blanks ih =>
    rw [after_cons, isWord_of_blank (hb u List.mem_cons_self)]
    exact ih fun v hv => hb v (List.mem_cons_of_mem u hv)

theorem scan_nil (b : Bool) : scan isWord tokenPattern 0 b [] = [] := by
  cases b with
  | true => rfl
  | false => rfl

theorem trimText_split (t : Text) : ∃ lead trail, t = lead ++ trimText t ++ trail ∧
    (∀ u ∈ lead, isBlank u = true) ∧ ∀ u ∈ trail, isBlank u = true := by
  refine ⟨t.takeWhile isBlank, ((t.dropWhile isBlank).reverse.takeWhile isBlank).reverse, ?_, ?_, ?_⟩
  · have hback : trimText t ++ ((t.dropWhile isBlank).reverse.takeWhile isBlank).reverse = t.dropWhile isBlank := by
      rw [trimText, ← List.reverse_append, List.takeWhile_append_dropWhile, List.reverse_reverse]
    rw [List.append_assoc, hback, List.takeWhile_append_dropWhile]
  · intro u hu
    exact List.mem_takeWhile_imp hu
  · intro u hu
    exact List.mem_takeWhile_imp (List.mem_reverse.mp hu)

/-- The client does not trim the search, which makes no difference. -/
theorem tokens_trim (search : Text) : tokens (trimText search) = tokens search := by
  obtain ⟨lead, trail, he, hlead, htrail⟩ := trimText_split search
  generalize trimText search = mid at he ⊢
  subst he
  have hscan := scan_append (head?_push htrail) (skips_blanks htrail []) scan_nil 0 false mid (Nat.zero_le _)
  have hnone : (trail.map (Sum.inl (β := Text))).filterMap Sum.getRight? = [] := by
    rw [List.filterMap_eq_nil_iff]
    intro x hx
    obtain ⟨u, -, rfl⟩ := List.mem_map.mp hx
    rfl
  rw [tokens, tokens, matchAll, matchAll, List.append_assoc, (skips_blanks hlead _).matches,
    after_blanks hlead, hscan, List.filterMap_append, hnone, List.append_nil]

end DocVault.Search
