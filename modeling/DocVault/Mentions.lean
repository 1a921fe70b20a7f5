import DocVault.JsRegex
import DocVault.RegexScan
import Mathlib.Data.List.DropRight
import Mathlib.Data.List.Infix
import Mathlib.Data.List.Range

/-!
# Mentions

`parseMentions` of `mentions.util.ts` and the grammar that it reads: an `@` that
begins a token, the run of name units behind it, and of this run what is left
without the punctuation at its end.
-/

namespace DocVault

open Regex

/-! ## parseMentions -/

namespace Mentions

/-- `[a-zA-Z0-9._-]` -/
def isNameUnit (u : Nat) : Bool := isLetter u || isDigit u || isOneOf "._-" u

/-- `[\s([]` -/
def isSeparator (u : Nat) : Bool := isBlank u || isOneOf "([" u

/-- `[.\-_]` -/
def isTrailing (u : Nat) : Bool := isOneOf ".-_" u

def isAt (u : Nat) : Bool := u = 64

/-- `^` and `$`: a boundary of the text, whose units all count as units of one word. -/
def anchor : Regex Nat := .boundary

def everyUnit (_ : Nat) : Bool := true

def pattern : Regex Nat := chain [.alt anchor (.one isSeparator), .one isAt, plus isNameUnit]

def group (w : Text) : Text := (w.dropWhile fun u => !isAt u).tail

/-- `run.replace(/[.\-_]+$/, '')` -/
def stripped (run : Text) : Text := replace everyUnit (chain [plus isTrailing, anchor]) (fun _ => []) run

def collect (result : List Text) (username : Text) : List Text :=
  if username.length = 0 then result
  else if result.contains username then result
  else result ++ [username]

end Mentions

open Mentions in
def parseMentions (content : Text) : List Text :=
  if content.length = 0 then []
  else ((matchAll everyUnit pattern content).map fun w => stripped (group w)).foldl collect []

namespace Mentions

example : parseMentions (utf16 "@ann.@bob (@bob.) [@eve-, a@b @ann") = [utf16 "ann", utf16 "bob", utf16 "eve"] :=
  by decide +kernel

/-! ## The grammar -/

def Opens (front : Text) : Prop := ∀ u ∈ front.getLast?, isSeparator u = true

/-- The text has an `@` at `i`, at the start of a token, with `run` as the longest run of name units behind it. -/
structure TokenAt (text : Text) (i : Nat) (run : Text) : Prop where
  split : ∃ front rest, text = front ++ 64 :: (run ++ rest) ∧ front.length = i ∧ Opens front ∧
    ∀ u ∈ rest.head?, isNameUnit u = false
  names : ∀ u ∈ run, isNameUnit u = true

def MentionAt (text : Text) (i : Nat) (username : Text) : Prop :=
  username ≠ [] ∧ ∃ run, TokenAt text i run ∧ username = run.rdropWhile isTrailing

/-- What the parser promises: the usernames mentioned, once each, in the order of their first mentions. -/
structure Parses (text : Text) (usernames : List Text) : Prop where
  nodup : usernames.Nodup
  exact : ∀ u, u ∈ usernames ↔ ∃ i, MentionAt text i u
  order : usernames.Pairwise fun u v => ∃ i, MentionAt text i u ∧ ∀ j, MentionAt text j v → i < j

def joined (usernames : List Text) : Text := (utf16 " ").intercalate (usernames.map fun u => utf16 "@" ++ u)

/-! ## Units -/

theorem nameUnit_lt {u : Nat} (h : isNameUnit u = true) : u < 128 := by
  have hpunctuation : ∀ v ∈ utf16 "._-", v < 128 := by decide
  simp only [isNameUnit, isLetter, isDigit, isOneOf, Bool.or_eq_true, Bool.and_eq_true, decide_eq_true_eq] at h
  obtain (h | h) | h := h
  · omega
  · omega
  · exact hpunctuation u h

theorem nameUnit_plain {u : Nat} (h : isNameUnit u = true) : isSeparator u = false ∧ isAt u = false := by
  have hall : ∀ v < 128, isNameUnit v = true → isSeparator v = false ∧ isAt v = false := by decide +kernel
  exact hall u (nameUnit_lt h) h

/-! ## One match -/

section
variable {b : Bool} {run rest : Text}

theorem run_anchor (b : Bool) (text : Text) :
    anchor.run everyUnit (b, text) = if b = text.isEmpty then [(b, text)] else [] := by
  cases b <;> cases text <;> simp [anchor, Regex.run, everyUnit]

theorem after_every (w : Text) : after everyUnit true w = true := by
  induction w with
  | nil => rfl
  | cons u w ih => exact ih

theorem run_at (b : Bool) (u : Nat) (text : Text) :
    (one isAt).run everyUnit (b, u :: text) = if isAt u then [(true, text)] else [] := rfl

theorem run_names (hne : run ≠ []) (hrun : ∀ u ∈ run, isNameUnit u = true)
    (hrest : ∀ u ∈ rest.head?, isNameUnit u = false) (b : Bool) :
    ((chain [plus isNameUnit]).run everyUnit (b, run ++ rest)).head? = some (true, rest) := by
  have hafter : after everyUnit b run = true := by
    obtain ⟨u, run, rfl⟩ := List.exists_cons_of_ne_nil hne
    exact after_every run
  have hplus : ((plus isNameUnit).run everyUnit (b, run ++ rest)).head? = some (after everyUnit b run, rest) :=
    head?_plus hne hrun hrest b
  rw [hafter] at hplus
  exact head?_flatMap_of_head hplus rfl

theorem run_no_names (hrest : ∀ u ∈ rest.head?, isNameUnit u = false) (b : Bool) :
    (chain [plus isNameUnit]).run everyUnit (b, rest) = [] := by
  cases rest with
  | nil => rfl
  | cons u rest => simp [chain, plus, Regex.run, hrest u rfl]

theorem run_pattern_at (b : Bool) (text : Text) : pattern.run everyUnit (b, 64 :: text) =
    if b then [] else (chain [plus isNameUnit]).run everyUnit (true, text) := by
  have hseparator : (one isSeparator).run everyUnit (b, 64 :: text) = [] := by
    have hno : isSeparator 64 = false := by decide
    simp [Regex.run, hno]
  have halt : (Regex.alt anchor (one isSeparator)).run everyUnit (b, 64 :: text) = if b then []
    else [(b, 64 :: text)] := by
    rw [Regex.run, run_anchor, hseparator, List.append_nil]
    cases b <;> rfl
  have hpattern : pattern.run everyUnit (b, 64 :: text) =
      ((Regex.alt anchor (one isSeparator)).run everyUnit (b, 64 :: text)).flatMap fun c =>
        ((one isAt).run everyUnit c).flatMap ((chain [plus isNameUnit]).run everyUnit) := rfl
  rw [hpattern, halt]
  cases b with
  | true => rfl
  | false => simp [run_at, isAt]

theorem run_pattern_cons (b : Bool) {u : Nat} (hu : isAt u = false) (text : Text) :
    pattern.run everyUnit (b, u :: text) =
    if isSeparator u then ((one isAt).run everyUnit (true, text)).flatMap ((chain [plus isNameUnit]).run everyUnit)
    else [] := by
  have hpattern : pattern.run everyUnit (b, u :: text) =
      ((Regex.alt anchor (one isSeparator)).run everyUnit (b, u :: text)).flatMap fun c =>
        ((one isAt).run everyUnit c).flatMap ((chain [plus isNameUnit]).run everyUnit) := rfl
  have hanchor : (anchor.run everyUnit (b, u :: text)).flatMap (fun c =>
      ((one isAt).run everyUnit c).flatMap ((chain [plus isNameUnit]).run everyUnit)) = [] := by
    rw [run_anchor]
    cases b <;> simp [run_at, hu]
  have hone : (one isSeparator).run everyUnit (b, u :: text) = if isSeparator u then [(true, text)] else [] := rfl
  rw [hpattern, Regex.run, List.flatMap_append, hanchor, List.nil_append, hone]
  split
  · simp
  · rfl

end

/-! ## The scan -/

/-- The runs behind the `@`s of a text that begin a token, with their places; `opened` says
whether one at its head does. -/
def tokens : Nat → Bool → Text → List (Nat × Text)
  | _, _, [] => []
  | i, opened, u :: rest =>
    (if opened && isAt u then [(i, rest.takeWhile isNameUnit)] else []) ++ tokens (i + 1) (isSeparator u) rest

def runsOf (l : List (Nat × Text)) : List Text := (l.map (·.2)).filter (· ≠ [])

def groupsFrom (b : Bool) (text : Text) : List Text :=
  ((scan everyUnit pattern 0 b text).filterMap Sum.getRight?).map group

section
variable {b : Bool} {i u : Nat} {text rest w run : Text}

theorem groups_skip (h : pattern.run everyUnit (b, u :: rest) = []) :
    groupsFrom b (u :: rest) = groupsFrom true rest := by
  unfold groupsFrom
  rw [scan, h]
  rfl

theorem groups_match (hne : w ≠ []) (h : (pattern.run everyUnit (b, w ++ rest)).head? = some (true, rest)) :
    groupsFrom b (w ++ rest) = group w :: groupsFrom true rest := by
  have hafter : after everyUnit b w = true := by
    obtain ⟨u, w, rfl⟩ := List.exists_cons_of_ne_nil hne
    exact after_every w
  unfold groupsFrom
  rw [scan_of_head hne h, hafter]
  rfl

theorem tokens_names (hrun : ∀ u ∈ run, isNameUnit u = true) (rest : Text) (i : Nat) :
    tokens i false (run ++ rest) = tokens (i + run.length) false rest := by
  induction run generalizing i with
  | nil => rfl
  | cons u run ih =>
    have hu := nameUnit_plain (hrun u List.mem_cons_self)
    rw [List.cons_append, tokens, hu.1, ih (fun v hv => hrun v (List.mem_cons_of_mem u hv))]
    rw [Bool.false_and, if_neg Bool.false_ne_true, List.nil_append, List.length_cons,
      Nat.add_right_comm, Nat.add_assoc]

theorem tokens_at (i : Nat) (rest : Text) : tokens i true (64 :: rest) =
    (i, rest.takeWhile isNameUnit) :: tokens (i + 1 + (rest.takeWhile isNameUnit).length) false
      (rest.dropWhile isNameUnit) := by
  have hsplit := List.takeWhile_append_dropWhile (p := isNameUnit) (l := rest)
  have hnames : ∀ u ∈ rest.takeWhile isNameUnit, isNameUnit u = true := fun u hu => List.mem_takeWhile_imp hu
  rw [← tokens_names hnames, hsplit]
  rfl

theorem tokens_closed (i : Nat) (hu : isAt u = false) (opened : Bool) (rest : Text) :
    tokens i opened (u :: rest) = tokens (i + 1) (isSeparator u) rest := by
  rw [tokens, hu, Bool.and_false]
  rfl

theorem tokens_at_closed (i : Nat) (rest : Text) : tokens i false (64 :: rest) = tokens (i + 1) false rest := rfl

theorem runsOf_cons (i : Nat) (run : Text) (l : List (Nat × Text)) :
    runsOf ((i, run) :: l) = if run = [] then runsOf l else run :: runsOf l := by
  unfold runsOf
  by_cases h : run = [] <;> simp [h]

theorem groups_token (front : Text) (hfront : ∀ u ∈ front, isAt u = false) (hrun : rest.takeWhile isNameUnit ≠ [])
    (h : pattern.run everyUnit (b, front ++ 64 :: rest) = (chain [plus isNameUnit]).run everyUnit (true, rest)) :
    groupsFrom b (front ++ 64 :: rest) =
      rest.takeWhile isNameUnit :: groupsFrom true (rest.dropWhile isNameUnit) := by
  have hnames : ∀ u ∈ rest.takeWhile isNameUnit, isNameUnit u = true := fun u hu => List.mem_takeWhile_imp hu
  have hmatch := run_names hrun hnames (head?_dropWhile isNameUnit rest) true
  have hsplit := List.takeWhile_append_dropWhile (p := isNameUnit) (l := rest)
  have hgroup : group (front ++ 64 :: rest.takeWhile isNameUnit) = rest.takeWhile isNameUnit := by
    unfold group
    rw [List.dropWhile_append_of_pos fun u hu => by simp [hfront u hu]]
    rfl
  have htext : front ++ 64 :: rest = (front ++ 64 :: rest.takeWhile isNameUnit) ++ rest.dropWhile isNameUnit := by
    rw [List.append_assoc, List.cons_append, hsplit]
  rw [hsplit, ← h, htext] at hmatch
  rw [htext, groups_match (by simp) hmatch, hgroup]

theorem head?_of_takeWhile (h : rest.takeWhile isNameUnit = []) : ∀ u ∈ rest.head?, isNameUnit u = false := by
  have hsplit := List.takeWhile_append_dropWhile (p := isNameUnit) (l := rest)
  rw [h, List.nil_append] at hsplit
  rw [← hsplit]
  exact head?_dropWhile isNameUnit rest

theorem runs_at (i : Nat) (rest : Text) : runsOf (tokens i true (64 :: rest)) =
    if rest.takeWhile isNameUnit = [] then runsOf (tokens (i + 1) false rest)
    else rest.takeWhile isNameUnit ::
      runsOf (tokens (i + 1 + (rest.takeWhile isNameUnit).length) false (rest.dropWhile isNameUnit)) := by
  rw [tokens_at, runsOf_cons]
  split
  · rename_i h
    have hsplit := List.takeWhile_append_dropWhile (p := isNameUnit) (l := rest)
    rw [h, List.nil_append] at hsplit
    rw [h, hsplit]
    rfl
  · rfl

theorem length_dropWhile_names (rest : Text) : (rest.dropWhile isNameUnit).length ≤ rest.length :=
  (List.dropWhile_sublist isNameUnit).length_le

theorem groups_at {n : Nat}
    (hclosed : ∀ (j : Nat) (t : Text), t.length ≤ n → groupsFrom true t = runsOf (tokens j false t))
    (hle : rest.length ≤ n) : groupsFrom false (64 :: rest) = runsOf (tokens i true (64 :: rest)) := by
  have hrun := run_pattern_at false rest
  rw [if_neg Bool.false_ne_true] at hrun
  rw [runs_at]
  split
  · rename_i hempty
    rw [run_no_names (head?_of_takeWhile hempty)] at hrun
    rw [groups_skip hrun, hclosed (i + 1) rest hle]
  · rename_i hsome
    rw [← hclosed _ _ ((length_dropWhile_names rest).trans hle)]
    exact groups_token [] (by simp) hsome hrun

theorem groups_separator {n : Nat}
    (hclosed : ∀ (j : Nat) (t : Text), t.length ≤ n → groupsFrom true t = runsOf (tokens j false t))
    (hle : rest.length ≤ n) (hat : isAt u = false) (hsep : isSeparator u = true) :
    groupsFrom b (u :: rest) = runsOf (tokens (i + 1) true rest) := by
  have hrun := run_pattern_cons b hat rest
  rw [if_pos hsep] at hrun
  cases rest with
  | nil =>
    rw [groups_skip hrun]
    rfl
  | cons v rest =>
    rw [run_at] at hrun
    by_cases hat' : isAt v = true
    · obtain rfl : v = 64 := of_decide_eq_true hat'
      rw [if_pos hat', List.flatMap_singleton] at hrun
      rw [runs_at]
      split
      · rename_i hempty
        rw [run_no_names (head?_of_takeWhile hempty)] at hrun
        rw [groups_skip hrun, hclosed (i + 1) _ hle, tokens_at_closed]
      · rename_i hsome
        rw [← hclosed _ _ ((length_dropWhile_names rest).trans (Nat.le_of_succ_le hle))]
        exact groups_token [u] (by simpa using hat) hsome hrun
    · have hat' := Bool.eq_false_iff.mpr hat'
      rw [if_neg (by simp [hat']), List.flatMap_nil] at hrun
      rw [groups_skip hrun, hclosed (i + 1) _ hle, tokens_closed _ hat', tokens_closed _ hat']

/-- The scan finds the runs that are not empty: a separator that it does not take with
an `@` is in front of none. -/
theorem groups_tokens (n : Nat) (b : Bool) (i : Nat) (text : Text) (hn : text.length ≤ n) :
    groupsFrom b text = runsOf (tokens i (!b) text) := by
  induction n generalizing b i text with
  | zero =>
    rw [List.eq_nil_of_length_eq_zero (Nat.le_zero.mp hn)]
    cases b <;> rfl
  | succ n ih =>
    cases text with
    | nil => cases b <;> rfl
    | cons u rest =>
      have hle : rest.length ≤ n := Nat.le_of_succ_le_succ hn
      have hclosed : ∀ (j : Nat) (t : Text), t.length ≤ n → groupsFrom true t = runsOf (tokens j false t) :=
        fun j t ht => ih true j t ht
      by_cases hat : isAt u = true
      · obtain rfl : u = 64 := of_decide_eq_true hat
        cases b with
        | true => rw [groups_skip (run_pattern_at true rest), hclosed (i + 1) rest hle,
            Bool.not_true, tokens_at_closed]
        | false => exact groups_at hclosed hle
      · have hat := Bool.eq_false_iff.mpr hat
        rw [tokens_closed i hat]
        by_cases hsep : isSeparator u = true
        · rw [hsep]
          exact groups_separator hclosed hle hat hsep
        · have hrun := run_pattern_cons b hat rest
          rw [if_neg hsep] at hrun
          rw [groups_skip hrun, hclosed (i + 1) rest hle, Bool.eq_false_iff.mpr hsep]

end

/-! ## What is stripped -/

section
variable {v t run : Text}

theorem run_stripped (h : ∃ u ∈ v, isTrailing u = false) (b : Bool) :
    (chain [plus isTrailing, anchor]).run everyUnit (b, v) = [] := by
  rw [List.eq_nil_iff_forall_not_mem]
  intro c hc
  obtain ⟨m, hm, hc⟩ := mem_run_seq.mp hc
  obtain ⟨d, hd, -⟩ := mem_run_seq.mp hc
  obtain ⟨w, hne, htext, hw, hafter⟩ := mem_run_plus hm
  obtain ⟨a, w, rfl⟩ := List.exists_cons_of_ne_nil hne
  rw [after_cons, everyUnit, after_every] at hafter
  have hend : m.2 = [] := by
    obtain ⟨-, hb⟩ := mem_run_boundary.mp hd
    rw [hafter] at hb
    cases hm2 : m.2 with
    | nil => rfl
    | cons a rest => simp [hm2, everyUnit] at hb
  rw [hend, List.append_nil] at htext
  obtain ⟨u, hu, hstays⟩ := h
  rw [htext] at hu
  rw [hw u hu] at hstays
  cases hstays

theorem skips_stripped {u : Nat} (hu : isTrailing u = false) (v rest : Text) :
    Skips everyUnit (chain [plus isTrailing, anchor]) (v ++ [u]) rest := by
  induction v with
  | nil => exact skips_singleton fun b => run_stripped ⟨u, List.mem_cons_self, hu⟩ b
  | cons a v ih =>
    have ha : Skips everyUnit (chain [plus isTrailing, anchor]) [a] (v ++ [u] ++ rest) :=
      skips_singleton fun b => run_stripped ⟨u, by simp, hu⟩ b
    exact ha.append ih

theorem skips_front {v : Text} (hv : ∀ u ∈ v.getLast?, isTrailing u = false) (rest : Text) :
    Skips everyUnit (chain [plus isTrailing, anchor]) v rest := by
  obtain rfl | ⟨v, u, rfl⟩ := List.eq_nil_or_concat v
  · exact skips_nil rest
  · rw [List.concat_eq_append] at hv ⊢
    exact skips_stripped (hv u (by simp)) v rest

theorem stripped_append (hv : ∀ u ∈ v.getLast?, isTrailing u = false) (ht : ∀ u ∈ t, isTrailing u = true) :
    stripped (v ++ t) = v := by
  have hskips := skips_front hv
  unfold stripped
  by_cases hempty : t = []
  · have hend : ∀ b, scan everyUnit (chain [plus isTrailing, anchor]) 0 b [] = [] := by
      intro b
      simp [scan, chain, plus, Regex.run]
    have hscan := hskips [] false
    rw [hend, List.append_nil, List.append_nil] at hscan
    have hall := replaceFirst_inl (fun _ => []) v []
    rw [List.append_nil] at hall
    rw [hempty, List.append_nil, replace, hscan, hall, replaceFirst, List.append_nil]
  · have hmatch : ((chain [plus isTrailing, anchor]).run everyUnit (after everyUnit false v, t ++ [])).head? =
        some (true, []) := by
      have hplus : ((plus isTrailing).run everyUnit (after everyUnit false v, t ++ [])).head?
          = some (after everyUnit (after everyUnit false v) t, []) := head?_plus hempty ht (by simp) _
      have hafter : after everyUnit (after everyUnit false v) t = true := by
        obtain ⟨a, t, rfl⟩ := List.exists_cons_of_ne_nil hempty
        exact after_every t
      rw [hafter] at hplus
      exact head?_flatMap_of_head hplus rfl
    have hreplace := replace_first (f := fun _ => []) (hskips (t ++ [])) hempty hmatch
    simpa using hreplace

theorem getLast?_rdropWhile (run : Text) : ∀ u ∈ (run.rdropWhile isTrailing).getLast?, isTrailing u = false := by
  intro u hu
  have hne : run.rdropWhile isTrailing ≠ [] := by
    intro hnil
    rw [hnil] at hu
    cases hu
  rw [List.getLast?_eq_getLast_of_ne_nil hne, Option.mem_some_iff] at hu
  have hlast := List.rdropWhile_last_not isTrailing run hne
  rw [hu] at hlast
  exact Bool.eq_false_iff.mpr hlast

theorem stripped_eq (run : Text) : stripped run = run.rdropWhile isTrailing := by
  have hsplit := List.rdropWhile_append_rtakeWhile (p := isTrailing) (l := run)
  have hpunctuation : ∀ u ∈ run.rtakeWhile isTrailing, isTrailing u = true := fun u hu => List.mem_rtakeWhile_imp hu
  have hstripped := stripped_append (getLast?_rdropWhile run) hpunctuation
  rwa [hsplit] at hstripped

end

/-! ## Tokens of the text -/

section
variable {text run rest : Text} {i j : Nat} {opened : Bool}

theorem takeWhile_run (hrun : ∀ u ∈ run, isNameUnit u = true) (hrest : ∀ u ∈ rest.head?, isNameUnit u = false) :
    (run ++ rest).takeWhile isNameUnit = run := by
  have hnone : rest.takeWhile isNameUnit = [] := by
    cases rest with
    | nil => rfl
    | cons u rest => rw [List.takeWhile_cons_of_neg (by simp [hrest u rfl])]
  rw [List.takeWhile_append_of_pos hrun, hnone, List.append_nil]

theorem opens_cons {u : Nat} {front : Text} :
    Opens (u :: front) ↔ (front = [] → isSeparator u = true) ∧ Opens front := by
  unfold Opens
  cases front with
  | nil => simp
  | cons v front => simp

theorem mem_tokens : (j, run) ∈ tokens i opened text ↔
    ∃ front rest, text = front ++ 64 :: (run ++ rest) ∧ i + front.length = j ∧ (front = [] → opened = true) ∧
      Opens front ∧ (∀ u ∈ run, isNameUnit u = true) ∧ ∀ u ∈ rest.head?, isNameUnit u = false := by
  induction text generalizing i opened with
  | nil => simp [tokens]
  | cons u text ih =>
    have hhead : (j, run) ∈ (if opened && isAt u then [(i, text.takeWhile isNameUnit)] else []) ↔
        (opened = true ∧ u = 64) ∧ j = i ∧ run = text.takeWhile isNameUnit := by
      by_cases h : opened = true ∧ u = 64
      · simp [h, isAt]
      · have hno : (opened && isAt u) = false := by simpa [isAt] using h
        simp [hno, h]
    rw [tokens, List.mem_append, hhead, ih]
    apply Iff.intro
    · intro h
      obtain ⟨⟨hopened, rfl⟩, rfl, rfl⟩ | ⟨front, rest, rfl, hj, hsep, hopens, hrun, hrest⟩ := h
      · refine ⟨[], text.dropWhile isNameUnit, ?_, rfl,
          fun _ => hopened, by simp [Opens], ?_, head?_dropWhile isNameUnit text⟩
        · rw [List.takeWhile_append_dropWhile, List.nil_append]
        · exact fun u hu => List.mem_takeWhile_imp hu
      · refine ⟨u :: front, rest, rfl, ?_, by simp, opens_cons.mpr ⟨hsep, hopens⟩, hrun, hrest⟩
        rw [List.length_cons]
        omega
    · intro h
      obtain ⟨front, rest, htext, hj, hopened, hopens, hrun, hrest⟩ := h
      cases front with
      | nil =>
        obtain ⟨rfl, rfl⟩ := List.cons.inj htext
        exact .inl ⟨⟨hopened rfl, rfl⟩, hj.symm, (takeWhile_run hrun hrest).symm⟩
      | cons v front =>
        obtain ⟨rfl, rfl⟩ := List.cons.inj htext
        obtain ⟨hsep, hopens⟩ := opens_cons.mp hopens
        refine .inr ⟨front, rest, rfl, ?_, hsep, hopens, hrun, hrest⟩
        rw [List.length_cons] at hj
        omega

theorem tokenAt_iff : TokenAt text i run ↔ (i, run) ∈ tokens 0 true text := by
  rw [mem_tokens]
  apply Iff.intro
  · intro h
    obtain ⟨⟨front, rest, htext, hi, hopens, hrest⟩, hrun⟩ := h
    exact ⟨front, rest, htext, by omega, fun _ => rfl, hopens, hrun, hrest⟩
  · intro h
    obtain ⟨front, rest, htext, hi, -, hopens, hrun, hrest⟩ := h
    exact ⟨⟨front, rest, htext, by omega, hopens, hrest⟩, hrun⟩

theorem tokens_ge (h : (j, run) ∈ tokens i opened text) : i ≤ j := by
  obtain ⟨front, rest, -, hj, -⟩ := mem_tokens.mp h
  omega

theorem tokens_sorted (i : Nat) (opened : Bool) (text : Text) :
    (tokens i opened text).Pairwise fun a b => a.1 < b.1 := by
  induction text generalizing i opened with
  | nil => exact List.Pairwise.nil
  | cons u text ih =>
    rw [tokens, List.pairwise_append]
    refine ⟨?_, ih (i + 1) (isSeparator u), ?_⟩
    · split
      · exact List.pairwise_singleton _ _
      · exact List.Pairwise.nil
    · intro a ha b hb
      have hlater : i + 1 ≤ b.1 := tokens_ge hb
      split at ha
      · rw [List.mem_singleton.mp ha]
        omega
      · cases ha

end

/-! ## What is collected -/

section
variable {text : Text} {l : List (Nat × Text)}

structure Collects (l : List (Nat × Text)) (usernames : List Text) : Prop where
  nodup : usernames.Nodup
  exact : ∀ u, u ∈ usernames ↔ ∃ i, (i, u) ∈ l
  order : usernames.Pairwise fun u v => ∃ i, (i, u) ∈ l ∧ ∀ j, (j, v) ∈ l → i < j

theorem collect_eq {result : List Text} {u : Text} (hu : u ≠ []) :
    collect result u = if u ∈ result then result else result ++ [u] := by
  have hlength : u.length ≠ 0 := fun h => hu (List.eq_nil_of_length_eq_zero h)
  unfold collect
  rw [if_neg hlength]
  by_cases h : u ∈ result <;> simp [h]

theorem mem_snoc {i j : Nat} {u v : Text} : (j, v) ∈ l ++ [(i, u)] ↔ (j, v) ∈ l ∨ j = i ∧ v = u := by simp

theorem Collects.order_snoc {usernames : List Text} {i : Nat} (u : Text) (h : Collects l usernames)
    (hlast : ∀ e ∈ l, e.1 < i) :
    usernames.Pairwise fun v w => ∃ j, (j, v) ∈ l ++ [(i, u)] ∧ ∀ k, (k, w) ∈ l ++ [(i, u)] → j < k := by
  refine h.order.imp fun hvw => ?_
  obtain ⟨j, hj, hbefore⟩ := hvw
  refine ⟨j, mem_snoc.mpr (.inl hj), fun k hk => ?_⟩
  obtain hk | ⟨rfl, -⟩ := mem_snoc.mp hk
  · exact hbefore k hk
  · exact hlast _ hj

theorem Collects.again {usernames : List Text} {i : Nat} {u : Text} (h : Collects l usernames) (hin : u ∈ usernames)
    (hlast : ∀ e ∈ l, e.1 < i) : Collects (l ++ [(i, u)]) usernames := by
  refine ⟨h.nodup, fun v => ?_, h.order_snoc u hlast⟩
  rw [h.exact]
  apply Iff.intro
  · intro hv
    obtain ⟨j, hj⟩ := hv
    exact ⟨j, mem_snoc.mpr (.inl hj)⟩
  · intro hv
    obtain ⟨j, hj⟩ := hv
    obtain hj | ⟨-, rfl⟩ := mem_snoc.mp hj
    · exact ⟨j, hj⟩
    · exact (h.exact v).mp hin

theorem Collects.first {usernames : List Text} {i : Nat} {u : Text} (h : Collects l usernames) (hin : u ∉ usernames)
    (hlast : ∀ e ∈ l, e.1 < i) : Collects (l ++ [(i, u)]) (usernames ++ [u]) := by
  refine ⟨?_, fun v => ?_, ?_⟩
  · rw [List.nodup_append]
    exact ⟨h.nodup, List.nodup_singleton u, by simpa using fun v hv (heq : v = u) => hin (heq ▸ hv)⟩
  · rw [List.mem_append, List.mem_singleton, h.exact]
    apply Iff.intro
    · intro hv
      obtain ⟨j, hj⟩ | rfl := hv
      · exact ⟨j, mem_snoc.mpr (.inl hj)⟩
      · exact ⟨i, mem_snoc.mpr (.inr ⟨rfl, rfl⟩)⟩
    · intro hv
      obtain ⟨j, hj⟩ := hv
      obtain hj | ⟨-, rfl⟩ := mem_snoc.mp hj
      · exact .inl ⟨j, hj⟩
      · exact .inr rfl
  · rw [List.pairwise_append]
    refine ⟨h.order_snoc u hlast, List.pairwise_singleton _ _, fun v hv w hw => ?_⟩
    obtain rfl := List.mem_singleton.mp hw
    obtain ⟨j, hj⟩ := (h.exact v).mp hv
    refine ⟨j, mem_snoc.mpr (.inl hj), fun k hk => ?_⟩
    obtain hk | ⟨rfl, -⟩ := mem_snoc.mp hk
    · exact absurd ((h.exact w).mpr ⟨k, hk⟩) hin
    · exact hlast _ hj

theorem Collects.snoc {usernames : List Text} {i : Nat} {u : Text} (h : Collects l usernames) (hu : u ≠ [])
    (hlast : ∀ e ∈ l, e.1 < i) : Collects (l ++ [(i, u)]) (collect usernames u) := by
  rw [collect_eq hu]
  by_cases hin : u ∈ usernames
  · rw [if_pos hin]
    exact h.again hin hlast
  · rw [if_neg hin]
    exact h.first hin hlast

theorem collects_all (hne : ∀ e ∈ l, e.2 ≠ []) (hsorted : l.Pairwise fun a b => a.1 < b.1) :
    Collects l ((l.map (·.2)).foldl collect []) := by
  induction l using List.reverseRecOn with
  | nil => exact ⟨List.nodup_nil, by simp, List.Pairwise.nil⟩
  | append_singleton l e ih =>
    obtain ⟨hl, -, hlast⟩ := List.pairwise_append.mp hsorted
    have hcollects := ih (fun e he => hne e (List.mem_append_left _ he)) hl
    rw [List.map_append, List.foldl_append]
    exact hcollects.snoc (hne e (by simp)) fun a ha => hlast a ha e List.mem_cons_self

def mentions (text : Text) : List (Nat × Text) :=
  ((tokens 0 true text).map fun token => (token.1, token.2.rdropWhile isTrailing)).filter fun e => e.2 ≠ []

theorem mem_mentions {i : Nat} {u : Text} : (i, u) ∈ mentions text ↔ MentionAt text i u := by
  unfold mentions MentionAt
  simp only [tokenAt_iff, List.mem_filter, List.mem_map, Prod.mk.injEq, Prod.exists, decide_eq_true_eq, ne_eq]
  apply Iff.intro
  · intro h
    obtain ⟨⟨j, run, hm, rfl, rfl⟩, hne⟩ := h
    exact ⟨hne, run, hm, rfl⟩
  · intro h
    obtain ⟨hne, run, hm, rfl⟩ := h
    exact ⟨⟨i, run, hm, rfl, rfl⟩, hne⟩

theorem foldl_collect (us result : List Text) :
    us.foldl collect result = (us.filter (· ≠ [])).foldl collect result := by
  induction us generalizing result with
  | nil => rfl
  | cons u us ih =>
    by_cases h : u = []
    · rw [List.foldl_cons, List.filter_cons_of_neg (by simp [h]), ← ih, h]
      rfl
    · rw [List.foldl_cons, List.filter_cons_of_pos (by simp [h]), List.foldl_cons, ih]

theorem runs_mentions (l : List (Nat × Text)) : ((runsOf l).map stripped).filter (· ≠ []) =
    ((l.map fun token => (token.1, token.2.rdropWhile isTrailing)).filter fun e => e.2 ≠ []).map (·.2) := by
  induction l with
  | nil => rfl
  | cons token l ih =>
    obtain ⟨i, run⟩ := token
    rw [runsOf_cons]
    by_cases hrun : run = []
    · subst hrun
      simpa using ih
    · by_cases h : run.rdropWhile isTrailing = []
      · simpa [hrun, stripped_eq, h] using ih
      · simpa [hrun, stripped_eq, h] using ih

theorem parseMentions_eq (text : Text) : parseMentions text = ((mentions text).map (·.2)).foldl collect [] := by
  have hgroups := groups_tokens text.length false 0 text (Nat.le_refl _)
  unfold parseMentions
  by_cases hempty : text.length = 0
  · rw [if_pos hempty, List.eq_nil_of_length_eq_zero hempty]
    rfl
  · have hmap : (matchAll everyUnit pattern text).map (fun w => stripped (group w)) =
        (groupsFrom false text).map stripped := (List.map_map ..).symm
    rw [if_neg hempty, hmap, hgroups, foldl_collect, runs_mentions]
    rfl

theorem parses (text : Text) : Parses text (parseMentions text) := by
  have hne : ∀ e ∈ mentions text, e.2 ≠ [] := fun e he => of_decide_eq_true (List.mem_filter.mp he).2
  have hall : ((tokens 0 true text).map fun token => (token.1, token.2.rdropWhile isTrailing)).Pairwise
      fun a b => a.1 < b.1 := List.pairwise_map.mpr (tokens_sorted 0 true text)
  have hsorted : (mentions text).Pairwise fun a b => a.1 < b.1 := hall.filter _
  have hcollects := collects_all hne hsorted
  rw [← parseMentions_eq] at hcollects
  refine ⟨hcollects.nodup, ?_, ?_⟩
  · simpa only [mem_mentions] using hcollects.exact
  · simpa only [mem_mentions] using hcollects.order

end

/-! ## Reading the usernames again -/

section
variable {text u : Text} {us : List Text}

structure Username (u : Text) : Prop where
  nonempty : u ≠ []
  names : ∀ v ∈ u, isNameUnit v = true
  stripped : ∀ v ∈ u.getLast?, isTrailing v = false

theorem username_of_mention {i : Nat} (h : MentionAt text i u) : Username u := by
  obtain ⟨hne, run, htoken, rfl⟩ := h
  exact ⟨hne, fun v hv => htoken.names v ((List.rdropWhile_prefix isTrailing run).subset hv),
    getLast?_rdropWhile run⟩

theorem Username.rdropWhile (h : Username u) : u.rdropWhile isTrailing = u := by
  rw [← stripped_eq]
  have hself := stripped_append h.stripped (t := []) (by simp)
  rwa [List.append_nil] at hself

theorem joined_cons (u : Text) (us : List Text) :
    joined (u :: us) = 64 :: (u ++ if us = [] then [] else 32 :: joined us) := by
  cases us with
  | nil => simp [joined, utf16, utf16Units]
  | cons v us => simp [joined, utf16, utf16Units]

theorem runsOf_joined (h : ∀ u ∈ us, Username u) (i : Nat) : runsOf (tokens i true (joined us)) = us := by
  induction us generalizing i with
  | nil => rfl
  | cons u us ih =>
    obtain ⟨hu, hus⟩ := List.forall_mem_cons.mp h
    have hblank : isNameUnit 32 = false := by decide
    have hrest : ∀ v ∈ (if us = [] then [] else 32 :: joined us).head?, isNameUnit v = false := by
      by_cases hnil : us = []
      · simp [hnil]
      · simp [hnil, hblank]
    have htake := takeWhile_run hu.names hrest
    have hdrop : (u ++ if us = [] then [] else 32 :: joined us).dropWhile isNameUnit
        = if us = [] then [] else 32 :: joined us := by
      have hsplit := List.takeWhile_append_dropWhile (p := isNameUnit) (l := u ++ if us = [] then []
        else 32 :: joined us)
      rw [htake] at hsplit
      exact List.append_cancel_left hsplit
    rw [joined_cons, runs_at, htake, if_neg hu.nonempty, hdrop]
    by_cases hnil : us = []
    · rw [if_pos hnil, hnil]
      rfl
    · rw [if_neg hnil, tokens_closed _ (by decide), show isSeparator 32 = true by decide, ih hus]

theorem foldl_collect_nodup {result : List Text} (hne : ∀ u ∈ us, u ≠ []) (hnodup : (result ++ us).Nodup) :
    us.foldl collect result = result ++ us := by
  induction us generalizing result with
  | nil => simp
  | cons u us ih =>
    have hnew : u ∉ result := fun hin => (List.nodup_append.mp hnodup).2.2 u hin u List.mem_cons_self rfl
    rw [List.foldl_cons, collect_eq (hne u List.mem_cons_self), if_neg hnew,
      ih (fun v hv => hne v (List.mem_cons_of_mem u hv)) (by simpa using hnodup), List.append_assoc]
    rfl

theorem parseMentions_joined (h : ∀ u ∈ us, Username u) (hnodup : us.Nodup) : parseMentions (joined us) = us := by
  have hgroups := groups_tokens (joined us).length false 0 (joined us) (Nat.le_refl _)
  rw [Bool.not_false, runsOf_joined h] at hgroups
  have hstripped : us.map stripped = us := by
    refine (List.map_congr_left fun u hu => ?_).trans (List.map_id us)
    rw [stripped_eq, (h u hu).rdropWhile]
    rfl
  have hmap : (matchAll everyUnit pattern (joined us)).map (fun w => stripped (group w)) =
      (groupsFrom false (joined us)).map stripped := (List.map_map ..).symm
  unfold parseMentions
  by_cases hempty : (joined us).length = 0
  · cases us with
    | nil => rfl
    | cons u us =>
      rw [joined_cons] at hempty
      cases hempty
  · rw [if_neg hempty, hmap, hgroups, hstripped]
    exact foldl_collect_nodup (fun u hu => (h u hu).nonempty) hnodup

end

/-- The parser reads its grammar, and reads the usernames that it returned again. -/
theorem mentions_parsed (content : Text) :
    Parses content (parseMentions content) ∧
    parseMentions (joined (parseMentions content)) = parseMentions content := by
  have hparses := parses content
  refine ⟨hparses, parseMentions_joined (fun u hu => ?_) hparses.nodup⟩
  obtain ⟨i, hi⟩ := (hparses.exact u).mp hu
  exact username_of_mention hi

end Mentions

end DocVault
