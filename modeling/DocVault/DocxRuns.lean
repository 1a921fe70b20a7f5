import DocVault.EntityRange
import DocVault.RegexScan

/-!
# The text of a document in runs

A paragraph of a Word document is cut into runs, each of which has its piece
of the text in an element `w:t`. The scanner takes the pieces out and puts
blanks between them.
-/

namespace DocVault

open Regex DlpScanner

abbrev LT : Nat := 60
abbrev GT : Nat := 62
abbrev BLANK : Nat := 32

/-! ## Documents -/

/-- What stands in a tag behind its name. -/
structure Attrs where
  text : Text
  noTag : LT ∉ text
  apart : ∀ u ∈ text.head?, isWord u = false

structure TextRun where
  attrs : Attrs
  textAttrs : Attrs
  piece : List Encoded
  escaped : ∀ e ∈ piece, e.form.isDecimal = false ∧ e.form.isHex = false

/-- The attributes up to a `>` in one of them, where the expressions see the end of the tag. -/
def openingOf : Text → Text
  | [] => []
  | u :: a => if u = GT then [] else u :: openingOf a

/-- What the tag has after that, which the expressions take for text. -/
def leftoverOf : Text → Text
  | [] => []
  | u :: a => if u = GT then a ++ [GT] else leftoverOf a

namespace TextRun

def units (r : TextRun) : Text := r.piece.flatMap Encoded.units

def body (r : TextRun) : Text := r.piece.flatMap Encoded.render

def element (r : TextRun) : Text := utf16 "<w:t" ++ (r.textAttrs.text ++ [GT]) ++ r.body ++ utf16 "</w:t>"

def opening (r : TextRun) : Text := openingOf r.textAttrs.text

def leftover (r : TextRun) : Text := leftoverOf r.textAttrs.text

def xml (r : TextRun) : Text := utf16 "<w:r" ++ (r.attrs.text ++ [GT]) ++ r.element ++ utf16 "</w:r>"

end TextRun

structure Paragraph where
  documentAttrs : Attrs
  attrs : Attrs
  runs : List TextRun

namespace Paragraph

/-- The text as a reader sees it. -/
def text (p : Paragraph) : Text := p.runs.flatMap TextRun.units

def head (p : Paragraph) : Text :=
  utf16 "<?xml version=\"1.0\" encoding=\"UTF-8\" standalone=\"yes\"?>" ++ (utf16 "<w:document" ++
    (p.documentAttrs.text ++ [GT]) ++ (utf16 "<w:body>" ++ (utf16 "<w:p" ++ (p.attrs.text ++ [GT]))))

def tail : Text := utf16 "</w:body>" ++ utf16 "</w:document>"

def documentXml (p : Paragraph) : Text := p.head ++ p.runs.flatMap TextRun.xml ++ (utf16 "</w:p>" ++ tail)

end Paragraph

/-! ## Tags -/

/-- The two differ where both have a unit. -/
def clash : Text → Text → Bool
  | a :: u, b :: v => a ≠ b || clash u v
  | _, _ => false

theorem clash_ne {w x : Text} (h : clash w x = true) (t rest : Text) : x ++ rest ≠ w ++ t := by
  induction w generalizing x with
  | nil => cases x <;> cases h
  | cons a w ih =>
    cases x with
    | nil => cases h
    | cons b x =>
      intro he
      obtain ⟨rfl, htail⟩ := List.cons.inj he
      rw [clash, Bool.or_eq_true] at h
      rcases h with h | h
      · simp at h
      · exact ih h htail

/-- The matches of an expression begin with one of the words, which begin tags. -/
structure OpensTags (r : Regex Nat) (ws : List Text) : Prop where
  opens : ∀ b t c, c ∈ r.run isWord (b, t) → ∃ w ∈ ws, ∃ t', t = w ++ t'
  tags : ∀ w ∈ ws, ∃ v, w = LT :: v

section
variable {r : Regex Nat} {ws : List Text}

theorem OpensTags.begins (ho : OpensTags r ws) : Begins isWord LT r := by
  intro b t c hc
  obtain ⟨w, hw, t', rfl⟩ := ho.opens b t c hc
  obtain ⟨v, rfl⟩ := ho.tags w hw
  exact ⟨v ++ t', rfl⟩

theorem OpensTags.run_eq_nil (ho : OpensTags r ws) {p : Text} (hp : ∀ w ∈ ws, clash w p = true)
    (rest : Text) (b : Bool) : r.run isWord (b, p ++ rest) = [] := by
  rw [List.eq_nil_iff_forall_not_mem]
  intro c hc
  obtain ⟨w, hw, t, ht⟩ := ho.opens b _ c hc
  exact clash_ne (hp w hw) t rest ht

/-- A tag that is none of the words, with what stands up to the next one. -/
theorem OpensTags.skips (ho : OpensTags r ws) {p v q : Text} (hv : p = LT :: v) (hno : LT ∉ v) (hq : LT ∉ q)
    (hp : ∀ w ∈ ws, clash w p = true) (rest : Text) : Skips isWord r (p ++ q) rest := by
  have hvq : LT ∉ v ++ q := by
    rw [List.mem_append, not_or]
    exact ⟨hno, hq⟩
  have hrun : ∀ b, r.run isWord (b, LT :: (v ++ q ++ rest)) = [] := by
    intro b
    have hnil := ho.run_eq_nil hp (q ++ rest) b
    rw [hv, List.cons_append, ← List.append_assoc] at hnil
    exact hnil
  rw [hv]
  exact ho.begins.skips_cons hvq hrun

theorem OpensTags.skips_tag (ho : OpensTags r ws) {p v : Text} (hv : p = LT :: v) (hno : LT ∉ v)
    (hp : ∀ w ∈ ws, clash w p = true) (rest : Text) : Skips isWord r p rest := by
  have h := ho.skips hv hno (q := []) (by simp) hp rest
  rw [List.append_nil] at h
  exact h

end

theorem opens_text {w v : Text} (hw : w = LT :: v) : OpensTags (lit w) [w] where
  opens := by
    intro b t c hc
    obtain ⟨u, rfl, rfl, -⟩ := (denotes_lit w b t c).mp hc
    exact ⟨u, List.mem_singleton.mpr rfl, c.2, rfl⟩
  tags := by
    intro u hu
    rw [List.mem_singleton.mp hu]
    exact ⟨v, hw⟩

theorem OpensTags.seq {r : Regex Nat} {ws : List Text} (ho : OpensTags r ws) (s : Regex Nat) :
    OpensTags (seq r s) ws where
  opens := by
    intro b t c hc
    obtain ⟨m, hm, -⟩ := mem_run_seq.mp hc
    exact ho.opens b t m hm
  tags := ho.tags

theorem opens_closeParagraph : OpensTags (text "</w:p>") [utf16 "</w:p>"] :=
  opens_text (w := utf16 "</w:p>") rfl

theorem opens_closeRun : OpensTags closeRun [utf16 "</w:t>"] := opens_text (w := utf16 "</w:t>") rfl

theorem opens_openRun : OpensTags openRun [utf16 "<w:t"] := (opens_text (w := utf16 "<w:t") rfl).seq _

theorem opens_runElement : OpensTags runElement [utf16 "<w:t"] := opens_openRun.seq _

theorem opens_breakTag : OpensTags breakTag [utf16 "<w:br", utf16 "<w:tab", utf16 "<w:cr"] where
  opens := by
    intro b t c hc
    obtain ⟨m, hm, hrest⟩ := mem_run_seq.mp hc
    obtain ⟨m', hm', -⟩ := mem_run_seq.mp hrest
    obtain ⟨u, rfl, ht, -⟩ := (denotes_lit (utf16 "<w:") b t m).mp hm
    have hname : ∃ n ∈ [utf16 "br", utf16 "tab", utf16 "cr"], m.2 = n ++ m'.2 := by
      rcases mem_run_alt.mp hm' with h | h
      · obtain ⟨n, rfl, he, -⟩ := (denotes_lit (utf16 "br") m.1 m.2 m').mp h
        exact ⟨_, by simp, he⟩
      · rcases mem_run_alt.mp h with h | h
        · obtain ⟨n, rfl, he, -⟩ := (denotes_lit (utf16 "tab") m.1 m.2 m').mp h
          exact ⟨_, by simp, he⟩
        · obtain ⟨n, rfl, he, -⟩ := (denotes_lit (utf16 "cr") m.1 m.2 m').mp h
          exact ⟨_, by simp, he⟩
    obtain ⟨n, hn, he⟩ := hname
    refine ⟨utf16 "<w:" ++ n, ?_, m'.2, by rw [ht, he, List.append_assoc]⟩
    simp only [List.mem_cons, List.not_mem_nil, or_false] at hn ⊢
    rcases hn with rfl | rfl | rfl
    · exact .inl rfl
    · exact .inr (.inl rfl)
    · exact .inr (.inr rfl)
  tags := by
    intro w hw
    simp only [List.mem_cons, List.not_mem_nil, or_false] at hw
    rcases hw with rfl | rfl | rfl
    all_goals exact ⟨_, rfl⟩

/-! ## Run elements -/

theorem opening_leftover (a : Text) : a ++ [GT] = openingOf a ++ GT :: leftoverOf a := by
  induction a with
  | nil => rfl
  | cons u a ih =>
    rw [openingOf, leftoverOf]
    by_cases hu : u = GT
    · rw [if_pos hu, if_pos hu, hu]
      rfl
    · rw [if_neg hu, if_neg hu, List.cons_append, ih]
      rfl

theorem gt_notMem_opening (a : Text) : GT ∉ openingOf a := by
  induction a with
  | nil => simp [openingOf]
  | cons u a ih =>
    rw [openingOf]
    by_cases hu : u = GT
    · rw [if_pos hu]
      exact List.not_mem_nil
    · rw [if_neg hu, List.mem_cons, not_or]
      exact ⟨fun h => hu h.symm, ih⟩

theorem leftover_end (a : Text) : leftoverOf a = [] ∨ ∃ x, leftoverOf a = x ++ [GT] := by
  induction a with
  | nil => exact .inl rfl
  | cons u a ih =>
    rw [leftoverOf]
    by_cases hu : u = GT
    · rw [if_pos hu]
      exact .inr ⟨a, rfl⟩
    · rw [if_neg hu]
      exact ih

theorem lt_notMem_leftover {a : Text} (ha : LT ∉ a) : LT ∉ leftoverOf a := by
  intro h
  have hmem : LT ∈ a ++ [GT] := by
    rw [opening_leftover, List.mem_append]
    exact .inr (List.mem_cons_of_mem GT h)
  rw [List.mem_append, List.mem_singleton] at hmem
  rcases hmem with hmem | hmem
  · exact ha hmem
  · exact absurd hmem (by decide)

theorem head?_append_gt (a rest : Text) : (a ++ GT :: rest).head? = (a ++ [GT]).head? := by
  cases a <;> rfl

theorem notMem_of_class {a : Text} (h : ∀ u ∈ a, (!isOneOf ">" u) = true) : GT ∉ a := by
  intro hmem
  exact absurd (h GT hmem) (by decide)

theorem class_of_notMem {a : Text} (h : GT ∉ a) : ∀ u ∈ a, (!isOneOf ">" u) = true := by
  intro u hu
  have hne : u ≠ GT := fun he => h (he ▸ hu)
  simp only [isOneOf, Bool.not_eq_true', decide_eq_false_iff_not]
  intro hmem
  exact hne (List.mem_singleton.mp hmem)

theorem mem_openRun {b : Bool} {t : Text} {c : Cursor Nat} : c ∈ openRun.run isWord (b, t) ↔
    ∃ a, GT ∉ a ∧ t = utf16 "<w:t" ++ (a ++ GT :: c.2) ∧ (∀ u ∈ (a ++ [GT]).head?, isWord u = false) ∧
      c.1 = false := by
  have hlit : Denotes isWord _ _ := denotes_lit (utf16 "<w:t")
  have hstar : Denotes isWord _ _ := denotes_star true (fun u => !isOneOf ">" u)
  have hend : Denotes isWord _ _ := denotes_seq (denotes_lit (utf16 ">")) denotes_empty
  apply Iff.intro
  · intro h
    obtain ⟨m₁, h₁, r₁⟩ := mem_run_seq.mp h
    obtain ⟨m₂, h₂, r₂⟩ := mem_run_seq.mp r₁
    obtain ⟨m₃, h₃, r₃⟩ := mem_run_seq.mp r₂
    obtain ⟨w, rfl, ht, hb₁⟩ := (hlit b t m₁).mp h₁
    obtain ⟨he₂, hbound⟩ := mem_run_boundary.mp h₂
    obtain ⟨a, ha, hm₁, -⟩ := (hstar m₂.1 m₂.2 m₃).mp h₃
    obtain ⟨w, ⟨_, _, rfl, rfl, rfl⟩, hm₃, hb⟩ := (hend m₃.1 m₃.2 c).mp r₃
    rw [he₂] at hm₁
    have hrest : m₁.2 = a ++ GT :: c.2 := by
      rw [hm₁, hm₃]
      rfl
    refine ⟨a, notMem_of_class ha, by rw [ht, hrest], ?_, hb⟩
    intro u hu
    have hword : m₁.1 = true := hb₁
    rw [hword, hrest, head?_append_gt, Option.mem_def.mp hu] at hbound
    simpa using hbound
  · intro h
    obtain ⟨a, ha, rfl, happ, hc⟩ := h
    refine mem_run_seq.mpr ⟨(true, a ++ GT :: c.2), (hlit _ _ _).mpr ⟨_, rfl, rfl, rfl⟩, ?_⟩
    refine mem_run_seq.mpr ⟨(true, a ++ GT :: c.2), mem_run_boundary.mpr ⟨rfl, ?_⟩, ?_⟩
    · rw [head?_append_gt]
      cases hh : (a ++ [GT]).head? with
      | none => simp
      | some u => simp [happ u hh]
    · have hmid := (hstar true (a ++ GT :: c.2) (after isWord true a, GT :: c.2)).mpr
        ⟨a, class_of_notMem ha, rfl, rfl⟩
      refine mem_run_seq.mpr ⟨_, hmid, ?_⟩
      exact (hend _ _ c).mpr ⟨[GT], ⟨[GT], [], rfl, rfl, rfl⟩, rfl, hc⟩

/-- The first `>` behind the name ends the tag. -/
theorem openRun_unique {b : Bool} {a rest : Text} (ha : GT ∉ a) {c : Cursor Nat}
    (h : c ∈ openRun.run isWord (b, utf16 "<w:t" ++ (a ++ GT :: rest))) : c = (false, rest) := by
  obtain ⟨a', ha', he, -, hc⟩ := mem_openRun.mp h
  have hne : ∀ x : Text, GT ∉ x → ∀ y, (x ++ GT :: y).takeWhile (fun u => u ≠ GT) = x := by
    intro x hx y
    have hpos : ∀ u ∈ x, decide (u ≠ GT) = true := by
      intro u hu
      exact decide_eq_true fun hgt => hx (hgt ▸ hu)
    rw [List.takeWhile_append_of_pos hpos, List.takeWhile_cons_of_neg (by simp), List.append_nil]
  have htail := List.append_cancel_left he
  have haa : a = a' := by rw [← hne a ha rest, htail, hne a' ha' c.2]
  subst haa
  exact Prod.ext hc (List.cons.inj (List.append_cancel_left htail)).2.symm

theorem lt_notMem_render (e : Encoded) (h : e.form.isDecimal = false ∧ e.form.isHex = false) : LT ∉ e.render := by
  have hw := e.writes
  cases hf : e.form with
  | raw =>
    rw [hf] at hw
    rw [Encoded.render, hf]
    exact fun hmem => hw.1 (of_mem_units (d := '<') (by decide) hmem)
  | named =>
    have hent := e.render_of_named hf
    rcases Encoded.entity_cases hent with ⟨-, hr⟩ | ⟨-, hr⟩ | ⟨-, hr⟩ | ⟨-, hr⟩ | ⟨-, hr⟩
    all_goals
      rw [hr]
      decide
  | decimal ds =>
    rw [hf] at h
    cases h.1
  | hex ds =>
    rw [hf] at h
    cases h.2

namespace TextRun

variable (r : TextRun)

/-- What the scanner takes out of the element. -/
def inner : Text := r.leftover ++ r.body

theorem lt_notMem_body : LT ∉ r.body := by
  intro h
  obtain ⟨e, he, hmem⟩ := List.mem_flatMap.mp h
  exact lt_notMem_render e (r.escaped e he) hmem

theorem lt_notMem_inner : LT ∉ r.inner := by
  rw [inner, List.mem_append, not_or]
  exact ⟨lt_notMem_leftover r.textAttrs.noTag, r.lt_notMem_body⟩

/-- The element as the expressions see it. -/
theorem element_eq : r.element = utf16 "<w:t" ++ (r.opening ++ GT :: (r.inner ++ utf16 "</w:t>")) := by
  rw [element, opening_leftover, inner, opening, leftover]
  simp only [List.append_assoc, List.cons_append]

theorem apart_opening : ∀ u ∈ (r.opening ++ [GT]).head?, isWord u = false := by
  intro u hu
  have hhead : (r.textAttrs.text ++ [GT]).head? = (r.opening ++ [GT]).head? := by
    rw [opening_leftover, head?_append_gt]
    rfl
  rw [← hhead] at hu
  cases ht : r.textAttrs.text with
  | nil =>
    rw [ht] at hu
    have hgt : u = GT := (Option.some.inj (Option.mem_def.mp hu)).symm
    rw [hgt]
    rfl
  | cons v a =>
    have hv := r.textAttrs.apart u
    rw [ht] at hu hv
    exact hv hu

theorem openRun_mem (b : Bool) (rest : Text) :
    (false, rest) ∈ openRun.run isWord (b, utf16 "<w:t" ++ (r.opening ++ GT :: rest)) :=
  mem_openRun.mpr ⟨r.opening, gt_notMem_opening _, rfl, r.apart_opening, rfl⟩

theorem head?_openRun (b : Bool) (rest : Text) :
    (openRun.run isWord (b, utf16 "<w:t" ++ (r.opening ++ GT :: rest))).head? = some (false, rest) := by
  have h := head?_flatMap_unique (r.openRun_mem b rest)
    (fun c hc => openRun_unique (gt_notMem_opening _) hc) (fun c => [c])
  rw [List.flatMap_singleton'] at h
  exact h

theorem head?_closeRun (b : Bool) (rest : Text) :
    (closeRun.run isWord (b, utf16 "</w:t>" ++ rest)).head? = some (after isWord b (utf16 "</w:t>"), rest) := by
  apply head?_of_denotes (denotes_lit (utf16 "</w:t>")) _ rfl
  intro w v rest left hw hv _
  rw [hw, hv]

theorem head?_runElement (b : Bool) (rest : Text) :
    (runElement.run isWord (b, r.element ++ rest)).head? =
      some (after isWord (after isWord false r.inner) (utf16 "</w:t>"), rest) := by
  have he : r.element ++ rest = utf16 "<w:t" ++ (r.opening ++ GT :: (r.inner ++ (utf16 "</w:t>" ++ rest))) := by
    rw [element_eq]
    simp only [List.append_assoc, List.cons_append]
  rw [he]
  have hopen := head?_flatMap_unique (r.openRun_mem b (r.inner ++ (utf16 "</w:t>" ++ rest)))
    (fun c hc => openRun_unique (gt_notMem_opening _) hc)
    (Regex.run isWord (.seq (.rep false none (.one fun _ => true)) (.seq closeRun .empty)))
  refine hopen.trans ?_
  have hclose : ∀ b t, (Regex.run isWord (.seq closeRun .empty) (b, t)) = closeRun.run isWord (b, t) := by
    intro b t
    exact List.flatMap_singleton' _
  apply head?_lazy
  · rw [Option.getD_none, List.length_append]
    exact Nat.le_add_right _ _
  · intro b u₁ u₂ hu hne
    rw [hclose]
    apply opens_closeRun.begins.run_eq_nil
    intro t ht
    obtain ⟨x, u₂, rfl⟩ := List.exists_cons_of_ne_nil hne
    apply r.lt_notMem_inner
    rw [hu, (List.cons.inj ht).1]
    simp
  · rw [hclose]
    exact head?_closeRun _ rest

theorem replace_openRun : replace isWord openRun (fun _ => []) r.element = r.inner ++ utf16 "</w:t>" := by
  have he : r.element = (utf16 "<w:t" ++ (r.opening ++ [GT])) ++ (r.inner ++ utf16 "</w:t>") := by
    rw [element_eq]
    simp only [List.append_assoc, List.cons_append, List.nil_append]
  have hhead := r.head?_openRun false (r.inner ++ utf16 "</w:t>")
  have hsplit : utf16 "<w:t" ++ (r.opening ++ GT :: (r.inner ++ utf16 "</w:t>")) =
      (utf16 "<w:t" ++ (r.opening ++ [GT])) ++ (r.inner ++ utf16 "</w:t>") := by
    simp only [List.append_assoc, List.cons_append, List.nil_append]
  rw [hsplit] at hhead
  have h := replace_first (f := fun _ => []) (skips_nil _) (by simp) hhead
  rw [List.nil_append, List.nil_append, List.nil_append] at h
  rw [he, h]

theorem replace_closeRun : replace isWord closeRun (fun _ => []) (r.inner ++ utf16 "</w:t>") = r.inner := by
  have hskips : Skips isWord closeRun r.inner (utf16 "</w:t>" ++ []) :=
    opens_closeRun.begins.skips r.lt_notMem_inner _
  have h := replace_first (f := fun _ => []) hskips (by decide) (head?_closeRun _ [])
  rw [List.append_nil, List.append_nil, List.append_nil] at h
  exact h

end TextRun

/-! ## The whole document -/

def declaration : Text := utf16 "<?xml version=\"1.0\" encoding=\"UTF-8\" standalone=\"yes\"?>"

theorem Attrs.lt_notMem (a : Attrs) : LT ∉ a.text ++ [GT] := by
  rw [List.mem_append, not_or]
  exact ⟨a.noTag, by decide⟩

/-- The expression finds nothing in the tags around the runs. -/
structure Around (r : Regex Nat) (ws : List Text) : Prop extends OpensTags r ws where
  around : ∀ p ∈ [declaration, utf16 "<w:document", utf16 "<w:body>", utf16 "<w:p", utf16 "<w:r", utf16 "</w:r>",
    utf16 "</w:body>", utf16 "</w:document>"], ∀ w ∈ ws, clash w p = true

/-- Nor in those of the texts. -/
structure Apart (r : Regex Nat) (ws : List Text) : Prop extends Around r ws where
  start : ∀ x, isWord x = false → ∀ w ∈ ws, clash w (utf16 "<w:t" ++ [x]) = true
  close : ∀ w ∈ ws, clash w (utf16 "</w:t>") = true

section
variable {r : Regex Nat} {ws : List Text}

theorem declaration_eq : declaration = LT :: declaration.tail := by rfl

theorem declaration_lt : LT ∉ declaration.tail := by decide

theorem Around.head_skips (ha : Around r ws) (p : Paragraph) (rest : Text) : Skips isWord r p.head rest := by
  have hdeclaration : ∀ rest, Skips isWord r declaration rest :=
    ha.skips_tag declaration_eq declaration_lt (ha.around _ (by simp))
  have hdocument := fun rest => ha.skips (p := utf16 "<w:document") rfl (by decide) p.documentAttrs.lt_notMem
    (ha.around _ (by simp)) rest
  have hbody := ha.skips_tag (p := utf16 "<w:body>") rfl (by decide) (ha.around _ (by simp))
  have hparagraph := ha.skips (p := utf16 "<w:p") rfl (by decide) p.attrs.lt_notMem (ha.around _ (by simp)) rest
  simp only [declaration] at hdeclaration
  rw [Paragraph.head]
  exact (hdeclaration _).append ((hdocument _).append ((hbody _).append hparagraph))

theorem Around.tail_skips (ha : Around r ws) : Skips isWord r Paragraph.tail [] := by
  have hbody := ha.skips_tag (p := utf16 "</w:body>") rfl (by decide) (ha.around _ (by simp))
  have hdocument := ha.skips_tag (p := utf16 "</w:document>") rfl (by decide) (ha.around _ (by simp))
  exact (hbody _).append (hdocument _)

theorem Around.open_skips (ha : Around r ws) (run : TextRun) (rest : Text) :
    Skips isWord r (utf16 "<w:r" ++ (run.attrs.text ++ [GT])) rest :=
  ha.skips (p := utf16 "<w:r") rfl (by decide) run.attrs.lt_notMem (ha.around _ (by simp)) rest

theorem Around.close_skips (ha : Around r ws) (rest : Text) : Skips isWord r (utf16 "</w:r>") rest :=
  ha.skips_tag (p := utf16 "</w:r>") rfl (by decide) (ha.around _ (by simp)) rest

theorem Apart.element_skips (ha : Apart r ws) (run : TextRun) (rest : Text) : Skips isWord r run.element rest := by
  obtain ⟨x, q, hq⟩ : ∃ x q, run.textAttrs.text ++ [GT] = x :: q := List.exists_cons_of_ne_nil (by simp)
  have hx : isWord x = false := by
    cases ht : run.textAttrs.text with
    | nil =>
      rw [ht] at hq
      rw [← (List.cons.inj hq).1]
      rfl
    | cons v a =>
      apply run.textAttrs.apart
      rw [ht] at hq ⊢
      exact congrArg some (List.cons.inj hq).1
  have hltx : LT ∉ x :: q := by
    rw [← hq]
    exact run.textAttrs.lt_notMem
  simp only [List.mem_cons, not_or] at hltx
  have hrest : LT ∉ q ++ run.body := by
    rw [List.mem_append, not_or]
    exact ⟨hltx.2, run.lt_notMem_body⟩
  have hname : LT ∉ [119, 58, 116, x] := by
    simp only [List.mem_cons, List.not_mem_nil, or_false, not_or]
    exact ⟨by decide, by decide, by decide, hltx.1⟩
  have hopen := fun rest => ha.skips (p := utf16 "<w:t" ++ [x]) (v := [119, 58, 116, x]) rfl hname hrest
    (ha.start x hx) rest
  have hclose := ha.skips_tag (p := utf16 "</w:t>") rfl (by decide) ha.close
  have he : run.element = (utf16 "<w:t" ++ [x] ++ (q ++ run.body)) ++ utf16 "</w:t>" := by
    rw [TextRun.element, hq]
    simp only [List.append_assoc, List.cons_append, List.nil_append]
  rw [he]
  exact (hopen _).append (hclose rest)

theorem Apart.runs_skips (ha : Apart r ws) (runs : List TextRun) (rest : Text) :
    Skips isWord r (runs.flatMap TextRun.xml) rest := by
  induction runs with
  | nil => exact skips_nil rest
  | cons run runs ih =>
    rw [List.flatMap_cons]
    exact (((ha.open_skips run _).append (ha.element_skips run _)).append (ha.close_skips _)).append ih

end

theorem apart_closeParagraph : Apart (text "</w:p>") [utf16 "</w:p>"] where
  toOpensTags := opens_closeParagraph
  around := by decide
  start := by
    intro x _ w hw
    rw [List.mem_singleton.mp hw]
    rfl
  close := by decide

theorem apart_breakTag : Apart breakTag [utf16 "<w:br", utf16 "<w:tab", utf16 "<w:cr"] where
  toOpensTags := opens_breakTag
  around := by decide
  start := by
    intro x hx w hw
    have hne : x ≠ 97 := by
      intro h
      rw [h] at hx
      cases hx
    simp only [List.mem_cons, List.not_mem_nil, or_false] at hw
    rcases hw with rfl | rfl | rfl
    · rfl
    · simp [clash, utf16, utf16Units, hne.symm]
    · rfl
  close := by decide

theorem around_runElement : Around runElement [utf16 "<w:t"] where
  toOpensTags := opens_runElement
  around := by decide

namespace Paragraph

variable (p : Paragraph)

/-- The document with a line break for the end of its paragraph. -/
def withBreaks : Text := p.head ++ p.runs.flatMap TextRun.xml ++ (utf16 "\n" ++ tail)

theorem replaceAll_closeParagraph :
    replaceAll isWord (DocVault.text "</w:p>") (fun _ => utf16 "\n") p.documentXml = p.withBreaks := by
  have ha := apart_closeParagraph
  have hbefore : Skips isWord (DocVault.text "</w:p>") (p.head ++ p.runs.flatMap TextRun.xml)
    (utf16 "</w:p>" ++ tail) :=
    (ha.head_skips p _).append (ha.runs_skips p.runs _)
  have hmatch : ((DocVault.text "</w:p>").run isWord
      (after isWord false (p.head ++ p.runs.flatMap TextRun.xml), utf16 "</w:p>" ++ tail)).head? =
        some (after isWord (after isWord false (p.head ++ p.runs.flatMap TextRun.xml)) (utf16 "</w:p>"), tail) := by
    apply head?_of_denotes (denotes_lit (utf16 "</w:p>")) _ rfl
    intro w v rest left hw hv _
    rw [hw, hv]
  rw [documentXml, replaceAll_once ha.begins hbefore (by decide) hmatch ha.tail_skips,
    withBreaks, List.append_assoc]

theorem withBreaks_skips {r : Regex Nat} {ws : List Text} (ha : Around r ws) :
    Skips isWord r (utf16 "\n" ++ tail) [] :=
  (ha.begins.skips (by decide) _).append ha.tail_skips

theorem replaceAll_breakTag : replaceAll isWord breakTag (fun _ => utf16 " ") p.withBreaks = p.withBreaks := by
  have ha := apart_breakTag
  apply replaceAll_skips ha.begins
  exact ((ha.head_skips p _).append (ha.runs_skips p.runs _)).append (withBreaks_skips ha.toAround)

theorem runs_matches (runs : List TextRun) (rest : Text) (hrest : Skips isWord runElement rest []) (b : Bool) :
    (scan isWord runElement 0 b (runs.flatMap TextRun.xml ++ rest)).filterMap Sum.getRight? =
    runs.map TextRun.element := by
  induction runs generalizing b with
  | nil =>
    have h := hrest.matches b
    rw [List.append_nil, around_runElement.begins.scan_nil] at h
    exact h
  | cons run runs ih =>
    have hopen := around_runElement.open_skips run
      (run.element ++ (utf16 "</w:r>" ++ (runs.flatMap TextRun.xml ++ rest)))
    have hclose := around_runElement.close_skips (runs.flatMap TextRun.xml ++ rest)
    have hne : run.element ≠ [] := by
      rw [run.element_eq]
      exact List.cons_ne_nil _ _
    have hsplit : (run :: runs).flatMap TextRun.xml ++ rest = utf16 "<w:r" ++ (run.attrs.text ++ [GT]) ++
        (run.element ++ (utf16 "</w:r>" ++ (runs.flatMap TextRun.xml ++ rest))) := by
      simp only [List.flatMap_cons, TextRun.xml, List.append_assoc]
    rw [hsplit, hopen.matches, scan_of_head hne (run.head?_runElement _ _),
      List.filterMap_cons_some (show Sum.getRight? (Sum.inr run.element) = some run.element from rfl),
        hclose.matches, ih,
      List.map_cons]

theorem matchAll_runElement : matchAll isWord runElement p.withBreaks = p.runs.map TextRun.element := by
  have ha := around_runElement
  rw [matchAll, withBreaks, List.append_assoc, (ha.head_skips p _).matches]
  exact runs_matches p.runs _ (withBreaks_skips ha) _

theorem extractDocxXmlText_documentXml :
    extractDocxXmlText p.documentXml = decodeXmlEntities ((utf16 " ").intercalate (p.runs.map TextRun.inner)) := by
  rw [extractDocxXmlText]
  simp only [p.replaceAll_closeParagraph, p.replaceAll_breakTag, p.matchAll_runElement, List.map_map]
  have hinner : (fun run => replace isWord closeRun (fun _ => []) (replace isWord openRun (fun _ => []) run)) ∘
      TextRun.element = TextRun.inner := by
    funext run
    rw [Function.comp_apply, run.replace_openRun, run.replace_closeRun]
  rw [hinner]

end Paragraph

end DocVault
