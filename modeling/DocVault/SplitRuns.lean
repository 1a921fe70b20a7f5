import DocVault.DocxRuns

/-!
# Rules and cut texts

Between the pieces of a paragraph the scanner reads a blank. What a rule
matches in a paragraph it still matches in the pieces if one of them has a
match to itself, or if its expression takes the blanks.
-/

namespace DocVault

open Regex DlpScanner

/-! ## Decoding piece by piece -/

section
variable {r : Regex Nat} {L : Text → Prop} {f : Text → Option Text} {u : Nat}

/-- A unit of no entity is where a text can be cut. -/
theorem Pass.separate (hp : Pass r L) (hu : ∀ w, L w → u ∉ w) (x y : Text) : replaceAllM isWord r f (x ++ u :: y) =
    (replaceAllM isWord r f x).bind fun a => (replaceAllM isWord r f y).map (a ++ u :: ·) := by
  have hcut : ∀ p q, L (p ++ q) → q <+: u :: y → p = [] ∨ q = [] := by
    intro p q hw hq
    cases q with
    | nil => exact .inr rfl
    | cons c q =>
      obtain ⟨rfl, -⟩ := List.cons_prefix_cons.mp hq
      exact absurd (by simp) (hu _ hw)
  have hno : ∀ w left, u :: y = w ++ left → ¬ L w := by
    intro w left he hw
    obtain ⟨v, rfl, -⟩ := hp.led w hw
    apply hu _ hw
    rw [(List.cons.inj he).1]
    exact List.mem_cons_self
  rw [hp.append hcut, hp.miss hno]
  cases replaceAllM isWord r f y <;> simp

theorem replaceAll_separate {w out : Text} (hp : Pass (lit w) (· = w)) (hu : u ∉ w) (x y : Text) :
    replaceAll isWord (lit w) (fun _ => out) (x ++ u :: y) =
      replaceAll isWord (lit w) (fun _ => out) x ++ u :: replaceAll isWord (lit w) (fun _ => out) y := by
  have h := hp.separate (f := fun _ => some out) (u := u) (fun w' hw' => by rw [hw']; exact hu) x y
  rw [replaceAllM_some, replaceAllM_some, replaceAllM_some] at h
  exact Option.some.inj h

end

/-- The blank and the end of a tag, which no entity has. -/
def Separator (u : Nat) : Prop := u = BLANK ∨ u = GT

theorem Separator.notMem {u : Nat} (hu : Separator u) {w : Text} (hb : BLANK ∉ w) (hg : GT ∉ w) : u ∉ w := by
  rcases hu with rfl | rfl
  · exact hb
  · exact hg

theorem Separator.notMem_reference {u : Nat} (hu : Separator u) {opening : Text} {p : Nat → Bool}
    (hb : BLANK ∉ opening) (hg : GT ∉ opening) (hpb : p BLANK = false) (hpg : p GT = false) {w : Text}
    (hw : Reference opening p w) : u ∉ w := by
  obtain ⟨ds, -, hds, rfl⟩ := hw
  have hclass : u ∉ ds := by
    intro h
    have hd := hds u h
    rcases hu with rfl | rfl
    · rw [hpb] at hd
      cases hd
    · rw [hpg] at hd
      cases hd
  simp only [List.mem_append, List.mem_singleton, not_or]
  refine ⟨⟨hu.notMem hb hg, hclass⟩, ?_⟩
  rcases hu with rfl | rfl
  · decide
  · decide

theorem decode_separate {u : Nat} (hu : Separator u) (x y : Text) : decodeXmlEntities (x ++ u :: y) =
    (decodeXmlEntities x).bind fun a => (decodeXmlEntities y).map (a ++ u :: ·) := by
  have hnamed : namedPasses (x ++ u :: y) = namedPasses x ++ u :: namedPasses y := by
    rw [namedPasses, DocVault.text, DocVault.text, DocVault.text, DocVault.text,
      replaceAll_separate decodes_lt.toPass (hu.notMem (by decide) (by decide)),
      replaceAll_separate decodes_gt.toPass (hu.notMem (by decide) (by decide)),
      replaceAll_separate decodes_quot.toPass (hu.notMem (by decide) (by decide)),
      replaceAll_separate decodes_apos.toPass (hu.notMem (by decide) (by decide))]
    rfl
  have hdecimal := pass_decimal.separate (f := decimalCodePoint) (u := u)
    (fun w hw => hu.notMem_reference (by decide) (by decide) (by decide) (by decide) hw)
  have hhex := pass_hex.separate (f := hexCodePoint) (u := u)
    (fun w hw => hu.notMem_reference (by decide) (by decide) (by decide) (by decide) hw)
  have hamp : ∀ a b, ampPass (a ++ u :: b) = ampPass a ++ u :: ampPass b := fun a b =>
    replaceAll_separate decodes_amp.toPass (hu.notMem (by decide) (by decide)) a b
  simp only [decodeXmlEntities_eq, hnamed, decimalPass, hexPass, hdecimal]
  cases replaceAllM isWord decimalReference decimalCodePoint (namedPasses x) with
  | none => simp only [Option.bind_none]
  | some a =>
    cases replaceAllM isWord decimalReference decimalCodePoint (namedPasses y) with
    | none =>
      simp only [Option.map_none, Option.bind_some, Option.bind_none]
      cases replaceAllM isWord hexReference hexCodePoint a <;> rfl
    | some b =>
      simp only [Option.map_some, Option.bind_some, hhex]
      cases replaceAllM isWord hexReference hexCodePoint a with
      | none => rfl
      | some a' =>
        cases replaceAllM isWord hexReference hexCodePoint b with
        | none => rfl
        | some b' => simp [hamp]

theorem decode_nil : decodeXmlEntities [] = some [] := decode_of_not_misread [] not_misread_nil

namespace TextRun

variable (r : TextRun)

theorem decode_body : decodeXmlEntities r.body = some r.units := by
  apply decode_of_not_misread
  intro h
  obtain ⟨pre, e, suf, he, -, ho⟩ := h
  obtain ⟨hdec, hhex⟩ := r.escaped e (by rw [he]; simp)
  rcases ho with ⟨h, -⟩ | ⟨h, -⟩
  · rw [hdec] at h
    cases h
  · rw [hdec, hhex] at h
    cases h

/-- What the scanner reads of the run. -/
def shown : Text := (decodeXmlEntities r.leftover).getD [] ++ r.units

theorem decode_inner : decodeXmlEntities r.inner = (decodeXmlEntities r.leftover).map (· ++ r.units) := by
  rw [inner]
  rcases leftover_end r.textAttrs.text with h | ⟨x, h⟩
  · rw [leftover, h, List.nil_append, decode_body, decode_nil]
    rfl
  · have hend := decode_separate (.inr rfl : Separator GT) x []
    rw [leftover, h, List.append_assoc, List.singleton_append, decode_separate (.inr rfl),
      decode_body, hend, decode_nil]
    cases decodeXmlEntities x <;> simp

end TextRun

theorem decode_join (runs : List TextRun) (h : ∀ r ∈ runs, ¬ Oversized r.leftover) :
    decodeXmlEntities ((utf16 " ").intercalate (runs.map TextRun.inner)) =
      some ((utf16 " ").intercalate (runs.map TextRun.shown)) := by
  have hinner : ∀ r ∈ runs, decodeXmlEntities r.inner = some r.shown := by
    intro r hr
    have hsome := h r hr
    rw [← decodeXmlEntities_eq_none_iff] at hsome
    obtain ⟨out, hout⟩ := Option.ne_none_iff_exists'.mp hsome
    rw [r.decode_inner, TextRun.shown, hout]
    rfl
  induction runs with
  | nil => exact decode_nil
  | cons r runs ih =>
    have hr := hinner r List.mem_cons_self
    have hrest := ih (fun r' hr' => h r' (List.mem_cons_of_mem r hr'))
      (fun r' hr' => hinner r' (List.mem_cons_of_mem r hr'))
    cases runs with
    | nil => simpa using hr
    | cons r' runs =>
      have hblank : utf16 " " = [BLANK] := rfl
      rw [List.map_cons, List.map_cons, List.intercalate_cons_cons, List.map_cons, List.map_cons,
        List.intercalate_cons_cons, List.append_assoc, List.append_assoc]
      rw [List.map_cons, List.map_cons] at hrest
      rw [hblank] at hrest ⊢
      rw [List.singleton_append, List.singleton_append, decode_separate (.inl rfl), hr, hrest]
      rfl

theorem decode_join_none (runs : List TextRun) (h : ∃ r ∈ runs, Oversized r.leftover) :
    decodeXmlEntities ((utf16 " ").intercalate (runs.map TextRun.inner)) = none := by
  induction runs with
  | nil => simp at h
  | cons r runs ih =>
    have hblank : utf16 " " = [BLANK] := rfl
    have hnone : ∀ r : TextRun, Oversized r.leftover → decodeXmlEntities r.inner = none := by
      intro r hr
      rw [r.decode_inner, (decodeXmlEntities_eq_none_iff _).mpr hr]
      rfl
    cases runs with
    | nil =>
      obtain ⟨r', hr', ho⟩ := h
      rw [List.mem_singleton.mp hr'] at ho
      simpa using hnone r ho
    | cons r' runs =>
      rw [List.map_cons, List.map_cons, List.intercalate_cons_cons, List.append_assoc,
        hblank, List.singleton_append, decode_separate (.inl rfl)]
      by_cases hr : Oversized r.leftover
      · rw [hnone r hr]
        rfl
      · have hlater : ∃ r'' ∈ r' :: runs, Oversized r''.leftover := by
          obtain ⟨r'', hmem, ho⟩ := h
          rcases List.mem_cons.mp hmem with rfl | hmem
          · exact absurd ho hr
          · exact ⟨r'', hmem, ho⟩
        have hrest := ih hlater
        rw [List.map_cons, hblank] at hrest
        rw [hrest]
        cases decodeXmlEntities r.inner <;> rfl

/-! ## Rules -/

/-- The pieces of the text with a blank at every cut. -/
def Paragraph.joined (p : Paragraph) : Text := (utf16 " ").intercalate (p.runs.map TextRun.shown)

/-- The rules whose expression takes a blank. -/
def admitsBlank (rule : Rule) : Bool := !decide (rule.regex.Avoids BLANK)

example : (RULES.filter admitsBlank).map (·.pattern) = ["phone number", "internal only"] := by decide

def Matched (rule : Rule) (content : Text) : Prop := Rule.matches rule content ≠ []

/-- The text that the scanner takes from the document is matched by the rule. -/
def StillMatched (rule : Rule) (p : Paragraph) : Prop :=
  ∃ content, extractDocxXmlText p.documentXml = some content ∧ Matched rule content

/-- One run has a match to itself or the rule takes the blanks at the cuts, and
no attribute hides a reference that makes the decoding throw. -/
def Kept (rule : Rule) (p : Paragraph) : Prop :=
  (∀ r ∈ p.runs, ¬ Oversized r.leftover) ∧
    ((∃ r ∈ p.runs, Matched rule r.shown) ∨ (admitsBlank rule = true ∧ Matched rule p.joined))

instance (rule : Rule) (content : Text) : Decidable (Matched rule content) :=
  inferInstanceAs (Decidable (Rule.matches rule content ≠ []))

theorem matched_iff (rule : Rule) (content : Text) : Matched rule content ↔ Found isWord rule.regex false content :=
  matchAll_ne_nil content

theorem not_matched_nil {rule : Rule} (h : rule ∈ RULES) : ¬ Matched rule [] := by
  have hall : ∀ rule ∈ RULES, Rule.matches rule [] = [] := by decide
  exact fun hm => hm (hall rule h)

theorem matched_join {rule : Rule} {parts : List Text} {part : Text} (hmem : part ∈ parts) (h : Matched rule part) :
    Matched rule ((utf16 " ").intercalate parts) := by
  rw [matched_iff] at h ⊢
  have hblank : utf16 " " = [BLANK] := rfl
  have hword : isWord BLANK = false := rfl
  induction parts with
  | nil => cases hmem
  | cons x parts ih =>
    cases parts with
    | nil =>
      rw [List.mem_singleton] at hmem
      rw [List.intercalate_singleton, ← hmem]
      exact h
    | cons y parts =>
      rw [List.intercalate_cons_cons, List.append_assoc, hblank, List.singleton_append]
      rcases List.mem_cons.mp hmem with rfl | hmem
      · exact h.before hword _
      · exact (ih hmem).behind hword x

theorem matched_joined_iff {rule : Rule} (h : rule ∈ RULES) (p : Paragraph) : Matched rule p.joined ↔
    (∃ r ∈ p.runs, Matched rule r.shown) ∨ (admitsBlank rule = true ∧ Matched rule p.joined) := by
  apply Iff.intro
  · intro hm
    by_cases hb : admitsBlank rule = true
    · exact .inr ⟨hb, hm⟩
    · simp only [admitsBlank, Bool.not_eq_true', decide_eq_false_iff_not, not_not] at hb
      have hne : p.runs.map TextRun.shown ≠ [] := by
        intro hnil
        rw [Paragraph.joined, hnil] at hm
        exact not_matched_nil h hm
      rw [matched_iff, Paragraph.joined] at hm
      obtain ⟨w, hw, hfound⟩ := (found_intercalate_iff (rfl : isWord _ = false) hb _ hne).mp hm
      obtain ⟨r, hr, rfl⟩ := List.mem_map.mp hw
      exact .inl ⟨r, hr, (matched_iff rule _).mpr hfound⟩
  · intro hk
    rcases hk with ⟨r, hr, hm⟩ | ⟨-, hm⟩
    · exact matched_join (List.mem_map_of_mem hr) hm
    · exact hm

/-! ## The scan -/

theorem findingsOf_ne_nil {rule : Rule} (h : rule ∈ RULES) {content : Text} (hm : Matched rule content) :
    (findingsOf content).length ≠ 0 := by
  have hmem : ⟨rule.type, rule.pattern, rule.severity,
    (Rule.matches rule content).length⟩ ∈ findingsOf content := by
    refine List.mem_flatMap.mpr ⟨rule, h, ?_⟩
    have hlen : (Rule.matches rule content).length ≠ 0 := fun hz => hm (List.length_eq_zero_iff.mp hz)
    simp [hlen]
  intro hz
  rw [List.length_eq_zero_iff.mp hz] at hmem
  cases hmem

variable (packages : Packages) (buffer : Bytes)

theorem not_isPdf (hzip : startsWithMagic buffer ZIP_MAGIC = true) : isPdf buffer (some DOCX_MIME) = false := by
  have hmime : (some DOCX_MIME = some "application/pdf") = False := by simp [DOCX_MIME]
  have hmagic : startsWithMagic buffer PDF_MAGIC = false := by
    simp only [startsWithMagic, decide_eq_true_eq, decide_eq_false_iff_not] at hzip ⊢
    intro hpdf
    cases buffer with
    | nil => cases hzip
    | cons b buffer =>
      have hp : b.toNat = 80 := (List.cons.inj hzip).1
      have hpercent : b.toNat = 37 := (List.cons.inj hpdf).1
      omega
  rw [isPdf, hmagic]
  simp [hmime]

theorem scan_docx (hzip : startsWithMagic buffer ZIP_MAGIC = true) {xml content : Text}
    (hentry : packages.documentEntry buffer = some (some xml)) (hcontent : extractDocxXmlText xml = some content)
    (hlen : content.length ≤ MAX_SCAN_CHARS) :
    DlpScanner.scan packages buffer (some DOCX_MIME) =
      if (findingsOf content).length = 0 then .CLEAR else .DETECTED (findingsOf content) "CONFIDENTIAL" := by
  have htext : extractDocxText packages buffer = content := by
    simp [extractDocxText, hzip, hentry, hcontent, List.take_of_length_le hlen]
  have hextract : extractText packages buffer (some DOCX_MIME) = some content := by
    rw [extractText, not_isPdf buffer hzip, htext]
    simp [isDocx]
  rw [DlpScanner.scan, hextract]
  simp only [List.take_of_length_le hlen]

theorem scan_detects (hzip : startsWithMagic buffer ZIP_MAGIC = true) {xml content : Text} {rule : Rule}
    (h : rule ∈ RULES) (hentry : packages.documentEntry buffer = some (some xml))
    (hcontent : extractDocxXmlText xml = some content) (hm : Matched rule content)
    (hlen : content.length ≤ MAX_SCAN_CHARS) :
    (DlpScanner.scan packages buffer (some DOCX_MIME)).detected = true := by
  rw [scan_docx packages buffer hzip hentry hcontent hlen, if_neg (findingsOf_ne_nil h hm)]
  rfl

theorem extract_documentXml {p : Paragraph} (h : ∀ r ∈ p.runs, ¬ Oversized r.leftover) :
    extractDocxXmlText p.documentXml = some p.joined := by
  rw [p.extractDocxXmlText_documentXml, decode_join p.runs h]
  rfl

theorem stillMatched_iff {rule : Rule} (h : rule ∈ RULES) (p : Paragraph) : StillMatched rule p ↔ Kept rule p := by
  rw [StillMatched, Kept, ← matched_joined_iff h]
  by_cases hall : ∀ r ∈ p.runs, ¬ Oversized r.leftover
  · rw [extract_documentXml hall]
    simp only [Option.some.injEq, exists_eq_left']
    exact (and_iff_right hall).symm
  · simp only [not_forall, not_not] at hall
    obtain ⟨r, hr, ho⟩ := hall
    rw [p.extractDocxXmlText_documentXml, decode_join_none p.runs ⟨r, hr, ho⟩]
    simp only [reduceCtorEq, false_and, exists_false, false_iff, not_and]
    exact fun hno => absurd ho (hno r hr)

/-- The scanner still matches a paragraph in runs exactly when its pieces keep
a match, and then it detects the document below the limit. -/
theorem split_runs_iff {rule : Rule} (h : rule ∈ RULES) (p : Paragraph) :
    (StillMatched rule p ↔ Kept rule p) ∧
      ((Kept rule p ∧ startsWithMagic buffer ZIP_MAGIC = true ∧
        packages.documentEntry buffer = some (some p.documentXml) ∧ p.joined.length ≤ MAX_SCAN_CHARS) →
          (DlpScanner.scan packages buffer (some DOCX_MIME)).detected = true) := by
  refine ⟨stillMatched_iff h p, fun hk => ?_⟩
  obtain ⟨hkept, hzip, hentry, hlen⟩ := hk
  exact scan_detects packages buffer hzip h hentry (extract_documentXml hkept.1)
    ((matched_joined_iff h p).mpr hkept.2) hlen

/-! ## A paragraph in two runs -/

theorem apart_nil : ∀ u ∈ ([] : Text).head?, isWord u = false := by simp

def Attrs.none : Attrs := ⟨[], List.not_mem_nil, apart_nil⟩

theorem writes_named {c : Char} (h : c = '<' ∨ c = '&') : Form.named.Writes c := by
  rcases h with rfl | rfl
  · rfl
  · rfl

/-- A character as XML writers put it. -/
def escapeXml (c : Char) : Encoded :=
  if h : c = '<' ∨ c = '&' then ⟨c, .named, writes_named h⟩ else ⟨c, .raw, not_or.mp h⟩

theorem escapeXml_form (c : Char) :
    (escapeXml c).form.isDecimal = false ∧ (escapeXml c).form.isHex = false := by
  rw [escapeXml]
  by_cases h : c = '<' ∨ c = '&'
  · rw [dif_pos h]
    exact ⟨rfl, rfl⟩
  · rw [dif_neg h]
    exact ⟨rfl, rfl⟩

theorem escaped_map (s : String) :
    ∀ e ∈ s.toList.map escapeXml, e.form.isDecimal = false ∧ e.form.isHex = false := by
  intro e he
  obtain ⟨c, -, rfl⟩ := List.mem_map.mp he
  exact escapeXml_form c

def TextRun.ofText (s : String) : TextRun := ⟨.none, .none, s.toList.map escapeXml, escaped_map s⟩

def Paragraph.ofTexts (l : List String) : Paragraph := ⟨.none, .none, l.map TextRun.ofText⟩

theorem not_oversized_nil : ¬ Oversized [] := by
  rw [← decodeXmlEntities_eq_none_iff, decode_nil]
  exact Option.some_ne_none _

theorem ofTexts_leftover (l : List String) : ∀ r ∈ (Paragraph.ofTexts l).runs, ¬ Oversized r.leftover := by
  intro r hr
  obtain ⟨s, -, rfl⟩ := List.mem_map.mp hr
  exact not_oversized_nil

theorem secret_kept :
    StillMatched secret (.ofTexts ["a secret", " plan"]) ∧
      (DlpScanner.scan ⟨fun _ => none, fun _ => some (some (Paragraph.ofTexts ["a secret", " plan"]).documentXml)⟩
        [80, 75] (some DOCX_MIME)).detected = true := by
  have hkept : Kept secret (.ofTexts ["a secret", " plan"]) :=
    ⟨ofTexts_leftover _, .inl ⟨.ofText "a secret", by simp [Paragraph.ofTexts], by decide⟩⟩
  have h := split_runs_iff ⟨fun _ => none,
    fun _ => some (some (Paragraph.ofTexts ["a secret", " plan"]).documentXml)⟩
    [80, 75] (by simp [RULES] : secret ∈ RULES) (.ofTexts ["a secret", " plan"])
  exact ⟨h.1.mpr hkept, h.2 ⟨hkept, by decide, rfl, by decide⟩⟩

/-- The word cut in two is no word of the rules. -/
theorem secret_cut :
    Matched secret (Paragraph.ofTexts ["sec", "ret"]).text ∧ ¬ StillMatched secret (.ofTexts ["sec", "ret"]) ∧
      DlpScanner.scan ⟨fun _ => none, fun _ => some (some (Paragraph.ofTexts ["sec", "ret"]).documentXml)⟩
        [80, 75] (some DOCX_MIME) = .CLEAR := by
  have hextract := extract_documentXml (ofTexts_leftover ["sec", "ret"])
  have hfindings : (findingsOf (Paragraph.ofTexts ["sec", "ret"]).joined).length = 0 := by decide
  refine ⟨by decide, fun h => ?_, ?_⟩
  · obtain ⟨content, hcontent, hm⟩ := h
    rw [hextract] at hcontent
    cases hcontent
    exact absurd hm (by decide)
  · rw [scan_docx _ [80, 75] (by decide) rfl hextract (by decide), if_pos hfindings]

end DocVault
