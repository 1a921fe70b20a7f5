import DocVault.EvidenceBundle
import DocVault.Markup
import DocVault.Policy
import DocVault.RegexScan

/-!
# The evidence report

The page that is exported of a case: a template with the texts of the bundle and
of its narrative put in, each of them escaped.
-/

namespace DocVault.EvidenceCenter

open Markup Regex Rewriting

/-! ## Escaping -/

def escapeHtml (value : Text) : Text :=
  let value := replaceAll isWord (text "&") (fun _ => utf16 "&amp;") value
  let value := replaceAll isWord (text "<") (fun _ => utf16 "&lt;") value
  let value := replaceAll isWord (text ">") (fun _ => utf16 "&gt;") value
  let value := replaceAll isWord (text "\"") (fun _ => utf16 "&quot;") value
  replaceAll isWord (text "'") (fun _ => utf16 "&#39;") value

/-! ## The template

A template literal is the list of its parts: `raw` is what it spells out, `count`
an interpolated number, and `.text` an interpolation of `escapeHtml`. -/

def raw (s : String) : Piece Nat := .markup (utf16 s)

def count (n : Nat) : Piece Nat := .markup (number n)

/-- `rows || other` of the texts that are written. -/
def orElseRows (rows : List (Piece Nat)) (other : String) : List (Piece Nat) :=
  if write escapeHtml rows = [] then [raw other] else rows

def severityText : SecurityRecommendationSeverity → String
  | .critical => "critical"
  | .warning => "warning"
  | .info => "info"

def retentionStatusText : RetentionStatus → String
  | .ACTIVE => "ACTIVE"
  | .DUE_SOON => "DUE_SOON"
  | .OVERDUE => "OVERDUE"
  | .ARCHIVED => "ARCHIVED"
  | .UNSET => "UNSET"

def caseStatusText : EvidenceCaseStatus → String
  | .ready => "ready"
  | .incomplete => "incomplete"
  | .blocked => "blocked"

def sectionStateText : EvidenceCaseSectionState → String
  | .verified => "verified"
  | .ready => "ready"
  | .attention => "attention"
  | .blocked => "blocked"

def sectionItem (item : EvidenceCaseSectionItem) : List (Piece Nat) :=
  [raw "
                  <div>
                    <dt>", .text item.label, raw "</dt>
                    <dd>", .text item.value, raw "</dd>
                  </div>"]

def sectionCard (card : EvidenceCaseSection) : List (Piece Nat) :=
  [raw "
        <article class=\"section-card\">
          <div>
            <span class=\"state\">", .text (utf16 (sectionStateText card.state)), raw "</span>
            <h3>", .text card.label, raw "</h3>
          </div>
          <p>", .text card.summary, raw "</p>
          <dl>
            "] ++ card.items.flatMap sectionItem ++ [raw "
          </dl>
        </article>"]

def timelineItem (item : EvidenceCaseVisualTimelineItem) : List (Piece Nat) :=
  [raw "
        <li>
          <span class=\"step\">", count item.sequence, raw "</span>
          <div>
            <strong>", .text item.label, raw "</strong>
            <p>", .text item.description, raw "</p>
          </div>
        </li>"]

def checklistRow (item : EvidenceBundleChecklistItem) : List (Piece Nat) :=
  [raw "
        <tr>
          <td>", .text item.label, raw "</td>
          <td>", raw (if item.complete then "Ready" else "Pending"), raw "</td>
          <td>", count item.evidenceCount, raw "</td>
        </tr>"]

def recommendationRow (actorDisplayNames : Option UserDisplayNameMap) (item : EvidenceCaseTimelineItem) :
    List (Piece Nat) :=
  [raw "
        <tr>
          <td>", count item.sequence, raw "</td>
          <td>", .text (resolveActorIdsInText item.title item.affectedActorIds actorDisplayNames), raw "</td>
          <td>", .text (utf16 (severityText item.severity)), raw "</td>
          <td>", .text (utf16 item.workflowStatus.text), raw "</td>
          <td>", .text item.packetFilename, raw "</td>
        </tr>"]

def documentRow (item : EvidenceBundleDocumentReference) : List (Piece Nat) :=
  [raw "
        <tr>
          <td>", .text item.title, raw "</td>
          <td>", .text (utf16 (toString item.classification)), raw "</td>
          <td>", .text (utf16 (retentionStatusText item.retentionStatus)), raw "</td>
          <td>", .text item.packetFilename, raw "</td>
        </tr>"]

def warningItem (item : Text) : List (Piece Nat) := [raw "<li>", .text item, raw "</li>"]

/-- `warningItems ? … : ''` -/
def readinessNotes (warningItems : List (Piece Nat)) : List (Piece Nat) :=
  if write escapeHtml warningItems = [] then []
  else [raw "<h2>Readiness Notes</h2><ul>"] ++ warningItems ++ [raw "</ul>"]

def reportHead : String := "<!doctype html>
<html lang=\"en\">
  <head>
    <meta charset=\"utf-8\" />
    <meta name=\"viewport\" content=\"width=device-width, initial-scale=1\" />
    <title>"

def reportStyle : String := " Evidence Report</title>
    <style>
      :root \x7b
        color: #172033;
        background: #f6f8fb;
        font-family: Inter, ui-sans-serif, system-ui, -apple-system, BlinkMacSystemFont, \"Segoe UI\", sans-serif;
      \x7d
      body \x7b
        margin: 0;
        padding: 32px;
      \x7d
      main \x7b
        max-width: 1040px;
        margin: 0 auto;
        background: #ffffff;
        border: 1px solid #d8dee9;
        border-radius: 8px;
        padding: 28px;
      \x7d
      h1, h2 \x7b
        margin: 0;
      \x7d
      h1 \x7b
        font-size: 24px;
      \x7d
      h2 \x7b
        margin-top: 28px;
        font-size: 16px;
      \x7d
      p \x7b
        line-height: 1.55;
      \x7d
      .meta \x7b
        color: #526070;
        font-size: 13px;
      \x7d
      .pill \x7b
        display: inline-block;
        border: 1px solid #c5cfdd;
        border-radius: 999px;
        padding: 4px 10px;
        font-size: 12px;
        font-weight: 700;
        text-transform: uppercase;
      \x7d
      .grid \x7b
        display: grid;
        grid-template-columns: repeat(4, minmax(0, 1fr));
        gap: 12px;
      \x7d
      .section-grid \x7b
        display: grid;
        grid-template-columns: repeat(2, minmax(0, 1fr));
        gap: 12px;
        margin-top: 12px;
      \x7d
      .metric \x7b
        border: 1px solid #d8dee9;
        border-radius: 8px;
        padding: 12px;
      \x7d
      .section-card \x7b
        border: 1px solid #d8dee9;
        border-radius: 8px;
        padding: 14px;
        break-inside: avoid;
      \x7d
      .section-card h3 \x7b
        margin: 6px 0 0;
        font-size: 15px;
      \x7d
      .section-card p \x7b
        margin: 8px 0 0;
        color: #526070;
        font-size: 13px;
      \x7d
      .section-card dl \x7b
        margin: 12px 0 0;
      \x7d
      .section-card dl div \x7b
        display: flex;
        justify-content: space-between;
        gap: 12px;
        border-top: 1px solid #e5e9f0;
        padding: 8px 0;
      \x7d
      .section-card dt \x7b
        color: #526070;
        font-size: 12px;
      \x7d
      .section-card dd \x7b
        margin: 0;
        font-size: 12px;
        font-weight: 700;
        text-align: right;
        word-break: break-word;
      \x7d
      .state \x7b
        color: #526070;
        font-size: 11px;
        font-weight: 700;
        text-transform: uppercase;
      \x7d
      .metric span \x7b
        display: block;
        color: #526070;
        font-size: 11px;
        font-weight: 700;
        text-transform: uppercase;
      \x7d
      .metric strong \x7b
        display: block;
        margin-top: 6px;
        font-size: 18px;
      \x7d
      table \x7b
        width: 100%;
        border-collapse: collapse;
        margin-top: 10px;
      \x7d
      th, td \x7b
        border: 1px solid #d8dee9;
        padding: 9px 10px;
        text-align: left;
        vertical-align: top;
        font-size: 13px;
      \x7d
      th \x7b
        background: #eef2f7;
      \x7d
      ul \x7b
        margin: 10px 0 0;
        padding-left: 22px;
      \x7d
      .timeline \x7b
        margin: 12px 0 0;
        padding: 0;
        list-style: none;
      \x7d
      .timeline li \x7b
        display: grid;
        grid-template-columns: 28px 1fr;
        gap: 10px;
        padding: 0 0 14px;
      \x7d
      .timeline li + li \x7b
        border-top: 1px solid #e5e9f0;
        padding-top: 14px;
      \x7d
      .timeline .step \x7b
        display: inline-flex;
        width: 28px;
        height: 28px;
        align-items: center;
        justify-content: center;
        border-radius: 999px;
        background: #172033;
        color: #ffffff;
        font-size: 12px;
        font-weight: 700;
      \x7d
      .timeline strong \x7b
        display: block;
        font-size: 13px;
      \x7d
      .timeline p \x7b
        margin: 4px 0 0;
        color: #526070;
        font-size: 13px;
      \x7d
      @media (max-width: 720px) \x7b
        body \x7b
          padding: 16px;
        \x7d
        .grid,
        .section-grid \x7b
          grid-template-columns: 1fr;
        \x7d
      \x7d
      @media print \x7b
        body \x7b
          background: #ffffff;
          padding: 0;
        \x7d
        main \x7b
          border: 0;
          border-radius: 0;
        \x7d
      \x7d
    </style>
  </head>
  <body>
    <main>
      <span class=\"pill\">"

def reportPieces (bundle : EvidenceBundleManifest) (narrative : EvidenceCaseNarrative)
    (actorDisplayNames : Option UserDisplayNameMap) : List (Piece Nat) :=
  let sectionCards := narrative.sections.flatMap sectionCard
  let timelineItems := narrative.visualTimeline.flatMap timelineItem
  let checklistRows := narrative.checklist.flatMap checklistRow
  let recommendationRows := narrative.timeline.flatMap (recommendationRow actorDisplayNames)
  let documentRows := narrative.documents.flatMap documentRow
  let warningItems := (narrative.blockers ++ narrative.warnings).flatMap warningItem
  [raw reportHead, .text narrative.caseId, raw reportStyle] ++
  [.text (utf16 (caseStatusText narrative.status)), raw "</span>
      <h1>", .text narrative.caseId, raw "</h1>
      <p class=\"meta\">Metadata-only report generated at ", .text narrative.generatedAt, raw "</p>
      <p>", .text narrative.headline, raw "</p>
      <p><strong>", .text narrative.integrityBadge.label, raw "</strong> -
        ", .text narrative.integrityBadge.detail, raw "</p>

      <section class=\"grid\">
        <div class=\"metric\"><span>Total packets</span><strong>", count bundle.summary.totalPackets,
          raw "</strong></div>
        <div class=\"metric\"><span>Recommendations</span><strong>", count bundle.summary.recommendationPackets,
          raw "</strong></div>
        <div class=\"metric\"><span>Documents</span><strong>", count bundle.summary.documentPackets,
          raw "</strong></div>
        <div class=\"metric\"><span>Audit events</span><strong>", count narrative.auditChain.checkedEvents,
          raw "</strong></div>
      </section>

      <h2>Evidence Packet Sections</h2>
      <section class=\"section-grid\">"] ++
  sectionCards ++
  [raw "</section>

      <h2>Visual Timeline</h2>
      <ol class=\"timeline\">"] ++
  timelineItems ++
  [raw "</ol>

      <h2>Evidence Controls</h2>
      <p>", .text narrative.integrityBadge.label, raw ". ", .text narrative.retentionPosture.label, raw ".</p>
      <p class=\"meta\">Excluded sensitive fields: "] ++
  (bundle.excludedSensitiveFields.map Piece.text).intersperse (raw ", ") ++
  [raw "</p>

      "] ++
  readinessNotes warningItems ++
  [raw "

      <h2>Checklist</h2>
      <table>
        <thead><tr><th>Item</th><th>Status</th><th>Evidence count</th></tr></thead>
        <tbody>"] ++
  checklistRows ++
  [raw "</tbody>
      </table>

      <h2>Recommendation Packets</h2>
      <table>
        <thead><tr><th>#</th><th>Title</th><th>Severity</th><th>Workflow</th><th>Packet filename</th></tr></thead>
        <tbody>"] ++
  orElseRows recommendationRows "<tr><td colspan=\"5\">No recommendation packet selected.</td></tr>" ++
  [raw "</tbody>
      </table>

      <h2>Document Packets</h2>
      <table>
        <thead><tr><th>Title</th><th>Classification</th><th>Retention</th><th>Packet filename</th></tr></thead>
        <tbody>"] ++
  orElseRows documentRows "<tr><td colspan=\"4\">No document packet selected.</td></tr>" ++
  [raw "</tbody>
      </table>
    </main>
  </body>
</html>"]

def buildEvidenceReportHtml (bundle : EvidenceBundleManifest) (narrative : EvidenceCaseNarrative)
    (actorDisplayNames : Option UserDisplayNameMap) : Text :=
  write escapeHtml (reportPieces bundle narrative actorDisplayNames)

/-! ## Escaped texts -/

/-- What is written for one unit. -/
def escapeUnit (u : Nat) : Text :=
  if u = 38 then utf16 "&amp;"
  else if u = 60 then utf16 "&lt;"
  else if u = 62 then utf16 "&gt;"
  else if u = 34 then utf16 "&quot;"
  else if u = 39 then utf16 "&#39;"
  else [u]

theorem escapeHtml_eq (value : Text) : escapeHtml value = value.flatMap escapeUnit := by
  have hpass (c : Nat) (out : Text) (value : Text) :
      replaceAll isWord (lit [c]) (fun _ => out) value = value.flatMap fun u => if u = c then out else [u] :=
    replaceAll_lit_singleton c value
  have hamp : text "&" = lit [38] := rfl
  have hlt : text "<" = lit [60] := rfl
  have hgt : text ">" = lit [62] := rfl
  have hquot : text "\"" = lit [34] := rfl
  have hapos : text "'" = lit [39] := rfl
  simp only [escapeHtml, hamp, hlt, hgt, hquot, hapos, hpass, List.flatMap_assoc]
  apply List.flatMap_congr
  intro u _
  unfold escapeUnit
  by_cases hu : u = 38
  · subst hu
    decide
  · by_cases hu' : u = 60
    · subst hu'
      decide
    · by_cases hu'' : u = 62
      · subst hu''
        decide
      · by_cases hu3 : u = 34
        · subst hu3
          decide
        · simp [hu, hu', hu'', hu3]

/-- `<`, `>` and the quotes. -/
def isMarkupUnit (u : Nat) : Bool := [60, 62, 34, 39].contains u

theorem escapeHtml_filter (value : Text) : (escapeHtml value).filter isMarkupUnit = [] := by
  rw [escapeHtml_eq, List.filter_flatMap]
  apply List.flatMap_eq_nil_iff.mpr
  intro u _
  unfold escapeUnit
  split
  · decide
  · split
    · decide
    · split
      · decide
      · split
        · decide
        · split
          · decide
          · simp_all [isMarkupUnit]

/-- The entities that the escaping writes. -/
def entities : List Text := ["&amp;", "&lt;", "&gt;", "&quot;", "&#39;"].map utf16

/-- The unit an entity stands for. -/
def entityUnit (entity : Text) : Text :=
  ([("&amp;", "&"), ("&lt;", "<"), ("&gt;", ">"), ("&quot;", "\""), ("&#39;", "'")].find? fun e =>
    utf16 e.1 = entity).elim entity fun e => utf16 e.2

/-- Every entity is read as the unit it stands for. -/
def unescapeHtml (value : Text) : Text := onePass entities entityUnit value

theorem entities_eq : entities = [[38, 97, 109, 112, 59], [38, 108, 116, 59], [38, 103, 116, 59],
    [38, 113, 117, 111, 116, 59], [38, 35, 51, 57, 59]] := by decide

theorem pieces_entity {entity rest : Text} (h : entity ∈ entities) :
    pieces entities 0 (entity ++ rest) = .inr entity :: pieces entities 0 rest := by
  have hlong : ∀ e ∈ entities, e ≠ [] ∧ longest entities (e ++ rest) = some e := by
    rw [entities_eq]
    simp [longest]
  exact pieces_word (hlong entity h).1 (hlong entity h).2

theorem pieces_plain {u : Nat} {rest : Text} (hu : u ≠ 38) :
    pieces entities 0 (u :: rest) = .inl u :: pieces entities 0 rest := by
  apply pieces_none
  rw [entities_eq]
  simp [longest, Ne.symm hu]

theorem unescapeHtml_escapeHtml (value : Text) : unescapeHtml (escapeHtml value) = value := by
  rw [escapeHtml_eq]
  unfold unescapeHtml onePass
  induction value with
  | nil => rfl
  | cons u value ih =>
    have hentity (entity : Text) (hmem : entity ∈ entities) (hunit : entityUnit entity = [u]) :
        render entityUnit (pieces entities 0 (entity ++ value.flatMap escapeUnit)) = u :: value := by
      rw [pieces_entity hmem]
      calc entityUnit entity ++ render entityUnit (pieces entities 0 (value.flatMap escapeUnit))
        _ = u :: value := by rw [hunit, ih]; rfl
    rw [List.flatMap_cons]
    by_cases hspecial : u = 38 ∨ u = 60 ∨ u = 62 ∨ u = 34 ∨ u = 39
    · obtain rfl | rfl | rfl | rfl | rfl := hspecial
      · exact hentity (utf16 "&amp;") (by decide) (by decide)
      · exact hentity (utf16 "&lt;") (by decide) (by decide)
      · exact hentity (utf16 "&gt;") (by decide) (by decide)
      · exact hentity (utf16 "&quot;") (by decide) (by decide)
      · exact hentity (utf16 "&#39;") (by decide) (by decide)
    · simp only [not_or] at hspecial
      have hself : escapeUnit u = [u] := by simp [escapeUnit, hspecial]
      rw [hself, List.singleton_append, pieces_plain hspecial.1]
      exact congrArg (u :: ·) ih

/-! ## The shape of a report -/

/-- Two inputs that agree in the numbers, the booleans and the lengths of lists that the report reads. -/
structure SameShape (bundle bundle' : EvidenceBundleManifest)
    (narrative narrative' : EvidenceCaseNarrative) : Prop where
  totalPackets : bundle.summary.totalPackets = bundle'.summary.totalPackets
  recommendationPackets : bundle.summary.recommendationPackets = bundle'.summary.recommendationPackets
  documentPackets : bundle.summary.documentPackets = bundle'.summary.documentPackets
  excludedSensitiveFields : bundle.excludedSensitiveFields.length = bundle'.excludedSensitiveFields.length
  checkedEvents : narrative.auditChain.checkedEvents = narrative'.auditChain.checkedEvents
  sections : narrative.sections.map (·.items.length) = narrative'.sections.map (·.items.length)
  visualTimeline : narrative.visualTimeline.map (·.sequence) = narrative'.visualTimeline.map (·.sequence)
  checklist : narrative.checklist.map (fun item => (item.complete, item.evidenceCount))
    = narrative'.checklist.map fun item => (item.complete, item.evidenceCount)
  timeline : narrative.timeline.map (·.sequence) = narrative'.timeline.map (·.sequence)
  documents : narrative.documents.length = narrative'.documents.length
  warnings : narrative.warnings.length = narrative'.warnings.length
  blockers : narrative.blockers.length = narrative'.blockers.length

/-- The texts put into a report, from its start to its end. -/
def reportTexts (bundle : EvidenceBundleManifest) (narrative : EvidenceCaseNarrative)
    (actorDisplayNames : Option UserDisplayNameMap) : List Text :=
  [narrative.caseId, utf16 (caseStatusText narrative.status), narrative.caseId, narrative.generatedAt,
    narrative.headline, narrative.integrityBadge.label, narrative.integrityBadge.detail] ++
  narrative.sections.flatMap (fun card => [utf16 (sectionStateText card.state), card.label, card.summary] ++
    card.items.flatMap fun item => [item.label, item.value]) ++
  narrative.visualTimeline.flatMap (fun item => [item.label, item.description]) ++
  [narrative.integrityBadge.label, narrative.retentionPosture.label] ++
  bundle.excludedSensitiveFields ++
  narrative.blockers ++ narrative.warnings ++
  narrative.checklist.map (·.label) ++
  narrative.timeline.flatMap (fun item =>
    [resolveActorIdsInText item.title item.affectedActorIds actorDisplayNames, utf16 (severityText item.severity),
      utf16 item.workflowStatus.text, item.packetFilename]) ++
  narrative.documents.flatMap fun item =>
    [item.title, utf16 (toString item.classification), utf16 (retentionStatusText item.retentionStatus),
      item.packetFilename]

section
variable {bundle bundle' : EvidenceBundleManifest} {narrative narrative' : EvidenceCaseNarrative}
variable {names names' : Option UserDisplayNameMap}

theorem map_unit {β : Type} {l l' : List β} (h : l.length = l'.length) :
    l.map (fun _ => ()) = l'.map fun _ => () := by
  simpa [List.map_const'] using h

theorem utf16_ne_nil {s : String} (h : s ≠ "") : utf16 s ≠ [] := by
  intro hnil
  apply h
  apply String.toList_eq_nil_iff.mp
  cases hs : s.toList with
  | nil => rfl
  | cons c cs =>
    rw [utf16, hs, List.flatMap_cons, List.append_eq_nil_iff, utf16Units] at hnil
    by_cases hc : c.toNat < 0x10000
    · simp [hc] at hnil
    · simp [hc] at hnil

theorem write_raw_ne_nil {s : String} {rest : List (Piece Nat)} (h : s ≠ "") :
    write escapeHtml (raw s :: rest) ≠ [] := by
  intro hnil
  rw [write_cons, List.append_eq_nil_iff] at hnil
  exact utf16_ne_nil h hnil.1

theorem write_recommendationRow (item : EvidenceCaseTimelineItem) :
    write escapeHtml (recommendationRow names item) ≠ [] := write_raw_ne_nil (by simp)

theorem write_documentRow (item : EvidenceBundleDocumentReference) : write escapeHtml (documentRow item) ≠ [] :=
  write_raw_ne_nil (by simp)

theorem write_warningItem (item : Text) : write escapeHtml (warningItem item) ≠ [] := write_raw_ne_nil (by simp)

theorem skeleton_sectionCard {card card' : EvidenceCaseSection} (h : card.items.length = card'.items.length) :
    skeleton (sectionCard card) = skeleton (sectionCard card') := by
  have hitems : skeleton (card.items.flatMap sectionItem) = skeleton (card'.items.flatMap sectionItem) :=
    skeleton_flatMap_eq (map_unit h) fun _ _ _ => rfl
  unfold sectionCard
  rw [skeleton_append, skeleton_append, skeleton_append, skeleton_append, hitems]
  rfl

/-- Rows of one shape, and what stands for none. -/
theorem skeleton_orElseRows {β γ : Type} {f : β → γ} {g g' : β → List (Piece Nat)} {l l' : List β} (other : String)
    (h : l.map f = l'.map f) (hg : ∀ a b, f a = f b → skeleton (g a) = skeleton (g' b))
    (hne : ∀ b, write escapeHtml (g b) ≠ []) (hne' : ∀ b, write escapeHtml (g' b) ≠ []) :
    skeleton (orElseRows (l.flatMap g) other) = skeleton (orElseRows (l'.flatMap g') other) := by
  have hnil : l = [] ↔ l' = [] := by
    rw [← List.map_eq_nil_iff (f := f), h, List.map_eq_nil_iff]
  unfold orElseRows
  simp only [write_flatMap_nil_iff hne, write_flatMap_nil_iff hne']
  by_cases hl : l = []
  · rw [if_pos hl, if_pos (hnil.mp hl)]
  · rw [if_neg hl, if_neg fun hl' => hl (hnil.mpr hl')]
    exact skeleton_flatMap_eq h hg

theorem skeleton_readinessNotes {items items' : List Text} (h : items.length = items'.length) :
    skeleton (readinessNotes (items.flatMap warningItem)) =
      skeleton (readinessNotes (items'.flatMap warningItem)) := by
  have hnil : items = [] ↔ items' = [] := by
    rw [← List.length_eq_zero_iff, h, List.length_eq_zero_iff]
  have hitems : skeleton (items.flatMap warningItem) = skeleton (items'.flatMap warningItem) :=
    skeleton_flatMap_eq (map_unit h) fun _ _ _ => rfl
  unfold readinessNotes
  simp only [write_flatMap_nil_iff write_warningItem]
  by_cases hi : items = []
  · rw [if_pos hi, if_pos (hnil.mp hi)]
  · rw [if_neg hi, if_neg fun hi' => hi (hnil.mpr hi'), skeleton_append, skeleton_append, hitems, skeleton_append,
      skeleton_append]

/-- The markup of a report is decided by its shape. -/
theorem skeleton_reportPieces (h : SameShape bundle bundle' narrative narrative') :
    skeleton (reportPieces bundle narrative names) = skeleton (reportPieces bundle' narrative' names') := by
  have hcards : skeleton (narrative.sections.flatMap sectionCard) =
    skeleton (narrative'.sections.flatMap sectionCard) :=
    skeleton_flatMap_eq h.sections fun _ _ => skeleton_sectionCard
  have htimeline : skeleton (narrative.visualTimeline.flatMap timelineItem)
      = skeleton (narrative'.visualTimeline.flatMap timelineItem) :=
    skeleton_flatMap_eq h.visualTimeline fun a b hab => by simp only [timelineItem, skeleton, List.map_cons, hab]
  have hchecklist : skeleton (narrative.checklist.flatMap checklistRow)
      = skeleton (narrative'.checklist.flatMap checklistRow) :=
    skeleton_flatMap_eq h.checklist fun a b hab => by
      injection hab with hcomplete hcount
      simp only [checklistRow, skeleton, List.map_cons, hcomplete, hcount]
  have hexcluded : skeleton ((bundle.excludedSensitiveFields.map Piece.text).intersperse (raw ", "))
      = skeleton ((bundle'.excludedSensitiveFields.map Piece.text).intersperse (raw ", ")) :=
    skeleton_intersperse h.excludedSensitiveFields
  have hnotes : (narrative.blockers ++ narrative.warnings).length =
    (narrative'.blockers ++ narrative'.warnings).length := by
    rw [List.length_append, List.length_append, h.blockers, h.warnings]
  have hrecommendations (other : String) :
      skeleton (orElseRows (narrative.timeline.flatMap (recommendationRow names)) other)
        = skeleton (orElseRows (narrative'.timeline.flatMap (recommendationRow names')) other) :=
    skeleton_orElseRows other h.timeline
      (fun a b hab => by simp only [recommendationRow, skeleton, List.map_cons, hab])
      write_recommendationRow write_recommendationRow
  have hdocuments (other : String) :
      skeleton (orElseRows (narrative.documents.flatMap documentRow) other)
        = skeleton (orElseRows (narrative'.documents.flatMap documentRow) other) :=
    skeleton_orElseRows other (map_unit h.documents) (fun _ _ _ => rfl) write_documentRow write_documentRow
  unfold reportPieces
  simp only [skeleton_append, hcards, htimeline, hchecklist, hexcluded, skeleton_readinessNotes hnotes,
    hrecommendations, hdocuments]
  simp only [skeleton, List.map_cons, h.totalPackets, h.recommendationPackets, h.documentPackets, h.checkedEvents]

theorem texts_orElseRows {β : Type} {g : β → List (Piece Nat)} (hne : ∀ b, write escapeHtml (g b) ≠ []) (l : List β)
    (other : String) : texts (orElseRows (l.flatMap g) other) = l.flatMap fun b => texts (g b) := by
  unfold orElseRows
  by_cases hl : l = []
  · simp [hl, texts, raw]
  · rw [if_neg fun hnil => hl ((write_flatMap_nil_iff hne l).mp hnil), texts_flatMap]

theorem texts_readinessNotes (items : List Text) : texts (readinessNotes (items.flatMap warningItem)) = items := by
  have hitems : texts (items.flatMap warningItem) = items := by
    rw [texts_flatMap]
    exact List.flatMap_singleton' _
  unfold readinessNotes
  by_cases hi : items = []
  · simp [hi, texts]
  · rw [if_neg fun hw => hi ((write_flatMap_nil_iff write_warningItem _).mp hw), texts_append, texts_append, hitems]
    simp [texts, raw]

theorem texts_reportPieces : texts (reportPieces bundle narrative names) = reportTexts bundle narrative names := by
  have hexcluded : texts ((bundle.excludedSensitiveFields.map Piece.text).intersperse (raw ", "))
      = bundle.excludedSensitiveFields := texts_intersperse _ _
  have hchecklist : texts (narrative.checklist.flatMap checklistRow) = narrative.checklist.map (·.label) := by
    rw [texts_flatMap, List.map_eq_flatMap]
    rfl
  unfold reportPieces reportTexts
  simp only [texts_append, texts_readinessNotes, hexcluded, hchecklist, texts_orElseRows write_recommendationRow,
    texts_orElseRows write_documentRow, texts_flatMap, sectionCard]
  simp [texts, raw, count, timelineItem, recommendationRow, documentRow, sectionItem]

end

/-! ## Texts stay texts -/

theorem report_texts_inert (bundle bundle' : EvidenceBundleManifest) (narrative narrative' : EvidenceCaseNarrative)
    (names names' : Option UserDisplayNameMap) (h : SameShape bundle bundle' narrative narrative') :
    (buildEvidenceReportHtml bundle narrative names).filter isMarkupUnit
      = (buildEvidenceReportHtml bundle' narrative' names').filter isMarkupUnit ∧
    ∃ places : List (Option Text), (reportTexts bundle narrative names).length = (places.filter (·.isNone)).length ∧
      buildEvidenceReportHtml bundle narrative names
        = fill places ((reportTexts bundle narrative names).map escapeHtml) ∧
      buildEvidenceReportHtml bundle' narrative' names'
        = fill places ((reportTexts bundle' narrative' names').map escapeHtml) ∧
      ((reportTexts bundle narrative names).map escapeHtml).map unescapeHtml = reportTexts bundle narrative names ∧
      ((reportTexts bundle' narrative' names').map escapeHtml).map unescapeHtml =
      reportTexts bundle' narrative' names' := by
  have hskeleton : skeleton (reportPieces bundle narrative names) =
    skeleton (reportPieces bundle' narrative' names') :=
    skeleton_reportPieces h
  have hundo (l : List Text) : (l.map escapeHtml).map unescapeHtml = l := by
    simp [Function.comp_def, unescapeHtml_escapeHtml]
  refine ⟨filter_write_eq escapeHtml_filter hskeleton, skeleton (reportPieces bundle narrative names), ?_, ?_, ?_,
    hundo _, hundo _⟩
  · rw [← texts_reportPieces, length_texts]
  · rw [buildEvidenceReportHtml, write_eq_fill, texts_reportPieces]
  · rw [buildEvidenceReportHtml, write_eq_fill, texts_reportPieces, hskeleton]

def sampleBundle : EvidenceBundleManifest := buildEvidenceBundle Search.sampleRuntime sampleModel sampleSelection

/-- A narrative with a document of this title. -/
def sampleTitled (title : String) : EvidenceCaseNarrative :=
  { buildEvidenceCaseNarrative Search.sampleRuntime sampleBundle with
    documents :=
      [{ id := utf16 "1"
         title := utf16 title
         packetFilename := utf16 "docvault-evidence-1.json"
         status := .PUBLISHED
         classification := .SECRET
         retentionStatus := .ACTIVE }] }

theorem report_texts_inert_sample :
    SameShape sampleBundle sampleBundle (sampleTitled "Plan") (sampleTitled "<script>") ∧
    (buildEvidenceReportHtml sampleBundle (sampleTitled "Plan") none).filter isMarkupUnit
      = (buildEvidenceReportHtml sampleBundle (sampleTitled "<script>") none).filter isMarkupUnit := by
  have hshape : SameShape sampleBundle sampleBundle (sampleTitled "Plan") (sampleTitled "<script>") :=
    ⟨rfl, rfl, rfl, rfl, rfl, rfl, rfl, rfl, rfl, rfl, rfl, rfl⟩
  exact ⟨hshape, (report_texts_inert _ _ _ _ none none hshape).1⟩

end DocVault.EvidenceCenter
