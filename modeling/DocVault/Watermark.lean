import DocVault.Js
import Mathlib.Data.List.Infix
import Mathlib.Data.Rat.Floor

/-!
# Watermarks

`WatermarkService` of `document-service`. A PDF gets two lines of text on
every tile of every page; everything else, and a PDF that cannot be written
on, goes out as it is. The library that reads and writes PDFs is a parameter.
-/

namespace DocVault

structure WatermarkContext where
  username : String
  timestamp : String
  classification : String

structure PageSize where
  width : Rat
  height : Rat

/-- A text drawn on a page, at an angle and in a color that are the same for all, `below` under its base. -/
structure DrawnText where
  page : Nat
  text : String
  baseX : Rat
  baseY : Rat
  below : Rat
  size : Rat
  opacity : Rat

/-- pdf-lib, whose calls may throw. What it writes with a text drawn on it is not the file that it has read. -/
structure PdfLib where
  Doc : Type
  load : Bytes → Option Doc
  embedFont : Doc → Option Doc
  pages : Doc → List PageSize
  encodes : String → Bool
  save : Doc → List DrawnText → Option Bytes
  marked : ∀ data doc doc' drawn saved, load data = some doc → embedFont doc = some doc' → drawn ≠ [] →
    save doc' drawn = some saved → saved ≠ data

namespace WatermarkService

def replaceT : List Char → List Char
  | [] => []
  | c :: cs => if c = 'T' then ' ' :: cs else c :: replaceT cs

-- The milliseconds and the `Z` at the end.
def dropMs (cs : List Char) : List Char :=
  match cs.reverse with
  | 'Z' :: rest =>
    match rest.span Char.isDigit with
    | (_ :: _, '.' :: before) => before.reverse
    | _ => cs
  | _ => cs

def line1 (ctx : WatermarkContext) : String := s!"{ctx.classification}  -  DOCVAULT"

def line2 (ctx : WatermarkContext) : String :=
  s!"{ctx.username}  -  {String.ofList (dropMs (replaceT ctx.timestamp.toList))}"

def steps (start stop step : Rat) : List Rat :=
  (List.range ⌈(stop - start) / step⌉.toNat).map fun i => start + i * step

def tiles (page : PageSize) : List (Rat × Rat) :=
  let margin := max page.width page.height * (6 / 10)
  (steps (-margin) (page.height + margin) 220).flatMap fun baseY =>
    (steps (-margin) (page.width + margin) 340).map fun baseX => (baseX, baseY)

def drawTile (ctx : WatermarkContext) (index : Nat) (page : PageSize) (tile : Rat × Rat) : List DrawnText :=
  let fontSize := max 16 (min page.width page.height * (28 / 1000))
  [⟨index, line1 ctx, tile.1, tile.2, 0, fontSize, 15 / 100⟩,
    ⟨index, line2 ctx, tile.1, tile.2, fontSize * (11 / 10), fontSize * (72 / 100), 11 / 100⟩]

def drawPages (ctx : WatermarkContext) (pages : List PageSize) : List DrawnText :=
  pages.zipIdx.flatMap fun (page, index) => (tiles page).flatMap (drawTile ctx index page)

variable (pdf : PdfLib)

def applyPdfWatermark (data : Bytes) (ctx : WatermarkContext) : Option Bytes := do
  let pdfDoc ← pdf.load data
  let pdfDoc ← pdf.embedFont pdfDoc
  let drawn := drawPages ctx (pdf.pages pdfDoc)
  if drawn.all fun t => pdf.encodes t.text then pdf.save pdfDoc drawn else none

-- Only ASCII letters have one of `application/pdf` as their lower case.
def isPdfType (contentType : Option String) : Bool :=
  decide ("application/pdf".toList <:+: (contentType.getD "").toList.map Char.toLower)

-- `toString('ascii')` clears the highest bit.
def isPdfHeader (data : Bytes) : Bool := (data.take 4).map (·.toNat % 128) = [0x25, 0x50, 0x44, 0x46]

def applyWatermark (data : Bytes) (ctx : WatermarkContext) (contentType : Option String) : Bytes :=
  if isPdfType contentType then
    if isPdfHeader data then (applyPdfWatermark pdf data ctx).getD data else data
  else data

/-! ## What makes a watermark -/

/-- Both lines are drawn on the page with this index. -/
def HasLines (ctx : WatermarkContext) (pages : List PageSize) (index : Nat) : Prop :=
  ∃ t ∈ drawPages ctx pages, ∃ t' ∈ drawPages ctx pages,
    t.page = index ∧ t.text = line1 ctx ∧ t'.page = index ∧ t'.text = line2 ctx

/-- The bytes are the data as pdf-lib writes it, with both lines on each of its pages. -/
structure Watermarked (data : Bytes) (ctx : WatermarkContext) (result : Bytes) : Prop where
  written : ∃ doc doc', pdf.load data = some doc ∧ pdf.embedFont doc = some doc' ∧ pdf.pages doc' ≠ [] ∧
    pdf.save doc' (drawPages ctx (pdf.pages doc')) = some result ∧
    ∀ index < (pdf.pages doc').length, HasLines ctx (pdf.pages doc') index
  fresh : result ≠ data

/-- A PDF that pdf-lib can read, write both lines on, with a tile on every page, and write out again. -/
structure Markable (data : Bytes) (ctx : WatermarkContext) (contentType : Option String) : Prop where
  type : isPdfType contentType = true
  header : isPdfHeader data = true
  encodes : pdf.encodes (line1 ctx) = true ∧ pdf.encodes (line2 ctx) = true
  rewrites : ∃ doc doc', pdf.load data = some doc ∧ pdf.embedFont doc = some doc' ∧ pdf.pages doc' ≠ [] ∧
    (∀ page ∈ pdf.pages doc', tiles page ≠ []) ∧ (pdf.save doc' (drawPages ctx (pdf.pages doc'))).isSome = true

variable {pdf} {data result : Bytes} {ctx : WatermarkContext} {contentType : Option String}

theorem applyPdfWatermark_some : applyPdfWatermark pdf data ctx = some result ↔
    ∃ doc doc', pdf.load data = some doc ∧
    pdf.embedFont doc = some doc' ∧ (∀ t ∈ drawPages ctx (pdf.pages doc'), pdf.encodes t.text = true) ∧
    pdf.save doc' (drawPages ctx (pdf.pages doc')) = some result := by
  unfold applyPdfWatermark
  simp only [Option.bind_eq_bind, Option.bind_eq_some_iff]
  constructor
  · rintro ⟨doc, hload, doc', hfont, h⟩
    split at h
    · rename_i hall
      exact ⟨doc, doc', hload, hfont, List.all_eq_true.mp hall, h⟩
    · cases h
  · rintro ⟨doc, doc', hload, hfont, hall, h⟩
    exact ⟨doc, hload, doc', hfont, by rw [if_pos (List.all_eq_true.mpr hall), h]⟩

theorem mem_drawPages {pages : List PageSize} {t : DrawnText} : t ∈ drawPages ctx pages ↔
    ∃ page, pages[t.page]? = some page ∧ ∃ tile ∈ tiles page, t ∈ drawTile ctx t.page page tile := by
  simp only [drawPages, List.mem_flatMap, Prod.exists, List.mem_zipIdx_iff_getElem?]
  constructor
  · rintro ⟨page, index, hpage, baseX, baseY, htile, ht⟩
    have hindex : t.page = index := by
      simp only [drawTile, List.mem_cons, List.not_mem_nil, or_false] at ht
      rcases ht with rfl | rfl <;> rfl
    subst hindex
    exact ⟨page, hpage, baseX, baseY, htile, ht⟩
  · rintro ⟨page, hpage, baseX, baseY, htile, ht⟩
    exact ⟨page, t.page, hpage, baseX, baseY, htile, ht⟩

theorem lines_iff {pages : List PageSize} {index : Nat} (h : index < pages.length) :
    HasLines ctx pages index ↔ tiles pages[index] ≠ [] := by
  constructor
  · rintro ⟨t, ht, _, _, rfl, _⟩ hnone
    obtain ⟨page, hpage, tile, htile, _⟩ := mem_drawPages.mp ht
    rw [List.getElem?_eq_getElem h] at hpage
    rw [← Option.some.inj hpage, hnone] at htile
    cases htile
  · intro hne
    obtain ⟨tile, htile⟩ := List.exists_mem_of_ne_nil _ hne
    have hmem : ∀ t ∈ drawTile ctx index pages[index] tile, t.page = index → t ∈ drawPages ctx pages := by
      rintro t ht rfl
      exact mem_drawPages.mpr ⟨_, List.getElem?_eq_getElem h, tile, htile, ht⟩
    exact ⟨_, hmem _ List.mem_cons_self rfl, _, hmem _ (List.mem_cons_of_mem _ List.mem_cons_self) rfl,
      rfl, rfl, rfl, rfl⟩

theorem lines_of_tiles {pages : List PageSize} (h : ∀ page ∈ pages, tiles page ≠ []) :
    ∀ index < pages.length, HasLines ctx pages index :=
  fun _ hindex => (lines_iff hindex).mpr (h _ (List.getElem_mem hindex))

theorem text_drawn {pages : List PageSize} {t : DrawnText} (h : t ∈ drawPages ctx pages) :
    t.text = line1 ctx ∨ t.text = line2 ctx := by
  obtain ⟨_, _, _, _, ht⟩ := mem_drawPages.mp h
  simp only [drawTile, List.mem_cons, List.not_mem_nil, or_false] at ht
  rcases ht with ht | ht
  · exact .inl (by rw [ht])
  · exact .inr (by rw [ht])

theorem markable_of_written (h : Watermarked pdf data ctx (applyWatermark pdf data ctx contentType)) :
    Markable pdf data ctx contentType := by
  unfold applyWatermark at h
  by_cases htype : isPdfType contentType = true
  · by_cases hheader : isPdfHeader data = true
    · rw [if_pos htype, if_pos hheader] at h
      cases happly : applyPdfWatermark pdf data ctx with
      | none => exact absurd (by rw [happly]; rfl) h.fresh
      | some saved =>
        rw [happly, Option.getD_some] at h
        obtain ⟨doc, doc', hload, hfont, hpages, hsave, hlines⟩ := h.written
        obtain ⟨_, _, hl, hf, hall, _⟩ := applyPdfWatermark_some.mp happly
        obtain rfl := Option.some.inj (hl.symm.trans hload)
        obtain rfl := Option.some.inj (hf.symm.trans hfont)
        obtain ⟨t, ht, t', ht', _, htext, _, htext'⟩ := hlines 0 (List.length_pos_iff.mpr hpages)
        refine ⟨htype, hheader, ⟨htext ▸ hall t ht, htext' ▸ hall t' ht'⟩, _, _, hload, hfont,
          hpages, ?_, by rw [hsave]; rfl⟩
        intro page hpage
        obtain ⟨index, hindex, rfl⟩ := List.getElem_of_mem hpage
        exact (lines_iff hindex).mp (hlines index hindex)
    · rw [if_pos htype, if_neg hheader] at h
      exact absurd rfl h.fresh
  · rw [if_neg htype] at h
    exact absurd rfl h.fresh

theorem written_of_markable (h : Markable pdf data ctx contentType) :
    Watermarked pdf data ctx (applyWatermark pdf data ctx contentType) := by
  obtain ⟨htype, hheader, ⟨hline1, hline2⟩, doc, doc', hload, hfont, hpages, htiles, hsave⟩ := h
  obtain ⟨saved, hsave⟩ := Option.isSome_iff_exists.mp hsave
  have hall : ∀ t ∈ drawPages ctx (pdf.pages doc'), pdf.encodes t.text = true := by
    intro t ht
    rcases text_drawn ht with htext | htext
    · rw [htext, hline1]
    · rw [htext, hline2]
  have happly : applyPdfWatermark pdf data ctx = some saved :=
    applyPdfWatermark_some.mpr ⟨doc, doc', hload, hfont, hall, hsave⟩
  unfold applyWatermark
  rw [if_pos htype, if_pos hheader, happly, Option.getD_some]
  have hlines : ∀ index < (pdf.pages doc').length, HasLines ctx (pdf.pages doc') index := lines_of_tiles htiles
  refine ⟨⟨doc, doc', hload, hfont, hpages, hsave, hlines⟩, ?_⟩
  obtain ⟨t, ht, _⟩ := hlines 0 (List.length_pos_iff.mpr hpages)
  exact pdf.marked data doc doc' _ saved hload hfont (List.ne_nil_of_mem ht) hsave

/-- What goes out is a watermarked rendition exactly when the data is a PDF that can be marked. -/
theorem watermarked_iff : Watermarked pdf data ctx (applyWatermark pdf data ctx contentType) ↔
    Markable pdf data ctx contentType := ⟨markable_of_written, written_of_markable⟩

end WatermarkService

def samplePdf : PdfLib where
  Doc := Bytes
  load data := some data
  embedFont doc := some doc
  pages _ := [⟨595, 842⟩]
  encodes text := text.toList.all (·.toNat < 128)
  save doc drawn := some (doc ++ drawn.map fun _ => 0)
  marked := by
    rintro data _ _ drawn _ ⟨⟩ ⟨⟩ hne ⟨⟩ hsame
    exact hne (List.map_eq_nil_iff.mp (List.append_right_eq_self.mp hsame))

end DocVault
