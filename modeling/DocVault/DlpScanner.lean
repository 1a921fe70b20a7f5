import DocVault.Encoding
import DocVault.JsRegex

/-!
# The scan for sensitive text

The document service reads the text of an upload and matches it with a list of
rules.
-/

namespace DocVault

open Regex

/-! ## Rules -/

inductive DlpFindingType where
  | EMAIL | PHONE | NATIONAL_ID | KEYWORD
  deriving DecidableEq, Repr

inductive DlpSeverity where
  | LOW | MEDIUM | HIGH
  deriving DecidableEq, Repr

structure DlpFinding where
  type : DlpFindingType
  pattern : String
  severity : DlpSeverity
  count : Nat
  deriving DecidableEq, Repr

inductive DlpScanResult where
  | CLEAR
  | DETECTED (findings : List DlpFinding) (suggestedClassification : String)
  deriving DecidableEq, Repr

def DlpScanResult.detected : DlpScanResult → Bool
  | CLEAR => false
  | DETECTED _ _ => true

structure Rule where
  type : DlpFindingType
  pattern : String
  severity : DlpSeverity
  regex : Regex Nat

namespace DlpScanner

/-- `/\b[A-Z0-9._%+-]+@[A-Z0-9.-]+\.[A-Z]{2,}\b/gi` -/
def email : Rule := ⟨.EMAIL, "email address", .MEDIUM, ignoreCase (chain
  [.boundary, plus fun u => (65 ≤ u && u ≤ 90) || isDigit u || isOneOf "._%+-" u, text "@",
    plus fun u => (65 ≤ u && u ≤ 90) || isDigit u || isOneOf ".-" u, text ".",
    times (.one fun u => 65 ≤ u && u ≤ 90) 2, .rep true none (.one fun u => 65 ≤ u && u ≤ 90), .boundary])⟩

/-- `/\b(?:\+?84|0)(?:\d[\s.-]?){8,10}\b/g` -/
def phone : Rule :=
  let digit := .seq (.one isDigit) (.rep true (some 1) (.one fun u => isBlank u || isOneOf ".-" u))
  ⟨.PHONE, "phone number", .MEDIUM, chain
    [.boundary, .alt (.seq (.rep true (some 1) (text "+")) (text "84")) (text "0"), times digit 8,
      .rep true (some 2) digit, .boundary]⟩

/-- `/\b(?:\d{9}|\d{12})\b/g` -/
def nationalId : Rule := ⟨.NATIONAL_ID, "national id", .HIGH, chain
  [.boundary, .alt (times (.one isDigit) 9) (times (.one isDigit) 12), .boundary]⟩

/-- `/\bsecret\b/gi` -/
def secret : Rule := ⟨.KEYWORD, "secret", .HIGH, ignoreCase (chain [.boundary, text "secret", .boundary])⟩

/-- `/\bconfidential\b/gi` -/
def confidential : Rule :=
  ⟨.KEYWORD, "confidential", .HIGH, ignoreCase (chain [.boundary, text "confidential", .boundary])⟩

/-- `/\binternal\s+only\b/gi` -/
def internalOnly : Rule := ⟨.KEYWORD, "internal only", .MEDIUM, ignoreCase (chain
  [.boundary, text "internal", plus isBlank, text "only", .boundary])⟩

def RULES : List Rule := [email, phone, nationalId, secret, confidential, internalOnly]

def MAX_SCAN_CHARS : Nat := 1000000

/-! ## The text of a document -/

def digitValue (u : Nat) : Nat := if isDigit u then u - 48 else if 97 ≤ u then u - 87 else u - 55

/-- `Number(code)` and `parseInt(code, 16)` of digits. Beyond `2 ^ 53`, where
these round, the value is no code point either way. -/
def numeral (base : Nat) (ds : Text) : Nat := ds.foldl (fun n u => n * base + digitValue u) 0

/-- `String.fromCodePoint`, which throws beyond the last code point. -/
def fromCodePoint (n : Nat) : Option Text :=
  if 0x10FFFF < n then none
  else if n < 0x10000 then some [n]
  else some [0xD800 + (n - 0x10000) / 0x400, 0xDC00 + (n - 0x10000) % 0x400]

def decimalReference : Regex Nat := chain [text "&#", plus isDigit, text ";"]

def hexReference : Regex Nat := chain [text "&#x", plus isHexDigit, text ";"]

-- The group of a reference is what stands between its opening and the semicolon.
def decodeXmlEntities (value : Text) : Option Text := do
  let value := replaceAll isWord (text "&lt;") (fun _ => utf16 "<") value
  let value := replaceAll isWord (text "&gt;") (fun _ => utf16 ">") value
  let value := replaceAll isWord (text "&quot;") (fun _ => utf16 "\"") value
  let value := replaceAll isWord (text "&apos;") (fun _ => utf16 "'") value
  let value ← replaceAllM isWord decimalReference
    (fun w => fromCodePoint (numeral 10 (w.drop 2).dropLast)) value
  let value ← replaceAllM isWord hexReference
    (fun w => fromCodePoint (numeral 16 (w.drop 3).dropLast)) value
  return replaceAll isWord (text "&amp;") (fun _ => utf16 "&") value

/-- `/<w:(?:br|tab|cr)\b[^>]*\/?>/g` -/
def breakTag : Regex Nat := chain
  [text "<w:", .alt (text "br") (.alt (text "tab") (text "cr")), .boundary,
    .rep true none (.one fun u => !isOneOf ">" u), .rep true (some 1) (text "/"), text ">"]

/-- `/<w:t\b[^>]*>/` -/
def openRun : Regex Nat :=
  chain [text "<w:t", .boundary, .rep true none (.one fun u => !isOneOf ">" u), text ">"]

def closeRun : Regex Nat := text "</w:t>"

/-- `/<w:t\b[^>]*>([\s\S]*?)<\/w:t>/g` -/
def runElement : Regex Nat := chain [openRun, .rep false none (.one fun _ => true), closeRun]

def extractDocxXmlText (xml : Text) : Option Text :=
  let withBreaks := replaceAll isWord breakTag (fun _ => utf16 " ")
    (replaceAll isWord (text "</w:p>") (fun _ => utf16 "\n") xml)
  let runs := matchAll isWord runElement withBreaks
  let text := (utf16 " ").intercalate
    (runs.map fun run => replace isWord closeRun (fun _ => []) (replace isWord openRun (fun _ => []) run))
  decodeXmlEntities text

/-- An opened PDF. Its items carry a text or none; `none` for a page is a throw. -/
structure Pdf where
  pages : List (Option (List (Option Text)))
  cleanup : Option Unit

/-- The packages that open a file, `none` where they throw. The entry is `word/document.xml`. -/
structure Packages where
  getDocument : Bytes → Option Pdf
  documentEntry : Bytes → Option (Option Text)

def readPages (pageTexts : List Text) : List (Option (List (Option Text))) → Option (List Text)
  | [] => some pageTexts
  | page :: pages => page.bind fun items =>
    let pageTexts := pageTexts ++ [(utf16 " ").intercalate (items.map fun item => item.getD [])]
    if MAX_SCAN_CHARS < ((utf16 "\n").intercalate pageTexts).length then some pageTexts
    else readPages pageTexts pages

variable (packages : Packages)

def extractPdfText (buffer : Bytes) : Text :=
  let attempt := do
    let pdf ← packages.getDocument buffer
    let pageTexts ← readPages [] pdf.pages
    pdf.cleanup
    return (utf16 "\n").intercalate pageTexts
  attempt.getD []

def PDF_MAGIC : Text := utf16 "%PDF-"

def DOCX_MIME : String := "application/vnd.openxmlformats-officedocument.wordprocessingml.document"

def ZIP_MAGIC : Text := utf16 "PK"

def startsWithMagic (buffer : Bytes) (magic : Text) : Bool := (buffer.take magic.length).map (·.toNat) = magic

def isPdf (buffer : Bytes) (mimeType : Option String) : Bool :=
  mimeType = some "application/pdf" || startsWithMagic buffer PDF_MAGIC

def isDocx (mimeType : Option String) : Bool := mimeType = some DOCX_MIME

def isTextLike : Option String → Bool
  | none => false
  | some mimeType => mimeType.startsWith "text/" || mimeType = "application/json" ||
      mimeType = "application/xml" || mimeType = "application/csv"

def extractDocxText (buffer : Bytes) : Text :=
  let attempt := do
    if !startsWithMagic buffer ZIP_MAGIC then return []
    match ← packages.documentEntry buffer with
    | none => return []
    | some xml => return (← extractDocxXmlText xml).take MAX_SCAN_CHARS
  attempt.getD []

def extractText (buffer : Bytes) (mimeType : Option String) : Option Text :=
  if isPdf buffer mimeType then some (extractPdfText packages buffer)
  else if isDocx mimeType then some (extractDocxText packages buffer)
  else if isTextLike mimeType then
    some ((Encoding.utf8Decode (buffer.take MAX_SCAN_CHARS)).flatMap utf16Units)
  else none

def Rule.matches (rule : Rule) (content : Text) : List Text := matchAll isWord rule.regex content

def findingsOf (content : Text) : List DlpFinding :=
  RULES.flatMap fun rule =>
    let found := Rule.matches rule content
    if found.length = 0 then [] else [⟨rule.type, rule.pattern, rule.severity, found.length⟩]

def scan (buffer : Bytes) (mimeType : Option String) : DlpScanResult :=
  match extractText packages buffer mimeType with
  | none => .CLEAR
  | some text =>
    let findings := findingsOf (text.take MAX_SCAN_CHARS)
    if findings.length = 0 then .CLEAR else .DETECTED findings "CONFIDENTIAL"

end DlpScanner

end DocVault
