import DocVault.Js
import Mathlib.Data.List.TakeDrop
import Mathlib.Data.List.TakeWhile

/-!
# JSON.parse

The parser of the language over the characters of a text, and that it inverts
`JSON.stringify`. A parsed object lists its members as the text does, and
`prop` reads the last one of a name; a number keeps the text of its literal.
-/

namespace DocVault

namespace Json

def isWhitespace (c : Char) : Bool := c = ' ' || c = '\t' || c = '\n' || c = '\r'

def skipSpace (cs : List Char) : List Char := cs.dropWhile isWhitespace

/-! ## Strings -/

/-- The value of a code unit that is a hexadecimal digit. -/
def hexValue (u : Nat) : Option Nat :=
  if 48 ≤ u ∧ u ≤ 57 then some (u - 48)
  else if 97 ≤ u ∧ u ≤ 102 then some (u - 87)
  else if 65 ≤ u ∧ u ≤ 70 then some (u - 55)
  else none

def hexUnit (a b c d : Nat) : Option Nat := do
  let a ← hexValue a
  let b ← hexValue b
  let c ← hexValue c
  let d ← hexValue d
  some (((a * 16 + b) * 16 + c) * 16 + d)

def escaped : Char → Option Nat
  | '"' => some 34
  | '\\' => some 92
  | '/' => some 47
  | 'b' => some 8
  | 'f' => some 12
  | 'n' => some 10
  | 'r' => some 13
  | 't' => some 9
  | _ => none

def prepend (units : List Nat) (parsed : List Nat × List Char) : List Nat × List Char :=
  (units ++ parsed.1, parsed.2)

/-- The UTF-16 code units up to the closing quote, and what follows it. -/
def stringUnits : List Char → Option (List Nat × List Char)
  | [] => none
  | '"' :: rest => some ([], rest)
  | '\\' :: 'u' :: a :: b :: c :: d :: rest => do
    let unit ← hexUnit a.toNat b.toNat c.toNat d.toNat
    (stringUnits rest).map (prepend [unit])
  | '\\' :: e :: rest => do
    let unit ← escaped e
    (stringUnits rest).map (prepend [unit])
  | c :: rest => if c.toNat < 32 ∨ c = '\\' then none else (stringUnits rest).map (prepend (utf16Units c))

def unitChar (unit : Nat) : Char := if 0xD800 ≤ unit ∧ unit < 0xE000 then '\ufffd' else Char.ofNat unit

/-- The characters of UTF-16 code units. A surrogate that stands alone is replaced. -/
def ofUtf16 : List Nat → List Char
  | [] => []
  | [unit] => [unitChar unit]
  | high :: low :: units =>
    if 0xD800 ≤ high ∧ high < 0xDC00 ∧ 0xDC00 ≤ low ∧ low < 0xE000 then
      Char.ofNat (0x10000 + (high - 0xD800) * 0x400 + (low - 0xDC00)) :: ofUtf16 units
    else unitChar high :: ofUtf16 (low :: units)

def parseString (cs : List Char) : Option (String × List Char) :=
  (stringUnits cs).map fun parsed => (String.ofList (ofUtf16 parsed.1), parsed.2)

/-! ## Numbers -/

def digits (cs : List Char) : List Char × List Char := cs.span Char.isDigit

def intPart (cs : List Char) : Option (List Char × List Char) :=
  match digits cs with
  | ([], _) => none
  | ('0' :: _ :: _, _) => none
  | (int, rest) => some (int, rest)

def fraction : List Char → Option (List Char × List Char)
  | '.' :: cs =>
    match digits cs with
    | ([], _) => none
    | (fraction, rest) => some ('.' :: fraction, rest)
  | cs => some ([], cs)

def exponentDigits (mark : List Char) (cs : List Char) : Option (List Char × List Char) :=
  match digits cs with
  | ([], _) => none
  | (exponent, rest) => some (mark ++ exponent, rest)

def exponent : List Char → Option (List Char × List Char)
  | e :: cs =>
    if e = 'e' ∨ e = 'E' then
      match cs with
      | '+' :: cs => exponentDigits [e, '+'] cs
      | '-' :: cs => exponentDigits [e, '-'] cs
      | cs => exponentDigits [e] cs
    else some ([], e :: cs)
  | [] => some ([], [])

def unsigned (cs : List Char) : Option (List Char × List Char) := do
  let (int, cs) ← intPart cs
  let (fraction, cs) ← fraction cs
  let (exponent, cs) ← exponent cs
  some (int ++ fraction ++ exponent, cs)

def parseNumber : List Char → Option (String × List Char)
  | '-' :: cs => (unsigned cs).map fun parsed => (String.ofList ('-' :: parsed.1), parsed.2)
  | cs => (unsigned cs).map fun parsed => (String.ofList parsed.1, parsed.2)

/-! ## Values -/

mutual
/-- A value and what follows it. Of two steps of the recursion one reads a character, so the text bounds it. -/
def parseValue : Nat → List Char → Option (Json × List Char)
  | 0, _ => none
  | fuel + 1, cs =>
    match skipSpace cs with
    | '"' :: rest => (parseString rest).map fun parsed => (.str parsed.1, parsed.2)
    | '\x7b' :: rest =>
      match skipSpace rest with
      | '\x7d' :: rest => some (.obj [], rest)
      | rest => (parseFields fuel rest).map fun parsed => (.obj parsed.1, parsed.2)
    | '[' :: rest =>
      match skipSpace rest with
      | ']' :: rest => some (.arr [], rest)
      | rest => (parseElems fuel rest).map fun parsed => (.arr parsed.1, parsed.2)
    | 't' :: 'r' :: 'u' :: 'e' :: rest => some (.bool true, rest)
    | 'f' :: 'a' :: 'l' :: 's' :: 'e' :: rest => some (.bool false, rest)
    | 'n' :: 'u' :: 'l' :: 'l' :: rest => some (.null, rest)
    | cs => (parseNumber cs).map fun parsed => (.num parsed.1, parsed.2)
def parseElems : Nat → List Char → Option (List Json × List Char)
  | 0, _ => none
  | fuel + 1, cs => do
    let (value, rest) ← parseValue fuel cs
    match skipSpace rest with
    | ',' :: rest => (parseElems fuel rest).map fun parsed => (value :: parsed.1, parsed.2)
    | ']' :: rest => some ([value], rest)
    | _ => none
def parseFields : Nat → List Char → Option (List (String × Json) × List Char)
  | 0, _ => none
  | fuel + 1, cs =>
    match skipSpace cs with
    | '"' :: rest => do
      let (key, rest) ← parseString rest
      match skipSpace rest with
      | ':' :: rest => do
        let (value, rest) ← parseValue fuel rest
        match skipSpace rest with
        | ',' :: rest => (parseFields fuel rest).map fun parsed => ((key, value) :: parsed.1, parsed.2)
        | '\x7d' :: rest => some ([(key, value)], rest)
        | _ => none
      | _ => none
    | _ => none
end

def parse (text : String) : Option Json := do
  let (value, rest) ← parseValue (2 * text.length + 1) text.toList
  if skipSpace rest = [] then some value else none

def prop (json : Json) (name : String) : Option Json :=
  match json with
  | .obj fields => (fields.reverse.find? (·.1 = name)).map (·.2)
  | _ => none

-- What `??` takes for absent.
def nullish : Option Json → Option Json
  | some .null => none
  | value => value

/-! ## Strings back -/

theorem hexValue_hexDigit : ∀ n < 16, hexValue (hexDigit n).toNat = some n := by decide

theorem utf16Units_small {c : Char} (h : c.toNat < 0x10000) : utf16Units c = [c.toNat] := if_pos h

theorem stringUnits_quote (rest : List Char) : stringUnits ('"' :: rest) = some ([], rest) := rfl

theorem stringUnits_hex (a b c d : Char) (rest : List Char) :
    stringUnits ('\\' :: 'u' :: a :: b :: c :: d :: rest) =
      (hexUnit a.toNat b.toNat c.toNat d.toNat).bind fun unit => (stringUnits rest).map (prepend [unit]) := rfl

theorem stringUnits_plain {c : Char} {rest : List Char} (hquote : c ≠ '"') (hslash : c ≠ '\\') (h : 32 ≤ c.toNat) :
    stringUnits (c :: rest) = (stringUnits rest).map (prepend (utf16Units c)) := by
  rw [stringUnits.eq_def]
  split
  · rename_i heq; cases heq
  · rename_i heq; cases heq; exact absurd rfl hquote
  · rename_i heq; cases heq; exact absurd rfl hslash
  · rename_i heq; cases heq; exact absurd rfl hslash
  · rename_i heq
    cases heq
    rw [if_neg]
    simp only [not_or, hslash, not_false_eq_true, and_true]
    omega

theorem stringUnits_escaped {e : Char} {unit : Nat} {rest : List Char} (hu : e ≠ 'u') (he : escaped e = some unit) :
    stringUnits ('\\' :: e :: rest) = (stringUnits rest).map (prepend [unit]) := by
  rw [stringUnits.eq_def]
  split
  · rename_i heq; cases heq
  · rename_i heq; cases heq
  · rename_i heq; cases heq; exact absurd rfl hu
  · rename_i heq; cases heq; simp [he]
  · rename_i hnot heq; cases heq; exact absurd rfl (hnot e rest rfl)

theorem stringUnits_short {c e : Char} {unit : Nat} {rest : List Char} (hu : e ≠ 'u') (hc : c.toNat = unit)
    (he : escaped e = some unit) (hunit : unit < 0x10000) :
    stringUnits ('\\' :: e :: rest) = (stringUnits rest).map (prepend (utf16Units c)) := by
  rw [utf16Units_small (hc ▸ hunit), hc]
  exact stringUnits_escaped hu he

theorem stringUnits_escapeChar (c : Char) (rest : List Char) :
    stringUnits (escapeChar c ++ rest) = (stringUnits rest).map (prepend (utf16Units c)) := by
  unfold escapeChar
  split
  · subst_vars; exact stringUnits_escaped (by decide) rfl
  split
  · subst_vars; exact stringUnits_escaped (by decide) rfl
  split
  · rename_i h; exact stringUnits_short (by decide) h rfl (by decide)
  split
  · rename_i h; exact stringUnits_short (by decide) h rfl (by decide)
  split
  · rename_i h; exact stringUnits_short (by decide) h rfl (by decide)
  split
  · rename_i h; exact stringUnits_short (by decide) h rfl (by decide)
  split
  · rename_i h; exact stringUnits_short (by decide) h rfl (by decide)
  split
  · rename_i h
    have h0 : hexValue '0'.toNat = some 0 := by decide
    have hhigh := hexValue_hexDigit (c.toNat / 16) (by omega)
    have hlow := hexValue_hexDigit (c.toNat % 16) (by omega)
    have hunit : hexUnit '0'.toNat '0'.toNat (hexDigit (c.toNat / 16)).toNat (hexDigit (c.toNat % 16)).toNat =
        some c.toNat := by
      simp only [hexUnit, h0, hhigh, hlow, Option.bind_eq_bind, Option.bind_some, Option.some.injEq]
      omega
    rw [utf16Units_small (by omega)]
    simp only [List.cons_append, List.nil_append, stringUnits_hex, hunit, Option.bind_some]
  · rename_i hquote hslash _ _ _ _ _ h
    exact stringUnits_plain hquote hslash (by omega)

theorem stringUnits_escapes (cs rest : List Char) :
    stringUnits (cs.flatMap escapeChar ++ '"' :: rest) = some (cs.flatMap utf16Units, rest) := by
  induction cs with
  | nil => exact stringUnits_quote rest
  | cons c cs ih =>
    rw [List.flatMap_cons, List.append_assoc, stringUnits_escapeChar, ih]
    rfl

theorem ofUtf16_units (c : Char) (units : List Nat) : ofUtf16 (utf16Units c ++ units) = c :: ofUtf16 units := by
  have hvalid := c.valid
  unfold utf16Units
  split
  · rename_i h
    have hscalar : ¬(0xD800 ≤ c.toNat ∧ c.toNat < 0xE000) := by
      rcases hvalid with hv | hv
      · have : c.toNat < 0xD800 := hv
        omega
      · have : 0xDFFF < c.toNat := hv.1
        omega
    have hunit : unitChar c.toNat = c := by
      unfold unitChar
      rw [if_neg hscalar, Char.ofNat_toNat]
    cases units with
    | nil => simp [ofUtf16, hunit]
    | cons low units =>
      simp only [List.cons_append, List.nil_append, ofUtf16]
      rw [if_neg, hunit]
      omega
  · rename_i h
    have hmax : c.toNat < 0x110000 := by
      rcases hvalid with hv | hv
      · have : c.toNat < 0xD800 := hv
        omega
      · exact hv.2
    simp only [List.cons_append, List.nil_append, ofUtf16]
    rw [if_pos (by omega)]
    have hback : 0x10000 + (0xD800 + (c.toNat - 0x10000) / 0x400 - 0xD800) * 0x400 +
        (0xDC00 + (c.toNat - 0x10000) % 0x400 - 0xDC00) = c.toNat := by omega
    rw [hback, Char.ofNat_toNat]

theorem ofUtf16_utf16 (cs : List Char) : ofUtf16 (cs.flatMap utf16Units) = cs := by
  induction cs with
  | nil => rfl
  | cons c cs ih => rw [List.flatMap_cons, ofUtf16_units, ih]

theorem parseString_quote (s : String) (rest : List Char) :
    parseString (s.toList.flatMap escapeChar ++ '"' :: rest) = some (s, rest) := by
  unfold parseString
  rw [stringUnits_escapes]
  simp [ofUtf16_utf16]

/-! ## Numbers back -/

/-- What may follow a value in a text of `stringify`. -/
def EndsNumber (rest : List Char) : Prop := rest = [] ∨ ∃ c cs, rest = c :: cs ∧ (c = ',' ∨ c = ']' ∨ c = '\x7d')

theorem digits_ends {rest : List Char} (hr : EndsNumber rest) : digits rest = ([], rest) := by
  rcases hr with rfl | ⟨c, cs, rfl, rfl | rfl | rfl⟩ <;> simp [digits, List.span_eq_takeWhile_dropWhile]

theorem digits_append (cs : List Char) {rest : List Char} (hr : EndsNumber rest) :
    digits (cs ++ rest) = ((digits cs).1, (digits cs).2 ++ rest) := by
  induction cs with
  | nil => simpa [digits, List.span_eq_takeWhile_dropWhile] using digits_ends hr
  | cons c cs ih =>
    simp only [digits, List.span_eq_takeWhile_dropWhile, List.cons_append, Prod.mk.injEq] at ih ⊢
    by_cases hc : c.isDigit = true
    · simp [hc, ih]
    · simp [hc]

theorem digits_all {ds : List Char} (hd : ∀ c ∈ ds, c.isDigit = true) : digits ds = (ds, []) := by
  rw [digits, List.span_eq_takeWhile_dropWhile, List.takeWhile_eq_self_iff.mpr hd, List.dropWhile_eq_nil_iff.mpr hd]

-- What follows a number is no part of it, whichever part of the number it follows.

theorem intPart_append (cs : List Char) {rest : List Char} (hr : EndsNumber rest) :
    intPart (cs ++ rest) = (intPart cs).map fun parsed => (parsed.1, parsed.2 ++ rest) := by
  unfold intPart
  rw [digits_append cs hr]
  obtain ⟨int, after⟩ := digits cs
  cases int with
  | nil => rfl
  | cons c int =>
    by_cases hc : c = '0'
    · subst hc
      cases int <;> rfl
    · simp [hc]

theorem fraction_append (cs : List Char) {rest : List Char} (hr : EndsNumber rest) :
    fraction (cs ++ rest) = (fraction cs).map fun parsed => (parsed.1, parsed.2 ++ rest) := by
  cases cs with
  | nil => rcases hr with rfl | ⟨c, cs, rfl, rfl | rfl | rfl⟩ <;> rfl
  | cons c cs =>
    by_cases hc : c = '.'
    · subst hc
      simp only [List.cons_append, fraction, digits_append cs hr]
      obtain ⟨ds, after⟩ := digits cs
      cases ds <;> rfl
    · simp [fraction, hc]

theorem exponentDigits_append (mark cs : List Char) {rest : List Char} (hr : EndsNumber rest) :
    exponentDigits mark (cs ++ rest) = (exponentDigits mark cs).map fun parsed => (parsed.1, parsed.2 ++ rest) := by
  unfold exponentDigits
  rw [digits_append cs hr]
  obtain ⟨ds, after⟩ := digits cs
  cases ds <;> rfl

theorem exponent_append (cs : List Char) {rest : List Char} (hr : EndsNumber rest) :
    exponent (cs ++ rest) = (exponent cs).map fun parsed => (parsed.1, parsed.2 ++ rest) := by
  cases cs with
  | nil => rcases hr with rfl | ⟨c, cs, rfl, rfl | rfl | rfl⟩ <;> rfl
  | cons e cs =>
    rw [List.cons_append, exponent.eq_def, exponent.eq_def]
    dsimp only
    by_cases he : e = 'e' ∨ e = 'E'
    · rw [if_pos he, if_pos he]
      cases cs with
      | nil => rcases hr with rfl | ⟨c, cs, rfl, rfl | rfl | rfl⟩ <;> rfl
      | cons c cs =>
        by_cases hplus : c = '+'
        · subst hplus
          exact exponentDigits_append [e, '+'] cs hr
        · by_cases hminus : c = '-'
          · subst hminus
            exact exponentDigits_append [e, '-'] cs hr
          · simpa [hplus, hminus] using exponentDigits_append [e] (c :: cs) hr
    · simp [he]

theorem unsigned_append (cs : List Char) {rest : List Char} (hr : EndsNumber rest) :
    unsigned (cs ++ rest) = (unsigned cs).map fun parsed => (parsed.1, parsed.2 ++ rest) := by
  unfold unsigned
  rw [intPart_append cs hr]
  cases intPart cs with
  | none => rfl
  | some int =>
    simp only [Option.map_some, Option.bind_eq_bind, Option.bind_some, fraction_append int.2 hr]
    cases fraction int.2 with
    | none => rfl
    | some fraction =>
      simp only [Option.map_some, Option.bind_some, exponent_append fraction.2 hr]
      cases exponent fraction.2 with
      | none => rfl
      | some exponent => rfl

theorem parseNumber_cons {c : Char} (hc : c ≠ '-') (cs : List Char) :
    parseNumber (c :: cs) = (unsigned (c :: cs)).map fun parsed => (String.ofList parsed.1, parsed.2) := by
  rw [parseNumber.eq_def]
  split
  · rename_i h
    exact absurd (List.cons.inj h).1 hc
  · rfl

theorem parseNumber_append (cs : List Char) {rest : List Char} (hr : EndsNumber rest) :
    parseNumber (cs ++ rest) = (parseNumber cs).map fun parsed => (parsed.1, parsed.2 ++ rest) := by
  cases cs with
  | nil => rcases hr with rfl | ⟨c, cs, rfl, rfl | rfl | rfl⟩ <;> rfl
  | cons c cs =>
    by_cases hc : c = '-'
    · subst hc
      simp only [List.cons_append, parseNumber, unsigned_append cs hr, Option.map_map]
      rfl
    · have hunsigned := unsigned_append (c :: cs) hr
      rw [List.cons_append] at hunsigned ⊢
      rw [parseNumber_cons hc, parseNumber_cons hc, hunsigned, Option.map_map, Option.map_map]
      rfl

theorem digitChar_zero : ∀ n < 10, n.digitChar = '0' → n = 0 := by decide

theorem toDigits_head (n : Nat) : ∃ c cs, Nat.toDigits 10 n = c :: cs ∧ (c = '0' → n = 0) := by
  induction n using Nat.strongRecOn with
  | ind n ih =>
    rw [Nat.toDigits_eq_if (by omega)]
    split
    · rename_i h
      exact ⟨n.digitChar, [], rfl, digitChar_zero n h⟩
    · rename_i h
      obtain ⟨c, cs, heq, hzero⟩ := ih (n / 10) (by omega)
      rw [heq]
      refine ⟨c, cs ++ [(n % 10).digitChar], rfl, fun hc => ?_⟩
      have := hzero hc
      omega

theorem isDigit_toDigits (n : Nat) : ∀ c ∈ Nat.toDigits 10 n, c.isDigit = true := fun _ hc =>
  Nat.isDigit_of_mem_toDigits (by omega) (by omega) hc

theorem intPart_toDigits (n : Nat) : intPart (Nat.toDigits 10 n) = some (Nat.toDigits 10 n, []) := by
  unfold intPart
  rw [digits_all (isDigit_toDigits n)]
  obtain ⟨c, cs, heq, hzero⟩ := toDigits_head n
  rw [heq]
  split
  · rename_i h; cases h
  · rename_i h
    obtain ⟨rfl, rfl⟩ := List.cons.inj (Prod.mk.inj h).1
    rw [hzero rfl] at heq
    cases heq
  · rename_i h; cases h; rfl

theorem unsigned_toDigits (n : Nat) : unsigned (Nat.toDigits 10 n) = some (Nat.toDigits 10 n, []) := by
  simp [unsigned, intPart_toDigits n, fraction, exponent]

theorem toList_int (a : Int) : (toString a).toList = Nat.toDigits 10 a.natAbs ∨
    (toString a).toList = '-' :: Nat.toDigits 10 a.natAbs := by
  cases a with
  | ofNat n => exact .inl (by simp [Int.toString_eq_repr, Int.repr])
  | negSucc n => exact .inr (by simp [Int.toString_eq_repr, Int.repr, Nat.succ_eq_add_one])

theorem parseNumber_int (a : Int) : parseNumber (toString a).toList = some (toString a, []) := by
  rcases toList_int a with h | h
  · rw [← String.ofList_toList (s := toString a), String.toList_ofList, h]
    obtain ⟨c, cs, heq, _⟩ := toDigits_head a.natAbs
    have hunsigned := unsigned_toDigits a.natAbs
    have hdigit := isDigit_toDigits a.natAbs c (heq ▸ List.mem_cons_self)
    rw [heq] at hunsigned ⊢
    rw [parseNumber_cons (by rintro rfl; cases hdigit), hunsigned]
    rfl
  · rw [← String.ofList_toList (s := toString a), String.toList_ofList, h]
    simp [parseNumber, unsigned_toDigits a.natAbs]

/-! ## Values back -/

mutual
/-- The numbers are integers. -/
def IntNumbers : Json → Prop
  | .num text => ∃ a : Int, text = toString a
  | .arr l => IntElems l
  | .obj fields => IntFields fields
  | _ => True
def IntElems : List Json → Prop
  | [] => True
  | value :: l => value.IntNumbers ∧ IntElems l
def IntFields : List (String × Json) → Prop
  | [] => True
  | (_, value) :: fields => value.IntNumbers ∧ IntFields fields
end

mutual
/-- Every number is a text that reads as a number. -/
def Written : Json → Prop
  | .num text => parseNumber text.toList = some (text, [])
  | .arr l => WrittenElems l
  | .obj fields => WrittenFields fields
  | _ => True
def WrittenElems : List Json → Prop
  | [] => True
  | value :: l => value.Written ∧ WrittenElems l
def WrittenFields : List (String × Json) → Prop
  | [] => True
  | (_, value) :: fields => value.Written ∧ WrittenFields fields
end

mutual
theorem written_of_int : ∀ j : Json, j.IntNumbers → j.Written
  | .null, _ => trivial
  | .bool _, _ => trivial
  | .num _, ⟨a, h⟩ => h ▸ parseNumber_int a
  | .str _, _ => trivial
  | .arr l, h => writtenElems_of_int l h
  | .obj fields, h => writtenFields_of_int fields h
theorem writtenElems_of_int : ∀ l : List Json, IntElems l → WrittenElems l
  | [], _ => trivial
  | value :: l, h => ⟨written_of_int value h.1, writtenElems_of_int l h.2⟩
theorem writtenFields_of_int : ∀ fields : List (String × Json), IntFields fields → WrittenFields fields
  | [], _ => trivial
  | (_, value) :: fields, h => ⟨written_of_int value h.1, writtenFields_of_int fields h.2⟩
end

theorem skipSpace_cons {c : Char} {cs : List Char} (h : isWhitespace c = false) :
    skipSpace (c :: cs) = c :: cs := by
  simp [skipSpace, h]

theorem num_head {cs : List Char} {parsed : String × List Char} (h : parseNumber cs = some parsed) :
    ∃ c rest, cs = c :: rest ∧ (c = '-' ∨ c.isDigit = true) := by
  cases cs with
  | nil => cases h
  | cons c cs =>
    refine ⟨c, cs, rfl, ?_⟩
    by_cases hc : c = '-'
    · exact .inl hc
    · refine .inr ?_
      rw [parseNumber_cons hc] at h
      by_cases hd : c.isDigit = true
      · exact hd
      · have hdigits : digits (c :: cs) = ([], c :: cs) := by simp [digits, List.span_eq_takeWhile_dropWhile, hd]
        simp [unsigned, intPart, hdigits] at h

theorem number_head {c : Char} (h : c = '-' ∨ c.isDigit = true) : isWhitespace c = false ∧ c ≠ ']' ∧ c ≠ '"' ∧
    c ≠ '\x7b' ∧ c ≠ '[' ∧ c ≠ 't' ∧ c ≠ 'f' ∧ c ≠ 'n' := by
  rcases h with rfl | h
  · decide
  · refine ⟨?_, ?_, ?_, ?_, ?_, ?_, ?_, ?_⟩
    · unfold isWhitespace
      simp only [Bool.or_eq_false_iff, decide_eq_false_iff_not]
      refine ⟨⟨⟨?_, ?_⟩, ?_⟩, ?_⟩ <;> rintro rfl <;> cases h
    all_goals rintro rfl; cases h

theorem stringify_head (j : Json) (hj : j.Written) :
    ∃ c cs, j.stringify.toList = c :: cs ∧ isWhitespace c = false ∧ c ≠ ']' := by
  cases j with
  | null => exact ⟨_, _, rfl, by decide, by decide⟩
  | bool b => cases b <;> exact ⟨_, _, rfl, by decide, by decide⟩
  | num text =>
    obtain ⟨c, cs, heq, h⟩ := num_head hj
    exact ⟨c, cs, heq, (number_head h).1, (number_head h).2.1⟩
  | str s => exact ⟨'"', _, by simp [stringify, quote]; rfl, by decide, by decide⟩
  | arr l => exact ⟨'[', _, by simp [stringify]; rfl, by decide, by decide⟩
  | obj fields => exact ⟨'\x7b', _, by simp [stringify]; rfl, by decide, by decide⟩

theorem elems_head (l : List Json) (hl : WrittenElems l) (hne : l ≠ []) :
    ∃ c cs, (stringifyElems l).toList = c :: cs ∧ isWhitespace c = false ∧ c ≠ ']' := by
  cases l with
  | nil => exact absurd rfl hne
  | cons x l =>
    obtain ⟨c, cs, heq, h⟩ := stringify_head x hl.1
    cases l with
    | nil => exact ⟨c, cs, heq, h⟩
    | cons y l => exact ⟨c, _, by simp only [stringifyElems, String.toList_append, heq, List.cons_append]; rfl, h⟩

theorem fields_head (k : String) (v : Json) (fs : List (String × Json)) :
    ∃ cs, (stringifyFields ((k, v) :: fs)).toList = '"' :: cs := by
  cases fs <;> exact ⟨_, by simp [stringifyFields, quote]; rfl⟩

theorem parseValue_num {text : String} (hn : parseNumber text.toList = some (text, []))
    (fuel : Nat) {rest : List Char}
    (hr : EndsNumber rest) : parseValue (fuel + 1) (text.toList ++ rest) = some (.num text, rest) := by
  have hparsed : parseNumber (text.toList ++ rest) = some (text, rest) := by
    rw [parseNumber_append _ hr, hn]
    rfl
  obtain ⟨c, cs, heq, h⟩ := num_head hn
  obtain ⟨hspace, _, hquote, hbrace, hbracket, ht, hf, hn⟩ := number_head h
  rw [heq, List.cons_append] at hparsed ⊢
  rw [parseValue, skipSpace_cons hspace]
  split
  · rename_i heq; cases heq; exact absurd rfl hquote
  · rename_i heq; cases heq; exact absurd rfl hbrace
  · rename_i heq; cases heq; exact absurd rfl hbracket
  · rename_i heq; exact absurd (List.cons.inj heq).1 ht
  · rename_i heq; exact absurd (List.cons.inj heq).1 hf
  · rename_i heq; exact absurd (List.cons.inj heq).1 hn
  · rw [hparsed]
    rfl

theorem toList_quote (s : String) (rest : List Char) :
    (quote s).toList ++ rest = '"' :: (s.toList.flatMap escapeChar ++ '"' :: rest) := by
  simp [quote]

theorem endsNumber_cons {c : Char} {cs : List Char} (h : c = ',' ∨ c = ']' ∨ c = '\x7d') : EndsNumber (c :: cs) :=
  .inr ⟨c, cs, rfl, h⟩

/-- A value that its first characters tell. -/
theorem parseValue_starts (fuel : Nat) (rest : List Char) :
    (parseValue (fuel + 1) ('"' :: rest) = (parseString rest).map fun parsed => (.str parsed.1, parsed.2)) ∧
      parseValue (fuel + 1) ('\x7b' :: '\x7d' :: rest) = some (.obj [], rest) ∧
      parseValue (fuel + 1) ('[' :: ']' :: rest) = some (.arr [], rest) ∧
      parseValue (fuel + 1) ('t' :: 'r' :: 'u' :: 'e' :: rest) = some (.bool true, rest) ∧
      parseValue (fuel + 1) ('f' :: 'a' :: 'l' :: 's' :: 'e' :: rest) = some (.bool false, rest) ∧
      parseValue (fuel + 1) ('n' :: 'u' :: 'l' :: 'l' :: rest) = some (.null, rest) :=
  ⟨rfl, rfl, rfl, rfl, rfl, rfl⟩

/-! One step of each of the three parsers, from what the steps below it read. -/

section
variable {fuel : Nat} {rest : List Char}

theorem parseValue_open {c : Char} {cs : List Char} (hspace : isWhitespace c = false) :
    (c ≠ ']' → parseValue (fuel + 1) ('[' :: c :: cs) =
        (parseElems fuel (c :: cs)).map fun parsed => (.arr parsed.1, parsed.2)) ∧
      (c ≠ '\x7d' → parseValue (fuel + 1) ('\x7b' :: c :: cs) =
        (parseFields fuel (c :: cs)).map fun parsed => (.obj parsed.1, parsed.2)) := by
  constructor
  · intro hclose
    rw [parseValue, skipSpace_cons (by decide)]
    simp only [skipSpace_cons hspace]
    split
    · rename_i h; exact absurd (List.cons.inj h).1 hclose
    · rfl
  · intro hclose
    rw [parseValue, skipSpace_cons (by decide)]
    simp only [skipSpace_cons hspace]
    split
    · rename_i h; exact absurd (List.cons.inj h).1 hclose
    · rfl

theorem parseValue_arr {l : List Json} (hl : WrittenElems l) (hne : l ≠ [])
    (hread : parseElems fuel ((stringifyElems l).toList ++ ']' :: rest) = some (l, rest)) :
    parseValue (fuel + 1) ((Json.arr l).stringify.toList ++ rest) = some (.arr l, rest) := by
  have htext : (Json.arr l).stringify.toList ++ rest = '[' :: ((stringifyElems l).toList ++ ']' :: rest) := by
    simp [stringify]
  obtain ⟨c, cs, heq, hspace, hclose⟩ := elems_head l hl hne
  rw [heq, List.cons_append] at hread htext
  rw [htext, (parseValue_open hspace).1 hclose, hread]
  rfl

theorem parseValue_obj {k : String} {v : Json} {fs : List (String × Json)}
    (hread : parseFields fuel ((stringifyFields ((k, v) :: fs)).toList ++ '\x7d' :: rest) =
      some ((k, v) :: fs, rest)) :
    parseValue (fuel + 1) ((Json.obj ((k, v) :: fs)).stringify.toList ++ rest) =
      some (.obj ((k, v) :: fs), rest) := by
  have htext : (Json.obj ((k, v) :: fs)).stringify.toList ++ rest =
      '\x7b' :: ((stringifyFields ((k, v) :: fs)).toList ++ '\x7d' :: rest) := by simp [stringify]
  obtain ⟨cs, heq⟩ := fields_head k v fs
  rw [heq, List.cons_append] at hread htext
  rw [htext, (parseValue_open (by decide)).2 (by decide), hread]
  rfl

theorem parseElems_one {x : Json}
    (hread : parseValue fuel (x.stringify.toList ++ ']' :: rest) = some (x, ']' :: rest)) :
    parseElems (fuel + 1) ((stringifyElems [x]).toList ++ ']' :: rest) = some ([x], rest) := by
  simp only [stringifyElems, parseElems, hread, Option.bind_eq_bind, Option.bind_some]
  simp [skipSpace, isWhitespace]

theorem parseElems_cons {x y : Json} {l : List Json}
    (hread : parseValue fuel (x.stringify.toList ++ ',' :: ((stringifyElems (y :: l)).toList ++ ']' :: rest)) =
      some (x, ',' :: ((stringifyElems (y :: l)).toList ++ ']' :: rest)))
    (hrest : parseElems fuel ((stringifyElems (y :: l)).toList ++ ']' :: rest) = some (y :: l, rest)) :
    parseElems (fuel + 1) ((stringifyElems (x :: y :: l)).toList ++ ']' :: rest) = some (x :: y :: l, rest) := by
  have htext : (stringifyElems (x :: y :: l)).toList ++ ']' :: rest =
      x.stringify.toList ++ ',' :: ((stringifyElems (y :: l)).toList ++ ']' :: rest) := by simp [stringifyElems]
  rw [htext, parseElems, hread]
  simp only [Option.bind_eq_bind, Option.bind_some, skipSpace_cons (by decide : isWhitespace ',' = false)]
  rw [hrest]
  rfl

theorem parseFields_one {k : String} {v : Json}
    (hread : parseValue fuel (v.stringify.toList ++ '\x7d' :: rest) = some (v, '\x7d' :: rest)) :
    parseFields (fuel + 1) ((stringifyFields [(k, v)]).toList ++ '\x7d' :: rest) = some ([(k, v)], rest) := by
  have htext : (stringifyFields [(k, v)]).toList ++ '\x7d' :: rest =
      '"' :: (k.toList.flatMap escapeChar ++ '"' :: (':' :: (v.stringify.toList ++ '\x7d' :: rest))) := by
    simp [stringifyFields, quote]
  rw [htext, parseFields, skipSpace_cons (by decide)]
  simp only [parseString_quote, Option.bind_eq_bind, Option.bind_some,
    skipSpace_cons (by decide : isWhitespace ':' = false), hread]
  simp [skipSpace, isWhitespace]

theorem parseFields_cons {k : String} {v : Json} {f : String × Json} {fs : List (String × Json)}
    (hread : parseValue fuel (v.stringify.toList ++ ',' :: ((stringifyFields (f :: fs)).toList ++ '\x7d' :: rest)) =
      some (v, ',' :: ((stringifyFields (f :: fs)).toList ++ '\x7d' :: rest)))
    (hrest : parseFields fuel ((stringifyFields (f :: fs)).toList ++ '\x7d' :: rest) = some (f :: fs, rest)) :
    parseFields (fuel + 1) ((stringifyFields ((k, v) :: f :: fs)).toList ++ '\x7d' :: rest) =
      some ((k, v) :: f :: fs, rest) := by
  have htext : (stringifyFields ((k, v) :: f :: fs)).toList ++ '\x7d' :: rest =
      '"' :: (k.toList.flatMap escapeChar ++ '"' :: (':' :: (v.stringify.toList ++ ',' ::
        ((stringifyFields (f :: fs)).toList ++ '\x7d' :: rest)))) := by
    simp [stringifyFields, quote]
  rw [htext, parseFields, skipSpace_cons (by decide)]
  simp only [parseString_quote, Option.bind_eq_bind, Option.bind_some,
    skipSpace_cons (by decide : isWhitespace ':' = false), hread,
      skipSpace_cons (by decide : isWhitespace ',' = false)]
  rw [hrest]
  rfl

end

theorem stringify_pos (j : Json) (hj : j.Written) : 0 < j.stringify.toList.length := by
  obtain ⟨c, cs, heq, _⟩ := stringify_head j hj
  simp [heq]

/-- The value is read back in front of whatever may follow it. -/
def ReadBack (j : Json) : Prop := ∀ (fuel : Nat) (rest : List Char), 2 * j.stringify.toList.length < fuel →
  EndsNumber rest → parseValue fuel (j.stringify.toList ++ rest) = some (j, rest)

theorem elems_back {l : List Json} (hl : WrittenElems l) (hne : l ≠ []) (h : ∀ x ∈ l, ReadBack x) (fuel : Nat)
    (rest : List Char) (hfuel : 2 * (stringifyElems l).toList.length + 1 < fuel) :
    parseElems fuel ((stringifyElems l).toList ++ ']' :: rest) = some (l, rest) := by
  induction l generalizing fuel with
  | nil => exact absurd rfl hne
  | cons x l ih =>
    obtain ⟨fuel, rfl⟩ : ∃ n, fuel = n + 1 := ⟨fuel - 1, by omega⟩
    have hx : ReadBack x := h x List.mem_cons_self
    cases l with
    | nil =>
      have hlen : (stringifyElems [x]).toList.length = x.stringify.toList.length := by simp [stringifyElems]
      exact parseElems_one (hx fuel _ (by omega) (endsNumber_cons (by simp)))
    | cons y l =>
      have hlen : (stringifyElems (x :: y :: l)).toList.length =
          x.stringify.toList.length + ((stringifyElems (y :: l)).toList.length + 1) := by simp [stringifyElems]
      have hpos := stringify_pos x hl.1
      have hrest := ih hl.2 (by simp) (fun z hz => h z (List.mem_cons_of_mem _ hz)) fuel (by omega)
      exact parseElems_cons (hx fuel _ (by omega) (endsNumber_cons (by simp))) hrest

theorem fields_back {fs : List (String × Json)} (hfs : WrittenFields fs) (hne : fs ≠ [])
    (h : ∀ f ∈ fs, ReadBack f.2)
    (fuel : Nat) (rest : List Char) (hfuel : 2 * (stringifyFields fs).toList.length + 1 < fuel) :
    parseFields fuel ((stringifyFields fs).toList ++ '\x7d' :: rest) = some (fs, rest) := by
  induction fs generalizing fuel with
  | nil => exact absurd rfl hne
  | cons f fs ih =>
    obtain ⟨k, v⟩ := f
    obtain ⟨fuel, rfl⟩ : ∃ n, fuel = n + 1 := ⟨fuel - 1, by omega⟩
    have hv : ReadBack v := h (k, v) List.mem_cons_self
    cases fs with
    | nil =>
      have hlen : v.stringify.toList.length ≤ (stringifyFields [(k, v)]).toList.length := by
        simp [stringifyFields]
        omega
      exact parseFields_one (hv fuel _ (by omega) (endsNumber_cons (by simp)))
    | cons f fs =>
      have hlen : v.stringify.toList.length + ((stringifyFields (f :: fs)).toList.length + 1) ≤
          (stringifyFields ((k, v) :: f :: fs)).toList.length := by
        simp [stringifyFields]
        omega
      have hpos := stringify_pos v hfs.1
      have hrest := ih hfs.2 (by simp) (fun g hg => h g (List.mem_cons_of_mem _ hg)) fuel (by omega)
      exact parseFields_cons (hv fuel _ (by omega) (endsNumber_cons (by simp))) hrest

theorem arr_back {l : List Json} (hl : WrittenElems l) (h : ∀ x ∈ l, ReadBack x) : ReadBack (.arr l) := by
  intro fuel rest hfuel hr
  obtain ⟨fuel, rfl⟩ : ∃ n, fuel = n + 1 := ⟨fuel - 1, by omega⟩
  cases l with
  | nil => simp [stringify, stringifyElems, parseValue_starts]
  | cons x l =>
    have hlen : (Json.arr (x :: l)).stringify.toList.length = (stringifyElems (x :: l)).toList.length + 2 := by
      simp [stringify]
    exact parseValue_arr hl (by simp) (elems_back hl (by simp) h fuel rest (by omega))

theorem obj_back {fs : List (String × Json)} (hfs : WrittenFields fs) (h : ∀ f ∈ fs, ReadBack f.2) :
    ReadBack (.obj fs) := by
  intro fuel rest hfuel hr
  obtain ⟨fuel, rfl⟩ : ∃ n, fuel = n + 1 := ⟨fuel - 1, by omega⟩
  cases fs with
  | nil => simp [stringify, stringifyFields, parseValue_starts]
  | cons f fs =>
    obtain ⟨k, v⟩ := f
    have hlen : (Json.obj ((k, v) :: fs)).stringify.toList.length =
        (stringifyFields ((k, v) :: fs)).toList.length + 2 := by simp [stringify]
    exact parseValue_obj (fields_back hfs (by simp) h fuel rest (by omega))

theorem atom_back {j : Json} (hj : j.Written) (harr : ∀ l, j ≠ .arr l) (hobj : ∀ fs, j ≠ .obj fs) : ReadBack j := by
  intro fuel rest hfuel hr
  obtain ⟨fuel, rfl⟩ : ∃ n, fuel = n + 1 := ⟨fuel - 1, by omega⟩
  cases j with
  | null => simp [stringify, parseValue_starts]
  | bool b => cases b <;> simp [stringify, parseValue_starts]
  | num text =>
    exact parseValue_num hj fuel hr
  | str s =>
    simp only [stringify]
    rw [toList_quote, (parseValue_starts fuel _).1, parseString_quote]
    rfl
  | arr l => exact absurd rfl (harr l)
  | obj fs => exact absurd rfl (hobj fs)

mutual
/-- By induction on the value and on the lists in it. -/
theorem readBack : ∀ j : Json, j.Written → ReadBack j
  | .null, hj => atom_back hj (by simp) (by simp)
  | .bool _, hj => atom_back hj (by simp) (by simp)
  | .num _, hj => atom_back hj (by simp) (by simp)
  | .str _, hj => atom_back hj (by simp) (by simp)
  | .arr l, hj => arr_back hj (readBackElems l hj)
  | .obj fs, hj => obj_back hj (readBackFields fs hj)
theorem readBackElems : ∀ l : List Json, WrittenElems l → ∀ x ∈ l, ReadBack x
  | [], _ => fun _ hx => nomatch hx
  | y :: l, hl => fun x hx => (List.mem_cons.mp hx).elim (fun h => h ▸ readBack y hl.1) (readBackElems l hl.2 x)
theorem readBackFields : ∀ fs : List (String × Json), WrittenFields fs → ∀ f ∈ fs, ReadBack f.2
  | [], _ => fun _ hf => nomatch hf
  | (_, v) :: fs, hfs =>
      fun f hf => (List.mem_cons.mp hf).elim (fun h => h ▸ readBack v hfs.1) (readBackFields fs hfs.2 f)
end

theorem parse_stringify {j : Json} (hj : j.Written) : parse j.stringify = some j := by
  have hlen : j.stringify.toList.length = j.stringify.length := String.length_toList
  have hread := readBack j hj (2 * j.stringify.length + 1) [] (by omega) (.inl rfl)
  rw [List.append_nil] at hread
  simp only [parse, hread, Option.bind_eq_bind, Option.bind_some]
  rfl

end Json

end DocVault
