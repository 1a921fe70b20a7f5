import DocVault.JsNumber
import DocVault.JsRegex
import DocVault.JsonParse

/-!
# JSON over UTF-16

`JSON.parse` and `JSON.stringify` over code units, so that a surrogate that
stands alone is kept. A text is cut into tokens first, and a value is read from
its tokens.
-/

namespace DocVault

inductive JsonValue where
  | null
  | bool (b : Bool)
  | num (n : JsNumber)
  | str (t : Text)
  | arr (l : List JsonValue)
  | obj (fields : List (Text × JsonValue))

namespace JsonText

/-! ## Strings -/

def hexDigitUnit (n : Nat) : Nat := (hexDigit n).toNat

def isHigh (u : Nat) : Bool := 0xD800 ≤ u && u < 0xDC00

def isLow (u : Nat) : Bool := 0xDC00 ≤ u && u < 0xE000

/-- `\uXXXX` -/
def escapeHex (u : Nat) : Text :=
  [92, 117, hexDigitUnit (u / 4096), hexDigitUnit (u / 256 % 16), hexDigitUnit (u / 16 % 16), hexDigitUnit (u % 16)]

def escapeUnit (u : Nat) : Text :=
  if u = 34 ∨ u = 92 then [92, u]
  else if u = 8 then [92, 98]
  else if u = 9 then [92, 116]
  else if u = 10 then [92, 110]
  else if u = 12 then [92, 102]
  else if u = 13 then [92, 114]
  else if u < 32 ∨ isHigh u ∨ isLow u then escapeHex u
  else [u]

-- Only a surrogate that stands alone is escaped.
def escapeText : Text → Text
  | [] => []
  | [u] => escapeUnit u
  | u :: v :: t => if isHigh u ∧ isLow v then u :: v :: escapeText t else escapeUnit u ++ escapeText (v :: t)

def quote (t : Text) : Text := 34 :: escapeText t ++ [34]

def escaped : Nat → Option Nat
  | 34 => some 34
  | 92 => some 92
  | 47 => some 47
  | 98 => some 8
  | 102 => some 12
  | 110 => some 10
  | 114 => some 13
  | 116 => some 9
  | _ => none

def prepend (u : Nat) (parsed : Text × Text) : Text × Text := (u :: parsed.1, parsed.2)

/-- The units up to the closing quote, and what follows it. -/
def stringUnits : Text → Option (Text × Text)
  | [] => none
  | 34 :: rest => some ([], rest)
  | 92 :: 117 :: a :: b :: c :: d :: rest => do
    let unit ← Json.hexUnit a b c d
    (stringUnits rest).map (prepend unit)
  | 92 :: e :: rest => do
    let unit ← escaped e
    (stringUnits rest).map (prepend unit)
  | u :: rest => if u < 32 ∨ u = 92 then none else (stringUnits rest).map (prepend u)

/-! ## Tokens -/

inductive JsonToken where
  | openBrace | closeBrace | openBracket | closeBracket | colon | comma
  | null
  | bool (b : Bool)
  | num (n : JsNumber)
  | str (t : Text)

def isWhitespace (u : Nat) : Bool := u = 32 || u = 9 || u = 10 || u = 13

/-- The units of a number's literal. -/
def isNumeric (u : Nat) : Bool := isDigit u || u = 43 || u = 45 || u = 46 || u = 69 || u = 101

-- What follows a number cannot go on as one.
def readNumber (t : Text) : Option (JsonToken × Text) :=
  match Json.parseNumber ((t.takeWhile isNumeric).map Char.ofNat) with
  | some (literal, []) => some (.num (JsNumber.readNumeral literal.toList), t.dropWhile isNumeric)
  | _ => none

/-- The first token of a text without white space in front. -/
def readToken : Text → Option (JsonToken × Text)
  | 123 :: rest => some (.openBrace, rest)
  | 125 :: rest => some (.closeBrace, rest)
  | 91 :: rest => some (.openBracket, rest)
  | 93 :: rest => some (.closeBracket, rest)
  | 58 :: rest => some (.colon, rest)
  | 44 :: rest => some (.comma, rest)
  | 34 :: rest => (stringUnits rest).map fun parsed => (.str parsed.1, parsed.2)
  | 110 :: 117 :: 108 :: 108 :: rest => some (.null, rest)
  | 116 :: 114 :: 117 :: 101 :: rest => some (.bool true, rest)
  | 102 :: 97 :: 108 :: 115 :: 101 :: rest => some (.bool false, rest)
  | t => readNumber t

-- Each step takes a unit at least.
def readTokens : Nat → Text → Option (List JsonToken)
  | _, [] => some []
  | 0, _ :: _ => none
  | fuel + 1, u :: t =>
    if isWhitespace u then readTokens fuel t
    else (readToken (u :: t)).bind fun read => (readTokens fuel read.2).map (read.1 :: ·)

/-! ## Values -/

mutual
/-- Of two steps of the recursion one takes a token. -/
def readValue : Nat → List JsonToken → Option (JsonValue × List JsonToken)
  | _ + 1, .null :: rest => some (.null, rest)
  | _ + 1, .bool b :: rest => some (.bool b, rest)
  | _ + 1, .num n :: rest => some (.num n, rest)
  | _ + 1, .str t :: rest => some (.str t, rest)
  | _ + 1, .openBracket :: .closeBracket :: rest => some (.arr [], rest)
  | fuel + 1, .openBracket :: rest => (readElems fuel rest).map fun read => (.arr read.1, read.2)
  | _ + 1, .openBrace :: .closeBrace :: rest => some (.obj [], rest)
  | fuel + 1, .openBrace :: rest => (readMembers fuel rest).map fun read => (.obj read.1, read.2)
  | _, _ => none
def readElems : Nat → List JsonToken → Option (List JsonValue × List JsonToken)
  | 0, _ => none
  | fuel + 1, ts =>
    match readValue fuel ts with
    | some (v, .comma :: rest) => (readElems fuel rest).map fun read => (v :: read.1, read.2)
    | some (v, .closeBracket :: rest) => some ([v], rest)
    | _ => none
def readMembers : Nat → List JsonToken → Option (List (Text × JsonValue) × List JsonToken)
  | fuel + 1, .str key :: .colon :: ts =>
    match readValue fuel ts with
    | some (v, .comma :: rest) => (readMembers fuel rest).map fun read => ((key, v) :: read.1, read.2)
    | some (v, .closeBrace :: rest) => some ([(key, v)], rest)
    | _ => none
  | _, _ => none
end

/-- `JSON.parse` -/
def parse (t : Text) : Option JsonValue := do
  let ts ← readTokens t.length t
  match readValue (2 * ts.length + 1) ts with
  | some (v, []) => some v
  | _ => none

mutual
def tokensOf : JsonValue → List JsonToken
  | .null => [.null]
  | .bool b => [.bool b]
  | .num n => [.num n]
  | .str t => [.str t]
  | .arr l => .openBracket :: elemTokens l ++ [.closeBracket]
  | .obj fields => .openBrace :: memberTokens fields ++ [.closeBrace]
def elemTokens : List JsonValue → List JsonToken
  | [] => []
  | [v] => tokensOf v
  | v :: w :: l => tokensOf v ++ .comma :: elemTokens (w :: l)
def memberTokens : List (Text × JsonValue) → List JsonToken
  | [] => []
  | [(key, v)] => .str key :: .colon :: tokensOf v
  | (key, v) :: f :: fields => .str key :: .colon :: tokensOf v ++ .comma :: memberTokens (f :: fields)
end

section
variable (numberText : JsNumber → Text)

def JsonToken.show : JsonToken → Text
  | openBrace => [123]
  | closeBrace => [125]
  | openBracket => [91]
  | closeBracket => [93]
  | colon => [58]
  | comma => [44]
  | null => utf16 "null"
  | bool b => if b then utf16 "true" else utf16 "false"
  | num n => numberText n
  | str t => quote t

/-- `JSON.stringify` -/
def stringify (v : JsonValue) : Text := (tokensOf v).flatMap (JsonToken.show numberText)

end

/-- The own property of a name. Of two members of one name the last one counts. -/
def prop (v : JsonValue) (name : String) : Option JsonValue :=
  match v with
  | .obj fields => (fields.reverse.find? (·.1 = utf16 name)).map (·.2)
  | _ => none

/-! ## Strings are read back -/

theorem stringUnits_plain {u : Nat} {rest : Text} (hquote : u ≠ 34) (hslash : u ≠ 92) (h : 32 ≤ u) :
    stringUnits (u :: rest) = (stringUnits rest).map (prepend u) := by
  rw [stringUnits.eq_def]
  split
  · rename_i heq; cases heq
  · rename_i heq; cases heq; exact absurd rfl hquote
  · rename_i heq; cases heq; exact absurd rfl hslash
  · rename_i heq; cases heq; exact absurd rfl hslash
  · rename_i heq
    cases heq
    exact if_neg (by omega)

theorem stringUnits_escaped {e unit : Nat} {rest : Text} (hu : e ≠ 117) (he : escaped e = some unit) :
    stringUnits (92 :: e :: rest) = (stringUnits rest).map (prepend unit) := by
  rw [stringUnits.eq_def]
  split
  · rename_i heq; cases heq
  · rename_i heq; cases heq
  · rename_i heq; cases heq; exact absurd rfl hu
  · rename_i heq; cases heq; simp [he]
  · rename_i hnot heq; cases heq; exact absurd rfl (hnot e rest rfl)

theorem stringUnits_escapeHex {u : Nat} (h : u < 65536) (rest : Text) :
    stringUnits (escapeHex u ++ rest) = (stringUnits rest).map (prepend u) := by
  have hunit : Json.hexUnit (hexDigitUnit (u / 4096)) (hexDigitUnit (u / 256 % 16)) (hexDigitUnit (u / 16 % 16))
      (hexDigitUnit (u % 16)) = some u := by
    have hdigit : ∀ n < 16, Json.hexValue (hexDigitUnit n) = some n := Json.hexValue_hexDigit
    simp only [Json.hexUnit, hdigit _ (by omega : u / 4096 < 16), hdigit _ (by omega : u / 256 % 16 < 16),
      hdigit _ (by omega : u / 16 % 16 < 16), hdigit _ (by omega : u % 16 < 16),
        Option.bind_eq_bind, Option.bind_some,
      Option.some.injEq]
    omega
  simp only [escapeHex, List.cons_append, List.nil_append, stringUnits, hunit,
    Option.bind_eq_bind, Option.bind_some]

theorem stringUnits_escapeUnit (u : Nat) (rest : Text) :
    stringUnits (escapeUnit u ++ rest) = (stringUnits rest).map (prepend u) := by
  unfold escapeUnit
  split
  · rename_i h
    obtain rfl | rfl := h <;> exact stringUnits_escaped (by decide) rfl
  split
  · subst_vars; exact stringUnits_escaped (by decide) rfl
  split
  · subst_vars; exact stringUnits_escaped (by decide) rfl
  split
  · subst_vars; exact stringUnits_escaped (by decide) rfl
  split
  · subst_vars; exact stringUnits_escaped (by decide) rfl
  split
  · subst_vars; exact stringUnits_escaped (by decide) rfl
  split
  · rename_i h
    refine stringUnits_escapeHex ?_ rest
    simp only [isHigh, isLow, Bool.and_eq_true, decide_eq_true_eq] at h
    omega
  · rename_i hquote _ _ _ _ _ h
    exact stringUnits_plain (fun hu => hquote (.inl hu)) (fun hu => hquote (.inr hu)) (by omega)

theorem surrogate_plain {u : Nat} (h : isHigh u = true ∨ isLow u = true) : u ≠ 34 ∧ u ≠ 92 ∧ 32 ≤ u := by
  simp only [isHigh, isLow, Bool.and_eq_true, decide_eq_true_eq] at h
  omega

theorem stringUnits_escapeText (t rest : Text) : stringUnits (escapeText t ++ 34 :: rest) = some (t, rest) := by
  fun_induction escapeText t with
  | case1 => simp [stringUnits]
  | case2 u =>
    rw [stringUnits_escapeUnit]
    simp [stringUnits, prepend]
  | case3 u v t h ih =>
    obtain ⟨hquote, hslash, hmin⟩ := surrogate_plain (.inl h.1)
    obtain ⟨hquote', hslash', hmin'⟩ := surrogate_plain (.inr h.2)
    rw [List.cons_append, List.cons_append, stringUnits_plain hquote hslash hmin,
      stringUnits_plain hquote' hslash' hmin', ih]
    rfl
  | case4 u v t h ih =>
    rw [List.append_assoc, stringUnits_escapeUnit, ih]
    rfl

/-! ## Tokens are read back -/

section
variable (numberText : JsNumber → Text)

/-- Every token but a number. -/
def JsonToken.Plain : JsonToken → Prop
  | .num _ => False
  | _ => True

theorem readToken_show {token : JsonToken} (h : token.Plain) (rest : Text) :
    readToken (token.show numberText ++ rest) = some (token, rest) := by
  cases token with
  | num n => cases h
  | str t =>
    have htext : (JsonToken.str t).show numberText ++ rest = 34 :: (escapeText t ++ 34 :: rest) := by
      simp [JsonToken.show, quote]
    rw [htext, readToken, stringUnits_escapeText]
    rfl
  | bool b => cases b <;> rfl
  | null => rfl
  | openBrace => rfl
  | closeBrace => rfl
  | openBracket => rfl
  | closeBracket => rfl
  | colon => rfl
  | comma => rfl

theorem show_head {token : JsonToken} (h : token.Plain) :
    ∃ u t, token.show numberText = u :: t ∧ isWhitespace u = false := by
  cases token with
  | num n => cases h
  | str t => exact ⟨34, _, rfl, rfl⟩
  | bool b => cases b <;> exact ⟨_, _, rfl, rfl⟩
  | null => exact ⟨_, _, rfl, rfl⟩
  | openBrace => exact ⟨_, _, rfl, rfl⟩
  | closeBrace => exact ⟨_, _, rfl, rfl⟩
  | openBracket => exact ⟨_, _, rfl, rfl⟩
  | closeBracket => exact ⟨_, _, rfl, rfl⟩
  | colon => exact ⟨_, _, rfl, rfl⟩
  | comma => exact ⟨_, _, rfl, rfl⟩

theorem readTokens_show {ts : List JsonToken} (h : ∀ token ∈ ts, token.Plain) (fuel : Nat)
    (hfuel : (ts.flatMap (JsonToken.show numberText)).length ≤ fuel) :
    readTokens fuel (ts.flatMap (JsonToken.show numberText)) = some ts := by
  induction ts generalizing fuel with
  | nil => rw [List.flatMap_nil, readTokens]
  | cons token ts ih =>
    have hplain := h token List.mem_cons_self
    obtain ⟨u, t, hshow, hspace⟩ := show_head numberText hplain
    have hread := readToken_show numberText hplain (ts.flatMap (JsonToken.show numberText))
    rw [List.flatMap_cons, hshow, List.cons_append] at hfuel ⊢
    rw [hshow, List.cons_append] at hread
    cases fuel with
    | zero => cases hfuel
    | succ fuel =>
      have hrest := ih (fun token ht => h token (List.mem_cons_of_mem _ ht)) fuel (by
        rw [List.length_cons, List.length_append] at hfuel
        omega)
      rw [readTokens, if_neg (by simp [hspace]), hread, Option.bind_some, hrest]
      rfl

end

/-! ## Values are read back -/

theorem tokensOf_head (v : JsonValue) : ∃ token ts, tokensOf v = token :: ts ∧ token ≠ .closeBracket := by
  cases v <;> exact ⟨_, _, rfl, by simp⟩

theorem elemTokens_head {l : List JsonValue} (hne : l ≠ []) :
    ∃ token ts, elemTokens l = token :: ts ∧ token ≠ .closeBracket := by
  cases l with
  | nil => exact absurd rfl hne
  | cons v l =>
    obtain ⟨token, ts, heq, h⟩ := tokensOf_head v
    cases l with
    | nil => exact ⟨token, ts, heq, h⟩
    | cons w l => exact ⟨token, ts ++ .comma :: elemTokens (w :: l), by rw [elemTokens, heq]; rfl, h⟩

theorem memberTokens_head {fields : List (Text × JsonValue)} (hne : fields ≠ []) :
    ∃ key ts, memberTokens fields = .str key :: ts := by
  cases fields with
  | nil => exact absurd rfl hne
  | cons f fields =>
    obtain ⟨key, v⟩ := f
    cases fields <;> exact ⟨key, _, rfl⟩

/-- The value is read back whatever follows it. -/
def ReadBack (v : JsonValue) : Prop :=
  ∀ (fuel : Nat) (rest : List JsonToken), 2 * (tokensOf v).length ≤ fuel →
    readValue fuel (tokensOf v ++ rest) = some (v, rest)

theorem tokensOf_pos (v : JsonValue) : 0 < (tokensOf v).length := by
  obtain ⟨token, ts, heq, -⟩ := tokensOf_head v
  simp [heq]

theorem elems_back {l : List JsonValue} (hne : l ≠ []) (h : ∀ v ∈ l, ReadBack v)
    (fuel : Nat) (rest : List JsonToken) (hfuel : 2 * (elemTokens l).length + 1 ≤ fuel) :
    readElems fuel (elemTokens l ++ .closeBracket :: rest) = some (l, rest) := by
  induction l generalizing fuel with
  | nil => exact absurd rfl hne
  | cons v l ih =>
    obtain ⟨fuel, rfl⟩ : ∃ n, fuel = n + 1 := ⟨fuel - 1, by omega⟩
    have hv : ReadBack v := h v List.mem_cons_self
    cases l with
    | nil =>
      rw [elemTokens] at hfuel ⊢
      rw [readElems, hv fuel _ (by omega)]
    | cons w l =>
      rw [elemTokens] at hfuel ⊢
      simp only [List.length_append, List.length_cons] at hfuel
      have hpos := tokensOf_pos v
      have hrest := ih (by simp) (fun z hz => h z (List.mem_cons_of_mem _ hz)) fuel (by omega)
      rw [List.append_assoc, List.cons_append, readElems, hv fuel _ (by omega)]
      simp only [hrest, Option.map_some]

theorem members_back {fields : List (Text × JsonValue)} (hne : fields ≠ [])
    (h : ∀ f ∈ fields, ReadBack f.2) (fuel : Nat)
    (rest : List JsonToken) (hfuel : 2 * (memberTokens fields).length + 1 ≤ fuel) :
    readMembers fuel (memberTokens fields ++ .closeBrace :: rest) = some (fields, rest) := by
  induction fields generalizing fuel with
  | nil => exact absurd rfl hne
  | cons f fields ih =>
    obtain ⟨key, v⟩ := f
    obtain ⟨fuel, rfl⟩ : ∃ n, fuel = n + 1 := ⟨fuel - 1, by omega⟩
    have hv : ReadBack v := h (key, v) List.mem_cons_self
    cases fields with
    | nil =>
      rw [memberTokens] at hfuel ⊢
      simp only [List.length_cons] at hfuel
      rw [List.cons_append, List.cons_append, readMembers, hv fuel _ (by omega)]
    | cons f fields =>
      rw [memberTokens] at hfuel ⊢
      simp only [List.length_append, List.length_cons] at hfuel
      have hrest := ih (by simp) (fun g hg => h g (List.mem_cons_of_mem _ hg)) fuel (by omega)
      rw [List.cons_append, List.cons_append, List.cons_append, List.cons_append,
        List.append_assoc, List.cons_append, readMembers, hv fuel _ (by omega)]
      simp only [hrest, Option.map_some]

theorem arr_back {l : List JsonValue} (h : ∀ v ∈ l, ReadBack v) : ReadBack (.arr l) := by
  intro fuel rest hfuel
  rw [tokensOf, List.length_append, List.length_cons] at hfuel
  obtain ⟨fuel, rfl⟩ : ∃ n, fuel = n + 1 := ⟨fuel - 1, by omega⟩
  by_cases hne : l = []
  · subst hne
    simp [tokensOf, elemTokens, readValue]
  · obtain ⟨token, ts, heq, hclose⟩ := elemTokens_head hne
    have hread := elems_back hne h fuel rest (by simp only [List.length_singleton] at hfuel; omega)
    rw [tokensOf, List.cons_append, List.cons_append, List.append_assoc, List.singleton_append]
    rw [heq, List.cons_append] at hread ⊢
    rw [readValue, hread]
    · rfl
    · intro rest' htokens
      exact hclose (List.cons.inj htokens).1

theorem obj_back {fields : List (Text × JsonValue)} (h : ∀ f ∈ fields, ReadBack f.2) : ReadBack (.obj fields) := by
  intro fuel rest hfuel
  rw [tokensOf, List.length_append, List.length_cons] at hfuel
  obtain ⟨fuel, rfl⟩ : ∃ n, fuel = n + 1 := ⟨fuel - 1, by omega⟩
  by_cases hne : fields = []
  · subst hne
    simp [tokensOf, memberTokens, readValue]
  · obtain ⟨key, ts, heq⟩ := memberTokens_head hne
    have hread := members_back hne h fuel rest (by simp only [List.length_singleton] at hfuel; omega)
    rw [tokensOf, List.cons_append, List.cons_append, List.append_assoc, List.singleton_append]
    rw [heq, List.cons_append] at hread ⊢
    rw [readValue, hread]
    · rfl
    · intro rest' htokens
      cases (List.cons.inj htokens).1

theorem atom_back {v : JsonValue} (harr : ∀ l, v ≠ .arr l) (hobj : ∀ fields, v ≠ .obj fields) : ReadBack v := by
  intro fuel rest hfuel
  obtain ⟨fuel, rfl⟩ : ∃ n, fuel = n + 1 := ⟨fuel - 1, by have := tokensOf_pos v; omega⟩
  cases v with
  | arr l => exact absurd rfl (harr l)
  | obj fields => exact absurd rfl (hobj fields)
  | _ => rfl

mutual
/-- By induction on the value and on the lists in it. -/
theorem readBack : ∀ v : JsonValue, ReadBack v
  | .null => atom_back (by simp) (by simp)
  | .bool _ => atom_back (by simp) (by simp)
  | .num _ => atom_back (by simp) (by simp)
  | .str _ => atom_back (by simp) (by simp)
  | .arr l => arr_back (readBackElems l)
  | .obj fields => obj_back (readBackMembers fields)
theorem readBackElems : ∀ l : List JsonValue, ∀ v ∈ l, ReadBack v
  | [] => fun _ hv => nomatch hv
  | w :: l => fun v hv => (List.mem_cons.mp hv).elim (fun h => h ▸ readBack w) (readBackElems l v)
theorem readBackMembers : ∀ fields : List (Text × JsonValue), ∀ f ∈ fields, ReadBack f.2
  | [] => fun _ hf => nomatch hf
  | (_, v) :: fields => fun f hf => (List.mem_cons.mp hf).elim (fun h => h ▸ readBack v) (readBackMembers fields f)
end

/-- A value without numbers is read back from its text. -/
theorem parse_stringify (numberText : JsNumber → Text) {v : JsonValue} (h : ∀ token ∈ tokensOf v, token.Plain) :
    parse (stringify numberText v) = some v := by
  have htokens : readTokens (stringify numberText v).length (stringify numberText v) = some (tokensOf v) :=
    readTokens_show numberText h _ le_rfl
  have hread := readBack v (2 * (tokensOf v).length + 1) [] (by omega)
  rw [List.append_nil] at hread
  simp only [parse, htokens, hread, Option.bind_eq_bind, Option.bind_some]

end JsonText

end DocVault
