import DocVault.Encoding

/-!
# Queries of URLs

Lists of names with values, and the text of a query that they are written to
and read from: octets that are not safe are percent-encoded. Reading inverts
writing.
-/

namespace FormUrlEncoded

open Encoding

abbrev Params := List (String × String)

/-! ## Names and values -/

def get (name : String) (params : Params) : Option String := params.lookup name

/-- The first pair of the name takes the value, and the others go. -/
def set (name value : String) : Params → Params
  | [] => [(name, value)]
  | p :: ps => if p.1 = name then (name, value) :: ps.filter (·.1 ≠ name) else p :: set name value ps

@[simp] theorem get_nil (name : String) : get name [] = none := rfl

theorem lookup_filter {name k : String} (h : k ≠ name) (params : Params) :
    (params.filter (·.1 ≠ name)).lookup k = params.lookup k := by
  induction params with
  | nil => rfl
  | cons p ps ih =>
    obtain ⟨key, v⟩ := p
    by_cases hp : key = name
    · have hk : (k == key) = false := by simp [hp, h]
      rw [List.filter_cons_of_neg (by simpa using hp), ih, List.lookup_cons, hk]
    · rw [List.filter_cons_of_pos (by simpa using hp), List.lookup_cons, List.lookup_cons, ih]

theorem get_set (name value k : String) (params : Params) :
    get k (set name value params) = if k = name then some value else get k params := by
  unfold get
  induction params with
  | nil =>
    by_cases hk : k = name
    · simp [set, hk]
    · simp [set, hk]
  | cons p ps ih =>
    obtain ⟨key, v⟩ := p
    unfold set
    by_cases hp : key = name
    · subst hp
      by_cases hk : k = key
      · simp [hk]
      · have hne : (k == key) = false := by simp [hk]
        rw [if_pos rfl, if_neg hk, List.lookup_cons, List.lookup_cons, hne]
        exact lookup_filter hk ps
    · rw [if_neg hp, List.lookup_cons, List.lookup_cons, ih]
      by_cases hk : k = name
      · subst hk
        have hne : (k == key) = false := by simp [Ne.symm hp]
        simp [hne]
      · simp [hk]

/-! ## Octets -/

def isSafe (b : UInt8) : Bool :=
  b ∈ [42, 45, 46, 95] || (48 ≤ b && b ≤ 57) || (65 ≤ b && b ≤ 90) || (97 ≤ b && b ≤ 122)

def hexDigit (n : Nat) : UInt8 := UInt8.ofNat (if n < 10 then 48 + n else 55 + n)

def hexValue (b : UInt8) : Option Nat :=
  if 48 ≤ b ∧ b ≤ 57 then some (b.toNat - 48)
  else if 65 ≤ b ∧ b ≤ 70 then some (b.toNat - 55)
  else if 97 ≤ b ∧ b ≤ 102 then some (b.toNat - 87)
  else none

def isUnreserved (c : Char) : Bool := c.isAlphanum || "-_.!~*'()".toList.contains c

def encodeURIComponent (text : String) : String :=
  String.ofList ((utf8Encode text.toList).flatMap fun b =>
    let c := Char.ofNat b.toNat
    if isUnreserved c then [c]
    else ['%', Char.ofNat (hexDigit (b.toNat / 16)).toNat, Char.ofNat (hexDigit (b.toNat % 16)).toNat])

def encodeByte (b : UInt8) : List UInt8 :=
  if b = 32 then [43]
  else if isSafe b then [b]
  else [37, hexDigit (b.toNat / 16), hexDigit (b.toNat % 16)]

def plusToSpace (b : UInt8) : UInt8 := if b = 43 then 32 else b

def escaped (b x y : UInt8) : Option UInt8 :=
  if b = 37 then do return UInt8.ofNat ((← hexValue x) * 16 + (← hexValue y)) else none

-- A percent sign without two digits after it stands for itself.
def percentDecode : List UInt8 → List UInt8
  | b :: x :: y :: rest =>
    match escaped b x y with
    | some v => v :: percentDecode rest
    | none => b :: percentDecode (x :: y :: rest)
  | bytes => bytes

/-! ## Texts -/

def encode (s : String) : List UInt8 := (utf8Encode s.toList).flatMap encodeByte

def decode (bytes : List UInt8) : String := String.ofList (utf8Decode (percentDecode (bytes.map plusToSpace)))

def segment (p : String × String) : List UInt8 := encode p.1 ++ 61 :: encode p.2

def serialize (params : Params) : String :=
  String.ofList (([38].intercalate (params.map segment)).map fun b => Char.ofNat b.toNat)

def readSegment (bytes : List UInt8) : Option (String × String) :=
  if bytes = [] then none
  else some (decode (bytes.takeWhile (· ≠ 61)), decode ((bytes.dropWhile (· ≠ 61)).drop 1))

-- A question mark before the query is no part of it.
def query (s : String) : List Char := if s.toList.head? = some '?' then s.toList.drop 1 else s.toList

def parse (s : String) : Params := ((utf8Encode (query s)).splitOn 38).filterMap readSegment

/-! ## Reading what is written -/

theorem isSafe_bounds {b : UInt8} (h : isSafe b = true) : b < 128 ∧ b ≠ 37 ∧ b ≠ 38 ∧ b ≠ 43 ∧ b ≠ 61 ∧ b ≠ 63 := by
  simp only [isSafe, Bool.or_eq_true, Bool.and_eq_true, decide_eq_true_eq, List.mem_cons,
    List.not_mem_nil, or_false, ← UInt8.toNat_inj, UInt8.le_iff_toNat_le, UInt8.lt_iff_toNat_lt, ne_eq] at h ⊢
  simp only [UInt8.reduceToNat] at h ⊢
  omega

theorem hexDigit_safe {n : Nat} (h : n < 16) : isSafe (hexDigit n) = true ∧ hexValue (hexDigit n) = some n := by
  have hall : ∀ n : Fin 16, isSafe (hexDigit n) = true ∧ hexValue (hexDigit n) = some n.val := by decide
  exact hall ⟨n, h⟩

/-- The octets of encoded texts. -/
theorem mem_encodeByte {b x : UInt8} (h : x ∈ encodeByte b) : isSafe x = true ∨ x = 37 ∨ x = 43 := by
  have hb := b.toNat_lt
  unfold encodeByte at h
  by_cases hspace : b = 32
  · rw [if_pos hspace] at h
    exact .inr (.inr (List.mem_singleton.mp h))
  · rw [if_neg hspace] at h
    by_cases hsafe : isSafe b = true
    · rw [if_pos hsafe] at h
      exact .inl (List.mem_singleton.mp h ▸ hsafe)
    · rw [if_neg hsafe] at h
      simp only [List.mem_cons, List.not_mem_nil, or_false] at h
      rcases h with rfl | rfl | rfl
      · exact .inr (.inl rfl)
      · exact .inl (hexDigit_safe (by omega)).1
      · exact .inl (hexDigit_safe (by omega)).1

theorem mem_encode {s : String} {x : UInt8} (h : x ∈ encode s) : x < 128 ∧ x ≠ 38 ∧ x ≠ 61 ∧ x ≠ 63 := by
  obtain ⟨b, -, hx⟩ := List.mem_flatMap.mp h
  rcases mem_encodeByte hx with hs | rfl | rfl
  · have hbounds := isSafe_bounds hs
    exact ⟨hbounds.1, hbounds.2.2.1, hbounds.2.2.2.2⟩
  · decide
  · decide

theorem plusToSpace_safe {b : UInt8} (h : isSafe b = true) : plusToSpace b = b := if_neg (isSafe_bounds h).2.2.2.1

theorem percentDecode_cons {b : UInt8} (h : b ≠ 37) (rest : List UInt8) :
    percentDecode (b :: rest) = b :: percentDecode rest := by
  cases rest with
  | nil => rfl
  | cons x rest =>
    cases rest with
    | nil => rfl
    | cons y rest => simp [percentDecode, escaped, h]

theorem percentDecode_byte (b : UInt8) (rest : List UInt8) :
    percentDecode ((encodeByte b).map plusToSpace ++ rest) = b :: percentDecode rest := by
  have hb := b.toNat_lt
  unfold encodeByte
  by_cases hspace : b = 32
  · subst hspace
    exact percentDecode_cons (by decide) rest
  · rw [if_neg hspace]
    by_cases hsafe : isSafe b = true
    · simp [hsafe, plusToSpace_safe hsafe, percentDecode_cons (isSafe_bounds hsafe).2.1]
    · have hhigh := hexDigit_safe (n := b.toNat / 16) (by omega)
      have hlow := hexDigit_safe (n := b.toNat % 16) (by omega)
      have hpercent : plusToSpace 37 = 37 := by decide
      rw [if_neg hsafe]
      simp only [List.map_cons, List.map_nil, List.cons_append, List.nil_append, hpercent, plusToSpace_safe hhigh.1,
        plusToSpace_safe hlow.1, percentDecode, escaped, if_pos, hhigh.2, hlow.2,
          Nat.div_add_mod', UInt8.ofNat_toNat,
        Option.pure_def, Option.bind_eq_bind, Option.bind_some]

theorem percentDecode_encode (bytes : List UInt8) :
    percentDecode ((bytes.flatMap encodeByte).map plusToSpace) = bytes := by
  induction bytes with
  | nil => rfl
  | cons b bytes ih => rw [List.flatMap_cons, List.map_append, percentDecode_byte, ih]

@[simp] theorem decode_encode (s : String) : decode (encode s) = s := by
  rw [decode, encode, percentDecode_encode, utf8Decode_encode, String.ofList_toList]

theorem readSegment_segment (p : String × String) : readSegment (segment p) = some p := by
  have hname : ∀ x ∈ encode p.1, decide (x ≠ 61) = true := fun x hx => decide_eq_true (mem_encode hx).2.2.1
  have hne : segment p ≠ [] := by simp [segment]
  rw [readSegment, if_neg hne, segment, List.takeWhile_append_of_pos hname, List.dropWhile_append_of_pos hname]
  simp

theorem toNat_ascii {n : Nat} (h : n < 128) : (Char.ofNat n).toNat = n := by
  have hvalid : n.isValidChar := .inl (by omega)
  rw [Char.ofNat, dif_pos hvalid]
  rfl

theorem utf8Encode_ascii {bytes : List UInt8} (h : ∀ b ∈ bytes, b < 128) :
    utf8Encode (bytes.map fun b => Char.ofNat b.toNat) = bytes := by
  induction bytes with
  | nil => rfl
  | cons b bytes ih =>
    have hb : b.toNat < 128 := UInt8.lt_iff_toNat_lt.mp (h b List.mem_cons_self)
    have hval : (Char.ofNat b.toNat).val.toNat = b.toNat := toNat_ascii hb
    have hchar : String.utf8EncodeChar (Char.ofNat b.toNat) = [b] := by
      simp only [String.utf8EncodeChar, hval]
      rw [if_pos (by omega), UInt8.ofNat_toNat]
    rw [utf8Encode, List.map_cons, List.flatMap_cons, hchar]
    exact congrArg (b :: ·) (ih fun x hx => h x (List.mem_cons_of_mem _ hx))

theorem mem_segment {p : String × String} {x : UInt8} (h : x ∈ segment p) : x < 128 ∧ x ≠ 38 ∧ x ≠ 63 := by
  rcases List.mem_append.mp h with h | h
  · have hx := mem_encode h
    exact ⟨hx.1, hx.2.1, hx.2.2.2⟩
  · rcases List.mem_cons.mp h with rfl | h
    · decide
    · have hx := mem_encode h
      exact ⟨hx.1, hx.2.1, hx.2.2.2⟩

theorem mem_joined {l : List (List UInt8)} (hl : ∀ s ∈ l, ∀ x ∈ s, x < 128 ∧ x ≠ 38 ∧ x ≠ 63) :
    ∀ x ∈ [38].intercalate l, x < 128 ∧ x ≠ 63 := by
  induction l with
  | nil => simp [List.intercalate]
  | cons s l ih =>
    have hs : ∀ x ∈ s, x < 128 ∧ x ≠ 63 := fun x hx =>
      have h := hl s List.mem_cons_self x hx
      ⟨h.1, h.2.2⟩
    cases l with
    | nil => simpa [List.intercalate_singleton] using hs
    | cons t l =>
      intro x hx
      simp only [List.intercalate_cons_cons, List.mem_append, List.mem_singleton] at hx
      rcases hx with (hx | rfl) | hx
      · exact hs x hx
      · decide
      · exact ih (fun s' hs' => hl s' (List.mem_cons_of_mem _ hs')) x hx

theorem query_serialize (params : Params) :
    utf8Encode (query (serialize params)) = [38].intercalate (params.map segment) := by
  have hmem : ∀ x ∈ [38].intercalate (params.map segment), x < 128 ∧ x ≠ 63 := mem_joined fun s hs x hx => by
    obtain ⟨p, -, rfl⟩ := List.mem_map.mp hs
    exact mem_segment hx
  have hhead : (serialize params).toList.head? ≠ some '?' := by
    intro h
    rw [serialize, String.toList_ofList, List.head?_map, Option.map_eq_some_iff] at h
    obtain ⟨x, hx, hmark⟩ := h
    have hx' := hmem x (List.mem_of_mem_head? hx)
    have hval : (Char.ofNat x.toNat).toNat = x.toNat := toNat_ascii (UInt8.lt_iff_toNat_lt.mp hx'.1)
    rw [hmark] at hval
    exact hx'.2 (UInt8.toNat_inj.mp hval.symm)
  rw [query, if_neg hhead, serialize, String.toList_ofList]
  exact utf8Encode_ascii fun x hx => (hmem x hx).1

theorem parse_serialize (params : Params) : parse (serialize params) = params := by
  rw [parse, query_serialize]
  by_cases hp : params = []
  · subst hp
    rfl
  · have hfree : ∀ s ∈ params.map segment, 38 ∉ s := fun s hs h38 => by
      obtain ⟨p, -, rfl⟩ := List.mem_map.mp hs
      exact (mem_segment h38).2.1 rfl
    rw [List.splitOn_intercalate 38 hfree (by simpa using hp), List.filterMap_map]
    have hread : readSegment ∘ segment = some := funext readSegment_segment
    rw [hread, List.filterMap_some]

end FormUrlEncoded
