import Mathlib.Data.List.TakeWhile

/-!
# UTF-8 and base64url

Texts as octets and octets as texts, the way a lenient reader takes them: what
is no UTF-8 is replaced, what is no digit is skipped. Reading inverts writing.
-/

namespace Encoding

/-! ## UTF-8 -/

def utf8Encode (cs : List Char) : List UInt8 := cs.flatMap String.utf8EncodeChar

/-- How many octets a first octet asks for, and between which two the next one is. -/
def utf8Expects (lead : Nat) : Nat × Nat × Nat :=
  if 0xC2 ≤ lead ∧ lead ≤ 0xDF then (1, 0x80, 0xBF)
  else if lead = 0xE0 then (2, 0xA0, 0xBF)
  else if lead = 0xED then (2, 0x80, 0x9F)
  else if 0xE1 ≤ lead ∧ lead ≤ 0xEF then (2, 0x80, 0xBF)
  else if lead = 0xF0 then (3, 0x90, 0xBF)
  else if lead = 0xF4 then (3, 0x80, 0x8F)
  else if 0xF1 ≤ lead ∧ lead ≤ 0xF3 then (3, 0x80, 0xBF)
  else (0, 0, 0)

def isTail (b : UInt8) : Bool := 0x80 ≤ b.toNat && b.toNat ≤ 0xBF

/-- The octets that are replaced together with an ill-formed first one. -/
def illFormedTail (lead : UInt8) (rest : List UInt8) : Nat :=
  let (count, lower, upper) := utf8Expects lead.toNat
  match rest.take count with
  | [] => 0
  | b :: bs => if lower ≤ b.toNat ∧ b.toNat ≤ upper then 1 + (bs.takeWhile isTail).length else 0

def utf8Decode : List UInt8 → List Char
  | [] => []
  | b :: rest =>
    match (b :: rest).toByteArray.utf8DecodeChar? 0 with
    | some c => c :: utf8Decode (rest.drop (c.utf8Size - 1))
    | none => '\ufffd' :: utf8Decode (rest.drop (illFormedTail b rest))
termination_by bytes => bytes.length
decreasing_by all_goals simp only [List.length_drop, List.length_cons]; omega

theorem utf8Decode_char (c : Char) (bytes : List UInt8) :
    utf8Decode (String.utf8EncodeChar c ++ bytes) = c :: utf8Decode bytes := by
  have hlen : (String.utf8EncodeChar c).length = c.utf8Size := String.length_utf8EncodeChar c
  have hpos : 0 < c.utf8Size := c.utf8Size_pos
  have hdec : (String.utf8EncodeChar c ++ bytes).toByteArray.utf8DecodeChar? 0 = some c := by
    rw [List.toByteArray_append]
    exact ByteArray.utf8DecodeChar?_utf8EncodeChar_append
  cases henc : String.utf8EncodeChar c with
  | nil =>
    rw [henc] at hlen
    simp at hlen
    omega
  | cons b rest =>
    rw [henc] at hdec hlen
    simp only [List.cons_append, List.length_cons] at hdec hlen ⊢
    rw [utf8Decode, hdec]
    have hdrop : c.utf8Size - 1 = rest.length := by omega
    simp [hdrop]

@[simp] theorem utf8Decode_encode (cs : List Char) : utf8Decode (utf8Encode cs) = cs := by
  induction cs with
  | nil => simp [utf8Encode, utf8Decode]
  | cons c cs ih =>
    simp only [utf8Encode, List.flatMap_cons] at ih ⊢
    rw [utf8Decode_char, ih]

/-! ## Base64url -/

def alphabet : List Char := "ABCDEFGHIJKLMNOPQRSTUVWXYZabcdefghijklmnopqrstuvwxyz0123456789-_".toList

def digit (n : Nat) : Char := alphabet.getD n 'A'

def base64Digits : List UInt8 → List Nat
  | [] => []
  | [a] => [a.toNat / 4, a.toNat % 4 * 16]
  | [a, b] => [a.toNat / 4, a.toNat % 4 * 16 + b.toNat / 16, b.toNat % 16 * 4]
  | a :: b :: c :: rest =>
    a.toNat / 4 :: (a.toNat % 4 * 16 + b.toNat / 16) :: (b.toNat % 16 * 4 + c.toNat / 64) :: c.toNat % 64 ::
      base64Digits rest

def base64url (bytes : List UInt8) : List Char := (base64Digits bytes).map digit

/-- The value of a digit of either base64 alphabet. -/
def digitValue (c : Char) : Option Nat :=
  if 'A' ≤ c ∧ c ≤ 'Z' then some (c.toNat - 65)
  else if 'a' ≤ c ∧ c ≤ 'z' then some (c.toNat - 71)
  else if '0' ≤ c ∧ c ≤ '9' then some (c.toNat + 4)
  else if c = '-' ∨ c = '+' then some 62
  else if c = '_' ∨ c = '/' then some 63
  else none

def ofBase64Digits : List Nat → List UInt8
  | a :: b :: c :: d :: rest =>
    UInt8.ofNat (a * 4 + b / 16) :: UInt8.ofNat (b % 16 * 16 + c / 4) :: UInt8.ofNat (c % 4 * 64 + d) ::
      ofBase64Digits rest
  | [a, b, c] => [UInt8.ofNat (a * 4 + b / 16), UInt8.ofNat (b % 16 * 16 + c / 4)]
  | [a, b] => [UInt8.ofNat (a * 4 + b / 16)]
  | _ => []

def base64Decode (cs : List Char) : List UInt8 := ofBase64Digits (cs.filterMap digitValue)

theorem base64Digits_lt (bytes : List UInt8) : ∀ n ∈ base64Digits bytes, n < 64 := by
  induction bytes using base64Digits.induct with
  | case1 => simp [base64Digits]
  | case2 a =>
    have := a.toNat_lt
    simp [base64Digits]
    omega
  | case3 a b =>
    have := a.toNat_lt
    have := b.toNat_lt
    simp [base64Digits]
    omega
  | case4 a b c rest ih =>
    have := a.toNat_lt
    have := b.toNat_lt
    have := c.toNat_lt
    simp only [base64Digits, List.mem_cons]
    rintro n (rfl | rfl | rfl | rfl | hn)
    · omega
    · omega
    · omega
    · omega
    · exact ih n hn

theorem ofNat_eq {b : UInt8} {n : Nat} (h : n = b.toNat) : UInt8.ofNat n = b := by
  rw [h, UInt8.ofNat_toNat]

theorem ofBase64Digits_digits (bytes : List UInt8) : ofBase64Digits (base64Digits bytes) = bytes := by
  induction bytes using base64Digits.induct with
  | case1 => simp [base64Digits, ofBase64Digits]
  | case2 a =>
    have ha : UInt8.ofNat (a.toNat / 4 * 4 + a.toNat % 4 * 16 / 16) = a := ofNat_eq (by omega)
    simp only [base64Digits, ofBase64Digits, ha]
  | case3 a b =>
    have hb := b.toNat_lt
    have ha : UInt8.ofNat (a.toNat / 4 * 4 + (a.toNat % 4 * 16 + b.toNat / 16) / 16) = a := ofNat_eq (by omega)
    have hb' : UInt8.ofNat ((a.toNat % 4 * 16 + b.toNat / 16) % 16 * 16 + b.toNat % 16 * 4 / 4) = b :=
      ofNat_eq (by omega)
    simp only [base64Digits, ofBase64Digits, ha, hb']
  | case4 a b c rest ih =>
    have hb := b.toNat_lt
    have hc := c.toNat_lt
    have ha : UInt8.ofNat (a.toNat / 4 * 4 + (a.toNat % 4 * 16 + b.toNat / 16) / 16) = a := ofNat_eq (by omega)
    have hb' : UInt8.ofNat ((a.toNat % 4 * 16 + b.toNat / 16) % 16 * 16 +
      (b.toNat % 16 * 4 + c.toNat / 64) / 4) = b :=
      ofNat_eq (by omega)
    have hc' : UInt8.ofNat ((b.toNat % 16 * 4 + c.toNat / 64) % 4 * 64 + c.toNat % 64) = c := ofNat_eq (by omega)
    simp only [base64Digits, ofBase64Digits, ha, hb', hc', ih]

theorem digitValue_digit : ∀ n < 64, digitValue (digit n) = some n := by
  -- the characters of the literal, so that no digit decodes it again
  have halphabet : alphabet = _ := String.toList_ofList
  simp only [digit, halphabet]
  decide +kernel

theorem digit_ne_dot {n : Nat} (hn : n < 64) : digit n ≠ '.' := by
  intro h
  have := digitValue_digit n hn
  rw [h] at this
  cases this

theorem digitValues {l : List Nat} (h : ∀ n ∈ l, n < 64) : (l.map digit).filterMap digitValue = l := by
  induction l with
  | nil => rfl
  | cons n l ih =>
    rw [List.map_cons, List.filterMap_cons_some (digitValue_digit n (h n List.mem_cons_self)),
      ih fun m hm => h m (List.mem_cons_of_mem _ hm)]

@[simp] theorem base64Decode_base64url (bytes : List UInt8) : base64Decode (base64url bytes) = bytes := by
  unfold base64Decode base64url
  rw [digitValues (base64Digits_lt bytes), ofBase64Digits_digits]

theorem base64url_ne_dot {bytes : List UInt8} : ∀ c ∈ base64url bytes, c ≠ '.' := by
  intro c hc
  obtain ⟨n, hn, rfl⟩ := List.mem_map.mp hc
  exact digit_ne_dot (base64Digits_lt bytes n hn)

end Encoding
