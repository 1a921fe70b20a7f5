import DocVault.Js
import Mathlib.Algebra.Group.Nat.Defs
import Mathlib.Data.List.TakeWhile

/-!
# JavaScript numbers

`Number(text)` and the functions of numbers that the code uses. A number is a
binary64 value: a text is read exactly and rounded to the nearest one. The sign
of zero is left out, as nothing asks for it.
-/

namespace DocVault

inductive JsNumber where
  | nan
  | infinity (negative : Bool)
  | finite (q : Rat)
  deriving DecidableEq

namespace JsNumber

/-! ## Rounding -/

def roundHalfEven (n d : Nat) : Nat :=
  let k := n / d
  let r := n % d
  if d < 2 * r ∨ 2 * r = d ∧ k % 2 = 1 then k + 1 else k

def pow2 (e : Int) : Nat := 2 ^ e.toNat

/-- The exponent of the last place of the binary64 values around `n / d`. -/
def lastPlace (n d : Nat) : Int :=
  let l : Int := (n.log2 : Int) - d.log2
  let l := if n * pow2 (-l) < d * pow2 l then l - 1 else l
  max (l - 52) (-1074)

/-- The binary64 value nearest to `n / d`. -/
def nearest (n d : Nat) : JsNumber :=
  let e := lastPlace n d
  let m := roundHalfEven (n * pow2 (-e)) (d * pow2 e)
  if 2 ^ 1024 * pow2 (-e) ≤ m * pow2 e then infinity false else finite (mkRat (m * pow2 e) (pow2 (-e)))

def neg : JsNumber → JsNumber
  | nan => nan
  | infinity negative => infinity !negative
  | finite q => finite (-q)

/-- `Math.round` -/
def round : JsNumber → JsNumber
  | finite q => finite (q + 1 / 2).floor
  | v => v

/-! ## Number -/

def radixDigit (c : Char) : Option Nat :=
  if '0' ≤ c ∧ c ≤ '9' then some (c.toNat - 48)
  else if 'a' ≤ c ∧ c ≤ 'z' then some (c.toNat - 87)
  else if 'A' ≤ c ∧ c ≤ 'Z' then some (c.toNat - 55)
  else none

-- `0x`, `0o` and `0b` numerals have at least one digit and no sign.
def readRadix (radix : Nat) (cs : List Char) : JsNumber :=
  if cs ≠ [] ∧ cs.all (fun c => (radixDigit c).any (· < radix)) then
    nearest (cs.foldl (fun n c => n * radix + (radixDigit c).getD 0) 0) 1
  else nan

def readExponent : List Char → Option Int
  | [] => some 0
  | c :: cs =>
    let (negative, digits) := match cs with
      | '-' :: digits => (true, digits)
      | '+' :: digits => (false, digits)
      | digits => (false, digits)
    if (c = 'e' ∨ c = 'E') ∧ digits ≠ [] ∧ digits.all Char.isDigit then
      let n : Int := Nat.ofDigitChars 10 digits 0
      some (if negative then -n else n)
    else none

def readUnsigned (cs : List Char) : JsNumber :=
  if cs = "Infinity".toList then infinity false
  else
    let whole := cs.takeWhile Char.isDigit
    let rest := cs.dropWhile Char.isDigit
    let fraction := match rest with
      | '.' :: rest => rest.takeWhile Char.isDigit
      | _ => []
    let rest := match rest with
      | '.' :: rest => rest.dropWhile Char.isDigit
      | _ => rest
    match readExponent rest with
    | none => nan
    | some e =>
      if whole = [] ∧ fraction = [] then nan
      else
        let scale := e - fraction.length
        nearest (Nat.ofDigitChars 10 (whole ++ fraction) 0 * 10 ^ scale.toNat) (10 ^ (-scale).toNat)

def radixOf (c : Char) : Option Nat :=
  if c = 'x' ∨ c = 'X' then some 16 else if c = 'o' ∨ c = 'O' then some 8
    else if c = 'b' ∨ c = 'B' then some 2 else none

def readNumeral : List Char → JsNumber
  | [] => finite 0
  | '0' :: c :: cs =>
    match radixOf c with
    | some radix => readRadix radix cs
    | none => readUnsigned ('0' :: c :: cs)
  | '+' :: cs => readUnsigned cs
  | '-' :: cs => (readUnsigned cs).neg
  | cs => readUnsigned cs

end JsNumber

/-- `Number(text)` -/
def Number (s : String) : JsNumber := JsNumber.readNumeral (trim s).toList

/-- `parseInt(text, 10)`: the digits that a text begins with, after white space and a sign. -/
def parseInt (s : String) : JsNumber :=
  let cs := s.toList.dropWhile isSpace
  let (negative, cs) := match cs with
    | '-' :: cs => (true, cs)
    | '+' :: cs => (false, cs)
    | cs => (false, cs)
  match cs.takeWhile Char.isDigit with
  | [] => .nan
  | ds =>
    let n := JsNumber.nearest (Nat.ofDigitChars 10 ds 0) 1
    if negative then n.neg else n

namespace JsNumber

def le : JsNumber → JsNumber → Bool
  | nan, _ => false
  | _, nan => false
  | infinity true, _ => true
  | _, infinity false => true
  | infinity false, _ => false
  | _, infinity true => false
  | finite p, finite q => p ≤ q

/-- `Math.min` -/
def min (a b : JsNumber) : JsNumber := if a = nan ∨ b = nan then nan else if a.le b then a else b

/-- `Math.max` -/
def max (a b : JsNumber) : JsNumber := if a = nan ∨ b = nan then nan else if a.le b then b else a

/-! ## Arithmetic -/

def ofRat (q : Rat) : JsNumber :=
  let v := nearest q.num.natAbs q.den
  if q < 0 then v.neg else v

def sub : JsNumber → JsNumber → JsNumber
  | nan, _ => nan
  | _, nan => nan
  | infinity s, infinity s' => if s = s' then nan else infinity s
  | infinity s, finite _ => infinity s
  | finite _, infinity s => infinity !s
  | finite p, finite q => ofRat (p - q)

def mul : JsNumber → JsNumber → JsNumber
  | nan, _ => nan
  | _, nan => nan
  | infinity s, infinity s' => infinity (s != s')
  | infinity s, finite q => if q = 0 then nan else infinity (s != decide (q < 0))
  | finite p, infinity s => if p = 0 then nan else infinity (s != decide (p < 0))
  | finite p, finite q => ofRat (p * q)

def div : JsNumber → JsNumber → JsNumber
  | nan, _ => nan
  | _, nan => nan
  | infinity _, infinity _ => nan
  | infinity s, finite q => infinity (s != decide (q < 0))
  | finite _, infinity _ => finite 0
  | finite p, finite q => if q = 0 then (if p = 0 then nan else infinity (decide (p < 0))) else ofRat (p / q)

/-- `Math.ceil` -/
def ceil : JsNumber → JsNumber
  | finite q => finite q.ceil
  | v => v

/-! ## slice -/

/-- Where `slice(0, end)` of an array of `length` elements stops: `ToIntegerOrInfinity`
truncates, and a negative end counts from the end of the array. -/
def sliceEnd (length : Nat) : JsNumber → Nat
  | nan => 0
  | infinity negative => if negative then 0 else length
  | finite q =>
    let k := q.num.tdiv q.den
    if k < 0 then (length + k).toNat else Min.min k.toNat length

def slice {α : Type} (l : List α) (stop : JsNumber) : List α := l.take (sliceEnd l.length stop)

/-! ## Whole numbers -/

theorem slice_nat {α : Type} (l : List α) (n : Nat) : slice l (finite n) = l.take n := by
  have hpos : ¬ (n : Int) < 0 := by omega
  have hstop : sliceEnd l.length (finite n) = Min.min n l.length := by
    simp [sliceEnd, hpos]
  rw [slice, hstop]
  by_cases h : n ≤ l.length
  · rw [Nat.min_eq_left h]
  · rw [Nat.min_eq_right (by omega), List.take_length, List.take_of_length_le (by omega)]

theorem roundHalfEven_one (n : Nat) : roundHalfEven n 1 = n := by
  simp [roundHalfEven, Nat.mod_one]

theorem lastPlace_nonpos {n : Nat} (h : n < 2 ^ 53) : lastPlace n 1 ≤ 0 := by
  have hlog : n.log2 ≤ 52 := by
    by_cases hn : n = 0
    · simp [hn]
    · exact Nat.lt_succ_iff.mp ((Nat.log2_lt hn).mpr h)
  have hone : Nat.log2 1 = 0 := by decide
  simp only [lastPlace, hone]
  split <;> omega

/-- Whole numbers up to 2^53 are rounded to themselves. -/
theorem nearest_nat {n : Nat} (h : n < 2 ^ 53) : nearest n 1 = finite n := by
  have hplace := lastPlace_nonpos h
  have hone : pow2 (lastPlace n 1) = 1 := by
    rw [pow2, Int.toNat_of_nonpos hplace, Nat.pow_zero]
  have hpos : 0 < pow2 (-lastPlace n 1) := Nat.two_pow_pos _
  have hlarge : ¬ 2 ^ 1024 * pow2 (-lastPlace n 1) ≤ n * pow2 (-lastPlace n 1) := fun hle =>
    absurd (Nat.le_of_mul_le_mul_right hle hpos) (by omega)
  simp only [nearest, hone, Nat.mul_one, roundHalfEven_one, if_neg hlarge]
  have hcancel : mkRat (n * pow2 (-lastPlace n 1)) (1 * pow2 (-lastPlace n 1)) = mkRat n 1 :=
    Rat.mkRat_mul_right (Nat.ne_of_gt hpos)
  rw [Nat.one_mul] at hcancel
  rw [Int.ofNat_one, Int.mul_one, Int.natCast_mul]
  exact congrArg finite (hcancel.trans (Rat.mkRat_self n))

theorem isSpace_digit {c : Char} (h : c.isDigit = true) : isSpace c = false := by
  have hlisted : ∀ c ∈ ['\t', '\n', '\x0b', '\x0c', '\r', ' ', '\u00a0', '\u1680', '\u2028', '\u2029', '\u202f',
      '\u205f', '\u3000', '\ufeff'], c.isDigit = false := by simp
  have hle : c.toNat ≤ 57 := UInt32.le_iff_toNat_le.mp (of_decide_eq_true (Bool.and_eq_true_iff.mp h).2)
  rw [isSpace, Bool.or_eq_false_iff]
  constructor
  · rw [decide_eq_false_iff_not]
    intro hc
    rw [hlisted c hc] at h
    cases h
  · simp
    omega

/-- A text without white space. -/
theorem trim_eq {s : String} (h : ∀ c ∈ s.toList, isSpace c = false) : trim s = s := by
  have hdrop : ∀ l : List Char, (∀ c ∈ l, isSpace c = false) → l.dropWhile isSpace = l := by
    intro l hl
    cases l with
    | nil => rfl
    | cons c l => rw [List.dropWhile_cons_of_neg (by simp [hl c List.mem_cons_self])]
  rw [trim, hdrop _ h, hdrop _ fun c hc => h c (List.mem_reverse.mp hc), List.reverse_reverse, String.ofList_toList]

theorem trim_digits {s : String} (h : ∀ c ∈ s.toList, c.isDigit = true) : trim s = s :=
  trim_eq fun c hc => isSpace_digit (h c hc)

theorem readUnsigned_digits {cs : List Char} (hne : cs ≠ []) (h : ∀ c ∈ cs, c.isDigit = true) :
    readUnsigned cs = nearest (Nat.ofDigitChars 10 cs 0) 1 := by
  have hinfinity : cs ≠ "Infinity".toList := by
    rintro rfl
    exact absurd (h 'I' (by decide)) (by decide)
  have htake : cs.takeWhile Char.isDigit = cs := List.takeWhile_eq_self_iff.mpr h
  have hdrop : cs.dropWhile Char.isDigit = [] := List.dropWhile_eq_nil_iff.mpr h
  unfold readUnsigned
  rw [if_neg hinfinity]
  simp only [htake, hdrop, readExponent]
  rw [if_neg fun hnil => hne hnil.1]
  simp

theorem readNumeral_digits {cs : List Char} (hne : cs ≠ []) (h : ∀ c ∈ cs, c.isDigit = true) :
    readNumeral cs = readUnsigned cs := by
  unfold readNumeral
  split
  · exact absurd rfl hne
  · rename_i c cs
    have hc := h c (List.mem_cons_of_mem _ List.mem_cons_self)
    have hradix : radixOf c = none := by
      unfold radixOf
      split_ifs with hx ho hb
      · rcases hx with rfl | rfl <;> cases hc
      · rcases ho with rfl | rfl <;> cases hc
      · rcases hb with rfl | rfl <;> cases hc
      · rfl
    rw [hradix]
  · cases h '+' List.mem_cons_self
  · cases h '-' List.mem_cons_self
  · rfl

theorem Number_toString {n : Nat} (h : n < 2 ^ 53) : Number (toString n) = finite n := by
  have htext : (toString n).toList = Nat.toDigits 10 n := by simp
  have hdigits : ∀ c ∈ (toString n).toList, c.isDigit = true := fun c hc =>
    Nat.isDigit_of_mem_toDigits (by omega) (by omega) (htext ▸ hc)
  have hne : (toString n).toList ≠ [] := by simp
  rw [Number, trim_digits hdigits, readNumeral_digits hne hdigits, readUnsigned_digits hne hdigits, htext,
    Nat.ofDigitChars_ten_toDigits, nearest_nat h]

theorem Number_int {a : Int} (h : a.natAbs < 2 ^ 53) : Number (toString a) = finite a := by
  cases a with
  | ofNat n => exact Number_toString h
  | negSucc n =>
    have htext : (toString (Int.negSucc n)).toList = '-' :: Nat.toDigits 10 (n + 1) := by
      simp [Int.toString_eq_repr, Int.repr]
    have hdigits : ∀ c ∈ Nat.toDigits 10 (n + 1), c.isDigit = true := fun c hc =>
      Nat.isDigit_of_mem_toDigits (by omega) (by omega) hc
    have hspace : ∀ c ∈ (toString (Int.negSucc n)).toList, isSpace c = false := by
      rw [htext]
      exact List.forall_mem_cons.mpr ⟨by decide, fun c hc => isSpace_digit (hdigits c hc)⟩
    have hminus : readNumeral ('-' :: Nat.toDigits 10 (n + 1)) = (readUnsigned (Nat.toDigits 10 (n + 1))).neg := rfl
    rw [Number, trim_eq hspace, htext, hminus, readUnsigned_digits Nat.toDigits_ne_nil hdigits,
      Nat.ofDigitChars_ten_toDigits, nearest_nat (n := n + 1) h, neg, Int.negSucc_eq]
    have hcast : ((n + 1 : Nat) : Rat) = ((n + 1 : Int) : Rat) := by rfl
    rw [hcast, Rat.intCast_neg]

/-! ## Whole numbers in arithmetic -/

theorem le_nat (m n : Nat) : (finite m).le (finite n) = decide (m ≤ n) :=
  decide_eq_decide.mpr Rat.natCast_le_natCast

theorem max_nat (m n : Nat) : (finite m).max (finite n) = finite (Max.max m n : Nat) := by
  unfold max
  rw [if_neg (by simp), le_nat]
  by_cases h : m ≤ n
  · rw [if_pos (by simpa using h), Nat.max_eq_right h]
  · rw [if_neg (by simpa using h), Nat.max_eq_left (by omega)]

theorem min_nat (m n : Nat) : (finite m).min (finite n) = finite (Min.min m n : Nat) := by
  unfold min
  rw [if_neg (by simp), le_nat]
  by_cases h : m ≤ n
  · rw [if_pos (by simpa using h), Nat.min_eq_left h]
  · rw [if_neg (by simpa using h), Nat.min_eq_right (by omega)]

theorem ofRat_nat {n : Nat} (h : n < 2 ^ 53) : ofRat n = finite n := by
  have hpos : ¬ (n : Rat) < 0 := by
    exact Rat.not_lt.mpr Rat.natCast_nonneg
  simp only [ofRat, if_neg hpos]
  exact nearest_nat h

theorem mul_nat {m n : Nat} (h : m * n < 2 ^ 53) : (finite m).mul (finite n) = finite (m * n : Nat) := by
  rw [mul, ← Rat.natCast_mul, ofRat_nat h]

theorem sub_one_nat {n : Nat} (h : n < 2 ^ 53) : (finite (n + 1 : Nat)).sub (finite 1) = finite n := by
  have hcancel : ((n + 1 : Nat) : Rat) - 1 = n := by
    rw [Rat.natCast_add]
    exact Rat.add_sub_cancel
  rw [sub, hcancel]
  exact ofRat_nat h

theorem parseInt_toString {n : Nat} (h : n < 2 ^ 53) : parseInt (toString n) = finite n := by
  have htext : (toString n).toList = Nat.toDigits 10 n := by simp
  have hdigits : ∀ c ∈ Nat.toDigits 10 n, c.isDigit = true := fun c hc =>
    Nat.isDigit_of_mem_toDigits (by omega) (by omega) hc
  have hdrop : (Nat.toDigits 10 n).dropWhile isSpace = Nat.toDigits 10 n := by
    cases hd : Nat.toDigits 10 n with
    | nil => rfl
    | cons c cs => rw [List.dropWhile_cons_of_neg (by simp [isSpace_digit (hdigits c (by simp [hd]))])]
  have htake : (Nat.toDigits 10 n).takeWhile Char.isDigit = Nat.toDigits 10 n :=
    List.takeWhile_eq_self_iff.mpr hdigits
  have hvalue := Nat.ofDigitChars_ten_toDigits (n := n)
  unfold parseInt
  rw [htext, hdrop]
  cases hd : Nat.toDigits 10 n with
  | nil => exact absurd hd Nat.toDigits_ne_nil
  | cons c cs =>
    have hc := hdigits c (by simp [hd])
    rw [hd] at htake hvalue
    have hminus : c ≠ '-' := by
      rintro rfl
      cases hc
    have hplus : c ≠ '+' := by
      rintro rfl
      cases hc
    simp [htake, hvalue, nearest_nat h, hminus, hplus]

/-- Whole numbers from 2^53 on are not rounded below it. -/
theorem nearest_large {n : Nat} (h : 2 ^ 53 ≤ n) : (finite (2 ^ 53 : Nat)).le (nearest n 1) = true := by
  have hn : n ≠ 0 := by omega
  have hlog : 53 ≤ n.log2 := (Nat.le_log2 hn).mpr h
  obtain ⟨e, he⟩ := Nat.exists_eq_add_of_le hlog
  have hplace : lastPlace n 1 = (e + 1 : Nat) := by
    have hone : Nat.log2 1 = 0 := by decide
    have hsmall : ¬ n * pow2 (-((n.log2 : Int) - (0 : Nat))) < 1 * pow2 ((n.log2 : Int) - (0 : Nat)) := by
      have hself := Nat.log2_self_le hn
      simp [pow2]
      omega
    simp only [lastPlace, hone, if_neg hsmall]
    omega
  have hup : pow2 ((e + 1 : Nat) : Int) = 2 ^ (e + 1) := by simp [pow2]
  have hdown : pow2 (-((e + 1 : Nat) : Int)) = 1 := by
    rw [pow2, Int.toNat_of_nonpos (by omega), Nat.pow_zero]
  -- What is cut off leaves 53 binary digits.
  have hdigits : 2 ^ 52 ≤ n / 2 ^ (e + 1) := by
    rw [Nat.le_div_iff_mul_le (Nat.two_pow_pos _), ← Nat.pow_add, show 52 + (e + 1) = n.log2 by omega]
    exact Nat.log2_self_le hn
  have hround : 2 ^ 52 ≤ roundHalfEven n (2 ^ (e + 1)) := by
    unfold roundHalfEven
    dsimp only
    split <;> omega
  have htwo : 2 ≤ 2 ^ (e + 1) := by
    rw [Nat.pow_succ]
    have := Nat.two_pow_pos e
    omega
  have hvalue : 2 ^ 53 ≤ roundHalfEven n (2 ^ (e + 1)) * 2 ^ (e + 1) := Nat.mul_le_mul hround htwo
  unfold nearest
  simp only [hplace, hup, hdown, Nat.mul_one, Nat.one_mul]
  split
  · rfl
  · have hwhole : ∀ m : Nat, mkRat (m : Int) 1 = (m : Rat) := fun m => Rat.mkRat_self m
    rw [← Int.natCast_mul, hwhole, le_nat]
    exact decide_eq_true hvalue

theorem signed_cases (negative : Bool) (v : JsNumber) :
    (if negative = true then v.neg else v) = v ∨ (if negative = true then v.neg else v) = v.neg := by
  cases negative
  · exact .inl rfl
  · exact .inr rfl

/-- What a text is read as is no number, or a whole number that was rounded. -/
theorem parseInt_cases (s : String) :
    parseInt s = nan ∨ ∃ n, parseInt s = nearest n 1 ∨ parseInt s = (nearest n 1).neg := by
  unfold parseInt
  dsimp only
  split
  · exact .inl rfl
  · exact .inr ⟨_, signed_cases _ _⟩

theorem nearest_cases (n : Nat) :
    nearest n 1 = finite n ∨ 2 ^ 53 ≤ n ∧ (finite (2 ^ 53 : Nat)).le (nearest n 1) = true := by
  by_cases h : n < 2 ^ 53
  · exact .inl (nearest_nat h)
  · exact .inr ⟨by omega, nearest_large (by omega)⟩

end JsNumber

example : Number " 0x1F " = .finite 31 := by decide +kernel
example : Number "-2.50e1" = .finite (-25) := by decide +kernel
example : Number "9007199254740993" = .finite 9007199254740992 := by decide +kernel
example : Number "12px" = .nan := by decide +kernel

end DocVault
