import Mathlib.Data.List.Sort

/-!
# JavaScript values

The parts of the language and its standard library that the services' code
uses: values that may be `undefined` or `null`, the order of strings
(`Array.prototype.sort`), `trim` and `join`, JSON values with
`JSON.stringify`, and dates, which hold milliseconds since the epoch.
-/

namespace DocVault

inductive Nullable (α : Type) where
  | undef
  | null
  | val (a : α)
  deriving DecidableEq, Repr

def Nullable.toOption {α : Type} : Nullable α → Option α
  | val a => some a
  | _ => none

@[simp] theorem Nullable.toOption_val {α : Type} (a : α) : (val a).toOption = some a := rfl
@[simp] theorem Nullable.toOption_null {α : Type} : (null : Nullable α).toOption = none := rfl
@[simp] theorem Nullable.toOption_undef {α : Type} : (undef : Nullable α).toOption = none := rfl

def Nullable.show : Nullable String → String
  | undef => "undefined"
  | null => "null"
  | val s => s

def showOpt (s : Option String) : String := s.getD "undefined"

/-- A `Buffer`. -/
abbrev Bytes := List UInt8

/-! ## Strings -/

def utf16Units (c : Char) : List Nat :=
  if c.toNat < 0x10000 then [c.toNat]
  else [0xD800 + (c.toNat - 0x10000) / 0x400, 0xDC00 + (c.toNat - 0x10000) % 0x400]

def utf16 (s : String) : List Nat := s.toList.flatMap utf16Units

def lexLe : List Nat → List Nat → Bool
  | [], _ => true
  | _ :: _, [] => false
  | a :: l, b :: m => a < b || (a == b && lexLe l m)

/-- The order of `Array.prototype.sort` on strings: by UTF-16 code units. -/
def keyLe (a b : String) : Bool := lexLe (utf16 a) (utf16 b)

def sortByKey {α : Type} (fields : List (String × α)) : List (String × α) :=
  fields.insertionSort fun a b => keyLe a.1 b.1

def isSpace (c : Char) : Bool :=
  c ∈ ['\t', '\n', '\x0b', '\x0c', '\r', ' ', '\u00a0', '\u1680', '\u2028', '\u2029', '\u202f', '\u205f',
    '\u3000', '\ufeff'] || (0x2000 ≤ c.toNat && c.toNat ≤ 0x200a)

def trim (s : String) : String :=
  String.ofList (((s.toList.dropWhile isSpace).reverse.dropWhile isSpace).reverse)

def join (sep : String) (l : List String) : String := sep.intercalate l

/-- `[...new Set(l)]` has no element twice. -/
theorem nodup_eraseDups {α : Type} [BEq α] [LawfulBEq α] (l : List α) : l.eraseDups.Nodup := by
  induction hn : l.length using Nat.strongRecOn generalizing l with
  | ind n ih =>
    cases l with
    | nil => simp
    | cons x l =>
      rw [List.eraseDups_cons, List.nodup_cons, List.mem_eraseDups]
      have hlen : (l.filter fun y => !y == x).length < n :=
        (List.length_filter_le _ l).trans_lt (by rw [← hn, List.length_cons]; exact Nat.lt_succ_self _)
      exact ⟨by simp, ih _ hlen _ rfl⟩

def isVariationSelector (c : Char) : Bool := c.toNat = 0xFE0E || c.toNat = 0xFE0F

def countedLength (after : Bool) : List Char → Nat
  | [] => 0
  | c :: l => (if after && isVariationSelector c then 0 else 1) + countedLength (!isVariationSelector c) l

/-- The decorator of class-validator: unlike `length`, it counts a surrogate pair once, and a variation selector
together with the character before it. -/
def MaxLength (n : Nat) (s : String) : Bool := countedLength false s.toList ≤ n

/-! ## JSON -/

/-- A JSON value. Objects list their own properties in property order; a
number is the text `JSON.stringify` prints for it. -/
inductive Json where
  | null
  | bool (b : Bool)
  | num (text : String)
  | str (s : String)
  | arr (l : List Json)
  | obj (fields : List (String × Json))

def hexDigit (n : Nat) : Char := if n < 10 then Char.ofNat (48 + n) else Char.ofNat (87 + n)

def escapeChar (c : Char) : List Char :=
  if c = '"' then ['\\', '"']
  else if c = '\\' then ['\\', '\\']
  else if c.toNat = 8 then ['\\', 'b']
  else if c.toNat = 9 then ['\\', 't']
  else if c.toNat = 10 then ['\\', 'n']
  else if c.toNat = 12 then ['\\', 'f']
  else if c.toNat = 13 then ['\\', 'r']
  else if c.toNat < 32 then ['\\', 'u', '0', '0', hexDigit (c.toNat / 16), hexDigit (c.toNat % 16)]
  else [c]

def quote (s : String) : String := String.ofList ('"' :: s.toList.flatMap escapeChar ++ ['"'])

mutual
def Json.stringify : Json → String
  | .null => "null"
  | .bool b => if b then "true" else "false"
  | .num t => t
  | .str s => quote s
  | .arr l => "[" ++ stringifyElems l ++ "]"
  | .obj fs => "\x7b" ++ stringifyFields fs ++ "\x7d"
def Json.stringifyElems : List Json → String
  | [] => ""
  | [x] => x.stringify
  | x :: y :: l => x.stringify ++ "," ++ stringifyElems (y :: l)
def Json.stringifyFields : List (String × Json) → String
  | [] => ""
  | [(k, v)] => quote k ++ ":" ++ v.stringify
  | (k, v) :: f :: fs => quote k ++ ":" ++ v.stringify ++ "," ++ stringifyFields (f :: fs)
end

/-- `some n` when the key is the array index `n`, which objects list first. -/
def arrayIndex (key : String) : Option Nat :=
  let n := key.toList.foldl (fun n c => n * 10 + (c.toNat - 48)) 0
  if String.ofList (Nat.toDigits 10 n) = key ∧ n < 4294967295 then some n else none

/-- The property order of an object whose keys were assigned in the order of
`fields`: array indices ascending, then the other keys as assigned. Assigning
to `__proto__` creates no property. -/
def ownOrder {α : Type} (fields : List (String × α)) : List (String × α) :=
  let own := fields.filter fun f => f.1 ≠ "__proto__"
  (own.filter fun f => (arrayIndex f.1).isSome).insertionSort (fun a b =>
    (arrayIndex a.1).getD 0 ≤ (arrayIndex b.1).getD 0) ++
    own.filter fun f => (arrayIndex f.1).isNone

/-! ## Dates -/

structure JsDate where
  ms : Int
  valid : ms.natAbs ≤ 8640000000000000
  deriving DecidableEq, Repr

theorem JsDate.epoch_valid : (0 : Int).natAbs ≤ 8640000000000000 := by decide

def JsDate.epoch : JsDate := ⟨0, epoch_valid⟩

-- `days` counts from 1970-01-01; the civil calendar repeats every 146097 days.
def civil (days : Int) : Int × Int × Int :=
  let z := days + 719468
  let era := z / 146097
  let doe := z % 146097
  let yoe := (doe - doe / 1460 + doe / 36524 - doe / 146096) / 365
  let doy := doe - (365 * yoe + yoe / 4 - yoe / 100)
  let mp := (5 * doy + 2) / 153
  let month := if mp < 10 then mp + 3 else mp - 9
  (yoe + era * 400 + (if month ≤ 2 then 1 else 0), month, doy - (153 * mp + 2) / 5 + 1)

def pad (width : Nat) (n : Nat) : String := String.ofList (List.leftpad width '0' (Nat.toDigits 10 n))

def showYear (y : Int) : String :=
  if 0 ≤ y ∧ y ≤ 9999 then pad 4 y.toNat
  else (if y < 0 then "-" else "+") ++ pad 6 y.natAbs

def JsDate.toISOString (d : JsDate) : String :=
  let (y, mo, day) := civil (d.ms / 86400000)
  let t := (d.ms % 86400000).toNat
  showYear y ++ "-" ++ pad 2 mo.toNat ++ "-" ++ pad 2 day.toNat ++ "T" ++ pad 2 (t / 3600000) ++ ":" ++
    pad 2 (t / 60000 % 60) ++ ":" ++ pad 2 (t / 1000 % 60) ++ "." ++ pad 3 (t % 1000) ++ "Z"

example : (JsDate.mk 1780531200000 (by decide)).toISOString = "2026-06-04T00:00:00.000Z" := by decide

end DocVault
