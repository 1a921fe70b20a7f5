import DocVault.Js
import DocVault.Regex

/-!
# Texts and their expressions

A text is the list of its UTF-16 code units, which is what the expressions of
JavaScript read.
-/

namespace DocVault

open Regex

abbrev Text := List Nat

/-! ## Character classes -/

def isDigit (u : Nat) : Bool := 48 ≤ u && u ≤ 57

def isLetter (u : Nat) : Bool := (65 ≤ u && u ≤ 90) || (97 ≤ u && u ≤ 122)

def isHexDigit (u : Nat) : Bool := isDigit u || (65 ≤ u && u ≤ 70) || (97 ≤ u && u ≤ 102)

/-- `\w`, which decides where `\b` holds. -/
def isWord (u : Nat) : Bool := isDigit u || isLetter u || u = 95

/-- `\s` -/
def isBlank (u : Nat) : Bool := isSpace (Char.ofNat u)

def otherCase (u : Nat) : Nat := if 65 ≤ u && u ≤ 90 then u + 32 else if 97 ≤ u && u ≤ 122 then u - 32 else u

/-- The flag `i`. No unit outside ASCII folds to one inside. -/
def ignoreCase : Regex Nat → Regex Nat
  | .empty => .empty
  | .one p => .one fun u => p u || p (otherCase u)
  | .seq r s => .seq (ignoreCase r) (ignoreCase s)
  | .alt r s => .alt (ignoreCase r) (ignoreCase s)
  | .rep greedy max r => .rep greedy max (ignoreCase r)
  | .boundary => .boundary

def isOneOf (s : String) (u : Nat) : Bool := u ∈ utf16 s

def chain (l : List (Regex Nat)) : Regex Nat := l.foldr .seq .empty

def text (s : String) : Regex Nat := lit (utf16 s)

end DocVault
