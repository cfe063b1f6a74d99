import Fluo.Lib.JsString

/-!
# Numerals

Texts of natural numbers to a base, and the numbers they stand for.
-/

namespace Fluo.Js

def isDigit (u : UInt16) : Bool := unit '0' ≤ u && u ≤ unit '9'

def isDigits (s : JsString) : Bool := s ≠ [] && s.all isDigit

/-- The value of a digit; those behind 9 are the small letters, beginning with a. -/
def digitValue (u : UInt16) : Nat := if isDigit u then u.toNat - (unit '0').toNat else u.toNat - (unit 'a').toNat + 10

/-- The number that digits stand for, the first one most significant. -/
def numberIn (base : Nat) (s : JsString) : Nat := s.foldl (fun n u => n * base + digitValue u) 0

def digitsIn (base n : Nat) : JsString := (Nat.toDigits base n).map unit

theorem numberIn_concat (base : Nat) (s : JsString) (u : UInt16) :
    numberIn base (s ++ [u]) = numberIn base s * base + digitValue u := by
  rw [numberIn, List.foldl_append, numberIn]
  rfl

theorem digitChar_value {d : Nat} (h : d < 16) : digitValue (unit d.digitChar) = d ∧
    (isDigit (unit d.digitChar) || (unit 'a' ≤ unit d.digitChar && unit d.digitChar ≤ unit 'f')) = true := by
  have all : ∀ d < 16, digitValue (unit d.digitChar) = d ∧
    (isDigit (unit d.digitChar) || (unit 'a' ≤ unit d.digitChar && unit d.digitChar ≤ unit 'f')) = true := by decide
  exact all d h

theorem digitChar_decimal {d : Nat} (h : d < 10) : isDigit (unit d.digitChar) = true := by
  have all : ∀ d < 10, isDigit (unit d.digitChar) = true := by decide
  exact all d h

theorem digitsIn_step {base n : Nat} (large : 1 < base) (le : base ≤ n) :
    digitsIn base n = digitsIn base (n / base) ++ [unit (n % base).digitChar] := by
  rw [digitsIn, Nat.toDigits_of_base_le large le, List.map_append]
  rfl

theorem digitsIn_small {base n : Nat} (less : n < base) : digitsIn base n = [unit n.digitChar] := by
  rw [digitsIn, Nat.toDigits_of_lt_base less]
  rfl

/-- Numerals are read back, to every base that has digits for it. -/
theorem numberIn_digitsIn {base : Nat} (large : 1 < base) (small : base ≤ 16) (n : Nat) :
    numberIn base (digitsIn base n) = n := by
  induction n using Nat.strongRecOn with
  | ind n ih =>
    rcases Nat.lt_or_ge n base with less | le
    · rw [digitsIn_small less, numberIn, List.foldl_cons, List.foldl_nil, (digitChar_value (by omega)).1]
      omega
    · rw [digitsIn_step large le, numberIn_concat, ih (n / base) (Nat.div_lt_self (by omega) large),
        (digitChar_value (by have := Nat.mod_lt n (by omega : base > 0); omega)).1]
      exact Nat.div_add_mod' n base

theorem digitsIn_all {base : Nat} (large : 1 < base) {p : UInt16 → Bool} (digit : ∀ d < base, p (unit d.digitChar) = true)
    (n : Nat) : (digitsIn base n).all p = true := by
  induction n using Nat.strongRecOn with
  | ind n ih =>
    rcases Nat.lt_or_ge n base with less | le
    · rw [digitsIn_small less, List.all_cons, digit n less]
      rfl
    · rw [digitsIn_step large le, List.all_append, ih (n / base) (Nat.div_lt_self (by omega) large), List.all_cons,
        digit _ (Nat.mod_lt n (by omega))]
      rfl

theorem digitsIn_ne_nil (base n : Nat) : digitsIn base n ≠ [] := by
  rw [digitsIn, ne_eq, List.map_eq_nil_iff]
  exact Nat.toDigits_ne_nil

theorem digitsIn_length {base n k : Nat} (large : 1 < base) (positive : 0 < k) (less : n < base ^ k) :
    (digitsIn base n).length ≤ k := by
  rw [digitsIn, List.length_map]
  exact (Nat.length_toDigits_le_iff large positive).mpr less

end Fluo.Js
