import Mathlib.Data.List.Induction
import Mathlib.Tactic.Ring
import Mathlib.Tactic.Positivity
import Fluo.Lib.Numerals

/-!
# Numbers of JSON texts

A finite number is known by its shortest decimal, a natural number without a zero
at its end times a power of ten. It is written as `Number::toString` writes it and
read by the grammar of JSON numbers.
-/

namespace Fluo.Js

structure Decimal where
  negative : Bool
  digits : Nat
  exponent : Int
  canonical : if digits = 0 then negative = false ∧ exponent = 0 else digits % 10 ≠ 0
  deriving DecidableEq, Repr

def zeros (n : Nat) : JsString := List.replicate n (unit '0')

/-- The digits with the decimal point where it belongs, or with an exponent. -/
def magnitude (digits : Nat) (exponent : Int) : JsString :=
  let ds := digitsIn 10 digits
  let n := exponent + ds.length
  if 0 ≤ exponent ∧ n ≤ 21 then ds ++ zeros exponent.toNat
  else if 0 < n ∧ n ≤ 21 then ds.take n.toNat ++ unit '.' :: ds.drop n.toNat
  else if -6 < n ∧ n ≤ 0 then text "0." ++ zeros (-n).toNat ++ ds
  else
    (if ds.length = 1 then ds else ds.take 1 ++ unit '.' :: ds.drop 1) ++
      unit 'e' :: (if 0 ≤ n - 1 then unit '+' else unit '-') :: digitsIn 10 (n - 1).natAbs

def Decimal.text (d : Decimal) : JsString := (if d.negative then [unit '-'] else []) ++ magnitude d.digits d.exponent

def stripZeros (digits : Nat) (exponent : Int) : Nat × Int :=
  if digits ≠ 0 ∧ digits % 10 = 0 then stripZeros (digits / 10) (exponent + 1) else (digits, exponent)
termination_by digits
decreasing_by omega

theorem stripZeros_last (digits : Nat) (exponent : Int) :
    (stripZeros digits exponent).1 = 0 ∨ (stripZeros digits exponent).1 % 10 ≠ 0 := by
  fun_induction stripZeros digits exponent with
  | case1 digits exponent h ih => exact ih
  | case2 digits exponent h =>
    by_cases zero : digits = 0
    · exact .inl zero
    · exact .inr fun last => h ⟨zero, last⟩

def normalized (negative : Bool) (digits : Nat) (exponent : Int) : Decimal :=
  let stripped := stripZeros digits exponent
  if zero : stripped.1 = 0 then ⟨false, 0, 0, by simp⟩
  else ⟨negative, stripped.1, stripped.2, by
    rw [if_neg zero]
    exact (stripZeros_last digits exponent).resolve_left zero⟩

/-- `-?(0|[1-9]\d*)(\.\d+)?([eE][+-]?\d+)?` -/
def readNumber (token : JsString) : Option Decimal :=
  let negative := token.head? = some (unit '-')
  let token := if negative then token.drop 1 else token
  let int := token.takeWhile isDigit
  let rest := token.dropWhile isDigit
  if int = [] ∨ 1 < int.length ∧ int.head? = some (unit '0') then none
  else
    let fraction := if rest.head? = some (unit '.') then (rest.drop 1).takeWhile isDigit else []
    let tail := if rest.head? = some (unit '.') then (rest.drop 1).dropWhile isDigit else rest
    if rest.head? = some (unit '.') ∧ fraction = [] then none
    else
      let value := normalized negative (numberIn 10 (int ++ fraction))
      match tail with
      | [] => some (value (-fraction.length))
      | e :: exponent =>
        if e = unit 'e' ∨ e = unit 'E' then
          let minus := exponent.head? = some (unit '-')
          let exponent := if minus ∨ exponent.head? = some (unit '+') then exponent.drop 1 else exponent
          if isDigits exponent then
            let shift : Int := numberIn 10 exponent
            some (value ((if minus then -shift else shift) - fraction.length))
          else none
        else none

theorem Decimal.exponent_zero (d : Decimal) (zero : d.digits = 0) : d.exponent = 0 := by
  have canonical := d.canonical
  rw [if_pos zero] at canonical
  exact canonical.2

/-! ## Digits -/

theorem numberIn_append (base : Nat) (s t : JsString) :
    numberIn base (s ++ t) = numberIn base s * base ^ t.length + numberIn base t := by
  induction t using List.reverseRecOn with
  | nil => simp [numberIn]
  | append_singleton t u ih =>
    rw [← List.append_assoc, numberIn_concat, numberIn_concat, ih, List.length_append, List.length_singleton, Nat.pow_succ]
    ring

theorem numberIn_zeros (n : Nat) : numberIn 10 (zeros n) = 0 := by
  induction n with
  | zero => rfl
  | succ n ih =>
    rw [zeros, List.replicate_succ', numberIn_concat]
    rw [zeros] at ih
    rw [ih]
    rfl

theorem zeros_all (n : Nat) : (zeros n).all isDigit = true := by
  rw [zeros, List.all_replicate]
  split <;> rfl

theorem digits_all (n : Nat) : (digitsIn 10 n).all isDigit = true :=
  digitsIn_all (by decide) (fun _ less => digitChar_decimal less) n

/-- The digits of a number begin with a zero only if they are nothing else. -/
theorem digitsIn_head {n : Nat} (h : (digitsIn 10 n).head? = some (unit '0')) : n = 0 := by
  induction n using Nat.strongRecOn with
  | ind n ih =>
    rcases Nat.lt_or_ge n 10 with less | le
    · have small : ∀ n < 10, (digitsIn 10 n).head? = some (unit '0') → n = 0 := by decide
      exact small n less h
    · rw [digitsIn_step (by decide) le, List.head?_append_of_ne_nil _ (digitsIn_ne_nil 10 (n / 10))] at h
      have zero := ih (n / 10) (Nat.div_lt_self (by omega) (by decide)) h
      omega

theorem stripZeros_mul {digits : Nat} (last : digits % 10 ≠ 0) (j : Nat) (exponent : Int) :
    stripZeros (digits * 10 ^ j) exponent = (digits, exponent + j) := by
  induction j generalizing exponent with
  | zero =>
    rw [Nat.pow_zero, Nat.mul_one, stripZeros, if_neg fun h => last h.2]
    simp
  | succ j ih =>
    have positive : digits ≠ 0 := by
      rintro rfl
      exact last rfl
    have shape : digits * 10 ^ (j + 1) = digits * 10 ^ j * 10 := by rw [Nat.pow_succ, Nat.mul_assoc]
    have divides : digits * 10 ^ j * 10 % 10 = 0 := Nat.mul_mod_left _ _
    have less : digits * 10 ^ j * 10 / 10 = digits * 10 ^ j := Nat.mul_div_cancel _ (by decide)
    rw [shape, stripZeros, if_pos ⟨by positivity, divides⟩, less, ih]
    refine Prod.ext rfl ?_
    push_cast
    ring

theorem normalized_mul (d : Decimal) (j : Nat) : normalized d.negative (d.digits * 10 ^ j) (d.exponent - j) = d := by
  obtain ⟨negative, digits, exponent, canonical⟩ := d
  by_cases zero : digits = 0
  · subst zero
    obtain ⟨rfl, rfl⟩ := canonical
    have strip (e : Int) : stripZeros 0 e = (0, e) := by rw [stripZeros, if_neg fun h => h.1 rfl]
    simp [normalized, strip]
  · rw [if_neg zero] at canonical
    have strip := stripZeros_mul canonical j (exponent - j)
    rw [Int.sub_add_cancel] at strip
    simp [normalized, strip, zero]

/-! ## Reading what is written -/

def fractionText (fraction : JsString) : JsString := if fraction = [] then [] else unit '.' :: fraction

def exponentText : Option (Bool × Nat) → JsString
  | none => []
  | some (minus, n) => unit 'e' :: (if minus then unit '-' else unit '+') :: digitsIn 10 n

def exponentValue : Option (Bool × Nat) → Int
  | none => 0
  | some (minus, n) => if minus then -n else n

theorem exponentText_head (exponent : Option (Bool × Nat)) : ∀ u ∈ (exponentText exponent).head?, u = unit 'e' := by
  cases exponent with
  | none => exact nofun
  | some e => exact fun u mem => (Option.some.inj mem).symm

theorem takeWhile_stop {s t : JsString} (digits : s.all isDigit = true) (stop : ∀ u ∈ t.head?, isDigit u = false) :
    (s ++ t).takeWhile isDigit = s ∧ (s ++ t).dropWhile isDigit = t := by
  have all := List.all_eq_true.mp digits
  rw [List.takeWhile_append_of_pos all, List.dropWhile_append_of_pos all]
  cases t with
  | nil => exact ⟨List.append_nil s, rfl⟩
  | cons u t =>
    have no := stop u rfl
    rw [List.takeWhile_cons_of_neg (by simp [no]), List.dropWhile_cons_of_neg (by simp [no])]
    exact ⟨List.append_nil s, rfl⟩

theorem readNumber_numeral (negative : Bool) {int fraction : JsString} (exponent : Option (Bool × Nat))
    (intDigits : int.all isDigit = true) (some_ : int ≠ []) (leading : int.head? = some (unit '0') → int.length = 1)
    (fractionDigits : fraction.all isDigit = true) :
    readNumber ((if negative then [unit '-'] else []) ++ (int ++ (fractionText fraction ++ exponentText exponent))) =
      some (normalized negative (numberIn 10 (int ++ fraction)) (exponentValue exponent - fraction.length)) := by
  have noMinus {s : JsString} : (int ++ s).head? ≠ some (unit '-') := by
    cases int with
    | nil => exact absurd rfl some_
    | cons u int =>
      intro same
      have digit := List.all_eq_true.mp intDigits u List.mem_cons_self
      rw [Option.some.inj same] at digit
      cases digit
  have eNoDigit : ∀ u ∈ (exponentText exponent).head?, isDigit u = false := by
    intro u mem
    rw [exponentText_head exponent u mem]
    decide
  have stop : ∀ u ∈ (fractionText fraction ++ exponentText exponent).head?, isDigit u = false := by
    rw [fractionText]
    split
    · exact eNoDigit
    · intro u mem
      rw [← Option.some.inj mem]
      decide
  have intPart := takeWhile_stop intDigits stop
  have valid : ¬ (int = [] ∨ 1 < int.length ∧ int.head? = some (unit '0')) := by
    rintro (empty | ⟨long, zero⟩)
    · exact some_ empty
    · have one := leading zero
      omega
  have point : (fractionText fraction ++ exponentText exponent).head? = some (unit '.') ↔ fraction ≠ [] := by
    rw [fractionText]
    split
    next empty =>
      refine ⟨fun same => ?_, fun h => absurd empty h⟩
      exact absurd (exponentText_head exponent _ same) (by decide)
    next given => exact ⟨fun _ => given, fun _ => rfl⟩
  have fractionPart : (if (fractionText fraction ++ exponentText exponent).head? = some (unit '.') then
      ((fractionText fraction ++ exponentText exponent).drop 1).takeWhile isDigit else []) = fraction ∧
      (if (fractionText fraction ++ exponentText exponent).head? = some (unit '.') then
        ((fractionText fraction ++ exponentText exponent).drop 1).dropWhile isDigit
        else fractionText fraction ++ exponentText exponent) = exponentText exponent := by
    by_cases empty : fraction = []
    · rw [if_neg (fun same => point.mp same empty), if_neg (fun same => point.mp same empty), fractionText, if_pos empty]
      exact ⟨empty.symm, rfl⟩
    · rw [if_pos (point.mpr empty), if_pos (point.mpr empty), fractionText, if_neg empty]
      exact takeWhile_stop fractionDigits eNoDigit
  have sign : (((if negative then [unit '-'] else []) ++ (int ++ (fractionText fraction ++ exponentText exponent))).head? =
      some (unit '-')) = (negative = true) := by
    cases negative with
    | true => simp
    | false => exact eq_false_intro noMinus |>.trans (by simp)
  have token : (if (negative : Prop) then
      ((if negative then [unit '-'] else []) ++ (int ++ (fractionText fraction ++ exponentText exponent))).drop 1
      else (if negative then [unit '-'] else []) ++ (int ++ (fractionText fraction ++ exponentText exponent))) =
      int ++ (fractionText fraction ++ exponentText exponent) := by
    cases negative <;> rfl
  rw [readNumber]
  simp only [sign, token, intPart.1, intPart.2, if_neg valid, fractionPart.1, fractionPart.2]
  rw [if_neg fun h => point.mp h.1 h.2]
  cases exponent with
  | none => simp [exponentText, exponentValue]
  | some e =>
    obtain ⟨minus, n⟩ := e
    have digits : isDigits (digitsIn 10 n) = true := by rw [isDigits, digits_all, decide_eq_true (digitsIn_ne_nil 10 n)]; rfl
    cases minus with
    | true => simp [exponentText, exponentValue, digits, numberIn_digitsIn]
    | false => simp [exponentText, exponentValue, digits, numberIn_digitsIn, show unit '+' ≠ unit '-' by decide]

def writtenExponent (m : Int) : Option (Bool × Nat) := some (decide (m < 0), m.natAbs)

theorem exponentText_written (m : Int) :
    unit 'e' :: (if 0 ≤ m then unit '+' else unit '-') :: digitsIn 10 m.natAbs = exponentText (writtenExponent m) := by
  by_cases negative : m < 0
  · rw [if_neg (Int.not_le.mpr negative), writtenExponent, exponentText, decide_eq_true negative, if_pos rfl]
  · rw [if_pos (Int.not_lt.mp negative), writtenExponent, exponentText, decide_eq_false negative, if_neg Bool.false_ne_true]

theorem exponentValue_written (m : Int) : exponentValue (writtenExponent m) = m := by
  by_cases negative : m < 0
  · rw [writtenExponent, exponentValue, decide_eq_true negative, if_pos rfl]
    omega
  · rw [writtenExponent, exponentValue, decide_eq_false negative, if_neg Bool.false_ne_true]
    omega

/-- The texts of decimals: the digits before and after the point, and the exponent. -/
theorem magnitude_parts (digits : Nat) (exponent : Int) (h : digits = 0 → exponent = 0) :
    ∃ (int fraction : JsString) (e : Option (Bool × Nat)) (j : Nat), magnitude digits exponent = int ++ (fractionText fraction ++ exponentText e) ∧
      int.all isDigit = true ∧ int ≠ [] ∧ (int.head? = some (unit '0') → int.length = 1) ∧
      fraction.all isDigit = true ∧ numberIn 10 (int ++ fraction) = digits * 10 ^ j ∧
      exponentValue e - fraction.length = exponent - j := by
  have number : numberIn 10 (digitsIn 10 digits) = digits := numberIn_digitsIn (by decide) (by decide) digits
  have all := digits_all digits
  have nonempty := digitsIn_ne_nil 10 digits
  have head (zero : (digitsIn 10 digits).head? = some (unit '0')) : digits = 0 := digitsIn_head zero
  have single (zero : digits = 0) : digitsIn 10 digits = [unit '0'] := by rw [zero]; rfl
  have positive := List.length_pos_of_ne_nil nonempty
  unfold magnitude
  dsimp only
  generalize digitsIn 10 digits = ds at number all nonempty head single positive
  have pieces (n : Nat) : (ds.take n).all isDigit = true ∧ (ds.drop n).all isDigit = true := by
    rw [← Bool.and_eq_true, ← List.all_append, List.take_append_drop]
    exact all
  have front {n : Nat} (some_ : 0 < n) : (ds.take n).head? = ds.head? := by
    cases ds with
    | nil => exact absurd rfl nonempty
    | cons u ds =>
      cases n with
      | zero => cases some_
      | succ n => rfl
  have taken {n : Nat} (some_ : 0 < n) : ds.take n ≠ [] := by
    intro empty
    rcases List.take_eq_nil_iff.mp empty with zero | none_
    · omega
    · exact nonempty none_
  split
  next whole =>
    refine ⟨ds ++ zeros exponent.toNat, [], none, exponent.toNat, by simp [fractionText, exponentText], ?_, ?_, ?_, rfl, ?_, ?_⟩
    · rw [List.all_append, all, zeros_all]
      rfl
    · exact List.append_ne_nil_of_left_ne_nil nonempty _
    · intro zero
      rw [List.head?_append_of_ne_nil _ nonempty] at zero
      rw [single (head zero), h (head zero)]
      rfl
    · rw [List.append_nil, numberIn_append, numberIn_zeros, number, Nat.add_zero, zeros, List.length_replicate]
    · simp only [exponentValue, List.length_nil]
      omega
  split
  next whole inside =>
    have fraction : ds.drop (exponent + ds.length).toNat ≠ [] := by
      intro empty
      have := List.drop_eq_nil_iff.mp empty
      omega
    refine ⟨ds.take (exponent + ds.length).toNat, ds.drop (exponent + ds.length).toNat, none, 0, ?_, (pieces _).1,
      taken (by omega), ?_, (pieces _).2, ?_, ?_⟩
    · rw [fractionText, if_neg fraction, exponentText, List.append_nil]
    · intro zero
      rw [front (by omega)] at zero
      have digit := head zero
      have power := h digit
      have one := single digit
      rw [one] at inside whole fraction ⊢
      simp only [List.length_singleton] at inside whole ⊢
      omega
    · rw [List.take_append_drop, number, Nat.pow_zero, Nat.mul_one]
    · simp only [exponentValue, List.length_drop]
      omega
  split
  next whole inside small =>
    have fraction : zeros (-(exponent + ds.length)).toNat ++ ds ≠ [] := List.append_ne_nil_of_right_ne_nil _ nonempty
    refine ⟨[unit '0'], zeros (-(exponent + ds.length)).toNat ++ ds, none, 0, ?_, rfl, List.cons_ne_nil _ _, fun _ => rfl, ?_,
      ?_, ?_⟩
    · rw [fractionText, if_neg fraction, exponentText, List.append_nil]
      rfl
    · rw [List.all_append, all, zeros_all]
      rfl
    · have first : numberIn 10 [unit '0'] = 0 := rfl
      rw [numberIn_append, numberIn_append, numberIn_zeros, number, Nat.pow_zero, Nat.mul_one, first, Nat.zero_mul,
        Nat.zero_mul, Nat.zero_add, Nat.zero_add]
    · simp only [exponentValue, List.length_append, zeros, List.length_replicate]
      omega
  next whole inside small =>
    refine ⟨ds.take 1, ds.drop 1, writtenExponent (exponent + ds.length - 1), 0, ?_, (pieces 1).1, taken (by decide), fun _ => ?_, (pieces 1).2, ?_, ?_⟩
    · rw [exponentText_written]
      split
      next one =>
        have rest : ds.drop 1 = [] := List.drop_eq_nil_iff.mpr (Nat.le_of_eq one)
        rw [rest, fractionText, if_pos rfl, List.nil_append, List.take_of_length_le (Nat.le_of_eq one)]
      next several =>
        have rest : ds.drop 1 ≠ [] := fun empty => several (Nat.le_antisymm (List.drop_eq_nil_iff.mp empty) positive)
        rw [fractionText, if_neg rest, List.append_assoc]
    · rw [List.length_take]
      omega
    · rw [List.take_append_drop, number, Nat.pow_zero, Nat.mul_one]
    · rw [exponentValue_written, List.length_drop]
      omega

theorem readNumber_text (d : Decimal) : readNumber d.text = some d := by
  obtain ⟨int, fraction, e, j, shape, intDigits, some_, leading, fractionDigits, number, power⟩ :=
    magnitude_parts d.digits d.exponent d.exponent_zero
  rw [Decimal.text, shape, readNumber_numeral d.negative e intDigits some_ leading fractionDigits, number, power, normalized_mul]

example : (⟨true, 15, -8, by decide⟩ : Decimal).text = text "-1.5e-7" := by decide

def isNumberUnit (u : UInt16) : Bool := isDigit u || u ∈ [unit '-', unit '+', unit '.', unit 'e', unit 'E']

theorem text_units (d : Decimal) : d.text.all isNumberUnit = true := by
  obtain ⟨int, fraction, e, j, shape, intDigits, -, -, fractionDigits, -, -⟩ := magnitude_parts d.digits d.exponent d.exponent_zero
  have digits {s : JsString} (h : s.all isDigit = true) : s.all isNumberUnit = true :=
    List.all_eq_true.mpr fun u mem => by rw [isNumberUnit, List.all_eq_true.mp h u mem]; rfl
  have sign : (if d.negative then [unit '-'] else []).all isNumberUnit = true := by
    split <;> decide
  have fractionUnits : (fractionText fraction).all isNumberUnit = true := by
    rw [fractionText]
    split
    · rfl
    · rw [List.all_cons, digits fractionDigits]
      rfl
  have exponentUnits : (exponentText e).all isNumberUnit = true := by
    cases e with
    | none => rfl
    | some e =>
      obtain ⟨minus, n⟩ := e
      cases minus <;>
        · rw [exponentText, List.all_cons, List.all_cons, digits (digits_all n)]
          rfl
  rw [Decimal.text, shape, List.all_append, List.all_append, List.all_append, sign, digits intDigits, fractionUnits,
    exponentUnits]
  rfl

theorem text_head (d : Decimal) : ∃ u rest, d.text = u :: rest ∧ (u = unit '-' ∨ isDigit u = true) := by
  obtain ⟨int, fraction, e, j, shape, intDigits, some_, -⟩ := magnitude_parts d.digits d.exponent d.exponent_zero
  rw [Decimal.text, shape]
  split
  · exact ⟨_, _, rfl, .inl rfl⟩
  · cases int with
    | nil => exact absurd rfl some_
    | cons u int => exact ⟨u, _, rfl, .inr (List.all_eq_true.mp intDigits u List.mem_cons_self)⟩

end Fluo.Js
