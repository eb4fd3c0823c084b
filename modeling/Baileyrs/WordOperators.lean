import Baileyrs.JsNumberSums
import Mathlib.Algebra.Order.Floor.Ring
import Mathlib.Data.Rat.Floor

/-!
# Operators on 32-bit words

The operators of the language on bits take two numbers for words of 32 bits, and give
the signed number of a word, or the unsigned one. A sum of few such numbers is exact, so
its word is the sum of their words.
-/

namespace Baileyrs.JsNumber

section Operators

/-- Word of a number. -/
def word (x : JsNumber) : BitVec 32 := BitVec.ofInt 32 x.toInt

/-- Number of a signed word. -/
def signed (w : BitVec 32) : JsNumber := ofInt w.toInt

/-- Number of an unsigned word. -/
def unsigned (w : BitVec 32) : JsNumber := ofInt w.toNat

/-- `x << count` for a count below 32. -/
def shiftLeft (x : JsNumber) (count : ℕ) : JsNumber := signed (x.word <<< count)

/-- `x >> count` for a count below 32. -/
def shiftRight (x : JsNumber) (count : ℕ) : JsNumber := signed (x.word.sshiftRight count)

/-- `x >>> count` for a count below 32. -/
def unsignedShiftRight (x : JsNumber) (count : ℕ) : JsNumber := unsigned (x.word >>> count)

/-- `x & y`. -/
def bitAnd (x y : JsNumber) : JsNumber := signed (x.word &&& y.word)

/-- `x | y`. -/
def bitOr (x y : JsNumber) : JsNumber := signed (x.word ||| y.word)

/-- `x ^ y`. -/
def bitXor (x y : JsNumber) : JsNumber := signed (x.word ^^^ y.word)

/-- `~x`. -/
def bitNot (x : JsNumber) : JsNumber := signed (~~~x.word)

/-- Quotient of two numbers. -/
def div (x y : JsNumber) : JsNumber :=
  let negative := x.isNegative != y.isNegative
  if x.isNaN || y.isNaN then nan
  else if !x.isFinite then if !y.isFinite then nan else if negative then negativeInfinity else infinity
  else if !y.isFinite then if negative then negativeZero else zero
  else if y.value = 0 then if x.value = 0 then nan else if negative then negativeInfinity else infinity
  else if x.value = 0 then if negative then negativeZero else zero
  else ofRational (x.value/y.value)

/-- Largest integer that is not above a number. -/
def floor (x : JsNumber) : JsNumber := if !x.isFinite || x.value.den = 1 then x else ofInt ⌊x.value⌋

end Operators

section Integers

variable {x y : JsNumber} {i j : ℤ}

/-- A number is exactly an integer that is safe. -/
structure IsInteger (x : JsNumber) (i : ℤ) : Prop where
  /-- It is a number. -/
  finite : x.isFinite = true
  /-- Its value. -/
  value : x.value = i
  /-- The integer is safe. -/
  safe : i.natAbs < 2^53

theorem isInteger_ofInt (h : i.natAbs < 2^53) : IsInteger (ofInt i) i := by
  obtain ⟨hfinite,hvalue⟩ := (nearest_ofInt i).exact h
  exact ⟨hfinite,hvalue,h⟩

theorem IsInteger.toInt (h : IsInteger x i) : x.toInt = i := toInt_value h.finite h.value

theorem IsInteger.word (h : IsInteger x i) : x.word = BitVec.ofInt 32 i := by
  rw [JsNumber.word,h.toInt]

/-- A sum that is safe is exact. -/
theorem IsInteger.add (hx : IsInteger x i) (hy : IsInteger y j) (h : (i+j).natAbs < 2^53) : IsInteger (x.add y) (i+j) := by
  have hsum : x.value+y.value = (i+j : ℤ) := by rw [hx.value,hy.value,Int.cast_add]
  obtain ⟨hfinite,hvalue⟩ := (nearest_add hx.finite hy.finite hsum).exact h
  exact ⟨hfinite,hvalue,h⟩

/-- A product that is safe is exact. -/
theorem IsInteger.mul (hx : IsInteger x i) (hy : IsInteger y j) (h : (i*j).natAbs < 2^53) : IsInteger (x.mul y) (i*j) := by
  have hproduct : x.value*y.value = (i*j : ℤ)*2^0 := by rw [hx.value,hy.value,Int.cast_mul,pow_zero,mul_one]
  obtain ⟨hfinite,hvalue⟩ := mul_scaled hx.finite hy.finite h (by omega) hproduct
  rw [pow_zero,mul_one] at hvalue
  exact ⟨hfinite,hvalue,h⟩

/-- The quotient by a power of two is exact, so its integer part is that of the integers. -/
theorem IsInteger.floor_div (hx : IsInteger x i) {n : ℕ} (hy : IsInteger y (2^n)) (hn : n ≤ 900) :
    IsInteger (x.div y).floor (i/2^n) := by
  have hpower : (2 : ℚ)^n ≠ 0 := by positivity
  have hyValue : y.value = 2^n := by
    rw [hy.value]
    norm_cast
  have hsafe : (i/2^n).natAbs < 2^53 := by
    have hpositive : 0 < (2 : ℤ)^n := by positivity
    have hx := hx.safe
    rcases Int.lt_or_le i 0 with hnegative | hpositiveInteger
    · have hle : i ≤ i/2^n := Int.le_ediv_of_mul_le hpositive (by nlinarith)
      have hneg : i/2^n < 0 := Int.ediv_neg_of_neg_of_pos hnegative hpositive
      omega
    · have hle := Int.ediv_le_self (2^n) hpositiveInteger
      have hnonneg := Int.ediv_nonneg hpositiveInteger hpositive.le
      omega
  have hfloor : ⌊(i : ℚ)/2^n⌋ = i/2^n := by
    have hcast := Rat.floor_intCast_div_natCast i (2^n)
    rwa [Nat.cast_pow,Nat.cast_ofNat,Nat.cast_pow,Nat.cast_ofNat] at hcast
  have hquotient : (x.div y).isFinite = true ∧ (x.div y).value = (i : ℚ)/2^n := by
    unfold div
    rw [isNaN_finite hx.finite,isNaN_finite hy.finite,hx.finite,hy.finite,hyValue,hx.value]
    dsimp only
    rw [if_neg (by decide),if_neg (by decide),if_neg (by decide),if_neg hpower]
    by_cases hzero : (i : ℚ) = 0
    · rw [if_pos hzero,hzero,zero_div]
      split
      · exact ⟨rfl,value_negativeZero⟩
      · exact ⟨rfl,value_zero⟩
    · have hscaled := ofRational_power hx.safe (by omega : -900 ≤ -(n : ℤ)) (by omega)
      rw [zpow_neg,zpow_natCast,← div_eq_mul_inv] at hscaled
      rw [if_neg hzero]
      exact hscaled
  unfold floor
  rw [hquotient.1,hquotient.2]
  by_cases hwhole : ((i : ℚ)/2^n).den = 1
  · have hvalue : (i : ℚ)/2^n = ((i/2^n : ℤ) : ℚ) := by
      rw [← hfloor]
      have hnum := (Rat.den_eq_one_iff _).mp hwhole
      rw [← hnum,Int.floor_intCast]
    have hcondition : (!true || decide (((i : ℚ)/2^n).den = 1)) = true := by
      rw [decide_eq_true hwhole]
      rfl
    rw [if_pos hcondition]
    exact ⟨hquotient.1,hquotient.2.trans hvalue,hsafe⟩
  · have hcondition : ¬(!true || decide (((i : ℚ)/2^n).den = 1)) = true := by
      rw [decide_eq_false hwhole]
      exact Bool.false_ne_true
    rw [if_neg hcondition,hfloor]
    exact isInteger_ofInt hsafe

end Integers

section Words

variable {x y : JsNumber} {v w : BitVec 32} {m n : ℕ}

/-- A number is an integer of a bounded size and stands for a word. -/
def Denotes (size : ℕ) (x : JsNumber) (w : BitVec 32) : Prop :=
  ∃ i : ℤ, IsInteger x i ∧ i.natAbs ≤ size*2^32 ∧ BitVec.ofInt 32 i = w

theorem denotes_signed (w : BitVec 32) : Denotes 1 (signed w) w := by
  have hlow := w.le_toInt
  have hhigh := @BitVec.toInt_lt 32 w
  exact ⟨w.toInt,isInteger_ofInt (by omega),by omega,BitVec.ofInt_toInt⟩

theorem denotes_unsigned (w : BitVec 32) : Denotes 1 (unsigned w) w := by
  have hlt := w.isLt
  have hword : BitVec.ofInt 32 w.toNat = w := by rw [BitVec.ofInt_natCast,BitVec.ofNat_toNat,BitVec.setWidth_eq]
  exact ⟨w.toNat,isInteger_ofInt (by omega),by omega,hword⟩

theorem Denotes.word (h : Denotes n x w) : x.word = w := by
  obtain ⟨i,hinteger,_,hword⟩ := h
  rw [hinteger.word,hword]

/-- The word of a sum of few numbers is the sum of their words. -/
theorem Denotes.add (hx : Denotes m x v) (hy : Denotes n y w) (h : m+n < 2^20) : Denotes (m+n) (x.add y) (v+w) := by
  obtain ⟨i,hi,hiSize,hiWord⟩ := hx
  obtain ⟨j,hj,hjSize,hjWord⟩ := hy
  have hsize : (i+j).natAbs ≤ (m+n)*2^32 := by omega
  refine ⟨i+j,hi.add hj (by omega),hsize,?_⟩
  rw [BitVec.ofInt_add,hiWord,hjWord]

theorem word_zero : zero.word = 0 := by
  have hzero : IsInteger zero 0 := ⟨rfl,value_zero.trans Int.cast_zero.symm,by omega⟩
  rw [hzero.word]
  rfl

/-- `| 0` keeps the word and makes it a signed number. -/
theorem Denotes.orZero (h : Denotes m x w) : Denotes 1 (x.bitOr zero) w := by
  rw [JsNumber.bitOr,h.word,word_zero]
  have hsame : w ||| 0 = w := BitVec.or_zero
  rw [hsame]
  exact denotes_signed w

theorem Denotes.bitOr (hx : Denotes m x v) (hy : Denotes n y w) : Denotes 1 (x.bitOr y) (v ||| w) := by
  rw [JsNumber.bitOr,hx.word,hy.word]
  exact denotes_signed _

theorem Denotes.bitXor (hx : Denotes m x v) (hy : Denotes n y w) : Denotes 1 (x.bitXor y) (v ^^^ w) := by
  rw [JsNumber.bitXor,hx.word,hy.word]
  exact denotes_signed _

theorem Denotes.bitAnd (hx : Denotes m x v) (hy : Denotes n y w) : Denotes 1 (x.bitAnd y) (v &&& w) := by
  rw [JsNumber.bitAnd,hx.word,hy.word]
  exact denotes_signed _

theorem Denotes.bitNot (hx : Denotes m x v) : Denotes 1 x.bitNot (~~~v) := by
  rw [JsNumber.bitNot,hx.word]
  exact denotes_signed _

theorem Denotes.shiftLeft (hx : Denotes m x v) (count : ℕ) : Denotes 1 (x.shiftLeft count) (v <<< count) := by
  rw [JsNumber.shiftLeft,hx.word]
  exact denotes_signed _

theorem Denotes.unsignedShiftRight (hx : Denotes m x v) (count : ℕ) :
    Denotes 1 (x.unsignedShiftRight count) (v >>> count) := by
  rw [JsNumber.unsignedShiftRight,hx.word]
  exact denotes_unsigned _

end Words

end Baileyrs.JsNumber
