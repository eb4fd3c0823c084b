import Baileyrs.JsNumberReading
import Mathlib.Algebra.Order.Ring.Abs
import Mathlib.Data.Rat.Cast.Order

/-!
# Sums and products of numbers

A sum or a product is the double nearest to the exact one. It is the exact one where that
is an integer with few enough bits between its zeros, and it is no safe integer where
that is an integer which is none.
-/

namespace Baileyrs.JsNumber

section Arithmetic

/-- Value of a finite number. -/
def value (x : JsNumber) : ℚ := (if x.isNegative then -1 else 1)*((x.ratio.1 : ℚ)/x.ratio.2)

/-- Nearest double of a rational. -/
def ofRational (q : ℚ) : JsNumber := ofRatio (q < 0) q.num.natAbs q.den

/-- Sum of two numbers. -/
def add (x y : JsNumber) : JsNumber :=
  if x.isNaN || y.isNaN then nan
  else if !x.isFinite then if !y.isFinite && y ≠ x then nan else x
  else if !y.isFinite then y
  else if x.value+y.value = 0 then if x.isNegative && y.isNegative then negativeZero else zero
  else ofRational (x.value+y.value)

/-- Product of two numbers. -/
def mul (x y : JsNumber) : JsNumber :=
  let negative := x.isNegative != y.isNegative
  if x.isNaN || y.isNaN then nan
  else if !x.isFinite || !y.isFinite then
    if (x.isFinite && x.value = 0) || (y.isFinite && y.value = 0) then nan
    else if negative then negativeInfinity else infinity
  else if x.value*y.value = 0 then if negative then negativeZero else zero
  else ofRational (x.value*y.value)

/-- An integer of which no other one rounds to the same double. -/
def isSafeInteger (x : JsNumber) : Bool := x.isFinite && (x.value.den = 1 && x.value.num.natAbs < 2^53)

end Arithmetic

section Values

variable {x y : JsNumber} {q : ℚ} {i : ℤ}

theorem value_zero : zero.value = 0 := by
  have hratio : zero.ratio.1 = 0 := rfl
  rw [value,hratio,Nat.cast_zero,zero_div,mul_zero]

theorem value_negativeZero : negativeZero.value = 0 := by
  have hratio : negativeZero.ratio.1 = 0 := rfl
  rw [value,hratio,Nat.cast_zero,zero_div,mul_zero]

/-- Magnitude of a rational. -/
theorem abs_ratio (q : ℚ) : (q.num.natAbs : ℚ)/q.den = |q| := by
  have hden : |(q.den : ℚ)| = q.den := abs_of_nonneg (Nat.cast_nonneg _)
  have hwhole := congrArg abs (Rat.num_div_den q)
  rw [abs_div,hden] at hwhole
  rw [← hwhole,Nat.cast_natAbs,Int.cast_abs]

/-- A rational that a double holds is packed as it. -/
theorem ofRational_exact {m : ℕ} {s : ℤ} (hm : Canonical m s) (h : |q| = m*(2 : ℚ)^s) :
    ofRational q = packed (q < 0) m s := by
  have hpos : (0 : ℚ) < |q| := by
    have hmantissa : (0 : ℚ) < m := by exact_mod_cast hm.pos
    rw [h]
    positivity
  have hnum : 0 < q.num.natAbs := by
    have hne : q ≠ 0 := abs_pos.mp hpos
    have hnumerator := Rat.num_ne_zero.mpr hne
    omega
  have hnear := hm.near
  have hvalue := @ratio_power m 2 (by omega) s
  rw [Nat.cast_ofNat] at hvalue
  have hlow := hnear.low
  have hhigh := hnear.high
  rw [hvalue,← h,← abs_ratio] at hlow hhigh
  exact ofRatio_near hnum q.den_pos hm ⟨hlow,hhigh⟩ _

/-- What is packed is read as it. -/
theorem Canonical.read {m : ℕ} {s : ℤ} (hm : Canonical m s) (hs : s ≤ 971) (negative : Bool) :
    (packed negative m s).isFinite = true ∧
      (packed negative m s).value = (if negative then -1 else 1)*(m*(2 : ℚ)^s) := by
  have hpos := hm.pos
  have hhigh := hm.high
  have hlow := hm.low
  obtain ⟨magnitude,hmagnitude⟩ : ∃ magnitude, magnitude = (s+1075).toNat*2^52+m-2^52 := ⟨_,rfl⟩
  have hbound : magnitude < 2047*2^52 := by omega
  have hbits : (packed negative m s).bits.toNat = (if negative then 2^63 else 0)+magnitude := by
    have hmin : min ((s+1075).toNat*2^52+m-2^52) 0x7ff0000000000000 = magnitude := by omega
    have hword : (if negative then 2^63 else 0)+magnitude < 2^64 := by
      split
      · omega
      · omega
    unfold packed
    rw [hmin]
    exact UInt64.toNat_ofNat_of_lt' hword
  have hmod : (packed negative m s).bits.toNat%2^63 = magnitude := by
    rw [hbits]
    split
    · omega
    · omega
  have hnegative : (packed negative m s).isNegative = negative := by
    unfold isNegative
    rw [hbits]
    cases negative with
    | true => exact decide_eq_true (by rw [if_pos rfl]; omega)
    | false => exact decide_eq_false (by rw [if_neg Bool.false_ne_true]; omega)
  refine ⟨?_,?_⟩
  · have hfield : ((packed negative m s).bits/0x10000000000000%0x800).toNat = magnitude/2^52 := by
      have hone : UInt64.toNat 0x10000000000000 = 2^52 := rfl
      have htwo : UInt64.toNat 0x800 = 2048 := rfl
      rw [UInt64.toNat_mod,UInt64.toNat_div,hbits,hone,htwo]
      split
      · omega
      · omega
    unfold isFinite
    rw [bne_iff_ne]
    intro heq
    have hall : UInt64.toNat 0x7ff = 2047 := rfl
    rw [heq,hall] at hfield
    omega
  · have hratio : (packed negative m s).ratio = (m*2^up s,2^down s) := by
      unfold ratio
      dsimp only
      rw [hmod]
      by_cases hleast : magnitude/2^52 = 0
      · have hsmall : m < 2^52 := by omega
        have hexponent : s = -1074 := hm.normal.resolve_left (by omega)
        have hmantissa : magnitude = m := by omega
        have hscale : ((max 0 1 : ℕ) : ℤ)-1075 = s := by omega
        rw [hleast,if_pos rfl,hscale,hmantissa]
      · have hnormal : 2^52 ≤ m := by
          cases hm.normal with
          | inl h => exact h
          | inr h => omega
        have hmantissa : magnitude%2^52+2^52 = m := by omega
        have hscale : ((max (magnitude/2^52) 1 : ℕ) : ℤ)-1075 = s := by omega
        rw [if_neg hleast,hscale,hmantissa]
    have hpower := @ratio_power m 2 (by omega) s
    rw [Nat.cast_ofNat] at hpower
    unfold value
    rw [hnegative,hratio]
    dsimp only
    rw [hpower]

/-- An integer with few bits times a power of two is a double. -/
theorem ofRational_power (hi : i.natAbs < 2^53) {j : ℤ} (hlow : -900 ≤ j) (hhigh : j ≤ 900) :
    (ofRational (i*2^j)).isFinite = true ∧ (ofRational (i*2^j)).value = i*2^j := by
  by_cases hzero : i = 0
  · have hnone : ((0 : ℤ) : ℚ)*2^j = 0 := by rw [Int.cast_zero,zero_mul]
    rw [hzero,hnone]
    exact ⟨rfl,value_zero⟩
  · have hnat : i.natAbs ≠ 0 := Int.natAbs_ne_zero.mpr hzero
    obtain ⟨hlog,hleast,hmost⟩ := mantissa_bounds hnat hi
    have hne : (2 : ℚ) ≠ 0 := two_ne_zero
    have hm : Canonical (i.natAbs*2^(52-Nat.log 2 i.natAbs)) ((Nat.log 2 i.natAbs : ℤ)-52+j) :=
      ⟨by omega,hmost,by omega,.inl hleast⟩
    have habs : |(i : ℚ)*2^j| = (i.natAbs*2^(52-Nat.log 2 i.natAbs) : ℕ)*(2 : ℚ)^((Nat.log 2 i.natAbs : ℤ)-52+j) := by
      have hsum : ((52-Nat.log 2 i.natAbs : ℕ) : ℤ)+((Nat.log 2 i.natAbs : ℤ)-52+j) = j := by omega
      rw [Nat.cast_mul,Nat.cast_pow,Nat.cast_ofNat,mul_assoc,← zpow_natCast (2 : ℚ) (52-Nat.log 2 i.natAbs),
        ← zpow_add₀ hne,hsum,abs_mul,Nat.cast_natAbs,Int.cast_abs,abs_of_pos (by positivity : (0 : ℚ) < 2^j)]
    obtain ⟨hfinite,hvalue⟩ := hm.read (by omega) (decide ((i : ℚ)*2^j < 0))
    rw [ofRational_exact hm habs]
    refine ⟨hfinite,?_⟩
    rw [hvalue,← habs]
    by_cases hneg : (i : ℚ)*2^j < 0
    · rw [if_pos (decide_eq_true hneg),abs_of_neg hneg,neg_one_mul,neg_neg]
    · rw [if_neg (by rw [decide_eq_false hneg]; exact Bool.false_ne_true),abs_of_nonneg (not_lt.mp hneg),one_mul]

/-- An integer with few bits before its zeros is a double. -/
theorem ofRational_scaled (hi : i.natAbs < 2^53) {j : ℕ} (hj : j ≤ 900) :
    (ofRational (i*2^j)).isFinite = true ∧ (ofRational (i*2^j)).value = i*2^j := by
  have hpower := @ofRational_power i hi j (by omega) (by omega)
  rwa [zpow_natCast] at hpower

theorem ofRational_int (i : ℤ) : ofRational i = ofInt i := by
  have hnegative : decide ((i : ℚ) < 0) = decide (i < 0) := by
    rw [decide_eq_decide]
    exact Int.cast_lt_zero
  rw [ofRational,ofInt,hnegative,Rat.num_intCast,Rat.den_intCast]

/-- The double of a large integer has a large exponent. -/
theorem magnitude_large {n : ℕ} (hn : 2^53 ≤ n) : 1076*2^52 ≤ min (magnitude n 1) 0x7ff0000000000000 := by
  have hne : n ≠ 0 := by omega
  have hlog : 53 ≤ Nat.log 2 n := Nat.le_log_of_pow_le (by omega) hn
  have hnat := @ofRatio_nat n hne 0
  rw [pow_zero,Nat.mul_one,ofRatio_magnitude hne,if_neg Bool.false_ne_true,Nat.zero_add] at hnat
  have hcapped := capped_injective (congrArg bits hnat)
  have hround := le_roundHalfEven (n*2^(52-Nat.log 2 n)) (2^(Nat.log 2 n-52))
  have hquotient : 2^52 ≤ n*2^(52-Nat.log 2 n)/2^(Nat.log 2 n-52) := by
    have hsum : 52+(Nat.log 2 n-52) = Nat.log 2 n := by omega
    have hpower : 2^52*2^(Nat.log 2 n-52) = 2^Nat.log 2 n := by rw [← pow_add,hsum]
    have hnone : 52-Nat.log 2 n = 0 := by omega
    rw [Nat.le_div_iff_mul_le (by positivity),hpower,hnone,pow_zero,Nat.mul_one]
    exact Nat.pow_log_le_self 2 hne
  rw [hcapped]
  omega

/-- Magnitude of a double with a large exponent. -/
theorem abs_value_large {x : JsNumber} (h : 1076*2^52 ≤ x.bits.toNat%2^63) : 2^53 ≤ |x.value| := by
  generalize hmagnitude : x.bits.toNat%2^63 = magnitude at h
  have hexponent : magnitude/2^52 ≠ 0 := by omega
  have hscale : ((max (magnitude/2^52) 1 : ℕ) : ℤ)-1075 = (magnitude/2^52-1075 : ℕ) := by omega
  have hup : up ((magnitude/2^52-1075 : ℕ) : ℤ) = magnitude/2^52-1075 := Int.toNat_natCast _
  have hdown : down ((magnitude/2^52-1075 : ℕ) : ℤ) = 0 := by
    unfold down
    omega
  have hratio : x.ratio = ((magnitude%2^52+2^52)*2^(magnitude/2^52-1075),1) := by
    unfold ratio
    dsimp only
    rw [hmagnitude,if_neg hexponent,hscale,hup,hdown,pow_zero]
  have hpower : 2^1 ≤ 2^(magnitude/2^52-1075) := Nat.pow_le_pow_right (by omega) (by omega)
  have hlarge : 2^52*2^1 ≤ (magnitude%2^52+2^52)*2^(magnitude/2^52-1075) := Nat.mul_le_mul (by omega) hpower
  have hcast : (2 : ℚ)^53 ≤ (x.ratio.1 : ℚ)/x.ratio.2 := by
    rw [hratio,Nat.cast_one,div_one]
    exact_mod_cast hlarge
  have hsign : |if x.isNegative = true then (-1 : ℚ) else 1| = 1 := by
    split
    · rw [abs_neg,abs_one]
    · exact abs_one
  rw [value,abs_mul,hsign,one_mul]
  exact hcast.trans (le_abs_self _)

/-- A large integer rounds to no small double. -/
theorem value_ofInt_large (hi : 2^53 ≤ i.natAbs) : 2^53 ≤ |(ofInt i).value| := by
  have hne : i.natAbs ≠ 0 := by omega
  have hlarge := magnitude_large hi
  have hcap := min_le_right (magnitude i.natAbs 1) 0x7ff0000000000000
  refine abs_value_large ?_
  rw [ofInt,ofRatio_magnitude hne]
  generalize min (magnitude i.natAbs 1) 0x7ff0000000000000 = capped at hlarge hcap ⊢
  have hbits : ((if decide (i < 0) = true then 2^63 else 0)+capped).toUInt64.toNat =
      (if decide (i < 0) = true then 2^63 else 0)+capped := by
    have hword : (if decide (i < 0) = true then 2^63 else 0)+capped < 2^64 := by
      split
      · omega
      · omega
    exact UInt64.toNat_ofNat_of_lt' hword
  rw [hbits]
  split
  · omega
  · omega

/-- An integer as a number: exactly it, unless both are not safe. -/
structure Nearest (x : JsNumber) (i : ℤ) : Prop where
  /-- Exactly the integer. -/
  exact : i.natAbs < 2^53 → x.isFinite = true ∧ x.value = i
  /-- No safe integer. -/
  unsafeInteger : 2^53 ≤ i.natAbs → x.isSafeInteger = false

theorem isSafeInteger_value (hfinite : x.isFinite = true) (h : x.value = i) :
    x.isSafeInteger = decide (i.natAbs < 2^53) := by
  rw [isSafeInteger,hfinite,h,Rat.num_intCast,Rat.den_intCast,decide_eq_true rfl,Bool.true_and,Bool.true_and]

/-- A safe integer is the integer that is near. -/
theorem Nearest.isSafeInteger_eq (h : Nearest x i) : x.isSafeInteger = decide (i.natAbs < 2^53) := by
  by_cases hi : i.natAbs < 2^53
  · obtain ⟨hfinite,hvalue⟩ := h.exact hi
    exact isSafeInteger_value hfinite hvalue
  · rw [h.unsafeInteger (not_lt.mp hi),decide_eq_false hi]

/-- A number that is an integer is near it. -/
theorem nearest_value (hfinite : x.isFinite = true) (h : x.value = i) : Nearest x i := by
  refine ⟨fun _ => ⟨hfinite,h⟩,fun hi => ?_⟩
  rw [isSafeInteger_value hfinite h]
  exact decide_eq_false (by omega)

theorem nearest_ofInt (i : ℤ) : Nearest (ofInt i) i := by
  refine ⟨fun hi => ?_,fun hi => ?_⟩
  · have hscaled := @ofRational_scaled i hi 0 (by omega)
    rw [pow_zero,mul_one,ofRational_int] at hscaled
    exact hscaled
  · have hlarge := value_ofInt_large hi
    unfold isSafeInteger
    rw [Bool.and_eq_false_iff,Bool.and_eq_false_iff]
    refine .inr ?_
    by_cases hden : (ofInt i).value.den = 1
    · refine .inr (decide_eq_false fun hsmall => ?_)
      have hvalue : (ofInt i).value = ((ofInt i).value.num : ℚ) := (Rat.den_eq_one_iff _).mp hden |>.symm
      have hcast : |(ofInt i).value| < 2^53 := by
        rw [hvalue,← Int.cast_abs,← Nat.cast_natAbs]
        exact_mod_cast hsmall
      linarith
    · exact .inl (decide_eq_false hden)

/-- The sum of two numbers whose exact sum is an integer is near it. -/
theorem nearest_add (hx : x.isFinite = true) (hy : y.isFinite = true) (h : x.value+y.value = i) : Nearest (x.add y) i := by
  unfold add
  rw [isNaN_finite hx,isNaN_finite hy,hx,hy,h]
  by_cases hzero : (i : ℚ) = 0
  · have hi : i = 0 := Int.cast_eq_zero.mp hzero
    rw [hi,if_neg (by decide),if_neg (by decide),if_neg (by decide),if_pos Int.cast_zero]
    split
    · exact nearest_value rfl (value_negativeZero.trans Int.cast_zero.symm)
    · exact nearest_value rfl (value_zero.trans Int.cast_zero.symm)
  · rw [if_neg (by decide),if_neg (by decide),if_neg (by decide),if_neg hzero,ofRational_int]
    exact nearest_ofInt i

/-- The product of two numbers is exact where it is an integer with few bits before its zeros. -/
theorem mul_scaled (hx : x.isFinite = true) (hy : y.isFinite = true) (hi : i.natAbs < 2^53) {j : ℕ} (hj : j ≤ 900)
    (h : x.value*y.value = i*2^j) : (x.mul y).isFinite = true ∧ (x.mul y).value = i*2^j := by
  unfold mul
  rw [isNaN_finite hx,isNaN_finite hy,hx,hy,h]
  dsimp only
  by_cases hzero : (i : ℚ)*2^j = 0
  · rw [if_neg (by decide),if_neg (by decide),if_pos hzero,hzero]
    split
    · exact ⟨rfl,value_negativeZero⟩
    · exact ⟨rfl,value_zero⟩
  · rw [if_neg (by decide),if_neg (by decide),if_neg hzero]
    exact ofRational_scaled hi hj

/-- The integer part of an integer is the integer. -/
theorem toInt_value (hfinite : x.isFinite = true) (h : x.value = i) : x.toInt = i := by
  have hden : 0 < x.ratio.2 := by
    unfold ratio
    dsimp only
    positivity
  have hdenCast : (0 : ℚ) < x.ratio.2 := by exact_mod_cast hden
  have hmagnitude : (x.ratio.1 : ℚ)/x.ratio.2 = ((if x.isNegative then -i else i : ℤ) : ℚ) := by
    unfold value at h
    split at h
    · rw [if_pos ‹_›,Int.cast_neg,← h,neg_one_mul,neg_neg]
    · rw [if_neg ‹_›,← h,one_mul]
  have hnum : (x.ratio.1 : ℤ) = (if x.isNegative then -i else i)*x.ratio.2 := by
    rw [div_eq_iff hdenCast.ne'] at hmagnitude
    exact_mod_cast hmagnitude
  have hquotient : ((x.ratio.1/x.ratio.2 : ℕ) : ℤ) = if x.isNegative then -i else i := by
    rw [Int.natCast_ediv,hnum]
    exact Int.mul_ediv_cancel _ (by omega)
  unfold toInt
  rw [if_pos hfinite]
  dsimp only
  rw [hquotient]
  split
  · exact neg_neg i
  · rfl

end Values

section Signs

variable {x : JsNumber}

/-- A number above zero. -/
def isPositive (x : JsNumber) : Bool := !x.isNaN && !x.isNegative && x ≠ zero

/-- The value of a finite number that is not zero has its sign and is read back as it. -/
theorem ofRational_value (hfinite : x.isFinite = true) (hzero : x ≠ zero) (hnegative : x ≠ negativeZero) :
    x.value ≠ 0 ∧ decide (x.value < 0) = x.isNegative ∧ ofRational x.value = x := by
  obtain ⟨m,s,hm,hratio,hpacked⟩ := canonical_ratio hfinite hzero hnegative
  have hmantissa : (0 : ℚ) < m := by exact_mod_cast hm.pos
  have hmagnitude : (0 : ℚ) < m*(2 : ℚ)^s := by positivity
  have hpower := @ratio_power m 2 (by omega) s
  rw [Nat.cast_ofNat] at hpower
  have hvalue : x.value = (if x.isNegative then -1 else 1)*(m*(2 : ℚ)^s) := by
    rw [value,hratio,hpower]
  cases hsign : x.isNegative with
  | true =>
    rw [hsign,if_pos rfl,neg_one_mul] at hvalue
    have hbelow : x.value < 0 := by linarith
    have habs : |x.value| = m*(2 : ℚ)^s := by rw [abs_of_neg hbelow,hvalue,neg_neg]
    refine ⟨hbelow.ne,decide_eq_true hbelow,?_⟩
    rw [ofRational_exact hm habs,decide_eq_true hbelow,← hsign,hpacked]
  | false =>
    rw [hsign,if_neg Bool.false_ne_true,one_mul] at hvalue
    have habove : 0 < x.value := by linarith
    have habs : |x.value| = m*(2 : ℚ)^s := by rw [abs_of_pos habove,hvalue]
    have hbelow : ¬x.value < 0 := habove.not_gt
    refine ⟨habove.ne',decide_eq_false hbelow,?_⟩
    rw [ofRational_exact hm habs,decide_eq_false hbelow,← hsign,hpacked]

/-- Adding zero changes no number but the negative zero. -/
theorem add_noAmount (hnumber : x.isNaN = false) (hnegative : x ≠ negativeZero) : x.add zero = x := by
  have hfiniteZero : zero.isFinite = true := rfl
  unfold add
  rw [hnumber,isNaN_finite hfiniteZero,hfiniteZero,value_zero,add_zero,if_neg (by decide)]
  cases hfinite : x.isFinite with
  | false => rfl
  | true =>
    rw [if_neg (by decide),if_neg (by decide)]
    by_cases hzero : x = zero
    · rw [hzero,value_zero,if_pos rfl]
      rfl
    · obtain ⟨hvalue,_,hread⟩ := ofRational_value hfinite hzero hnegative
      rw [if_neg hvalue,hread]

end Signs

end Baileyrs.JsNumber
