import Baileyrs.JsNumberText
import Mathlib.Algebra.Order.Field.Power
import Mathlib.Data.Int.Log
import Mathlib.Data.Rat.Floor
import Mathlib.Tactic.FieldSimp
import Mathlib.Tactic.Linarith
import Mathlib.Tactic.NormNum

/-!
# Doubles near a ratio

A ratio within half a unit of a double rounds to it, and below a power of two within a
quarter. Seventeen decimal digits come that near to every double, so that fewest digits
are always found.
-/

namespace Baileyrs.JsNumber

open JsString AtomicStore

section Scaling

/-- Moving a power between the sides of a ratio. -/
theorem ratio_scaled (num den : ℕ) {base : ℕ} (hbase : 0 < base) (k : ℤ) :
    ((num*base^down k : ℕ) : ℚ)/((den*base^up k : ℕ) : ℚ) = (num : ℚ)/den*(base : ℚ)^(-k) := by
  have hne : (base : ℚ) ≠ 0 := by positivity
  have hpower : (base : ℚ)^(-k) = (base : ℚ)^down k/(base : ℚ)^up k := by
    rw [eq_div_iff (by positivity),← zpow_natCast,← zpow_natCast,← zpow_add₀ hne]
    congr 1
    unfold up down
    omega
  rw [hpower]
  push_cast
  exact mul_div_mul_comm _ _ _ _

/-- A ratio near an integer is rounded to it. -/
theorem roundHalfEven_near {num den m : ℕ} (hden : 0 < den) (hlow : (m : ℚ)-1/2 < (num : ℚ)/den)
    (hhigh : (num : ℚ)/den < (m : ℚ)+1/2) : roundHalfEven num den = m := by
  have hpos : (0 : ℚ) < den := by exact_mod_cast hden
  rw [lt_div_iff₀ hpos] at hlow
  rw [div_lt_iff₀ hpos] at hhigh
  have hbelow : 2*(m*den) < 2*num+den := by
    have hcast : (2*(m*den) : ℚ) < 2*num+den := by linarith
    exact_mod_cast hcast
  have habove : 2*num < 2*(m*den)+den := by
    have hcast : (2*num : ℚ) < 2*(m*den)+den := by linarith
    exact_mod_cast hcast
  have hparts := Nat.div_add_mod num den
  have hrest := Nat.mod_lt num hden
  unfold roundHalfEven
  dsimp only
  generalize num/den = low at hparts ⊢
  generalize num%den = rest at hparts hrest ⊢
  rw [Nat.mul_comm] at hparts
  have hle : low ≤ m := by
    by_contra hno
    have hmul := Nat.mul_le_mul_right den (Nat.lt_of_not_le hno)
    rw [Nat.succ_mul] at hmul
    omega
  have hge : m ≤ low+1 := by
    by_contra hno
    have hmul := Nat.mul_le_mul_right den (Nat.lt_of_not_le hno)
    rw [Nat.succ_mul,Nat.succ_mul] at hmul
    omega
  rcases Nat.eq_or_lt_of_le hle with heq | hlt
  · subst heq
    rw [if_pos (by omega)]
  · have heq : m = low+1 := by omega
    rw [heq,Nat.succ_mul low den] at hbelow habove
    rw [if_neg (by omega),if_pos (by omega),heq]

/-- The binary exponent is the place of the first bit. -/
theorem binaryExponent_eq {num den : ℕ} (hnum : 0 < num) (hden : 0 < den) {e : ℤ} (hlow : (2 : ℚ)^e ≤ (num : ℚ)/den)
    (hhigh : (num : ℚ)/den < (2 : ℚ)^(e+1)) : binaryExponent num den = e := by
  have htwo : (1 : ℚ) < 2 := by norm_num
  have hne : (2 : ℚ) ≠ 0 := by norm_num
  have hdenPos : (0 : ℚ) < den := by exact_mod_cast hden
  have hnumLow : (2 : ℚ)^(Nat.log 2 num : ℤ) ≤ num := by
    rw [zpow_natCast]
    exact_mod_cast Nat.pow_log_le_self 2 hnum.ne'
  have hnumHigh : (num : ℚ) < (2 : ℚ)^((Nat.log 2 num : ℤ)+1) := by
    have hnat := Nat.lt_pow_succ_log_self (b := 2) (by omega) num
    exact_mod_cast hnat
  have hdenLow : (2 : ℚ)^(Nat.log 2 den : ℤ) ≤ den := by
    rw [zpow_natCast]
    exact_mod_cast Nat.pow_log_le_self 2 hden.ne'
  have hdenHigh : (den : ℚ) < (2 : ℚ)^((Nat.log 2 den : ℤ)+1) := by
    have hnat := Nat.lt_pow_succ_log_self (b := 2) (by omega) den
    exact_mod_cast hnat
  have habove : e < (Nat.log 2 num : ℤ)-Nat.log 2 den+1 := by
    have hchain : (2 : ℚ)^e*(2 : ℚ)^(Nat.log 2 den : ℤ) < (2 : ℚ)^((Nat.log 2 num : ℤ)+1) := by
      rw [le_div_iff₀ hdenPos] at hlow
      have hmul : (2 : ℚ)^e*(2 : ℚ)^(Nat.log 2 den : ℤ) ≤ (2 : ℚ)^e*den :=
        mul_le_mul_of_nonneg_left hdenLow (by positivity)
      linarith
    rw [← zpow_add₀ hne,zpow_lt_zpow_iff_right₀ htwo] at hchain
    omega
  have hbelow : (Nat.log 2 num : ℤ)-Nat.log 2 den-1 ≤ e := by
    have hchain : (2 : ℚ)^(Nat.log 2 num : ℤ) < (2 : ℚ)^(e+1)*(2 : ℚ)^((Nat.log 2 den : ℤ)+1) := by
      rw [div_lt_iff₀ hdenPos] at hhigh
      have hmul : (2 : ℚ)^(e+1)*den < (2 : ℚ)^(e+1)*(2 : ℚ)^((Nat.log 2 den : ℤ)+1) :=
        mul_lt_mul_of_pos_left hdenHigh (by positivity)
      linarith
    rw [← zpow_add₀ hne,zpow_lt_zpow_iff_right₀ htwo] at hchain
    omega
  have htest : ∀ g : ℤ, den*2^up g ≤ num*2^down g ↔ (2 : ℚ)^g ≤ (num : ℚ)/den := by
    intro g
    have hscaled := @ratio_scaled num den 2 (by omega) g
    have hpower : (0 : ℚ) < (2 : ℚ)^g := by positivity
    have hpos : (0 : ℚ) < ((den*2^up g : ℕ) : ℚ) := by positivity
    have hone : (2 : ℚ)^g*(2 : ℚ)^(-g) = 1 := by rw [← zpow_add₀ hne,add_neg_cancel,zpow_zero]
    have hcast : den*2^up g ≤ num*2^down g ↔ ((den*2^up g : ℕ) : ℚ) ≤ ((num*2^down g : ℕ) : ℚ) := Nat.cast_le.symm
    rw [hcast,← one_le_div₀ hpos,hscaled,Nat.cast_ofNat]
    constructor
    · intro h
      have hmul := mul_le_mul_of_nonneg_left h hpower.le
      rw [mul_one,mul_left_comm,hone,mul_one] at hmul
      exact hmul
    · intro h
      have hmul := mul_le_mul_of_nonneg_right h (zpow_pos (by norm_num : (0 : ℚ) < 2) (-g)).le
      rw [hone] at hmul
      exact hmul
  unfold binaryExponent
  dsimp only
  split
  · rename_i hguess
    have hle := (htest _).mp hguess
    have hlt := hle.trans_lt hhigh
    rw [zpow_lt_zpow_iff_right₀ htwo] at hlt
    omega
  · rename_i hguess
    have hlt := not_le.mp fun hle => hguess ((htest _).mpr hle)
    have hle := hlow.trans_lt hlt
    rw [zpow_lt_zpow_iff_right₀ htwo] at hle
    omega

end Scaling

section Nearness

/-- Mantissa and exponent of a double, as they are packed. -/
structure Canonical (m : ℕ) (s : ℤ) : Prop where
  /-- It is not zero. -/
  pos : 0 < m
  /-- The mantissa has room. -/
  high : m < 2^53
  /-- The exponent has room. -/
  low : -1074 ≤ s
  /-- The first bit is set, except with the least exponent. -/
  normal : 2^52 ≤ m ∨ s = -1074

/-- Pack sign, mantissa and exponent. -/
def packed (negative : Bool) (m : ℕ) (s : ℤ) : JsNumber :=
  ⟨((if negative then 2^63 else 0)+min ((s+1075).toNat*2^52+m-2^52) 0x7ff0000000000000).toUInt64⟩

/-- Room below a double, in units of its last place. -/
def gap (m : ℕ) (s : ℤ) : ℚ := if m = 2^52 ∧ s ≠ -1074 then 1/4 else 1/2

/-- A ratio that rounds to a double. -/
structure Near (num den m : ℕ) (s : ℤ) : Prop where
  /-- Not too far below. -/
  low : ((m : ℚ)-gap m s)*(2 : ℚ)^s < (num : ℚ)/den
  /-- Not too far above. -/
  high : (num : ℚ)/den < ((m : ℚ)+1/2)*(2 : ℚ)^s

/-- A ratio rounds at a scale that its first bit gives. -/
theorem ofRatio_scaled {num den m : ℕ} (hnum : 0 < num) (hden : 0 < den) {e scale : ℤ}
    (hlow : (2 : ℚ)^e ≤ (num : ℚ)/den) (hhigh : (num : ℚ)/den < (2 : ℚ)^(e+1)) (hscale : scale = max (e-52) (-1074))
    (hbelow : (m : ℚ)-1/2 < (num : ℚ)/den*(2 : ℚ)^(-scale)) (habove : (num : ℚ)/den*(2 : ℚ)^(-scale) < (m : ℚ)+1/2)
    (negative : Bool) : ofRatio negative num den = packed negative m scale := by
  have hpos : 0 < den*2^up scale := by positivity
  have hscaled := @ratio_scaled num den 2 (by omega) scale
  rw [Nat.cast_ofNat] at hscaled
  rw [← hscaled] at hbelow habove
  have hround := roundHalfEven_near hpos hbelow habove
  unfold ofRatio packed
  rw [if_neg hnum.ne']
  dsimp only
  rw [binaryExponent_eq hnum hden hlow hhigh,← hscale,hround]

/-- A mantissa that overflows is one of the next exponent. -/
theorem packed_next {s : ℤ} (h : -1074 < s) (negative : Bool) : packed negative (2^53) (s-1) = packed negative (2^52) s := by
  have hbits : (s-1+1075).toNat*2^52+2^53-2^52 = (s+1075).toNat*2^52+2^52-2^52 := by
    have hnext : (s+1075).toNat = (s-1+1075).toNat+1 := by omega
    rw [hnext]
    omega
  unfold packed
  rw [hbits]

/-- A ratio near a double rounds to it. -/
theorem ofRatio_near {num den m : ℕ} {s : ℤ} (hnum : 0 < num) (hden : 0 < den) (hm : Canonical m s)
    (h : Near num den m s) (negative : Bool) : ofRatio negative num den = packed negative m s := by
  have hne : (2 : ℚ) ≠ 0 := by norm_num
  have hunit : (0 : ℚ) < (2 : ℚ)^s := by positivity
  have hpow : ∀ k : ℕ, (2 : ℚ)^(s+k) = (2 : ℚ)^k*(2 : ℚ)^s := by
    intro k
    rw [zpow_add₀ hne,zpow_natCast,mul_comm]
  obtain ⟨r,hr⟩ : ∃ r : ℚ, (num : ℚ)/den = r*(2 : ℚ)^s :=
    ⟨(num : ℚ)/den/(2 : ℚ)^s,(div_mul_cancel₀ _ hunit.ne').symm⟩
  have hback : ∀ k : ℕ, (num : ℚ)/den*(2 : ℚ)^(-(s-k)) = r*(2 : ℚ)^k := by
    intro k
    rw [hr,mul_assoc,← zpow_add₀ hne,← zpow_natCast]
    congr 2
    omega
  have hlow : (m : ℚ)-gap m s < r := by
    have hscaled := h.low
    rw [hr] at hscaled
    exact lt_of_mul_lt_mul_right hscaled hunit.le
  have hhigh : r < (m : ℚ)+1/2 := by
    have hscaled := h.high
    rw [hr] at hscaled
    exact lt_of_mul_lt_mul_right hscaled hunit.le
  have hgap : gap m s ≤ 1/2 := by
    unfold gap
    split
    · norm_num
    · exact le_rfl
  have hone : (1 : ℚ) ≤ m := by exact_mod_cast hm.pos
  have hroom : (m : ℚ)+1 ≤ 2^53 := by exact_mod_cast hm.high
  have hpositive : (0 : ℚ) < r := by linarith
  by_cases hleast : s = -1074
  · -- every ratio this small is rounded at the least exponent
    have hqPos : (0 : ℚ) < (num : ℚ)/den := by rw [hr]; positivity
    have hlog := Int.zpow_log_le_self (b := 2) (by omega) hqPos
    have hnext := Int.lt_zpow_succ_log_self (b := 2) (by omega) ((num : ℚ)/den)
    rw [Nat.cast_ofNat] at hlog hnext
    have htop : (num : ℚ)/den < (2 : ℚ)^(s+(53 : ℕ)) := by
      rw [hr,hpow]
      exact mul_lt_mul_of_pos_right (by linarith) hunit
    have hsmall := hlog.trans_lt htop
    rw [zpow_lt_zpow_iff_right₀ (by norm_num)] at hsmall
    have hzero := hback 0
    rw [Nat.cast_zero,sub_zero,pow_zero,mul_one] at hzero
    exact ofRatio_scaled hnum hden hlog hnext (by omega) (by rw [hzero]; linarith) (by rw [hzero]; exact hhigh) negative
  · have hfirst : 2^52 ≤ m := hm.normal.resolve_right hleast
    have hfirstCast : (2 : ℚ)^52 ≤ m := by exact_mod_cast hfirst
    by_cases hbelow : r < 2^52
    · -- just below a power of two the last place is half as large
      have hpower : m = 2^52 := by
        by_contra hno
        have hmore : (2 : ℚ)^52+1 ≤ m := by
          have hnat : 2^52+1 ≤ m := by omega
          exact_mod_cast hnat
        linarith
      have hquarter : gap m s = 1/4 := if_pos ⟨hpower,hleast⟩
      have hcast : (m : ℚ) = 2^52 := by
        rw [hpower]
        norm_num
      rw [hquarter,hcast] at hlow
      have hlowest : -1074 < s := lt_of_le_of_ne hm.low (Ne.symm hleast)
      rw [hpower,← packed_next hlowest]
      have hdouble := hback 1
      rw [Nat.cast_one,pow_one] at hdouble
      refine @ofRatio_scaled num den (2^53) hnum hden (s+(51 : ℕ)) (s-1) ?_ ?_ (by omega) ?_ ?_ negative
      · rw [hr,hpow]
        exact mul_le_mul_of_nonneg_right (by linarith) hunit.le
      · have hplace : s+(51 : ℕ)+1 = s+(52 : ℕ) := by omega
        rw [hr,hplace,hpow]
        exact mul_lt_mul_of_pos_right hbelow hunit
      · rw [hdouble]
        push_cast
        linarith
      · rw [hdouble]
        push_cast
        linarith
    · have hzero := hback 0
      rw [Nat.cast_zero,sub_zero,pow_zero,mul_one] at hzero
      have hplace : s+(52 : ℕ)+1 = s+(53 : ℕ) := by omega
      refine @ofRatio_scaled num den m hnum hden (s+(52 : ℕ)) s ?_ ?_ (by have hs := hm.low; omega) ?_ ?_ negative
      · rw [hr,hpow]
        exact mul_le_mul_of_nonneg_right (not_lt.mp hbelow) hunit.le
      · rw [hr,hplace,hpow]
        exact mul_lt_mul_of_pos_right (by linarith) hunit
      · rw [hzero]
        linarith
      · rw [hzero]
        exact hhigh

end Nearness

section Doubles

theorem up_neg (k : ℤ) : up (-k) = down k := rfl

theorem down_neg (k : ℤ) : down (-k) = up k := by
  unfold down up
  rw [neg_neg]

/-- A power times an integer, as a ratio. -/
theorem ratio_power (m : ℕ) {base : ℕ} (hbase : 0 < base) (k : ℤ) :
    ((m*base^up k : ℕ) : ℚ)/((base^down k : ℕ) : ℚ) = m*(base : ℚ)^k := by
  have hscaled := @ratio_scaled m 1 base hbase (-k)
  rw [down_neg,up_neg,Nat.one_mul,neg_neg,Nat.cast_one,div_one] at hscaled
  exact hscaled

/-- A finite double that is not zero has a mantissa and an exponent. -/
theorem canonical_ratio {x : JsNumber} (hfinite : x.isFinite = true) (hzero : x ≠ zero) (hnegative : x ≠ negativeZero) :
    ∃ m s, Canonical m s ∧ x.ratio = (m*2^up s,2^down s) ∧ packed x.isNegative m s = x := by
  have hbits : x.bits.toNat < 2^64 := x.bits.toNat_lt
  have hfield : x.bits.toNat/2^52%2048 ≠ 2047 := by
    unfold isFinite at hfinite
    rw [bne_iff_ne] at hfinite
    intro heq
    refine hfinite (UInt64.toNat_inj.mp ?_)
    rw [UInt64.toNat_mod,UInt64.toNat_div]
    exact heq
  have hsmall : x.bits.toNat%2^63 < 2047*2^52 := by omega
  have hne : x.bits.toNat%2^63 ≠ 0 := by
    intro heq
    have hcases : x.bits.toNat = 0 ∨ x.bits.toNat = 2^63 := by omega
    rcases hcases with h | h
    · exact hzero (congrArg JsNumber.mk (UInt64.toNat_inj.mp h))
    · exact hnegative (congrArg JsNumber.mk (UInt64.toNat_inj.mp h))
  have hsign : (if x.isNegative = true then 2^63 else 0)+x.bits.toNat%2^63 = x.bits.toNat := by
    unfold isNegative
    by_cases hhigh : 2^63 ≤ x.bits.toNat
    · rw [if_pos (decide_eq_true hhigh)]
      omega
    · rw [if_neg (by rw [decide_eq_false hhigh]; exact Bool.false_ne_true)]
      omega
  have hpacked : ∀ m : ℕ, ∀ s : ℤ, (s+1075).toNat*2^52+m-2^52 = x.bits.toNat%2^63 → packed x.isNegative m s = x := by
    intro m s heq
    have hmin : min (x.bits.toNat%2^63) 0x7ff0000000000000 = x.bits.toNat%2^63 := by omega
    unfold packed
    rw [heq,hmin,hsign]
    exact congrArg JsNumber.mk UInt64.ofNat_toNat
  generalize hmagnitude : x.bits.toNat%2^63 = magnitude at *
  by_cases hleast : magnitude/2^52 = 0
  · refine ⟨magnitude,-1074,⟨by omega,by omega,le_rfl,.inr rfl⟩,?_,hpacked _ _ (by omega)⟩
    have hscale : ((max 0 1 : ℕ) : ℤ)-1075 = -1074 := by omega
    unfold ratio
    dsimp only
    rw [hmagnitude,hleast,if_pos rfl,hscale]
  · refine ⟨magnitude%2^52+2^52,((magnitude/2^52 : ℕ) : ℤ)-1075,⟨by omega,by omega,by omega,.inl (by omega)⟩,?_,
      hpacked _ _ (by omega)⟩
    have hscale : ((max (magnitude/2^52) 1 : ℕ) : ℤ)-1075 = ((magnitude/2^52 : ℕ) : ℤ)-1075 := by omega
    unfold ratio
    dsimp only
    rw [hmagnitude,if_neg hleast,hscale]

/-- A double rounds to itself. -/
theorem Canonical.near {m : ℕ} {s : ℤ} (_ : Canonical m s) : Near (m*2^up s) (2^down s) m s := by
  have hunit : (0 : ℚ) < (2 : ℚ)^s := by positivity
  have hgap : 0 < gap m s := by
    unfold gap
    split
    · norm_num
    · norm_num
  have hvalue := @ratio_power m 2 (by omega) s
  rw [Nat.cast_ofNat] at hvalue
  refine ⟨?_,?_⟩
  · rw [hvalue]
    exact mul_lt_mul_of_pos_right (by linarith) hunit
  · rw [hvalue]
    exact mul_lt_mul_of_pos_right (by linarith) hunit

/-- The ratio of a double is read back as the double. -/
theorem ofRatio_ratio {x : JsNumber} (hfinite : x.isFinite = true) (hzero : x ≠ zero) (hnegative : x ≠ negativeZero) :
    ofRatio x.isNegative x.ratio.1 x.ratio.2 = x := by
  obtain ⟨m,s,hm,hratio,hpacked⟩ := canonical_ratio hfinite hzero hnegative
  have hpos := hm.pos
  rw [hratio]
  exact (ofRatio_near (by positivity) (by positivity) hm hm.near x.isNegative).trans hpacked

end Doubles

section Digits

/-- A ratio as near to a double as the seventeenth digit rounds to it. -/
theorem Canonical.near_digits {m : ℕ} {s : ℤ} (hm : Canonical m s) {num den : ℕ} {p : ℤ}
    (hplace : (10 : ℚ)^(p-1) ≤ m*(2 : ℚ)^s) (hdistance : |(num : ℚ)/den-m*(2 : ℚ)^s| ≤ 1/2*(10 : ℚ)^(p-17)) :
    Near num den m s := by
  have hunit : (0 : ℚ) < (2 : ℚ)^s := by positivity
  have hstep : (10 : ℚ)^(p-17)*10^16 = (10 : ℚ)^(p-1) := by
    rw [← zpow_natCast,← zpow_add₀ (by norm_num)]
    congr 1
    omega
  have hsmall : (10 : ℚ)^(p-17)*10^16 ≤ m*(2 : ℚ)^s := hstep ▸ hplace
  have hroom : (m : ℚ) < 2^53 := by exact_mod_cast hm.high
  obtain ⟨hleft,hright⟩ := abs_le.mp hdistance
  constructor
  · have hgap : 1/2*(m : ℚ) < gap m s*10^16 := by
      unfold gap
      split
      · rename_i hpower
        rw [hpower.1]
        norm_num
      · linarith
    have hmul : 1/2*(m : ℚ)*(2 : ℚ)^s < gap m s*10^16*(2 : ℚ)^s := mul_lt_mul_of_pos_right hgap hunit
    linarith
  · have hmul : (m : ℚ)*(2 : ℚ)^s < 2^53*(2 : ℚ)^s := mul_lt_mul_of_pos_right hroom hunit
    linarith

/-- Where the search for digits starts. -/
def firstPlace (num den : ℕ) : ℤ := if den ≤ num then Nat.log 10 (num/den)+1 else -Nat.log 10 (den/num)

/-- The search starts at the place of the first digit, or at most one before a power of ten. -/
theorem firstPlace_spec {num den : ℕ} (hnum : 0 < num) (hden : 0 < den) :
    ∃ p : ℤ, (10 : ℚ)^(p-1) ≤ (num : ℚ)/den ∧ (num : ℚ)/den < (10 : ℚ)^p ∧
      (p = firstPlace num den ∨ p = firstPlace num den+1 ∧ (num : ℚ)/den = (10 : ℚ)^(p-1)) := by
  have hdenPos : (0 : ℚ) < den := by exact_mod_cast hden
  have hnumPos : (0 : ℚ) < num := by exact_mod_cast hnum
  have hbounds : ∀ a b : ℕ, 0 < b → b ≤ a → ((10 : ℚ)^(Nat.log 10 (a/b) : ℤ)*b ≤ a ∧
      (a : ℚ) < (10 : ℚ)^((Nat.log 10 (a/b) : ℤ)+1)*b) := by
    intro a b hb hle
    have hquotient : a/b ≠ 0 := (Nat.div_pos hle hb).ne'
    have hlow : 10^Nat.log 10 (a/b)*b ≤ a := (Nat.le_div_iff_mul_le hb).mp (Nat.pow_log_le_self 10 hquotient)
    have hhigh : a < 10^(Nat.log 10 (a/b)+1)*b :=
      (Nat.div_lt_iff_lt_mul hb).mp (Nat.lt_pow_succ_log_self (by omega) _)
    constructor
    · rw [zpow_natCast]
      exact_mod_cast hlow
    · exact_mod_cast hhigh
  unfold firstPlace
  by_cases hle : den ≤ num
  · obtain ⟨hlow,hhigh⟩ := hbounds num den hden hle
    rw [if_pos hle]
    refine ⟨Nat.log 10 (num/den)+1,?_,?_,.inl rfl⟩
    · rw [add_sub_cancel_right]
      exact (le_div_iff₀ hdenPos).mpr hlow
    · exact (div_lt_iff₀ hdenPos).mpr hhigh
  · obtain ⟨hlow,hhigh⟩ := hbounds den num hnum (Nat.le_of_not_le hle)
    rw [if_neg hle]
    generalize (Nat.log 10 (den/num) : ℤ) = k at *
    have hpower : (0 : ℚ) < (10 : ℚ)^k := by positivity
    have hmore : (0 : ℚ) < (10 : ℚ)^(k+1) := by positivity
    have htop : (num : ℚ)/den ≤ (10 : ℚ)^(-k) := by
      rw [zpow_neg,div_le_iff₀ hdenPos,← div_eq_inv_mul,le_div_iff₀ hpower,mul_comm]
      exact hlow
    have hbottom : (10 : ℚ)^(-(k+1)) < (num : ℚ)/den := by
      rw [zpow_neg,lt_div_iff₀ hdenPos,← div_eq_inv_mul,div_lt_iff₀ hmore,mul_comm]
      exact hhigh
    rcases lt_or_eq_of_le htop with hlt | heq
    · refine ⟨-k,?_,hlt,.inl rfl⟩
      have hplace : -k-1 = -(k+1) := by omega
      rw [hplace]
      exact hbottom.le
    · refine ⟨-k+1,?_,?_,.inr ⟨rfl,?_⟩⟩
      · rw [add_sub_cancel_right]
        exact heq.ge
      · rw [heq,zpow_lt_zpow_iff_right₀ (by norm_num)]
        omega
      · rw [add_sub_cancel_right]
        exact heq

/-- Digits next to the scaled ratio are found, when they read back. -/
theorem mem_decimal_near {num den digits : ℕ} {place : ℤ} (hden : 0 < den)
    (hlow : (digits : ℚ) ≤ (num : ℚ)/den*(10 : ℚ)^(17-place)+1)
    (hhigh : (num : ℚ)/den*(10 : ℚ)^(17-place) < (digits : ℚ)+1) (hleast : 10^16 ≤ digits) (hmost : digits < 10^17)
    (hread : ofRatio false (digits*10^up (place-17)) (10^down (place-17)) = ofRatio false num den) :
    (digits,place) ∈ decimal num den 17 place := by
  have hscaled := @ratio_scaled num den 10 (by omega) (place-17)
  have hflip : -(place-17) = 17-place := by omega
  have hup : up (17-place) = down (place-17) := by rw [← up_neg,hflip]
  have hdown : down (17-place) = up (place-17) := by rw [← hflip,down_neg]
  rw [← hup,← hdown,hflip,Nat.cast_ofNat] at hscaled
  rw [← hscaled] at hlow hhigh
  unfold decimal
  dsimp only
  rw [Nat.cast_ofNat]
  have hunit : 0 < den*10^down (17-place) := by positivity
  generalize num*10^up (17-place) = scaled at *
  generalize den*10^down (17-place) = unit at *
  have hunitPos : (0 : ℚ) < unit := by exact_mod_cast hunit
  have hparts := Nat.div_add_mod scaled unit
  have hrest := Nat.mod_lt scaled hunit
  rw [Nat.mul_comm] at hparts
  have hbelow : digits*unit ≤ scaled+unit := by
    have hcast : (digits : ℚ)*unit ≤ scaled+unit := by
      have hmul := mul_le_mul_of_nonneg_right hlow hunitPos.le
      rw [add_mul,div_mul_cancel₀ _ hunitPos.ne',one_mul] at hmul
      exact hmul
    exact_mod_cast hcast
  have habove : scaled < (digits+1)*unit := by
    have hcast : (scaled : ℚ) < (digits+1)*unit := (div_lt_iff₀ hunitPos).mp hhigh
    exact_mod_cast hcast
  have hcases : digits = scaled/unit ∨ digits = scaled/unit+1 := by
    have hmost : digits < scaled/unit+2 := by
      refine Nat.lt_of_mul_lt_mul_right (a := unit) ?_
      rw [Nat.add_mul]
      omega
    have hleast : scaled/unit < digits+1 := Nat.lt_of_mul_lt_mul_right (a := unit) (by omega)
    omega
  refine List.mem_map.mpr ⟨digits,List.mem_filter.mpr ⟨?_,decide_eq_true ⟨hleast,hmost,hread⟩⟩,rfl⟩
  split
  · rcases hcases with h | h
    · exact h ▸ List.mem_cons_self
    · exact h ▸ List.mem_cons_of_mem _ List.mem_cons_self
  · rcases hcases with h | h
    · exact h ▸ List.mem_cons_of_mem _ List.mem_cons_self
    · exact h ▸ List.mem_cons_self

/-- Seventeen digits are enough for every double. -/
theorem seventeen_digits {m : ℕ} {s : ℤ} (hm : Canonical m s) {num den : ℕ} (hnum : 0 < num) (hden : 0 < den)
    (hvalue : (num : ℚ)/den = m*(2 : ℚ)^s) : ∃ digits place,
      place ∈ [firstPlace num den-1,firstPlace num den,firstPlace num den+1] ∧
      (digits,place) ∈ decimal num den 17 place := by
  obtain ⟨p,hlow,hhigh,hfirst⟩ := firstPlace_spec hnum hden
  have hten : (10 : ℚ) ≠ 0 := by norm_num
  have hexact : ofRatio false num den = packed false m s := by
    have hpos : (0 : ℚ) < (10 : ℚ)^(p-17) := by positivity
    refine ofRatio_near hnum hden hm (hm.near_digits (hvalue ▸ hlow) ?_) false
    rw [hvalue,sub_self,abs_zero]
    positivity
  have hread : ∀ (digits : ℕ) (place : ℤ), 0 < digits →
      |(digits : ℚ)*(10 : ℚ)^(place-17)-(num : ℚ)/den| ≤ 1/2*(10 : ℚ)^(p-17) →
      ofRatio false (digits*10^up (place-17)) (10^down (place-17)) = ofRatio false num den := by
    intro digits place hdigits hdistance
    have hratio := @ratio_power digits 10 (by omega) (place-17)
    rw [Nat.cast_ofNat] at hratio
    rw [hexact]
    refine ofRatio_near (by positivity) (by positivity) hm (hm.near_digits (p := p) (hvalue ▸ hlow) ?_) false
    rw [hratio,← hvalue]
    exact hdistance
  obtain ⟨u,hu⟩ : ∃ u : ℚ, (num : ℚ)/den*(10 : ℚ)^(17-p) = u := ⟨_,rfl⟩
  have hback : (num : ℚ)/den = u*(10 : ℚ)^(p-17) := by
    rw [← hu,mul_assoc,← zpow_add₀ hten]
    have hnone : 17-p+(p-17) = 0 := by omega
    rw [hnone,zpow_zero,mul_one]
  have hunit : (0 : ℚ) < (10 : ℚ)^(p-17) := by positivity
  have hdistance : ∀ digits : ℚ, |digits-u| ≤ 1/2 →
      |digits*(10 : ℚ)^(p-17)-(num : ℚ)/den| ≤ 1/2*(10 : ℚ)^(p-17) := by
    intro digits h
    rw [hback,← sub_mul,abs_mul,abs_of_pos hunit]
    exact mul_le_mul_of_nonneg_right h hunit.le
  have hscale : ∀ k : ℤ, (10 : ℚ)^k*(10 : ℚ)^(17-p) = (10 : ℚ)^(k+(17-p)) := fun k => (zpow_add₀ hten _ _).symm
  have hleast : (10 : ℚ)^16 ≤ u := by
    have hmul := mul_le_mul_of_nonneg_right hlow (by positivity : (0 : ℚ) ≤ (10 : ℚ)^(17-p))
    have hplace : p-1+(17-p) = ((16 : ℕ) : ℤ) := by omega
    rw [hu,hscale,hplace,zpow_natCast] at hmul
    exact hmul
  have hmost : u < (10 : ℚ)^17 := by
    have hmul := mul_lt_mul_of_pos_right hhigh (by positivity : (0 : ℚ) < (10 : ℚ)^(17-p))
    have hplace : p+(17-p) = ((17 : ℕ) : ℤ) := by omega
    rw [hu,hscale,hplace,zpow_natCast] at hmul
    exact hmul
  have hfloor : (⌊u+1/2⌋₊ : ℚ) ≤ u+1/2 := Nat.floor_le (by linarith)
  have hnext : u+1/2 < (⌊u+1/2⌋₊ : ℚ)+1 := Nat.lt_floor_add_one _
  have henough : 10^16 ≤ ⌊u+1/2⌋₊ := Nat.le_floor (by push_cast; linarith)
  generalize ⌊u+1/2⌋₊ = digits at hfloor hnext henough
  by_cases hroom : digits < 10^17
  · refine ⟨digits,p,?_,mem_decimal_near hden (by rw [hu]; linarith) (by rw [hu]; linarith) henough hroom
      (hread digits p (by omega) (hdistance digits (abs_le.mpr ⟨by linarith,by linarith⟩)))⟩
    rcases hfirst with h | ⟨h,_⟩
    · exact h ▸ List.mem_cons_of_mem _ List.mem_cons_self
    · exact h ▸ List.mem_cons_of_mem _ (List.mem_cons_of_mem _ List.mem_cons_self)
  · -- the digits round up to a power of ten, which has its first digit one place further
    have hcarry : (10 : ℚ)^17 ≤ digits := by
      have hnat : 10^17 ≤ digits := Nat.le_of_not_lt hroom
      exact_mod_cast hnat
    have hplain : p = firstPlace num den := by
      rcases hfirst with h | ⟨_,hpower⟩
      · exact h
      · exfalso
        have hplace : p-1+(17-p) = ((16 : ℕ) : ℤ) := by omega
        rw [hpower,hscale,hplace,zpow_natCast] at hu
        linarith
    have htenth : (num : ℚ)/den*(10 : ℚ)^(17-(p+1)) = u/10 := by
      have hplace : 17-(p+1) = 17-p-1 := by omega
      rw [hplace,zpow_sub₀ hten,zpow_one,← mul_div_assoc,hu]
    have hsame : ((10^16 : ℕ) : ℚ)*(10 : ℚ)^(p+1-17) = (10 : ℚ)^17*(10 : ℚ)^(p-17) := by
      have hplace : p+1-17 = 1+(p-17) := by omega
      rw [hplace,zpow_add₀ hten,zpow_one]
      push_cast
      ring
    refine ⟨10^16,p+1,?_,mem_decimal_near hden ?_ ?_ le_rfl (by norm_num) (hread _ _ (by norm_num) ?_)⟩
    · exact hplain ▸ List.mem_cons_of_mem _ (List.mem_cons_of_mem _ List.mem_cons_self)
    · rw [htenth]
      push_cast
      linarith
    · rw [htenth]
      push_cast
      linarith
    · rw [hsame]
      exact hdistance _ (abs_le.mpr ⟨by linarith,by linarith⟩)

/-- What the search for the fewest digits finds. -/
theorem shortest_spec {num den digits : ℕ} {place : ℤ} (h : shortest num den = some (digits,place)) :
    ∃ count : ℕ, 1 ≤ count ∧ 10^(count-1) ≤ digits ∧ digits < 10^count ∧
      ofRatio false (digits*10^up (place-count)) (10^down (place-count)) = ofRatio false num den := by
  have hmem := List.mem_of_mem_head? h
  obtain ⟨count,_,hsearch⟩ := List.mem_flatMap.mp hmem
  obtain ⟨start,_,hdecimal⟩ := List.mem_flatMap.mp hsearch
  obtain ⟨found,hfound,heq⟩ := List.mem_map.mp hdecimal
  cases heq
  obtain ⟨_,htest⟩ := List.mem_filter.mp hfound
  obtain ⟨hlow,hhigh,hread⟩ := of_decide_eq_true htest
  exact ⟨count+1,by omega,hlow,hhigh,hread⟩

/-- The fewest digits are found for every double. -/
theorem shortest_found {m : ℕ} {s : ℤ} (hm : Canonical m s) : ∃ found, shortest (m*2^up s) (2^down s) = some found := by
  have hpos := hm.pos
  have hvalue := @ratio_power m 2 (by omega) s
  rw [Nat.cast_ofNat] at hvalue
  obtain ⟨digits,place,hplace,hmem⟩ := seventeen_digits hm (by positivity) (by positivity) hvalue
  change ∃ found, ((List.range 17).flatMap fun count =>
    [firstPlace (m*2^up s) (2^down s)-1,firstPlace (m*2^up s) (2^down s),firstPlace (m*2^up s) (2^down s)+1].flatMap
      fun place => decimal (m*2^up s) (2^down s) (count+1) place).head? = some found
  have hlist : (digits,place) ∈ (List.range 17).flatMap fun count =>
      [firstPlace (m*2^up s) (2^down s)-1,firstPlace (m*2^up s) (2^down s),firstPlace (m*2^up s) (2^down s)+1].flatMap
        fun place => decimal (m*2^up s) (2^down s) (count+1) place :=
    List.mem_flatMap.mpr ⟨16,List.mem_range.mpr (by omega),List.mem_flatMap.mpr ⟨place,hplace,hmem⟩⟩
  generalize ((List.range 17).flatMap fun count =>
    [firstPlace (m*2^up s) (2^down s)-1,firstPlace (m*2^up s) (2^down s),firstPlace (m*2^up s) (2^down s)+1].flatMap
      fun place => decimal (m*2^up s) (2^down s) (count+1) place) = candidates at hlist ⊢
  cases candidates with
  | nil => cases hlist
  | cons found more => exact ⟨found,rfl⟩

end Digits

end Baileyrs.JsNumber
