import Baileyrs.ProtoValues
import Baileyrs.TokenRowText
import Mathlib.Tactic.Positivity
import Mathlib.Tactic.Ring

/-!
# Texts of integers

A double holds every integer below 2^53 exactly, and no other integer rounds to
it. The fewest digits that read back as such a double are the digits of the
integer without its trailing zeros, so its text is the decimal text of the
integer, and reading that text gives the double again.
-/

namespace Baileyrs.JsNumber

open JsString AtomicStore

section Rounding

/-- Rounding a ratio is rounding its multiple. -/
theorem roundHalfEven_mul (num den : ℕ) {c : ℕ} (h : 0 < c) :
    roundHalfEven (num*c) (den*c) = roundHalfEven num den := by
  have hquotient : num*c/(den*c) = num/den := Nat.mul_div_mul_right _ _ h
  have hrest : num*c%(den*c) = num%den*c := Nat.mul_mod_mul_right _ _ _
  have hbelow : 2*(num%den*c) < den*c ↔ 2*(num%den) < den := by
    rw [←Nat.mul_assoc]
    exact Nat.mul_lt_mul_right h
  have habove : den*c < 2*(num%den*c) ↔ den < 2*(num%den) := by
    rw [←Nat.mul_assoc]
    exact Nat.mul_lt_mul_right h
  unfold roundHalfEven
  dsimp only
  rw [hquotient,hrest]
  simp only [hbelow,habove]

theorem roundHalfEven_one (n : ℕ) : roundHalfEven n 1 = n := by
  unfold roundHalfEven
  rw [Nat.div_one,Nat.mod_one]
  rfl

/-- Rounding does not go below the quotient. -/
theorem le_roundHalfEven (num den : ℕ) : num/den ≤ roundHalfEven num den := by
  unfold roundHalfEven
  dsimp only
  split
  · exact le_rfl
  · split
    · omega
    · split
      · exact le_rfl
      · omega

/-- The binary exponent of an integer is its logarithm. -/
theorem binaryExponent_nat {n : ℕ} (hn : n ≠ 0) (j : ℕ) : binaryExponent (n*2^j) (2^j) = Nat.log 2 n := by
  have hlog : Nat.log 2 (n*2^j) = Nat.log 2 n+j := by
    induction j with
    | zero => rw [pow_zero,Nat.mul_one,Nat.add_zero]
    | succ j ih =>
      have hne : n*2^j ≠ 0 := Nat.mul_ne_zero hn (by positivity)
      rw [pow_succ,←Nat.mul_assoc,Nat.log_mul_base (by omega) hne,ih,Nat.add_assoc]
  have hpow : Nat.log 2 (2^j) = j := Nat.log_pow (by omega) j
  have hexponent : ((Nat.log 2 (n*2^j) : ℕ) : ℤ)-(Nat.log 2 (2^j) : ℕ) = Nat.log 2 n := by
    rw [hlog,hpow]
    push_cast
    omega
  have hle : 2^j*2^up (Nat.log 2 n : ℤ) ≤ n*2^j*2^down (Nat.log 2 n : ℤ) := by
    have hup : up (Nat.log 2 n : ℤ) = Nat.log 2 n := Int.toNat_natCast _
    have hdown : down (Nat.log 2 n : ℤ) = 0 := by
      unfold down
      omega
    rw [hup,hdown,pow_zero,Nat.mul_one,Nat.mul_comm]
    exact Nat.mul_le_mul_right _ (Nat.pow_log_le_self 2 hn)
  unfold binaryExponent
  dsimp only
  rw [hexponent,if_pos hle]

/-- Bits of the double of a positive integer, as a ratio. -/
theorem ofRatio_nat {n : ℕ} (hn : n ≠ 0) (j : ℕ) : ofRatio false (n*2^j) (2^j) = ⟨(min ((Nat.log 2 n+1023)*2^52+
      roundHalfEven (n*2^(52-Nat.log 2 n)) (2^(Nat.log 2 n-52))-2^52) 0x7ff0000000000000).toUInt64⟩ := by
  have hpositive : n*2^j ≠ 0 := Nat.mul_ne_zero hn (by positivity)
  have hscale : max ((Nat.log 2 n : ℤ)-52) (-1074) = (Nat.log 2 n : ℤ)-52 := by omega
  have hdown : down ((Nat.log 2 n : ℤ)-52) = 52-Nat.log 2 n := by
    unfold down
    omega
  have hup : up ((Nat.log 2 n : ℤ)-52) = Nat.log 2 n-52 := by
    unfold up
    omega
  have hbias : ((Nat.log 2 n : ℤ)-52+1075).toNat = Nat.log 2 n+1023 := by omega
  have hround : roundHalfEven (n*2^j*2^(52-Nat.log 2 n)) (2^j*2^(Nat.log 2 n-52)) =
      roundHalfEven (n*2^(52-Nat.log 2 n)) (2^(Nat.log 2 n-52)) := by
    rw [Nat.mul_right_comm,Nat.mul_comm (2^j)]
    exact roundHalfEven_mul _ _ (by positivity)
  unfold ofRatio
  rw [if_neg hpositive]
  dsimp only
  rw [binaryExponent_nat hn,hscale,hdown,hup,hbias,hround,if_neg Bool.false_ne_true,Nat.zero_add]

/-- Mantissa of an integer that a double holds exactly. -/
theorem mantissa_bounds {n : ℕ} (hn : n ≠ 0) (hsafe : n < 2^53) :
    Nat.log 2 n ≤ 52 ∧ 2^52 ≤ n*2^(52-Nat.log 2 n) ∧ n*2^(52-Nat.log 2 n) < 2^53 := by
  have hlog : Nat.log 2 n < 53 := Nat.log_lt_of_lt_pow hn hsafe
  have hlow : 2^Nat.log 2 n*2^(52-Nat.log 2 n) ≤ n*2^(52-Nat.log 2 n) :=
    Nat.mul_le_mul_right _ (Nat.pow_log_le_self 2 hn)
  have hhigh : n*2^(52-Nat.log 2 n) < 2^(Nat.log 2 n+1)*2^(52-Nat.log 2 n) :=
    Nat.mul_lt_mul_of_pos_right (Nat.lt_pow_succ_log_self (by omega) n) (by positivity)
  have hsum : Nat.log 2 n+(52-Nat.log 2 n) = 52 := by omega
  have hnext : Nat.log 2 n+1+(52-Nat.log 2 n) = 53 := by omega
  rw [←pow_add,hsum] at hlow
  rw [←pow_add,hnext] at hhigh
  exact ⟨by omega,hlow,hhigh⟩

/-- Bits of the double of a small positive integer. -/
theorem ofRatio_safe {n : ℕ} (hn : n ≠ 0) (hsafe : n < 2^53) (j : ℕ) :
    (ofRatio false (n*2^j) (2^j)).bits.toNat = (Nat.log 2 n+1022)*2^52+n*2^(52-Nat.log 2 n) := by
  obtain ⟨hlog,hlow,hhigh⟩ := mantissa_bounds hn hsafe
  have hzero : Nat.log 2 n-52 = 0 := by omega
  rw [ofRatio_nat hn,hzero,pow_zero,roundHalfEven_one]
  have hbits : min ((Nat.log 2 n+1023)*2^52+n*2^(52-Nat.log 2 n)-2^52) 0x7ff0000000000000 =
      (Nat.log 2 n+1022)*2^52+n*2^(52-Nat.log 2 n) := by omega
  have hword : (Nat.log 2 n+1022)*2^52+n*2^(52-Nat.log 2 n) < 2^64 := by omega
  rw [hbits]
  exact UInt64.toNat_ofNat_of_lt' hword

/-- An integer that rounds to the double of a small one is that integer. -/
theorem eq_of_ofRatio {n v i j : ℕ} (hn : n ≠ 0) (hsafe : n < 2^53) (hv : v ≠ 0)
    (h : ofRatio false (v*2^i) (2^i) = ofRatio false (n*2^j) (2^j)) : v = n := by
  obtain ⟨hlog,hlow,hhigh⟩ := mantissa_bounds hn hsafe
  have hbits : (ofRatio false (v*2^i) (2^i)).bits.toNat = (ofRatio false (n*2^j) (2^j)).bits.toNat := by rw [h]
  rw [ofRatio_safe hn hsafe] at hbits
  by_cases hsmall : v < 2^53
  · obtain ⟨hlogv,hlowv,hhighv⟩ := mantissa_bounds hv hsmall
    rw [ofRatio_safe hv hsmall] at hbits
    have hsame : Nat.log 2 v = Nat.log 2 n := by omega
    rw [hsame] at hbits hlowv
    have hmantissa : v*2^(52-Nat.log 2 n) = n*2^(52-Nat.log 2 n) := by omega
    exact Nat.eq_of_mul_eq_mul_right (by positivity) hmantissa
  · -- a larger integer has a larger exponent
    have hlogv : 53 ≤ Nat.log 2 v := Nat.le_log_of_pow_le (by omega) (by omega)
    have hzero : 52-Nat.log 2 v = 0 := by omega
    have hquotient : 2^52 ≤ v/2^(Nat.log 2 v-52) := by
      rw [Nat.le_div_iff_mul_le (by positivity),←pow_add]
      have hsum : 52+(Nat.log 2 v-52) = Nat.log 2 v := by omega
      rw [hsum]
      exact Nat.pow_log_le_self 2 hv
    have hround := (le_roundHalfEven v (2^(Nat.log 2 v-52))).trans' hquotient
    rw [ofRatio_nat hv,hzero,pow_zero,Nat.mul_one] at hbits
    have hword : min ((Nat.log 2 v+1023)*2^52+roundHalfEven v (2^(Nat.log 2 v-52))-2^52) 0x7ff0000000000000 <
        2^64 := by omega
    have hnat : (min ((Nat.log 2 v+1023)*2^52+roundHalfEven v (2^(Nat.log 2 v-52))-2^52)
        0x7ff0000000000000).toUInt64.toNat = _ := UInt64.toNat_ofNat_of_lt' hword
    dsimp only at hbits
    rw [hnat] at hbits
    omega

end Rounding

section Texts

/-- An integer with its digits in a given number of places. -/
theorem natText_length {n count : ℕ} (hlow : 10^count ≤ n) (hhigh : n < 10^(count+1)) :
    (natText n).length = count+1 := by
  induction count generalizing n with
  | zero =>
    rw [natText_step,if_pos (by omega)]
    rfl
  | succ count ih =>
    have hten : 10 ≤ n := le_trans (by rw [pow_succ]; have hpos : 0 < 10^count := by positivity
                                       omega) hlow
    rw [pow_succ] at hlow
    rw [pow_succ] at hhigh
    rw [natText_step,if_neg (by omega),List.length_append,ih (by omega) (by omega)]
    rfl

/-- Zeros at the end of the text of a multiple. -/
theorem natText_mul_pow {n : ℕ} (hn : n ≠ 0) (zeros : ℕ) :
    natText (n*10^zeros) = natText n++List.replicate zeros (unit '0') := by
  induction zeros with
  | zero => rw [pow_zero,Nat.mul_one,List.replicate_zero,List.append_nil]
  | succ zeros ih =>
    have hpositive : 0 < n*10^zeros := Nat.pos_of_ne_zero (Nat.mul_ne_zero hn (by positivity))
    have hnext : n*10^(zeros+1) = n*10^zeros*10 := by rw [pow_succ,Nat.mul_assoc]
    rw [hnext,natText_step,if_neg (by omega),Nat.mul_div_cancel _ (by omega),ih,Nat.mul_mod_left,List.append_assoc,
      List.replicate_succ']
    rfl

/-- Digits of an integer of some width, without some of its zeros. -/
structure ShortDigits (n width : ℕ) (found : ℕ × ℤ) : Prop where
  /-- The point is behind the integer. -/
  place : found.2 = width
  /-- Zeros follow the digits. -/
  zeros : ∃ count, 1 ≤ count ∧ count ≤ width ∧ 10^(count-1) ≤ found.1 ∧ found.1 < 10^count ∧
    found.1*10^(width-count) = n

/-- Digits no longer than the integer that read back as its double are its own. -/
theorem decimal_short {n j width count : ℕ} (hn : n ≠ 0) (hsafe : n < 2^53) (hwidth : 1 ≤ width)
    (hlow : 10^(width-1) ≤ n) (hhigh : n < 10^width) (hcount : 1 ≤ count) (hle : count ≤ width) {place : ℤ}
    (hplace : place = (width : ℤ)-1 ∨ place = width ∨ place = (width : ℤ)+1) {found : ℕ × ℤ}
    (h : found ∈ decimal (n*2^j) (2^j) count place) : ShortDigits n width found := by
  have hpow : 0 < 2^j := by positivity
  unfold decimal at h
  obtain ⟨digits,hdigits,rfl⟩ := List.mem_map.mp h
  obtain ⟨hnearest,hshape⟩ := List.mem_filter.mp hdigits
  obtain ⟨hten,htop,hread⟩ := of_decide_eq_true hshape
  -- the digits are the quotient or the next number
  have hpair : digits = n*2^j*10^up (count-place)/(2^j*10^down (count-place)) ∨
      digits = n*2^j*10^up (count-place)/(2^j*10^down (count-place))+1 := by
    split at hnearest
    · exact List.mem_pair.mp hnearest
    · exact (List.mem_pair.mp hnearest).symm
  have hquotient : n*2^j*10^up (count-place)/(2^j*10^down (count-place)) =
      n*10^up (count-place)/10^down (count-place) := by
    rw [Nat.mul_right_comm,Nat.mul_comm (2^j)]
    exact Nat.mul_div_mul_right _ _ hpow
  rw [hquotient] at hpair
  have hpositive : digits ≠ 0 := by
    intro hzero
    rw [hzero] at hten
    have hpos : 0 < 10^(count-1) := by positivity
    omega
  rcases hplace with rfl | rfl | rfl
  · -- one place fewer leaves no room for the digits
    have hroom : 10^count ≤ n*10^up ((count : ℤ)-((width : ℤ)-1))/10^down ((count : ℤ)-((width : ℤ)-1)) := by
      by_cases hsame : count = width
      · have hup : up ((count : ℤ)-((width : ℤ)-1)) = 1 := by
          unfold up
          omega
        have hdown : down ((count : ℤ)-((width : ℤ)-1)) = 0 := by
          unfold down
          omega
        have hnext : 10^count = 10^(width-1)*10 := by
          rw [←pow_succ,hsame]
          congr 1
          omega
        rw [hup,hdown,pow_zero,Nat.div_one,pow_one,hnext]
        exact Nat.mul_le_mul_right _ hlow
      · have hup : up ((count : ℤ)-((width : ℤ)-1)) = 0 := by
          unfold up
          omega
        have hdown : down ((count : ℤ)-((width : ℤ)-1)) = width-1-count := by
          unfold down
          omega
        have hsum : count+(width-1-count) = width-1 := by omega
        rw [hup,hdown,pow_zero,Nat.mul_one,Nat.le_div_iff_mul_le (by positivity),←pow_add,hsum]
        exact hlow
    omega
  · -- in its own place the digits have to be those of the integer
    have hup : up ((width : ℤ)-(count : ℕ)) = width-count := by
      unfold up
      omega
    have hdown : down ((width : ℤ)-(count : ℕ)) = 0 := by
      unfold down
      omega
    rw [hup,hdown,pow_zero] at hread
    have hone := @eq_of_ofRatio n (digits*10^(width-count)) 0 j hn hsafe
      (Nat.mul_ne_zero hpositive (by positivity))
    rw [pow_zero,Nat.mul_one] at hone
    exact ⟨rfl,count,hcount,hle,hten,htop,hone hread⟩
  · -- one place more is a larger integer
    have hdown : down ((count : ℤ)-((width : ℤ)+1)) = width+1-count := by
      unfold down
      omega
    have hup : up ((count : ℤ)-((width : ℤ)+1)) = 0 := by
      unfold up
      omega
    rw [hup,hdown,pow_zero,Nat.mul_one] at hpair
    have hsum : 10^(count-1)*10^(width+1-count) = 10^width := by
      rw [←pow_add]
      congr 1
      omega
    have hless : n/10^(width+1-count) < 10^(count-1) := by
      rw [Nat.div_lt_iff_lt_mul (by positivity),hsum]
      exact hhigh
    have hdigitsEq : digits = 10^(count-1) := by omega
    have hreadUp : up ((width : ℤ)+1-(count : ℕ)) = width+1-count := by
      unfold up
      omega
    have hreadDown : down ((width : ℤ)+1-(count : ℕ)) = 0 := by
      unfold down
      omega
    rw [hreadUp,hreadDown,pow_zero,hdigitsEq,hsum] at hread
    have hone := @eq_of_ofRatio n (10^width) 0 j hn hsafe (by positivity)
    rw [pow_zero,Nat.mul_one] at hone
    have heq := hone hread
    omega

/-- The digits of an integer are found in its own place. -/
theorem mem_decimal {n width : ℕ} (hn : n ≠ 0) (j : ℕ) (hlow : 10^(width-1) ≤ n) (hhigh : n < 10^width) :
    (n,(width : ℤ)) ∈ decimal (n*2^j) (2^j) width width := by
  have hpow : 0 < 2^j := by positivity
  have hzero : ∀ k : ℕ, up ((k : ℤ)-k) = 0 ∧ down ((k : ℤ)-k) = 0 := by
    intro k
    unfold up down
    omega
  have hrest : n*2^j*1%(2^j*1) = 0 := by
    rw [Nat.mul_one,Nat.mul_one]
    exact Nat.mul_mod_left _ _
  have hquotient : n*2^j*1/(2^j*1) = n := by
    rw [Nat.mul_one,Nat.mul_one,Nat.mul_div_cancel _ hpow]
  have hscale : ofRatio false (n*1) 1 = ofRatio false (n*2^j) (2^j) := by
    have hone := ofRatio_nat hn 0
    rw [pow_zero,Nat.mul_one] at hone
    rw [Nat.mul_one,ofRatio_nat hn]
    exact hone
  unfold decimal
  dsimp only
  rw [(hzero width).1,(hzero width).2,pow_zero,hrest,hquotient]
  refine List.mem_map.mpr ⟨n,List.mem_filter.mpr ⟨?_,decide_eq_true ⟨hlow,hhigh,hscale⟩⟩,rfl⟩
  rw [if_pos (Nat.zero_le _)]
  exact List.mem_cons_self

/-- The fewest digits that read back as the double of an integer are its own. -/
theorem shortest_nat {n : ℕ} (hn : n ≠ 0) (hsafe : n < 2^53) (j : ℕ) :
    ∃ found, shortest (n*2^j) (2^j) = some found ∧ ShortDigits n (Nat.log 10 n+1) found ∧ Nat.log 10 n+1 ≤ 16 := by
  have hpow : 0 < 2^j := by positivity
  have hlow : 10^(Nat.log 10 n+1-1) ≤ n := Nat.pow_log_le_self 10 hn
  have hhigh : n < 10^(Nat.log 10 n+1) := Nat.lt_pow_succ_log_self (by omega) n
  have hwidth : Nat.log 10 n < 16 := Nat.log_lt_of_lt_pow hn (by omega)
  have hle : 2^j ≤ n*2^j := Nat.le_mul_of_pos_left _ (Nat.pos_of_ne_zero hn)
  have hdivide : n*2^j/2^j = n := Nat.mul_div_cancel _ hpow
  generalize hwide : Nat.log 10 n+1 = width at hlow hhigh
  have hplace : ((Nat.log 10 n : ℕ) : ℤ)+1 = width := by omega
  have hcounts : List.range 17 = List.range width++(List.range (17-width)).map (width+·) := by
    have hsum : 17 = width+(17-width) := by omega
    rw [←List.range_add,←hsum]
  unfold shortest
  dsimp only
  rw [if_pos hle,hdivide,hplace,hcounts,List.flatMap_append]
  -- the search ends before it tries more digits than the integer has
  have hfront : ∀ found ∈ (List.range width).flatMap fun count => [(width : ℤ)-1,width,width+1].flatMap fun place =>
      decimal (n*2^j) (2^j) (count+1) place, ShortDigits n width found := by
    intro found hfound
    obtain ⟨count,hcount,hsearch⟩ := List.mem_flatMap.mp hfound
    obtain ⟨place,hmem,hdecimal⟩ := List.mem_flatMap.mp hsearch
    have hcases : place = (width : ℤ)-1 ∨ place = width ∨ place = (width : ℤ)+1 := by
      rcases List.mem_cons.mp hmem with h | h
      · exact .inl h
      · exact .inr (List.mem_pair.mp h)
    have hlt := List.mem_range.mp hcount
    exact decimal_short hn hsafe (by omega) hlow hhigh (by omega) (by omega) hcases hdecimal
  have hfound : (n,(width : ℤ)) ∈ (List.range width).flatMap fun count =>
      [(width : ℤ)-1,width,width+1].flatMap fun place => decimal (n*2^j) (2^j) (count+1) place := by
    have hlast : width-1+1 = width := by omega
    refine List.mem_flatMap.mpr ⟨width-1,List.mem_range.mpr (by omega),List.mem_flatMap.mpr
      ⟨width,List.mem_cons_of_mem _ List.mem_cons_self,?_⟩⟩
    rw [hlast]
    exact mem_decimal hn j hlow hhigh
  generalize ((List.range width).flatMap fun count => [(width : ℤ)-1,width,width+1].flatMap fun place =>
    decimal (n*2^j) (2^j) (count+1) place) = front at hfront hfound ⊢
  cases front with
  | nil => cases hfound
  | cons found more => exact ⟨found,rfl,hfront found List.mem_cons_self,by omega⟩

/-- A double of a small positive integer is its ratio again. -/
theorem ratio_ofRatio {n : ℕ} (hn : n ≠ 0) (hsafe : n < 2^53) :
    (ofRatio false n 1).ratio = (n*2^(52-Nat.log 2 n),2^(52-Nat.log 2 n)) := by
  obtain ⟨hlog,hlow,hhigh⟩ := mantissa_bounds hn hsafe
  have hbits := ofRatio_safe hn hsafe 0
  rw [pow_zero,Nat.mul_one] at hbits
  have hmod : ((Nat.log 2 n+1022)*2^52+n*2^(52-Nat.log 2 n))%2^63 =
      (Nat.log 2 n+1022)*2^52+n*2^(52-Nat.log 2 n) := Nat.mod_eq_of_lt (by omega)
  have hquotient : ((Nat.log 2 n+1022)*2^52+n*2^(52-Nat.log 2 n))/2^52 = Nat.log 2 n+1023 := by omega
  have hrest : ((Nat.log 2 n+1022)*2^52+n*2^(52-Nat.log 2 n))%2^52+2^52 = n*2^(52-Nat.log 2 n) := by omega
  have hscale : ((max (Nat.log 2 n+1023) 1 : ℕ) : ℤ)-1075 = -((52-Nat.log 2 n : ℕ) : ℤ) := by omega
  have hup : up (-((52-Nat.log 2 n : ℕ) : ℤ)) = 0 := by
    unfold up
    omega
  have hdown : down (-((52-Nat.log 2 n : ℕ) : ℤ)) = 52-Nat.log 2 n := by
    unfold down
    omega
  unfold ratio
  dsimp only
  rw [hbits,hmod,hquotient,hrest,if_neg (by omega),hscale,hup,hdown,pow_zero,Nat.mul_one]

/-- Doubles of integers are finite and not negative. -/
theorem isFinite_ofRatio {n : ℕ} (hn : n ≠ 0) (hsafe : n < 2^53) :
    (ofRatio false n 1).isFinite = true ∧ (ofRatio false n 1).isNegative = false ∧
      ofRatio false n 1 ≠ zero ∧ ofRatio false n 1 ≠ negativeZero := by
  obtain ⟨hlog,hlow,hhigh⟩ := mantissa_bounds hn hsafe
  have hbits := ofRatio_safe hn hsafe 0
  rw [pow_zero,Nat.mul_one] at hbits
  have hne : ∀ other : JsNumber, other.bits.toNat = 0 ∨ other.bits.toNat = 2^63 → ofRatio false n 1 ≠ other := by
    intro other hother heq
    rw [heq] at hbits
    omega
  refine ⟨?_,?_,hne zero (.inl rfl),hne negativeZero (.inr rfl)⟩
  · have hfield : ((ofRatio false n 1).bits/0x10000000000000%0x800).toNat = Nat.log 2 n+1023 := by
      rw [UInt64.toNat_mod,UInt64.toNat_div,hbits]
      have hone : UInt64.toNat 0x10000000000000 = 2^52 := rfl
      have htwo : UInt64.toNat 0x800 = 2048 := rfl
      rw [hone,htwo]
      omega
    unfold isFinite
    rw [bne_iff_ne]
    intro heq
    rw [heq] at hfield
    have hall : UInt64.toNat 0x7ff = 2047 := rfl
    omega
  · unfold isNegative
    rw [hbits]
    exact decide_eq_false (by omega)

/-- The text of an integer that a double holds is its decimal text. -/
theorem text_ofRatio {n : ℕ} (hsafe : n < 2^53) : (ofRatio false n 1).text = natText n := by
  by_cases hn : n = 0
  · rw [hn]
    decide
  · obtain ⟨hfinite,hnegative,hzero,hnegativeZero⟩ := isFinite_ofRatio hn hsafe
    obtain ⟨found,hshortest,⟨hplace,count,hone,hle,hten,htop,hwhole⟩,hwidth⟩ :=
      shortest_nat hn hsafe (52-Nat.log 2 n)
    have hnan : (ofRatio false n 1).isNaN = false := by
      unfold isNaN
      rw [hfinite]
      rfl
    obtain ⟨digits,place⟩ := found
    dsimp only at hplace hten htop hwhole
    have hcount : (natText digits).length = count := by
      have hlast : count-1+1 = count := by omega
      have hlength := @natText_length digits (count-1) hten (by rw [hlast]; exact htop)
      omega
    have hdigits : digits ≠ 0 := by
      have hpos : 0 < 10^(count-1) := by positivity
      omega
    have hroom : ((natText digits).length : ℤ) ≤ place ∧ place ≤ 21 := by omega
    have hzeros : (place-((natText digits).length : ℤ)).toNat = Nat.log 10 n+1-count := by omega
    unfold text
    rw [hnan,hnegative,hfinite,ratio_ofRatio hn hsafe,hshortest]
    rw [if_neg Bool.false_ne_true,if_neg Bool.false_ne_true]
    dsimp only
    rw [Bool.not_true,if_neg Bool.false_ne_true,if_neg (fun hno => hno.elim hzero hnegativeZero),List.nil_append]
    change layout (natText digits) place = natText n
    have htext := natText_mul_pow hdigits (Nat.log 10 n+1-count)
    rw [hwhole] at htext
    rw [layout,if_pos hroom,hzeros,htext]

end Texts

end Baileyrs.JsNumber
