import Baileyrs.JsNumberSums

/-!
# Fields of 64 bits

A 64-bit field arrives as a number, as an object with a method that rounds it to a number,
or as a plain pair of words. It is read as a number only where that is exact. The flag of
a pair without a sign is not read, so the largest integers without a sign are read as
negative ones.
-/

namespace Baileyrs.BridgePrimitives

open JsNumber ProtoRuntime

section Model

/-- What is read of a field. -/
inductive BridgeField where
  /-- A number. -/
  | number (x : JsNumber)
  /-- An object: what its method returns, if it has one, and its words, where they are numbers. -/
  | object (toNumber : Option (Option JsNumber)) (low high : Option JsNumber)
  /-- Anything else. -/
  | other

/-- The number of a 64-bit field, where that is exact. -/
def asInt64 : BridgeField → Option JsNumber
  | .number x => if x.isSafeInteger then some x else none
  | .object (some value) _ _ => value.filter (·.isSafeInteger)
  | .object none low high =>
    match low with
    | none => none
    | some low =>
      let value := ((high.getD zero).mul (ofInt (2^32))).add (ofInt low.toUint32)
      if value.isSafeInteger then some value else none
  | .other => none

/-- A word as it is stored, with a sign. -/
def signedWord (word : UInt32) : ℤ := if word.toNat < 2^31 then word.toNat else word.toNat-2^32

/-- A plain pair of words. -/
def wordPair (value : Long) : BridgeField :=
  .object none (some (ofInt (signedWord value.low))) (some (ofInt (signedWord value.high)))

/-- How a 64-bit integer arrives. -/
inductive Carries (toNumber : Long → JsNumber) (value : Long) : BridgeField → Prop
  /-- As a number that is exactly it. -/
  | number (x : JsNumber) (hfinite : x.isFinite = true) (h : x.value = value.toInt) : Carries toNumber value (.number x)
  /-- As an object with a method. -/
  | long (low high : Option JsNumber) : Carries toNumber value (.object (some (some (toNumber value))) low high)
  /-- As a plain pair of words. -/
  | words : Carries toNumber value (wordPair value)

/-- A safe integer is returned as it is, and no number for another one. -/
def ExactOrAbsent (v : ℤ) (result : Option JsNumber) : Prop :=
  if v.natAbs < 2^53 then ∃ x, result = some x ∧ x.isFinite = true ∧ x.value = v else result = none

end Model

section Words

variable {toNumber : Long → JsNumber} {value : Long} {field : BridgeField}

/-- What is near an integer is read as it where it is safe. -/
theorem exact_nearest {x : JsNumber} {i : ℤ} (h : Nearest x i) :
    ExactOrAbsent i (if x.isSafeInteger then some x else none) := by
  unfold ExactOrAbsent
  rw [h.isSafeInteger_eq]
  by_cases hi : i.natAbs < 2^53
  · rw [if_pos hi,if_pos (decide_eq_true hi)]
    exact ⟨x,rfl,h.exact hi⟩
  · rw [if_neg hi,if_neg (by rw [decide_eq_false hi]; exact Bool.false_ne_true)]

theorem signedWord_bounds (word : UInt32) : -2^31 ≤ signedWord word ∧ signedWord word < 2^31 := by
  have hword := word.toNat_lt
  unfold signedWord
  split
  · omega
  · omega

/-- A word is read back without its sign. -/
theorem toUint32_signedWord (word : UInt32) : (ofInt (signedWord word)).toUint32 = word.toNat := by
  have hbounds := signedWord_bounds word
  obtain ⟨hfinite,hvalue⟩ := (nearest_ofInt (signedWord word)).exact (by omega)
  have hword := word.toNat_lt
  rw [toUint32,toInt_value hfinite hvalue]
  unfold signedWord
  split
  · omega
  · omega

/-- A pair of words is near the integer that its high word gives the sign. -/
theorem nearest_words (value : Long) : Nearest
    (((ofInt (signedWord value.high)).mul (ofInt (2^32))).add (ofInt (ofInt (signedWord value.low)).toUint32))
      (signedWord value.high*2^32+value.low.toNat) := by
  have hbounds := signedWord_bounds value.high
  have hword := value.low.toNat_lt
  obtain ⟨hhigh,hhighValue⟩ := (nearest_ofInt (signedWord value.high)).exact (by omega)
  obtain ⟨hunit,hunitValue⟩ := (nearest_ofInt (2^32)).exact (by omega)
  have hlowSafe : ((value.low.toNat : ℤ)).natAbs < 2^53 := by omega
  obtain ⟨hlow,hlowValue⟩ := (nearest_ofInt value.low.toNat).exact hlowSafe
  have hfactor : (ofInt (signedWord value.high)).value*(ofInt (2^32)).value = (signedWord value.high : ℚ)*2^32 := by
    rw [hhighValue,hunitValue,Int.cast_pow,Int.cast_ofNat]
  obtain ⟨hproduct,hproductValue⟩ := mul_scaled hhigh hunit (by omega) (by omega) hfactor
  have hsum : ((ofInt (signedWord value.high)).mul (ofInt (2^32))).value+(ofInt value.low.toNat).value =
      ((signedWord value.high*2^32+value.low.toNat : ℤ) : ℚ) := by
    rw [hproductValue,hlowValue]
    push_cast
    rfl
  rw [toUint32_signedWord]
  exact nearest_add hproduct hlow hsum

/-- The signed words are the integer, unless it has no sign and a high first bit. -/
theorem words_sum (value : Long) : signedWord value.high*2^32+value.low.toNat =
    if value.unsigned = true ∧ 2^63 ≤ value.toInt then value.toInt-2^64 else value.toInt := by
  have hlow := value.low.toNat_lt
  have hhigh := value.high.toNat_lt
  unfold Long.toInt signedWord
  dsimp only
  cases value.unsigned with
  | true =>
    simp only [Bool.true_eq_false,false_and,if_false,true_and]
    split
    · split
      · omega
      · omega
    · split
      · omega
      · omega
  | false =>
    simp only [Bool.false_eq_true,false_and,if_false,true_and]
    split
    · split
      · omega
      · omega
    · split
      · omega
      · omega

/-- A pair of words is read as the integer that its high word gives the sign. -/
theorem asInt64_words (value : Long) :
    ExactOrAbsent (signedWord value.high*2^32+value.low.toNat) (asInt64 (wordPair value)) :=
  exact_nearest (nearest_words value)

theorem toInt_bounds (value : Long) : -2^63 ≤ value.toInt ∧ value.toInt < 2^64 := by
  have hlow := value.low.toNat_lt
  have hhigh := value.high.toNat_lt
  unfold Long.toInt
  dsimp only
  split
  · omega
  · omega

/-- A result for one integer is none for another one, unless neither is safe. -/
theorem ExactOrAbsent.other {v w : ℤ} {result : Option JsNumber} (hv : ExactOrAbsent v result) (hne : v ≠ w)
    (hsafe : v.natAbs < 2^53) : ¬ExactOrAbsent w result := by
  unfold ExactOrAbsent at hv ⊢
  rw [if_pos hsafe] at hv
  obtain ⟨x,rfl,_,hvalue⟩ := hv
  split
  · rintro ⟨y,hy,_,hother⟩
    cases hy
    rw [hvalue] at hother
    exact hne (Int.cast_injective hother)
  · exact fun hnone => nomatch hnone

/-- A field is read exactly or not at all, unless it is a plain pair of words of an integer without
a sign that differs from 2^64 by a safe integer. -/
theorem asInt64_exact_iff (hnearest : ∀ value, toNumber value = ofInt value.toInt) (h : Carries toNumber value field) :
    ExactOrAbsent value.toInt (asInt64 field) ↔
      ¬(field = wordPair value ∧ value.unsigned = true ∧ 2^64-2^53 < value.toInt) := by
  cases h with
  | number x hfinite hvalue =>
    have hexact : ExactOrAbsent value.toInt (asInt64 (.number x)) := exact_nearest (nearest_value hfinite hvalue)
    exact ⟨fun _ hwords => (nomatch hwords.1),fun _ => hexact⟩
  | long low high =>
    have hfilter : asInt64 (.object (some (some (toNumber value))) low high) =
        if (toNumber value).isSafeInteger then some (toNumber value) else none := Option.filter_some
    have hexact : ExactOrAbsent value.toInt (asInt64 (.object (some (some (toNumber value))) low high)) := by
      rw [hfilter,hnearest]
      exact exact_nearest (nearest_ofInt value.toInt)
    exact ⟨fun _ hwords => (nomatch hwords.1),fun _ => hexact⟩
  | words =>
    have hread := asInt64_words value
    have hsum := words_sum value
    have hbounds := toInt_bounds value
    rw [hsum] at hread
    by_cases hhigh : value.unsigned = true ∧ 2^63 ≤ value.toInt
    · rw [if_pos hhigh] at hread
      constructor
      · intro hexact hwords
        exact hread.other (by omega) (by omega) hexact
      · intro hno
        have hlarge : ¬(2^64-2^53 < value.toInt) := fun hlarge => hno ⟨rfl,hhigh.1,hlarge⟩
        have hnone : ¬(value.toInt-2^64).natAbs < 2^53 := by omega
        have hnone' : ¬value.toInt.natAbs < 2^53 := by omega
        unfold ExactOrAbsent at hread ⊢
        rw [if_neg hnone] at hread
        rw [if_neg hnone']
        exact hread
    · rw [if_neg hhigh] at hread
      refine ⟨fun _ hwords => hhigh ⟨hwords.2.1,?_⟩,fun _ => hread⟩
      have hlarge := hwords.2.2
      omega

/-- The largest safe integer as an object, rounded to the nearest number. -/
theorem asInt64_exact_safe : ExactOrAbsent (2^53-1) (asInt64 (.object (some (some (ofInt (2^53-1)))) none none)) := by
  have hexact := (@asInt64_exact_iff (fun value => ofInt value.toInt) ⟨0xffffffff,0x1fffff,false⟩ _ (fun _ => rfl)
    (.long none none)).mpr fun hwords => nomatch hwords.1
  exact hexact

/-- The largest integer without a sign is read as minus one. -/
theorem asInt64_wraps : ¬ExactOrAbsent (2^64-1) (asInt64 (wordPair ⟨0xffffffff,0xffffffff,true⟩)) := by
  have hread := asInt64_words ⟨0xffffffff,0xffffffff,true⟩
  have hsum : signedWord 0xffffffff*2^32+((0xffffffff : UInt32).toNat : ℤ) = -1 := by decide
  rw [hsum] at hread
  exact hread.other (by decide) (by decide)

end Words

end Baileyrs.BridgePrimitives
