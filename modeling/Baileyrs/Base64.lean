import Baileyrs.JsString

/-!
# Base64

Bytes are written in groups of three with the standard alphabet. Decoding
ignores what is not in the alphabet, takes the two URL characters for theirs,
and stops at the first padding mark.
-/

namespace Baileyrs.Base64

open JsString

/-- Character of a value below sixty-four. -/
def digit (n : ℕ) : UInt16 :=
  if n < 26 then (65+n).toUInt16
  else if n < 52 then (71+n).toUInt16
  else if n < 62 then (n-4).toUInt16
  else if n = 62 then unit '+'
  else unit '/'

/-- Value of a character. -/
def digitValue (u : UInt16) : Option ℕ :=
  if 65 ≤ u.toNat ∧ u.toNat ≤ 90 then some (u.toNat-65)
  else if 97 ≤ u.toNat ∧ u.toNat ≤ 122 then some (u.toNat-71)
  else if 48 ≤ u.toNat ∧ u.toNat ≤ 57 then some (u.toNat+4)
  else if u = unit '+' ∨ u = unit '-' then some 62
  else if u = unit '/' ∨ u = unit '_' then some 63
  else none

/-- Padding mark. -/
def padding : UInt16 := 61

/-- Write bytes. -/
def encode : Bytes → JsString
  | [] => []
  | [a] => [digit (a.toNat/4),digit (a.toNat%4*16),padding,padding]
  | [a,b] => [digit (a.toNat/4),digit (a.toNat%4*16+b.toNat/16),digit (b.toNat%16*4),padding]
  | a::b::c::rest =>
    digit (a.toNat/4)::digit (a.toNat%4*16+b.toNat/16)::digit (b.toNat%16*4+c.toNat/64)::
      digit (c.toNat%64)::encode rest

/-- Values of the characters before the first padding mark. -/
def digitValues : JsString → List ℕ
  | [] => []
  | u::rest =>
    if u = padding then []
    else
      match digitValue u with
      | some n => n::digitValues rest
      | none => digitValues rest

/-- Bytes of values; an incomplete byte is dropped. -/
def decodeValues : List ℕ → Bytes
  | a::b::c::d::rest =>
    (a*4+b/16).toUInt8::(b%16*16+c/4).toUInt8::(c%4*64+d).toUInt8::decodeValues rest
  | [a,b,c] => [(a*4+b/16).toUInt8,(b%16*16+c/4).toUInt8]
  | [a,b] => [(a*4+b/16).toUInt8]
  | _ => []

/-- Read bytes. -/
def decode (text : JsString) : Bytes := decodeValues (digitValues text)

theorem digitValue_digit {n : ℕ} (h : n < 64) : digitValue (digit n) = some n := by
  have hall : ∀ n, n < 64 → digitValue (digit n) = some n := by decide
  exact hall n h

theorem digit_ne_padding {n : ℕ} (h : n < 64) : digit n ≠ padding := by
  have hall : ∀ n, n < 64 → digit n ≠ padding := by decide
  exact hall n h

theorem digitValues_cons {n : ℕ} (h : n < 64) (rest : JsString) :
    digitValues (digit n::rest) = n::digitValues rest := by
  rw [digitValues,if_neg (digit_ne_padding h),digitValue_digit h]

theorem toUInt8_eq {n : ℕ} {b : UInt8} (h : n = b.toNat) : n.toUInt8 = b := by
  rw [h]
  exact UInt8.ofNat_toNat

/-- Written bytes are read back. -/
theorem decode_encode (bytes : Bytes) : decode (encode bytes) = bytes := by
  unfold decode
  induction bytes using encode.induct with
  | case1 => rfl
  | case2 a =>
    have ha := UInt8.toNat_lt a
    rw [encode,digitValues_cons (by omega),digitValues_cons (by omega)]
    have hbyte : (a.toNat/4*4+a.toNat%4*16/16).toUInt8 = a := toUInt8_eq (by omega)
    change [(a.toNat/4*4+a.toNat%4*16/16).toUInt8] = [a]
    rw [hbyte]
  | case3 a b =>
    have ha := UInt8.toNat_lt a
    have hb := UInt8.toNat_lt b
    rw [encode,digitValues_cons (by omega),digitValues_cons (by omega),digitValues_cons (by omega)]
    have hfirst : (a.toNat/4*4+(a.toNat%4*16+b.toNat/16)/16).toUInt8 = a := toUInt8_eq (by omega)
    have hsecond : ((a.toNat%4*16+b.toNat/16)%16*16+b.toNat%16*4/4).toUInt8 = b :=
      toUInt8_eq (by omega)
    change [(a.toNat/4*4+(a.toNat%4*16+b.toNat/16)/16).toUInt8,
      ((a.toNat%4*16+b.toNat/16)%16*16+b.toNat%16*4/4).toUInt8] = [a,b]
    rw [hfirst,hsecond]
  | case4 a b c rest ih =>
    have ha := UInt8.toNat_lt a
    have hb := UInt8.toNat_lt b
    have hc := UInt8.toNat_lt c
    rw [encode,digitValues_cons (by omega),digitValues_cons (by omega),digitValues_cons (by omega),
      digitValues_cons (by omega)]
    have hfirst : (a.toNat/4*4+(a.toNat%4*16+b.toNat/16)/16).toUInt8 = a := toUInt8_eq (by omega)
    have hsecond : ((a.toNat%4*16+b.toNat/16)%16*16+(b.toNat%16*4+c.toNat/64)/4).toUInt8 = b :=
      toUInt8_eq (by omega)
    have hthird : ((b.toNat%16*4+c.toNat/64)%4*64+c.toNat%64).toUInt8 = c := toUInt8_eq (by omega)
    rw [decodeValues,hfirst,hsecond,hthird,ih]

end Baileyrs.Base64
