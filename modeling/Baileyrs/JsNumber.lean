import Baileyrs.Json
import Mathlib.Data.Nat.Log

/-!
# Host numbers

A number is the bits of its double. A decimal literal is read as the nearest
double, with ties to the even one, and a double is written with the fewest
digits that read back as itself.
-/

namespace Baileyrs

open JsString

/-- A number, as the bits of its double. -/
structure JsNumber where
  /-- Sign, exponent and mantissa. -/
  bits : UInt64
  deriving DecidableEq

namespace JsNumber

/-- Zero. -/
def zero : JsNumber := ⟨0⟩

/-- Negative zero. -/
def negativeZero : JsNumber := ⟨0x8000000000000000⟩

/-- Infinity. -/
def infinity : JsNumber := ⟨0x7ff0000000000000⟩

/-- Negative infinity. -/
def negativeInfinity : JsNumber := ⟨0xfff0000000000000⟩

/-- Neither infinite nor no number at all. -/
def isFinite (x : JsNumber) : Bool := x.bits/0x10000000000000%0x800 != 0x7ff

/-- No number at all. -/
def isNaN (x : JsNumber) : Bool := !x.isFinite && x.bits%0x10000000000000 != 0

/-- The sign bit is set. -/
def isNegative (x : JsNumber) : Bool := 2^63 ≤ x.bits.toNat

/-- Nonnegative part of an exponent. -/
def up (e : ℤ) : ℕ := e.toNat

/-- Nonnegative part of a negated exponent. -/
def down (e : ℤ) : ℕ := (-e).toNat

/-- Quotient rounded to the nearest integer, with ties to the even one. -/
def roundHalfEven (num den : ℕ) : ℕ :=
  let low := num/den
  let rest := num%den
  if 2*rest < den then low
  else if den < 2*rest then low+1
  else if low%2 = 0 then low
  else low+1

/-- Binary exponent of a positive ratio. -/
def binaryExponent (num den : ℕ) : ℤ :=
  let e : ℤ := (Nat.log 2 num : ℤ)-Nat.log 2 den
  if den*2^up e ≤ num*2^down e then e else e-1

/-- Nearest double of a ratio. -/
def ofRatio (negative : Bool) (num den : ℕ) : JsNumber :=
  let sign : ℕ := if negative then 2^63 else 0
  if num = 0 then ⟨sign.toUInt64⟩
  else
    let scale := max (binaryExponent num den-52) (-1074)
    let mantissa := roundHalfEven (num*2^down scale) (den*2^up scale)
    let bits := (scale+1075).toNat*2^52+mantissa-2^52
    ⟨(sign+min bits 0x7ff0000000000000).toUInt64⟩

/-- Value of decimal digits. -/
def digitsValue (digits : JsString) : ℕ := digits.foldl (fun n u => n*10+(u.toNat-48)) 0

/-- Exponent part of a literal. -/
def literalExponent : JsString → ℤ
  | [] => 0
  | _::rest =>
    let (sign,digits) := Json.readOptional [unit '+',unit '-'] rest
    if sign = [unit '-'] then -digitsValue digits else digitsValue digits

/-- Double of a decimal literal. -/
def ofLiteral (literal : JsString) : JsNumber :=
  let (sign,tail) := Json.readOptional [unit '-'] literal
  let (whole,tail) := tail.span Json.isDigit
  let (point,tail) := Json.readOptional [unit '.'] tail
  let (fraction,tail) := if point = [] then ([],tail) else tail.span Json.isDigit
  let digits := digitsValue (whole++fraction)
  let scale := literalExponent tail-fraction.length
  if digits = 0 then ofRatio (sign ≠ []) 0 1
  else ofRatio (sign ≠ []) (digits*10^up scale) (10^down scale)

/-- Magnitude of a finite double, as a ratio. -/
def ratio (x : JsNumber) : ℕ × ℕ :=
  let bits := x.bits.toNat%2^63
  let mantissa := if bits/2^52 = 0 then bits else bits%2^52+2^52
  let scale : ℤ := max (bits/2^52 : ℕ) 1-1075
  (mantissa*2^up scale,2^down scale)

/-- Decimal digits with the place of the point, if they read back as the ratio. -/
def decimal (num den : ℕ) (count : ℕ) (place : ℤ) : List (ℕ × ℤ) :=
  let scaled := num*10^up (count-place)
  let unit := den*10^down (count-place)
  let low := scaled/unit
  let nearest := if 2*(scaled%unit) ≤ unit then [low,low+1] else [low+1,low]
  (nearest.filter fun digits => 10^(count-1) ≤ digits ∧ digits < 10^count ∧
    ofRatio false (digits*10^up (place-count)) (10^down (place-count)) = ofRatio false num den).map
      fun digits => (digits,place)

/-- Fewest decimal digits of a positive ratio, with the place of the point. -/
def shortest (num den : ℕ) : Option (ℕ × ℤ) :=
  let place : ℤ := if den ≤ num then Nat.log 10 (num/den)+1 else -Nat.log 10 (den/num)
  ((List.range 17).flatMap fun count =>
    [place-1,place,place+1].flatMap fun place => decimal num den (count+1) place).head?

/-- Text of digits with the place of the point. -/
def layout (digits : JsString) (place : ℤ) : JsString :=
  if digits.length ≤ place ∧ place ≤ 21 then
    digits++List.replicate (place-digits.length).toNat (unit '0')
  else if 0 < place ∧ place ≤ 21 then
    digits.take place.toNat++unit '.'::digits.drop place.toNat
  else if -6 < place ∧ place ≤ 0 then
    ofString "0."++List.replicate (-place).toNat (unit '0')++digits
  else
    let sign := if 0 < place then unit '+' else unit '-'
    let fraction := if digits.length = 1 then [] else unit '.'::digits.drop 1
    digits.take 1++fraction++unit 'e'::sign::ofString (toString (place-1).natAbs)

/-- Text of a number. -/
def text (x : JsNumber) : JsString :=
  if x.isNaN then ofString "NaN"
  else
    let sign := if x.isNegative then ofString "-" else []
    if !x.isFinite then sign++ofString "Infinity"
    else if x = zero ∨ x = negativeZero then ofString "0"
    else
      match shortest x.ratio.1 x.ratio.2 with
      | some (digits,place) => sign++layout (ofString (toString digits)) place
      | none => []

/-- Byte a number is, when it is an integer in the range of one. -/
def toByte (x : JsNumber) : Option UInt8 :=
  if x = negativeZero then some 0
  else ((List.range 256).find? fun n => ofRatio false n 1 = x).map Nat.toUInt8

end JsNumber

end Baileyrs
