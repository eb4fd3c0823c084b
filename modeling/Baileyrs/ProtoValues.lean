import Baileyrs.Base64
import Baileyrs.InsertionMap
import Baileyrs.JsNumber

/-!
# Values of protobuf messages

A message is a host object: a plain one, or an instance of a constructor of
the compatibility runtime, whose prototype names its schema. The conversions
between messages and plain objects read properties through prototypes and use
the conversions of the language between strings, numbers and booleans.
-/

namespace Baileyrs

open JsString

namespace JsNumber

/-- No number at all. -/
def nan : JsNumber := ⟨0x7ff8000000000000⟩

/-- Double of an integer. -/
def ofInt (i : ℤ) : JsNumber := ofRatio (i < 0) i.natAbs 1

/-- Integer part of a finite number; zero for the others. -/
def toInt (x : JsNumber) : ℤ :=
  if x.isFinite then
    let magnitude : ℤ := (x.ratio.1/x.ratio.2 : ℕ)
    if x.isNegative then -magnitude else magnitude
  else 0

/-- Signed 32-bit integer of a number. -/
def toInt32 (x : JsNumber) : ℤ := Int.bmod x.toInt (2^32)

/-- Unsigned 32-bit integer of a number. -/
def toUint32 (x : JsNumber) : ℕ := (x.toInt%2^32).toNat

/-- The same key of a map: the two zeros are one key, and so is no number. -/
def sameKey (x y : JsNumber) : Bool :=
  x = y || (x.isNaN && y.isNaN) || ([zero,negativeZero].contains x && [zero,negativeZero].contains y)

/-- Blanks around a number. -/
def isSpace (u : UInt16) : Bool :=
  (9 ≤ u.toNat && u.toNat ≤ 13) || (8192 ≤ u.toNat && u.toNat ≤ 8202) ||
    [32,160,5760,8232,8233,8239,8287,12288,65279].contains u.toNat

/-- Value of a digit in a base up to sixteen. -/
def digitIn (base : ℕ) (u : UInt16) : Option ℕ := (Json.hexValue u).filter (· < base)

/-- Number of digits in a base. -/
def ofDigitsIn (base : ℕ) (digits : JsString) : JsNumber :=
  match digits.mapM (digitIn base) with
  | some values => if values = [] then nan else ofRatio false (values.foldl (fun n d => n*base+d) 0) 1
  | none => nan

/-- A text without a sign is a decimal number. -/
def isDecimal (text : JsString) : Bool :=
  let (whole,tail) := text.span Json.isDigit
  let (point,tail) := Json.readOptional [unit '.'] tail
  let (fraction,tail) := if point = [] then ([],tail) else tail.span Json.isDigit
  let (exponent,tail) := Json.readOptional [unit 'e',unit 'E'] tail
  let (_,digits) := Json.readOptional [unit '+',unit '-'] tail
  !(whole.isEmpty && fraction.isEmpty) &&
    if exponent = [] then tail.isEmpty else !digits.isEmpty && digits.all Json.isDigit

/-- Number of a text. -/
def ofText (text : JsString) : JsNumber :=
  let trimmed := (text.dropWhile isSpace).reverse.dropWhile isSpace |>.reverse
  let (sign,magnitude) := Json.readOptional [unit '+',unit '-'] trimmed
  if trimmed = [] then zero
  else if magnitude = ofString "Infinity" then
    if sign = [unit '-'] then negativeInfinity else infinity
  else
    match trimmed with
    | 48::120::digits => ofDigitsIn 16 digits
    | 48::88::digits => ofDigitsIn 16 digits
    | 48::111::digits => ofDigitsIn 8 digits
    | 48::79::digits => ofDigitsIn 8 digits
    | 48::98::digits => ofDigitsIn 2 digits
    | 48::66::digits => ofDigitsIn 2 digits
    | _ =>
      if isDecimal magnitude then
        ofLiteral (if sign = [unit '-'] then unit '-'::magnitude else magnitude)
      else nan

end JsNumber

namespace ProtoRuntime

/-- A 64-bit integer as its two words. -/
structure Long where
  /-- Low word. -/
  low : UInt32
  /-- High word. -/
  high : UInt32
  /-- Read without a sign. -/
  unsigned : Bool
  deriving DecidableEq

namespace Long

/-- Integer of the words. -/
def toInt (value : Long) : ℤ :=
  let words : ℤ := value.high.toNat*2^32+value.low.toNat
  if value.unsigned = false ∧ 2^31 ≤ value.high.toNat then words-2^64 else words

/-- Words of an integer. -/
def ofInt (i : ℤ) (unsigned : Bool) : Long :=
  ⟨(i%2^32).toNat.toUInt32,(i/2^32%2^32).toNat.toUInt32,unsigned⟩

end Long

/-- Where an object inherits properties from: the prototype of plain objects,
nothing, or the prototype of the instances of a schema. -/
inductive Prototype where
  | plain
  | bare
  | message (schemaId : ℕ)
  deriving DecidableEq

/-- A host value. Other prototypes than those of plain objects and of messages
are left out; a function is what it has as its length. -/
inductive Value where
  | undefined
  | null
  | bool (b : Bool)
  | number (x : JsNumber)
  | bigint (n : ℤ)
  | string (text : JsString)
  | symbol
  | function (length : ℕ)
  | bytes (data : Bytes)
  | long (value : Long)
  | array (items : List Value)
  | object (prototype : Prototype) (members : List (JsString × Value))

/-- What a conversion can throw. -/
inductive ProtoError where
  | typeError (message : String)
  | rangeError (message : String)
  | error (message : String)
  deriving DecidableEq

/-- Own properties of an object, in order. -/
abbrev Members := List (JsString × Value)

namespace Value

/-- Absent for a message. -/
def isNullish : Value → Bool
  | .undefined => true
  | .null => true
  | _ => false

/-- An object in the sense of `typeof`. -/
def isObject : Value → Bool
  | .bytes _ => true
  | .long _ => true
  | .array _ => true
  | .object _ _ => true
  | _ => false

/-- A value counts as true in a condition. -/
def isTruthy : Value → Bool
  | .undefined => false
  | .null => false
  | .bool b => b
  | .number x => !(x = .zero || x = .negativeZero || x.isNaN)
  | .bigint n => n != 0
  | .string text => !text.isEmpty
  | _ => true

end Value

end ProtoRuntime

end Baileyrs
