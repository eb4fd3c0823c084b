import Baileyrs.LegacyValues
import Mathlib.Data.List.Sort

/-!
# Fingerprints and mirror envelopes

The exact native bytes of a projected record are kept beside its legacy value,
in an envelope with a fingerprint of that value. The fingerprint is a hash of
a canonical form, in which members are sorted, absent members are dropped and
what JSON cannot tell apart from another value is tagged.
-/

namespace Baileyrs.LegacyMirror

open JsString AtomicStore LegacyValues

/-- An object whose only member is a tag. -/
def tagged (tag : String) (text : JsString) : Value := .object [(ofString tag,.string text)]

/-- Canonical form of a number. -/
def canonicalNumber (x : JsNumber) : Value :=
  if x.isNaN then tagged "$number" (ofString "NaN")
  else if x = .infinity then tagged "$number" (ofString "Infinity")
  else if x = .negativeInfinity then tagged "$number" (ofString "-Infinity")
  else if x = .negativeZero then tagged "$number" (ofString "-0")
  else .number x

/-- Members in the order of their names. -/
def sortMembers (members : List (JsString × Value)) : List (JsString × Value) :=
  members.insertionSort fun first second => ¬second.1 < first.1

mutual

/-- Canonical form of a value; none when it is absent. -/
def canonicalize : Value → Option Value
  | .undefined => none
  | .null => some .null
  | .bool b => some (.bool b)
  | .number x => some (canonicalNumber x)
  | .bigint n => some (tagged "$bigint" (intText n))
  | .string text => some (.string text)
  | .bytes data => some (tagged "$bytes" (Base64.encode data))
  | .date iso => some (tagged "$date" iso)
  | .array items => some (.array (canonicalItems items))
  | .object members => some (.object (sortMembers (canonicalMembers members)))
  | .message members _ => some (.object (sortMembers (canonicalMembers members)))
  | .unsupported kind => some (tagged "$unsupported" kind)

/-- Canonical items; an absent one becomes `null`. -/
def canonicalItems : List Value → List Value
  | [] => []
  | item::rest => (canonicalize item).getD .null::canonicalItems rest

/-- Canonical members; an absent one is dropped, and so is one whose name sets
the prototype instead of a property. -/
def canonicalMembers : List (JsString × Value) → List (JsString × Value)
  | [] => []
  | (name,value)::rest =>
    match canonicalize value with
    | some canonical =>
      if name = ofString "__proto__" then canonicalMembers rest
      else (name,canonical)::canonicalMembers rest
    | none => canonicalMembers rest

end

/-- A hash of canonical forms. -/
structure Digest where
  /-- Hash of the text of a canonical form. -/
  hash : Value → Bytes
  /-- A hash has thirty-two bytes. -/
  length_hash : ∀ value, (hash value).length = 32

section Envelope

variable (digest : Digest)

/-- Fingerprint of a legacy value; an absent one is that of `null`. -/
def fingerprintLegacy (value : Value) : Bytes := digest.hash ((canonicalize value).getD .null)

/-- First bytes of an envelope. -/
def envelopeMagic : Bytes := encodeUtf8 (ofString "BRSNAT01")

/-- First bytes of an envelope without a projection of its own. -/
def nativeOnlyMagic : Bytes := encodeUtf8 (ofString "BRSNAT02")

/-- Contents of an envelope. -/
structure NativeEnvelope where
  /-- The exact native bytes. -/
  payload : Bytes
  /-- Fingerprint of the legacy value; none in an old mirror. -/
  legacyDigest : Option Bytes
  /-- The legacy format cannot express the payload. -/
  nativeOnly : Bool

/-- Envelope of native bytes beside their projection. -/
def encodeNativeEnvelope (payload : Bytes) (legacyValue : Value) : Bytes :=
  envelopeMagic++fingerprintLegacy digest legacyValue++payload

/-- Envelope of native bytes the legacy format cannot express. -/
def encodeNativeOnlyEnvelope (payload : Bytes) (legacyValue : Value) : Bytes :=
  nativeOnlyMagic++fingerprintLegacy digest legacyValue++payload

/-- Read an envelope; other bytes are an old mirror, and no bytes are none. -/
def decodeNativeEnvelope (value : Value) : Except StoreError (Option NativeEnvelope) :=
  match value.toBytes with
  | none => .ok none
  | some buffer =>
    if buffer.take 8 = nativeOnlyMagic then
      if buffer.length < 40 then .error (.typeError "native-only mirror envelope is truncated")
      else .ok (some ⟨buffer.drop 40,some ((buffer.drop 8).take 32),true⟩)
    else if buffer.length < 40 ∨ buffer.take 8 ≠ envelopeMagic then .ok (some ⟨buffer,none,false⟩)
    else .ok (some ⟨buffer.drop 40,some ((buffer.drop 8).take 32),false⟩)

/-- The legacy value is the one the envelope was written beside. -/
def envelopeMatchesLegacy (envelope : NativeEnvelope) (legacyValue : Value) : Bool :=
  envelope.legacyDigest == some (fingerprintLegacy digest legacyValue)

/-- The three parts of an envelope are read back. -/
theorem envelope_parts {magic print : Bytes} (payload : Bytes) (hmagic : magic.length = 8)
    (hprint : print.length = 32) :
    (magic++print++payload).take 8 = magic ∧ ((magic++print++payload).drop 8).take 32 = print ∧
      (magic++print++payload).drop 40 = payload ∧ ¬(magic++print++payload).length < 40 := by
  have hhead : (magic++print).length = 40 := by
    rw [List.length_append,hmagic,hprint]
  have htake : (magic++print++payload).take 8 = magic := by
    rw [List.append_assoc,←hmagic,List.take_left]
  have hdrop : (magic++print++payload).drop 8 = print++payload := by
    rw [List.append_assoc,←hmagic,List.drop_left]
  have hpayload : (magic++print++payload).drop 40 = payload := by
    rw [←hhead,List.drop_left]
  have hmid : (print++payload).take 32 = print := by
    rw [←hprint,List.take_left]
  have hlong : ¬(magic++print++payload).length < 40 := by
    rw [List.length_append,hhead]
    omega
  exact ⟨htake,by rw [hdrop,hmid],hpayload,hlong⟩

theorem length_envelopeMagic : envelopeMagic.length = 8 := by decide

theorem length_nativeOnlyMagic : nativeOnlyMagic.length = 8 := by decide

theorem envelopeMagic_ne : envelopeMagic ≠ nativeOnlyMagic := by decide

/-- A written envelope is read back. -/
theorem decode_encodeNativeEnvelope (payload : Bytes) (legacyValue : Value) :
    decodeNativeEnvelope (.bytes (encodeNativeEnvelope digest payload legacyValue)) =
      .ok (some ⟨payload,some (fingerprintLegacy digest legacyValue),false⟩) := by
  obtain ⟨htake,hprint,hpayload,hlong⟩ := envelope_parts payload length_envelopeMagic
    (digest.length_hash ((canonicalize legacyValue).getD .null))
  simp only [decodeNativeEnvelope,Value.toBytes,encodeNativeEnvelope,fingerprintLegacy]
  rw [htake,hprint,hpayload,if_neg envelopeMagic_ne,if_neg]
  exact fun h => h.elim hlong fun hne => hne rfl

/-- So is one without a projection. -/
theorem decode_encodeNativeOnlyEnvelope (payload : Bytes) (legacyValue : Value) :
    decodeNativeEnvelope (.bytes (encodeNativeOnlyEnvelope digest payload legacyValue)) =
      .ok (some ⟨payload,some (fingerprintLegacy digest legacyValue),true⟩) := by
  obtain ⟨htake,hprint,hpayload,hlong⟩ := envelope_parts payload length_nativeOnlyMagic
    (digest.length_hash ((canonicalize legacyValue).getD .null))
  simp only [decodeNativeEnvelope,Value.toBytes,encodeNativeOnlyEnvelope,fingerprintLegacy]
  rw [htake,hprint,hpayload,if_pos rfl,if_neg hlong]

/-- Absent values have the fingerprint of `null`. -/
theorem fingerprint_nullish {value : Value} (h : value.isNullish = true) :
    fingerprintLegacy digest value = fingerprintLegacy digest .null := by
  cases value with
  | undefined => rfl
  | null => rfl
  | _ => cases h

end Envelope

end Baileyrs.LegacyMirror
