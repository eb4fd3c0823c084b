import Baileyrs.JsonValues

/-!
# Bytes as numbers of a JSON text

A byte array is written as an array of numbers. What is a byte of such an array is
not changed by writing and reading it, and numbers that are no bytes stay none.
-/

namespace Baileyrs.LegacyProjection

open JsString AtomicStore LegacyValues

/-- Byte that an item of an array is. -/
def itemByte : Value → Option UInt8
  | .number x => x.toByte
  | _ => none

/-- Numbers of bytes. -/
def byteNumbers (data : Bytes) : List Value := data.map fun b => .number (.ofRatio false b.toNat 1)

theorem requireByteArray_array (items : List Value) (label : String) :
    requireByteArray (.array items) label = match items.mapM itemByte with
      | some data => .ok data
      | none => .error (.typeError (label++" must be an array of bytes")) := rfl

/-- Small integers are told apart. -/
theorem ofRatio_injective {n m : ℕ} (hn : n < 2^53) (hm : m < 2^53)
    (h : JsNumber.ofRatio false n 1 = JsNumber.ofRatio false m 1) : n = m := by
  have htext := congrArg JsNumber.text h
  rw [JsNumber.text_ofRatio hn,JsNumber.text_ofRatio hm] at htext
  have hvalue := congrArg ofDigits htext
  rwa [ofDigits_natText,ofDigits_natText] at hvalue

theorem ofRatio_ne_negativeZero {n : ℕ} (hn : n < 2^53) : JsNumber.ofRatio false n 1 ≠ .negativeZero := by
  by_cases hzero : n = 0
  · rw [hzero]
    decide
  · exact (JsNumber.isFinite_ofRatio hzero hn).2.2.2

theorem isFinite_ofRatio_nat {n : ℕ} (hn : n < 2^53) : (JsNumber.ofRatio false n 1).isFinite = true := by
  by_cases hzero : n = 0
  · rw [hzero]
    decide
  · exact (JsNumber.isFinite_ofRatio hzero hn).1

/-- The byte that is found for a number is the number. -/
theorem find_ofRatio {x : JsNumber} {n : ℕ}
    (h : ((List.range 256).find? fun n => JsNumber.ofRatio false n 1 = x) = some n) :
    JsNumber.ofRatio false n 1 = x ∧ n < 256 := by
  have hfound := List.find?_some h
  exact ⟨of_decide_eq_true hfound,List.mem_range.mp (List.mem_of_find?_eq_some h)⟩

/-- The number of a byte is the byte. -/
theorem toByte_ofRatio (b : UInt8) : (JsNumber.ofRatio false b.toNat 1).toByte = some b := by
  have hbyte := UInt8.toNat_lt b
  have hfind : ((List.range 256).find? fun n => JsNumber.ofRatio false n 1 = JsNumber.ofRatio false b.toNat 1) =
      some b.toNat := by
    cases hfound : (List.range 256).find? fun n => JsNumber.ofRatio false n 1 = JsNumber.ofRatio false b.toNat 1 with
    | none =>
      have hnone := List.find?_eq_none.mp hfound b.toNat (List.mem_range.mpr hbyte)
      exact absurd (decide_eq_true rfl) hnone
    | some n =>
      obtain ⟨hsame,hrange⟩ := find_ofRatio hfound
      rw [ofRatio_injective (by omega) (by omega) hsame]
  unfold JsNumber.toByte
  rw [if_neg (ofRatio_ne_negativeZero (by omega)),hfind,Option.map_some]
  exact congrArg some (UInt8.ofNat_toNat)

/-- A byte is a finite number with the text of its value. -/
theorem text_toByte {x : JsNumber} {b : UInt8} (h : x.toByte = some b) : x.isFinite = true ∧ x.text = natText b.toNat := by
  unfold JsNumber.toByte at h
  split at h
  · rename_i hzero
    cases h
    rw [hzero]
    exact ⟨by decide,rfl⟩
  · cases hfound : (List.range 256).find? fun n => JsNumber.ofRatio false n 1 = x with
    | none =>
      rw [hfound] at h
      cases h
    | some n =>
      rw [hfound] at h
      cases h
      obtain ⟨hsame,hrange⟩ := find_ofRatio hfound
      have hbyte : n.toUInt8.toNat = n := UInt8.toNat_ofNat_of_lt' hrange
      rw [hbyte,← hsame]
      exact ⟨isFinite_ofRatio_nat (by omega),JsNumber.text_ofRatio (by omega)⟩

theorem toByte_of_infinite {x : JsNumber} (h : x.isFinite = false) : x.toByte = none := by
  cases hbyte : x.toByte with
  | none => rfl
  | some b =>
    rw [(text_toByte hbyte).1] at h
    cases h

/-- A byte is written as its value. -/
theorem toJson_byte {item : Value} {b : UInt8} (h : itemByte item = some b) :
    toJson item = .ok (some (byteLiteral b)) := by
  cases item with
  | number x =>
    obtain ⟨hfinite,htext⟩ := text_toByte h
    rw [toJson,if_pos hfinite,htext]
    rfl
  | _ => cases h

theorem toJsonItems_bytes {items : List Value} {data : Bytes} (h : items.mapM itemByte = some data) :
    toJsonItems items = .ok (data.map byteLiteral) := by
  induction items generalizing data with
  | nil =>
    cases h
    rfl
  | cons item rest ih =>
    rw [List.mapM_cons] at h
    cases hfirst : itemByte item with
    | none =>
      rw [hfirst] at h
      cases h
    | some b =>
      cases hothers : rest.mapM itemByte with
      | none =>
        rw [hfirst,hothers] at h
        cases h
      | some others =>
        rw [hfirst,hothers] at h
        cases h
        rw [toJsonItems,toJson_byte hfirst,ih hothers]
        rfl

theorem mapM_byteNumbers (data : Bytes) : (byteNumbers data).mapM itemByte = some data := by
  induction data with
  | nil => rfl
  | cons b rest ih =>
    have hfirst : itemByte (.number (.ofRatio false b.toNat 1)) = some b := toByte_ofRatio b
    rw [byteNumbers,List.map_cons,List.mapM_cons,hfirst]
    change (do let others ← (byteNumbers rest).mapM itemByte; pure (b::others)) = _
    rw [ih]
    rfl

/-- Writing and reading an item leaves the byte it is. -/
theorem itemByte_ofJson {item : Value} {written : Option Json} (h : toJson item = .ok written) :
    itemByte (ofJson (written.getD .null)) = itemByte item := by
  cases item with
  | number x =>
    rw [toJson] at h
    cases h
    cases hfinite : x.isFinite with
    | false => exact (toByte_of_infinite hfinite).symm
    | true =>
      change (JsNumber.ofLiteral x.text).toByte = x.toByte
      by_cases hzero : x = .negativeZero
      · rw [hzero]
        decide
      · rw [JsNumber.ofLiteral_text hfinite hzero]
  | array items =>
    rw [toJson] at h
    obtain ⟨trees,_,h⟩ := bind_ok h
    cases h
    rfl
  | object members =>
    rw [toJson] at h
    obtain ⟨trees,_,h⟩ := bind_ok h
    cases h
    rfl
  | message members json =>
    rw [toJson] at h
    obtain ⟨trees,_,h⟩ := bind_ok h
    cases h
    rfl
  | bigint n => cases h
  | _ =>
    cases h
    rfl

theorem mapM_ofJsonItems {items : List Value} {written : List Json} (h : toJsonItems items = .ok written) :
    (ofJsonItems written).mapM itemByte = items.mapM itemByte := by
  induction items generalizing written with
  | nil =>
    cases h
    rfl
  | cons item rest ih =>
    rw [toJsonItems] at h
    obtain ⟨first,hfirst,h⟩ := bind_ok h
    obtain ⟨others,hothers,h⟩ := bind_ok h
    cases h
    rw [ofJsonItems,List.mapM_cons,List.mapM_cons,itemByte_ofJson hfirst,ih hothers]

/-- Writing and reading an array leaves whether it is one of bytes. -/
theorem requireByteArray_ofJson {items : List Value} {tree : Json} (h : toJson (.array items) = .ok (some tree))
    (label : String) : requireByteArray (ofJson tree) label = requireByteArray (.array items) label := by
  rw [toJson] at h
  obtain ⟨written,hwritten,h⟩ := bind_ok h
  cases h
  rw [ofJson,requireByteArray_array,requireByteArray_array,mapM_ofJsonItems hwritten]

end Baileyrs.LegacyProjection
