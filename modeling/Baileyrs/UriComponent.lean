import Baileyrs.JsString

/-!
# URI components

A text is written with the unreserved characters as they are and every other
code point as the percent-encoded bytes of its UTF-8. A surrogate without its
pair cannot be written; a percent sign without two hexadecimal digits, or bytes
that are not UTF-8, cannot be read.
-/

namespace Baileyrs.UriComponent

open JsString

/-- Percent sign. -/
def percent : UInt16 := 37

/-- A unit that is written as it is. -/
def isUnreserved (u : UInt16) : Bool :=
  (48 ≤ u.toNat && u.toNat ≤ 57) || (65 ≤ u.toNat && u.toNat ≤ 90) ||
    (97 ≤ u.toNat && u.toNat ≤ 122) || (ofString "-_.!~*'()").contains u

/-- Upper-case hexadecimal digit. -/
def hexDigit (n : ℕ) : UInt16 := if n < 10 then (48+n).toUInt16 else (55+n).toUInt16

/-- Value of a hexadecimal digit. -/
def hexValue (u : UInt16) : Option ℕ :=
  if 48 ≤ u.toNat ∧ u.toNat ≤ 57 then some (u.toNat-48)
  else if 65 ≤ u.toNat ∧ u.toNat ≤ 70 then some (u.toNat-55)
  else if 97 ≤ u.toNat ∧ u.toNat ≤ 102 then some (u.toNat-87)
  else none

/-- Percent-encode a byte. -/
def encodeByte (b : UInt8) : JsString := [percent,hexDigit (b.toNat/16),hexDigit (b.toNat%16)]

/-- Write a text, unless a surrogate has no pair. -/
def encode : JsString → Option JsString
  | [] => some []
  | [u] =>
    if isUnreserved u then some [u]
    else if isSurrogate u then none
    else some ((encodeUtf8 [u]).flatMap encodeByte)
  | u::v::rest =>
    if isUnreserved u then (encode (v::rest)).map (u::·)
    else if isHigh u && isLow v then
      (encode rest).map ((encodeUtf8 [u,v]).flatMap encodeByte++·)
    else if isSurrogate u then none
    else (encode (v::rest)).map ((encodeUtf8 [u]).flatMap encodeByte++·)

/-- Read the next byte of a percent-encoded code point. -/
def readByte (read : Option PartialCode) (b : ℕ) : Option (JsString × Option PartialCode) :=
  match read with
  | none => if (firstByte b).2.isSome ∨ b < 128 then some (firstByte b) else none
  | some p =>
    if p.lower ≤ b ∧ b ≤ p.upper then
      let code := p.code*64+(b-128)
      if p.needed = 1 then some (ofCodePoint code,none)
      else some ([],some ⟨code,p.needed-1,128,191⟩)
    else none

/-- Read a text whose first code point may be read in part. -/
def decodeFrom : Option PartialCode → JsString → Option JsString
  | none,[] => some []
  | some _,[] => none
  | read,u::rest =>
    if u = percent then
      match rest with
      | a::b::tail => do
        let high ← hexValue a
        let low ← hexValue b
        let (text,read) ← readByte read (high*16+low)
        (decodeFrom read tail).map (text++·)
      | _ => none
    else
      match read with
      | none => (decodeFrom none rest).map (u::·)
      | some _ => none

/-- Read a text. -/
def decode (text : JsString) : Option JsString := decodeFrom none text

/-- Written form of a code unit outside the surrogates. -/
def encodeUnit (u : UInt16) : JsString :=
  if isUnreserved u then [u] else (utf8Bytes u.toNat).flatMap encodeByte

/-- Code point of a surrogate pair. -/
def pairCode (u v : UInt16) : ℕ := 65536+(u.toNat-55296)*1024+(v.toNat-56320)

theorem pairCode_plain (u v : UInt16) : 57344 ≤ pairCode u v := by
  unfold pairCode
  omega

theorem pairCode_lt {u v : UInt16} (hu : isHigh u = true) (hv : isLow v = true) : pairCode u v < 1114112 := by
  simp only [isHigh,Bool.and_eq_true,decide_eq_true_eq] at hu
  simp only [isLow,Bool.and_eq_true,decide_eq_true_eq] at hv
  unfold pairCode
  omega

/-- Unreserved units are ASCII. -/
theorem isUnreserved_lt {u : UInt16} (h : isUnreserved u = true) : u.toNat < 128 := by
  have hmarks : ofString "-_.!~*'()" = [45,95,46,33,126,42,39,40,41] := by decide
  simp only [isUnreserved,hmarks,List.contains_eq_mem,Bool.or_eq_true,Bool.and_eq_true,
    decide_eq_true_eq] at h
  rcases h with ((h | h) | h) | h
  · omega
  · omega
  · omega
  · have hlow : [45,95,46,33,126,42,39,40,41].all (fun v : UInt16 => v.toNat < 128) = true := by decide
    exact of_decide_eq_true (List.all_eq_true.mp hlow u h)

/-- A unit outside the surrogates is written on its own. -/
theorem encode_single {u : UInt16} (hu : isSurrogate u = false) (rest : JsString) :
    encode (u::rest) = (encode rest).map (encodeUnit u++·) := by
  have hhigh : isHigh u = false := (Bool.or_eq_false_iff.mp hu).1
  have hbytes : encodeUtf8 [u] = utf8Bytes u.toNat := by simp [encodeUtf8,codePoints,hu]
  cases rest with
  | nil => by_cases hr : isUnreserved u = true <;> simp [encode,encodeUnit,hr,hu,hbytes]
  | cons v rest =>
    by_cases hr : isUnreserved u = true <;> simp [encode,encodeUnit,hr,hu,hhigh,hbytes]

/-- A surrogate pair is written as its code point. -/
theorem encode_pair {u v : UInt16} (hu : isHigh u = true) (hv : isLow v = true) (rest : JsString) :
    encode (u::v::rest) = (encode rest).map ((utf8Bytes (pairCode u v)).flatMap encodeByte++·) := by
  have hr : isUnreserved u = false := by
    cases h : isUnreserved u with
    | false => rfl
    | true =>
      simp only [isHigh,Bool.and_eq_true,decide_eq_true_eq] at hu
      have hlt := isUnreserved_lt h
      omega
  have hbytes : encodeUtf8 [u,v] = utf8Bytes (pairCode u v) := by
    have hpoints : codePoints [u,v] = [pairCode u v] := codePoints_pair hu hv []
    rw [encodeUtf8,hpoints]
    exact List.append_nil _
  simp [encode,hr,hu,hv,hbytes]

/-- Only a paired text can be written. -/
theorem paired_of_encode {text : JsString} (h : (encode text).isSome = true) : Paired text := by
  induction text using encode.induct with
  | case1 => exact .nil
  | case2 u hr =>
    have hlt := isUnreserved_lt hr
    have hu : isSurrogate u = false := by
      simp only [isSurrogate,isHigh,isLow]
      simp
      omega
    exact .single u [] hu .nil
  | case3 u hr hu =>
    simp [encode,hr,hu] at h
  | case4 u hr hu => exact .single u [] (Bool.eq_false_iff.mpr hu) .nil
  | case5 u v rest hr ih =>
    have hlt := isUnreserved_lt hr
    have hu : isSurrogate u = false := by
      simp only [isSurrogate,isHigh,isLow]
      simp
      omega
    rw [encode_single hu,Option.isSome_map] at h
    exact .single u _ hu (ih h)
  | case6 u v rest hr hpair ih =>
    rw [Bool.and_eq_true] at hpair
    rw [encode_pair hpair.1 hpair.2,Option.isSome_map] at h
    exact .pair u v rest hpair.1 hpair.2 (ih h)
  | case7 u v rest hr hpair hu =>
    simp [encode,hr,hpair,hu] at h
  | case8 u v rest hr hpair hu ih =>
    have hu' : isSurrogate u = false := Bool.eq_false_iff.mpr hu
    rw [encode_single hu',Option.isSome_map] at h
    exact .single u _ hu' (ih h)

/-- A paired text can be written. -/
theorem encode_isSome {text : JsString} (h : Paired text) : (encode text).isSome = true := by
  induction h with
  | nil => rfl
  | single u rest hu _ ih =>
    rw [encode_single hu,Option.isSome_map]
    exact ih
  | pair u v rest hu hv _ ih =>
    rw [encode_pair hu hv,Option.isSome_map]
    exact ih

theorem hexValue_hexDigit {n : ℕ} (h : n < 16) : hexValue (hexDigit n) = some n := by
  have hall : ∀ n < 16, hexValue (hexDigit n) = some n := by decide +kernel
  exact hall n h

/-- Reading one percent-encoded byte. -/
theorem decodeFrom_encodeByte (read : Option PartialCode) (b : UInt8) (tail : JsString) :
    decodeFrom read (encodeByte b++tail) =
      (readByte read b.toNat).bind fun next => (decodeFrom next.2 tail).map (next.1++·) := by
  have hb := UInt8.toNat_lt b
  have hhigh := hexValue_hexDigit (n := b.toNat/16) (by omega)
  have hlow := hexValue_hexDigit (n := b.toNat%16) (by omega)
  have hsum : b.toNat/16*16+b.toNat%16 = b.toNat := by omega
  rw [encodeByte,List.cons_append,List.cons_append,List.cons_append,List.nil_append,
    decodeFrom.eq_def]
  simp only [if_true,hhigh,hlow,Option.bind_eq_bind,Option.bind_some,hsum]

/-- The written bytes of a code point are read as the code point. -/
theorem decodeFrom_completes {read : Option PartialCode} {bytes : Bytes} {code : ℕ}
    (h : Completes read bytes code) (tail : JsString) : decodeFrom read (bytes.flatMap encodeByte++tail) =
      (decodeFrom none tail).map (ofCodePoint code++·) := by
  induction h with
  | single b hb =>
    have hp : ofCodePoint b.toNat = [b.toNat.toUInt16] := if_pos (by omega)
    have hread : readByte none b.toNat = some (ofCodePoint b.toNat,none) := by
      simp [readByte,firstByte,hb,hp]
    rw [List.flatMap_cons,List.flatMap_nil,List.append_nil,decodeFrom_encodeByte,hread]
    rfl
  | first b p rest code hb _ ih =>
    have hread : readByte none b.toNat = some ([],some p) := by simp [readByte,hb]
    rw [List.flatMap_cons,List.append_assoc,decodeFrom_encodeByte,hread,Option.bind_some,ih]
    exact Option.map_id'
  | next b p rest code hb hp _ ih =>
    have hread : readByte (some p) b.toNat =
        some ([],some ⟨p.code*64+(b.toNat-128),p.needed-1,128,191⟩) := by
      simp [readByte,hb,hp]
    rw [List.flatMap_cons,List.append_assoc,decodeFrom_encodeByte,hread,Option.bind_some,ih]
    exact Option.map_id'
  | last b p hb hp =>
    have hread : readByte (some p) b.toNat =
        some (ofCodePoint (p.code*64+(b.toNat-128)),none) := by
      simp [readByte,hb,hp]
    rw [List.flatMap_cons,List.flatMap_nil,List.append_nil,decodeFrom_encodeByte,hread,
      Option.bind_some]

/-- A written unit is read back. -/
theorem decodeFrom_encodeUnit {u : UInt16} (hu : isSurrogate u = false) (tail : JsString) :
    decodeFrom none (encodeUnit u++tail) = (decodeFrom none tail).map (u::·) := by
  unfold encodeUnit
  split
  · rename_i hr
    have hne : u ≠ percent := by
      rintro rfl
      exact absurd hr (by decide)
    rw [List.cons_append,List.nil_append,decodeFrom.eq_def]
    simp only [if_neg hne]
  · have hbound := UInt16.toNat_lt u
    have hcode : ofCodePoint u.toNat = [u] := by
      rw [ofCodePoint,if_pos hbound,toUInt16_toNat]
    have hplain : u.toNat < 55296 ∨ 57344 ≤ u.toNat := by
      simp only [isSurrogate,isHigh,isLow,Bool.or_eq_false_iff,Bool.and_eq_false_iff,
        decide_eq_false_iff_not] at hu
      omega
    rw [decodeFrom_completes (completes_utf8Bytes (by omega) hplain),hcode]
    rfl

/-- What was written is read back. -/
theorem decode_encode {text written : JsString} (h : Paired text)
    (hw : encode text = some written) : decode written = some text := by
  induction h generalizing written with
  | nil =>
    cases hw
    rfl
  | single u rest hu _ ih =>
    rw [encode_single hu] at hw
    obtain ⟨tail,htail,rfl⟩ := Option.map_eq_some_iff.mp hw
    have hread := decodeFrom_encodeUnit hu tail
    rw [show decodeFrom none tail = some rest from ih htail] at hread
    exact hread
  | pair u v rest hu hv _ ih =>
    rw [encode_pair hu hv] at hw
    obtain ⟨tail,htail,rfl⟩ := Option.map_eq_some_iff.mp hw
    have hcode : ofCodePoint (pairCode u v) = [u,v] := ofCodePoint_pair hu hv
    have hread := decodeFrom_completes
      (completes_utf8Bytes (pairCode_lt hu hv) (Or.inr (pairCode_plain u v))) tail
    rw [show decodeFrom none tail = some rest from ih htail,hcode] at hread
    exact hread

/-- Units of a written text. -/
theorem encode_units {text written : JsString} (h : Paired text) (hw : encode text = some written) :
    ∀ u ∈ written, isUnreserved u = true ∨ u = percent := by
  have hbyte : ∀ b : UInt8, ∀ u ∈ encodeByte b, isUnreserved u = true ∨ u = percent := by
    have hdigit : ∀ n < 16, isUnreserved (hexDigit n) = true := by decide +kernel
    intro b u hu
    have hb := UInt8.toNat_lt b
    simp only [encodeByte,List.mem_cons,List.not_mem_nil,or_false] at hu
    rcases hu with rfl | rfl | rfl
    · exact Or.inr rfl
    · exact Or.inl (hdigit _ (by omega))
    · exact Or.inl (hdigit _ (by omega))
  have hbytes : ∀ bytes : Bytes, ∀ u ∈ bytes.flatMap encodeByte,
      isUnreserved u = true ∨ u = percent := by
    intro bytes u hu
    obtain ⟨b,_,hb⟩ := List.mem_flatMap.mp hu
    exact hbyte b u hb
  induction h generalizing written with
  | nil =>
    cases hw
    simp
  | single v rest hv _ ih =>
    rw [encode_single hv] at hw
    obtain ⟨tail,htail,rfl⟩ := Option.map_eq_some_iff.mp hw
    intro u hu
    rcases List.mem_append.mp hu with hu | hu
    · unfold encodeUnit at hu
      split at hu
      · rename_i hr
        rw [List.mem_singleton.mp hu]
        exact Or.inl hr
      · exact hbytes _ u hu
    · exact ih htail u hu
  | pair v w rest hv hw' _ ih =>
    rw [encode_pair hv hw'] at hw
    obtain ⟨tail,htail,rfl⟩ := Option.map_eq_some_iff.mp hw
    intro u hu
    rcases List.mem_append.mp hu with hu | hu
    · exact hbytes _ u hu
    · exact ih htail u hu

end Baileyrs.UriComponent
