import Mathlib.Algebra.Group.Int.Defs
import Mathlib.Algebra.Group.Nat.Defs
import Mathlib.Data.List.Basic

/-!
# Strings of UTF-16 code units

A host string is any sequence of 16-bit code units. Pairs of surrogates stand
for one code point; a surrogate that is not part of a pair stands for none,
and encoding it as UTF-8 replaces it.
-/

namespace Baileyrs

/-- A string, as its code units. -/
abbrev JsString := List UInt16

/-- Strings that compare as equal are equal. -/
instance : LawfulBEq JsString := inferInstance

namespace JsString

/-- Contents of a byte array. -/
abbrev Bytes := List UInt8

/-- Code unit of a character below the surrogates. -/
def unit (c : Char) : UInt16 := c.toNat.toUInt16

/-- First half of a surrogate pair. -/
def isHigh (u : UInt16) : Bool := 55296 ≤ u.toNat && u.toNat < 56320

/-- Second half of a surrogate pair. -/
def isLow (u : UInt16) : Bool := 56320 ≤ u.toNat && u.toNat < 57344

/-- Half of a surrogate pair. -/
def isSurrogate (u : UInt16) : Bool := isHigh u || isLow u

/-- Code units of a code point. -/
def ofCodePoint (code : ℕ) : JsString :=
  if code < 65536 then [code.toUInt16]
  else [(55296+(code-65536)/1024).toUInt16,(56320+(code-65536)%1024).toUInt16]

/-- Code units of a text. -/
def ofString (text : String) : JsString := text.toList.flatMap fun c => ofCodePoint c.toNat

/-- The unit that replaces a surrogate without its pair. -/
def replacement : UInt16 := 65533

/-- Code points of a string; a surrogate without its pair counts as the
replacement character. -/
def codePoints : JsString → List ℕ
  | [] => []
  | [u] => [if isSurrogate u then replacement.toNat else u.toNat]
  | u::v::rest =>
    if isHigh u && isLow v then
      (65536+(u.toNat-55296)*1024+(v.toNat-56320))::codePoints rest
    else (if isSurrogate u then replacement.toNat else u.toNat)::codePoints (v::rest)

/-- UTF-8 bytes of a code point. -/
def utf8Bytes (code : ℕ) : Bytes :=
  if code < 128 then [code.toUInt8]
  else if code < 2048 then [(192+code/64).toUInt8,(128+code%64).toUInt8]
  else if code < 65536 then
    [(224+code/4096).toUInt8,(128+code/64%64).toUInt8,(128+code%64).toUInt8]
  else [(240+code/262144).toUInt8,(128+code/4096%64).toUInt8,(128+code/64%64).toUInt8,
    (128+code%64).toUInt8]

/-- Encode a string as UTF-8. -/
def encodeUtf8 (text : JsString) : Bytes := (codePoints text).flatMap utf8Bytes

/-- A code point of which continuation bytes are missing. -/
structure PartialCode where
  /-- Bits read so far. -/
  code : ℕ
  /-- Continuation bytes still needed. -/
  needed : ℕ
  /-- Least value of the next one. -/
  lower : ℕ
  /-- Greatest value of the next one. -/
  upper : ℕ

/-- Read the first byte of a code point. -/
def firstByte (b : ℕ) : JsString × Option PartialCode :=
  if b < 128 then ([b.toUInt16],none)
  else if 194 ≤ b ∧ b < 224 then ([],some ⟨b-192,1,128,191⟩)
  else if 224 ≤ b ∧ b < 240 then
    ([],some ⟨b-224,2,if b = 224 then 160 else 128,if b = 237 then 159 else 191⟩)
  else if 240 ≤ b ∧ b < 245 then
    ([],some ⟨b-240,3,if b = 240 then 144 else 128,if b = 244 then 143 else 191⟩)
  else ([replacement],none)

/-- Read UTF-8; what is not well formed is replaced, and a byte that breaks a
sequence starts the next one. -/
def readUtf8 : Option PartialCode → Bytes → JsString
  | none,[] => []
  | some _,[] => [replacement]
  | none,b::rest => (firstByte b.toNat).1++readUtf8 (firstByte b.toNat).2 rest
  | some p,b::rest =>
    if p.lower ≤ b.toNat ∧ b.toNat ≤ p.upper then
      let code := p.code*64+(b.toNat-128)
      if p.needed = 1 then ofCodePoint code++readUtf8 none rest
      else readUtf8 (some ⟨code,p.needed-1,128,191⟩) rest
    else replacement::((firstByte b.toNat).1++readUtf8 (firstByte b.toNat).2 rest)

/-- Decode UTF-8 without its byte order mark. -/
def decodeUtf8 (bytes : Bytes) : JsString :=
  match readUtf8 none bytes with
  | [] => []
  | u::rest => if u = 65279 then rest else u::rest

/-- Every surrogate is part of a pair. -/
inductive Paired : JsString → Prop where
  | nil : Paired []
  | single (u : UInt16) (rest : JsString) (hu : isSurrogate u = false) (hrest : Paired rest) :
    Paired (u::rest)
  | pair (u v : UInt16) (rest : JsString) (hu : isHigh u = true) (hv : isLow v = true)
    (hrest : Paired rest) : Paired (u::v::rest)

theorem Paired.append {first second : JsString} (hfirst : Paired first) (hsecond : Paired second) :
    Paired (first++second) := by
  induction hfirst with
  | nil => exact hsecond
  | single u rest hu _ ih => exact .single u _ hu ih
  | pair u v rest hu hv _ ih => exact .pair u v _ hu hv ih

theorem toNat_toUInt8 {n : ℕ} (h : n < 256) : n.toUInt8.toNat = n := by
  rw [Nat.toUInt8,UInt8.toNat_ofNat']
  exact Nat.mod_eq_of_lt h

theorem toNat_toUInt16 {n : ℕ} (h : n < 65536) : n.toUInt16.toNat = n := by
  rw [Nat.toUInt16,UInt16.toNat_ofNat']
  exact Nat.mod_eq_of_lt h

theorem toUInt16_toNat (u : UInt16) : u.toNat.toUInt16 = u := UInt16.ofNat_toNat

/-- Bytes that complete a code point of which some bytes may be read. -/
inductive Completes : Option PartialCode → Bytes → ℕ → Prop where
  | single (b : UInt8) (hb : b.toNat < 128) : Completes none [b] b.toNat
  | first (b : UInt8) (p : PartialCode) (rest : Bytes) (code : ℕ)
    (hb : firstByte b.toNat = ([],some p)) (hrest : Completes (some p) rest code) :
    Completes none (b::rest) code
  | next (b : UInt8) (p : PartialCode) (rest : Bytes) (code : ℕ)
    (hb : p.lower ≤ b.toNat ∧ b.toNat ≤ p.upper) (hp : p.needed ≠ 1)
    (hrest : Completes (some ⟨p.code*64+(b.toNat-128),p.needed-1,128,191⟩) rest code) :
    Completes (some p) (b::rest) code
  | last (b : UInt8) (p : PartialCode) (hb : p.lower ≤ b.toNat ∧ b.toNat ≤ p.upper)
    (hp : p.needed = 1) : Completes (some p) [b] (p.code*64+(b.toNat-128))

/-- The last continuation byte of a code point. -/
theorem completes_last {code lower upper : ℕ} (hlow : lower ≤ 128+code%64) (hhigh : 128+code%64 ≤ upper) :
    Completes (some ⟨code/64,1,lower,upper⟩) [(128+code%64).toUInt8] code := by
  have hb : (128+code%64).toUInt8.toNat = 128+code%64 := toNat_toUInt8 (by omega)
  have hlast := Completes.last (128+code%64).toUInt8 ⟨code/64,1,lower,upper⟩
    (by rw [hb]; exact ⟨hlow,hhigh⟩) rfl
  have hcode : code/64*64+((128+code%64).toUInt8.toNat-128) = code := by
    rw [hb]
    omega
  rwa [hcode] at hlast

/-- A continuation byte before the last one. -/
theorem completes_next {code more lower upper : ℕ} {rest : Bytes} {whole : ℕ}
    (hlow : lower ≤ 128+code%64) (hhigh : 128+code%64 ≤ upper)
    (hrest : Completes (some ⟨code,more+1,128,191⟩) rest whole) :
    Completes (some ⟨code/64,more+2,lower,upper⟩) ((128+code%64).toUInt8::rest) whole := by
  have hb : (128+code%64).toUInt8.toNat = 128+code%64 := toNat_toUInt8 (by omega)
  have hcode : code/64*64+((128+code%64).toUInt8.toNat-128) = code := by
    rw [hb]
    omega
  refine .next _ _ _ _ (by rw [hb]; exact ⟨hlow,hhigh⟩) (by simp) ?_
  simp only [hcode]
  exact hrest

/-- The bytes of a code point complete it. -/
theorem completes_utf8Bytes {code : ℕ} (h : code < 1114112)
    (hplain : code < 55296 ∨ 57344 ≤ code) : Completes none (utf8Bytes code) code := by
  unfold utf8Bytes
  split
  · rename_i h1
    have hb : code.toUInt8.toNat = code := toNat_toUInt8 (by omega)
    have hsingle := Completes.single code.toUInt8 (by omega)
    rwa [hb] at hsingle
  · split
    · rename_i h1 h2
      have hb : (192+code/64).toUInt8.toNat = 192+code/64 := toNat_toUInt8 (by omega)
      have hfirst : firstByte (192+code/64) = ([],some ⟨code/64,1,128,191⟩) := by
        have hn : ¬192+code/64 < 128 := by omega
        have hr : 194 ≤ 192+code/64 ∧ 192+code/64 < 224 := by omega
        have hs : 192+code/64-192 = code/64 := by omega
        rw [firstByte,if_neg hn,if_pos hr,hs]
      exact .first _ _ _ _ (hb ▸ hfirst) (completes_last (by omega) (by omega))
    · split
      · rename_i h1 h2 h3
        have hb : (224+code/4096).toUInt8.toNat = 224+code/4096 := toNat_toUInt8 (by omega)
        have hfirst : firstByte (224+code/4096) = ([],some ⟨code/64/64,2,
            if 224+code/4096 = 224 then 160 else 128,
            if 224+code/4096 = 237 then 159 else 191⟩) := by
          have hn : ¬224+code/4096 < 128 := by omega
          have hm : ¬(194 ≤ 224+code/4096 ∧ 224+code/4096 < 224) := by omega
          have hr : 224 ≤ 224+code/4096 ∧ 224+code/4096 < 240 := by omega
          have hs : 224+code/4096-224 = code/64/64 := by omega
          rw [firstByte,if_neg hn,if_neg hm,if_pos hr,hs]
        refine .first _ _ _ _ (hb ▸ hfirst) (completes_next ?_ ?_ (completes_last ?_ ?_))
        · split <;> omega
        · split <;> omega
        · omega
        · omega
      · rename_i h1 h2 h3
        have hb : (240+code/262144).toUInt8.toNat = 240+code/262144 := toNat_toUInt8 (by omega)
        have hfirst : firstByte (240+code/262144) = ([],some ⟨code/64/64/64,3,
            if 240+code/262144 = 240 then 144 else 128,
            if 240+code/262144 = 244 then 143 else 191⟩) := by
          have hn : ¬240+code/262144 < 128 := by omega
          have hm : ¬(194 ≤ 240+code/262144 ∧ 240+code/262144 < 224) := by omega
          have hk : ¬(224 ≤ 240+code/262144 ∧ 240+code/262144 < 240) := by omega
          have hr : 240 ≤ 240+code/262144 ∧ 240+code/262144 < 245 := by omega
          have hs : 240+code/262144-240 = code/64/64/64 := by omega
          rw [firstByte,if_neg hn,if_neg hm,if_neg hk,if_pos hr,hs]
        have hmiddle : code/4096 = code/64/64 := by omega
        rw [hmiddle]
        refine .first _ _ _ _ (hb ▸ hfirst)
          (completes_next ?_ ?_ (completes_next ?_ ?_ (completes_last ?_ ?_)))
        · split <;> omega
        · split <;> omega
        · omega
        · omega
        · omega
        · omega

/-- Bytes that complete a code point are read as it. -/
theorem Completes.readUtf8 {read : Option PartialCode} {bytes : Bytes} {code : ℕ}
    (h : Completes read bytes code) (rest : Bytes) :
    readUtf8 read (bytes++rest) = ofCodePoint code++readUtf8 none rest := by
  induction h with
  | single b hb =>
    have hp : ofCodePoint b.toNat = [b.toNat.toUInt16] := if_pos (by omega)
    simp only [List.cons_append,List.nil_append,JsString.readUtf8,firstByte,if_pos hb,hp]
  | first b p tail code hb _ ih =>
    simp only [List.cons_append,JsString.readUtf8,hb,List.nil_append]
    exact ih
  | next b p tail code hb hp _ ih =>
    simp only [List.cons_append,JsString.readUtf8,if_pos hb,if_neg hp]
    exact ih
  | last b p hb hp =>
    simp only [List.cons_append,List.nil_append,JsString.readUtf8,if_pos hb,if_pos hp]

/-- The bytes of a code point are read as the code point. -/
theorem readUtf8_utf8Bytes {code : ℕ} (h : code < 1114112) (hplain : code < 55296 ∨ 57344 ≤ code) (rest : Bytes) :
    readUtf8 none (utf8Bytes code++rest) = ofCodePoint code++readUtf8 none rest :=
  (completes_utf8Bytes h hplain).readUtf8 rest

/-- A unit outside the surrogates is a code point. -/
theorem codePoints_single {u : UInt16} (hu : isSurrogate u = false) (rest : JsString) :
    codePoints (u::rest) = u.toNat::codePoints rest := by
  have hhigh : isHigh u = false := (Bool.or_eq_false_iff.mp hu).1
  cases rest with
  | nil => simp [codePoints,hu]
  | cons v rest => simp [codePoints,hu,hhigh]

/-- A string that starts with a pair starts with its code point. -/
theorem codePoints_pair {u v : UInt16} (hu : isHigh u = true) (hv : isLow v = true) (rest : JsString) :
    codePoints (u::v::rest) = (65536+(u.toNat-55296)*1024+(v.toNat-56320))::codePoints rest := by
  have hpair : (isHigh u && isLow v) = true := by rw [hu,hv,Bool.and_self]
  rw [codePoints,if_pos hpair]

/-- A surrogate pair is the code point it stands for. -/
theorem ofCodePoint_pair {u v : UInt16} (hu : isHigh u = true) (hv : isLow v = true) :
    ofCodePoint (65536+(u.toNat-55296)*1024+(v.toNat-56320)) = [u,v] := by
  simp only [isHigh,Bool.and_eq_true,decide_eq_true_eq] at hu
  simp only [isLow,Bool.and_eq_true,decide_eq_true_eq] at hv
  have hlarge : ¬65536+(u.toNat-55296)*1024+(v.toNat-56320) < 65536 := by omega
  have hfirst : 55296+(65536+(u.toNat-55296)*1024+(v.toNat-56320)-65536)/1024 = u.toNat := by
    omega
  have hsecond : 56320+(65536+(u.toNat-55296)*1024+(v.toNat-56320)-65536)%1024 = v.toNat := by
    omega
  rw [ofCodePoint,if_neg hlarge,hfirst,hsecond,toUInt16_toNat,toUInt16_toNat]

/-- A paired string is read back from its UTF-8 bytes. -/
theorem readUtf8_encodeUtf8 {text : JsString} (h : Paired text) (rest : Bytes) :
    readUtf8 none (encodeUtf8 text++rest) = text++readUtf8 none rest := by
  induction h with
  | nil => rfl
  | single u tail hu htail ih =>
    have hbound := UInt16.toNat_lt u
    have hplain : u.toNat < 55296 ∨ 57344 ≤ u.toNat := by
      simp only [isSurrogate,isHigh,isLow,Bool.or_eq_false_iff,Bool.and_eq_false_iff,
        decide_eq_false_iff_not] at hu
      omega
    have hcode : ofCodePoint u.toNat = [u] := by
      rw [ofCodePoint,if_pos hbound,toUInt16_toNat]
    have hpoints := codePoints_single hu tail
    have hread := readUtf8_utf8Bytes (by omega) hplain (encodeUtf8 tail++rest)
    rw [hcode,ih] at hread
    rw [encodeUtf8,hpoints,List.flatMap_cons,List.append_assoc]
    exact hread
  | pair u v tail hu hv htail ih =>
    have hcode := ofCodePoint_pair hu hv
    have hpoints := codePoints_pair hu hv tail
    simp only [isHigh,Bool.and_eq_true,decide_eq_true_eq] at hu
    simp only [isLow,Bool.and_eq_true,decide_eq_true_eq] at hv
    have hread := @readUtf8_utf8Bytes (65536+(u.toNat-55296)*1024+(v.toNat-56320))
      (by omega) (by omega) (encodeUtf8 tail++rest)
    rw [hcode,ih] at hread
    rw [encodeUtf8,hpoints,List.flatMap_cons,List.append_assoc]
    exact hread

/-- Code units of a code point: one outside the surrogates, or a pair. -/
theorem ofCodePoint_units {code : ℕ} (h : code < 1114112) (hplain : code < 55296 ∨ 57344 ≤ code) :
    (∃ u, isSurrogate u = false ∧ ofCodePoint code = [u] ∧ u.toNat = code) ∨
      ∃ u v, isHigh u = true ∧ isLow v = true ∧ ofCodePoint code = [u,v] ∧
        65536+(u.toNat-55296)*1024+(v.toNat-56320) = code := by
  by_cases hc : code < 65536
  · have hunit := toNat_toUInt16 hc
    refine Or.inl ⟨code.toUInt16,?_,if_pos hc,hunit⟩
    simp only [isSurrogate,isHigh,isLow,hunit,Bool.or_eq_false_iff,Bool.and_eq_false_iff,
      decide_eq_false_iff_not]
    omega
  · have hu : (55296+(code-65536)/1024).toUInt16.toNat = 55296+(code-65536)/1024 :=
      toNat_toUInt16 (by omega)
    have hv : (56320+(code-65536)%1024).toUInt16.toNat = 56320+(code-65536)%1024 :=
      toNat_toUInt16 (by omega)
    refine Or.inr ⟨_,_,?_,?_,if_neg hc,?_⟩
    · simp only [isHigh,hu,Bool.and_eq_true,decide_eq_true_eq]
      omega
    · simp only [isLow,hv,Bool.and_eq_true,decide_eq_true_eq]
      omega
    · rw [hu,hv]
      omega

/-- A character is no surrogate. -/
theorem toNat_plain (c : Char) : c.toNat < 1114112 ∧ (c.toNat < 55296 ∨ 57344 ≤ c.toNat) := by
  have hvalid : c.toNat < 0xD800 ∨ 0xDFFF < c.toNat ∧ c.toNat < 0x110000 := c.valid
  omega

/-- Every text is paired. -/
theorem paired_ofString (text : String) : Paired (ofString text) := by
  unfold ofString
  induction text.toList with
  | nil => exact .nil
  | cons c rest ih =>
    obtain ⟨hlt,hplain⟩ := toNat_plain c
    rw [List.flatMap_cons]
    rcases ofCodePoint_units hlt hplain with ⟨u,hu,hcode,_⟩ | ⟨u,v,hu,hv,hcode,_⟩
    · rw [hcode]
      exact .single u _ hu ih
    · rw [hcode]
      exact .pair u v _ hu hv ih

/-- The code points of a text are its characters. -/
theorem codePoints_ofString (text : String) : codePoints (ofString text) = text.toList.map Char.toNat := by
  unfold ofString
  induction text.toList with
  | nil => rfl
  | cons c rest ih =>
    obtain ⟨hlt,hplain⟩ := toNat_plain c
    rw [List.flatMap_cons,List.map_cons]
    rcases ofCodePoint_units hlt hplain with ⟨u,hu,hcode,hunit⟩ | ⟨u,v,hu,hv,hcode,hpair⟩
    · rw [hcode,List.cons_append,List.nil_append,codePoints_single hu,hunit,ih]
    · rw [hcode,List.cons_append,List.cons_append,List.nil_append,codePoints_pair hu hv,hpair,ih]

theorem ofString_injective {first second : String} (h : ofString first = ofString second) : first = second := by
  have hpoints := congrArg codePoints h
  rw [codePoints_ofString,codePoints_ofString] at hpoints
  have hinjective : Function.Injective Char.toNat := fun a b hab => Char.toNat_inj.mp hab
  exact String.toList_inj.mp (List.map_injective_iff.mpr hinjective hpoints)

/-- A unit below the surrogates occurs in a text where its character does. -/
theorem unit_mem_ofString {c : Char} (hc : c.toNat < 55296) {text : String}
    (h : unit c ∈ ofString text) : c ∈ text.toList := by
  obtain ⟨d,hd,hunit⟩ := List.mem_flatMap.mp h
  obtain ⟨hlt,hplain⟩ := toNat_plain d
  have hvalue : (unit c).toNat = c.toNat := toNat_toUInt16 (by omega)
  rcases ofCodePoint_units hlt hplain with ⟨u,hu,hcode,hsame⟩ | ⟨u,v,hu,hv,hcode,_⟩
  · rw [hcode,List.mem_singleton] at hunit
    rw [← hunit,hvalue] at hsame
    rwa [Char.toNat_inj.mp hsame]
  · simp only [isHigh,Bool.and_eq_true,decide_eq_true_eq] at hu
    simp only [isLow,Bool.and_eq_true,decide_eq_true_eq] at hv
    simp only [hcode,List.mem_cons,List.not_mem_nil,or_false] at hunit
    rcases hunit with hunit | hunit
    · rw [← hunit,hvalue] at hu
      omega
    · rw [← hunit,hvalue] at hv
      omega

example : decodeUtf8 (encodeUtf8 (ofString "a\"é€😀")) = ofString "a\"é€😀" := by decide

/-- A string with each surrogate that is no part of a pair replaced. -/
def toWellFormed (text : JsString) : JsString := (codePoints text).flatMap ofCodePoint

/-- Code points lie outside the surrogates. -/
theorem mem_codePoints {text : JsString} : ∀ code ∈ codePoints text, code < 1114112 ∧ (code < 55296 ∨ 57344 ≤ code) := by
  have hunit : ∀ u : UInt16, (if isSurrogate u then replacement.toNat else u.toNat) < 1114112 ∧
      ((if isSurrogate u then replacement.toNat else u.toNat) < 55296 ∨
        57344 ≤ if isSurrogate u then replacement.toNat else u.toNat) := by
    intro u
    have hbound := UInt16.toNat_lt u
    split
    · decide
    · rename_i hu
      simp only [isSurrogate,isHigh,isLow,Bool.or_eq_true,Bool.and_eq_true,decide_eq_true_eq] at hu
      omega
  fun_induction codePoints text with
  | case1 => exact fun _ hcode => nomatch hcode
  | case2 u =>
    intro code hcode
    rw [List.mem_singleton.mp hcode]
    exact hunit u
  | case3 u v rest hpair ih =>
    rw [Bool.and_eq_true] at hpair
    simp only [isHigh,isLow,Bool.and_eq_true,decide_eq_true_eq] at hpair
    refine List.forall_mem_cons.mpr ⟨?_,ih⟩
    omega
  | case4 u v rest hpair ih => exact List.forall_mem_cons.mpr ⟨hunit u,ih⟩

/-- Code points written as units are paired and read as the code points. -/
theorem codePoints_flatMap {codes : List ℕ} (h : ∀ code ∈ codes, code < 1114112 ∧ (code < 55296 ∨ 57344 ≤ code)) :
    Paired (codes.flatMap ofCodePoint) ∧ codePoints (codes.flatMap ofCodePoint) = codes := by
  induction codes with
  | nil => exact ⟨.nil,rfl⟩
  | cons code rest ih =>
    obtain ⟨hpaired,hcodes⟩ := ih fun other hother => h other (List.mem_cons_of_mem _ hother)
    obtain ⟨hlt,hplain⟩ := h code List.mem_cons_self
    rw [List.flatMap_cons]
    rcases ofCodePoint_units hlt hplain with ⟨u,hu,hunits,hvalue⟩ | ⟨u,v,hu,hv,hunits,hvalue⟩
    · rw [hunits]
      refine ⟨.single u _ hu hpaired,?_⟩
      rw [List.singleton_append,codePoints_single hu,hcodes,hvalue]
    · rw [hunits]
      refine ⟨.pair u v _ hu hv hpaired,?_⟩
      rw [List.cons_append,List.singleton_append,codePoints_pair hu hv,hcodes,hvalue]

theorem encodeUtf8_toWellFormed (text : JsString) : encodeUtf8 (toWellFormed text) = encodeUtf8 text := by
  rw [encodeUtf8,encodeUtf8,toWellFormed,(codePoints_flatMap mem_codePoints).2]

/-- The bytes of a string are read with lone surrogates replaced. -/
theorem readUtf8_toWellFormed (text : JsString) : readUtf8 none (encodeUtf8 text) = toWellFormed text := by
  have hread := readUtf8_encodeUtf8 (codePoints_flatMap (@mem_codePoints text)).1 []
  rw [List.append_nil] at hread
  have hempty : readUtf8 none [] = [] := rfl
  rw [hempty,List.append_nil] at hread
  rw [← encodeUtf8_toWellFormed]
  exact hread

theorem toWellFormed_ne_nil {text : JsString} (h : text ≠ []) : toWellFormed text ≠ [] := by
  intro hempty
  have hcodes := (codePoints_flatMap (@mem_codePoints text)).2
  have hsame : codePoints text = [] := by
    rw [← hcodes]
    have hnil : (codePoints text).flatMap ofCodePoint = [] := hempty
    rw [hnil]
    rfl
  cases text with
  | nil => exact h rfl
  | cons u rest =>
    cases rest with
    | nil => cases hsame
    | cons v rest =>
      rw [codePoints] at hsame
      split at hsame
      · cases hsame
      · cases hsame

end JsString

end Baileyrs
