import Baileyrs.BitStrings
import Baileyrs.JsString

/-!
# Pairing codes

Bytes are written with an alphabet of thirty-two characters. The bits that wait are the
lowest of a 32-bit word whose upper bits are never cleared.
-/

namespace Baileyrs.Generics

open JsString BitStrings

/-- Characters for five bits each. -/
def crockfordCharacters : JsString := ofString "123456789ABCDEFGHJKLMNPQRSTVWXYZ"

/-- Text of one character of a text, or none. -/
def charAt (text : JsString) (index : ℕ) : JsString := text[index]?.toList

/-- The local variables. -/
structure CrockfordState where
  /-- Bits, of which the lowest wait. -/
  value : BitVec 32
  /-- How many bits wait. -/
  bitCount : ℕ
  /-- Characters written. -/
  crockford : List JsString
deriving DecidableEq

/-- Write a character while five bits wait. -/
def writeGroups (value : BitVec 32) : ℕ → List JsString → CrockfordState
  | bitCount+5,crockford =>
    writeGroups value bitCount (crockford++[charAt crockfordCharacters ((value >>> (bitCount%32)) &&& 31).toNat])
  | bitCount,crockford => ⟨value,bitCount,crockford⟩

/-- One turn of the loop over the bytes. -/
def addByte (state : CrockfordState) (byte : UInt8) : CrockfordState :=
  writeGroups ((state.value <<< 8) ||| (BitVec.ofNat 32 byte.toNat &&& 255)) (state.bitCount+8) state.crockford

/-- Write bytes in the alphabet. -/
def bytesToCrockford (buffer : Bytes) : JsString :=
  let state := buffer.foldl addByte ⟨0,0,[]⟩
  let crockford :=
    if 0 < state.bitCount then
      state.crockford++[charAt crockfordCharacters ((state.value <<< ((5-state.bitCount)%32)) &&& 31).toNat]
    else state.crockford
  crockford.flatten

/-- Character of a group of at most five bits. -/
def symbol (group : List Bool) : JsString := charAt crockfordCharacters (valueOf (padded 5 group))

theorem padded_whole {group : List Bool} (h : group.length = 5) : padded 5 group = group := by
  rw [padded,h,Nat.sub_self,List.replicate_zero,List.append_nil]

theorem length_padded {group : List Bool} (h : group.length ≤ 5) : (padded 5 group).length = 5 := by
  rw [padded,List.length_append,List.length_replicate]
  omega

/-- Different values have different characters. -/
theorem charAt_crockford {n : ℕ} (h : n < 32) :
    ∃ u, charAt crockfordCharacters n = [u] ∧ ∀ m < 32, charAt crockfordCharacters m = [u] → m = n := by
  have hall : ∀ n < 32, ∃ u, charAt crockfordCharacters n = [u] := by
    have hdecided : ∀ n < 32, (charAt crockfordCharacters n).length = 1 := by decide +kernel
    exact fun n hn => List.length_eq_one_iff.mp (hdecided n hn)
  have hapart : ∀ n < 32, ∀ m < 32, charAt crockfordCharacters m = charAt crockfordCharacters n → m = n := by
    decide +kernel
  obtain ⟨u,hu⟩ := hall n h
  exact ⟨u,hu,fun m hm hsame => hapart n h m hm (hsame.trans hu.symm)⟩

theorem symbol_single {group : List Bool} (h : group.length ≤ 5) : (symbol group).length = 1 := by
  have hlt := valueOf_lt (padded 5 group)
  rw [length_padded h] at hlt
  obtain ⟨u,hu,_⟩ := charAt_crockford hlt
  rw [symbol,hu,List.length_singleton]

/-- The character tells a group of known length. -/
theorem symbol_injective {first second : List Bool} (hlength : first.length = second.length) (hfew : first.length ≤ 5)
    (h : symbol first = symbol second) : first = second := by
  have hsecond : second.length ≤ 5 := hlength ▸ hfew
  have hlt := valueOf_lt (padded 5 first)
  have hltSecond := valueOf_lt (padded 5 second)
  rw [length_padded hfew] at hlt
  rw [length_padded hsecond] at hltSecond
  obtain ⟨u,hu,hunique⟩ := charAt_crockford hlt
  have hvalue := hunique _ hltSecond (h.symm.trans hu)
  have hpadded := valueOf_injective ((length_padded hfew).trans (length_padded hsecond).symm) hvalue.symm
  exact (List.append_inj hpadded hlength).1

/-- What a state stands for: groups that are written, and few bits that wait. -/
structure Accumulated (bits : List Bool) (state : CrockfordState) : Prop where
  /-- The written groups come before the bits that wait. -/
  written : ∃ whole : List (List Bool), (∀ group ∈ whole, group.length = 5) ∧ state.crockford = whole.map symbol ∧
    bits = whole.flatten++bitsOf state.bitCount state.value.toNat
  /-- Too few bits for a group wait. -/
  few : state.bitCount < 5

/-- The five bits that are written are the uppermost that wait. -/
theorem charAt_group (value : BitVec 32) {bitCount : ℕ} (h : bitCount < 32) :
    charAt crockfordCharacters ((value >>> (bitCount%32)) &&& 31).toNat = symbol (bitsOf 5 (value.toNat/2^bitCount)) := by
  have hvalue : ((value >>> (bitCount%32)) &&& 31).toNat = value.toNat/2^bitCount%2^5 := by
    rw [Nat.mod_eq_of_lt h,BitVec.toNat_and,BitVec.toNat_ushiftRight,Nat.shiftRight_eq_div_pow]
    exact Nat.and_two_pow_sub_one_eq_mod _ 5
  rw [symbol,padded_whole (length_bitsOf 5 _),valueOf_bitsOf,hvalue]

/-- The inner loop writes all whole groups. -/
theorem writeGroups_accumulated (value : BitVec 32) {bitCount : ℕ} (hcount : bitCount < 32) {bits : List Bool}
    {whole : List (List Bool)} (hwhole : ∀ group ∈ whole, group.length = 5)
    (hbits : bits = whole.flatten++bitsOf bitCount value.toNat) :
    Accumulated bits (writeGroups value bitCount (whole.map symbol)) := by
  induction bitCount using Nat.strong_induction_on generalizing whole with
  | _ bitCount ih =>
    by_cases hfew : bitCount < 5
    · have hstop : writeGroups value bitCount (whole.map symbol) = ⟨value,bitCount,whole.map symbol⟩ := by
        unfold writeGroups
        split
        · omega
        · rfl
      rw [hstop]
      exact ⟨⟨whole,hwhole,rfl,hbits⟩,hfew⟩
    · obtain ⟨rest,rfl⟩ : ∃ rest, bitCount = rest+5 := ⟨bitCount-5,by omega⟩
      have hgroup := charAt_group value (by omega : rest < 32)
      have hwritten : whole.map symbol++[symbol (bitsOf 5 (value.toNat/2^rest))] =
          (whole++[bitsOf 5 (value.toNat/2^rest)]).map symbol := by
        rw [List.map_append,List.map_singleton]
      rw [writeGroups,hgroup,hwritten]
      refine ih rest (by omega) (by omega) ?_ ?_
      · intro group hmem
        rcases List.mem_append.mp hmem with hold | hnew
        · exact hwhole group hold
        · rw [List.mem_singleton.mp hnew,length_bitsOf]
      · rw [hbits,Nat.add_comm rest 5,bitsOf_add,List.flatten_append,List.flatten_singleton,List.append_assoc]

/-- A byte goes behind the bits that wait, whatever is above them. -/
theorem bitsOf_addByte (value : BitVec 32) (byte : UInt8) {bitCount : ℕ} (h : bitCount ≤ 24) :
    bitsOf (bitCount+8) ((value <<< 8) ||| (BitVec.ofNat 32 byte.toNat &&& 255)).toNat =
      bitsOf bitCount value.toNat++bitsOf 8 byte.toNat := by
  have hbyte := UInt8.toNat_lt byte
  have hword : (BitVec.ofNat 32 byte.toNat &&& 255).toNat = byte.toNat := by
    rw [BitVec.toNat_and,BitVec.toNat_ofNat]
    have hmask : (255 : BitVec 32).toNat = 2^8-1 := rfl
    rw [hmask,Nat.and_two_pow_sub_one_eq_mod,Nat.mod_eq_of_lt (by omega : byte.toNat < 2^32),Nat.mod_eq_of_lt hbyte]
  have hwhole : ((value <<< 8) ||| (BitVec.ofNat 32 byte.toNat &&& 255)).toNat =
      (value.toNat*2^8%2^32) ||| byte.toNat := by
    rw [BitVec.toNat_or,hword,BitVec.toNat_shiftLeft,Nat.shiftLeft_eq]
  have htest : ∀ i < 32, ((value.toNat*2^8%2^32) ||| byte.toNat).testBit i =
      if i < 8 then byte.toNat.testBit i else value.toNat.testBit (i-8) := by
    intro i hi
    rw [Nat.testBit_or,Nat.testBit_mod_two_pow,decide_eq_true hi,Bool.true_and,Nat.testBit_mul_two_pow]
    by_cases hlow : i < 8
    · rw [if_pos hlow,decide_eq_false (by omega : ¬8 ≤ i),Bool.false_and,Bool.false_or]
    · have hhigh : byte.toNat < 2^i := hbyte.trans_le (Nat.pow_le_pow_right (by omega) (by omega : 8 ≤ i))
      rw [if_neg hlow,decide_eq_true (by omega : 8 ≤ i),Bool.true_and,Nat.testBit_lt_two_pow hhigh,Bool.or_false]
  rw [hwhole,bitsOf_add]
  congr 1
  · refine bitsOf_congr fun i hi => ?_
    rw [Nat.testBit_div_two_pow,htest _ (by omega),if_neg (by omega),Nat.add_sub_cancel]
  · refine bitsOf_congr fun i hi => ?_
    rw [htest i (by omega),if_pos hi]

/-- A turn of the loop adds the bits of its byte. -/
theorem addByte_accumulated {bits : List Bool} {state : CrockfordState} (h : Accumulated bits state) (byte : UInt8) :
    Accumulated (bits++bitsOf 8 byte.toNat) (addByte state byte) := by
  have hfew := h.few
  obtain ⟨whole,hwhole,hcrockford,hbits⟩ := h.written
  rw [addByte,hcrockford]
  refine writeGroups_accumulated _ (by omega) hwhole ?_
  rw [bitsOf_addByte _ _ (by omega),hbits,List.append_assoc]

/-- The loop adds the bits of all bytes. -/
theorem foldl_accumulated {bits : List Bool} {state : CrockfordState} (h : Accumulated bits state) (bytes : Bytes) :
    Accumulated (bits++byteBits bytes) (bytes.foldl addByte state) := by
  induction bytes generalizing bits state with
  | nil =>
    rw [byteBits,List.flatMap_nil,List.append_nil]
    exact h
  | cons byte rest ih =>
    have hrest := ih (addByte_accumulated h byte)
    rw [List.append_assoc] at hrest
    exact hrest

/-- The last character stands for the bits that are left, filled up. -/
theorem charAt_last (value : BitVec 32) {bitCount : ℕ} (h : bitCount < 5) :
    charAt crockfordCharacters ((value <<< ((5-bitCount)%32)) &&& 31).toNat = symbol (bitsOf bitCount value.toNat) := by
  have hshift : (5-bitCount)%32 = 5-bitCount := Nat.mod_eq_of_lt (by omega)
  have hpower : 2^bitCount*2^(5-bitCount) = 2^5 := by
    rw [← pow_add]
    congr 1
    omega
  have hmask : (31 : BitVec 32).toNat = 2^5-1 := rfl
  have hdvd : 2^5 ∣ 2^32 := ⟨2^27,by norm_num⟩
  have hzeros : valueOf (List.replicate (5-bitCount) false) = 0 := by
    induction 5-bitCount with
    | zero => rfl
    | succ n ih => rw [List.replicate_succ,valueOf,ih,Bool.toNat_false,Nat.zero_mul]
  rw [symbol,padded,length_bitsOf,valueOf_append,hzeros,valueOf_bitsOf,List.length_replicate,hshift,BitVec.toNat_and,hmask,
    Nat.and_two_pow_sub_one_eq_mod,BitVec.toNat_shiftLeft,Nat.shiftLeft_eq,Nat.mod_mod_of_dvd _ hdvd,← hpower,
    Nat.mul_mod_mul_right,Nat.add_zero]

/-- The characters are those of the groups of the bits. -/
theorem bytesToCrockford_symbols (bytes : Bytes) :
    bytesToCrockford bytes = ((groups 5 (byteBits bytes)).map symbol).flatten := by
  have hstart : Accumulated [] ⟨0,0,[]⟩ := ⟨⟨[],fun _ hgroup => (nomatch hgroup),rfl,rfl⟩,Nat.zero_lt_succ 4⟩
  have hend := foldl_accumulated hstart bytes
  rw [List.nil_append] at hend
  have hfew := hend.few
  obtain ⟨whole,hwhole,hcrockford,hbits⟩ := hend.written
  rw [hbits,groups_flatten (by omega) hwhole,List.map_append]
  unfold bytesToCrockford
  dsimp only
  rw [hcrockford]
  by_cases hwaits : 0 < (bytes.foldl addByte ⟨0,0,[]⟩).bitCount
  · have hlength := length_bitsOf (bytes.foldl addByte ⟨0,0,[]⟩).bitCount (bytes.foldl addByte ⟨0,0,[]⟩).value.toNat
    have hne : bitsOf (bytes.foldl addByte ⟨0,0,[]⟩).bitCount (bytes.foldl addByte ⟨0,0,[]⟩).value.toNat ≠ [] :=
      List.ne_nil_of_length_pos (by omega)
    rw [if_pos hwaits,charAt_last _ hfew,groups_short hne (by omega),List.map_singleton]
  · have hnone : (bytes.foldl addByte ⟨0,0,[]⟩).bitCount = 0 := by omega
    rw [if_neg hwaits,hnone,bitsOf,groups_nil (by omega),List.map_nil,List.append_nil]

theorem length_symbols {all : List (List Bool)} (h : ∀ group ∈ all, group.length ≤ 5) :
    (all.map symbol).flatten.length = all.length := by
  induction all with
  | nil => rfl
  | cons group rest ih =>
    rw [List.map_cons,List.flatten_cons,List.length_append,symbol_single (h group List.mem_cons_self),
      ih fun other hother => h other (List.mem_cons_of_mem _ hother),List.length_cons]
    omega

/-- Characters tell groups of known lengths. -/
theorem symbols_injective {first second : List (List Bool)} (hlengths : first.map List.length = second.map List.length)
    (hfew : ∀ group ∈ first, group.length ≤ 5) (h : (first.map symbol).flatten = (second.map symbol).flatten) :
    first = second := by
  induction first generalizing second with
  | nil => exact (List.map_eq_nil_iff.mp hlengths.symm).symm
  | cons group rest ih =>
    cases second with
    | nil => cases hlengths
    | cons other others =>
      rw [List.map_cons,List.map_cons,List.cons.injEq] at hlengths
      have hgroup := hfew group List.mem_cons_self
      have hother : other.length ≤ 5 := hlengths.1 ▸ hgroup
      rw [List.map_cons,List.map_cons,List.flatten_cons,List.flatten_cons] at h
      have hsplit := List.append_inj h (by rw [symbol_single hgroup,symbol_single hother])
      rw [symbol_injective hlengths.1 hgroup hsplit.1,
        ih hlengths.2 (fun group hmem => hfew group (List.mem_cons_of_mem _ hmem)) hsplit.2]

/-- Writing bytes gives one character for each five bits of them, the last group filled up
with zeros, and tells byte sequences of one length apart. -/
theorem bytesToCrockford_exact (bytes : Bytes) :
    bytesToCrockford bytes = ((groups 5 (byteBits bytes)).map symbol).flatten ∧
    (bytesToCrockford bytes).length = (8*bytes.length+4)/5 ∧
    Set.InjOn bytesToCrockford {other | other.length = bytes.length} := by
  have hsymbols := bytesToCrockford_symbols bytes
  have hlength : (bytesToCrockford bytes).length = (8*bytes.length+4)/5 := by
    rw [hsymbols,length_symbols fun group hmem => length_group_le hmem,length_groups,length_byteBits]
    omega
  refine ⟨hsymbols,hlength,?_⟩
  intro first hfirst second hsecond hsame
  have hbits : (byteBits first).length = (byteBits second).length := by
    have hfirstLength : first.length = bytes.length := hfirst
    have hsecondLength : second.length = bytes.length := hsecond
    rw [length_byteBits,length_byteBits,hfirstLength,hsecondLength]
  rw [bytesToCrockford_symbols,bytesToCrockford_symbols] at hsame
  have hgroups := symbols_injective (lengths_groups hbits) (fun group hmem => length_group_le hmem) hsame
  have hflat := congrArg List.flatten hgroups
  rw [flatten_groups (by omega),flatten_groups (by omega)] at hflat
  exact byteBits_injective hflat

example : bytesToCrockford [0] = ofString "11" := by decide

end Baileyrs.Generics
