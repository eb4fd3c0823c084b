import Baileyrs.JsString
import Baileyrs.SecureHash
import Baileyrs.WordOperators

/-!
# Portable hash

The runtime hashes bytes without help of the host. Its variables are doubles: sums are
made of doubles and reduced afterwards, and operators on bits give signed words.
-/

namespace Baileyrs.RuntimeBytes

open JsString BitStrings JsNumber SecureHash

section Model

/-- Constants of the rounds. -/
def sha256K : List Word :=
  [0x428a2f98,0x71374491,0xb5c0fbcf,0xe9b5dba5,0x3956c25b,0x59f111f1,0x923f82a4,0xab1c5ed5,
    0xd807aa98,0x12835b01,0x243185be,0x550c7dc3,0x72be5d74,0x80deb1fe,0x9bdc06a7,0xc19bf174,
    0xe49b69c1,0xefbe4786,0x0fc19dc6,0x240ca1cc,0x2de92c6f,0x4a7484aa,0x5cb0a9dc,0x76f988da,
    0x983e5152,0xa831c66d,0xb00327c8,0xbf597fc7,0xc6e00bf3,0xd5a79147,0x06ca6351,0x14292967,
    0x27b70a85,0x2e1b2138,0x4d2c6dfc,0x53380d13,0x650a7354,0x766a0abb,0x81c2c92e,0x92722c85,
    0xa2bfe8a1,0xa81a664b,0xc24b8b70,0xc76c51a3,0xd192e819,0xd6990624,0xf40e3585,0x106aa070,
    0x19a4c116,0x1e376c08,0x2748774c,0x34b0bcb5,0x391c0cb3,0x4ed8aa4a,0x5b9cca4f,0x682e6ff3,
    0x748f82ee,0x78a5636f,0x84c87814,0x8cc70208,0x90befffa,0xa4506ceb,0xbef9a3f7,0xc67178f2]

/-- Number of four bytes of a view, the highest first. -/
def getUint32 (view : Bytes) (offset : ℕ) : JsNumber :=
  unsigned (BitVec.ofNat 32 (((view.drop offset).take 4).foldl (fun n b => n*256+b.toNat) 0))

/-- Bytes of a word, the highest first. -/
def wordBytes (w : Word) : Bytes := [24,16,8,0].map fun shift => (w >>> shift).toNat.toUInt8

/-- Write the word of a number into a view. -/
def setUint32 (view : Bytes) (offset : ℕ) (x : JsNumber) : Bytes :=
  view.take offset++wordBytes x.word++view.drop (offset+4)

/-- Number of bytes of whole blocks for a length. -/
def paddedLength (bytes : JsNumber) : JsNumber := (((bytes.add (ofInt 8)).shiftRight 6).add (ofInt 1)).shiftLeft 6

/-- Whole blocks for data; there is none where the length is no length of an array, or too small. -/
def paddedBytes (data : Bytes) : Option Bytes :=
  let bytes := ofInt data.length
  let bitLength := bytes.mul (ofInt 8)
  let length := (paddedLength bytes).toInt
  if length < data.length then none
  else
    let padded := data++List.replicate (length.toNat-data.length) 0
    let padded := padded.set data.length 0x80
    let padded := setUint32 padded (length.toNat-4) (bitLength.unsignedShiftRight 0)
    some (setUint32 padded (length.toNat-8) (bitLength.div (ofInt (2^32))).floor)

/-- Element of an array of words. -/
def element (w : List Word) (i : ℕ) : JsNumber := unsigned (w.getD i 0)

/-- Two shifts that make a rotation. -/
def rotated (x : JsNumber) (right left : ℕ) : JsNumber := (x.unsignedShiftRight right).bitOr (x.shiftLeft left)

/-- Next word of the schedule. -/
def scheduleWord (w : List Word) (i : ℕ) : JsNumber :=
  let x := element w (i-15)
  let y := element w (i-2)
  let s0 := ((rotated x 7 25).bitXor (rotated x 18 14)).bitXor (x.unsignedShiftRight 3)
  let s1 := ((rotated y 17 15).bitXor (rotated y 19 13)).bitXor (y.unsignedShiftRight 10)
  ((((element w (i-16)).add s0).add (element w (i-7))).add s1).bitOr zero

/-- Fill the schedule from a block. -/
def fillSchedule (padded : Bytes) (offset : ℕ) (w : List Word) : List Word :=
  let w := (List.range 16).foldl (fun w i => w.set i (getUint32 padded (offset+i*4)).word) w
  (List.range' 16 48).foldl (fun w i => w.set i (scheduleWord w i).word) w

/-- One turn of the loop over the rounds. -/
def hashRound (s : Registers JsNumber) (k w : JsNumber) : Registers JsNumber :=
  let s1 := ((rotated s.e 6 26).bitXor (rotated s.e 11 21)).bitXor (rotated s.e 25 7)
  let ch := (s.e.bitAnd s.f).bitXor (s.e.bitNot.bitAnd s.g)
  let t1 := ((((s.h.add s1).add ch).add k).add w).bitOr zero
  let s0 := ((rotated s.a 2 30).bitXor (rotated s.a 13 19)).bitXor (rotated s.a 22 10)
  let maj := ((s.a.bitAnd s.b).bitXor (s.a.bitAnd s.c)).bitXor (s.b.bitAnd s.c)
  let t2 := (s0.add maj).bitOr zero
  ⟨(t1.add t2).bitOr zero,s.a,s.b,s.c,(s.d.add t1).bitOr zero,s.e,s.f,s.g⟩

/-- The variables of the loop over the blocks. -/
structure HashState where
  /-- Words so far. -/
  hash : Registers JsNumber
  /-- Schedule of the last block. -/
  w : List Word

/-- One turn of the loop over the blocks. -/
def hashBlock (padded : Bytes) (state : HashState) (offset : ℕ) : HashState :=
  let w := fillSchedule padded offset state.w
  let s := (List.range 64).foldl (fun s i => hashRound s (element sha256K i) (element w i)) state.hash
  ⟨Registers.zipWith (fun x y => (x.add y).bitOr zero) state.hash s,w⟩

/-- The words before the first block. -/
def initialRegisters : Registers JsNumber :=
  ⟨ofInt 0x6a09e667,ofInt 0xbb67ae85,ofInt 0x3c6ef372,ofInt 0xa54ff53a,ofInt 0x510e527f,ofInt 0x9b05688c,
    ofInt 0x1f83d9ab,ofInt 0x5be0cd19⟩

/-- Bytes of the words. -/
def digest (hash : Registers JsNumber) : Bytes :=
  let out := List.replicate 32 0
  let out := setUint32 out 0 (hash.a.unsignedShiftRight 0)
  let out := setUint32 out 4 (hash.b.unsignedShiftRight 0)
  let out := setUint32 out 8 (hash.c.unsignedShiftRight 0)
  let out := setUint32 out 12 (hash.d.unsignedShiftRight 0)
  let out := setUint32 out 16 (hash.e.unsignedShiftRight 0)
  let out := setUint32 out 20 (hash.f.unsignedShiftRight 0)
  let out := setUint32 out 24 (hash.g.unsignedShiftRight 0)
  setUint32 out 28 (hash.h.unsignedShiftRight 0)

/-- Hash bytes; there is no hash where there are no blocks. -/
def sha256SyncPortable (data : Bytes) : Option Bytes :=
  (paddedBytes data).map fun padded =>
    digest ((List.range ((padded.length+63)/64)).foldl (fun state block => hashBlock padded state (64*block))
      ⟨initialRegisters,List.replicate 64 0⟩).hash

end Model

section Views

/-- Bytes of a number are its digits to the base 256. -/
theorem foldl_bytes (bytes : Bytes) (n : ℕ) :
    bytes.foldl (fun n b => n*256+b.toNat) n = n*2^(8*bytes.length)+valueOf (byteBits bytes) := by
  induction bytes generalizing n with
  | nil =>
    rw [List.foldl_nil,List.length_nil,Nat.mul_zero,pow_zero,Nat.mul_one]
    rfl
  | cons byte rest ih =>
    have hbyte := UInt8.toNat_lt byte
    have hbits : byteBits (byte::rest) = bitsOf 8 byte.toNat++byteBits rest := rfl
    have hpower : 2^(8*(rest.length+1)) = 256*2^(8*rest.length) := by
      rw [Nat.mul_add,pow_add]
      ring
    rw [List.foldl_cons,ih,hbits,valueOf_append,valueOf_bitsOf,Nat.mod_eq_of_lt hbyte,length_byteBits,List.length_cons,
      hpower]
    ring

/-- A word is the bits of its bytes. -/
theorem getUint32_word (view : Bytes) (offset : ℕ) :
    (getUint32 view offset).word = BitVec.ofNat 32 (valueOf (byteBits ((view.drop offset).take 4))) := by
  rw [getUint32,(denotes_unsigned _).word,foldl_bytes,Nat.zero_mul,Nat.zero_add]

theorem byteBits_wordBytes (w : Word) : byteBits (wordBytes w) = bitsOf 32 w.toNat := by
  have hbyte : ∀ shift, bitsOf 8 ((w >>> shift).toNat.toUInt8).toNat = bitsOf 8 (w.toNat/2^shift) := by
    intro shift
    have hword : ((w >>> shift).toNat.toUInt8).toNat = (w >>> shift).toNat%2^8 := UInt8.toNat_ofNat'
    rw [hword,bitsOf_mod (by omega),BitVec.toNat_ushiftRight,Nat.shiftRight_eq_div_pow]
  have hsplit : bitsOf 32 w.toNat = bitsOf 8 (w.toNat/2^24)++(bitsOf 8 (w.toNat/2^16)++(bitsOf 8 (w.toNat/2^8)++
      bitsOf 8 (w.toNat/2^0))) := by
    have hfirst := bitsOf_add 8 24 w.toNat
    have hsecond := bitsOf_add 8 16 w.toNat
    have hthird := bitsOf_add 8 8 w.toNat
    rw [pow_zero,Nat.div_one,← hthird,← hsecond,← hfirst]
  have hbytes : byteBits (wordBytes w) = bitsOf 8 ((w >>> 24).toNat.toUInt8).toNat++
      (bitsOf 8 ((w >>> 16).toNat.toUInt8).toNat++(bitsOf 8 ((w >>> 8).toNat.toUInt8).toNat++
        (bitsOf 8 ((w >>> 0).toNat.toUInt8).toNat++[]))) := rfl
  rw [hbytes,hbyte,hbyte,hbyte,hbyte,List.append_nil,hsplit]

/-- Writing replaces four bytes. -/
theorem setUint32_append {front middle rest : Bytes} {offset : ℕ} (hoffset : offset = front.length)
    (hmiddle : middle.length = 4) (x : JsNumber) :
    setUint32 (front++(middle++rest)) offset x = front++(wordBytes x.word++rest) := by
  have hdrop : (front++(middle++rest)).drop (front.length+4) = rest := by
    rw [← hmiddle,← List.drop_drop,List.drop_left,List.drop_left]
  rw [setUint32,hoffset,List.take_left,hdrop,List.append_assoc]

end Views

section Padding

/-- The padded length is the least multiple of 64 that leaves nine bytes. -/
theorem paddedLength_toInt {n : ℕ} (h : n < 2^31-72) : (paddedLength (ofInt n)).toInt = (((n+8)/64+1)*64 : ℕ) := by
  have hbytes : IsInteger (ofInt n) n := isInteger_ofInt (by omega)
  have hmargin : IsInteger (ofInt 8) 8 := isInteger_ofInt (by omega)
  have hone : IsInteger (ofInt 1) 1 := isInteger_ofInt (by omega)
  have hsum := hbytes.add hmargin (by omega)
  have hquotient : (((ofInt n).add (ofInt 8)).word.sshiftRight 6).toInt = ((n+8)/64 : ℕ) := by
    rw [hsum.word,BitVec.toInt_sshiftRight,BitVec.toInt_ofInt_eq_self (by omega) (by omega) (by omega),
      Int.shiftRight_eq_div_pow]
    omega
  have hshifted : IsInteger (((ofInt n).add (ofInt 8)).shiftRight 6) ((n+8)/64 : ℕ) := by
    rw [shiftRight,signed,hquotient]
    exact isInteger_ofInt (by omega)
  have hnext := hshifted.add hone (by omega)
  have hword : ((((ofInt n).add (ofInt 8)).shiftRight 6).add (ofInt 1)).word = BitVec.ofNat 32 ((n+8)/64+1) := by
    rw [hnext.word]
    exact BitVec.ofInt_natCast 32 ((n+8)/64+1)
  have hproduct : (BitVec.ofNat 32 ((n+8)/64+1) <<< 6).toInt = (((n+8)/64+1)*64 : ℕ) := by
    have hnat : (BitVec.ofNat 32 ((n+8)/64+1) <<< 6).toNat = ((n+8)/64+1)*64 := by
      rw [BitVec.toNat_shiftLeft,BitVec.toNat_ofNat,Nat.shiftLeft_eq]
      omega
    rw [BitVec.toInt_eq_toNat_of_lt (by omega),hnat]
  rw [paddedLength,shiftLeft,hword,signed,hproduct]
  exact (isInteger_ofInt (by omega)).toInt

/-- The whole blocks are the data, a one, zeros and the length. -/
theorem paddedBytes_bits {data : Bytes} (h : data.length < 2^31-72) :
    ∃ padded, paddedBytes data = some padded ∧ padded.length = ((data.length+8)/64+1)*64 ∧
      byteBits padded = byteBits data++padding (byteBits data).length := by
  obtain ⟨n,hn⟩ : ∃ n, n = data.length := ⟨_,rfl⟩
  obtain ⟨zeros,hzeros⟩ : ∃ zeros, zeros = ((n+8)/64+1)*64-n-9 := ⟨_,rfl⟩
  have hbytes : IsInteger (ofInt data.length) n := by
    rw [hn]
    exact isInteger_ofInt (by omega)
  have hbits : IsInteger ((ofInt data.length).mul (ofInt 8)) (n*8) := by
    have hfactor : IsInteger (ofInt 8) 8 := isInteger_ofInt (by omega)
    exact hbytes.mul hfactor (by omega)
  have hlow : (((ofInt data.length).mul (ofInt 8)).unsignedShiftRight 0).word = BitVec.ofNat 32 (8*n) := by
    have hcast : ((n : ℤ)*8) = ((8*n : ℕ) : ℤ) := by
      push_cast
      ring
    rw [unsignedShiftRight,(denotes_unsigned _).word,hbits.word,hcast,BitVec.ofInt_natCast,BitVec.ushiftRight_zero]
  have hhigh : (((ofInt data.length).mul (ofInt 8)).div (ofInt (2^32))).floor.word = BitVec.ofNat 32 (8*n/2^32) := by
    have hpower : IsInteger (ofInt (2^32)) (2^32) := isInteger_ofInt (by omega)
    have hquotient := hbits.floor_div hpower (by omega)
    have hcast : ((n : ℤ)*8)/2^32 = ((8*n/2^32 : ℕ) : ℤ) := by omega
    rw [hquotient.word,hcast,BitVec.ofInt_natCast]
  have hlength := paddedLength_toInt (hn ▸ h : n < 2^31-72)
  rw [hn] at hlength
  have hroom : (((data.length+8)/64+1)*64 : ℕ)-data.length = 1+(zeros+8) := by omega
  have hfours : List.replicate 8 (0 : UInt8) = List.replicate 4 0++List.replicate 4 0 := rfl
  have hstart : (data++List.replicate (1+(zeros+8)) (0 : UInt8)).set data.length 0x80 =
      (data++(0x80::List.replicate zeros 0))++(List.replicate 4 0++List.replicate 4 0) := by
    rw [List.set_append_right _ _ (le_refl _),Nat.sub_self,Nat.add_comm 1,List.replicate_succ,List.set_cons_zero,
      List.replicate_add,hfours,List.append_assoc,List.cons_append]
  have hfirst := @setUint32_append (data++(0x80::List.replicate zeros 0)++List.replicate 4 0) (List.replicate 4 0) []
    (((data.length+8)/64+1)*64-4) (by simp; omega) (by simp)
    (((ofInt data.length).mul (ofInt 8)).unsignedShiftRight 0)
  have hsecond := @setUint32_append (data++(0x80::List.replicate zeros 0)) (List.replicate 4 0)
    (wordBytes (((ofInt data.length).mul (ofInt 8)).unsignedShiftRight 0).word)
    (((data.length+8)/64+1)*64-8) (by simp; omega) (by simp)
    (((ofInt data.length).mul (ofInt 8)).div (ofInt (2^32))).floor
  rw [List.append_nil,List.append_nil,List.append_assoc _ (List.replicate 4 0) (List.replicate 4 0),
    List.append_assoc _ (List.replicate 4 0) (wordBytes _)] at hfirst
  refine ⟨(data++(0x80::List.replicate zeros 0))++(wordBytes (BitVec.ofNat 32 (8*n/2^32))++
    wordBytes (BitVec.ofNat 32 (8*n))),?_,?_,?_⟩
  · unfold paddedBytes
    dsimp only
    rw [hlength,if_neg (by omega),Int.toNat_natCast,hroom,hstart,hfirst,hsecond,hlow,hhigh]
  · simp [wordBytes]
    omega
  · have hzeroBits : byteBits (List.replicate zeros 0) = List.replicate (8*zeros) false := by
      clear hfirst hsecond hstart hzeros hroom
      induction zeros with
      | zero => rfl
      | succ zeros ih =>
        have hstep : byteBits (List.replicate (zeros+1) 0) = List.replicate 8 false++byteBits (List.replicate zeros 0) := rfl
        rw [hstep,ih,← List.replicate_add]
        congr 1
        omega
    have hmark : byteBits (0x80::List.replicate zeros 0) = true::List.replicate (7+8*zeros) false := by
      have hstep : byteBits (0x80::List.replicate zeros 0) =
          true::(List.replicate 7 false++byteBits (List.replicate zeros 0)) := rfl
      rw [hstep,hzeroBits,← List.replicate_add]
    have hcount : (960-(8*n+1)%512)%512 = 7+8*zeros := by omega
    have hlengthBits : bitsOf 64 (8*n) = bitsOf 32 (BitVec.ofNat 32 (8*n/2^32)).toNat++bitsOf 32 (BitVec.ofNat 32 (8*n)).toNat := by
      rw [BitVec.toNat_ofNat,BitVec.toNat_ofNat,bitsOf_mod (le_refl _),bitsOf_mod (le_refl _)]
      exact bitsOf_add 32 32 (8*n)
    rw [byteBits_append,byteBits_append,byteBits_append,hmark,byteBits_wordBytes,byteBits_wordBytes,← hlengthBits,
      length_byteBits,← hn,padding,hcount,List.append_assoc,List.cons_append]

end Padding

section Schedule

/-- Two shifts make a rotation. -/
theorem rotated_denotes {x : JsNumber} {w : Word} {m : ℕ} (h : Denotes m x w) {right left : ℕ} (hsum : right+left = 32) :
    Denotes 1 (rotated x right left) (rotateRight right w) := by
  have hleft : left = 32-right := by omega
  rw [rotated,hleft]
  exact (h.unsignedShiftRight right).bitOr (h.shiftLeft (32-right))

theorem element_denotes (w : List Word) (i : ℕ) : Denotes 1 (element w i) (w.getD i 0) := denotes_unsigned _

/-- The next word is the one of the standard. -/
theorem scheduleWord_word (w : List Word) (i : ℕ) : (scheduleWord w i).word =
    smallSigma1 (w.getD (i-2) 0)+w.getD (i-7) 0+smallSigma0 (w.getD (i-15) 0)+w.getD (i-16) 0 := by
  have hx := element_denotes w (i-15)
  have hy := element_denotes w (i-2)
  have hs0 := (rotated_denotes hx (by omega : 7+25 = 32)).bitXor (rotated_denotes hx (by omega : 18+14 = 32))
    |>.bitXor (hx.unsignedShiftRight 3)
  have hs1 := (rotated_denotes hy (by omega : 17+15 = 32)).bitXor (rotated_denotes hy (by omega : 19+13 = 32))
    |>.bitXor (hy.unsignedShiftRight 10)
  have hsum := ((element_denotes w (i-16)).add hs0 (by omega)).add (element_denotes w (i-7)) (by omega)
    |>.add hs1 (by omega)
  have hword := hsum.orZero.word
  rw [scheduleWord,hword,smallSigma0,smallSigma1]
  ac_rfl

/-- The first words of the array are those of the schedule. -/
structure Filled (block : List Word) (t : ℕ) (w : List Word) : Prop where
  /-- The array has its size. -/
  size : w.length = 64
  /-- What is filled. -/
  filled : w.take t = schedule block t

theorem Filled.getD {block w : List Word} {t : ℕ} (h : Filled block t w) {i : ℕ} (hi : i < t) :
    w.getD i 0 = (schedule block t).getD i 0 := by
  rw [← h.filled,List.getD_eq_getElem?_getD,List.getD_eq_getElem?_getD,List.getElem?_take,if_pos hi]

/-- Writing the next word fills one more. -/
theorem Filled.set {block w : List Word} {t : ℕ} (h : Filled block t w) (ht : t < 64) {x : Word}
    (hx : schedule block (t+1) = schedule block t++[x]) : Filled block (t+1) (w.set t x) := by
  have hsize := h.size
  refine ⟨by rw [List.length_set,hsize],?_⟩
  have hbefore : (w.set t x).take t = w.take t := List.take_set_of_le (le_refl t)
  have hat : (w.set t x)[t]? = some x := List.getElem?_set_self (by omega)
  rw [List.take_add_one,hbefore,hat,h.filled,hx]
  rfl

/-- Words of the sixty-four bytes at an offset. -/
def blockWords (padded : Bytes) (offset : ℕ) : List Word :=
  (List.range 16).map fun i => (getUint32 padded (offset+i*4)).word

theorem fillSchedule_filled (padded : Bytes) (offset : ℕ) {w : List Word} (hw : w.length = 64) :
    Filled (blockWords padded offset) 64 (fillSchedule padded offset w) := by
  have hfirst : ∀ t ≤ 16, Filled (blockWords padded offset) t
      ((List.range t).foldl (fun w i => w.set i (getUint32 padded (offset+i*4)).word) w) := by
    intro t ht
    induction t with
    | zero => exact ⟨hw,rfl⟩
    | succ t ih =>
      rw [List.range_succ,List.foldl_append]
      refine (ih (by omega)).set (by omega) ?_
      have hword : (blockWords padded offset).getD t 0 = (getUint32 padded (offset+t*4)).word := by
        rw [blockWords,List.getD_eq_getElem?_getD,List.getElem?_map,List.getElem?_range (by omega : t < 16)]
        rfl
      rw [schedule,if_pos (by omega : t < 16),hword]
  have hsecond : ∀ n ≤ 48, Filled (blockWords padded offset) (16+n) ((List.range' 16 n).foldl
      (fun w i => w.set i (scheduleWord w i).word)
        ((List.range 16).foldl (fun w i => w.set i (getUint32 padded (offset+i*4)).word) w)) := by
    intro n hn
    induction n with
    | zero =>
      rw [Nat.add_zero,List.range'_zero,List.foldl_nil]
      exact hfirst 16 (le_refl 16)
    | succ n ih =>
      have hbefore := ih (by omega)
      rw [List.range'_concat,List.foldl_append,Nat.one_mul]
      refine hbefore.set (by omega) ?_
      rw [scheduleWord_word,hbefore.getD (by omega),hbefore.getD (by omega),hbefore.getD (by omega),
        hbefore.getD (by omega),schedule,if_neg (by omega)]
  have hall := hsecond 48 (le_refl 48)
  rw [fillSchedule]
  exact hall

end Schedule

section Rounds

/-- Registers of doubles stand for registers of words. -/
structure RegistersDenote (s : Registers JsNumber) (t : Registers Word) : Prop where
  /-- First register. -/
  a : Denotes 1 s.a t.a
  /-- Second register. -/
  b : Denotes 1 s.b t.b
  /-- Third register. -/
  c : Denotes 1 s.c t.c
  /-- Fourth register. -/
  d : Denotes 1 s.d t.d
  /-- Fifth register. -/
  e : Denotes 1 s.e t.e
  /-- Sixth register. -/
  f : Denotes 1 s.f t.f
  /-- Seventh register. -/
  g : Denotes 1 s.g t.g
  /-- Eighth register. -/
  h : Denotes 1 s.h t.h

variable {s : Registers JsNumber} {t : Registers Word}

/-- A turn of the loop is a round of the standard. -/
theorem RegistersDenote.round (h : RegistersDenote s t) {x y : JsNumber} {k w : Word} (hk : Denotes 1 x k)
    (hw : Denotes 1 y w) : RegistersDenote (hashRound s x y) (round t k w) := by
  have hs1 := (rotated_denotes h.e (by omega : 6+26 = 32)).bitXor (rotated_denotes h.e (by omega : 11+21 = 32))
    |>.bitXor (rotated_denotes h.e (by omega : 25+7 = 32))
  have hch := (h.e.bitAnd h.f).bitXor (h.e.bitNot.bitAnd h.g)
  have ht1 := (((h.h.add hs1 (by omega)).add hch (by omega)).add hk (by omega)).add hw (by omega) |>.orZero
  have hs0 := (rotated_denotes h.a (by omega : 2+30 = 32)).bitXor (rotated_denotes h.a (by omega : 13+19 = 32))
    |>.bitXor (rotated_denotes h.a (by omega : 22+10 = 32))
  have hmaj := ((h.a.bitAnd h.b).bitXor (h.a.bitAnd h.c)).bitXor (h.b.bitAnd h.c)
  have ht2 := (hs0.add hmaj (by omega)).orZero
  exact ⟨(ht1.add ht2 (by omega)).orZero,h.a,h.b,h.c,(h.d.add ht1 (by omega)).orZero,h.e,h.f,h.g⟩

/-- So are all turns. -/
theorem RegistersDenote.rounds (h : RegistersDenote s t) (w : List Word) (turns : List ℕ) :
    RegistersDenote (turns.foldl (fun s i => hashRound s (element sha256K i) (element w i)) s)
      (turns.foldl (fun t i => SecureHash.round t (sha256K.getD i 0) (w.getD i 0)) t) := by
  induction turns generalizing s t with
  | nil => exact h
  | cons i rest ih => exact ih (h.round (element_denotes _ i) (element_denotes w i))

/-- The final additions are those of the standard. -/
theorem RegistersDenote.zipWith {s' : Registers JsNumber} {t' : Registers Word} (h : RegistersDenote s t)
    (h' : RegistersDenote s' t') :
    RegistersDenote (Registers.zipWith (fun x y => (x.add y).bitOr zero) s s') (Registers.zipWith (· + ·) t' t) := by
  have hadd : ∀ {x y : JsNumber} {u v : Word}, Denotes 1 x u → Denotes 1 y v → Denotes 1 ((x.add y).bitOr zero) (v+u) := by
    intro x y u v hx hy
    rw [BitVec.add_comm v u]
    exact (hx.add hy (by omega)).orZero
  exact ⟨hadd h.a h'.a,hadd h.b h'.b,hadd h.c h'.c,hadd h.d h'.d,hadd h.e h'.e,hadd h.f h'.f,hadd h.g h'.g,hadd h.h h'.h⟩

/-- The table is that of the standard. -/
theorem sha256K_roundConstants : sha256K = roundConstants := by decide +kernel

theorem initialRegisters_denote : RegistersDenote initialRegisters initialHash := by
  have hconstant : ∀ {i : ℤ} {w : Word}, 0 ≤ i ∧ i < 2^32 → BitVec.ofInt 32 i = w → Denotes 1 (ofInt i) w := by
    intro i w hi hw
    exact ⟨i,isInteger_ofInt (by omega),by omega,hw⟩
  have ha : Denotes 1 (ofInt 0x6a09e667) (rootFraction 2 2) := hconstant (by omega) (by decide +kernel)
  have hb : Denotes 1 (ofInt 0xbb67ae85) (rootFraction 2 3) := hconstant (by omega) (by decide +kernel)
  have hc : Denotes 1 (ofInt 0x3c6ef372) (rootFraction 2 5) := hconstant (by omega) (by decide +kernel)
  have hd : Denotes 1 (ofInt 0xa54ff53a) (rootFraction 2 7) := hconstant (by omega) (by decide +kernel)
  have he : Denotes 1 (ofInt 0x510e527f) (rootFraction 2 11) := hconstant (by omega) (by decide +kernel)
  have hf : Denotes 1 (ofInt 0x9b05688c) (rootFraction 2 13) := hconstant (by omega) (by decide +kernel)
  have hg : Denotes 1 (ofInt 0x1f83d9ab) (rootFraction 2 17) := hconstant (by omega) (by decide +kernel)
  have hh : Denotes 1 (ofInt 0x5be0cd19) (rootFraction 2 19) := hconstant (by omega) (by decide +kernel)
  exact ⟨ha,hb,hc,hd,he,hf,hg,hh⟩

end Rounds

section Blocks

/-- Words of whole blocks of bits are those of the bytes. -/
theorem blocks_words {padded : Bytes} (hwhole : padded.length%64 = 0) {message : List Bool}
    (h : byteBits padded = message++padding message.length) :
    blocks message = (List.range ((padded.length+63)/64)).map fun block => blockWords padded (64*block) := by
  have hgroups : groups 512 (byteBits padded) = (groups 64 padded).map byteBits := @groups_byteBits 64 (by omega) padded
  rw [blocks,← h,hgroups,groups,List.map_map,List.map_map]
  refine List.map_congr_left fun block hblock => ?_
  have hfit : 64*block+64 ≤ padded.length := by
    have hless := List.mem_range.mp hblock
    omega
  have hlength : ((padded.drop (64*block)).take 64).length = 64 := by
    rw [List.length_take,List.length_drop]
    omega
  have hwords : groups 32 (byteBits ((padded.drop (64*block)).take 64)) =
      (groups 4 ((padded.drop (64*block)).take 64)).map byteBits := @groups_byteBits 4 (by omega) _
  dsimp only [Function.comp_apply]
  rw [hwords,groups,hlength,List.map_map,List.map_map,blockWords]
  refine List.map_congr_left fun i hi => ?_
  have hless := List.mem_range.mp hi
  have hpart : (((padded.drop (64*block)).take 64).drop (4*i)).take 4 = (padded.drop (64*block+i*4)).take 4 := by
    have hmin : min 4 (64-4*i) = 4 := by omega
    rw [List.drop_take,List.take_take,hmin,List.drop_drop,Nat.mul_comm 4 i]
  dsimp only [Function.comp_apply]
  rw [hpart,getUint32_word]

/-- A turn of the loop over the blocks is the change by a block. -/
theorem hashBlock_compress (padded : Bytes) {state : HashState} {t : Registers Word}
    (hhash : RegistersDenote state.hash t) (hw : state.w.length = 64) (offset : ℕ) :
    RegistersDenote (hashBlock padded state offset).hash (compress t (blockWords padded offset)) ∧
      (hashBlock padded state offset).w.length = 64 := by
  have hfilled := fillSchedule_filled padded offset hw
  have hschedule : schedule (blockWords padded offset) 64 = fillSchedule padded offset state.w := by
    rw [← hfilled.filled]
    exact List.take_of_length_le (le_of_eq hfilled.size)
  have hsum := hhash.zipWith (hhash.rounds (fillSchedule padded offset state.w) (List.range 64))
  have hcompress : compress t (blockWords padded offset) = Registers.zipWith (· + ·)
      ((List.range 64).foldl (fun t i => SecureHash.round t (sha256K.getD i 0)
        ((fillSchedule padded offset state.w).getD i 0)) t) t := by
    rw [compress,hschedule,sha256K_roundConstants]
  have hmade : (hashBlock padded state offset).hash = Registers.zipWith (fun x y => (x.add y).bitOr zero) state.hash
      ((List.range 64).foldl (fun s i => hashRound s (element sha256K i)
        (element (fillSchedule padded offset state.w) i)) state.hash) := rfl
  have hfill : (hashBlock padded state offset).w = fillSchedule padded offset state.w := by simp only [hashBlock]
  rw [hcompress,hmade,hfill]
  exact ⟨hsum,hfilled.size⟩

/-- The loop over the blocks makes the words of the standard. -/
theorem foldl_compress (padded : Bytes) {state : HashState} {t : Registers Word} (hhash : RegistersDenote state.hash t)
    (hw : state.w.length = 64) (turns : List ℕ) :
    RegistersDenote (turns.foldl (fun state block => hashBlock padded state (64*block)) state).hash
      ((turns.map fun block => blockWords padded (64*block)).foldl compress t) := by
  induction turns generalizing state t with
  | nil => exact hhash
  | cons block rest ih =>
    obtain ⟨hnext,hsize⟩ := hashBlock_compress padded hhash hw (64*block)
    exact ih hnext hsize

/-- Writing at the border between what is written and zeros. -/
theorem setUint32_zeros {front : Bytes} {offset : ℕ} (hoffset : offset = front.length) (rest : ℕ) {x : JsNumber} {w : Word}
    (hx : Denotes 1 x w) : setUint32 (front++List.replicate (4+rest) 0) offset (x.unsignedShiftRight 0) =
      (front++wordBytes w)++List.replicate rest 0 := by
  have hword : (x.unsignedShiftRight 0).word = w := by
    rw [(hx.unsignedShiftRight 0).word,BitVec.ushiftRight_zero]
  rw [List.replicate_add,setUint32_append hoffset List.length_replicate,hword,List.append_assoc]

theorem length_wordBytes (w : Word) : (wordBytes w).length = 4 := rfl

/-- The digest is the bytes of the words. -/
theorem digest_bits {hash : Registers JsNumber} {t : Registers Word} (h : RegistersDenote hash t) :
    byteBits (digest hash) = t.toList.flatMap fun word => bitsOf 32 word.toNat := by
  have hstart : List.replicate 32 (0 : UInt8) = []++List.replicate (4+28) 0 := rfl
  have hbytes : digest hash = ([]++wordBytes t.a++wordBytes t.b++wordBytes t.c++wordBytes t.d++wordBytes t.e++
      wordBytes t.f++wordBytes t.g++wordBytes t.h)++List.replicate 0 0 := by
    unfold digest
    dsimp only
    rw [hstart,setUint32_zeros (by simp) 28 h.a,setUint32_zeros (by simp [length_wordBytes]) 24 h.b,
      setUint32_zeros (by simp [length_wordBytes]) 20 h.c,setUint32_zeros (by simp [length_wordBytes]) 16 h.d,
      setUint32_zeros (by simp [length_wordBytes]) 12 h.e,setUint32_zeros (by simp [length_wordBytes]) 8 h.f,
      setUint32_zeros (by simp [length_wordBytes]) 4 h.g,setUint32_zeros (by simp [length_wordBytes]) 0 h.h]
  rw [hbytes,List.replicate_zero,List.append_nil,List.nil_append,Registers.toList]
  simp only [byteBits_append,byteBits_wordBytes,List.flatMap_cons,List.flatMap_nil,List.append_nil,List.append_assoc]

/-- The hash of data that is short enough is that of the standard. -/
theorem sha256SyncPortable_sha256 {data : Bytes} (h : data.length < 2^31-72) :
    ∃ digest, sha256SyncPortable data = some digest ∧ byteBits digest = sha256 (byteBits data) := by
  obtain ⟨padded,hpadded,hlength,hbits⟩ := paddedBytes_bits h
  have hwhole : padded.length%64 = 0 := by omega
  have hwords := blocks_words hwhole hbits
  have hfinal := @foldl_compress padded ⟨initialRegisters,List.replicate 64 0⟩ initialHash initialRegisters_denote
    List.length_replicate (List.range ((padded.length+63)/64))
  refine ⟨_,by rw [sha256SyncPortable,hpadded,Option.map_some],?_⟩
  rw [digest_bits hfinal,sha256,hwords]

theorem sha256SyncPortable_sha256_abc : ∃ digest, sha256SyncPortable [97,98,99] = some digest ∧
    byteBits digest = sha256 (byteBits [97,98,99]) := sha256SyncPortable_sha256 (by decide)

end Blocks

end Baileyrs.RuntimeBytes
