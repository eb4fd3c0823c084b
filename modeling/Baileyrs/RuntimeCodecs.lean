import Baileyrs.AddressForms
import Baileyrs.RuntimeBase64

/-!
# Codecs of texts

The runtime's own codecs with their accesses to arrays: each read and each write is made
at an index, and one that is not below the length is a fault of its own. No text leads to
a fault, and the texts that are decoded are described.
-/

namespace Baileyrs.RuntimeBytes

open JsString AtomicStore TextSearch AddressForms

section Model

/-- What ends a decoding: an error, or an access that leaves the array. -/
inductive Fault where
  | thrown (error : StoreError)
  | outOfBounds (index : ℕ)
  deriving DecidableEq

/-- A result that may be an error. -/
def thrown {α : Type} (result : Except StoreError α) : Except Fault α := result.mapError .thrown

/-- Unit at an index. -/
def unitAt (text : JsString) (index : ℕ) : Except Fault UInt16 :=
  match text[index]? with
  | some u => .ok u
  | none => .error (.outOfBounds index)

/-- Store a byte at an index. -/
def storeByte (out : Bytes) (index : ℕ) (b : UInt8) : Except Fault Bytes :=
  if index < out.length then .ok (out.set index b) else .error (.outOfBounds index)

/-- Characters of base64. -/
def base64Alphabet : JsString := ofString "ABCDEFGHIJKLMNOPQRSTUVWXYZabcdefghijklmnopqrstuvwxyz0123456789+/"

/-- Character at an index of the alphabet. -/
def base64Character (index : ℕ) : JsString := base64Alphabet[index]?.toList

/-- Four characters for three bytes, of which two may be missing. -/
def encodeTriple (bytes : Bytes) (i : ℕ) : JsString :=
  let a := (bytes.getD i 0).toNat
  let b := (bytes.getD (i+1) 0).toNat
  let c := (bytes.getD (i+2) 0).toNat
  let triple := a <<< 16 ||| b <<< 8 ||| c
  base64Character (triple >>> 18 &&& 63)++(base64Character (triple >>> 12 &&& 63)++
    ((if i+1 < bytes.length then base64Character (triple >>> 6 &&& 63) else [Base64.padding])++
      if i+2 < bytes.length then base64Character (triple &&& 63) else [Base64.padding]))

/-- Write bytes in base64, three at a time. -/
def base64EncodeTriples (bytes : Bytes) : JsString :=
  (List.range ((bytes.length+2)/3)).flatMap fun turn => encodeTriple bytes (3*turn)

/-- The variables of the loop over groups of four. -/
structure OutCursor where
  /-- Bytes of the result. -/
  out : Bytes
  /-- Where the next byte goes. -/
  offset : ℕ
  deriving DecidableEq

/-- Store a byte where there is room for it. -/
def putByte (cursor : OutCursor) (n : ℕ) : Except Fault OutCursor :=
  if cursor.offset < cursor.out.length then do
    let out ← storeByte cursor.out cursor.offset n.toUInt8
    return ⟨out,cursor.offset+1⟩
  else return cursor

/-- One turn of the loop over groups of four. -/
def decodeQuad (clean : JsString) (cursor : OutCursor) (i : ℕ) : Except Fault OutCursor := do
  let a ← thrown (base64Value (← unitAt clean i))
  let b ← thrown (base64Value (← unitAt clean (i+1)))
  let c ← thrown (base64Value (← unitAt clean (i+2)))
  let d ← thrown (base64Value (← unitAt clean (i+3)))
  let quad := a <<< 18 ||| b <<< 12 ||| c <<< 6 ||| d
  let cursor ← putByte cursor (quad >>> 16 &&& 255)
  let cursor ← putByte cursor (quad >>> 8 &&& 255)
  putByte cursor (quad &&& 255)

/-- A text without its blanks and in the standard alphabet. -/
def cleaned (text : JsString) : JsString := (text.filter fun u => !JsNumber.isSpace u).map standardCharacter

/-- Read base64 with its accesses to arrays. -/
def base64DecodeIndexed (text : JsString) : Except Fault Bytes := do
  let clean := cleaned text
  thrown (checkPadding clean)
  let clean := clean++List.replicate ((4-clean.length%4)%4) Base64.padding
  let out := List.replicate (clean.length/4*3-paddingLength clean) 0
  let cursor ← (List.range ((clean.length+3)/4)).foldlM (fun cursor turn => decodeQuad clean cursor (4*turn)) ⟨out,0⟩
  return cursor.out

/-- The URL character for a standard one. -/
def urlCharacter (u : UInt16) : UInt16 := if u = unit '+' then unit '-' else if u = unit '/' then unit '_' else u

/-- A text without the padding marks at its end. -/
def withoutPadding (text : JsString) : JsString := (text.reverse.dropWhile fun u => u = Base64.padding).reverse

/-- Write bytes in base64 for a URL. -/
def base64UrlEncode (bytes : Bytes) : JsString := withoutPadding ((base64EncodeTriples bytes).map urlCharacter)

/-- Read base64 of a URL. -/
def base64UrlDecode (text : JsString) : Except Fault Bytes :=
  let padded := text.map standardCharacter
  base64DecodeIndexed (padded++List.replicate ((4-padded.length%4)%4) Base64.padding)

/-- Hexadecimal digits. -/
def hexDigits : JsString := ofString "0123456789abcdef"

/-- Two digits for every byte. -/
def hexPairs : List JsString :=
  (List.range 256).map fun byte => hexDigits[byte >>> 4]?.toList++hexDigits[byte &&& 15]?.toList

/-- Write bytes in hexadecimal without help of the host. -/
def hexEncode (bytes : Bytes) : JsString := bytes.flatMap fun b => hexPairs.getD b.toNat []

/-- First index of a part of a text. -/
def indexOfPart (part text : JsString) : Option ℕ :=
  (List.range (text.length+1)).find? fun i => part.isPrefixOf (text.drop i)

/-- The byte that two digits of a text stand for. -/
def hexPairAt (toLowerCase : JsString → JsString) (text : JsString) (i : ℕ) : Except Fault UInt8 := do
  let hi := indexOfPart (toLowerCase [← unitAt text (2*i)]) hexDigits
  let lo := indexOfPart (toLowerCase [← unitAt text (2*i+1)]) hexDigits
  match hi,lo with
  | some hi,some lo => return (hi <<< 4 ||| lo).toUInt8
  | _,_ => .error (.thrown (.rangeError ("invalid hex at offset "++toString (2*i))))

/-- Read hexadecimal digits; the lower case of a text is the host's. -/
def hexDecode (toLowerCase : JsString → JsString) (text : JsString) : Except Fault Bytes :=
  if text.length%2 ≠ 0 then .error (.thrown (.rangeError "hex string has odd length"))
  else
    (List.range (text.length/2)).foldlM (fun out i => do
      let b ← hexPairAt toLowerCase text i
      storeByte out i b) (List.replicate (text.length/2) 0)

end Model

section Languages

/-- Texts of base64: characters without padding, or complete groups with one or two marks. -/
def Base64Text (clean : JsString) : Prop :=
  ((∀ u ∈ clean, u ∈ base64Alphabet) ∧ clean.length%4 ≠ 1) ∨
    ∃ body pad, clean = body++List.replicate pad Base64.padding ∧ (∀ u ∈ body, u ∈ base64Alphabet) ∧
      (pad = 1 ∨ pad = 2) ∧ clean.length%4 = 0

/-- A hexadecimal digit of either case. -/
def isHexDigit (u : UInt16) : Prop :=
  (48 ≤ u.toNat ∧ u.toNat ≤ 57) ∨ (65 ≤ u.toNat ∧ u.toNat ≤ 70) ∨ (97 ≤ u.toNat ∧ u.toNat ≤ 102)

/-- What lower case is for a text of one unit: of ASCII the letters change, and only two
units outside of ASCII have a unit of ASCII in their lower case. -/
structure LowerCase (toLowerCase : JsString → JsString) : Prop where
  /-- Units of ASCII. -/
  ascii : ∀ u : UInt16, u.toNat < 128 → toLowerCase [u] = [lowerUnit u]
  /-- The capital i with a dot. -/
  dotted : toLowerCase [0x130] = [unit 'i',0x307]
  /-- The sign for kelvin. -/
  kelvin : toLowerCase [0x212a] = [unit 'k']
  /-- All other units. -/
  others : ∀ u : UInt16, 128 ≤ u.toNat → u ≠ 0x130 → u ≠ 0x212a →
    toLowerCase [u] ≠ [] ∧ ∀ v ∈ toLowerCase [u], 128 ≤ v.toNat

end Languages

section Base64Loop

/-- Cursor behind bytes, of which those without room are dropped. -/
def cursorOf (room : ℕ) (bytes : Bytes) : OutCursor :=
  ⟨bytes.take room++List.replicate (room-bytes.length) 0,min bytes.length room⟩

theorem putByte_cursorOf (room : ℕ) (bytes : Bytes) (n : ℕ) :
    putByte (cursorOf room bytes) n = .ok (cursorOf room (bytes++[n.toUInt8])) := by
  have hlength : (bytes.take room++List.replicate (room-bytes.length) (0 : UInt8)).length = room := by
    rw [List.length_append,List.length_take,List.length_replicate]
    omega
  by_cases hroom : bytes.length < room
  · have hoffset : min bytes.length room = bytes.length := by omega
    have hrest : room-bytes.length = room-(bytes.length+1)+1 := by omega
    have htake : bytes.take room = bytes := List.take_of_length_le (by omega)
    have htakeMore : (bytes++[n.toUInt8]).take room = bytes++[n.toUInt8] := by
      refine List.take_of_length_le ?_
      rw [List.length_append,List.length_singleton]
      omega
    have hset : (bytes++List.replicate (room-bytes.length) (0 : UInt8)).set bytes.length n.toUInt8 =
        (bytes++[n.toUInt8])++List.replicate (room-(bytes.length+1)) 0 := by
      rw [List.set_append_right _ _ (le_refl _),Nat.sub_self,hrest,List.replicate_succ,List.set_cons_zero,
        List.append_assoc,List.singleton_append]
    have hnext : min (bytes.length+1) room = bytes.length+1 := by omega
    unfold putByte storeByte cursorOf
    dsimp only
    rw [hlength,hoffset,if_pos hroom,if_pos hroom,htake,htakeMore,hset,List.length_append,List.length_singleton,hnext]
    rfl
  · have hoffset : min bytes.length room = room := by omega
    have hnone : room-bytes.length = 0 := by omega
    have htake : (bytes++[n.toUInt8]).take room = bytes.take room := List.take_append_of_le_length (by omega)
    have hnext : min (bytes.length+1) room = room := by omega
    have hnoneNext : room-(bytes.length+1) = 0 := by omega
    unfold putByte cursorOf
    dsimp only
    rw [hlength,hoffset,if_neg (by omega),htake,List.length_append,List.length_singleton,hnext,hnone,hnoneNext]
    rfl

theorem base64Value_lt {u : UInt16} {n : ℕ} (h : base64Value u = .ok n) : n < 64 := by
  unfold base64Value at h
  split at h
  · cases h
    omega
  · split at h
    · rename_i found hfound
      cases h
      exact List.mem_range.mp (List.mem_of_find?_eq_some hfound)
    · cases h

/-- Bits of a group of four values that are moved apart. -/
theorem quad_sum {a b c d : ℕ} (hb : b < 64) (hc : c < 64) (hd : d < 64) :
    a <<< 18 ||| b <<< 12 ||| c <<< 6 ||| d = a*2^18+b*2^12+c*2^6+d := by
  have hfirst : a <<< 18 ||| b <<< 12 = (a*2^6+b) <<< 12 := by
    have hlow : b <<< 12 < 2^18 := by
      rw [Nat.shiftLeft_eq]
      omega
    rw [← Nat.shiftLeft_add_eq_or_of_lt hlow,Nat.shiftLeft_eq,Nat.shiftLeft_eq,Nat.shiftLeft_eq]
    ring
  have hsecond : (a*2^6+b) <<< 12 ||| c <<< 6 = ((a*2^6+b)*2^6+c) <<< 6 := by
    have hlow : c <<< 6 < 2^12 := by
      rw [Nat.shiftLeft_eq]
      omega
    rw [← Nat.shiftLeft_add_eq_or_of_lt hlow,Nat.shiftLeft_eq,Nat.shiftLeft_eq,Nat.shiftLeft_eq]
    ring
  rw [hfirst,hsecond,← Nat.shiftLeft_add_eq_or_of_lt (by omega : d < 2^6),Nat.shiftLeft_eq]
  ring

theorem toUInt8_congr {n m : ℕ} (h : n%256 = m%256) : n.toUInt8 = m.toUInt8 := by
  refine UInt8.toNat_inj.mp ?_
  have hn : n.toUInt8.toNat = n%256 := UInt8.toNat_ofNat'
  have hm : m.toUInt8.toNat = m%256 := UInt8.toNat_ofNat'
  rw [hn,hm,h]

theorem unitAt_some {text : JsString} {i : ℕ} {u : UInt16} (h : text[i]? = some u) : unitAt text i = .ok u := by
  rw [unitAt,h]

/-- A turn of the loop reads the bytes of four values. -/
theorem decodeQuad_cursorOf {clean : JsString} {i : ℕ} {ua ub uc ud : UInt16} (ha : clean[i]? = some ua)
    (hb : clean[i+1]? = some ub) (hc : clean[i+2]? = some uc) (hd : clean[i+3]? = some ud) (room : ℕ) (bytes : Bytes) :
    decodeQuad clean (cursorOf room bytes) i =
      (thrown ([ua,ub,uc,ud].mapM base64Value)).map fun values => cursorOf room (bytes++quadBytes values) := by
  rw [List.mapM_cons,List.mapM_cons,List.mapM_cons,List.mapM_cons,List.mapM_nil]
  unfold decodeQuad
  rw [unitAt_some ha,unitAt_some hb,unitAt_some hc,unitAt_some hd]
  dsimp only [bind,Except.bind]
  cases hva : base64Value ua with
  | error error => rfl
  | ok a =>
    cases hvb : base64Value ub with
    | error error => rfl
    | ok b =>
      cases hvc : base64Value uc with
      | error error => rfl
      | ok c =>
        cases hvd : base64Value ud with
        | error error => rfl
        | ok d =>
          have hbLess := base64Value_lt hvb
          have hcLess := base64Value_lt hvc
          have hdLess := base64Value_lt hvd
          have hmask : ∀ n : ℕ, n &&& 255 = n%256 := fun n => Nat.and_two_pow_sub_one_eq_mod n 8
          have hfirst : ((a*2^18+b*2^12+c*2^6+d) >>> 16 &&& 255).toUInt8 = (a*4+b/16).toUInt8 := by
            refine toUInt8_congr ?_
            rw [hmask,Nat.shiftRight_eq_div_pow]
            omega
          have hsecond : ((a*2^18+b*2^12+c*2^6+d) >>> 8 &&& 255).toUInt8 = (b%16*16+c/4).toUInt8 := by
            refine toUInt8_congr ?_
            rw [hmask,Nat.shiftRight_eq_div_pow]
            omega
          have hthird : ((a*2^18+b*2^12+c*2^6+d) &&& 255).toUInt8 = (c%4*64+d).toUInt8 := by
            refine toUInt8_congr ?_
            rw [hmask]
            omega
          have hbytes : quadBytes [a,b,c,d] = [(a*4+b/16).toUInt8,(b%16*16+c/4).toUInt8,(c%4*64+d).toUInt8] := rfl
          dsimp only [thrown,Except.mapError,Except.map,pure,Except.pure]
          rw [putByte_cursorOf]
          dsimp only
          rw [putByte_cursorOf]
          dsimp only
          rw [putByte_cursorOf,quad_sum hbLess hcLess hdLess,hfirst,hsecond,hthird,hbytes,List.append_assoc,
            List.append_assoc]
          rfl

theorem length_mapM {items : JsString} {values : List ℕ} (h : items.mapM base64Value = .ok values) :
    values.length = items.length := by
  induction items generalizing values with
  | nil =>
    cases h
    rfl
  | cons u rest ih =>
    rw [List.mapM_cons] at h
    obtain ⟨value,_,htail⟩ := bind_ok h
    obtain ⟨others,hothers,hcons⟩ := bind_ok htail
    cases hcons
    rw [List.length_cons,List.length_cons,ih hothers]

/-- Values in groups of four are reached group by group. -/
theorem fours_induction {motive : List ℕ → Prop} (hnil : motive [])
    (hcons : ∀ a b c d rest, motive rest → motive (a::b::c::d::rest)) {values : List ℕ} (h : values.length%4 = 0) :
    motive values := by
  induction values using quadBytes.induct with
  | case1 a b c d rest ih =>
    simp only [List.length_cons] at h
    exact hcons a b c d rest (ih (by omega))
  | case2 values hshort =>
    match values,hshort,h with
    | [],_,_ => exact hnil
    | [_],_,h => simp at h
    | [_,_],_,h => simp at h
    | [_,_,_],_,h => simp at h
    | a::b::c::d::rest,hshort,_ => exact absurd rfl (hshort a b c d rest)

theorem quadBytes_append {first : List ℕ} (h : first.length%4 = 0) (rest : List ℕ) :
    quadBytes (first++rest) = quadBytes first++quadBytes rest := by
  refine fours_induction (motive := fun first => quadBytes (first++rest) = quadBytes first++quadBytes rest) rfl ?_ h
  intro a b c d first ih
  rw [List.cons_append,List.cons_append,List.cons_append,List.cons_append,quadBytes,quadBytes,ih,List.cons_append,
    List.cons_append,List.cons_append]

theorem length_quadBytes {values : List ℕ} (h : values.length%4 = 0) : (quadBytes values).length = values.length/4*3 := by
  refine fours_induction (motive := fun values => (quadBytes values).length = values.length/4*3) rfl ?_ h
  intro a b c d rest ih
  rw [quadBytes]
  simp only [List.length_cons]
  omega

/-- All turns of the loop read the bytes of the values so far. -/
theorem foldlM_decodeQuad {clean : JsString} (room : ℕ) {count : ℕ} (h : 4*count ≤ clean.length) :
    (List.range count).foldlM (fun cursor turn => decodeQuad clean cursor (4*turn)) (cursorOf room []) =
      (thrown ((clean.take (4*count)).mapM base64Value)).map fun values => cursorOf room (quadBytes values) := by
  induction count with
  | zero => rfl
  | succ count ih =>
    have hsplit : clean.take (4*(count+1)) = clean.take (4*count)++[clean[4*count],clean[4*count+1],clean[4*count+2],
        clean[4*count+3]] := by
      have hsum : 4*(count+1) = 4*count+1+1+1+1 := by omega
      rw [hsum,List.take_succ_eq_append_getElem (by omega),List.take_succ_eq_append_getElem (by omega),
        List.take_succ_eq_append_getElem (by omega),List.take_succ_eq_append_getElem (by omega)]
      simp only [List.append_assoc,List.singleton_append]
      rfl
    rw [List.range_succ,List.foldlM_append,ih (by omega),hsplit,List.mapM_append]
    cases hvalues : (clean.take (4*count)).mapM base64Value with
    | error error => rfl
    | ok values =>
      have hlength := length_mapM hvalues
      rw [List.length_take] at hlength
      have hturn := decodeQuad_cursorOf (List.getElem?_eq_getElem (by omega : 4*count < clean.length))
        (List.getElem?_eq_getElem (by omega : 4*count+1 < clean.length))
        (List.getElem?_eq_getElem (by omega : 4*count+2 < clean.length))
        (List.getElem?_eq_getElem (by omega : 4*count+3 < clean.length)) room (quadBytes values)
      have hstep : (do
          let cursor ← (thrown (.ok values)).map fun values => cursorOf room (quadBytes values)
          [count].foldlM (fun cursor turn => decodeQuad clean cursor (4*turn)) cursor) =
          decodeQuad clean (cursorOf room (quadBytes values)) (4*count) := by
        dsimp only [thrown,Except.mapError,Except.map,bind,Except.bind]
        rw [List.foldlM_cons]
        cases decodeQuad clean (cursorOf room (quadBytes values)) (4*count) with
        | error error => rfl
        | ok cursor => rfl
      rw [hstep,hturn]
      cases [clean[4*count],clean[4*count+1],clean[4*count+2],clean[4*count+3]].mapM base64Value with
      | error error => rfl
      | ok others =>
        have hbytes := @quadBytes_append values (by omega) others
        dsimp only [thrown,Except.mapError,Except.map,bind,Except.bind,pure,Except.pure]
        rw [hbytes]

/-- The accesses change nothing: decoding with them is the decoding of the values. -/
theorem base64DecodeIndexed_eq (text : JsString) : base64DecodeIndexed text = thrown (base64Decode text) := by
  unfold base64DecodeIndexed base64Decode
  dsimp only
  rw [← cleaned]
  generalize cleaned text = clean
  cases checkPadding clean with
  | error error => rfl
  | ok _ =>
    generalize hwhole : clean++List.replicate ((4-clean.length%4)%4) Base64.padding = whole
    have hlength : whole.length%4 = 0 := by
      rw [← hwhole,List.length_append,List.length_replicate]
      omega
    have hcount : (whole.length+3)/4 = whole.length/4 := by omega
    have hall : whole.take (4*(whole.length/4)) = whole := List.take_of_length_le (by omega)
    have hloop := @foldlM_decodeQuad whole (whole.length/4*3-paddingLength whole) (whole.length/4) (by omega)
    have hstart : cursorOf (whole.length/4*3-paddingLength whole) [] =
        ⟨List.replicate (whole.length/4*3-paddingLength whole) 0,0⟩ := by
      rw [cursorOf,List.take_nil,List.nil_append,List.length_nil,Nat.sub_zero,Nat.zero_min]
    rw [hstart,hall] at hloop
    dsimp only [thrown,Except.mapError,bind,Except.bind]
    rw [hcount,hloop]
    cases hvalues : whole.mapM base64Value with
    | error error => rfl
    | ok values =>
      have hsize := length_mapM hvalues
      have hroom : whole.length/4*3-paddingLength whole-(quadBytes values).length = 0 := by
        rw [length_quadBytes (by omega),hsize]
        omega
      dsimp only [thrown,Except.mapError,Except.map,pure,Except.pure,cursorOf]
      rw [hroom,List.replicate_zero,List.append_nil]

end Base64Loop

section Base64Texts

theorem base64Alphabet_digits : base64Alphabet = (List.range 64).map Base64.digit := by decide

/-- The alphabet holds the characters of the values. -/
theorem mem_base64Alphabet {u : UInt16} : u ∈ base64Alphabet ↔ ∃ n < 64, u = Base64.digit n := by
  rw [base64Alphabet_digits,List.mem_map]
  refine ⟨fun h => ?_,fun h => ?_⟩
  · obtain ⟨n,hn,rfl⟩ := h
    exact ⟨n,List.mem_range.mp hn,rfl⟩
  · obtain ⟨n,hn,rfl⟩ := h
    exact ⟨n,List.mem_range.mpr hn,rfl⟩

/-- Only characters and padding marks have a value. -/
theorem base64Value_ok {u : UInt16} : (∃ n, base64Value u = .ok n) ↔ u = Base64.padding ∨ u ∈ base64Alphabet := by
  refine ⟨fun h => ?_,fun h => ?_⟩
  · obtain ⟨n,hn⟩ := h
    unfold base64Value at hn
    split at hn
    · rename_i hpadding
      exact .inl hpadding
    · split at hn
      · rename_i found hfound
        have hsome := List.find?_some hfound
        have hsame := of_decide_eq_true hsome
        have hless := List.mem_range.mp (List.mem_of_find?_eq_some hfound)
        exact .inr (mem_base64Alphabet.mpr ⟨found,hless,hsame.symm⟩)
      · cases hn
  · rcases h with rfl | hmem
    · exact ⟨0,rfl⟩
    · obtain ⟨n,hn,rfl⟩ := mem_base64Alphabet.mp hmem
      exact ⟨n,base64Value_digit hn⟩

theorem mapM_base64Value {clean : JsString} : (∃ values, clean.mapM base64Value = .ok values) ↔
    ∀ u ∈ clean, u = Base64.padding ∨ u ∈ base64Alphabet := by
  induction clean with
  | nil => exact ⟨fun _ _ hmem => (nomatch hmem),fun _ => ⟨[],rfl⟩⟩
  | cons u rest ih =>
    rw [List.forall_mem_cons,← ih,← base64Value_ok,List.mapM_cons]
    refine ⟨fun h => ?_,fun h => ?_⟩
    · obtain ⟨values,hvalues⟩ := h
      obtain ⟨n,hn,htail⟩ := bind_ok hvalues
      obtain ⟨others,hothers,_⟩ := bind_ok htail
      exact ⟨⟨n,hn⟩,⟨others,hothers⟩⟩
    · obtain ⟨⟨n,hn⟩,⟨others,hothers⟩⟩ := h
      rw [hn,hothers]
      exact ⟨n::others,rfl⟩

/-- Padding is accepted where there is none, or where it completes a group. -/
theorem checkPadding_ok {clean : JsString} : checkPadding clean = .ok () ↔
    (Base64.padding ∉ clean ∧ clean.length%4 ≠ 1) ∨
      ∃ body pad, clean = body++List.replicate pad Base64.padding ∧ Base64.padding ∉ body ∧ (pad = 1 ∨ pad = 2) ∧
        clean.length%4 = 0 := by
  unfold checkPadding
  by_cases hmem : Base64.padding ∈ clean
  · obtain ⟨first,hfirst⟩ := Option.ne_none_iff_exists'.mp fun hnone => indexOf_eq_none.mp hnone hmem
    obtain ⟨hwhole,hbefore⟩ := indexOf_eq_some hfirst
    have hless := indexOf_lt hfirst
    have hlength : (clean.take first).length = first := List.length_take_of_le hless.le
    rw [hfirst]
    dsimp only
    refine ⟨fun h => ?_,fun h => ?_⟩
    · split at h
      · cases h
      · rename_i hgood
        split at h
        · cases h
        · rename_i hplace
          rw [not_or] at hgood hplace
          have hmarks : ∀ u ∈ clean.drop first, u = Base64.padding := by
            intro u hu
            by_contra hne
            exact hgood.2 (List.any_eq_true.mpr ⟨u,hu,decide_eq_true hne⟩)
          have hdrop : clean.drop first = List.replicate (clean.length-first) Base64.padding := by
            rw [← List.length_drop]
            exact List.eq_replicate_of_mem hmarks
          have hfour : clean.length%4 = 0 := not_not.mp hplace.1
          refine .inr ⟨clean.take first,clean.length-first,?_,hbefore,by omega,hfour⟩
          rw [← hdrop,List.take_append_drop]
    · rcases h with hnone | ⟨body,pad,hclean,hbody,hpad,hfour⟩
      · exact absurd hmem hnone.1
      · have hpositive : pad-1+1 = pad := by omega
        have hsplit : List.replicate pad Base64.padding = Base64.padding::List.replicate (pad-1) Base64.padding := by
          rw [← List.replicate_succ,hpositive]
        have hat : first = body.length := by
          have hindex := indexOf_append hbody (List.replicate (pad-1) Base64.padding)
          rw [← hsplit,← hclean,hfirst] at hindex
          exact Option.some.inj hindex
        have hsize : clean.length = body.length+pad := by
          rw [hclean,List.length_append,List.length_replicate]
        have hnone : ((clean.drop first).any fun u => decide (u ≠ Base64.padding)) = false := by
          rw [hclean,hat,List.drop_left,List.any_eq_false]
          intro u hu
          rw [List.eq_of_mem_replicate hu]
          decide
        have hgood : ¬(2 < clean.length-first ∨ ((clean.drop first).any fun u => decide (u ≠ Base64.padding)) = true) := by
          rw [hnone,not_or]
          exact ⟨by omega,Bool.false_ne_true⟩
        rw [if_neg hgood,if_neg (by omega)]
  · rw [indexOf_eq_none.mpr hmem]
    dsimp only
    refine ⟨fun h => ?_,fun h => ?_⟩
    · split at h
      · cases h
      · rename_i hone
        exact .inl ⟨hmem,hone⟩
    · rcases h with hnone | ⟨body,pad,hclean,_,hpad,_⟩
      · rw [if_neg hnone.2]
      · refine absurd ?_ hmem
        rw [hclean]
        refine List.mem_append_right _ (List.mem_replicate.mpr ⟨by omega,rfl⟩)

theorem padding_notMem : Base64.padding ∉ base64Alphabet := by decide

/-- The texts that are decoded are those of base64. -/
theorem base64Decode_ok (text : JsString) : (∃ bytes, base64Decode text = .ok bytes) ↔ Base64Text (cleaned text) := by
  have hdecode : (∃ bytes, base64Decode text = .ok bytes) ↔
      checkPadding (cleaned text) = .ok () ∧ ∀ u ∈ cleaned text, u = Base64.padding ∨ u ∈ base64Alphabet := by
    have hpadded : (∀ u ∈ cleaned text++List.replicate ((4-(cleaned text).length%4)%4) Base64.padding,
        u = Base64.padding ∨ u ∈ base64Alphabet) ↔ ∀ u ∈ cleaned text, u = Base64.padding ∨ u ∈ base64Alphabet := by
      rw [List.forall_mem_append]
      exact and_iff_left fun u hu => .inl (List.eq_of_mem_replicate hu)
    rw [← hpadded,← mapM_base64Value]
    unfold base64Decode
    dsimp only
    rw [← cleaned]
    refine ⟨fun h => ?_,fun h => ?_⟩
    · obtain ⟨bytes,hbytes⟩ := h
      obtain ⟨_,hcheck,htail⟩ := bind_ok hbytes
      obtain ⟨values,hvalues,_⟩ := bind_ok htail
      exact ⟨hcheck,⟨values,hvalues⟩⟩
    · obtain ⟨hcheck,⟨values,hvalues⟩⟩ := h
      rw [hcheck]
      dsimp only [bind,Except.bind]
      rw [hvalues]
      exact ⟨_,rfl⟩
  rw [hdecode,checkPadding_ok,Base64Text]
  refine ⟨fun h => ?_,fun h => ?_⟩
  · obtain ⟨hnone | ⟨body,pad,hclean,hbody,hpad,hfour⟩,hall⟩ := h
    · refine .inl ⟨fun u hu => (hall u hu).resolve_left ?_,hnone.2⟩
      rintro rfl
      exact hnone.1 hu
    · refine .inr ⟨body,pad,hclean,fun u hu => ?_,hpad,hfour⟩
      have hmem : u ∈ cleaned text := by
        rw [hclean]
        exact List.mem_append_left _ hu
      refine (hall u hmem).resolve_left ?_
      rintro rfl
      exact hbody hu
  · rcases h with ⟨hall,hone⟩ | ⟨body,pad,hclean,hbody,hpad,hfour⟩
    · exact ⟨.inl ⟨fun hmem => padding_notMem (hall _ hmem),hone⟩,fun u hu => .inr (hall u hu)⟩
    · refine ⟨.inr ⟨body,pad,hclean,fun hmem => padding_notMem (hbody _ hmem),hpad,hfour⟩,fun u hu => ?_⟩
      rw [hclean] at hu
      rcases List.mem_append.mp hu with hfirst | hlast
      · exact .inr (hbody u hfirst)
      · exact .inl (List.eq_of_mem_replicate hlast)

end Base64Texts

section Base64Rounds

theorem base64Character_digit {n : ℕ} (h : n < 64) : base64Character n = [Base64.digit n] := by
  rw [base64Character,base64Alphabet_digits,List.getElem?_map,List.getElem?_range h]
  rfl

/-- Bits of three bytes that are moved apart. -/
theorem triple_sum {a b c : ℕ} (hb : b < 256) (hc : c < 256) : a <<< 16 ||| b <<< 8 ||| c = a*2^16+b*2^8+c := by
  have hfirst : a <<< 16 ||| b <<< 8 = (a*2^8+b) <<< 8 := by
    have hlow : b <<< 8 < 2^16 := by
      rw [Nat.shiftLeft_eq]
      omega
    rw [← Nat.shiftLeft_add_eq_or_of_lt hlow,Nat.shiftLeft_eq,Nat.shiftLeft_eq,Nat.shiftLeft_eq]
    ring
  rw [hfirst,← Nat.shiftLeft_add_eq_or_of_lt (by omega : c < 2^8),Nat.shiftLeft_eq]
  ring

theorem encodeTriple_eq (bytes : Bytes) (i : ℕ) : encodeTriple bytes i = Base64.digit ((bytes.getD i 0).toNat/4)::
      Base64.digit ((bytes.getD i 0).toNat%4*16+(bytes.getD (i+1) 0).toNat/16):: (if i+1 < bytes.length then
        Base64.digit ((bytes.getD (i+1) 0).toNat%16*4+(bytes.getD (i+2) 0).toNat/64) else Base64.padding)::
      [if i+2 < bytes.length then Base64.digit ((bytes.getD (i+2) 0).toNat%64) else Base64.padding] := by
  have ha := UInt8.toNat_lt (bytes.getD i 0)
  have hb := UInt8.toNat_lt (bytes.getD (i+1) 0)
  have hc := UInt8.toNat_lt (bytes.getD (i+2) 0)
  have hmask : ∀ n : ℕ, n &&& 63 = n%64 := fun n => Nat.and_two_pow_sub_one_eq_mod n 6
  have hless : ∀ n : ℕ, n%64 < 64 := fun n => Nat.mod_lt n (by omega)
  unfold encodeTriple
  dsimp only
  generalize (bytes.getD i 0).toNat = a at *
  generalize (bytes.getD (i+1) 0).toNat = b at *
  generalize (bytes.getD (i+2) 0).toNat = c at *
  have hfirst : (a*2^16+b*2^8+c)/2^18%64 = a/4 := by omega
  have hsecond : (a*2^16+b*2^8+c)/2^12%64 = a%4*16+b/16 := by omega
  have hthird : (a*2^16+b*2^8+c)/2^6%64 = b%16*4+c/64 := by omega
  have hfourth : (a*2^16+b*2^8+c)%64 = c%64 := by omega
  rw [triple_sum hb hc,hmask,hmask,hmask,hmask,Nat.shiftRight_eq_div_pow,Nat.shiftRight_eq_div_pow,
    Nat.shiftRight_eq_div_pow,base64Character_digit (hless _),base64Character_digit (hless _),
    base64Character_digit (hless _),base64Character_digit (hless _),hfirst,hsecond,hthird,hfourth]
  split <;> split <;> rfl

theorem encodeTriple_cons (a b c : UInt8) (rest : Bytes) (i : ℕ) :
    encodeTriple (a::b::c::rest) (i+3) = encodeTriple rest i := by
  have hsecond : i+3+1 = i+1+3 := by omega
  have hthird : i+3+2 = i+2+3 := by omega
  have hsize : (a::b::c::rest).length = rest.length+3 := rfl
  rw [encodeTriple_eq,encodeTriple_eq,hsecond,hthird,hsize]
  simp only [Nat.add_lt_add_iff_right]
  rfl

/-- Three bytes at a time are written as all bytes. -/
theorem base64EncodeTriples_eq (bytes : Bytes) : base64EncodeTriples bytes = base64Encode bytes := by
  unfold base64EncodeTriples base64Encode
  induction bytes using Base64.encode.induct with
  | case1 => rfl
  | case2 a =>
    have hone : List.range ((([a] : Bytes).length+2)/3) = [0] := by
      rw [List.length_singleton]
      rfl
    rw [hone,List.flatMap_cons,List.flatMap_nil,List.append_nil,encodeTriple_eq]
    simp [Base64.encode]
  | case3 a b =>
    have hone : List.range ((([a,b] : Bytes).length+2)/3) = [0] := by
      rw [List.length_cons,List.length_singleton]
      rfl
    rw [hone,List.flatMap_cons,List.flatMap_nil,List.append_nil,encodeTriple_eq]
    simp [Base64.encode]
  | case4 a b c rest ih =>
    have hcount : ((a::b::c::rest).length+2)/3 = (rest.length+2)/3+1 := by
      simp only [List.length_cons]
      omega
    have hfirst : encodeTriple (a::b::c::rest) (3*0) = [Base64.digit (a.toNat/4),Base64.digit (a.toNat%4*16+b.toNat/16),
        Base64.digit (b.toNat%16*4+c.toNat/64),Base64.digit (c.toNat%64)] := by
      rw [encodeTriple_eq,if_pos (by simp),if_pos (by simp)]
      rfl
    have hrest : (fun turn => encodeTriple (a::b::c::rest) (3*(turn+1))) = fun turn => encodeTriple rest (3*turn) := by
      funext turn
      exact encodeTriple_cons a b c rest (3*turn)
    rw [hcount,List.range_succ_eq_map,List.flatMap_cons,hfirst,List.flatMap_map,hrest,ih]
    rfl

end Base64Rounds

section UrlTexts

theorem withoutPadding_append {body : JsString} (h : Base64.padding ∉ body) (pad : ℕ) :
    withoutPadding (body++List.replicate pad Base64.padding) = body := by
  have hreverse : (List.replicate pad Base64.padding).reverse = List.replicate pad Base64.padding := List.reverse_replicate
  have hmarks : ∀ pad : ℕ, ((List.replicate pad Base64.padding)++body.reverse).dropWhile (fun u => u = Base64.padding) =
      body.reverse := by
    intro pad
    induction pad with
    | zero =>
      rw [List.replicate_zero,List.nil_append]
      cases hbody : body.reverse with
      | nil => rfl
      | cons u rest =>
        have hmem : u ∈ body := by
          rw [← List.mem_reverse,hbody]
          exact List.mem_cons_self
        have hne : u ≠ Base64.padding := by
          rintro rfl
          exact h hmem
        exact List.dropWhile_cons_of_neg (by rw [decide_eq_false hne]; exact Bool.false_ne_true)
    | succ pad ih =>
      have hmark : decide (Base64.padding = Base64.padding) = true := decide_eq_true rfl
      rw [List.replicate_succ,List.cons_append,List.dropWhile_cons,if_pos hmark,ih]
  rw [withoutPadding,List.reverse_append,hreverse,hmarks,List.reverse_reverse]

/-- The URL characters are read as those that were written. -/
theorem standardCharacter_urlCharacter {n : ℕ} (h : n < 64) :
    standardCharacter (urlCharacter (Base64.digit n)) = Base64.digit n ∧ urlCharacter (Base64.digit n) ≠ Base64.padding := by
  have hall : ∀ n, n < 64 → standardCharacter (urlCharacter (Base64.digit n)) = Base64.digit n ∧
      urlCharacter (Base64.digit n) ≠ Base64.padding := by decide
  exact hall n h

/-- Bytes written for a URL are read back. -/
theorem base64UrlDecode_base64UrlEncode (bytes : Bytes) : base64UrlDecode (base64UrlEncode bytes) = .ok bytes := by
  obtain ⟨body,pad,hwritten⟩ := written_encode bytes
  have hgroups := hwritten.groups
  have hshort := hwritten.short
  have hmap : (Base64.encode bytes).map urlCharacter = body.map urlCharacter++List.replicate pad Base64.padding := by
    have hpadding : urlCharacter Base64.padding = Base64.padding := by decide
    rw [hwritten.text,List.map_append,List.map_replicate,hpadding]
  have hnotMem : Base64.padding ∉ body.map urlCharacter := by
    intro hmem
    obtain ⟨u,hu,hsame⟩ := List.mem_map.mp hmem
    obtain ⟨n,hn,rfl⟩ := hwritten.characters u hu
    exact (standardCharacter_urlCharacter hn).2 hsame
  have hback : (body.map urlCharacter).map standardCharacter = body := by
    rw [List.map_map]
    refine (List.map_congr_left fun u hu => ?_).trans (List.map_id body)
    obtain ⟨n,hn,rfl⟩ := hwritten.characters u hu
    exact (standardCharacter_urlCharacter hn).1
  have hcount : (4-body.length%4)%4 = pad := by omega
  have hencoded : base64UrlEncode bytes = body.map urlCharacter := by
    rw [base64UrlEncode,base64EncodeTriples_eq,base64Encode,hmap,withoutPadding_append hnotMem]
  rw [hencoded,base64UrlDecode,hback,hcount,← hwritten.text,base64DecodeIndexed_eq,← base64Encode,base64Decode_base64Encode]
  rfl

end UrlTexts

section HexTexts

variable {toLowerCase : JsString → JsString}

theorem indexOfPart_singleton (u : UInt16) : indexOfPart [u] hexDigits = (List.range 17).find? fun i => hexDigits[i]? = some u := by
  have hlength : hexDigits.length+1 = 17 := by decide
  rw [indexOfPart,hlength]
  congr 1
  funext i
  cases hdrop : hexDigits.drop i with
  | nil =>
    have hnone : hexDigits[i]? = none := List.getElem?_eq_none (List.drop_eq_nil_iff.mp hdrop)
    rw [hnone]
    exact (decide_eq_false (fun h => nomatch h)).symm
  | cons v rest =>
    have hsome : hexDigits[i]? = some v := by
      have hhead := congrArg List.head? hdrop
      rwa [List.head?_drop] at hhead
    rw [hsome,List.isPrefixOf_cons_cons,List.isPrefixOf_nil_left,Bool.and_true,Bool.eq_iff_iff,beq_iff_eq,
      decide_eq_true_iff,Option.some.injEq]
    exact eq_comm

/-- A text that starts with no digit is found nowhere. -/
theorem indexOfPart_none {u : UInt16} (h : u ∉ hexDigits) (rest : JsString) : indexOfPart (u::rest) hexDigits = none := by
  refine List.find?_eq_none.mpr fun i _ hfound => h ?_
  cases hdrop : hexDigits.drop i with
  | nil =>
    rw [hdrop] at hfound
    cases hfound
  | cons v others =>
    rw [hdrop,List.isPrefixOf_cons_cons,Bool.and_eq_true,beq_iff_eq] at hfound
    have hmem : v ∈ hexDigits.drop i := by
      rw [hdrop]
      exact List.mem_cons_self
    rw [hfound.1]
    exact List.mem_of_mem_drop hmem

theorem hexDigits_ascii {u : UInt16} (h : u ∈ hexDigits) : u.toNat < 128 :=
  of_decide_eq_true (List.all_eq_true.mp (by decide : hexDigits.all fun u => decide (u.toNat < 128)) u h)

/-- The index of a unit in lower case is its value as a digit. -/
theorem indexOfPart_lower (hlower : LowerCase toLowerCase) (u : UInt16) :
    indexOfPart (toLowerCase [u]) hexDigits = Json.hexValue u := by
  by_cases hascii : u.toNat < 128
  · have hall : ∀ n < 128, ((List.range 17).find? fun i => hexDigits[i]? = some (lowerUnit n.toUInt16)) =
        Json.hexValue n.toUInt16 := by decide +kernel
    have hunit := hall u.toNat hascii
    rw [toUInt16_toNat] at hunit
    rw [hlower.ascii u hascii,indexOfPart_singleton,hunit]
  · have hnone : Json.hexValue u = none := by
      unfold Json.hexValue
      rw [if_neg (by omega),if_neg (by omega),if_neg (by omega)]
    rw [hnone]
    by_cases hdotted : u = 0x130
    · rw [hdotted,hlower.dotted]
      exact indexOfPart_none (by decide) _
    · by_cases hkelvin : u = 0x212a
      · rw [hkelvin,hlower.kelvin]
        exact indexOfPart_none (by decide) _
      · obtain ⟨hne,hothers⟩ := hlower.others u (by omega) hdotted hkelvin
        cases hlowered : toLowerCase [u] with
        | nil => exact absurd hlowered hne
        | cons v rest =>
          refine indexOfPart_none (fun hmem => ?_) rest
          have hlarge := hothers v (by rw [hlowered]; exact List.mem_cons_self)
          have hsmall := hexDigits_ascii hmem
          omega

theorem hexValue_isSome {u : UInt16} : (Json.hexValue u).isSome = true ↔ isHexDigit u := by
  unfold Json.hexValue isHexDigit
  split
  · simp_all
  · split
    · simp_all
    · split
      · simp_all
      · simp_all

/-- A loop that stores a byte at each index makes the list of the bytes. -/
theorem foldlM_storeByte (byteAt : ℕ → Except Fault UInt8) (room : ℕ) {count : ℕ} (h : count ≤ room) :
    (List.range count).foldlM (fun out i => do
      let b ← byteAt i
      storeByte out i b) (List.replicate room 0) =
    ((List.range count).mapM byteAt).map fun bytes => bytes++List.replicate (room-count) 0 := by
  have hall : (List.range count).foldlM (fun out i => do
        let b ← byteAt i
        storeByte out i b) (List.replicate room 0) =
      ((List.range count).mapM byteAt).map (fun bytes => bytes++List.replicate (room-count) 0) ∧
      ∀ bytes, (List.range count).mapM byteAt = .ok bytes → bytes.length = count := by
    induction count with
    | zero =>
      refine ⟨rfl,fun bytes hbytes => ?_⟩
      cases hbytes
      rfl
    | succ count ih =>
      obtain ⟨hloop,hlength⟩ := ih (by omega)
      rw [List.range_succ,List.foldlM_append,List.mapM_append,hloop]
      cases hbytes : (List.range count).mapM byteAt with
      | error error => exact ⟨rfl,fun _ hnone => nomatch hnone⟩
      | ok bytes =>
        have hsize := hlength bytes hbytes
        have hroom : room-count = room-(count+1)+1 := by omega
        have hfits : count < (bytes++List.replicate (room-count) (0 : UInt8)).length := by
          rw [List.length_append,List.length_replicate]
          omega
        have hset : ∀ b, (bytes++List.replicate (room-count) (0 : UInt8)).set count b =
            (bytes++[b])++List.replicate (room-(count+1)) 0 := by
          intro b
          rw [← hsize,List.set_append_right _ _ (le_refl _),Nat.sub_self,hsize,hroom,List.replicate_succ,List.set_cons_zero,
            List.append_assoc,List.singleton_append]
        dsimp only [Except.map,bind,Except.bind]
        rw [List.foldlM_cons,List.mapM_cons,List.mapM_nil]
        dsimp only [bind,Except.bind]
        cases byteAt count with
        | error error => exact ⟨rfl,fun _ hnone => nomatch hnone⟩
        | ok b =>
          dsimp only [pure,Except.pure]
          rw [storeByte,if_pos hfits,hset]
          refine ⟨rfl,fun all hsome => ?_⟩
          cases hsome
          rw [List.length_append,List.length_singleton,hsize]
  exact hall.1

/-- An even text is decoded pair by pair. -/
theorem hexDecode_even {text : JsString} (h : text.length%2 = 0) :
    hexDecode toLowerCase text = (List.range (text.length/2)).mapM (hexPairAt toLowerCase text) := by
  rw [hexDecode,if_neg (not_not.mpr h),foldlM_storeByte _ _ (le_refl _),Nat.sub_self]
  simp only [List.replicate_zero,List.append_nil]
  cases (List.range (text.length/2)).mapM (hexPairAt toLowerCase text) with
  | error error => rfl
  | ok bytes => rfl

/-- A pair is a byte if both units are digits, and an error otherwise. -/
theorem hexPairAt_eq (hlower : LowerCase toLowerCase) {text : JsString} {i : ℕ} {u v : UInt16} (hu : text[2*i]? = some u)
    (hv : text[2*i+1]? = some v) : hexPairAt toLowerCase text i =
      match Json.hexValue u,Json.hexValue v with
      | some hi,some lo => .ok (hi <<< 4 ||| lo).toUInt8
      | _,_ => .error (.thrown (.rangeError ("invalid hex at offset "++toString (2*i)))) := by
  unfold hexPairAt
  rw [unitAt_some hu,unitAt_some hv]
  dsimp only [bind,Except.bind]
  rw [indexOfPart_lower hlower,indexOfPart_lower hlower]
  rfl

/-- A list is mapped if every item is. -/
theorem mapM_isOk {α β : Type} {f : α → Except Fault β} {items : List α} :
    (∃ results, items.mapM f = .ok results) ↔ ∀ item ∈ items, ∃ result, f item = .ok result := by
  induction items with
  | nil => exact ⟨fun _ _ hmem => (nomatch hmem),fun _ => ⟨[],rfl⟩⟩
  | cons item rest ih =>
    rw [List.forall_mem_cons,← ih,List.mapM_cons]
    refine ⟨fun h => ?_,fun h => ?_⟩
    · obtain ⟨results,hresults⟩ := h
      obtain ⟨result,hresult,htail⟩ := bind_ok hresults
      obtain ⟨others,hothers,_⟩ := bind_ok htail
      exact ⟨⟨result,hresult⟩,⟨others,hothers⟩⟩
    · obtain ⟨⟨result,hresult⟩,⟨others,hothers⟩⟩ := h
      rw [hresult,hothers]
      exact ⟨result::others,rfl⟩

/-- An error of a list is the error of an item. -/
theorem mapM_fault {α β : Type} {f : α → Except Fault β} {items : List α} {fault : Fault} (h : items.mapM f = .error fault) :
    ∃ item ∈ items, f item = .error fault := by
  induction items with
  | nil => cases h
  | cons item rest ih =>
    rw [List.mapM_cons] at h
    cases hitem : f item with
    | error error =>
      rw [hitem] at h
      cases h
      exact ⟨item,List.mem_cons_self,hitem⟩
    | ok result =>
      cases hrest : rest.mapM f with
      | error error =>
        rw [hitem,hrest] at h
        cases h
        obtain ⟨other,hother,hfault⟩ := ih hrest
        exact ⟨other,List.mem_cons_of_mem _ hother,hfault⟩
      | ok others =>
        rw [hitem,hrest] at h
        cases h

/-- The texts that are decoded are even numbers of digits. -/
theorem hexDecode_ok (hlower : LowerCase toLowerCase) (text : JsString) :
    (∃ bytes, hexDecode toLowerCase text = .ok bytes) ↔ text.length%2 = 0 ∧ ∀ u ∈ text, isHexDigit u := by
  by_cases heven : text.length%2 = 0
  · rw [hexDecode_even heven,mapM_isOk]
    refine ⟨fun h => ⟨heven,fun u hu => ?_⟩,fun h i hi => ?_⟩
    · obtain ⟨j,hj,rfl⟩ := List.mem_iff_getElem.mp hu
      obtain ⟨b,hb⟩ := h (j/2) (List.mem_range.mpr (by omega))
      have hpair := hexPairAt_eq hlower (List.getElem?_eq_getElem (by omega : 2*(j/2) < text.length))
        (List.getElem?_eq_getElem (by omega : 2*(j/2)+1 < text.length))
      rw [hpair] at hb
      refine hexValue_isSome.mp ?_
      split at hb
      · rename_i hi lo hhi hlo
        rcases Nat.mod_two_eq_zero_or_one j with hzero | hone
        · have hsame : 2*(j/2) = j := by omega
          simp only [hsame] at hhi
          rw [hhi]
          rfl
        · have hsame : 2*(j/2)+1 = j := by omega
          simp only [hsame] at hlo
          rw [hlo]
          rfl
      · cases hb
    · have hless := List.mem_range.mp hi
      have hpair := hexPairAt_eq hlower (List.getElem?_eq_getElem (by omega : 2*i < text.length))
        (List.getElem?_eq_getElem (by omega : 2*i+1 < text.length))
      obtain ⟨hi',hhi⟩ := Option.isSome_iff_exists.mp (hexValue_isSome.mpr (h.2 text[2*i] (List.getElem_mem _)))
      obtain ⟨lo,hlo⟩ := Option.isSome_iff_exists.mp (hexValue_isSome.mpr (h.2 text[2*i+1] (List.getElem_mem _)))
      rw [hpair,hhi,hlo]
      exact ⟨_,rfl⟩
  · rw [hexDecode,if_pos heven]
    exact ⟨fun h => (nomatch h.choose_spec),fun h => absurd h.1 heven⟩

/-- The pair of a byte is two digits that stand for it. -/
theorem hexPairs_getD {n : ℕ} (h : n < 256) : ∃ u v, hexPairs.getD n [] = [u,v] ∧ ∃ hi lo, Json.hexValue u = some hi ∧
    Json.hexValue v = some lo ∧ hi <<< 4 ||| lo = n := by
  have hall : ∀ n < 256, (hexPairs.getD n []).length = 2 ∧ ((Json.hexValue ((hexPairs.getD n []).getD 0 0)).getD 16) <<< 4 |||
      ((Json.hexValue ((hexPairs.getD n []).getD 1 0)).getD 16) = n ∧
      (Json.hexValue ((hexPairs.getD n []).getD 0 0)).isSome ∧ (Json.hexValue ((hexPairs.getD n []).getD 1 0)).isSome := by
    decide +kernel
  obtain ⟨htwo,hvalue,hfirst,hsecond⟩ := hall n h
  obtain ⟨u,v,huv⟩ := List.length_eq_two.mp htwo
  rw [huv] at hvalue hfirst hsecond
  obtain ⟨hi,hhi⟩ := Option.isSome_iff_exists.mp hfirst
  obtain ⟨lo,hlo⟩ := Option.isSome_iff_exists.mp hsecond
  rw [hhi,hlo] at hvalue
  exact ⟨u,v,huv,hi,lo,hhi,hlo,hvalue⟩

theorem hexEncode_cons {b : UInt8} {u v : UInt16} (h : hexPairs.getD b.toNat [] = [u,v]) (rest : Bytes) :
    hexEncode (b::rest) = u::v::hexEncode rest := by
  rw [hexEncode,List.flatMap_cons,h]
  rfl

theorem length_hexEncode (bytes : Bytes) : (hexEncode bytes).length = 2*bytes.length := by
  induction bytes with
  | nil => rfl
  | cons b rest ih =>
    obtain ⟨u,v,huv,_⟩ := hexPairs_getD (UInt8.toNat_lt b)
    rw [hexEncode_cons huv,List.length_cons,List.length_cons,List.length_cons,ih]
    omega

/-- The units of a byte stand at twice its index. -/
theorem hexEncode_getElem? {bytes : Bytes} {i : ℕ} (h : i < bytes.length) : ∃ u v, (hexEncode bytes)[2*i]? = some u ∧
    (hexEncode bytes)[2*i+1]? = some v ∧ hexPairs.getD bytes[i].toNat [] = [u,v] := by
  induction bytes generalizing i with
  | nil => exact absurd h (Nat.not_lt_zero i)
  | cons b rest ih =>
    obtain ⟨u,v,huv,_⟩ := hexPairs_getD (UInt8.toNat_lt b)
    rw [hexEncode_cons huv]
    cases i with
    | zero => exact ⟨u,v,rfl,rfl,huv⟩
    | succ i =>
      have hfirst : 2*(i+1) = 2*i+1+1 := by omega
      rw [hfirst]
      exact ih (Nat.lt_of_succ_lt_succ h)

/-- Bytes written in hexadecimal are read back. -/
theorem hexDecode_hexEncode (hlower : LowerCase toLowerCase) (bytes : Bytes) :
    hexDecode toLowerCase (hexEncode bytes) = .ok bytes := by
  have hlength := length_hexEncode bytes
  have heven : (hexEncode bytes).length%2 = 0 := by omega
  have hhalf : (hexEncode bytes).length/2 = bytes.length := by omega
  have hpair : ∀ i (h : i < bytes.length), hexPairAt toLowerCase (hexEncode bytes) i = .ok bytes[i] := by
    intro i h
    obtain ⟨u,v,hu,hv,huv⟩ := hexEncode_getElem? h
    obtain ⟨u',v',huv',hi,lo,hhi,hlo,hvalue⟩ := hexPairs_getD (UInt8.toNat_lt bytes[i])
    rw [huv] at huv'
    cases huv'
    have hback : bytes[i].toNat.toUInt8 = bytes[i] := UInt8.ofNat_toNat
    rw [hexPairAt_eq hlower hu hv,hhi,hlo]
    dsimp only
    rw [hvalue,hback]
  have hmap : ∀ count ≤ bytes.length, (List.range count).mapM (hexPairAt toLowerCase (hexEncode bytes)) =
      .ok (bytes.take count) := by
    intro count hcount
    induction count with
    | zero => rfl
    | succ count ih =>
      rw [List.range_succ,List.mapM_append,ih (by omega),List.mapM_cons,List.mapM_nil,hpair count (by omega),
        List.take_succ_eq_append_getElem (by omega)]
      rfl
  rw [hexDecode_even heven,hhalf,hmap bytes.length (le_refl _),List.take_length]

end HexTexts

section Codecs

variable {toLowerCase : JsString → JsString}

theorem base64DecodeIndexed_inBounds (text : JsString) (index : ℕ) : base64DecodeIndexed text ≠ .error (.outOfBounds index) := by
  rw [base64DecodeIndexed_eq]
  cases base64Decode text with
  | error error => exact fun h => nomatch h
  | ok bytes => exact fun h => nomatch h

theorem hexDecode_inBounds (hlower : LowerCase toLowerCase) (text : JsString) (index : ℕ) :
    hexDecode toLowerCase text ≠ .error (.outOfBounds index) := by
  intro hfault
  by_cases heven : text.length%2 = 0
  · rw [hexDecode_even heven] at hfault
    obtain ⟨i,hi,hpair⟩ := mapM_fault hfault
    have hless := List.mem_range.mp hi
    rw [hexPairAt_eq hlower (List.getElem?_eq_getElem (by omega : 2*i < text.length))
      (List.getElem?_eq_getElem (by omega : 2*i+1 < text.length))] at hpair
    split at hpair
    · cases hpair
    · cases hpair
  · rw [hexDecode,if_pos heven] at hfault
    cases hfault

/-- The codecs give back what they wrote, decode the texts of their languages and no
others, and make no access that leaves an array. -/
theorem codecs_exact (hlower : LowerCase toLowerCase) :
    (∀ bytes, base64DecodeIndexed (base64EncodeTriples bytes) = .ok bytes) ∧
    (∀ bytes, base64UrlDecode (base64UrlEncode bytes) = .ok bytes) ∧
    (∀ bytes, hexDecode toLowerCase (hexEncode bytes) = .ok bytes) ∧
    (∀ text, (∃ bytes, base64DecodeIndexed text = .ok bytes) ↔ Base64Text (cleaned text)) ∧
    (∀ text, (∃ bytes, hexDecode toLowerCase text = .ok bytes) ↔ text.length%2 = 0 ∧ ∀ u ∈ text, isHexDigit u) ∧
    ∀ text index, base64DecodeIndexed text ≠ .error (.outOfBounds index) ∧
      base64UrlDecode text ≠ .error (.outOfBounds index) ∧ hexDecode toLowerCase text ≠ .error (.outOfBounds index) := by
  refine ⟨fun bytes => ?_,base64UrlDecode_base64UrlEncode,hexDecode_hexEncode hlower,fun text => ?_,hexDecode_ok hlower,
    fun text index => ⟨base64DecodeIndexed_inBounds text index,base64DecodeIndexed_inBounds _ index,
      hexDecode_inBounds hlower text index⟩⟩
  · rw [base64DecodeIndexed_eq,base64EncodeTriples_eq,base64Decode_base64Encode]
    rfl
  · rw [base64DecodeIndexed_eq,← base64Decode_ok]
    cases base64Decode text with
    | error error => exact ⟨fun h => (nomatch h.choose_spec),fun h => (nomatch h.choose_spec)⟩
    | ok bytes => exact ⟨fun _ => ⟨bytes,rfl⟩,fun _ => ⟨bytes,rfl⟩⟩

/-- Lower case of texts of one unit, of which those outside of ASCII but two are kept. -/
def lowerCaseOf (text : JsString) : JsString :=
  match text with
  | [u] => if u = 0x130 then [unit 'i',0x307] else if u = 0x212a then [unit 'k'] else [lowerUnit u]
  | _ => text

theorem codecs_exact_lowerCaseOf : hexDecode lowerCaseOf (hexEncode [0,255,16]) = .ok [0,255,16] ∧
    ((∃ bytes, hexDecode lowerCaseOf (ofString "fG") = .ok bytes) ↔
      (ofString "fG").length%2 = 0 ∧ ∀ u ∈ ofString "fG", isHexDigit u) := by
  have hlower : LowerCase lowerCaseOf := by
    refine ⟨fun u hu => ?_,by decide,by decide,fun u hu hdotted hkelvin => ?_⟩
    · have hdotted : u ≠ 0x130 := by
        rintro rfl
        exact absurd hu (by decide)
      have hkelvin : u ≠ 0x212a := by
        rintro rfl
        exact absurd hu (by decide)
      rw [lowerCaseOf,if_neg hdotted,if_neg hkelvin]
    · have hkept : lowerUnit u = u := if_neg (by omega)
      rw [lowerCaseOf,if_neg hdotted,if_neg hkelvin,hkept]
      exact ⟨List.cons_ne_nil u [],fun v hv => List.mem_singleton.mp hv ▸ hu⟩
  have hcodecs := codecs_exact hlower
  exact ⟨hcodecs.2.2.1 _,hcodecs.2.2.2.2.1 _⟩

end Codecs

end Baileyrs.RuntimeBytes
