import Baileyrs.JsNumberText
import Baileyrs.SignalAddresses

/-!
# Signal addresses of JIDs

The public signal repository writes the address of a JID as the legacy stores
write the key of the native address of the same device. The legacy keys of
native addresses refuse users and devices that are not safe integers.
-/

namespace Baileyrs

open JsString AtomicStore

namespace JsNumber

/-- Integer at the start of a text. -/
def parseInt (text : JsString) : JsNumber :=
  let (sign,tail) := Json.readOptional [unit '+',unit '-'] (text.dropWhile isSpace)
  let (base,tail) := match tail with
    | 48::120::rest => (16,rest)
    | 48::88::rest => (16,rest)
    | rest => (10,rest)
  let values := (tail.map (digitIn base)).takeWhile Option.isSome |>.filterMap id
  if values = [] then nan else ofRatio (sign = [unit '-']) (values.foldl (fun n d => n*base+d) 0) 1

section Digits

variable {text : JsString}

theorem digit_bounds {u : UInt16} (h : Json.isDigit u = true) : 48 ≤ u.toNat ∧ u.toNat ≤ 57 := by
  unfold Json.isDigit at h
  rw [Bool.and_eq_true,decide_eq_true_eq,decide_eq_true_eq] at h
  exact h

/-- A digit is no blank. -/
theorem isSpace_digit {u : UInt16} (h : Json.isDigit u = true) : isSpace u = false := by
  have hbounds := digit_bounds h
  have hlist : [32,160,5760,8232,8233,8239,8287,12288,65279].contains u.toNat = false := by
    simp only [List.contains_cons,List.contains_nil,Bool.or_false,Bool.or_eq_false_iff,beq_eq_false_iff_ne]
    omega
  unfold isSpace
  rw [hlist,Bool.or_false,Bool.or_eq_false_iff,Bool.and_eq_false_iff,Bool.and_eq_false_iff]
  simp only [decide_eq_false_iff_not]
  omega

/-- Nothing is trimmed from digits. -/
theorem dropWhile_digits (h : text.all Json.isDigit = true) : text.dropWhile isSpace = text := by
  cases text with
  | nil => rfl
  | cons u rest =>
    rw [List.all_cons,Bool.and_eq_true] at h
    rw [List.dropWhile_cons,isSpace_digit h.1]
    rfl

theorem span_digits (h : text.all Json.isDigit = true) : text.span Json.isDigit = (text,[]) := by
  have htake : text.takeWhile Json.isDigit = text :=
    List.takeWhile_eq_self_iff.mpr fun u hu => List.all_eq_true.mp h u hu
  have hdrop : text.dropWhile Json.isDigit = [] :=
    List.dropWhile_eq_nil_iff.mpr fun u hu => List.all_eq_true.mp h u hu
  rw [List.span_eq_takeWhile_dropWhile,htake,hdrop]

/-- A text of digits has none of the units that are not digits. -/
theorem readOptional_digits {marks : List UInt16} (h : text.all Json.isDigit = true)
    (hmarks : marks.all (fun u => !Json.isDigit u) = true) : Json.readOptional marks text = ([],text) := by
  cases text with
  | nil => rfl
  | cons u rest =>
    have hno : ¬u ∈ marks := by
      intro hmem
      have hmark := List.all_eq_true.mp hmarks u hmem
      rw [List.all_cons,Bool.and_eq_true] at h
      rw [h.1] at hmark
      cases hmark
    unfold Json.readOptional
    simp only [List.contains_eq_mem,hno,decide_false]
    rfl

/-- The mark of another base is no digit. -/
theorem second_digit {u v : UInt16} {rest : JsString} (hv : Json.isDigit v = false) :
    (u::v::rest).all Json.isDigit ≠ true := by
  rw [List.all_cons,List.all_cons,hv,Bool.false_and,Bool.and_false]
  exact Bool.false_ne_true

/-- A text of digits is read as its number. -/
theorem ofText_digits (hnonempty : text ≠ []) (h : text.all Json.isDigit = true) :
    ofText text = ofRatio false (ofDigits text) 1 := by
  have hreverse : text.reverse.all Json.isDigit = true := by
    rw [List.all_reverse]
    exact h
  have htrimmed : ((text.dropWhile isSpace).reverse.dropWhile isSpace).reverse = text := by
    rw [dropWhile_digits h,dropWhile_digits hreverse,List.reverse_reverse]
  have hsign := @readOptional_digits text [unit '+',unit '-'] h (by decide)
  have hinfinity : text ≠ ofString "Infinity" := by
    rintro rfl
    revert h
    decide
  have hdecimal : isDecimal text = true := by
    unfold isDecimal
    rw [span_digits h]
    cases text with
    | nil => exact absurd rfl hnonempty
    | cons u rest => rfl
  have hliteral : ofLiteral text = ofRatio false (ofDigits text) 1 := by
    have hminus := @readOptional_digits text [unit '-'] h (by decide)
    have hvalue : digitsValue text = ofDigits text := rfl
    unfold ofLiteral
    rw [hminus]
    dsimp only
    rw [span_digits h]
    change (if digitsValue (text++[]) = 0 then ofRatio false 0 1
      else ofRatio false (digitsValue (text++[])*10^0) (10^0)) = _
    rw [List.append_nil,hvalue,pow_zero,Nat.mul_one]
    split
    · rename_i hzero
      rw [hzero]
    · rfl
  unfold ofText
  dsimp only
  rw [htrimmed,hsign]
  dsimp only
  rw [if_neg hnonempty,if_neg hinfinity]
  split
  · exact absurd h (second_digit rfl)
  · exact absurd h (second_digit rfl)
  · exact absurd h (second_digit rfl)
  · exact absurd h (second_digit rfl)
  · exact absurd h (second_digit rfl)
  · exact absurd h (second_digit rfl)
  · rw [hdecimal,if_pos rfl]
    exact hliteral

end Digits

end JsNumber

namespace SignalRouting

open LegacyProjection TextSearch

/-- Index of a unit from a start on, if it is below a limit. -/
def indexBefore (text : JsString) (u : UInt16) (start limit : ℕ) : Option ℕ :=
  ((indexOf u (text.drop start)).map (start+·)).filter (· < limit)

/-- Where a part that starts somewhere ends: at the next unit below a limit, or there. -/
def endBefore (text : JsString) (u : UInt16) (start limit : ℕ) : ℕ := (indexBefore text u start limit).getD limit

/-- Part of a text between two indexes. -/
def slice (text : JsString) (start stop : ℕ) : JsString := (text.take stop).drop start

/-- A JID in its parts. -/
structure FullJid where
  /-- Behind the at sign. -/
  server : JsString
  /-- The user. -/
  user : JsString
  /-- Type of the domain. -/
  domainType : JsNumber
  /-- The device. -/
  device : Option JsNumber

/-- Type of the domain of a server, or the agent of a user. -/
def jidDomainType (server : JsString) (agent : Option JsString) : JsNumber :=
  if server = ofString "lid" then .ofRatio false 1 1
  else if server = ofString "hosted" then .ofRatio false 128 1
  else if server = ofString "hosted.lid" then .ofRatio false 129 1
  else
    match agent with
    | some agent => if agent = [] then .zero else .parseInt agent
    | none => .zero

/-- Read a JID; without an at sign there is none. -/
def jidDecode (jid : JsString) : Option FullJid :=
  match indexOf (unit '@') jid with
  | none => none
  | some sepIdx =>
    let server := jid.drop (sepIdx+1)
    let colonIdx := indexBefore jid (unit ':') 0 sepIdx
    let userAgentEnd := colonIdx.getD sepIdx
    let device := colonIdx.map fun colon => slice jid (colon+1) (endBefore jid (unit ':') (colon+1) sepIdx)
    let underscoreIdx := indexBefore jid (unit '_') 0 userAgentEnd
    let user := slice jid 0 (underscoreIdx.getD userAgentEnd)
    let agent := underscoreIdx.map fun underscore =>
      slice jid (underscore+1) (endBefore jid (unit '_') (underscore+1) userAgentEnd)
    some ⟨server,user,jidDomainType server agent,(device.filter (· ≠ [])).map .ofText⟩

/-- A device, or zero in place of none. -/
def deviceOrZero (device : Option JsNumber) : JsNumber :=
  match device with
  | some x => if x.isNaN ∨ x = .negativeZero then .zero else x
  | none => .zero

/-- Signal address of a JID. -/
def jidToSignalProtocolAddressCompat (jid : JsString) : Except StoreError JsString :=
  match jidDecode jid with
  | none => .error (.error ("JID decoded but user is empty: \""++shown jid++"\""))
  | some decoded =>
    if decoded.user = [] then .error (.error ("JID decoded but user is empty: \""++shown jid++"\""))
    else if decoded.device = some (.ofRatio false 99 1) ∧ decoded.server ≠ ofString "hosted" ∧
        decoded.server ≠ ofString "hosted.lid" then
      .error (.error ("Unexpected non-hosted device JID with device 99. This ID seems invalid. ID:"++shown jid))
    else
      let signalUser :=
        if decoded.domainType ≠ .zero ∧ decoded.domainType ≠ .negativeZero then
          decoded.user++unit '_'::decoded.domainType.text
        else decoded.user
      .ok (signalUser++unit '.'::(deviceOrZero decoded.device).text)

section Jids

variable {user device : ℕ} {server : JsString}

/-- A device behind a user, unless it is zero. -/
def devicePart (device : ℕ) : JsString := if device = 0 then [] else unit ':'::natText device

/-- JID of a device. -/
def deviceJid (user device : ℕ) (server : JsString) : JsString :=
  natText user++(devicePart device++unit '@'::server)

/-- The engine's native address of a device. -/
def deviceAddress (user device : ℕ) (server : JsString) : JsString :=
  natText user++(devicePart device++unit '@'::(server++[unit '.',unit '0']))

theorem notMem_natText (n : ℕ) {u : UInt16} (hu : Json.isDigit u = false) : u ∉ natText n := by
  intro hmem
  have hdigit := List.all_eq_true.mp (isDigit_natText n) u hmem
  rw [hu] at hdigit
  cases hdigit

/-- An index that is behind the limit does not count. -/
theorem indexBefore_none (front : JsString) {before after : JsString} {u : UInt16} (h : u ∉ before) :
    indexBefore (front++(before++after)) u front.length (front.length+before.length) = none := by
  unfold indexBefore
  rw [List.drop_left]
  cases hindex : indexOf u (before++after) with
  | none => rfl
  | some i =>
    obtain ⟨hwhole,_⟩ := indexOf_eq_some hindex
    have hle : before.length ≤ i := by
      by_contra hlt
      have hlength : i < (before++after).length := by
        rw [List.length_append]
        omega
      have hget : (before++after)[i]? = some u := by
        rw [hwhole,List.getElem?_append_right (by rw [List.length_take]; omega),List.length_take,
          Nat.min_eq_left hlength.le,Nat.sub_self]
        rfl
      rw [List.getElem?_append_left (by omega)] at hget
      exact h (List.mem_of_getElem? hget)
    rw [Option.map_some,Option.filter_some]
    have hno : ¬front.length+i < front.length+before.length := by omega
    simp only [hno,decide_false]
    rfl

theorem indexBefore_some {before after : JsString} {u : UInt16} (h : u ∉ before) {limit : ℕ}
    (hlimit : before.length < limit) : indexBefore (before++u::after) u 0 limit = some before.length := by
  unfold indexBefore
  rw [List.drop_zero,indexOf_append h,Option.map_some,Option.filter_some,Nat.zero_add,decide_eq_true hlimit]
  rfl

/-- The parts of a device's JID. -/
theorem jidDecode_device {user : JsString} (huser : unit '@' ∉ user) (hcolon : unit ':' ∉ user)
    (hscore : unit '_' ∉ user) (device : ℕ) (server : JsString) :
    jidDecode (user++(devicePart device++unit '@'::server)) = some ⟨server,user,jidDomainType server none,
      if device = 0 then none else some (.ofRatio false device 1)⟩ := by
  unfold devicePart
  by_cases hzero : device = 0
  · rw [if_pos hzero,if_pos hzero,List.nil_append]
    have hserver : (user++unit '@'::server).drop ((user).length+1) = server := drop_behind _ _ _
    have hnone := @indexBefore_none [] (user) (unit '@'::server) (unit ':') hcolon
    have hagent := @indexBefore_none [] (user) (unit '@'::server) (unit '_') hscore
    rw [List.nil_append,List.length_nil,Nat.zero_add] at hnone hagent
    have hpart : slice (user++unit '@'::server) 0 (user).length = user := by
      rw [slice,List.take_left]
      rfl
    rw [jidDecode,indexOf_append huser]
    dsimp only
    rw [hnone,Option.getD_none,hagent,Option.getD_none,hpart,hserver]
    rfl
  · rw [if_neg hzero,if_neg hzero]
    have hat : unit '@' ∉ user++unit ':'::natText device := by
      rw [List.mem_append,List.mem_cons]
      rintro (hno | hno | hno)
      · exact huser hno
      · exact absurd hno (by decide)
      · exact notMem_natText device (by decide) hno
    have hwhole : user++((unit ':'::natText device)++unit '@'::server) =
        (user++unit ':'::natText device)++unit '@'::server := by rw [List.append_assoc]
    have hfront : user++((unit ':'::natText device)++unit '@'::server) =
        (user++[unit ':'])++(natText device++unit '@'::server) := by
      rw [List.append_assoc]
      rfl
    have hlength : (user++unit ':'::natText device).length =
        (user).length+1+(natText device).length := by
      rw [List.length_append,List.length_cons]
      omega
    have hfrontLength : (user++[unit ':']).length = (user).length+1 := List.length_append
    have hserver : (user++((unit ':'::natText device)++unit '@'::server)).drop
        ((user++unit ':'::natText device).length+1) = server := by
      rw [hwhole,←List.drop_drop,List.drop_left]
      rfl
    have hindex : indexBefore (user++((unit ':'::natText device)++unit '@'::server)) (unit ':') 0
        (user++unit ':'::natText device).length = some (user).length :=
      indexBefore_some hcolon (by omega)
    have hend : indexBefore (user++((unit ':'::natText device)++unit '@'::server)) (unit ':')
        ((user).length+1) (user++unit ':'::natText device).length = none := by
      have hnone := @indexBefore_none (user++[unit ':']) (natText device) (unit '@'::server) (unit ':')
        (notMem_natText device (by decide))
      rw [hfrontLength] at hnone
      rw [hfront,hlength]
      exact hnone
    have hagent := @indexBefore_none [] (user) ((unit ':'::natText device)++unit '@'::server) (unit '_') hscore
    rw [List.nil_append,List.length_nil,Nat.zero_add] at hagent
    have hpart : slice (user++((unit ':'::natText device)++unit '@'::server)) 0 (user).length =
        user := by
      rw [slice,List.take_left]
      rfl
    have hdevice : slice (user++((unit ':'::natText device)++unit '@'::server)) ((user).length+1)
        (user++unit ':'::natText device).length = natText device := by
      rw [slice,hwhole,List.take_left,←List.drop_drop,List.drop_left]
      rfl
    have hnonempty : natText device ≠ [] := by
      obtain ⟨u,rest,heq,_⟩ := natText_head device
      rw [heq]
      exact List.cons_ne_nil u rest
    have hnumber : JsNumber.ofText (natText device) = .ofRatio false device 1 := by
      rw [JsNumber.ofText_digits hnonempty (isDigit_natText device),ofDigits_natText]
    have hkept : (some (natText device)).filter (· ≠ []) = some (natText device) := by
      rw [Option.filter_some,decide_eq_true hnonempty]
      rfl
    rw [hwhole] at hserver
    rw [jidDecode,hwhole,indexOf_append hat]
    dsimp only
    rw [hserver,←hwhole,hindex,Option.getD_some,hagent,Option.getD_none,hpart,Option.map_some,endBefore,hend,
      Option.getD_none,hdevice,hkept,Option.map_some,hnumber]
    rfl

theorem jidDecode_deviceJid (user device : ℕ) (server : JsString) :
    jidDecode (deviceJid user device server) = some ⟨server,natText user,jidDomainType server none,
      if device = 0 then none else some (.ofRatio false device 1)⟩ :=
  jidDecode_device (notMem_natText user (by decide)) (notMem_natText user (by decide))
    (notMem_natText user (by decide)) device server

/-- Type of a server's domain. -/
theorem jidDomainType_server {n : ℕ} (h : (server,n) ∈ domainTypes) :
    jidDomainType server none = .ofRatio false n 1 ∧ domainTypeOf server = some (.number n) ∧ unit '@' ∉ server ∧
      n < 2^53 := by
  have hall : ∀ entry ∈ domainTypes, jidDomainType entry.1 none = .ofRatio false entry.2 1 ∧
      domainTypeOf entry.1 = some (.number entry.2) ∧ unit '@' ∉ entry.1 ∧ entry.2 < 2^53 := by decide
  exact hall _ h

/-- The public address of a device's JID, whatever the user. -/
theorem jidToSignalProtocolAddressCompat_deviceJid {n : ℕ} (user : ℕ) (hserver : (server,n) ∈ domainTypes)
    (hdevice : device < 2^53) (hhosted : device = 99 → server = ofString "hosted" ∨ server = ofString "hosted.lid") :
    jidToSignalProtocolAddressCompat (deviceJid user device server) =
      .ok (signalUser (natText user) (.number n)++unit '.'::natText device) := by
  obtain ⟨htype,_,_,hn⟩ := jidDomainType_server hserver
  have huser : natText user ≠ [] := by
    obtain ⟨u,rest,heq,_⟩ := natText_head user
    rw [heq]
    exact List.cons_ne_nil u rest
  have hallowed : ¬((if device = 0 then none else some (JsNumber.ofRatio false device 1)) =
      some (JsNumber.ofRatio false 99 1) ∧ server ≠ ofString "hosted" ∧ server ≠ ofString "hosted.lid") := by
    rintro ⟨hsame,hone,htwo⟩
    split at hsame
    · cases hsame
    · rename_i hzero
      have heq := @JsNumber.eq_of_ofRatio 99 device 0 0 (by omega) (by omega) hzero
      rw [pow_zero,Nat.mul_one,Nat.mul_one] at heq
      exact (hhosted (heq (Option.some.inj hsame))).elim hone htwo
  have htext : (deviceOrZero (if device = 0 then none else some (JsNumber.ofRatio false device 1))).text =
      natText device := by
    by_cases hzero : device = 0
    · rw [if_pos hzero,hzero]
      decide
    · obtain ⟨hfinite,_,_,hnegative⟩ := JsNumber.isFinite_ofRatio hzero hdevice
      have hnumber : ¬((JsNumber.ofRatio false device 1).isNaN = true ∨
          JsNumber.ofRatio false device 1 = .negativeZero) := by
        unfold JsNumber.isNaN
        rw [hfinite]
        exact fun hno => hno.elim (fun hno => nomatch hno) hnegative
      rw [if_neg hzero,deviceOrZero,if_neg hnumber,JsNumber.text_ofRatio hdevice]
  have hsignal : (if JsNumber.ofRatio false n 1 ≠ .zero ∧ JsNumber.ofRatio false n 1 ≠ .negativeZero then
      natText user++unit '_'::(JsNumber.ofRatio false n 1).text else natText user) =
      signalUser (natText user) (.number n) := by
    rw [signalUser_number]
    by_cases hzero : n = 0
    · rw [if_pos hzero,hzero]
      rfl
    · obtain ⟨_,_,hpositive,hnegative⟩ := JsNumber.isFinite_ofRatio hzero hn
      rw [if_neg hzero,if_pos ⟨hpositive,hnegative⟩,JsNumber.text_ofRatio hn]
  rw [jidToSignalProtocolAddressCompat,jidDecode_deviceJid]
  dsimp only
  rw [if_neg huser,if_neg hallowed,htype,hsignal,htext]

/-- The native address of a device has its three parts. -/
theorem protocolAddress_deviceAddress {n : ℕ} (hserver : (server,n) ∈ domainTypes) (huser : user < 2^53)
    (hdevice : device < 2^53) : protocolAddress (deviceAddress user device server) =
      some ⟨natText user,.number n,natText device⟩ := by
  obtain ⟨_,hdomain,hat,_⟩ := jidDomainType_server hserver
  have hpart : devicePart device = jidDevice (natText device) := by
    unfold devicePart jidDevice
    by_cases hzero : device = 0
    · rw [if_pos hzero,hzero]
      rfl
    · have hne : natText device ≠ [unit '0'] := by
        intro heq
        have hvalue := ofDigits_natText device
        rw [heq] at hvalue
        exact hzero hvalue.symm
      rw [if_neg hzero,if_neg hne]
  rw [protocolAddress,deviceAddress,hpart,
    parseBridgeSignalAddress_native hdomain hat (decimal_natText huser) (decimal_natText hdevice)]

theorem natText_injective {m n : ℕ} (h : natText m = natText n) : m = n := by
  rw [←ofDigits_natText m,h,ofDigits_natText]

end Jids

/-- For every user and device that are safe integers and every domain, the legacy
key of the native address is the public address of the JID; and native addresses
share a legacy key exactly when they denote one device. -/
theorem signal_addresses_agree :
    (∀ (user device n : ℕ) (server : JsString), (server,n) ∈ domainTypes → user < 2^53 → device < 2^53 →
      (device = 99 → server = ofString "hosted" ∨ server = ofString "hosted.lid") →
      ∃ key, legacyKey .session (deviceAddress user device server) = .ok key ∧
        jidToSignalProtocolAddressCompat (deviceJid user device server) = .ok key) ∧
    ∀ (first second : JsString) (user other n m device last : ℕ),
      protocolAddress first = some ⟨natText user,.number n,natText device⟩ →
      protocolAddress second = some ⟨natText other,.number m,natText last⟩ →
      (legacyKey .session first = legacyKey .session second ↔ user = other ∧ n = m ∧ device = last) := by
  refine ⟨fun user device n server hserver huser hdevice hhosted => ?_,
    fun first second user other n m device last hfirst hsecond => ?_⟩
  · obtain ⟨_,_,_,hlegacy,_⟩ := protocolAddress_round_trip (protocolAddress_deviceAddress hserver huser hdevice)
    exact ⟨_,hlegacy,jidToSignalProtocolAddressCompat_deviceJid user hserver hdevice hhosted⟩
  · obtain ⟨_,_,_,hone,native,hnative,hback⟩ := protocolAddress_round_trip hfirst
    obtain ⟨_,_,_,htwo,others,hothers,hagain⟩ := protocolAddress_round_trip hsecond
    change legacySignalAddress first = legacySignalAddress second ↔ _
    rw [hone,htwo]
    constructor
    · intro heq
      rw [Except.ok.inj heq,hothers] at hnative
      rw [←Except.ok.inj hnative,hagain] at hback
      have hsame := Option.some.inj hback
      rw [ParsedSignalAddress.mk.injEq,DomainType.number.injEq] at hsame
      obtain ⟨huser,htype,hdevice⟩ := hsame
      exact ⟨(natText_injective huser).symm,htype.symm,(natText_injective hdevice).symm⟩
    · rintro ⟨rfl,rfl,rfl⟩
      rfl

/-- A hosted companion has one address under both names. -/
theorem signal_addresses_agree_hosted :
    ∃ key, legacyKey .session (deviceAddress 5511900000001 99 (ofString "hosted.lid")) = .ok key ∧
      jidToSignalProtocolAddressCompat (deviceJid 5511900000001 99 (ofString "hosted.lid")) = .ok key :=
  signal_addresses_agree.1 5511900000001 99 129 (ofString "hosted.lid") (by decide) (by omega) (by omega)
    fun _ => .inr rfl

/-- The legacy stores refuse the native address of a user beyond the safe integers,
whose JID has a public address. -/
theorem signal_addresses_disagree :
    legacyKey .session (deviceAddress (2^53) 0 (ofString "lid")) =
        .error (.rangeError "Signal user is outside the safe integer range") ∧
      jidToSignalProtocolAddressCompat (deviceJid (2^53) 0 (ofString "lid")) =
        .ok (signalUser (natText (2^53)) (.number 1)++unit '.'::natText 0) :=
  ⟨by decide,jidToSignalProtocolAddressCompat_deviceJid (2^53) (by decide) (by omega) (by omega)⟩

end SignalRouting

end Baileyrs
