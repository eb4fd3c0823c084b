import Baileyrs.SignalRouting
import Baileyrs.TokenRowText

/-!
# Native keys come back from the legacy stores

A native Signal address is read into its user, domain type and device, and any
address with the same three has the same legacy key. The way back writes the
device into the user's part, so a key changes its spelling at most once.
-/

namespace Baileyrs.SignalRouting

open JsString AtomicStore LegacyProjection TextSearch

section Decimals

/-- Decimal digits of a safe integer. -/
structure Decimal (text : JsString) : Prop where
  /-- At least one. -/
  nonempty : text ≠ []
  /-- Digits only. -/
  digits : text.all Json.isDigit = true
  /-- Not too large. -/
  safe : ofDigits text < 2^53

variable {text : JsString}

theorem Decimal.parse (h : Decimal text) (label : String) : parseUnsignedDecimal text label = .ok (ofDigits text) := by
  have hshape : ¬(text = [] ∨ text.all Json.isDigit = false) := by
    rw [h.digits]
    exact fun hno => hno.elim h.nonempty (fun hno => nomatch hno)
  rw [parseUnsignedDecimal,if_neg hshape,if_pos h.safe]

theorem decimal_of_parse {label : String} {n : ℕ} (h : parseUnsignedDecimal text label = .ok n) : Decimal text := by
  unfold parseUnsignedDecimal at h
  split at h
  · cases h
  · rename_i hshape
    split at h
    · rename_i hsafe
      have hdigits : text.all Json.isDigit = true := by
        rw [←Bool.not_eq_false]
        exact fun hno => hshape (.inr hno)
      exact ⟨fun hno => hshape (.inl hno),hdigits,hsafe⟩
    · cases h

/-- Only digits are among them. -/
theorem Decimal.notMem (h : Decimal text) {u : UInt16} (hu : Json.isDigit u = false) : u ∉ text := by
  intro hmem
  have hdigit := List.all_eq_true.mp h.digits u hmem
  rw [hu] at hdigit
  cases hdigit

theorem decimal_natText {n : ℕ} (h : n < 2^53) : Decimal (natText n) := by
  refine ⟨fun hno => ?_,isDigit_natText n,?_⟩
  · obtain ⟨u,rest,heq,_⟩ := natText_head n
    rw [hno] at heq
    cases heq
  · rw [ofDigits_natText]
    exact h

end Decimals

section Parts

variable {address user device signal domain : JsString}

/-- A text with both separators is read in its parts. -/
theorem parseBridgeSignalAddress_eq (huser : user ≠ []) (hdomain : unit '@' ∉ domain) (hsignal : unit '.' ∉ signal) :
    parseBridgeSignalAddress (user++unit '@'::(domain++unit '.'::signal)) =
      parseParts (user++unit '@'::(domain++unit '.'::signal)) user domain signal := by
  have hwhole : user++unit '@'::(domain++unit '.'::signal) = (user++unit '@'::domain)++unit '.'::signal := by
    rw [List.append_assoc,List.cons_append]
  have hdot : lastIndexOf (unit '.') (user++unit '@'::(domain++unit '.'::signal)) =
      some (user++unit '@'::domain).length := by
    rw [hwhole]
    exact lastIndexOf_append _ hsignal
  have hfront : (user++unit '@'::(domain++unit '.'::signal)).take ((user++unit '@'::domain).length+1) =
      user++unit '@'::(domain++[unit '.']) := by
    have hlonger : user++unit '@'::(domain++unit '.'::signal) = ((user++unit '@'::domain)++[unit '.'])++signal := by
      simp only [List.append_assoc,List.cons_append,List.nil_append]
    have hlength : (user++unit '@'::domain).length+1 = ((user++unit '@'::domain)++[unit '.']).length :=
      (@List.length_append _ (user++unit '@'::domain) [unit '.']).symm
    rw [hlonger,hlength,List.take_left,List.append_assoc]
    rfl
  have hat : unit '@' ∉ domain++[unit '.'] := by
    rw [List.mem_append,List.mem_singleton]
    exact fun hno => hno.elim hdomain (by decide)
  have hpositive : user.length ≠ 0 := fun hno => huser (List.length_eq_zero_iff.mp hno)
  have hdomainPart : ((user++unit '@'::(domain++unit '.'::signal)).take (user++unit '@'::domain).length).drop
      (user.length+1) = domain := by
    rw [hwhole,List.take_left,←List.drop_drop,List.drop_left]
    rfl
  have hsignalPart : (user++unit '@'::(domain++unit '.'::signal)).drop ((user++unit '@'::domain).length+1) = signal := by
    rw [hwhole,←List.drop_drop,List.drop_left]
    rfl
  rw [parseBridgeSignalAddress,hdot]
  dsimp only
  rw [hfront,lastIndexOf_append user hat]
  dsimp only
  rw [if_neg hpositive,hdomainPart,hsignalPart,List.take_left]

/-- What is read has both separators. -/
theorem parseBridgeSignalAddress_parts {parsed : ParsedSignalAddress}
    (h : parseBridgeSignalAddress address = .ok parsed) :
    ∃ user domain signal, parseParts address user domain signal = .ok parsed := by
  unfold parseBridgeSignalAddress at h
  split at h
  · cases h
  · split at h
    · cases h
    · split at h
      · cases h
      · exact ⟨_,_,_,h⟩

/-- Parts that are read are decimals under a known domain. -/
theorem parseParts_ok {parsed : ParsedSignalAddress} (h : parseParts address user domain signal = .ok parsed) :
    domainTypeOf domain = some parsed.domainType ∧ Decimal parsed.user ∧ Decimal parsed.device := by
  unfold parseParts at h
  cases htype : domainTypeOf domain with
  | none =>
    rw [htype] at h
    cases h
  | some domainType =>
    rw [htype] at h
    obtain ⟨_,hsignal,h⟩ := bind_ok h
    generalize userAndDevice user = named at h
    obtain ⟨name,inner⟩ := named
    obtain ⟨_,huser,h⟩ := bind_ok h
    cases inner with
    | none =>
      cases h
      exact ⟨rfl,decimal_of_parse huser,decimal_of_parse hsignal⟩
    | some device =>
      obtain ⟨_,hjid,h⟩ := bind_ok h
      cases h
      exact ⟨rfl,decimal_of_parse huser,decimal_of_parse hjid⟩

/-- A user with a device in front of the domain. -/
theorem userAndDevice_device (user : JsString) (hdevice : Decimal device) :
    userAndDevice (user++unit ':'::device) = (user,some device) := by
  have hfirst : (user++unit ':'::device).drop (user.length+1) = device := drop_behind _ _ _
  rw [userAndDevice,lastIndexOf_append user (hdevice.notMem (by decide))]
  dsimp only
  rw [List.take_left,hfirst]

theorem userAndDevice_plain (huser : Decimal user) : userAndDevice user = (user,none) := by
  rw [userAndDevice,lastIndexOf_eq_none.mpr (huser.notMem (by decide))]

theorem decimal_zero : Decimal [unit '0'] := ⟨by decide,by decide,by decide⟩

/-- The parts of a user with its device. -/
theorem parseParts_user {domainType : DomainType} (htype : domainTypeOf domain = some domainType)
    (huser : Decimal user) (hsignal : Decimal signal) :
    parseParts address user domain signal = .ok ⟨user,domainType,signal⟩ := by
  rw [parseParts,htype]
  dsimp only
  rw [hsignal.parse,userAndDevice_plain huser]
  change (do
    let _ ← parseUnsignedDecimal user "Signal user"
    return (⟨user,domainType,signal⟩ : ParsedSignalAddress)) = _
  rw [huser.parse]
  rfl

theorem parseParts_device {domainType : DomainType} (htype : domainTypeOf domain = some domainType)
    (huser : Decimal user) (hdevice : Decimal device) (hsignal : Decimal signal) :
    parseParts address (user++unit ':'::device) domain signal = .ok ⟨user,domainType,device⟩ := by
  rw [parseParts,htype]
  dsimp only
  rw [hsignal.parse,userAndDevice_device user hdevice]
  change (do
    let _ ← parseUnsignedDecimal user "Signal user"
    let _ ← parseUnsignedDecimal device "JID device"
    return (⟨user,domainType,device⟩ : ParsedSignalAddress)) = _
  rw [huser.parse,hdevice.parse]
  rfl

/-- Reading what the way back writes. -/
theorem parseBridgeSignalAddress_native {domainType : DomainType} (htype : domainTypeOf domain = some domainType)
    (hdomain : unit '@' ∉ domain) (huser : Decimal user) (hdevice : Decimal device) :
    parseBridgeSignalAddress (user++(jidDevice device++unit '@'::(domain++[unit '.',unit '0']))) =
      .ok ⟨user,domainType,device⟩ := by
  have hzero : unit '.' ∉ [unit '0'] := by decide
  unfold jidDevice
  split
  · rename_i hdevice
    rw [List.nil_append,parseBridgeSignalAddress_eq huser.nonempty hdomain hzero,parseParts_user htype huser decimal_zero,
      hdevice]
  · have hwhole : user++((unit ':'::device)++unit '@'::(domain++[unit '.',unit '0'])) =
        (user++unit ':'::device)++unit '@'::(domain++unit '.'::[unit '0']) := by rw [List.append_assoc]
    rw [hwhole,parseBridgeSignalAddress_eq (by simp) hdomain hzero,parseParts_device htype huser hdevice decimal_zero]

/-- Every domain type has a domain. -/
theorem nativeDomain_spec {n : ℕ} (h : domainTypeOf domain = some (.number n)) :
    ∃ native, InsertionMap.find nativeDomains n = some native ∧ domainTypeOf native = some (.number n) ∧
      unit '@' ∉ native ∧ n < 2^53 := by
  have hall : ∀ entry ∈ domainTypes, ∃ entry' ∈ nativeDomains, InsertionMap.find nativeDomains entry.2 =
      some entry'.2 ∧ domainTypeOf entry'.2 = some (.number entry.2) ∧ unit '@' ∉ entry'.2 ∧ entry.2 < 2^53 := by
    decide
  have hdistinct : (domainTypes.map Prod.fst).Nodup := by decide
  unfold domainTypeOf at h
  cases hfind : InsertionMap.find domainTypes domain with
  | none =>
    rw [hfind] at h
    dsimp only at h
    split at h
    · cases h
    · obtain ⟨_,_,hno⟩ := Option.map_eq_some_iff.mp h
      cases hno
  | some m =>
    rw [hfind] at h
    cases h
    obtain ⟨entry,_,hspec⟩ := hall _ ((InsertionMap.find_eq_some_iff hdistinct).mp hfind)
    exact ⟨entry.2,hspec⟩

theorem signalUser_number (user : JsString) (n : ℕ) :
    signalUser user (.number n) = if n = 0 then user else user++unit '_'::natText n := rfl

/-- A known domain type has a native address. -/
theorem nativeAddressOf_eq {n : ℕ} {native : JsString} (huser : Decimal user) (hn : n < 2^53)
    (hnative : InsertionMap.find nativeDomains n = some native) :
    nativeAddressOf user device (if n = 0 then none else some (natText n)) =
      .ok (user++(jidDevice device++unit '@'::(native++[unit '.',unit '0']))) := by
  have htype : legacyDomainType (if n = 0 then none else some (natText n)) = .ok n := by
    by_cases hzero : n = 0
    · rw [if_pos hzero,hzero]
      rfl
    · rw [if_neg hzero,legacyDomainType,(decimal_natText hn).parse,ofDigits_natText]
  unfold nativeAddressOf
  rw [htype,huser.parse]
  simp only [bind,Except.bind,hnative]
  rfl

/-- The way back from a legacy key. -/
theorem nativeSignalAddress_eq {n : ℕ} {native : JsString} (huser : Decimal user) (hdevice : Decimal device)
    (hn : n < 2^53) (hnative : InsertionMap.find nativeDomains n = some native) :
    nativeSignalAddress (signalUser user (.number n)++unit '.'::device) =
      .ok (user++(jidDevice device++unit '@'::(native++[unit '.',unit '0']))) := by
  have hlength : (signalUser user (.number n)).length ≠ 0 := by
    have hpositive : user.length ≠ 0 := fun hno => huser.nonempty (List.length_eq_zero_iff.mp hno)
    rw [signalUser_number]
    split
    · exact hpositive
    · rw [List.length_append]
      omega
  have hdevicePart : (signalUser user (.number n)++unit '.'::device).drop ((signalUser user (.number n)).length+1) =
      device := drop_behind _ _ _
  rw [nativeSignalAddress,lastIndexOf_append _ (hdevice.notMem (by decide))]
  dsimp only
  rw [if_neg hlength,hdevicePart,List.take_left,hdevice.parse]
  have hdomain : userAndDomain (signalUser user (.number n)) = (user,if n = 0 then none else some (natText n)) := by
    rw [signalUser_number]
    by_cases hzero : n = 0
    · rw [if_pos hzero,if_pos hzero,userAndDomain,lastIndexOf_eq_none.mpr (huser.notMem (by decide))]
    · have hdigits := (decimal_natText hn).notMem (u := unit '_') (by decide)
      obtain ⟨i,hi⟩ := Nat.exists_eq_succ_of_ne_zero (fun hno => huser.nonempty (List.length_eq_zero_iff.mp hno))
      have hrest : (user++unit '_'::natText n).drop (user.length+1) = natText n := drop_behind _ _ _
      have htake : (user++unit '_'::natText n).take (i+1) = user := by
        rw [←Nat.succ_eq_add_one,←hi,List.take_left]
      rw [hi,Nat.succ_eq_add_one] at hrest
      rw [if_neg hzero,if_neg hzero,userAndDomain,lastIndexOf_append user hdigits,hi]
      dsimp only
      rw [htake,hrest]
  rw [hdomain]
  exact nativeAddressOf_eq huser hn hnative

end Parts

/-- Signal address that a native key denotes: one whose domain has a type. -/
def protocolAddress (address : JsString) : Option ParsedSignalAddress :=
  match parseBridgeSignalAddress address with
  | .ok parsed =>
    match parsed.domainType with
    | .number _ => some parsed
    | .inherited _ => none
  | .error _ => none

/-- An address has a legacy key, which leads back to a spelling of the address. -/
theorem protocolAddress_round_trip {address : JsString} {parsed : ParsedSignalAddress}
    (h : protocolAddress address = some parsed) :
    Decimal parsed.device ∧ unit ':' ∉ signalUser parsed.user parsed.domainType ∧
      signalUser parsed.user parsed.domainType ≠ [] ∧
      legacySignalAddress address = .ok (signalUser parsed.user parsed.domainType++unit '.'::parsed.device) ∧
      ∃ native, nativeSignalAddress (signalUser parsed.user parsed.domainType++unit '.'::parsed.device) = .ok native ∧
        protocolAddress native = some parsed := by
  unfold protocolAddress at h
  cases hparse : parseBridgeSignalAddress address with
  | error problem =>
    rw [hparse] at h
    cases h
  | ok read =>
    rw [hparse] at h
    dsimp only at h
    split at h
    · rename_i n htype
      cases h
      obtain ⟨_,domain,_,hparts⟩ := parseBridgeSignalAddress_parts hparse
      obtain ⟨hdomain,huser,hdevice⟩ := parseParts_ok hparts
      rw [htype] at hdomain
      obtain ⟨native,hfind,hnative,hat,hn⟩ := nativeDomain_spec hdomain
      have hcolon : unit ':' ∉ signalUser parsed.user parsed.domainType := by
        rw [htype,signalUser_number]
        split
        · exact huser.notMem (by decide)
        · rw [List.mem_append,List.mem_cons]
          rintro (hno | hno | hno)
          · exact huser.notMem (by decide) hno
          · exact absurd hno (by decide)
          · exact (decimal_natText hn).notMem (by decide) hno
      have hnonempty : signalUser parsed.user parsed.domainType ≠ [] := by
        rw [htype,signalUser_number]
        split
        · exact huser.nonempty
        · exact List.append_ne_nil_of_left_ne_nil huser.nonempty _
      refine ⟨hdevice,hcolon,hnonempty,?_,
        parsed.user++(jidDevice parsed.device++unit '@'::(native++[unit '.',unit '0'])),?_,?_⟩
      · rw [legacySignalAddress,hparse]
        rfl
      · rw [htype]
        exact nativeSignalAddress_eq huser hdevice hn hfind
      · rw [protocolAddress,parseBridgeSignalAddress_native hnative hat huser hdevice]
        dsimp only
        rw [←htype]
    · cases h

section Chats

variable {chat : JsString}

/-- A chat has two halves without colons. -/
theorem isChatJid_parts (h : isChatJid chat = true) :
    ∃ name server, chat = name++unit '@'::server ∧ unit '@' ∉ name ∧ unit ':' ∉ name ∧ unit ':' ∉ server := by
  unfold isChatJid at h
  split at h
  · cases h
  · rename_i i hindex
    obtain ⟨hwhole,hnew⟩ := indexOf_eq_some hindex
    simp only [Bool.and_eq_true] at h
    obtain ⟨⟨⟨_,hname⟩,_⟩,hserver⟩ := h
    have hcolon : isChatUnit (unit ':') = false := by decide
    have hfree : ∀ text : JsString, text.all isChatUnit = true → unit ':' ∉ text := by
      intro text hall hmem
      have hunit := List.all_eq_true.mp hall _ hmem
      rw [hcolon] at hunit
      cases hunit
    exact ⟨_,_,hwhole,hnew,hfree _ hname,hfree _ hserver⟩

theorem colon_notMem_chat (h : isChatJid chat = true) : unit ':' ∉ chat := by
  obtain ⟨name,server,rfl,_,hname,hserver⟩ := isChatJid_parts h
  rw [List.mem_append,List.mem_cons]
  rintro (hno | hno | hno)
  · exact hname hno
  · exact absurd hno (by decide)
  · exact hserver hno

/-- The chat of a sender key ends where the address starts. -/
theorem chatEnd_append (h : isChatJid chat = true) (rest : JsString) :
    chatEnd (chat++unit ':'::rest) = some chat.length := by
  obtain ⟨name,server,rfl,hat,_,hserver⟩ := isChatJid_parts h
  have hwhole : (name++unit '@'::server)++unit ':'::rest = name++unit '@'::(server++unit ':'::rest) := by
    rw [List.append_assoc,List.cons_append]
  have hcolon : unit ':' ∉ unit '@'::server := by
    rw [List.mem_cons]
    exact fun hno => hno.elim (by decide) hserver
  rw [chatEnd,hwhole,indexOf_append hat,Option.bind_some,List.drop_left,←List.cons_append,indexOf_append hcolon,
    Option.map_some,List.length_append]

end Chats

/-- What a native key of a projected store stands for. -/
inductive KeyMeaning where
  | address (address : ParsedSignalAddress)
  | senderKey (chat : JsString) (address : ParsedSignalAddress)
  | syncKey (id : Bytes)
  | lidMapping (direction : Direction) (user : JsString)
  | plain (key : JsString)
  deriving DecidableEq

/-- Chat and address of a native sender key. -/
def senderKeyMeaning (key : JsString) : Option KeyMeaning :=
  (chatEnd key).bind fun i =>
    if isChatJid (key.take i) then (protocolAddress (key.drop (i+1))).map (.senderKey (key.take i)) else none

/-- What a native key stands for; none for a key that stands for nothing. -/
def keyMeaning (store : ProjectedStore) (key : JsString) : Option KeyMeaning :=
  match store with
  | .identity => (protocolAddress key).map .address
  | .session => (protocolAddress key).map .address
  | .senderKey => senderKeyMeaning key
  | .syncKey => if isHexadecimal key then some (.syncKey (bytesOfHex key)) else none
  | .lidMapping =>
    match parseLidMappingKey key with
    | .ok mapping => some (.lidMapping mapping.1 mapping.2)
    | .error _ => none
  | _ => some (.plain key)

/-- A key has a legacy key, which leads back to a key of the same meaning. -/
def ComesBack (store : ProjectedStore) (key : JsString) (meaning : KeyMeaning) : Prop :=
  ∃ legacy native, legacyKey store key = .ok legacy ∧ nativeKey store legacy = .ok native ∧
    keyMeaning store native = some meaning ∧ legacyKey store native = .ok legacy

theorem comesBack_address {store : ProjectedStore} (hstore : store = .identity ∨ store = .session) {key : JsString}
    {meaning : KeyMeaning} (h : keyMeaning store key = some meaning) : ComesBack store key meaning := by
  have hkeys : ∀ key, keyMeaning store key = (protocolAddress key).map .address ∧
      legacyKey store key = legacySignalAddress key ∧ nativeKey store key = nativeSignalAddress key := by
    intro key
    rcases hstore with rfl | rfl
    · exact ⟨rfl,rfl,rfl⟩
    · exact ⟨rfl,rfl,rfl⟩
  rw [(hkeys key).1] at h
  obtain ⟨parsed,hparsed,rfl⟩ := Option.map_eq_some_iff.mp h
  obtain ⟨_,_,_,hlegacy,native,hnative,hback⟩ := protocolAddress_round_trip hparsed
  obtain ⟨_,_,_,hagain,_⟩ := protocolAddress_round_trip hback
  refine ⟨_,native,(hkeys key).2.1.trans hlegacy,(hkeys _).2.2.trans hnative,?_,(hkeys native).2.1.trans hagain⟩
  rw [(hkeys native).1,hback]
  rfl

/-- Legacy key of a sender key whose chat and address were found. -/
theorem legacySenderKey_eq {chat rest user device : JsString} (hchat : isChatJid chat = true)
    (hdevice : unit '.' ∉ device) (haddress : legacySignalAddress rest = .ok (user++unit '.'::device)) :
    legacySenderKey (chat++unit ':'::rest) = .ok (chat++(senderKeyPart++(user++(senderKeyPart++device)))) := by
  have hrest : (chat++unit ':'::rest).drop (chat.length+1) = rest := drop_behind _ _ _
  have hparts : deviceParts (user++unit '.'::device) = (user,device) := by
    have hafter : (user++unit '.'::device).drop (user.length+1) = device := drop_behind _ _ _
    rw [deviceParts,lastIndexOf_append user hdevice]
    dsimp only
    rw [List.take_left,hafter]
  rw [legacySenderKey,chatEnd_append hchat]
  dsimp only
  rw [List.take_left,if_pos hchat,hrest,haddress]
  simp only [bind,Except.bind,hparts]
  rfl

theorem comesBack_senderKey {key : JsString} {meaning : KeyMeaning}
    (h : keyMeaning .senderKey key = some meaning) : ComesBack .senderKey key meaning := by
  change senderKeyMeaning key = some meaning at h
  unfold senderKeyMeaning at h
  obtain ⟨i,hend,hmeaning⟩ := Option.bind_eq_some_iff.mp h
  split at hmeaning
  · rename_i hchat
    obtain ⟨parsed,hparsed,rfl⟩ := Option.map_eq_some_iff.mp hmeaning
    have hkey : key = key.take i++unit ':'::key.drop (i+1) := by
      unfold chatEnd at hend
      obtain ⟨domain,_,hcolon⟩ := Option.bind_eq_some_iff.mp hend
      obtain ⟨j,hj,rfl⟩ := Option.map_eq_some_iff.mp hcolon
      obtain ⟨hwhole,_⟩ := indexOf_eq_some hj
      have hsplit := List.take_append_drop domain key
      rw [List.take_add,List.append_assoc,Nat.add_assoc,←List.drop_drop,←hwhole]
      exact hsplit.symm
    obtain ⟨hdevice,hcolon,hnonempty,hlegacy,native,hnative,hback⟩ := protocolAddress_round_trip hparsed
    obtain ⟨_,_,_,hagain,_⟩ := protocolAddress_round_trip hback
    have hdot := hdevice.notMem (u := unit '.') (by decide)
    have hfree := hdevice.notMem (u := unit ':') (by decide)
    have hsplit : splitOn senderKeyPart (key.take i++(senderKeyPart++(signalUser parsed.user parsed.domainType++
        (senderKeyPart++parsed.device)))) = [key.take i,signalUser parsed.user parsed.domainType,parsed.device] := by
      unfold senderKeyPart
      rw [splitOn_append (colon_notMem_chat hchat),splitOn_append hcolon,splitOn_single hfree]
    refine ⟨_,key.take i++unit ':'::native,?_,?_,?_,legacySenderKey_eq hchat hdot hagain⟩
    · have hone := legacySenderKey_eq hchat hdot hlegacy
      rw [←hkey] at hone
      exact hone
    · change nativeSenderKey _ = _
      rw [nativeSenderKey,hsplit]
      dsimp only
      rw [if_pos ⟨hchat,hnonempty,hdevice.nonempty⟩,hnative]
      rfl
    · have hrest : (key.take i++unit ':'::native).drop ((key.take i).length+1) = native := drop_behind _ _ _
      change senderKeyMeaning _ = _
      rw [senderKeyMeaning,chatEnd_append hchat,Option.bind_some,List.take_left,if_pos hchat,hrest,hback]
      rfl
  · cases hmeaning

/-- Digits of bytes are read back as the bytes. -/
theorem bytesOfHex_hexOfBytes (bytes : Bytes) :
    bytesOfHex (hexOfBytes bytes) = bytes ∧ (hexOfBytes bytes).length%2 = 0 ∧
      (hexOfBytes bytes).all (fun u => (Json.hexValue u).isSome) = true := by
  induction bytes with
  | nil => exact ⟨rfl,rfl,rfl⟩
  | cons b rest ih =>
    have hb := UInt8.toNat_lt b
    have hhigh := Json.hexValue_hexDigit (n := b.toNat/16) (by omega)
    have hlow := Json.hexValue_hexDigit (n := b.toNat%16) (by omega)
    have hcons : hexOfBytes (b::rest) =
        Json.hexDigit (b.toNat/16)::Json.hexDigit (b.toNat%16)::hexOfBytes rest := rfl
    have hbyte : (b.toNat/16*16+b.toNat%16).toUInt8 = b := Base64.toUInt8_eq (by omega)
    obtain ⟨hread,heven,hall⟩ := ih
    rw [hcons,bytesOfHex,hhigh,hlow]
    dsimp only
    rw [hread,hbyte,List.length_cons,List.length_cons,List.all_cons,List.all_cons,hhigh,hlow,hall]
    exact ⟨rfl,by omega,rfl⟩

theorem comesBack_syncKey {key : JsString} {meaning : KeyMeaning}
    (h : keyMeaning .syncKey key = some meaning) : ComesBack .syncKey key meaning := by
  change (if isHexadecimal key then some (KeyMeaning.syncKey (bytesOfHex key)) else none) = some meaning at h
  split at h
  · rename_i hhex
    cases h
    obtain ⟨hread,heven,hall⟩ := bytesOfHex_hexOfBytes (bytesOfHex key)
    have hnonempty : (hexOfBytes (bytesOfHex key)).isEmpty = false := by
      unfold isHexadecimal at hhex
      simp only [Bool.and_eq_true,Bool.not_eq_true',beq_iff_eq] at hhex
      obtain ⟨⟨hkey,hlength⟩,hdigits⟩ := hhex
      match key,hkey,hlength,hdigits with
      | a::b::rest,_,_,hdigits =>
        rw [List.all_cons,List.all_cons,Bool.and_eq_true,Bool.and_eq_true] at hdigits
        obtain ⟨high,hhigh⟩ := Option.isSome_iff_exists.mp hdigits.1
        obtain ⟨low,hlow⟩ := Option.isSome_iff_exists.mp hdigits.2.1
        rw [bytesOfHex,hhigh,hlow]
        rfl
    have hcanonical : isHexadecimal (hexOfBytes (bytesOfHex key)) = true := by
      rw [isHexadecimal,hnonempty,heven,hall]
      rfl
    refine ⟨Base64.encode (bytesOfHex key),hexOfBytes (bytesOfHex key),if_pos hhex,?_,?_,?_⟩
    · change Except.ok (hexOfBytes (Base64.decode _)) = _
      rw [Base64.decode_encode]
    · change (if isHexadecimal _ then some (KeyMeaning.syncKey (bytesOfHex _)) else none) = _
      rw [if_pos hcanonical,hread]
    · change (if isHexadecimal _ then Except.ok (Base64.encode (bytesOfHex _)) else _) = _
      rw [if_pos hcanonical,hread]
  · cases h

/-- Reading the key of a mapping. -/
theorem parseLidMappingKey_eq (direction : Direction) {user : JsString} (huser : Decimal user) :
    parseLidMappingKey (direction.name++unit ':'::user) = .ok (direction,user) := by
  have hname : unit ':' ∉ direction.name ∧ direction.name.length ≠ 0 := by
    cases direction with
    | _ => decide
  have hrest : (direction.name++unit ':'::user).drop (direction.name.length+1) = user := drop_behind _ _ _
  rw [parseLidMappingKey,indexOf_append hname.1]
  dsimp only
  rw [if_neg hname.2,hrest,List.take_left,huser.parse]
  cases direction with
  | _ => rfl

/-- A key of a mapping that is read is written again. -/
theorem parseLidMappingKey_ok {key user : JsString} {direction : Direction}
    (h : parseLidMappingKey key = .ok (direction,user)) : Decimal user := by
  unfold parseLidMappingKey at h
  split at h
  · cases h
  · split at h
    · cases h
    · obtain ⟨_,huser,h⟩ := bind_ok h
      split at h
      · cases h
        exact decimal_of_parse huser
      · split at h
        · cases h
          exact decimal_of_parse huser
        · cases h

theorem comesBack_lidMapping {key : JsString} {meaning : KeyMeaning}
    (h : keyMeaning .lidMapping key = some meaning) : ComesBack .lidMapping key meaning := by
  have hmeaning : ∀ key mapping, parseLidMappingKey key = .ok mapping →
      keyMeaning .lidMapping key = some (.lidMapping mapping.1 mapping.2) := by
    intro key mapping hread
    change (match parseLidMappingKey key with
      | .ok mapping => some (KeyMeaning.lidMapping mapping.1 mapping.2)
      | .error _ => none) = _
    rw [hread]
  cases hread : parseLidMappingKey key with
  | error problem =>
    change (match parseLidMappingKey key with
      | .ok mapping => some (KeyMeaning.lidMapping mapping.1 mapping.2)
      | .error _ => none) = _ at h
    rw [hread] at h
    cases h
  | ok mapping =>
    rw [hmeaning key mapping hread] at h
    cases h
    obtain ⟨direction,user⟩ := mapping
    have huser := parseLidMappingKey_ok hread
    have hagain := parseLidMappingKey_eq direction huser
    have hlegacy : ∀ key, parseLidMappingKey key = .ok (direction,user) → legacyKey .lidMapping key =
        .ok (match direction with | .pn => user | .lid => user++reverseSuffix) := by
      intro key hread
      change legacyLidMapping key = _
      rw [legacyLidMapping,hread]
      cases direction with
      | _ => rfl
    refine ⟨_,direction.name++unit ':'::user,hlegacy key hread,?_,hmeaning _ _ hagain,hlegacy _ hagain⟩
    change Except.ok (nativeLidMapping _) = _
    unfold nativeLidMapping
    cases direction with
    | pn =>
      have hsuffix : ¬reverseSuffix.isSuffixOf user = true := by
        intro hno
        have hmem := (List.isSuffixOf_iff_suffix.mp hno).subset (by decide : unit '_' ∈ reverseSuffix)
        exact huser.notMem (by decide) hmem
      dsimp only
      rw [if_neg hsuffix]
    | lid =>
      have hsuffix : reverseSuffix.isSuffixOf (user++reverseSuffix) = true :=
        List.isSuffixOf_iff_suffix.mpr (List.suffix_append _ _)
      dsimp only
      rw [if_pos hsuffix,List.length_append,Nat.add_sub_cancel,List.take_left]

/-- For every native key that stands for something, the legacy key leads back to a
native key of the same meaning, whose legacy key is the same again. -/
theorem legacyKey_round_trip (store : ProjectedStore) (key : JsString) (meaning : KeyMeaning)
    (h : keyMeaning store key = some meaning) :
    ∃ legacy native, legacyKey store key = .ok legacy ∧ nativeKey store legacy = .ok native ∧
      keyMeaning store native = some meaning ∧ legacyKey store native = .ok legacy := by
  cases store with
  | identity => exact comesBack_address (.inl rfl) h
  | session => exact comesBack_address (.inr rfl) h
  | senderKey => exact comesBack_senderKey h
  | syncKey => exact comesBack_syncKey h
  | lidMapping => exact comesBack_lidMapping h
  | prekey => exact ⟨key,key,rfl,rfl,h,rfl⟩
  | syncVersion => exact ⟨key,key,rfl,rfl,h,rfl⟩
  | deviceList => exact ⟨key,key,rfl,rfl,h,rfl⟩
  | tcToken => exact ⟨key,key,rfl,rfl,h,rfl⟩

/-- The device of a hosted address moves in front of the domain, and stays there. -/
theorem legacyKey_round_trip_hosted :
    ∃ legacy native, legacyKey .session (ofString "5511900000001@hosted.lid.99") = .ok legacy ∧
      nativeKey .session legacy = .ok native ∧
      keyMeaning .session native =
        some (.address ⟨ofString "5511900000001",.number 129,ofString "99"⟩) ∧
      legacyKey .session native = .ok legacy :=
  legacyKey_round_trip .session (ofString "5511900000001@hosted.lid.99")
    (.address ⟨ofString "5511900000001",.number 129,ofString "99"⟩) (by decide)

end Baileyrs.SignalRouting
