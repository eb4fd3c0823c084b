import Baileyrs.LegacyValues

/-!
# Adapters of bridge messages

A message reaches the host in one of two ways: as an event object with nested
addresses, or beside a flat record of its metadata. Each has an adapter that checks
the metadata field by field and gives a canonical message, or drops the message. For
the same metadata both give the same message, but for the server id, which only the
object carries.
-/

namespace Baileyrs.BridgeMessages

open JsString AtomicStore LegacyValues

/-- A field of a value; a value without it answers `undefined`. -/
def field (name : String) : Value → Value
  | .object members => (property name members).getD .undefined
  | .message members _ => (property name members).getD .undefined
  | _ => .undefined

/-- An object that is no array. -/
def isObject : Value → Bool
  | .object _ => true
  | .message _ _ => true
  | .bytes _ => true
  | .date _ => true
  | _ => false

/-- Name of the type of a value. -/
def typeOf : Value → String
  | .undefined => "undefined"
  | .bool _ => "boolean"
  | .number _ => "number"
  | .bigint _ => "bigint"
  | .string _ => "string"
  | .unsupported kind => shownKind kind
  | _ => "object"
where
  /-- Text of a kind of value. -/
  shownKind (kind : JsString) : String := String.ofList ((codePoints kind).map Char.ofNat)

/-- A string; anything else is missing. -/
def asString : Value → Option JsString
  | .string text => some text
  | _ => none

/-- A finite number; anything else is missing. -/
def asNumber : Value → Option JsNumber
  | .number x => if x.isFinite then some x else none
  | _ => none

/-- A boolean; anything else is the fallback. -/
def asBoolOr (value : Value) (fallback : Bool) : Bool :=
  match value with
  | .bool b => b
  | _ => fallback

/-- User and server of an address. -/
structure BridgeJid where
  /-- The user. -/
  user : JsString
  /-- The server. -/
  server : JsString

/-- An address is an object with both of them. -/
def asBridgeJid (value : Value) : Option BridgeJid :=
  if isObject value then
    match field "user" value,field "server" value with
    | .string user,.string server => some ⟨user,server⟩
    | _,_ => none
  else none

/-- Text of an address, without its device. -/
def bridgeJidToString (jid : BridgeJid) : JsString := jid.user++unit '@'::jid.server

/-- Text of an address, if the value is one. -/
def asJidString (value : Value) : Option JsString := (asBridgeJid value).map bridgeJidToString

section Timestamps

-- Milliseconds of a text that looks like a date; none when it is no date.
variable (dateParse : JsString → Option ℤ)

/-- A decimal digit. -/
def isDigit (u : UInt16) : Bool := 48 ≤ u.toNat && u.toNat ≤ 57

/-- Units of a date and a time of day. -/
def dateTimePattern : List (UInt16 → Bool) :=
  let is (c : Char) (u : UInt16) : Bool := u = unit c
  [isDigit,isDigit,isDigit,isDigit,is '-',isDigit,isDigit,is '-',isDigit,isDigit,
    (fun u => u = unit 'T' || u = unit 't' || u = unit ' '),isDigit,isDigit,is ':',isDigit,isDigit,
    is ':',isDigit,isDigit]

/-- What follows units of a pattern. -/
def afterPattern : List (UInt16 → Bool) → JsString → Option JsString
  | [],text => some text
  | _,[] => none
  | accepts::pattern,u::text => if accepts u then afterPattern pattern text else none

/-- A time zone and nothing else. -/
def isZone (text : JsString) : Bool :=
  match text with
  | [u] => u = unit 'Z' || u = unit 'z'
  | [sign,a,b,c,d] => (sign = unit '+' || sign = unit '-') && [a,b,c,d].all isDigit
  | [sign,a,b,colon,c,d] =>
    (sign = unit '+' || sign = unit '-') && colon = unit ':' && [a,b,c,d].all isDigit
  | _ => false

/-- A date with a time of day and a zone. -/
def isRfc3339 (text : JsString) : Bool :=
  match afterPattern dateTimePattern text with
  | none => false
  | some [] => false
  | some (u::rest) =>
    if u = unit '.' then
      let (fraction,zone) := rest.span isDigit
      !fraction.isEmpty && isZone zone
    else isZone (u::rest)

/-- Days of a month; a century is a leap year when it divides by 400. -/
def daysInMonth (year month : ℕ) : ℕ :=
  if month = 2 && year%4 = 0 && (year%100 ≠ 0 || year%400 = 0) then 29
  else ([31,28,31,30,31,30,31,31,30,31,30,31].getD (month-1) 0)

/-- Two digits at an offset. -/
def digits2 (raw : JsString) (at_ : ℕ) : ℕ :=
  ((raw.getD at_ 48).toNat-48)*10+((raw.getD (at_+1) 48).toNat-48)

/-- The number of an integer. -/
def numberOf (n : ℤ) : JsNumber := JsNumber.ofRatio (n < 0) n.natAbs 1

/-- Seconds of a date; a day past the end of its month and an hour past the day are refused. -/
def parseRfc3339Seconds (raw : JsString) : Option JsNumber :=
  if !isRfc3339 raw then none
  else
    let year := digits2 raw 0*100+digits2 raw 2
    if daysInMonth year (digits2 raw 5) < digits2 raw 8 then none
    else if 23 < digits2 raw 11 then none
    else (dateParse raw).map fun ms => numberOf (ms/1000)

/-- Unix seconds of a number or a date; anything else is missing. -/
def asUnixSeconds : Value → Option JsNumber
  | .number x => if x.isFinite then some x else none
  | .string raw => parseRfc3339Seconds dateParse raw
  | _ => none

end Timestamps

/-- A group address. -/
def isJidGroup (jid : JsString) : Bool := (ofString "@g.us").isSuffixOf jid

/-- A group address decides where the flag does not. -/
def resolveIsGroup (wireValue : Value) (chatJid : JsString) : Bool :=
  asBoolOr wireValue false || isJidGroup chatJid

/-- Other address of the participant of a group. -/
def resolveParticipantAlt (senderAlt : Option JsString) (isGroup : Bool) : Option JsString :=
  if isGroup then senderAlt else none

/-- Other address of a chat that is no group. -/
def resolveRemoteJidAlt (senderAlt recipientAlt : Option JsString) (isGroup isFromMe : Bool) :
    Option JsString :=
  if isGroup then none else if isFromMe then recipientAlt else senderAlt

/-- Kind of an edit; other texts are none. -/
def parseEditAttribute : Value → Option JsString
  | .string text => if (["1","2","3","7","8"].map ofString).contains text then some text else none
  | _ => none

/-- Diagnostic of a timestamp that is missing or invalid. -/
structure InvalidTimestamp where
  /-- Event that carried it. -/
  event : String
  /-- Field that carried it. -/
  field : String
  /-- Missing or invalid. -/
  reason : String
  /-- Type of what arrived. -/
  receivedType : String

/-- Diagnostic of a timestamp. -/
def invalidTimestampDetail (event : String) (raw : Value) : InvalidTimestamp :=
  ⟨event,"timestamp",if raw.isNullish then "missing" else "invalid",typeOf raw⟩

/-- Why a message is dropped, with what is logged. -/
inductive Dropped where
  | notObject
  | incomplete (info : Value) (message : String)
  | timestamp (detail : InvalidTimestamp) (message : String)

/-- A canonical message; missing fields are left out. -/
structure CanonicalMessage where
  /-- Address of the chat. -/
  chatJid : JsString
  /-- Address of the sender, in a group. -/
  senderJid : Option JsString
  /-- The chat is a group. -/
  isGroup : Bool
  /-- The account sent it. -/
  isFromMe : Bool
  /-- Id of the message. -/
  id : JsString
  /-- Seconds. -/
  timestamp : JsNumber
  /-- Exact id of the server, where the metadata carries it. -/
  serverId : Option JsString
  /-- Name the sender chose. -/
  pushName : Option JsString
  /-- Other address of the sender, in a group. -/
  participantAlt : Option JsString
  /-- Other address of the chat. -/
  remoteJidAlt : Option JsString
  /-- It can be viewed once; otherwise left out. -/
  isViewOnce : Bool
  /-- It was delivered late; otherwise left out. -/
  isOffline : Bool
  /-- The request it answers. -/
  unavailableRequestId : Option JsString
  /-- Kind of an edit. -/
  editAttribute : Option JsString
  /-- The message itself. -/
  messageProto : Value

/-- The value is `true`. -/
def isTrue : Value → Bool
  | .bool b => b
  | _ => false

/-- A text that is there. -/
def present (text : Option JsString) : Option JsString :=
  text.bind fun text => if text.isEmpty then none else some text

/-- Adapt a message beside its flat metadata. -/
def adaptBridgeMessageWire (messageProto info : Value) : Except Dropped CanonicalMessage :=
  if !isObject messageProto then .error .notObject
  else
    match present (asString (field "chat" info)),present (asString (field "id" info)) with
    | some chat,some id =>
      let isGroup := resolveIsGroup (field "isGroup" info) chat
      let isFromMe := asBoolOr (field "isFromMe" info) false
      let senderAlt := asString (field "senderAlt" info)
      let recipientAlt := asString (field "recipientAlt" info)
      match asNumber (field "timestamp" info) with
      | none => .error (.timestamp (invalidTimestampDetail "message_wire" (field "timestamp" info))
          "message wire adapter: missing or invalid timestamp")
      | some timestamp => .ok
        { chatJid := chat
          senderJid := if isGroup then asString (field "sender" info) else none
          isGroup := isGroup
          isFromMe := isFromMe
          id := id
          timestamp := timestamp
          serverId := none
          pushName := asString (field "pushName" info)
          participantAlt := resolveParticipantAlt senderAlt isGroup
          remoteJidAlt := resolveRemoteJidAlt senderAlt recipientAlt isGroup isFromMe
          isViewOnce := isTrue (field "isViewOnce" info)
          isOffline := isTrue (field "isOffline" info)
          unavailableRequestId := asString (field "unavailableRequestId" info)
          editAttribute := parseEditAttribute (field "edit" info)
          messageProto := messageProto }
    | _,_ => .error (.incomplete info "message wire adapter: missing chat/id")

/-- Adapt a message with the metadata of its event. -/
def adaptMessageParts (dateParse : JsString → Option ℤ) (info messageProto : Value) :
    Except Dropped CanonicalMessage :=
  let src := if isObject (field "source" info) then field "source" info else .undefined
  match present (asJidString (field "chat" src)),present (asString (field "id" info)) with
  | some chat,some id =>
    let isGroup := resolveIsGroup (field "is_group" src) chat
    let isFromMe := asBoolOr (field "is_from_me" src) false
    let senderAlt := asJidString (field "sender_alt" src)
    let recipientAlt := asJidString (field "recipient_alt" src)
    match asUnixSeconds dateParse (field "timestamp" info) with
    | none => .error (.timestamp (invalidTimestampDetail "message" (field "timestamp" info))
        "message adapter: missing or invalid timestamp")
    | some timestamp => .ok
      { chatJid := chat
        senderJid := if isGroup then asJidString (field "sender" src) else none
        isGroup := isGroup
        isFromMe := isFromMe
        id := id
        timestamp := timestamp
        serverId := (asString (field "newsletter_server_id" info)).or
          ((asNumber (field "newsletter_server_id" info)).map JsNumber.text)
        pushName := asString (field "push_name" info)
        participantAlt := resolveParticipantAlt senderAlt isGroup
        remoteJidAlt := resolveRemoteJidAlt senderAlt recipientAlt isGroup isFromMe
        isViewOnce := isTrue (field "is_view_once" info)
        isOffline := asBoolOr (field "is_offline" info) false
        unavailableRequestId := asString (field "unavailable_request_id" info)
        editAttribute := parseEditAttribute (field "edit" info)
        messageProto := messageProto }
  | _,_ => .error (.incomplete info "message adapter: missing chat/id")

/-- Adapt the data of a message event. -/
def adaptMessage (dateParse : JsString → Option ℤ) (data : Value) :
    Except Dropped CanonicalMessage :=
  if !isObject data then .error .notObject
  else
    let info := field "info" data
    let messageProto := field "message" data
    if !isObject info || !isObject messageProto then .error .notObject
    else adaptMessageParts dateParse info messageProto

/-- Metadata of a message, whichever way it arrives. -/
structure Metadata where
  /-- Address of the chat. -/
  chat : BridgeJid
  /-- Address of the sender. -/
  sender : Option BridgeJid
  /-- Other address of the sender. -/
  senderAlt : Option BridgeJid
  /-- Other address of the recipient. -/
  recipientAlt : Option BridgeJid
  /-- Id of the message. -/
  id : JsString
  /-- The chat is a group. -/
  isGroup : Bool
  /-- The account sent it. -/
  isFromMe : Bool
  /-- It can be viewed once. -/
  isViewOnce : Bool
  /-- It was delivered late. -/
  isOffline : Bool
  /-- Seconds. -/
  timestamp : JsNumber
  /-- Name the sender chose. -/
  pushName : Option JsString
  /-- The request it answers. -/
  unavailableRequestId : Option JsString
  /-- Kind of an edit. -/
  edit : Option JsString

/-- An optional text: the text, or a missing value. -/
def TextIs (value : Value) : Option JsString → Prop
  | some text => value = .string text
  | none => value.isNullish = true

/-- An optional address object: its user and server beside other members, or a missing value. -/
def JidIs (value : Value) : Option BridgeJid → Prop
  | some jid => field "user" value = .string jid.user ∧ field "server" value = .string jid.server
  | none => value.isNullish = true

/-- The flat record of the metadata, with addresses as texts. -/
structure IsWireInfo (info : Value) (m : Metadata) : Prop where
  /-- Address of the chat. -/
  chat : field "chat" info = .string (bridgeJidToString m.chat)
  /-- Address of the sender. -/
  sender : TextIs (field "sender" info) (m.sender.map bridgeJidToString)
  /-- Other address of the sender. -/
  senderAlt : TextIs (field "senderAlt" info) (m.senderAlt.map bridgeJidToString)
  /-- Other address of the recipient. -/
  recipientAlt : TextIs (field "recipientAlt" info) (m.recipientAlt.map bridgeJidToString)
  /-- Id of the message. -/
  id : field "id" info = .string m.id
  /-- The chat is a group. -/
  isGroup : field "isGroup" info = .bool m.isGroup
  /-- The account sent it. -/
  isFromMe : field "isFromMe" info = .bool m.isFromMe
  /-- It can be viewed once. -/
  isViewOnce : field "isViewOnce" info = .bool m.isViewOnce
  /-- It was delivered late. -/
  isOffline : field "isOffline" info = .bool m.isOffline
  /-- Seconds. -/
  timestamp : field "timestamp" info = .number m.timestamp
  /-- Name the sender chose. -/
  pushName : TextIs (field "pushName" info) m.pushName
  /-- The request it answers. -/
  unavailableRequestId : TextIs (field "unavailableRequestId" info) m.unavailableRequestId
  /-- Kind of an edit. -/
  edit : TextIs (field "edit" info) m.edit

/-- The event object of the metadata, with addresses as objects. -/
structure IsObjectInfo (info : Value) (m : Metadata) : Prop where
  /-- Address of the chat. -/
  chat : JidIs (field "chat" (field "source" info)) (some m.chat)
  /-- Address of the sender. -/
  sender : JidIs (field "sender" (field "source" info)) m.sender
  /-- Other address of the sender. -/
  senderAlt : JidIs (field "sender_alt" (field "source" info)) m.senderAlt
  /-- Other address of the recipient. -/
  recipientAlt : JidIs (field "recipient_alt" (field "source" info)) m.recipientAlt
  /-- Id of the message. -/
  id : field "id" info = .string m.id
  /-- The chat is a group. -/
  isGroup : field "is_group" (field "source" info) = .bool m.isGroup
  /-- The account sent it. -/
  isFromMe : field "is_from_me" (field "source" info) = .bool m.isFromMe
  /-- It can be viewed once. -/
  isViewOnce : field "is_view_once" info = .bool m.isViewOnce
  /-- It was delivered late. -/
  isOffline : field "is_offline" info = .bool m.isOffline
  /-- Seconds. -/
  timestamp : field "timestamp" info = .number m.timestamp
  /-- Name the sender chose. -/
  pushName : TextIs (field "push_name" info) m.pushName
  /-- The request it answers. -/
  unavailableRequestId : TextIs (field "unavailable_request_id" info) m.unavailableRequestId
  /-- Kind of an edit. -/
  edit : TextIs (field "edit" info) m.edit

/-- Both messages are dropped, or they are equal but for the server id. -/
def Agree (wire object : Except Dropped CanonicalMessage) : Prop :=
  (∃ first second,wire = .error first ∧ object = .error second) ∨
    ∃ message serverId,wire = .ok message ∧ object = .ok { message with serverId := serverId }

/-- A value with a field that is there is an object. -/
theorem isObject_of_field (name : String) {value : Value}
    (h : field name value ≠ .undefined) : isObject value = true := by
  cases value with
  | object members => rfl
  | message members json => rfl
  | _ => simp [field] at h

/-- An optional text reads as itself. -/
theorem TextIs.asString {value : Value} {text : Option JsString} (h : TextIs value text) :
    BridgeMessages.asString value = text := by
  cases text with
  | some text =>
    have hvalue : value = .string text := h
    simp [hvalue,BridgeMessages.asString]
  | none =>
    have hnullish : value.isNullish = true := h
    cases value <;> simp_all [Value.isNullish,BridgeMessages.asString]

/-- Optional texts of one kind of edit read alike. -/
theorem TextIs.parseEditAttribute {first second : Value} {text : Option JsString}
    (h : TextIs first text) (h' : TextIs second text) :
    BridgeMessages.parseEditAttribute first = BridgeMessages.parseEditAttribute second := by
  have read {value : Value} (h : TextIs value text) :
      BridgeMessages.parseEditAttribute value =
        text.bind fun text => BridgeMessages.parseEditAttribute (.string text) := by
    cases text with
    | some text =>
      have hvalue : value = .string text := h
      simp [hvalue]
    | none =>
      have hnullish : value.isNullish = true := h
      cases value <;> simp_all [Value.isNullish,BridgeMessages.parseEditAttribute]
  rw [read h,read h']

/-- An optional address object reads as the text of its address. -/
theorem JidIs.asJidString {value : Value} {jid : Option BridgeJid} (h : JidIs value jid) :
    BridgeMessages.asJidString value = jid.map bridgeJidToString := by
  cases jid with
  | some jid =>
    obtain ⟨huser,hserver⟩ : field "user" value = .string jid.user ∧
      field "server" value = .string jid.server := h
    have hobject : isObject value = true := isObject_of_field "user" (by simp [huser])
    simp [BridgeMessages.asJidString,asBridgeJid,hobject,huser,hserver]
  | none =>
    have hnullish : value.isNullish = true := h
    cases value <;>
      simp_all [Value.isNullish,BridgeMessages.asJidString,asBridgeJid,isObject]

/-- Text of an address is never empty. -/
theorem present_jid (jid : BridgeJid) : present (some (bridgeJidToString jid)) = some (bridgeJidToString jid) := by
  simp [present,bridgeJidToString]

/-- For the same metadata the two adapters of a message agree. -/
theorem adaptMessageParts_agree (dateParse : JsString → Option ℤ) {wire object messageProto : Value}
    {m : Metadata} (hwire : IsWireInfo wire m) (hobject : IsObjectInfo object m)
    (hproto : isObject messageProto = true) : Agree (adaptBridgeMessageWire messageProto wire)
      (adaptMessageParts dateParse object messageProto) := by
  have hsource : isObject (field "source" object) = true :=
    isObject_of_field "is_group" (by simp [hobject.isGroup])
  have hedit := TextIs.parseEditAttribute hwire.edit hobject.edit
  have hchat : present (asJidString (field "chat" (field "source" object))) =
      some (bridgeJidToString m.chat) := by
    rw [hobject.chat.asJidString]
    exact present_jid m.chat
  have hwireChat : present (asString (field "chat" wire)) = some (bridgeJidToString m.chat) := by
    rw [hwire.chat]
    exact present_jid m.chat
  have hid : asString (field "id" wire) = asString (field "id" object) := by
    rw [hwire.id,hobject.id]
  unfold adaptBridgeMessageWire adaptMessageParts
  simp only [hproto,hsource,hchat,hwireChat,hid,if_true,Bool.not_true,Bool.false_eq_true,if_false]
  cases hpresent : present (asString (field "id" object)) with
  | none => exact .inl ⟨_,_,rfl,rfl⟩
  | some id =>
    have hseconds : asUnixSeconds dateParse (.number m.timestamp) = asNumber (.number m.timestamp) :=
      rfl
    simp only [hwire.timestamp,hobject.timestamp,hseconds]
    cases htimestamp : asNumber (.number m.timestamp) with
    | none => exact .inl ⟨_,_,rfl,rfl⟩
    | some timestamp =>
      refine .inr ⟨_,(asString (field "newsletter_server_id" object)).or
        ((asNumber (field "newsletter_server_id" object)).map JsNumber.text),rfl,?_⟩
      simp only [hwire.isGroup,hobject.isGroup,hwire.isFromMe,hobject.isFromMe,
        hwire.isViewOnce,hobject.isViewOnce,hwire.isOffline,hobject.isOffline,asBoolOr,isTrue,
        resolveIsGroup,hwire.sender.asString,hobject.sender.asJidString,
        hwire.senderAlt.asString,hobject.senderAlt.asJidString,
        hwire.recipientAlt.asString,hobject.recipientAlt.asJidString,
        hwire.pushName.asString,hobject.pushName.asString,
        hwire.unavailableRequestId.asString,hobject.unavailableRequestId.asString,hedit]

/-- The adapters agree on the metadata of a message, and so does the adapter of its
whole event, whatever the message itself is. -/
theorem adapters_agree (dateParse : JsString → Option ℤ) (wire object messageProto data : Value)
    (m : Metadata) (hwire : IsWireInfo wire m) (hobject : IsObjectInfo object m)
    (hinfo : field "info" data = object) (hmessage : field "message" data = messageProto) :
    (isObject messageProto = true → Agree (adaptBridgeMessageWire messageProto wire)
      (adaptMessageParts dateParse object messageProto)) ∧
    Agree (adaptBridgeMessageWire messageProto wire) (adaptMessage dateParse data) := by
  have hparts := @adaptMessageParts_agree dateParse wire object messageProto m hwire hobject
  refine ⟨hparts,?_⟩
  have hobjectInfo : isObject object = true := isObject_of_field "id" (by simp [hobject.id])
  have hdata : isObject data = true := by
    apply isObject_of_field "info"
    intro hmissing
    simp [hmissing] at hinfo
    simp [← hinfo,isObject] at hobjectInfo
  by_cases hproto : isObject messageProto = true
  · simpa [adaptMessage,hdata,hinfo,hmessage,hobjectInfo,hproto] using hparts hproto
  · have hnot : isObject messageProto = false := by simpa using hproto
    have hwireDropped : adaptBridgeMessageWire messageProto wire = .error .notObject := by
      simp [adaptBridgeMessageWire,hnot]
    have hdropped : adaptMessage dateParse data = .error .notObject := by
      simp [adaptMessage,hdata,hinfo,hmessage,hnot]
    exact .inl ⟨.notObject,.notObject,hwireDropped,hdropped⟩

/-- Address of a text of a user and a server. -/
def jidOf (user server : String) : BridgeJid := ⟨ofString user,ofString server⟩

/-- An object of texts and their values. -/
def objectOf (members : List (String × Value)) : Value :=
  .object (members.map fun member => (ofString member.1,member.2))

/-- Metadata of a late message of a group. -/
def lateMetadata : Metadata :=
  { chat := jidOf "120" "g.us"
    sender := some (jidOf "49" "s.whatsapp.net")
    senderAlt := some (jidOf "77" "lid")
    recipientAlt := none
    id := ofString "3EB0"
    isGroup := false
    isFromMe := false
    isViewOnce := false
    isOffline := true
    timestamp := .zero
    pushName := some (ofString "Ada")
    unavailableRequestId := none
    edit := some (ofString "7") }

/-- Its flat record. -/
def lateWire : Value :=
  objectOf [("chat",.string (ofString "120@g.us")),("id",.string (ofString "3EB0")),
    ("sender",.string (ofString "49@s.whatsapp.net")),("senderAlt",.string (ofString "77@lid")),
    ("isGroup",.bool false),("isFromMe",.bool false),("isViewOnce",.bool false),
    ("isOffline",.bool true),("timestamp",.number .zero),("pushName",.string (ofString "Ada")),
    ("edit",.string (ofString "7"))]

/-- An address object with a device. -/
def deviceJid (user server : String) : Value :=
  objectOf [("user",.string (ofString user)),("server",.string (ofString server)),
    ("device",.number .zero)]

/-- Its event object. -/
def lateObject : Value :=
  objectOf [("source",objectOf [("chat",deviceJid "120" "g.us"),
      ("sender",deviceJid "49" "s.whatsapp.net"),("sender_alt",deviceJid "77" "lid"),
      ("recipient_alt",.null),("is_group",.bool false),("is_from_me",.bool false)]),
    ("id",.string (ofString "3EB0")),("timestamp",.number .zero),
    ("push_name",.string (ofString "Ada")),("is_view_once",.bool false),("is_offline",.bool true),
    ("edit",.string (ofString "7")),("newsletter_server_id",.number .zero)]

/-- Both adapters agree on a late message of a group. -/
theorem adapters_agree_late :
    (isObject (objectOf []) = true → Agree (adaptBridgeMessageWire (objectOf []) lateWire)
      (adaptMessageParts (fun _ => none) lateObject (objectOf []))) ∧
    Agree (adaptBridgeMessageWire (objectOf []) lateWire) (adaptMessage (fun _ => none)
      (objectOf [("info",lateObject),("message",objectOf [])])) := by
  have hwire : IsWireInfo lateWire lateMetadata := by
    constructor <;> rfl
  have hobject : IsObjectInfo lateObject lateMetadata := by
    constructor <;> first | rfl | exact ⟨rfl,rfl⟩
  exact adapters_agree (fun _ => none) lateWire lateObject (objectOf [])
    (objectOf [("info",lateObject),("message",objectOf [])]) lateMetadata hwire hobject rfl rfl

end Baileyrs.BridgeMessages
