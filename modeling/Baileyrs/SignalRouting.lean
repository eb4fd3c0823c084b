import Baileyrs.LegacyProjection
import Baileyrs.Base64
import Baileyrs.ProtoValues
import Baileyrs.TextSearch

/-!
# Keys of the legacy stores

A native key of a projected store becomes the key of a legacy row, and back. A
native Signal address is `user[:device]@domain.device`, its legacy key
`user[_type].device`; a sender key puts a chat in front of either.
-/

namespace Baileyrs.SignalRouting

open JsString AtomicStore LegacyProjection TextSearch

/-- Types of the domains of Signal addresses. -/
def domainTypes : List (JsString × ℕ) :=
  [(ofString "c.us",0),(ofString "s.whatsapp.net",0),(ofString "lid",1),(ofString "hosted",128),
    (ofString "hosted.lid",129)]

/-- Methods every object inherits; as text, a method is its heading. -/
def inheritedMethods : List (JsString × JsString) :=
  [("constructor","Object"),("__defineGetter__","__defineGetter__"),("__defineSetter__","__defineSetter__"),
    ("hasOwnProperty","hasOwnProperty"),("__lookupGetter__","__lookupGetter__"),
    ("__lookupSetter__","__lookupSetter__"),("isPrototypeOf","isPrototypeOf"),
    ("propertyIsEnumerable","propertyIsEnumerable"),("toString","toString"),("valueOf","valueOf"),
    ("toLocaleString","toLocaleString")].map fun entry =>
      (ofString entry.1,ofString ("function "++entry.2++"() \x7b [native code] \x7d"))

/-- What the table of domain types has for a domain: a type, or an inherited
property as text. -/
inductive DomainType where
  | number (n : ℕ)
  | inherited (text : JsString)
  deriving DecidableEq

/-- Property of the table of domain types. -/
def domainTypeOf (domain : JsString) : Option DomainType :=
  match InsertionMap.find domainTypes domain with
  | some n => some (.number n)
  | none =>
    if domain = ofString "__proto__" then some (.inherited (ofString "[object Object]"))
    else (InsertionMap.find inheritedMethods domain).map .inherited

/-- Domain that a legacy domain type stands for. -/
def nativeDomains : List (ℕ × JsString) :=
  [(0,ofString "c.us"),(1,ofString "lid"),(128,ofString "hosted"),(129,ofString "hosted.lid")]

/-- An unsigned decimal integer that is safe. -/
def parseUnsignedDecimal (value : JsString) (label : String) : Except StoreError ℕ :=
  if value = [] ∨ value.all Json.isDigit = false then
    .error (.typeError (label++" must be an unsigned decimal integer"))
  else if ofDigits value < 2^53 then .ok (ofDigits value)
  else .error (.rangeError (label++" is outside the safe integer range"))

/-- Parts of a native Signal address. -/
structure ParsedSignalAddress where
  /-- Decimal user. -/
  user : JsString
  /-- Type of the domain. -/
  domainType : DomainType
  /-- Decimal device. -/
  device : JsString
  deriving DecidableEq

/-- A native Signal address is refused. -/
def invalidNative (address : JsString) : StoreError :=
  .typeError ("invalid native Signal address: "++shown address)

/-- User of a native Signal address, and the device in it. -/
def userAndDevice (text : JsString) : JsString × Option JsString :=
  match lastIndexOf (unit ':') text with
  | none => (text,none)
  | some i => (text.take i,some (text.drop (i+1)))

/-- Parts of a native Signal address whose separators were found. -/
def parseParts (address user domain signalDevice : JsString) : Except StoreError ParsedSignalAddress :=
  match domainTypeOf domain with
  | none => .error (invalidNative address)
  | some domainType => do
    let _ ← parseUnsignedDecimal signalDevice "Signal device"
    let (user,jidDevice) := userAndDevice user
    let _ ← parseUnsignedDecimal user "Signal user"
    match jidDevice with
    | some device => do
      let _ ← parseUnsignedDecimal device "JID device"
      return ⟨user,domainType,device⟩
    | none => return ⟨user,domainType,signalDevice⟩

/-- Read a native Signal address. -/
def parseBridgeSignalAddress (address : JsString) : Except StoreError ParsedSignalAddress :=
  match lastIndexOf (unit '.') address with
  | none => .error (invalidNative address)
  | some signalSeparator =>
    match lastIndexOf (unit '@') (address.take (signalSeparator+1)) with
    | none => .error (invalidNative address)
    | some domainSeparator =>
      if domainSeparator = 0 then .error (invalidNative address)
      else
        parseParts address (address.take domainSeparator) ((address.take signalSeparator).drop (domainSeparator+1))
          (address.drop (signalSeparator+1))

/-- A user with a domain type, unless it is that of phone numbers. -/
def signalUser (user : JsString) : DomainType → JsString
  | .number n => if n = 0 then user else user++unit '_'::natText n
  | .inherited text => user++unit '_'::text

/-- Legacy key of a native Signal address. -/
def legacySignalAddress (address : JsString) : Except StoreError JsString := do
  let parsed ← parseBridgeSignalAddress address
  return signalUser parsed.user parsed.domainType++unit '.'::parsed.device

/-- A unit of either half of a chat. -/
def isChatUnit (u : UInt16) : Bool :=
  !(JsNumber.isSpace u || u = unit ':' || u = unit '@' || u.toNat < 32 || (127 ≤ u.toNat && u.toNat < 160))

/-- The JID of a chat: two halves around one at sign. -/
def isChatJid (text : JsString) : Bool :=
  match indexOf (unit '@') text with
  | none => false
  | some i =>
    !(text.take i).isEmpty && (text.take i).all isChatUnit &&
      !(text.drop (i+1)).isEmpty && (text.drop (i+1)).all isChatUnit

/-- A native sender key is refused. -/
def invalidSenderKey (key : JsString) : StoreError :=
  .typeError ("invalid native sender-key address: "++shown key)

/-- Where the chat of a native sender key ends. -/
def chatEnd (key : JsString) : Option ℕ :=
  (indexOf (unit '@') key).bind fun domain => (indexOf (unit ':') (key.drop domain)).map (domain+·)

/-- The two parts around the last full stop. -/
def deviceParts (address : JsString) : JsString × JsString :=
  match lastIndexOf (unit '.') address with
  | some i => (address.take i,address.drop (i+1))
  | none => (address.dropLast,address)

/-- Separator of the parts of a legacy sender key. -/
def senderKeyPart : JsString := [unit ':',unit ':']

/-- Legacy key of a native sender key. -/
def legacySenderKey (key : JsString) : Except StoreError JsString :=
  match chatEnd key with
  | none => .error (invalidSenderKey key)
  | some i =>
    if isChatJid (key.take i) then do
      let address ← legacySignalAddress (key.drop (i+1))
      let (user,device) := deviceParts address
      return key.take i++(senderKeyPart++(user++(senderKeyPart++device)))
    else .error (invalidSenderKey key)

/-- Pairs of hexadecimal digits, at least one. -/
def isHexadecimal (text : JsString) : Bool :=
  !text.isEmpty && text.length%2 == 0 && text.all fun u => (Json.hexValue u).isSome

/-- Bytes of hexadecimal digits. -/
def bytesOfHex : JsString → Bytes
  | a::b::rest =>
    match Json.hexValue a,Json.hexValue b with
    | some high,some low => (high*16+low).toUInt8::bytesOfHex rest
    | _,_ => []
  | _ => []

/-- Hexadecimal digits of bytes. -/
def hexOfBytes (bytes : Bytes) : JsString :=
  bytes.flatMap fun b => [Json.hexDigit (b.toNat/16),Json.hexDigit (b.toNat%16)]

/-- Direction of a mapping between users. -/
inductive Direction where
  | pn
  | lid
  deriving DecidableEq

/-- A direction as text. -/
def Direction.name : Direction → JsString
  | .pn => ofString "pn"
  | .lid => ofString "lid"

/-- Direction and user of a mapping's key. -/
def parseLidMappingKey (key : JsString) : Except StoreError (Direction × JsString) :=
  match indexOf (unit ':') key with
  | none => .error (.typeError ("invalid native LID mapping key: "++shown key))
  | some separator =>
    if separator = 0 then .error (.typeError ("invalid native LID mapping key: "++shown key))
    else do
      let direction := key.take separator
      let user := key.drop (separator+1)
      let _ ← parseUnsignedDecimal user "LID mapping user"
      if direction = Direction.name .pn then return (.pn,user)
      else if direction = Direction.name .lid then return (.lid,user)
      else throw (.typeError ("invalid native LID mapping direction: "++shown direction))

/-- End of the legacy key of a mapping from a LID. -/
def reverseSuffix : JsString := ofString "_reverse"

/-- Legacy key of a mapping. -/
def legacyLidMapping (key : JsString) : Except StoreError JsString := do
  let (direction,user) ← parseLidMappingKey key
  match direction with
  | .pn => return user
  | .lid => return user++reverseSuffix

/-- Native key of a mapping. -/
def nativeLidMapping (key : JsString) : JsString :=
  if reverseSuffix.isSuffixOf key then
    Direction.name .lid++unit ':'::key.take (key.length-reverseSuffix.length)
  else Direction.name .pn++unit ':'::key

/-- A legacy Signal address is refused. -/
def invalidLegacy (address : JsString) : StoreError :=
  .typeError ("invalid legacy Signal address: "++shown address)

/-- User of a legacy Signal address, and the text of the domain type in it. -/
def userAndDomain (text : JsString) : JsString × Option JsString :=
  match lastIndexOf (unit '_') text with
  | none => (text,none)
  | some 0 => (text,none)
  | some (i+1) => (text.take (i+1),some (text.drop (i+2)))

/-- Device in front of the domain, unless it is zero. -/
def jidDevice (device : JsString) : JsString := if device = [unit '0'] then [] else unit ':'::device

/-- Domain type of its text; that of phone numbers has none. -/
def legacyDomainType : Option JsString → Except StoreError ℕ
  | some text => parseUnsignedDecimal text "Signal domain type"
  | none => .ok 0

/-- Native Signal address of a user, a device and the text of a domain type. -/
def nativeAddressOf (user device : JsString) (domain : Option JsString) : Except StoreError JsString := do
  let domainType ← legacyDomainType domain
  let _ ← parseUnsignedDecimal user "Signal user"
  match InsertionMap.find nativeDomains domainType with
  | none => throw (.typeError ("unsupported legacy Signal domain type: "++toString domainType))
  | some domain => return user++(jidDevice device++unit '@'::(domain++[unit '.',unit '0']))

/-- Native Signal address of a legacy one. -/
def nativeSignalAddress (address : JsString) : Except StoreError JsString :=
  match lastIndexOf (unit '.') address with
  | none => .error (invalidLegacy address)
  | some separator =>
    if separator = 0 then .error (invalidLegacy address)
    else do
      let device := address.drop (separator+1)
      let _ ← parseUnsignedDecimal device "Signal device"
      let (user,domain) := userAndDomain (address.take separator)
      nativeAddressOf user device domain

/-- Native key of a legacy sender key. -/
def nativeSenderKey (key : JsString) : Except StoreError JsString :=
  match splitOn senderKeyPart key with
  | [chat,user,device] =>
    if isChatJid chat ∧ user ≠ [] ∧ device ≠ [] then do
      let address ← nativeSignalAddress (user++unit '.'::device)
      return chat++unit ':'::address
    else .error (.typeError ("invalid legacy sender-key address: "++shown key))
  | _ => .error (.typeError ("invalid legacy sender-key address: "++shown key))

/-- Legacy key of a native key. -/
def legacyKey (store : ProjectedStore) (key : JsString) : Except StoreError JsString :=
  match store with
  | .identity => legacySignalAddress key
  | .session => legacySignalAddress key
  | .senderKey => legacySenderKey key
  | .syncKey =>
    if isHexadecimal key then .ok (Base64.encode (bytesOfHex key))
    else .error (.typeError ("invalid hexadecimal sync-key id: "++shown key))
  | .lidMapping => legacyLidMapping key
  | _ => .ok key

/-- Native key of a legacy key. -/
def nativeKey (store : ProjectedStore) (key : JsString) : Except StoreError JsString :=
  match store with
  | .identity => nativeSignalAddress key
  | .session => nativeSignalAddress key
  | .senderKey => nativeSenderKey key
  | .syncKey => .ok (hexOfBytes (Base64.decode key))
  | .lidMapping => .ok (nativeLidMapping key)
  | _ => .ok key

end Baileyrs.SignalRouting
