import Baileyrs.EventBuffer

/-!
# Receipts inside one buffering window

The dispatcher turns a receipt of the bridge into one update for each message
it names. While the buffer is active an update is folded into the pending
message it is about, or else waits under the property name of the message.
Receipts are objects: the updates of one bridge receipt share theirs, so the
window keeps a store of objects and lists of addresses. Other events change
which messages are pending. Listeners of a type change run inside the emit
that caused it and may emit themselves.
-/

namespace Baileyrs.ReceiptBuffer

open EventBuffer (MessageKey UpsertType stringifyMessageKey)

/-- Receipt types of the bridge. -/
inductive ReceiptType where
  | delivered
  | sent
  | sender
  | retry
  | encRekeyRetry
  | read
  | readSelf
  | played
  | playedSelf
  | inactive
  | peerMsg
  | historySync
  | serverError
  | other

/-- A receipt of the bridge. -/
structure CanonicalReceipt where
  /-- Chat of the messages. -/
  chatJid : String
  /-- Who acknowledged them. -/
  senderJid : Option String
  /-- Whether the chat is a group. -/
  isGroup : Bool
  /-- Whether the own account sent the messages. -/
  isFromMe : Bool
  /-- The messages. -/
  messageIds : List String
  /-- When they were acknowledged. -/
  timestamp : ℕ
  /-- What was acknowledged. -/
  receiptType : Option ReceiptType

/-- Key of a message with the participant of a group. -/
structure WAMessageKey extends MessageKey where
  /-- Participant of the group. -/
  participant : Option String
  deriving DecidableEq

/-- Receipt object. -/
structure MessageUserReceipt where
  /-- User it is from. -/
  userJid : Option String
  /-- When the message was delivered. -/
  receiptTimestamp : Option ℕ
  /-- When it was read. -/
  readTimestamp : Option ℕ
  /-- When it was played. -/
  playedTimestamp : Option ℕ
  deriving DecidableEq

/-- Copy the fields a receipt has onto another one. -/
def assign (target source : MessageUserReceipt) : MessageUserReceipt where
  userJid := source.userJid.or target.userJid
  receiptTimestamp := source.receiptTimestamp.or target.receiptTimestamp
  readTimestamp := source.readTimestamp.or target.readTimestamp
  playedTimestamp := source.playedTimestamp.or target.playedTimestamp

/-- A receipt and whose receipt it is. -/
structure Attributed where
  /-- Message and participant. -/
  key : WAMessageKey
  /-- The receipt. -/
  receipt : MessageUserReceipt
  deriving DecidableEq

/-- Receipt object the dispatcher makes for a receipt of the bridge. -/
def receiptOf (evt : CanonicalReceipt) : MessageUserReceipt :=
  match evt.receiptType with
  | some .read => ⟨none,none,some evt.timestamp,none⟩
  | some .readSelf => ⟨none,none,some evt.timestamp,none⟩
  | some .played => ⟨none,none,none,some evt.timestamp⟩
  | some .playedSelf => ⟨none,none,none,some evt.timestamp⟩
  | _ => ⟨none,some evt.timestamp,none,none⟩

/-- Keys of the updates the dispatcher emits, one for each message. -/
def receiptKeys (evt : CanonicalReceipt) : List WAMessageKey :=
  evt.messageIds.map fun id =>
    ⟨⟨evt.chatJid,id,evt.isFromMe⟩,if evt.isGroup then evt.senderJid else none⟩

/-- Receipt objects by address. -/
abbrev Objects := ℕ → MessageUserReceipt

/-- A message of an upsert; the bridge makes it without receipts. -/
structure Message where
  /-- Its key. -/
  key : MessageKey
  /-- Addresses of its receipts. -/
  userReceipt : List ℕ
  deriving DecidableEq

/-- A pending message and the type it will be released with. -/
structure Pending where
  /-- The message. -/
  message : Message
  /-- Its type. -/
  type : UpsertType
  deriving DecidableEq

/-- Receipts that wait for their message. -/
structure MessageReceipts where
  /-- Key of the first update. -/
  key : WAMessageKey
  /-- Addresses of the receipts. -/
  userReceipt : List ℕ
  deriving DecidableEq

/-- Pending data receipts depend on, by property name. -/
structure Data where
  /-- Names of the messages of a history set. -/
  historyMessages : List String
  /-- Pending messages. -/
  messageUpserts : InsertionMap String Pending
  /-- Pending changes of other messages: the key they assign. -/
  messageUpdates : InsertionMap String (Option MessageKey)
  /-- Receipts of other messages. -/
  messageReceipts : InsertionMap String MessageReceipts

/-- The buffer inside one window. The last two fields record what happened. -/
structure State where
  /-- Receipt objects. -/
  objects : Objects
  /-- Next unused address. -/
  fresh : ℕ
  /-- Names of messages seen in history sets. -/
  historyCache : List String
  /-- Pending data. -/
  data : Data
  /-- Whether a message upsert was buffered since the last release. -/
  hasPendingUpserts : Bool
  /-- Its type. -/
  pendingUpsertType : Option UpsertType
  /-- Upserts whose type change is being released, the innermost first. -/
  stack : List (List MessageKey × UpsertType)
  /-- Receipts handed to the listeners on messages, oldest first. -/
  handed : List Attributed
  /-- Receipts emitted by the dispatcher, oldest first. -/
  received : List Attributed

/-- Events of the window and what the listeners of a type change do. -/
inductive Action where
  | receipt (evt : CanonicalReceipt)
  | messagesUpsert (messages : List MessageKey) (type : UpsertType)
  | messagesUpdate (updates : List (MessageKey × Option MessageKey))
  | messagesDelete (keys : List MessageKey)
  | historySet (messages : List MessageKey)
  | listenersReturn
  | listenersThrow

/-- Upsert one receipt into a collection. -/
def updateMessageWithReceipt (objects : Objects) (userReceipt : List ℕ) (receipt : ℕ) :
    Objects × List ℕ :=
  match userReceipt.find? fun item => (objects item).userJid = (objects receipt).userJid with
  | some existing =>
    (Function.update objects existing (assign (objects existing) (objects receipt)),userReceipt)
  | none => (objects,userReceipt++[receipt])

/-- Replace the receipts of a pending message. -/
def Pending.withReceipts (item : Pending) (userReceipt : List ℕ) : Pending :=
  {item with message := {item.message with userReceipt := userReceipt}}

/-- Buffer one update of receipts. -/
def appendReceipt (receipt : ℕ) (s : State) (key : WAMessageKey) : State :=
  let value := stringifyMessageKey key.toMessageKey
  match s.data.messageUpserts.get value with
  | some existing =>
    let updated := updateMessageWithReceipt s.objects existing.message.userReceipt receipt
    let upserts := s.data.messageUpserts.set value (existing.withReceipts updated.2)
    {s with objects := updated.1, data := {s.data with messageUpserts := upserts}}
  | none =>
    let entry := (s.data.messageReceipts.get value).getD ⟨key,[]⟩
    let updated := updateMessageWithReceipt s.objects entry.userReceipt receipt
    let receipts := s.data.messageReceipts.set value {entry with userReceipt := updated.2}
    {s with objects := updated.1, data := {s.data with messageReceipts := receipts}}

/-- Make the receipt object and emit its updates. -/
def emitReceipt (s : State) (evt : CanonicalReceipt) : State :=
  {s with
    objects := Function.update s.objects s.fresh (receiptOf evt)
    fresh := s.fresh+1
    received := s.received++(receiptKeys evt).map fun key => ⟨key,receiptOf evt⟩}

/-- Dispatch a receipt of the bridge. -/
def dispatchReceipt (s : State) (evt : CanonicalReceipt) : State :=
  (receiptKeys evt).foldl (appendReceipt s.fresh) (emitReceipt s evt)

/-- Buffer one message. A pending change may assign its key. -/
def appendMessage (type : UpsertType) (data : Data) (key : MessageKey) : Data :=
  let value := stringifyMessageKey key
  let message : Message := ⟨((data.messageUpdates.get value).bind id).getD key,[]⟩
  let data := {data with messageUpdates := data.messageUpdates.delete value}
  if value ∈ data.historyMessages then data
  else
    let existing := data.messageUpserts.get value
    let notify := type = .notify ∨ existing.map Pending.type = some .notify
    let item : Pending := ⟨message,if notify then .notify else type⟩
    {data with messageUpserts := data.messageUpserts.set value item}

/-- Receipts of a pending message as its listeners see them. -/
def messageReceipts (objects : Objects) (item : Pending) : List Attributed :=
  item.message.userReceipt.map fun address =>
    ⟨⟨item.message.key,(objects address).userJid⟩,objects address⟩

/-- Updates made of the receipts that wait for a message. -/
def receiptUpdates (objects : Objects) (entry : MessageReceipts) : List Attributed :=
  entry.userReceipt.map fun address => ⟨entry.key,objects address⟩

/-- Receipts released with the pending messages. -/
def releasedMessages (s : State) : List Attributed :=
  s.data.messageUpserts.values.flatMap (messageReceipts s.objects)

/-- Receipts released as updates. -/
def releasedUpdates (s : State) : List Attributed :=
  s.data.messageReceipts.values.flatMap (receiptUpdates s.objects)

/-- Receipts in the event map of a flush; its listeners see messages first. -/
def consolidateEvents (s : State) : List Attributed := releasedMessages s++releasedUpdates s

/-- Buffer a message upsert. -/
def acceptUpsert (s : State) (messages : List MessageKey) (type : UpsertType) : State :=
  {s with
    data := messages.foldl (appendMessage type) s.data
    hasPendingUpserts := true
    pendingUpsertType := some type}

/-- Whether an upsert first releases the pending messages of another type. -/
def changesType (s : State) (type : UpsertType) : Bool :=
  s.hasPendingUpserts && s.pendingUpsertType != some type &&
    (s.data.messageUpserts.values.head?.map Pending.type).any (· != type)

/-- Emit a message upsert. -/
def emitUpsert (s : State) (messages : List MessageKey) (type : UpsertType) : State :=
  if changesType s type then
    {s with handed := s.handed++releasedMessages s, stack := (messages,type)::s.stack}
  else acceptUpsert s messages type

/-- Buffer one change of a message. -/
def appendUpdate (data : Data) (update : MessageKey × Option MessageKey) : Data :=
  let value := stringifyMessageKey update.1
  if value ∈ data.historyMessages then data
  else
    match data.messageUpserts.get value with
    | some existing =>
      let message := {existing.message with key := update.2.getD existing.message.key}
      {data with messageUpserts := data.messageUpserts.set value {existing with message := message}}
    | none =>
      let earlier := (data.messageUpdates.get value).bind id
      {data with messageUpdates := data.messageUpdates.set value (update.2.or earlier)}

/-- Buffer the deletion of one message. -/
def appendDelete (data : Data) (key : MessageKey) : Data :=
  {data with
    messageUpserts := data.messageUpserts.delete (stringifyMessageKey key)
    messageUpdates := data.messageUpdates.delete (stringifyMessageKey key)}

/-- Buffer one message of a history set, unless it was seen before. -/
def appendHistory (s : State) (key : MessageKey) : State :=
  let value := stringifyMessageKey key
  if value ∈ s.data.historyMessages ∨ value ∈ s.historyCache then s
  else
    {s with
      historyCache := value::s.historyCache
      data := {s.data with historyMessages := value::s.data.historyMessages}}

/-- Execute one step. -/
def step (s : State) : Action → Option State
  | .receipt evt => some (dispatchReceipt s evt)
  | .messagesUpsert messages type => some (emitUpsert s messages type)
  | .messagesUpdate updates => some {s with data := updates.foldl appendUpdate s.data}
  | .messagesDelete keys => some {s with data := keys.foldl appendDelete s.data}
  | .historySet messages => some (messages.foldl appendHistory s)
  | .listenersReturn =>
    match s.stack with
    | (messages,type)::rest =>
      let data := {s.data with messageUpserts := InsertionMap.empty}
      some (acceptUpsert {s with data := data, stack := rest} messages type)
    | [] => none
  | .listenersThrow =>
    match s.stack with
    | _::rest => some {s with stack := rest}
    | [] => none

/-- A window that has just begun. -/
def makeWindow (historyCache : List String) : State where
  objects := fun _ => ⟨none,none,none,none⟩
  fresh := 0
  historyCache := historyCache
  data := ⟨[],InsertionMap.empty,InsertionMap.empty,InsertionMap.empty⟩
  hasPendingUpserts := false
  pendingUpsertType := none
  stack := []
  handed := []
  received := []

end Baileyrs.ReceiptBuffer
