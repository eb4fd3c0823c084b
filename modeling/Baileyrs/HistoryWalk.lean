import Baileyrs.Int64Fields
import Baileyrs.JidParts
import Baileyrs.SparseArrays

/-!
# Walking a decoded history

A history sync is walked once. Chats, contacts, messages and mappings are written through
counters into arrays that are allocated before and cut off behind. The walk is compared
with the lists that the conversations contribute, in their order.
-/

namespace Baileyrs.HistoryWalk

open JsString SparseArray BridgePrimitives
open SignalRouting (isGiven)

section Model

/-- Key of a message. -/
structure MessageKey where
  /-- The chat. -/
  remoteJid : Option JsString
  /-- Sent by this account. -/
  fromMe : Option Bool
  /-- The sender in a group. -/
  participant : Option JsString

/-- A message, with what the walk does not read. -/
structure WAMessage (M : Type*) where
  /-- Its key. -/
  key : Option MessageKey
  /-- The users of its receipts. -/
  userReceipt : Option (List (Option JsString))
  /-- When it was sent. -/
  messageTimestamp : BridgeField
  /-- What it stands for. -/
  messageStubType : Option ℤ
  /-- For whom. -/
  messageStubParameters : Option (List JsString)
  /-- The rest of it. -/
  rest : M

/-- An entry of a conversation. -/
structure HistorySyncMsg (M : Type*) where
  /-- The message. -/
  message : Option (WAMessage M)
  /-- Its place. -/
  msgOrderId : Option BridgeField

/-- A conversation, with what the walk does not read. -/
structure Chat (M C : Type*) where
  /-- The chat. -/
  id : Option JsString
  /-- Name that is shown. -/
  displayName : Option JsString
  /-- Name of the chat. -/
  name : Option JsString
  /-- Name of the user. -/
  username : Option JsString
  /-- LID of the user. -/
  lidJid : Option JsString
  /-- LID of the account. -/
  accountLid : Option JsString
  /-- Phone number of the user. -/
  pnJid : Option JsString
  /-- The messages. -/
  messages : Option (List (HistorySyncMsg M))
  /-- When the last message came in. -/
  lastMessageRecvTimestamp : Option JsNumber
  /-- The rest of it. -/
  rest : C

/-- A contact, by where it comes from. -/
inductive Contact where
  /-- The contact of a chat. -/
  | chat (id : JsString) (name username lid phoneNumber : Option JsString)
  /-- A contact with a verified name. -/
  | verified (id verifiedName : JsString)
  /-- A contact with the name it gave itself. -/
  | pushed (id : JsString) (notify : Option JsString)

/-- A LID and a phone number of one user. -/
structure LIDMapping where
  /-- The LID. -/
  lid : JsString
  /-- The phone number. -/
  pn : JsString

/-- A LID and a phone number as they are sent. -/
structure PhoneNumberToLIDMapping where
  /-- The LID. -/
  lidJid : Option JsString
  /-- The phone number. -/
  pnJid : Option JsString

/-- The name a user gave itself. -/
structure Pushname where
  /-- The user. -/
  id : Option JsString
  /-- The name. -/
  pushname : Option JsString

/-- A decoded history sync. -/
structure HistorySync (M C P : Type*) where
  /-- What is synced. -/
  syncType : Option ℤ
  /-- How much of it. -/
  progress : Option JsNumber
  /-- The conversations. -/
  conversations : Option (List (Chat M C))
  /-- The mappings. -/
  phoneNumberToLidMappings : Option (List PhoneNumberToLIDMapping)
  /-- The names. -/
  pushnames : Option (List Pushname)
  /-- Who has left which group. -/
  pastParticipants : Option P

/-- What is made of a history sync. -/
structure ProcessedHistorySync (M C P : Type*) where
  /-- Its chats. -/
  chats : SparseArray (Chat M C)
  /-- Its contacts. -/
  contacts : SparseArray Contact
  /-- Its messages. -/
  messages : SparseArray (WAMessage M)
  /-- Its mappings. -/
  lidPnMappings : SparseArray LIDMapping
  /-- What is synced. -/
  syncType : Option ℤ
  /-- How much of it. -/
  progress : Option JsNumber
  /-- Who has left which group. -/
  pastParticipants : Option P

variable {M C P : Type*}

/-- A text that counts as true. -/
def truthy (text : Option JsString) : Option JsString := text.filter (· ≠ [])

/-- A JID ends with the mark of a server. -/
def endsWith (jid : JsString) (mark : String) : Bool := (ofString mark).isSuffixOf jid

/-- JID of a phone number. -/
def isPnUser (jid : JsString) : Bool := endsWith jid "@s.whatsapp.net"

/-- JID of a LID. -/
def isLidUser (jid : JsString) : Bool := endsWith jid "@lid"

/-- JID of a hosted LID. -/
def isHostedLidUser (jid : JsString) : Bool := endsWith jid "@hosted.lid"

/-- JID of a hosted phone number. -/
def isHostedPnUser (jid : JsString) : Bool := endsWith jid "@hosted"

/-- A message was sent by this account. -/
def isFromMe (message : WAMessage M) : Bool := message.key.any fun key => key.fromMe = some true

/-- The phone number of a chat by the receipts of what was sent to it. -/
def extractPnFromMessages : List (HistorySyncMsg M) → Option JsString
  | [] => none
  | msgItem::rest =>
    match msgItem.message with
    | none => extractPnFromMessages rest
    | some message =>
      match (if isFromMe message then message.userReceipt.getD [] else []) with
      | [] => extractPnFromMessages rest
      | userJid::_ =>
        match truthy userJid with
        | none => extractPnFromMessages rest
        | some userJid =>
          if isPnUser userJid || isHostedPnUser userJid then some userJid else extractPnFromMessages rest

/-- Sync types with conversations. -/
def CONVERSATION_HISTORY_SYNC_TYPES : List ℤ := [0,3,2,6]

/-- The sync type of names. -/
def PUSH_NAME : ℤ := 4

/-- The stub of a chat that moves to another company. -/
def BIZ_PRIVACY_MODE_TO_FB : ℤ := 128

/-- The stub of a chat that moves to a service of the business. -/
def BIZ_PRIVACY_MODE_TO_BSP : ℤ := 129

/-- A sync has conversations. -/
def isConversationHistorySync (syncType : Option ℤ) : Bool :=
  syncType.any fun syncType => CONVERSATION_HISTORY_SYNC_TYPES.contains syncType

/-- The arrays that are filled, with their counters. -/
structure Walk (M C : Type*) where
  /-- Messages. -/
  messages : Cursor (WAMessage M)
  /-- Contacts. -/
  contacts : Cursor Contact
  /-- Chats. -/
  chats : Cursor (Chat M C)
  /-- Mappings. -/
  lidPnMappings : Cursor LIDMapping

/-- The contact of a stub that has a target. -/
def stubContact (message : WAMessage M) : Option Contact :=
  if message.messageStubType = some BIZ_PRIVACY_MODE_TO_BSP ∨ message.messageStubType = some BIZ_PRIVACY_MODE_TO_FB then
    match truthy (message.messageStubParameters.bind (·.head?)) with
    | none => none
    | some verifiedName =>
      let verifiedNameId := (message.key.bind (·.participant)).or (message.key.bind (·.remoteJid))
      (truthy verifiedNameId).map fun id => .verified id verifiedName
  else none

/-- Walk one entry of a conversation. -/
def walkMessage (state : Walk M C × Chat M C) (histMsg : HistorySyncMsg M) : Walk M C × Chat M C :=
  let (walk,chat) := state
  match histMsg.message with
  | none => (walk,chat)
  | some message =>
    let walk := {walk with messages := walk.messages.put message}
    let chat :=
      if (chat.messages.getD []).length = 0 then {chat with messages := some [⟨some message,none⟩]} else chat
    let chat :=
      if !isFromMe message && !isGiven chat.lastMessageRecvTimestamp then
        {chat with lastMessageRecvTimestamp := some ((asInt64 message.messageTimestamp).getD .zero)}
      else chat
    match stubContact message with
    | none => (walk,chat)
    | some contact => ({walk with contacts := walk.contacts.put contact},chat)

/-- The contact of a chat. -/
def chatContact (chatId : JsString) (chat : Chat M C) : Contact :=
  .chat chatId ((truthy chat.displayName).or ((truthy chat.name).or (truthy chat.username))) (truthy chat.username)
    ((truthy chat.lidJid).or (truthy chat.accountLid)) (truthy chat.pnJid)

/-- The mapping of a chat. -/
def chatMapping (chatId : JsString) (chat : Chat M C) : Option LIDMapping :=
  let isLid := isLidUser chatId || isHostedLidUser chatId
  let isPn := isPnUser chatId || isHostedPnUser chatId
  if isLid && (truthy chat.pnJid).isSome then (truthy chat.pnJid).map fun pnJid => ⟨chatId,pnJid⟩
  else if isPn && (truthy chat.lidJid).isSome then (truthy chat.lidJid).map fun lidJid => ⟨lidJid,chatId⟩
  else if isLid && (truthy chat.pnJid).isNone then
    (extractPnFromMessages (chat.messages.getD [])).map fun pnFromReceipt => ⟨chatId,pnFromReceipt⟩
  else none

/-- Walk one conversation. -/
def walkConversation (walk : Walk M C) (chat : Chat M C) : Walk M C :=
  match truthy chat.id with
  | none => walk
  | some chatId =>
    let walk := {walk with contacts := walk.contacts.put (chatContact chatId chat)}
    let walk :=
      match chatMapping chatId chat with
      | some mapping => {walk with lidPnMappings := walk.lidPnMappings.put mapping}
      | none => walk
    let msgs := chat.messages.getD []
    let (walk,chat) := msgs.foldl walkMessage (walk,{chat with messages := none})
    {walk with chats := walk.chats.put chat}

/-- Mapping of the sync, if it has both. -/
def sourceMapping (m : PhoneNumberToLIDMapping) : Option LIDMapping :=
  match truthy m.lidJid,truthy m.pnJid with
  | some lid,some pn => some ⟨lid,pn⟩
  | _,_ => none

/-- Contact of a name, if it has a user. -/
def pushedContact (c : Pushname) : Option Contact := (truthy c.id).map fun id => .pushed id (truthy c.pushname)

/-- Write what there is of an item. -/
def putSome {α β : Type*} (f : α → Option β) (cursor : Cursor β) (item : α) : Cursor β :=
  match f item with
  | some x => cursor.put x
  | none => cursor

/-- Walk a history sync. -/
def processHistoryMessage (item : HistorySync M C P) : ProcessedHistorySync M C P :=
  let sourceMappings := item.phoneNumberToLidMappings.getD []
  let mappings := sourceMappings.foldl (putSome sourceMapping) (.start sourceMappings.length)
  if isConversationHistorySync item.syncType then
    let conversations := item.conversations.getD []
    let expectedMessages := conversations.foldl (fun n chat => n+(chat.messages.getD []).length) 0
    let walk := conversations.foldl walkConversation
      ⟨.start expectedMessages,.start conversations.length,.start conversations.length,
        (mappings.reserve mappings.count).reserve (mappings.count+conversations.length)⟩
    ⟨walk.chats.close,walk.contacts.close,walk.messages.close,walk.lidPnMappings.close,item.syncType,item.progress,
      item.pastParticipants⟩
  else if item.syncType = some PUSH_NAME then
    let pushnames := item.pushnames.getD []
    let contacts := pushnames.foldl (putSome pushedContact) (.start pushnames.length)
    ⟨.dense [],contacts.close,.dense [],mappings.close,item.syncType,item.progress,item.pastParticipants⟩
  else
    ⟨.dense [],.dense [],.dense [],mappings.close,item.syncType,item.progress,item.pastParticipants⟩

/-- Messages that a conversation contributes. -/
def conversationMessages (chat : Chat M C) : List (WAMessage M) := (chat.messages.getD []).filterMap (·.message)

/-- Contacts that a conversation contributes. -/
def conversationContacts (chatId : JsString) (chat : Chat M C) : List Contact :=
  chatContact chatId chat::(conversationMessages chat).filterMap stubContact

/-- Time of the last message of a chat by its messages: the first that is not zero, of those that came in. -/
def recvTimestamp (initial : Option JsNumber) (messages : List (WAMessage M)) : Option JsNumber :=
  let stamps := (messages.filter fun message => !isFromMe message).map fun message =>
    (asInt64 message.messageTimestamp).getD .zero
  if isGiven initial then initial else (stamps.find? fun x => isGiven (some x)).or (stamps.getLast?.or initial)

/-- A chat as it is contributed: its first message as a preview, and the time of its last one. -/
def previewed (chat : Chat M C) : Chat M C :=
  {chat with
    messages := (conversationMessages chat).head?.map fun message => [⟨some message,none⟩],
    lastMessageRecvTimestamp := recvTimestamp chat.lastMessageRecvTimestamp (conversationMessages chat)}

/-- Conversations that have an id. -/
def kept (conversations : List (Chat M C)) : List (JsString × Chat M C) :=
  conversations.filterMap fun chat => (truthy chat.id).map fun id => (id,chat)

/-- What a history sync is made of, as lists. -/
def historyLists (item : HistorySync M C P) : ProcessedHistorySync M C P :=
  let mappings := (item.phoneNumberToLidMappings.getD []).filterMap sourceMapping
  if isConversationHistorySync item.syncType then
    let chats := kept (item.conversations.getD [])
    ⟨.dense (chats.map fun (_,chat) => previewed chat),
      .dense (chats.flatMap fun (chatId,chat) => conversationContacts chatId chat),
      .dense (chats.flatMap fun (_,chat) => conversationMessages chat),
      .dense (mappings++chats.filterMap fun (chatId,chat) => chatMapping chatId chat),
      item.syncType,item.progress,item.pastParticipants⟩
  else if item.syncType = some PUSH_NAME then
    ⟨.dense [],.dense ((item.pushnames.getD []).filterMap pushedContact),.dense [],.dense mappings,item.syncType,
      item.progress,item.pastParticipants⟩
  else
    ⟨.dense [],.dense [],.dense [],.dense mappings,item.syncType,item.progress,item.pastParticipants⟩

end Model

section Walking

variable {M C P : Type*} {chat : Chat M C} {walk : Walk M C}

/-- Writing what there is of each item writes what the items contribute. -/
theorem holds_putSome {α β : Type*} (f : α → Option β) {cursor : Cursor β} {written : List β} (h : cursor.Holds written)
    (items : List α) : (items.foldl (putSome f) cursor).Holds (written++items.filterMap f) := by
  induction items generalizing cursor written with
  | nil =>
    rw [List.filterMap_nil,List.append_nil]
    exact h
  | cons item rest ih =>
    rw [List.foldl_cons,List.filterMap_cons]
    unfold putSome
    cases f item with
    | none => exact ih h
    | some x =>
      have hput := ih (h.put x)
      rw [List.append_assoc] at hput
      exact hput

/-- Time of the last message once one more is read. -/
def readTimestamp (initial : Option JsNumber) (message : WAMessage M) : Option JsNumber :=
  if !isFromMe message && !isGiven initial then some ((asInt64 message.messageTimestamp).getD .zero) else initial

theorem recvTimestamp_cons (initial : Option JsNumber) (message : WAMessage M) (rest : List (WAMessage M)) :
    recvTimestamp initial (message::rest) = recvTimestamp (readTimestamp initial message) rest := by
  unfold recvTimestamp readTimestamp
  dsimp only
  cases hinitial : isGiven initial with
  | true =>
    rw [Bool.not_true,Bool.and_false,if_neg Bool.false_ne_true,if_pos rfl,hinitial,if_pos rfl]
  | false =>
    rw [Bool.not_false,Bool.and_true,if_neg Bool.false_ne_true]
    cases hown : isFromMe message with
    | true =>
      rw [List.filter_cons,hown,Bool.not_true,if_neg Bool.false_ne_true,if_neg Bool.false_ne_true,hinitial,
        if_neg Bool.false_ne_true]
    | false =>
      rw [List.filter_cons,hown,Bool.not_false,if_pos rfl,if_pos rfl,List.map_cons,List.find?_cons]
      generalize (asInt64 message.messageTimestamp).getD .zero = stamp
      cases hgiven : isGiven (some stamp) with
      | true => rw [if_pos rfl]; rfl
      | false =>
        rw [if_neg Bool.false_ne_true]
        dsimp only
        rw [List.getLast?_cons]
        cases (List.map _ _).getLast? with
        | none => rfl
        | some last => rfl

/-- A chat once some messages are read. -/
def afterMessages (chat : Chat M C) (messages : List (WAMessage M)) : Chat M C :=
  {chat with
    messages :=
      if (chat.messages.getD []).length = 0 then
        (messages.head?.map fun message => [⟨some message,none⟩]).or chat.messages
      else chat.messages,
    lastMessageRecvTimestamp := recvTimestamp chat.lastMessageRecvTimestamp messages}

theorem recvTimestamp_nil (initial : Option JsNumber) : recvTimestamp initial ([] : List (WAMessage M)) = initial := by
  unfold recvTimestamp
  split
  · rfl
  · rfl

theorem afterMessages_nil (chat : Chat M C) : afterMessages chat [] = chat := by
  unfold afterMessages
  rw [recvTimestamp_nil]
  split
  · rfl
  · rfl

/-- Reading messages one by one is reading them together. -/
theorem afterMessages_cons (chat : Chat M C) (message : WAMessage M) (rest : List (WAMessage M)) :
    afterMessages chat (message::rest) = afterMessages (afterMessages chat [message]) rest := by
  have htime : recvTimestamp chat.lastMessageRecvTimestamp (message::rest) =
      recvTimestamp (recvTimestamp chat.lastMessageRecvTimestamp [message]) rest := by
    rw [recvTimestamp_cons,recvTimestamp_cons _ message [],recvTimestamp_nil]
  unfold afterMessages
  dsimp only
  rw [htime]
  by_cases hnone : (chat.messages.getD []).length = 0
  · rw [if_pos hnone,if_pos hnone]
    rfl
  · rw [if_neg hnone,if_neg hnone,if_neg hnone]

/-- An entry with a message writes it, and its stub if that has a target. -/
theorem walkMessage_some (walk : Walk M C) (chat : Chat M C) (message : WAMessage M) (msgOrderId : Option BridgeField) :
    walkMessage (walk,chat) ⟨some message,msgOrderId⟩ =
      ({walk with messages := walk.messages.put message, contacts := putSome stubContact walk.contacts message},
        afterMessages chat [message]) := by
  have hchat : afterMessages chat [message] =
      {(if (chat.messages.getD []).length = 0 then {chat with messages := some [⟨some message,none⟩]} else chat) with
        lastMessageRecvTimestamp := readTimestamp chat.lastMessageRecvTimestamp message} := by
    unfold afterMessages
    rw [recvTimestamp_cons,recvTimestamp_nil]
    split
    · rfl
    · rfl
  unfold walkMessage putSome
  dsimp only
  rw [hchat]
  unfold readTimestamp
  by_cases hnone : (chat.messages.getD []).length = 0
  · simp only [if_pos hnone]
    cases stubContact message with
    | none =>
      dsimp only
      split
      · rfl
      · rfl
    | some contact =>
      dsimp only
      split
      · rfl
      · rfl
  · simp only [if_neg hnone]
    cases stubContact message with
    | none =>
      dsimp only
      split
      · rfl
      · rfl
    | some contact =>
      dsimp only
      split
      · rfl
      · rfl

/-- What is written so far. -/
structure Written (M C : Type*) where
  /-- Messages. -/
  messages : List (WAMessage M)
  /-- Contacts. -/
  contacts : List Contact
  /-- Chats. -/
  chats : List (Chat M C)
  /-- Mappings. -/
  lidPnMappings : List LIDMapping

/-- The arrays hold what is written. -/
structure Walk.Holds (walk : Walk M C) (written : Written M C) : Prop where
  /-- The messages. -/
  messages : walk.messages.Holds written.messages
  /-- The contacts. -/
  contacts : walk.contacts.Holds written.contacts
  /-- The chats. -/
  chats : walk.chats.Holds written.chats
  /-- The mappings. -/
  lidPnMappings : walk.lidPnMappings.Holds written.lidPnMappings

/-- Walking the entries of a conversation writes their messages and the contacts of their stubs. -/
theorem walkMessages_holds {written : Written M C} (h : walk.Holds written) (chat : Chat M C)
    (msgs : List (HistorySyncMsg M)) : ∃ next,
      msgs.foldl walkMessage (walk,chat) = (next,afterMessages chat (msgs.filterMap (·.message))) ∧
        next.Holds ⟨written.messages++msgs.filterMap (·.message),
          written.contacts++(msgs.filterMap (·.message)).filterMap stubContact,written.chats,written.lidPnMappings⟩ := by
  induction msgs generalizing walk chat written with
  | nil =>
    refine ⟨walk,?_,?_⟩
    · rw [List.filterMap_nil,afterMessages_nil]
      rfl
    · rw [List.filterMap_nil,List.filterMap_nil,List.append_nil,List.append_nil]
      exact h
  | cons histMsg rest ih =>
    obtain ⟨message,msgOrderId⟩ := histMsg
    cases message with
    | none =>
      obtain ⟨next,hfold,hnext⟩ := ih h chat
      exact ⟨next,hfold,hnext⟩
    | some message =>
      have hcontacts := holds_putSome stubContact h.contacts [message]
      have hstep : ({walk with
          messages := walk.messages.put message, contacts := putSome stubContact walk.contacts message} :
          Walk M C).Holds ⟨written.messages++[message],written.contacts++[message].filterMap stubContact,written.chats,
            written.lidPnMappings⟩ := ⟨h.messages.put message,hcontacts,h.chats,h.lidPnMappings⟩
      obtain ⟨next,hfold,hnext⟩ := ih hstep (afterMessages chat [message])
      refine ⟨next,?_,?_⟩
      · rw [List.foldl_cons,walkMessage_some,hfold,← afterMessages_cons]
        rfl
      · rw [List.append_assoc,List.append_assoc,← List.filterMap_append] at hnext
        exact hnext

/-- What is written once conversations are walked. -/
def Written.add (written : Written M C) (chats : List (JsString × Chat M C)) : Written M C where
  messages := written.messages++chats.flatMap fun (_,chat) => conversationMessages chat
  contacts := written.contacts++chats.flatMap fun (chatId,chat) => conversationContacts chatId chat
  chats := written.chats++chats.map fun (_,chat) => previewed chat
  lidPnMappings := written.lidPnMappings++chats.filterMap fun (chatId,chat) => chatMapping chatId chat

theorem Written.add_nil (written : Written M C) : written.add [] = written := by
  unfold Written.add
  rw [List.flatMap_nil,List.flatMap_nil,List.map_nil,List.filterMap_nil,List.append_nil,List.append_nil,List.append_nil,
    List.append_nil]

theorem Written.add_append (written : Written M C) (first rest : List (JsString × Chat M C)) :
    written.add (first++rest) = (written.add first).add rest := by
  unfold Written.add
  rw [List.flatMap_append,List.flatMap_append,List.map_append,List.filterMap_append,List.append_assoc,List.append_assoc,
    List.append_assoc,List.append_assoc]

theorem Written.add_single (written : Written M C) (chatId : JsString) (chat : Chat M C) :
    written.add [(chatId,chat)] = ⟨written.messages++conversationMessages chat,
      written.contacts++conversationContacts chatId chat,written.chats++[previewed chat],
      written.lidPnMappings++[chat].filterMap (chatMapping chatId)⟩ := by
  unfold Written.add
  rw [List.flatMap_singleton,List.flatMap_singleton]
  rfl

/-- Walking a conversation writes what it contributes. -/
theorem walkConversation_holds {written : Written M C} (h : walk.Holds written) (chat : Chat M C) :
    (walkConversation walk chat).Holds (written.add (kept [chat])) := by
  unfold walkConversation kept
  rw [List.filterMap_cons,List.filterMap_nil]
  cases hid : truthy chat.id with
  | none =>
    rw [Option.map_none]
    dsimp only
    rw [Written.add_nil]
    exact h
  | some chatId =>
    have hmapped : ({walk with
        contacts := walk.contacts.put (chatContact chatId chat),
        lidPnMappings := putSome (chatMapping chatId) walk.lidPnMappings chat} : Walk M C).Holds
          ⟨written.messages,written.contacts++[chatContact chatId chat],written.chats,
            written.lidPnMappings++[chat].filterMap (chatMapping chatId)⟩ :=
      ⟨h.messages,h.contacts.put _,h.chats,holds_putSome (chatMapping chatId) h.lidPnMappings [chat]⟩
    have hwalk : (match chatMapping chatId chat with
        | some mapping => {walk with
            contacts := walk.contacts.put (chatContact chatId chat), lidPnMappings := walk.lidPnMappings.put mapping}
        | none => {walk with contacts := walk.contacts.put (chatContact chatId chat)} : Walk M C) =
          {walk with
            contacts := walk.contacts.put (chatContact chatId chat),
            lidPnMappings := putSome (chatMapping chatId) walk.lidPnMappings chat} := by
      unfold putSome
      cases chatMapping chatId chat with
      | none => rfl
      | some mapping => rfl
    obtain ⟨next,hfold,hnext⟩ := walkMessages_holds hmapped {chat with messages := none} (chat.messages.getD [])
    have hpreviewed : afterMessages {chat with messages := none} (conversationMessages chat) = previewed chat := by
      have hnone : ((none : Option (List (HistorySyncMsg M))).getD []).length = 0 := rfl
      unfold afterMessages previewed
      dsimp only
      rw [if_pos hnone,Option.or_none]
    rw [Option.map_some]
    dsimp only
    rw [hwalk,hfold,Written.add_single]
    dsimp only
    have hcontacts := hnext.contacts
    have hchats := hnext.chats.put (previewed chat)
    rw [List.append_assoc] at hcontacts
    rw [← hpreviewed] at hchats ⊢
    exact ⟨hnext.messages,hcontacts,hchats,hnext.lidPnMappings⟩

/-- Walking conversations writes what those with an id contribute. -/
theorem walkConversations_holds {written : Written M C} (h : walk.Holds written) (conversations : List (Chat M C)) :
    (conversations.foldl walkConversation walk).Holds (written.add (kept conversations)) := by
  induction conversations generalizing walk written with
  | nil =>
    have hnone : kept ([] : List (Chat M C)) = [] := rfl
    rw [hnone,Written.add_nil]
    exact h
  | cons chat rest ih =>
    have hkept : kept (chat::rest) = kept [chat]++kept rest := by
      unfold kept
      rw [← List.filterMap_append,List.singleton_append]
    rw [List.foldl_cons,hkept,Written.add_append]
    exact ih (walkConversation_holds h chat)

/-- The walk makes the lists of what the conversations contribute, without holes. -/
theorem processHistoryMessage_eq (item : HistorySync M C P) : processHistoryMessage item = historyLists item := by
  have hmappings := holds_putSome sourceMapping (holds_start (item.phoneNumberToLidMappings.getD []).length)
    (item.phoneNumberToLidMappings.getD [])
  rw [List.nil_append] at hmappings
  unfold processHistoryMessage historyLists
  dsimp only
  generalize (item.phoneNumberToLidMappings.getD []).foldl (putSome sourceMapping) _ = mappings at hmappings ⊢
  generalize (item.phoneNumberToLidMappings.getD []).filterMap sourceMapping = sources at hmappings ⊢
  generalize item.conversations.getD [] = conversations
  split
  · have hcount := Nat.le_of_eq hmappings.count.symm
    have hreserved : ((mappings.reserve mappings.count).reserve (mappings.count+conversations.length)).Holds sources :=
      (hmappings.reserve hcount).reserve (hcount.trans (Nat.le_add_right _ _))
    have hstart : (⟨.start (conversations.foldl (fun n chat => n+(chat.messages.getD []).length) 0),
        .start conversations.length,.start conversations.length,
        (mappings.reserve mappings.count).reserve (mappings.count+conversations.length)⟩ : Walk M C).Holds
          ⟨[],[],[],sources⟩ := ⟨holds_start _,holds_start _,holds_start _,hreserved⟩
    have hwalk := walkConversations_holds hstart conversations
    rw [hwalk.chats.close,hwalk.contacts.close,hwalk.messages.close,hwalk.lidPnMappings.close]
    rfl
  · split
    · have hcontacts := holds_putSome pushedContact (holds_start (item.pushnames.getD []).length)
        (item.pushnames.getD [])
      rw [hcontacts.close,hmappings.close]
      rfl
    · rw [hmappings.close]

end Walking

end Baileyrs.HistoryWalk
