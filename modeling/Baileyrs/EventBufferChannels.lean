import Baileyrs.EventBuffer

/-!
# Channels of chats and message changes

How chat upserts, updates and deletions and message updates and deletions are
folded into the pending data, and the part of an event map they fill. An
update may be conditional: its condition sees the pending data and answers
yes, no, or not yet.
-/

namespace Baileyrs.EventBuffer

variable {C : Type*}

/-- A chat. -/
structure Chat where
  /-- Its identifier. -/
  id : Option String
  deriving DecidableEq

/-- A change of a chat. -/
structure ChatUpdate (C : Type*) where
  /-- Identifier of the chat. -/
  id : Option String
  /-- Condition under which the change applies. -/
  conditional : Option C

/-- Fields a message update assigns. -/
structure MessageFields where
  /-- A new key. -/
  key : Option MessageKey
  /-- A new timestamp. -/
  messageTimestamp : Option ℕ
  deriving DecidableEq

/-- A change of a message. -/
structure MessageUpdate where
  /-- Key of the message. -/
  key : MessageKey
  /-- Fields it assigns. -/
  update : MessageFields
  deriving DecidableEq

/-- Forms of a message deletion. -/
inductive MessagesDelete where
  | keys (keys : List MessageKey)
  | all (jid : String)

/-- Events of these channels, and events that are never buffered. -/
inductive ChatEvent (C : Type*) where
  | chatsUpsert (chats : List Chat)
  | chatsUpdate (updates : List (ChatUpdate C))
  | chatsDelete (ids : List String)
  | messagesUpdate (updates : List MessageUpdate)
  | messagesDelete (deletion : MessagesDelete)
  | unbuffered (name : String)

/-- Pending data of these channels. -/
structure ChatData (C : Type*) where
  /-- Pending chats. -/
  chatUpserts : InsertionMap String Chat
  /-- Pending changes of other chats. -/
  chatUpdates : InsertionMap String (ChatUpdate C)
  /-- Pending deletions of chats. -/
  chatDeletes : InsertionMap String Unit
  /-- Pending changes of messages that are not pending. -/
  messageUpdates : InsertionMap String MessageUpdate
  /-- Pending deletions of messages. -/
  messageDeletes : InsertionMap String MessageKey

/-- These channels in an event map; an empty list stands for an absent entry,
and a whole chat deletion appears only when it was passed on. -/
structure ChatMaps (C : Type*) where
  /-- Entry `chats.upsert`. -/
  chatUpserts : List Chat
  /-- Entry `chats.update`. -/
  chatUpdates : List (ChatUpdate C)
  /-- Entry `chats.delete`. -/
  chatDeletes : List String
  /-- Entry `messages.update`. -/
  messageUpdates : List MessageUpdate
  /-- Entry `messages.delete`. -/
  messageDeletes : Option MessagesDelete
  /-- Entry of an event that is never buffered. -/
  unbuffered : Option String

/-- An event map without these channels. -/
def noChatMaps : ChatMaps C := ⟨[],[],[],[],none,none⟩

/-- Data without pending events. -/
def emptyChatData : ChatData C :=
  ⟨InsertionMap.empty,InsertionMap.empty,InsertionMap.empty,InsertionMap.empty,InsertionMap.empty⟩

/-- Assign the fields of an update to a message. -/
def assignFields (message : Message) (fields : MessageFields) : Message where
  key := fields.key.getD message.key
  messageTimestamp := fields.messageTimestamp.or message.messageTimestamp

/-- Assign the fields of a later update to an earlier one. -/
def mergeFields (earlier later : MessageFields) : MessageFields where
  key := later.key.or earlier.key
  messageTimestamp := later.messageTimestamp.or earlier.messageTimestamp

/-- Answer of the condition of an update; without one it applies. -/
def matchesData (evaluate : C → MessageUpserts → ChatData C → Option Bool)
    (upserts : MessageUpserts) (data : ChatData C) (update : ChatUpdate C) : Option Bool :=
  match update.conditional with
  | some condition => evaluate condition upserts data
  | none => some true

/-- Fold the pending change of a chat into the chat. -/
def absorbChatUpdate (evaluate : C → MessageUpserts → ChatData C → Option Bool)
    (upserts : MessageUpserts) (data : ChatData C) (id : String) : ChatData C :=
  match data.chatUpdates.get id with
  | none => data
  | some update =>
    match matchesData evaluate upserts data update with
    | some _ => {data with chatUpdates := data.chatUpdates.delete id}
    | none => data

/-- Buffer one chat. -/
def appendChat (evaluate : C → MessageUpserts → ChatData C → Option Bool)
    (upserts : MessageUpserts) (data : ChatData C) (chat : Chat) : ChatData C :=
  let id := chat.id.getD ""
  let stored : Chat := match data.chatUpserts.get id with
    | some existing => ⟨chat.id.or existing.id⟩
    | none => chat
  let data := {data with chatUpserts := data.chatUpserts.set id stored}
  let data := absorbChatUpdate evaluate upserts data id
  {data with chatDeletes := data.chatDeletes.delete id}

/-- Buffer one change of a chat. -/
def appendChatUpdate (evaluate : C → MessageUpserts → ChatData C → Option Bool)
    (upserts : MessageUpserts) (data : ChatData C) (update : ChatUpdate C) : ChatData C :=
  let id := update.id.getD ""
  let data := match matchesData evaluate upserts data update with
    | some true =>
      match data.chatUpserts.get id with
      | some existing =>
        {data with chatUpserts := data.chatUpserts.set id ⟨update.id.or existing.id⟩}
      | none =>
        let merged : ChatUpdate C := match data.chatUpdates.get id with
          | some pending => ⟨update.id.or pending.id,pending.conditional⟩
          | none => ⟨update.id,none⟩
        {data with chatUpdates := data.chatUpdates.set id merged}
    | some false => data
    | none => {data with chatUpdates := data.chatUpdates.set id update}
  {data with chatDeletes := data.chatDeletes.delete id}

/-- Buffer the deletion of one chat. -/
def appendChatDelete (data : ChatData C) (id : String) : ChatData C :=
  {data with
    chatDeletes := data.chatDeletes.set id ()
    chatUpdates := data.chatUpdates.delete id
    chatUpserts := data.chatUpserts.delete id}

/-- Buffer one change of a message. -/
def appendMessageUpdate (pending : MessageUpserts × ChatData C) (update : MessageUpdate) :
    MessageUpserts × ChatData C :=
  let key := stringifyMessageKey update.key
  match pending.1.get key with
  | some item =>
    (pending.1.set key ⟨assignFields item.message update.update,item.type⟩,pending.2)
  | none =>
    let stored : MessageUpdate := match pending.2.messageUpdates.get key with
      | some earlier => ⟨earlier.key,mergeFields earlier.update update.update⟩
      | none => ⟨update.key,update.update⟩
    (pending.1,{pending.2 with messageUpdates := pending.2.messageUpdates.set key stored})

/-- Buffer the deletion of one message. -/
def appendMessageDelete (pending : MessageUpserts × ChatData C) (key : MessageKey) :
    MessageUpserts × ChatData C :=
  let value := stringifyMessageKey key
  let deletes := match pending.2.messageDeletes.get value with
    | some _ => pending.2.messageDeletes
    | none => pending.2.messageDeletes.set value key
  (pending.1.delete value,
    {pending.2 with
      messageDeletes := deletes
      messageUpdates := pending.2.messageUpdates.delete value})

/-- Buffer one event of these channels. -/
def appendChatEvent (evaluate : C → MessageUpserts → ChatData C → Option Bool)
    (upserts : MessageUpserts) (data : ChatData C) : ChatEvent C → MessageUpserts × ChatData C
  | .chatsUpsert chats => (upserts,chats.foldl (appendChat evaluate upserts) data)
  | .chatsUpdate updates => (upserts,updates.foldl (appendChatUpdate evaluate upserts) data)
  | .chatsDelete ids => (upserts,ids.foldl appendChatDelete data)
  | .messagesUpdate updates => updates.foldl appendMessageUpdate (upserts,data)
  | .messagesDelete (.keys keys) => keys.foldl appendMessageDelete (upserts,data)
  | .messagesDelete (.all _) => (upserts,data)
  | .unbuffered _ => (upserts,data)

/-- Fold the pending change of a message into the message. -/
def absorbMessageUpdate (data : ChatData C) (key : String) (message : Message) :
    ChatData C × Message :=
  match data.messageUpdates.get key with
  | some pending =>
    ({data with messageUpdates := data.messageUpdates.delete key},
      assignFields message pending.update)
  | none => (data,message)

/-- Whether a change of a chat waits for its condition. -/
def waitsForCondition (update : ChatUpdate C) : Bool :=
  update.conditional.isSome && update.id.getD "" != ""

/-- Changes that wait for their condition stay for the next release. -/
def carryChats (data : ChatData C) : ChatData C × ChatData C :=
  let kept := data.chatUpdates.values.filter waitsForCondition
  let next := kept.foldl (fun updates update => updates.set (update.id.getD "") update)
    InsertionMap.empty
  let left := kept.foldl (fun updates update => updates.delete (update.id.getD ""))
    data.chatUpdates
  ({(emptyChatData : ChatData C) with chatUpdates := next},{data with chatUpdates := left})

/-- Entries of an event map for the pending data. -/
def consolidateChats (data : ChatData C) : ChatMaps C where
  chatUpserts := data.chatUpserts.values
  chatUpdates := data.chatUpdates.values
  chatDeletes := data.chatDeletes.keys
  messageUpdates := data.messageUpdates.values
  messageDeletes :=
    match data.messageDeletes.values with
    | [] => none
    | keys => some (.keys keys)
  unbuffered := none

/-- Entry of an event map for one event that is passed on. -/
def singleChats : ChatEvent C → ChatMaps C
  | .chatsUpsert chats => {(noChatMaps : ChatMaps C) with chatUpserts := chats}
  | .chatsUpdate updates => {(noChatMaps : ChatMaps C) with chatUpdates := updates}
  | .chatsDelete ids => {(noChatMaps : ChatMaps C) with chatDeletes := ids}
  | .messagesUpdate updates => {(noChatMaps : ChatMaps C) with messageUpdates := updates}
  | .messagesDelete deletion => {(noChatMaps : ChatMaps C) with messageDeletes := some deletion}
  | .unbuffered name => {(noChatMaps : ChatMaps C) with unbuffered := some name}

/-- Whether these channels have no entry. -/
def isEmptyChats (maps : ChatMaps C) : Bool :=
  maps.chatUpserts.isEmpty && maps.chatUpdates.isEmpty && maps.chatDeletes.isEmpty &&
    maps.messageUpdates.isEmpty && maps.messageDeletes.isNone && maps.unbuffered.isNone

/-- Whether an event takes pending messages away. -/
def removesMessages : ChatEvent C → Bool
  | .messagesDelete _ => true
  | _ => false

/-- Message updates leave the pending messages in place. -/
theorem appendMessageUpdate_keys (pending : MessageUpserts × ChatData C) (updates : List MessageUpdate) :
    (updates.foldl appendMessageUpdate pending).1.keys = pending.1.keys := by
  induction updates generalizing pending with
  | nil => rfl
  | cons update updates ih =>
    rw [List.foldl_cons,ih]
    unfold appendMessageUpdate
    dsimp only
    split
    · rename_i item hitem
      have hpresent : stringifyMessageKey update.key ∈ pending.1.keys :=
        InsertionMap.mem_keys_iff.mpr ⟨item,hitem⟩
      rw [InsertionMap.keys_set,if_pos hpresent]
    · rfl

/-- The channels of chats and message changes. -/
def chatChannels (evaluate : C → MessageUpserts → ChatData C → Option Bool) :
    Channels (ChatEvent C) (ChatData C) (ChatMaps C) where
  makeData := emptyChatData
  bufferable
    | .unbuffered _ => false
    | _ => true
  append := appendChatEvent evaluate
  absorb := absorbMessageUpdate
  carry := carryChats
  consolidate := consolidateChats
  single := singleChats
  nothing := noChatMaps
  isEmpty := isEmptyChats
  removes := removesMessages
  append_keys := by
    intro upserts data event hkeeps
    cases event with
    | messagesUpdate updates => exact appendMessageUpdate_keys (upserts,data) updates
    | messagesDelete deletion => cases hkeeps
    | _ => rfl

end Baileyrs.EventBuffer
