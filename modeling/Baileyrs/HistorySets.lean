import Baileyrs.ContactBuffer
import Baileyrs.EventBuffer
import Baileyrs.HistorySync
import Baileyrs.PastParticipants
import Baileyrs.UnreadCounts

/-!
# Buffered history sets

The history sets of one window are released as one. Chats, contacts and messages are
collected in plain objects, unless a cache of names knows them from before; past
participants are merged, and the rest of the released set is rebuilt from the last
event. LID mappings are neither collected nor rebuilt.
-/

namespace Baileyrs.HistorySets

open PlainObjects PastParticipants
open ContactBuffer (Contact Fields assign trimUndefined assignInherited)
open EventBuffer (MessageKey stringifyMessageKey)
open HistorySync (HistorySet)

/-- A chat with its other properties, undefined ones included. -/
structure Chat (K V : Type) extends UnreadCounts.Chat K where
  /-- Its other properties. -/
  others : String → Option (Option V)

/-- A message. -/
structure Message (M : Type) where
  /-- Its key. -/
  key : MessageKey
  /-- The rest of it. -/
  content : M

/-- What is rebuilt from the events themselves. -/
structure Header where
  /-- There was no event. -/
  empty : Bool
  /-- What is synced. -/
  syncType : Option ℤ
  /-- Past participants of groups. -/
  pastParticipants : Option (List GroupEntry)
  /-- Progress of a whole chunk. -/
  progress : Option JsNumber
  /-- Place of the chunk. -/
  chunkOrder : Option JsNumber
  /-- Session of a requested chunk. -/
  peerDataRequestSessionId : Option String
  /-- Whether it is the first sync since pairing. -/
  isLatest : Bool

/-- History that waits for the release, and the cache of names. -/
structure HistoryData (K V M : Type) where
  /-- The chats. -/
  chats : InsertionMap String (Chat K V)
  /-- The contacts. -/
  contacts : InsertionMap String Fields
  /-- The messages. -/
  messages : InsertionMap String (Message M)
  /-- Changes that wait for their chats. -/
  chatUpdates : InsertionMap String (Chat K V)
  /-- Names taken in since the cache was last cleared. -/
  historyCache : Finset String
  /-- The rest. -/
  header : Header

variable {K V M L : Type}

/-- One of the events. -/
abbrev Event (K V M L : Type) := HistorySet (Chat K V) Contact (Message M) GroupEntry L

section Appending

/-- Copy the properties of the second chat to the first. -/
def assignChat (left right : Chat K V) : Chat K V where
  toChat := UnreadCounts.assign left.toChat right.toChat
  others := fun property => (right.others property).or (left.others property)

/-- Set the unread count of a chat. -/
def setUnread (value : Option UnreadCounts.Unread) (chat : Chat K V) : Chat K V :=
  {chat with toChat := UnreadCounts.setUnread value chat.toChat}

/-- A chat with a waiting change folded in. -/
def absorbed (update existing : Chat K V) : Chat K V :=
  let update := {update with conditional := none}
  let cleared : Bool := existing.unreadCount = some .null && UnreadCounts.isNegative update.unreadCount
  let update := if cleared then setUnread (some .undefined) update else update
  let existing := if cleared then setUnread (some .undefined) existing else existing
  assignChat existing (assignChat update {existing with toChat := UnreadCounts.summed update.toChat existing.toChat})

-- Answer of a condition on the pending data: yes, no, or not yet.
variable (evaluate : K → HistoryData K V M → Option Bool)

/-- Fold a waiting change into a chat that was just taken in. -/
def absorbChatUpdate (data : HistoryData K V M) (existing : Chat K V) : HistoryData K V M :=
  match lookup data.chatUpdates existing.name with
  | .own update =>
    match (match update.conditional with
      | some condition => evaluate condition data
      | none => some true) with
    | some true => {data with
        chats := data.chats.set existing.name (absorbed update existing)
        chatUpdates := data.chatUpdates.delete existing.name}
    | some false => {data with chatUpdates := data.chatUpdates.delete existing.name}
    | none => data
  | _ => data

/-- Take in a chat. -/
def addChat (data : HistoryData K V M) (chat : Chat K V) : HistoryData K V M :=
  match lookup data.chats chat.name with
  | .own existing => {data with chats := data.chats.set chat.name {existing with
      others := Function.update existing.others "endOfHistoryTransferType"
        (some (chat.others "endOfHistoryTransferType").join)}}
  | .inherited => data
  | .nothing =>
    if chat.name ∈ data.historyCache then data
    else absorbChatUpdate evaluate {data with
      chats := data.chats.set chat.name chat
      historyCache := insert chat.name data.historyCache} chat

/-- The field is a text that is not empty. -/
def isGiven : Option ContactBuffer.FieldValue → Bool
  | some (.text text) => text ≠ ""
  | _ => false

/-- The contact has a name of some kind. -/
def hasName (contact : Contact) : Bool :=
  isGiven (contact.fields .notify) || isGiven (contact.fields .name) || isGiven (contact.fields .verifiedName)

/-- Take in a contact; true when it throws. -/
def addContact (data : HistoryData K V M) (contact : Contact) : HistoryData K V M × Bool :=
  match lookup data.contacts contact.id with
  | .own existing =>
    ({data with contacts := data.contacts.set contact.id (assign existing (trimUndefined contact.fields))},false)
  | .inherited => (data,assignInherited contact.id (trimUndefined contact.fields))
  | .nothing =>
    if "c:"++contact.id ∉ data.historyCache ∨ hasName contact then
      ({data with
        contacts := data.contacts.set contact.id contact.fields
        historyCache := insert ("c:"++contact.id) data.historyCache},false)
    else (data,false)

/-- Take in a message. -/
def addMessage (data : HistoryData K V M) (message : Message M) : HistoryData K V M :=
  let key := stringifyMessageKey message.key
  match lookup data.messages key with
  | .nothing =>
    if key ∈ data.historyCache then data
    else {data with
      messages := data.messages.set key message
      historyCache := insert key data.historyCache}
  | _ => data

/-- What an event holds. -/
inductive Item (K V M : Type) where
  | chat (chat : Chat K V)
  | contact (contact : Contact)
  | message (message : Message M)

/-- Chats, contacts and messages of an event in the order they are taken in. -/
def items (history : Event K V M L) : List (Item K V M) :=
  history.chats.map .chat++history.contacts.map .contact++history.messages.map .message

/-- Take in an item; true when it throws. -/
def addItem (data : HistoryData K V M) : Item K V M → HistoryData K V M × Bool
  | .chat chat => (addChat evaluate data chat,false)
  | .contact contact => addContact data contact
  | .message message => (addMessage data message,false)

/-- Take in items until one throws. -/
def addItems (data : HistoryData K V M) : List (Item K V M) → HistoryData K V M × Bool
  | [] => (data,false)
  | item::rest =>
    let next := addItem evaluate data item
    if next.2 then next else addItems next.1 rest

/-- Note the rest of an event. -/
def Header.set (header : Header) (history : Event K V M L) : Header where
  empty := false
  syncType := history.syncType
  pastParticipants :=
    if (history.pastParticipants.getD []).length ≠ 0 then
      some (mergePastParticipants header.pastParticipants (history.pastParticipants.getD []))
    else header.pastParticipants
  progress := history.progress
  chunkOrder := history.chunkOrder
  peerDataRequestSessionId := history.peerDataRequestSessionId
  isLatest := history.isLatest.getD false || header.isLatest

/-- Buffer an event. -/
def appendHistory (data : HistoryData K V M) (history : Event K V M L) : HistoryData K V M :=
  let next := addItems evaluate data (items history)
  if next.2 then next.1 else {next.1 with header := next.1.header.set history}

/-- A window before its first event; changes that still wait were carried over. -/
def makeBufferData (carried : InsertionMap String (Chat K V)) (historyCache : Finset String) : HistoryData K V M :=
  ⟨InsertionMap.empty,InsertionMap.empty,InsertionMap.empty,carried,historyCache,
    ⟨true,none,none,none,none,none,false⟩⟩

/-- The released history set, the order of its parts aside. -/
def consolidateHistory (data : HistoryData K V M) :
    Option (HistorySet (Chat K V) Fields (Message M) GroupEntry L) :=
  if data.header.empty then none
  else some {
    chats := data.chats.values
    contacts := data.contacts.values
    messages := data.messages.values
    isLatest := some data.header.isLatest
    progress := data.header.progress
    syncType := data.header.syncType
    pastParticipants := data.header.pastParticipants
    chunkOrder := data.header.chunkOrder
    peerDataRequestSessionId := data.header.peerDataRequestSessionId
    lidPnMappings := none }

/-- What is released after the events of one window. -/
def released (carried : InsertionMap String (Chat K V)) (historyCache : Finset String) (events : List (Event K V M L)) :
    Option (HistorySet (Chat K V) Fields (Message M) GroupEntry L) :=
  consolidateHistory (events.foldl (appendHistory evaluate) (makeBufferData carried historyCache))

end Appending

section Specification

/-- Name of an item in the cache. -/
def Item.cacheName : Item K V M → String
  | .chat item => item.name
  | .contact item => "c:"++item.id
  | .message item => stringifyMessageKey item.key

/-- Name of an item in its object. -/
def Item.objectName : Item K V M → String
  | .chat item => item.name
  | .contact item => item.id
  | .message item => stringifyMessageKey item.key

/-- A contact with a name is taken in whatever the cache says. -/
def Item.exempt : Item K V M → Bool
  | .contact item => hasName item
  | _ => false

/-- Items of all events. -/
def allItems (events : List (Event K V M L)) : List (Item K V M) := events.flatMap items

/-- Past participants of all events. -/
def allEntries (events : List (Event K V M L)) : List GroupEntry :=
  events.flatMap fun event => event.pastParticipants.getD []

/-- Chats, contacts and messages are distinct and new, and so are the users of a group. -/
structure Distinct (historyCache : Finset String) (events : List (Event K V M L)) : Prop where
  /-- No chat comes twice. -/
  chats : ((events.flatMap HistorySet.chats).map fun chat => chat.name).Nodup
  /-- No contact comes twice. -/
  contacts : ((events.flatMap HistorySet.contacts).map Contact.id).Nodup
  /-- No message comes twice. -/
  messages : ((events.flatMap HistorySet.messages).map Message.key).Nodup
  /-- None was seen before. -/
  unseen : ∀ item ∈ allItems events, item.cacheName ∉ historyCache
  /-- No user left a group twice. -/
  participants : DistinctUsers (allEntries events)

/-- A chat as it came, or with a carried change folded in. -/
def Kept (carried : InsertionMap String (Chat K V)) (chat kept : Chat K V) : Prop :=
  kept = chat ∨ ∃ update ∈ carried.values, kept = absorbed update chat

/-- A released set holds all of its events. -/
structure Holds (carried : InsertionMap String (Chat K V)) (events : List (Event K V M L)) (last : Event K V M L)
    (set : HistorySet (Chat K V) Fields (Message M) GroupEntry L) : Prop where
  /-- Every chat once. -/
  chats : ∃ kept, set.chats.Perm kept ∧ List.Forall₂ (Kept carried) (events.flatMap HistorySet.chats) kept
  /-- Every contact once. -/
  contacts : set.contacts.Perm ((events.flatMap HistorySet.contacts).map Contact.fields)
  /-- Every message once. -/
  messages : set.messages.Perm (events.flatMap HistorySet.messages)
  /-- Every past participant of every group once. -/
  participants : ((set.pastParticipants.getD []).flatMap GroupEntry.pairs).Perm
    ((allEntries events).flatMap GroupEntry.pairs)
  /-- Every LID mapping. -/
  mappings : ∀ event ∈ events, ∀ mapping ∈ event.lidPnMappings.getD [], mapping ∈ set.lidPnMappings.getD []
  /-- One of the events was the latest. -/
  isLatest : set.isLatest = some (events.any fun event => event.isLatest.getD false)
  /-- Progress of the last event. -/
  progress : set.progress = last.progress
  /-- Place of the last event. -/
  chunkOrder : set.chunkOrder = last.chunkOrder
  /-- Type of the last event. -/
  syncType : set.syncType = last.syncType

/-- Nothing of the events is lost. -/
def LosesNothing (evaluate : K → HistoryData K V M → Option Bool) (carried : InsertionMap String (Chat K V))
    (historyCache : Finset String) (events : List (Event K V M L)) : Prop :=
  ∀ last, events.getLast? = some last → ∃ set, released evaluate carried historyCache events = some set ∧
    Holds carried events last set

/-- No LID mapping came, nothing is named like a built-in member, and no item shares its
name in the cache with an earlier one, except a contact with a name. -/
structure Lossless (events : List (Event K V M L)) : Prop where
  /-- No LID mappings. -/
  mappings : ∀ event ∈ events, event.lidPnMappings.getD [] = []
  /-- Plain names. -/
  plain : ∀ item ∈ allItems events, item.objectName ∉ inheritedNames
  /-- Names of their own. -/
  apart : (allItems events).Pairwise fun earlier later => later.cacheName = earlier.cacheName → later.exempt = true

/-- Groups are named by JIDs. -/
def GroupsNamed (events : List (Event K V M L)) : Prop := ∀ entry ∈ allEntries events, entry.Named

end Specification

section Collecting

variable {evaluate : K → HistoryData K V M → Option Bool}

/-- Chats among items. -/
def chatsOf (list : List (Item K V M)) : List (Chat K V) :=
  list.filterMap fun item => match item with
    | .chat chat => some chat
    | _ => none

/-- Contacts among items. -/
def contactsOf (list : List (Item K V M)) : List Contact :=
  list.filterMap fun item => match item with
    | .contact contact => some contact
    | _ => none

/-- Messages among items. -/
def messagesOf (list : List (Item K V M)) : List (Message M) :=
  list.filterMap fun item => match item with
    | .message message => some message
    | _ => none

theorem mem_of_chatsOf {list : List (Item K V M)} {chat : Chat K V} (h : chat ∈ chatsOf list) : .chat chat ∈ list := by
  obtain ⟨item,hitem,hsome⟩ := List.mem_filterMap.mp h
  cases item with
  | chat found =>
    cases hsome
    exact hitem
  | contact found => cases hsome
  | message found => cases hsome

theorem mem_of_messagesOf {list : List (Item K V M)} {message : Message M} (h : message ∈ messagesOf list) :
    .message message ∈ list := by
  obtain ⟨item,hitem,hsome⟩ := List.mem_filterMap.mp h
  cases item with
  | chat found => cases hsome
  | contact found => cases hsome
  | message found =>
    cases hsome
    exact hitem

/-- Items are taken in one after the other, each at the end. -/
structure Extends (data : HistoryData K V M) (list : List (Item K V M)) (next : HistoryData K V M) : Prop where
  /-- The chats. -/
  chats : ∃ kept, next.chats.values = data.chats.values++kept ∧ List.Forall₂ (Kept data.chatUpdates) (chatsOf list) kept
  /-- Their names. -/
  chatKeys : next.chats.keys = data.chats.keys++(chatsOf list).map fun chat => chat.name
  /-- The contacts. -/
  contacts : next.contacts.values = data.contacts.values++(contactsOf list).map Contact.fields
  /-- Their names. -/
  contactKeys : next.contacts.keys = data.contacts.keys++(contactsOf list).map Contact.id
  /-- The messages. -/
  messages : next.messages.values = data.messages.values++messagesOf list
  /-- Their names. -/
  messageKeys : next.messages.keys = data.messages.keys++(messagesOf list).map fun message => stringifyMessageKey message.key
  /-- The cache. -/
  cache : ∀ name, name ∈ next.historyCache ↔ name ∈ data.historyCache ∨ name ∈ list.map Item.cacheName
  /-- Waiting changes are only taken away. -/
  updates : ∀ update ∈ next.chatUpdates.values, update ∈ data.chatUpdates.values

theorem Extends.refl (data : HistoryData K V M) : Extends data [] data :=
  ⟨⟨[],(List.append_nil _).symm,.nil⟩,(List.append_nil _).symm,(List.append_nil _).symm,(List.append_nil _).symm,
    (List.append_nil _).symm,(List.append_nil _).symm,fun _ => ⟨.inl,fun h => h.resolve_right List.not_mem_nil⟩,
    fun _ h => h⟩

theorem Extends.trans {data middle next : HistoryData K V M} {list more : List (Item K V M)}
    (h : Extends data list middle) (hmore : Extends middle more next) : Extends data (list++more) next := by
  obtain ⟨kept,hkept,hchats⟩ := h.chats
  obtain ⟨other,hother,hothers⟩ := hmore.chats
  have hweaken : List.Forall₂ (Kept data.chatUpdates) (chatsOf more) other := by
    refine hothers.imp fun chat found hfound => ?_
    rcases hfound with rfl | ⟨update,hupdate,rfl⟩
    · exact .inl rfl
    · exact .inr ⟨update,h.updates update hupdate,rfl⟩
  refine ⟨⟨kept++other,by rw [hother,hkept,List.append_assoc],?_⟩,?_,?_,?_,?_,?_,fun name => ?_,fun update hupdate =>
    h.updates update (hmore.updates update hupdate)⟩
  · rw [chatsOf,List.filterMap_append]
    exact List.rel_append hchats hweaken
  · rw [hmore.chatKeys,h.chatKeys,chatsOf,chatsOf,chatsOf,List.filterMap_append,List.map_append,List.append_assoc]
  · rw [hmore.contacts,h.contacts,contactsOf,contactsOf,contactsOf,List.filterMap_append,List.map_append,
      List.append_assoc]
  · rw [hmore.contactKeys,h.contactKeys,contactsOf,contactsOf,contactsOf,List.filterMap_append,List.map_append,
      List.append_assoc]
  · rw [hmore.messages,h.messages,messagesOf,messagesOf,messagesOf,List.filterMap_append,List.append_assoc]
  · rw [hmore.messageKeys,h.messageKeys,messagesOf,messagesOf,messagesOf,List.filterMap_append,List.map_append,
      List.append_assoc]
  · rw [hmore.cache,h.cache,List.map_append,List.mem_append,or_assoc]

/-- An item that is new in its object. -/
def Item.Absent (data : HistoryData K V M) : Item K V M → Prop
  | .chat item => item.name ∉ data.chats.keys
  | .contact item => item.id ∉ data.contacts.keys
  | .message item => stringifyMessageKey item.key ∉ data.messages.keys

/-- An item that will be stored. -/
structure Storable (data : HistoryData K V M) (item : Item K V M) : Prop where
  /-- It is new. -/
  new : item.Absent data
  /-- Its name is plain. -/
  plain : item.objectName ∉ inheritedNames
  /-- The cache does not hide it. -/
  free : item.cacheName ∈ data.historyCache → item.exempt = true

theorem extends_chat {data : HistoryData K V M} {chat kept : Chat K V} {updates : InsertionMap String (Chat K V)}
    (h : data.chats.get chat.name = none) (hkept : Kept data.chatUpdates chat kept)
    (hupdates : ∀ update ∈ updates.values, update ∈ data.chatUpdates.values) :
    Extends data [.chat chat] {data with
      chats := data.chats.set chat.name kept
      chatUpdates := updates
      historyCache := insert chat.name data.historyCache} := by
  refine ⟨⟨[kept],InsertionMap.values_set_of_absent kept h,.cons hkept .nil⟩,InsertionMap.keys_set_of_absent kept h,
    (List.append_nil _).symm,(List.append_nil _).symm,(List.append_nil _).symm,(List.append_nil _).symm,fun name => ?_,
    hupdates⟩
  rw [Finset.mem_insert,or_comm]
  exact or_congr_right List.mem_singleton.symm

theorem absorbChatUpdate_extends {data : HistoryData K V M} {chat : Chat K V} (h : data.chats.get chat.name = none) :
    Extends data [.chat chat] (absorbChatUpdate evaluate {data with
      chats := data.chats.set chat.name chat
      historyCache := insert chat.name data.historyCache} chat) := by
  have hcame := extends_chat h (.inl rfl) fun _ hupdate => hupdate
  unfold absorbChatUpdate
  split
  · rename_i update hwaiting
    have hupdate : update ∈ data.chatUpdates.values := InsertionMap.mem_values_iff.mpr ⟨_,lookup_own hwaiting⟩
    split
    · dsimp only
      rw [InsertionMap.set_set]
      exact extends_chat h (.inr ⟨update,hupdate,rfl⟩) fun _ hother => InsertionMap.mem_values_delete hother
    · exact extends_chat h (.inl rfl) fun _ hother => InsertionMap.mem_values_delete hother
    · exact hcame
  · exact hcame

/-- An item that can be stored is taken in. -/
theorem Storable.extends {data : HistoryData K V M} {item : Item K V M} (h : Storable data item) :
    Extends data [item] (addItem evaluate data item).1 ∧ (addItem evaluate data item).2 = false := by
  cases item with
  | chat chat =>
    have hget := InsertionMap.get_eq_none_iff.mpr h.new
    have hfree : chat.name ∉ data.historyCache := fun hmem => nomatch h.free hmem
    refine ⟨?_,rfl⟩
    rw [addItem,addChat,lookup_new hget h.plain]
    dsimp only
    rw [if_neg hfree]
    exact absorbChatUpdate_extends hget
  | contact contact =>
    have hget := InsertionMap.get_eq_none_iff.mpr h.new
    have hfree : "c:"++contact.id ∉ data.historyCache ∨ hasName contact = true := by
      by_cases hmem : "c:"++contact.id ∈ data.historyCache
      · exact .inr (h.free hmem)
      · exact .inl hmem
    rw [addItem,addContact,lookup_new hget h.plain]
    dsimp only
    rw [if_pos hfree]
    refine ⟨⟨⟨[],(List.append_nil _).symm,.nil⟩,(List.append_nil _).symm,InsertionMap.values_set_of_absent _ hget,
      InsertionMap.keys_set_of_absent _ hget,(List.append_nil _).symm,(List.append_nil _).symm,fun name => ?_,
      fun _ hupdate => hupdate⟩,rfl⟩
    rw [Finset.mem_insert,or_comm]
    exact or_congr_right List.mem_singleton.symm
  | message message =>
    have hget := InsertionMap.get_eq_none_iff.mpr h.new
    have hfree : stringifyMessageKey message.key ∉ data.historyCache := fun hmem => nomatch h.free hmem
    refine ⟨?_,rfl⟩
    rw [addItem,addMessage,lookup_new hget h.plain]
    dsimp only
    rw [if_neg hfree]
    refine ⟨⟨[],(List.append_nil _).symm,.nil⟩,(List.append_nil _).symm,(List.append_nil _).symm,
      (List.append_nil _).symm,InsertionMap.values_set_of_absent _ hget,InsertionMap.keys_set_of_absent _ hget,
      fun name => ?_,fun _ hupdate => hupdate⟩
    rw [Finset.mem_insert,or_comm]
    exact or_congr_right List.mem_singleton.symm

/-- Items the cache lets through. -/
structure Accepted (historyCache : Finset String) (list : List (Item K V M)) : Prop where
  /-- Their names are plain. -/
  plain : ∀ item ∈ list, item.objectName ∉ inheritedNames
  /-- None hides a later one. -/
  apart : list.Pairwise fun earlier later => later.cacheName = earlier.cacheName → later.exempt = true
  /-- None is hidden. -/
  free : ∀ item ∈ list, item.cacheName ∈ historyCache → item.exempt = true

/-- Items that will all be stored. -/
structure Ready (data : HistoryData K V M) (list : List (Item K V M)) : Prop where
  /-- The cache lets them through. -/
  accepted : Accepted data.historyCache list
  /-- They are new. -/
  new : ∀ item ∈ list, item.Absent data
  /-- No contact comes twice. -/
  contacts : ((contactsOf list).map Contact.id).Nodup

/-- So can a part of them. -/
theorem Ready.left {data : HistoryData K V M} {list more : List (Item K V M)} (h : Ready data (list++more)) :
    Ready data list := by
  have hmem : ∀ {item}, item ∈ list → item ∈ list++more := fun hitem => List.mem_append_left more hitem
  refine ⟨⟨fun item hitem => h.accepted.plain item (hmem hitem),(List.pairwise_append.mp h.accepted.apart).1,
    fun item hitem => h.accepted.free item (hmem hitem)⟩,fun item hitem => h.new item (hmem hitem),?_⟩
  refine h.contacts.sublist (List.Sublist.map _ ?_)
  exact (List.sublist_append_left list more).filterMap _

/-- Stored items leave the others ready. -/
theorem Ready.next {data next : HistoryData K V M} {list rest : List (Item K V M)}
    (h : Ready data (list++rest)) (hnext : Extends data list next) : Ready next rest := by
  have happart := List.pairwise_append.mp h.accepted.apart
  have hrest : ∀ {other}, other ∈ rest → other ∈ list++rest := fun hother => List.mem_append_right list hother
  refine ⟨⟨fun other hother => h.accepted.plain other (hrest hother),happart.2.1,fun other hother hmem => ?_⟩,
    fun other hother => ?_,?_⟩
  · rcases (hnext.cache _).mp hmem with hold | hnew
    · exact h.accepted.free other (hrest hother) hold
    · obtain ⟨stored,hstored,hname⟩ := List.mem_map.mp hnew
      exact happart.2.2 stored hstored other hother hname.symm
  · have habsent := h.new other (hrest hother)
    cases other with
    | chat chat =>
      rw [Item.Absent,hnext.chatKeys,List.mem_append,not_or]
      refine ⟨habsent,fun hmem => ?_⟩
      obtain ⟨stored,hstored,hname⟩ := List.mem_map.mp hmem
      have hitem : Item.chat stored ∈ list := mem_of_chatsOf hstored
      exact nomatch happart.2.2 _ hitem _ hother hname.symm
    | contact contact =>
      rw [Item.Absent,hnext.contactKeys,List.mem_append,not_or]
      refine ⟨habsent,fun hmem => ?_⟩
      have hcontacts := h.contacts
      rw [contactsOf,List.filterMap_append,List.map_append] at hcontacts
      have hmember : contact ∈ contactsOf rest := List.mem_filterMap.mpr ⟨_,hother,rfl⟩
      exact (List.nodup_append.mp hcontacts).2.2 _ hmem _ (List.mem_map_of_mem hmember) rfl
    | message message =>
      rw [Item.Absent,hnext.messageKeys,List.mem_append,not_or]
      refine ⟨habsent,fun hmem => ?_⟩
      obtain ⟨stored,hstored,hname⟩ := List.mem_map.mp hmem
      have hitem : Item.message stored ∈ list := mem_of_messagesOf hstored
      exact nomatch happart.2.2 _ hitem _ hother hname.symm
  · refine h.contacts.sublist (List.Sublist.map _ ?_)
    exact (List.sublist_append_right list rest).filterMap _

theorem Ready.extends {data : HistoryData K V M} {list : List (Item K V M)} (h : Ready data list) :
    Extends data list (addItems evaluate data list).1 ∧ (addItems evaluate data list).2 = false := by
  induction list generalizing data with
  | nil => exact ⟨Extends.refl data,rfl⟩
  | cons item rest ih =>
    have hstorable : Storable data item := ⟨h.new item List.mem_cons_self,
      h.accepted.plain item List.mem_cons_self,h.accepted.free item List.mem_cons_self⟩
    have hstored : Extends data [item] (addItem evaluate data item).1 ∧ (addItem evaluate data item).2 = false :=
      hstorable.extends
    have hsplit : Ready data ([item]++rest) := h
    have hrest := ih (hsplit.next hstored.1)
    rw [addItems,hstored.2,if_neg Bool.false_ne_true]
    exact ⟨hstored.1.trans hrest.1,hrest.2⟩

theorem addItem_header (data : HistoryData K V M) (item : Item K V M) :
    (addItem evaluate data item).1.header = data.header := by
  cases item with
  | chat chat =>
    rw [addItem,addChat]
    split
    · rfl
    · rfl
    · split
      · rfl
      · unfold absorbChatUpdate
        split
        · split
          · rfl
          · rfl
          · rfl
        · rfl
  | contact contact =>
    rw [addItem,addContact]
    split
    · rfl
    · rfl
    · split
      · rfl
      · rfl
  | message message =>
    rw [addItem,addMessage]
    dsimp only
    split
    · split
      · rfl
      · rfl
    · rfl

theorem addItems_header (data : HistoryData K V M) (list : List (Item K V M)) :
    (addItems evaluate data list).1.header = data.header := by
  induction list generalizing data with
  | nil => rfl
  | cons item rest ih =>
    rw [addItems]
    split
    · exact addItem_header data item
    · rw [ih,addItem_header]

/-- The items of all events are taken in, and the rest is noted event by event. -/
theorem Ready.run {data : HistoryData K V M} {events : List (Event K V M L)} (h : Ready data (allItems events)) :
    Extends data (allItems events) (events.foldl (appendHistory evaluate) data) ∧
      (events.foldl (appendHistory evaluate) data).header = events.foldl Header.set data.header := by
  induction events generalizing data with
  | nil => exact ⟨Extends.refl data,rfl⟩
  | cons event rest ih =>
    have hsplit : Ready data (items event++allItems rest) := h
    have hstored : Extends data (items event) (addItems evaluate data (items event)).1 ∧
        (addItems evaluate data (items event)).2 = false := hsplit.left.extends
    have happend : appendHistory evaluate data event = {(addItems evaluate data (items event)).1 with
        header := data.header.set event} := by
      rw [appendHistory]
      dsimp only
      rw [hstored.2,if_neg Bool.false_ne_true,addItems_header]
    have hevent : Extends data (items event) (appendHistory evaluate data event) := by
      rw [happend]
      exact ⟨hstored.1.chats,hstored.1.chatKeys,hstored.1.contacts,hstored.1.contactKeys,hstored.1.messages,
        hstored.1.messageKeys,hstored.1.cache,hstored.1.updates⟩
    have hrest := ih (hsplit.next hevent)
    refine ⟨hevent.trans hrest.1,?_⟩
    rw [List.foldl_cons,hrest.2,List.foldl_cons,happend]

end Collecting

section Counting

variable {evaluate : K → HistoryData K V M → Option Bool}

/-- Number of collected items. -/
def HistoryData.size (data : HistoryData K V M) : ℕ :=
  data.chats.values.length+data.contacts.values.length+data.messages.values.length

/-- Every item is of one kind. -/
theorem length_parts (list : List (Item K V M)) :
    (chatsOf list).length+(contactsOf list).length+(messagesOf list).length = list.length := by
  induction list with
  | nil => rfl
  | cons item rest ih =>
    have hlength : (item::rest).length = rest.length+1 := rfl
    cases item with
    | chat chat =>
      have hmore : (chatsOf (Item.chat chat::rest)).length = (chatsOf rest).length+1 := rfl
      have hcontacts : contactsOf (Item.chat chat::rest) = contactsOf rest := rfl
      have hmessages : messagesOf (Item.chat chat::rest) = messagesOf rest := rfl
      rw [hcontacts,hmessages]
      omega
    | contact contact =>
      have hmore : (contactsOf (Item.contact contact::rest)).length = (contactsOf rest).length+1 := rfl
      have hchats : chatsOf (Item.contact contact::rest) = chatsOf rest := rfl
      have hmessages : messagesOf (Item.contact contact::rest) = messagesOf rest := rfl
      rw [hchats,hmessages]
      omega
    | message message =>
      have hmore : (messagesOf (Item.message message::rest)).length = (messagesOf rest).length+1 := rfl
      have hchats : chatsOf (Item.message message::rest) = chatsOf rest := rfl
      have hcontacts : contactsOf (Item.message message::rest) = contactsOf rest := rfl
      rw [hchats,hcontacts]
      omega

theorem Extends.size {data next : HistoryData K V M} {list : List (Item K V M)} (h : Extends data list next) :
    next.size = data.size+list.length := by
  obtain ⟨kept,hkept,hchats⟩ := h.chats
  have hparts := length_parts list
  unfold HistoryData.size
  rw [hkept,h.contacts,h.messages,List.length_append,List.length_append,List.length_append,List.length_map,
    ← hchats.length_eq]
  omega

/-- An item that cannot be stored is not counted. -/
theorem addItem_size {data : HistoryData K V M} {item : Item K V M} (h : ¬Storable data item) :
    (addItem evaluate data item).1.size = data.size := by
  cases item with
  | chat chat =>
    rw [addItem,addChat]
    split
    · rename_i existing hheld
      unfold HistoryData.size
      rw [InsertionMap.length_values_set (lookup_own hheld)]
    · rfl
    · rename_i hheld
      have hnothing := lookup_nothing hheld
      split
      · rfl
      · rename_i hfree
        exact absurd ⟨InsertionMap.get_eq_none_iff.mp hnothing.1,hnothing.2,fun hmem => absurd hmem hfree⟩ h
  | contact contact =>
    rw [addItem,addContact]
    split
    · rename_i existing hheld
      unfold HistoryData.size
      rw [InsertionMap.length_values_set (lookup_own hheld)]
    · rfl
    · rename_i hheld
      have hnothing := lookup_nothing hheld
      split
      · rename_i hfree
        exact absurd ⟨InsertionMap.get_eq_none_iff.mp hnothing.1,hnothing.2,fun hmem =>
          hfree.resolve_left fun hnot => hnot hmem⟩ h
      · rfl
  | message message =>
    rw [addItem,addMessage]
    dsimp only
    split
    · rename_i hheld
      have hnothing := lookup_nothing hheld
      split
      · rfl
      · rename_i hfree
        exact absurd ⟨InsertionMap.get_eq_none_iff.mp hnothing.1,hnothing.2,fun hmem => absurd hmem hfree⟩ h
    · rfl

/-- Accepted items followed by items the grown cache accepts. -/
theorem Accepted.append {historyCache grown : Finset String} {list more : List (Item K V M)}
    (h : Accepted historyCache list) (hmore : Accepted grown more)
    (hgrown : ∀ name, name ∈ historyCache ∨ name ∈ list.map Item.cacheName → name ∈ grown) :
    Accepted historyCache (list++more) := by
  refine ⟨fun item hitem => ?_,List.pairwise_append.mpr ⟨h.apart,hmore.apart,fun earlier hearlier later hlater hname => ?_⟩,
    fun item hitem hmem => ?_⟩
  · rcases List.mem_append.mp hitem with hleft | hright
    · exact h.plain item hleft
    · exact hmore.plain item hright
  · exact hmore.free later hlater (hgrown _ (.inr (hname ▸ List.mem_map_of_mem hearlier)))
  · rcases List.mem_append.mp hitem with hleft | hright
    · exact h.free item hleft hmem
    · exact hmore.free item hright (hgrown _ (.inl hmem))

/-- When every item was counted. -/
structure Counted (data : HistoryData K V M) (list : List (Item K V M)) (next : HistoryData K V M) : Prop where
  /-- No more than the items. -/
  bound : next.size ≤ data.size+list.length
  /-- All of them were accepted. -/
  accepted : next.size = data.size+list.length → Accepted data.historyCache list
  /-- All of them are in the cache. -/
  cached : next.size = data.size+list.length → ∀ name,
    name ∈ data.historyCache ∨ name ∈ list.map Item.cacheName → name ∈ next.historyCache

theorem Counted.refl (data : HistoryData K V M) : Counted data [] data :=
  ⟨Nat.le_refl _,fun _ => ⟨(fun _ h => nomatch h),List.Pairwise.nil,(fun _ h => nomatch h)⟩,
    fun _ _ h => h.resolve_right List.not_mem_nil⟩

theorem Counted.trans {data middle next : HistoryData K V M} {list more : List (Item K V M)}
    (h : Counted data list middle) (hmore : Counted middle more next) : Counted data (list++more) next := by
  have hbound := h.bound
  have hother := hmore.bound
  have hparts : next.size = data.size+(list++more).length →
      middle.size = data.size+list.length ∧ next.size = middle.size+more.length := by
    intro hall
    rw [List.length_append] at hall
    omega
  refine ⟨by rw [List.length_append]; omega,fun hall => ?_,fun hall name hname => ?_⟩
  · have hboth := hparts hall
    exact (h.accepted hboth.1).append (hmore.accepted hboth.2) (h.cached hboth.1)
  · have hboth := hparts hall
    rw [List.map_append,List.mem_append,← or_assoc] at hname
    exact hmore.cached hboth.2 name (hname.imp_left (h.cached hboth.1 name))

theorem addItem_counted (data : HistoryData K V M) (item : Item K V M) :
    Counted data [item] (addItem evaluate data item).1 := by
  by_cases h : Storable data item
  · have hstored : Extends data [item] (addItem evaluate data item).1 := h.extends.1
    have hsize := hstored.size
    refine ⟨Nat.le_of_eq hsize,fun _ => ⟨?_,List.pairwise_singleton _ _,?_⟩,fun _ name hname => (hstored.cache name).mpr hname⟩
    · exact fun other hother => List.mem_singleton.mp hother ▸ h.plain
    · exact fun other hother => List.mem_singleton.mp hother ▸ h.free
  · have hsize : (addItem evaluate data item).1.size = data.size := addItem_size h
    have hone : [item].length = 1 := rfl
    exact ⟨by omega,fun hall => by omega,fun hall => by omega⟩

/-- Items that throw are not counted. -/
theorem addItem_thrown {data : HistoryData K V M} {item : Item K V M} (h : (addItem evaluate data item).2 = true) :
    (addItem evaluate data item).1.size = data.size := by
  refine addItem_size fun hstorable => ?_
  have hnot : (addItem evaluate data item).2 = false := hstorable.extends.2
  rw [hnot] at h
  cases h

theorem addItems_counted (data : HistoryData K V M) (list : List (Item K V M)) :
    Counted data list (addItems evaluate data list).1 := by
  induction list generalizing data with
  | nil => exact Counted.refl data
  | cons item rest ih =>
    rw [addItems]
    split
    · rename_i hthrown
      have hsize := addItem_thrown hthrown
      have hlength : (item::rest).length = rest.length+1 := rfl
      exact ⟨by omega,fun hall => by omega,fun hall => by omega⟩
    · exact (addItem_counted data item).trans (ih _)

theorem run_counted (data : HistoryData K V M) (events : List (Event K V M L)) :
    Counted data (allItems events) (events.foldl (appendHistory evaluate) data) := by
  induction events generalizing data with
  | nil => exact Counted.refl data
  | cons event rest ih =>
    have hitems : Counted data (items event) (addItems evaluate data (items event)).1 := addItems_counted data _
    have hevent : Counted data (items event) (appendHistory evaluate data event) := by
      rw [appendHistory]
      dsimp only
      split
      · exact hitems
      · exact ⟨hitems.bound,hitems.accepted,hitems.cached⟩
    exact hevent.trans (ih _)

end Counting

section Release

variable {evaluate : K → HistoryData K V M → Option Bool} {carried : InsertionMap String (Chat K V)}
  {historyCache : Finset String} {events : List (Event K V M L)}

theorem parts_items (history : Event K V M L) : chatsOf (items history) = history.chats ∧
    contactsOf (items history) = history.contacts ∧ messagesOf (items history) = history.messages := by
  unfold chatsOf contactsOf messagesOf items
  simp only [List.filterMap_append,List.filterMap_map,Function.comp_def,List.filterMap_some,List.filterMap_none,
    List.nil_append,List.append_nil,and_self]

theorem parts_allItems (events : List (Event K V M L)) : chatsOf (allItems events) = events.flatMap HistorySet.chats ∧
    contactsOf (allItems events) = events.flatMap HistorySet.contacts ∧
    messagesOf (allItems events) = events.flatMap HistorySet.messages := by
  induction events with
  | nil => exact ⟨rfl,rfl,rfl⟩
  | cons event rest ih =>
    have hevent := parts_items event
    have hsplit : allItems (event::rest) = items event++allItems rest := rfl
    rw [hsplit,List.flatMap_cons,List.flatMap_cons,List.flatMap_cons,← ih.1,← ih.2.1,← ih.2.2,← hevent.1,← hevent.2.1,
      ← hevent.2.2]
    exact ⟨List.filterMap_append,List.filterMap_append,List.filterMap_append⟩

/-- Distinct items without losses are ready. -/
theorem Lossless.ready (h : Lossless events) (hdistinct : Distinct historyCache events) :
    Ready (makeBufferData (M := M) carried historyCache) (allItems events) := by
  refine ⟨⟨h.plain,h.apart,fun item hitem hmem => absurd hmem (hdistinct.unseen item hitem)⟩,fun item _ => ?_,?_⟩
  · cases item with
    | chat chat => exact List.not_mem_nil
    | contact contact => exact List.not_mem_nil
    | message message => exact List.not_mem_nil
  · rw [(parts_allItems events).2.1]
    exact hdistinct.contacts

theorem isLatest_run (header : Header) (events : List (Event K V M L)) :
    (events.foldl Header.set header).isLatest = (header.isLatest || events.any fun event => event.isLatest.getD false) := by
  induction events generalizing header with
  | nil => exact (Bool.or_false _).symm
  | cons event rest ih =>
    rw [List.foldl_cons,ih,List.any_cons,Header.set,Bool.or_comm (event.isLatest.getD false),Bool.or_assoc]

/-- Noting an event merges its past participants. -/
theorem set_participants {header : Header} {event : Event K V M L}
    (hnamed : ∀ entry ∈ header.pastParticipants.getD []++event.pastParticipants.getD [], entry.Named)
    (hdistinct : DistinctUsers (header.pastParticipants.getD []++event.pastParticipants.getD [])) :
    (((header.set event).pastParticipants.getD []).flatMap GroupEntry.pairs).Perm
      ((header.pastParticipants.getD []++event.pastParticipants.getD []).flatMap GroupEntry.pairs) ∧
    ∀ entry ∈ (header.set event).pastParticipants.getD [], entry.Named := by
  rw [Header.set]
  dsimp only
  split
  · exact mergePastParticipants_pairs hnamed hdistinct
  · rename_i hnone
    have hempty : event.pastParticipants.getD [] = [] := List.length_eq_zero_iff.mp (not_not.mp hnone)
    rw [hempty,List.append_nil] at hnamed ⊢
    exact ⟨List.Perm.refl _,hnamed⟩

/-- Noting events keeps every past participant once. -/
theorem participants_run {header : Header} {events : List (Event K V M L)}
    (hnamed : ∀ entry ∈ header.pastParticipants.getD []++allEntries events, entry.Named)
    (hdistinct : DistinctUsers (header.pastParticipants.getD []++allEntries events)) :
    (((events.foldl Header.set header).pastParticipants.getD []).flatMap GroupEntry.pairs).Perm
      ((header.pastParticipants.getD []++allEntries events).flatMap GroupEntry.pairs) := by
  induction events generalizing header with
  | nil => exact List.Perm.of_eq (congrArg _ (List.append_nil _).symm)
  | cons event rest ih =>
    have hsplit : header.pastParticipants.getD []++allEntries (event::rest) =
        (header.pastParticipants.getD []++event.pastParticipants.getD [])++allEntries rest := by
      rw [List.append_assoc]
      rfl
    rw [hsplit] at hnamed hdistinct ⊢
    have hfirst : DistinctUsers (header.pastParticipants.getD []++event.pastParticipants.getD []) := by
      unfold DistinctUsers at hdistinct ⊢
      rw [List.flatMap_append,List.map_append] at hdistinct
      exact (List.nodup_append.mp hdistinct).1
    have hset := set_participants (fun entry hentry => hnamed entry (List.mem_append_left _ hentry)) hfirst
    have hmoved : (((header.set event).pastParticipants.getD []++allEntries rest).flatMap GroupEntry.pairs).Perm
        (((header.pastParticipants.getD []++event.pastParticipants.getD [])++allEntries rest).flatMap
          GroupEntry.pairs) := by
      rw [List.flatMap_append,@List.flatMap_append _ _ (_++_)]
      exact hset.1.append_right _
    refine (ih (fun entry hentry => ?_) ((hmoved.map member?).nodup_iff.mpr hdistinct)).trans hmoved
    rcases List.mem_append.mp hentry with hmerged | hrest
    · exact hset.2 entry hmerged
    · exact hnamed entry (List.mem_append_right _ hrest)

/-- Without losses a window releases all of its events. -/
theorem Lossless.holds (h : Lossless events) (hdistinct : Distinct historyCache events) (hgroups : GroupsNamed events) :
    LosesNothing evaluate carried historyCache events := by
  intro last hlast
  obtain ⟨before,hevents⟩ := List.getLast?_eq_some_iff.mp hlast
  have hrun : Extends (makeBufferData carried historyCache) (allItems events)
      (events.foldl (appendHistory evaluate) (makeBufferData carried historyCache)) ∧ _ := (h.ready hdistinct).run
  obtain ⟨hextends,hheader⟩ := hrun
  obtain ⟨hchats,hcontacts,hmessages⟩ := parts_allItems events
  have hset : (events.foldl (appendHistory evaluate) (makeBufferData carried historyCache)).header =
      (before.foldl Header.set (makeBufferData (M := M) carried historyCache).header).set last := by
    rw [hheader,hevents,List.foldl_append]
    rfl
  unfold released consolidateHistory
  rw [if_neg (by rw [hset]; exact Bool.false_ne_true)]
  refine ⟨_,rfl,?_,?_,?_,?_,fun event hevent mapping hmapping => ?_,?_,?_,?_,?_⟩
  · obtain ⟨kept,hvalues,hkept⟩ := hextends.chats
    rw [hchats] at hkept
    exact ⟨kept,List.Perm.of_eq hvalues,hkept⟩
  · rw [← hcontacts]
    exact List.Perm.of_eq hextends.contacts
  · rw [← hmessages]
    exact List.Perm.of_eq hextends.messages
  · dsimp only
    rw [hheader]
    exact participants_run hgroups hdistinct.participants
  · rw [h.mappings event hevent] at hmapping
    exact absurd hmapping List.not_mem_nil
  · dsimp only
    rw [hheader,isLatest_run]
    rfl
  · dsimp only
    rw [hset]
    rfl
  · dsimp only
    rw [hset]
    rfl
  · dsimp only
    rw [hset]
    rfl

/-- A window that loses nothing is without losses. -/
theorem LosesNothing.lossless (h : LosesNothing evaluate carried historyCache events) : Lossless events := by
  cases hlast : events.getLast? with
  | none =>
    have hnone := List.getLast?_eq_none_iff.mp hlast
    subst hnone
    exact ⟨(fun _ hevent => nomatch hevent),(fun _ hitem => nomatch hitem),List.Pairwise.nil⟩
  | some last =>
    obtain ⟨set,hreleased,hholds⟩ := h last hlast
    obtain ⟨hchats,hcontacts,hmessages⟩ := parts_allItems events
    unfold released consolidateHistory at hreleased
    split at hreleased
    · cases hreleased
    · cases hreleased
      have hcounted : Counted (makeBufferData carried historyCache) (allItems events)
          (events.foldl (appendHistory evaluate) (makeBufferData carried historyCache)) := run_counted _ events
      obtain ⟨kept,hperm,hkept⟩ := hholds.chats
      have hall : (events.foldl (appendHistory evaluate) (makeBufferData carried historyCache)).size =
          (makeBufferData (M := M) carried historyCache).size+(allItems events).length := by
        have hchatCount := hperm.length_eq.trans hkept.length_eq.symm
        have hcontactCount := hholds.contacts.length_eq
        have hmessageCount := hholds.messages.length_eq
        have hparts := length_parts (allItems events)
        have hempty : (makeBufferData (M := M) carried historyCache).size = 0 := rfl
        rw [List.length_map] at hcontactCount
        rw [hchats,hcontacts,hmessages] at hparts
        unfold HistoryData.size at hempty ⊢
        dsimp only at hchatCount hcontactCount hmessageCount
        omega
      have haccepted := hcounted.accepted hall
      refine ⟨fun event hevent => ?_,haccepted.plain,haccepted.apart⟩
      exact List.eq_nil_iff_forall_not_mem.mpr fun mapping hmapping =>
        List.not_mem_nil (hholds.mappings event hevent mapping hmapping)

/-- Buffered history sets lose nothing exactly without LID mappings, built-in names and
names shared in the cache, provided that no JID of a group looks like a JSON object. -/
theorem history_sets_lossless (evaluate : K → HistoryData K V M → Option Bool) (carried : InsertionMap String (Chat K V))
    (historyCache : Finset String) (events : List (Event K V M L)) (hdistinct : Distinct historyCache events) :
    (LosesNothing evaluate carried historyCache events → Lossless events) ∧
      (Lossless events → GroupsNamed events → LosesNothing evaluate carried historyCache events) :=
  ⟨LosesNothing.lossless,fun h hgroups => h.holds hdistinct hgroups⟩

/-- A bootstrap with a chat, a group that one user left, and LID mappings. -/
def bootstrap (lidPnMappings : Option (List Unit)) : Event Unit Unit Unit Unit where
  chats := [⟨⟨some "5511@s.whatsapp.net",none,none⟩,fun _ => none⟩]
  contacts := []
  messages := []
  isLatest := some true
  progress := some HistorySync.hundred
  syncType := some HistorySync.INITIAL_BOOTSTRAP
  pastParticipants := some [⟨.value (JsString.ofString "120@g.us"),
    .value [⟨.value (JsString.ofString "236@lid"),.undefined,.value (.number 1730000000)⟩]⟩]
  chunkOrder := none
  peerDataRequestSessionId := none
  lidPnMappings := lidPnMappings

theorem distinct_bootstrap (lidPnMappings : Option (List Unit)) : Distinct ∅ [bootstrap lidPnMappings] :=
  ⟨List.nodup_singleton _,List.nodup_nil,List.nodup_nil,fun _ _ => Finset.notMem_empty _,List.nodup_singleton _⟩

theorem history_sets_lossless_bootstrap :
    LosesNothing (fun (_ : Unit) _ => none) InsertionMap.empty ∅ [bootstrap none] := by
  refine (history_sets_lossless (fun (_ : Unit) _ => none) InsertionMap.empty ∅ [bootstrap none]
    (distinct_bootstrap none)).2 ⟨fun event hevent => ?_,fun item hitem => ?_,List.pairwise_singleton _ _⟩ ?_
  · rw [List.mem_singleton.mp hevent]
    rfl
  · have hname : item.objectName = "5511@s.whatsapp.net" := by
      rw [List.mem_singleton.mp hitem]
      rfl
    rw [hname]
    decide
  · intro entry hentry jid hjid
    rw [List.mem_singleton.mp hentry] at hjid
    cases hjid
    decide

/-- A LID mapping is dropped. -/
theorem history_mappings_lost : Distinct ∅ [bootstrap (some [()])] ∧
    ¬LosesNothing (fun (_ : Unit) _ => none) InsertionMap.empty ∅ [bootstrap (some [()])] := by
  refine ⟨distinct_bootstrap _,fun h => ?_⟩
  obtain ⟨set,hreleased,hholds⟩ := h _ rfl
  have hmapping := hholds.mappings _ List.mem_cons_self () List.mem_cons_self
  cases hreleased
  exact absurd hmapping List.not_mem_nil

end Release

end Baileyrs.HistorySets
