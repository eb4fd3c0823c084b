import Baileyrs.InsertionMap
import Mathlib.Data.Finset.Card
import Mathlib.Data.Finset.Insert
import Mathlib.Logic.Function.Basic

/-!
# Unread counts of buffered chats

While the event buffer is active, chats are merged in place: pending data holds
references to chat objects, and one history event hands the same objects first to the
history set and then to the chat upserts. What is released for a chat depends on which
map holds it and on which objects are shared.
-/

namespace Baileyrs.UnreadCounts

/-- Value of an unread count. -/
inductive Unread where
  | undefined
  | null
  | number (n : ℤ)
  deriving DecidableEq

/-- A chat or a change of one; a missing property is `none`. -/
structure Chat (C : Type*) where
  /-- Its identifier. -/
  id : Option String
  /-- Its unread count. -/
  unreadCount : Option Unread
  /-- Condition under which a change applies. -/
  conditional : Option C
  deriving DecidableEq

variable {C : Type*}

/-- Name under which a chat is pending. -/
def Chat.name (chat : Chat C) : String := chat.id.getD ""

/-- A chat of a history set; those without an identifier are left out of it. -/
structure HistoryChat where
  /-- Its identifier. -/
  id : String
  /-- Its unread count. -/
  unreadCount : Option Unread
  /-- It has an identifier. -/
  named : id ≠ ""

/-- The chat object of a history chat. -/
def HistoryChat.chat (C : Type*) (chat : HistoryChat) : Chat C := ⟨some chat.id,chat.unreadCount,none⟩

/-- Pending chats. A chat object is a reference into the heap. -/
structure Data (C : Type*) where
  /-- Chat objects. -/
  heap : ℕ → Chat C
  /-- First unused reference. -/
  next : ℕ
  /-- Chats of the history set. -/
  history : InsertionMap String ℕ
  /-- Chats of the upserts. -/
  upserts : InsertionMap String ℕ
  /-- Changes of other chats. -/
  updates : InsertionMap String ℕ
  /-- Deleted chats. -/
  deletes : InsertionMap String Unit
  /-- What history sets named since the cache was last cleared. -/
  historyCache : Finset String

/-- Change the object of a reference. -/
def modify (heap : ℕ → Chat C) (ref : ℕ) (change : Chat C → Chat C) : ℕ → Chat C :=
  Function.update heap ref (change (heap ref))

/-- Add an object under an unused reference. -/
def alloc (d : Data C) (chat : Chat C) : Data C :=
  {d with heap := Function.update d.heap d.next chat, next := d.next+1}

/-- Copy the properties of the second chat to the first. -/
def assign (left right : Chat C) : Chat C where
  id := right.id.or left.id
  unreadCount := right.unreadCount.or left.unreadCount
  conditional := right.conditional.or left.conditional

/-- Set the unread count of a chat. -/
def setUnread (value : Option Unread) (chat : Chat C) : Chat C :=
  {chat with unreadCount := value}

/-- The count is a negative number. -/
def isNegative : Option Unread → Bool
  | some (.number n) => n < 0
  | _ => false

/-- Copy of the right chat with the sum of both counts; a negative one stays. -/
def summed (left right : Chat C) : Chat C :=
  match left.unreadCount,right.unreadCount with
  | some (.number leftUnread),some (.number rightUnread) =>
    if 0 ≤ rightUnread then setUnread (some (.number (max rightUnread 0+max leftUnread 0))) right
    else right
  | _,_ => right

/-- Merge the right chat object into the left one. -/
def mergeObjects (heap : ℕ → Chat C) (left right : ℕ) : ℕ → Chat C :=
  let heap :=
    if (heap right).unreadCount = some .null ∧ isNegative (heap left).unreadCount then
      modify (modify heap left (setUnread (some .undefined))) right (setUnread (some .undefined))
    else heap
  modify heap left fun chat => assign chat (summed chat (heap right))

/-- Merge the right pending chat into the left one. -/
def concatChats (d : Data C) (left right : ℕ) : Data C :=
  {d with heap := mergeObjects d.heap left right}

section Appending

-- Answer of a condition on the pending data: yes, no, or not yet.
variable (evaluate : C → Data C → Option Bool)

/-- Answer of the condition of a change; without one it applies. -/
def matchesData (d : Data C) (update : ℕ) : Option Bool :=
  match (d.heap update).conditional with
  | some condition => evaluate condition d
  | none => some true

/-- Drop the condition of a change. -/
def dropCondition (d : Data C) (update : ℕ) : Data C :=
  {d with heap := modify d.heap update fun chat => {chat with conditional := none}}

/-- Fold the pending change of a chat into the chat. -/
def absorbChatUpdate (d : Data C) (existing : ℕ) : Data C :=
  let id := (d.heap existing).name
  match d.updates.get id with
  | none => d
  | some update =>
    match matchesData evaluate d update with
    | some true =>
      let d := concatChats (dropCondition d update) update existing
      {d with
        heap := modify d.heap existing fun chat => assign chat (d.heap update)
        updates := d.updates.delete id}
    | some false => {d with updates := d.updates.delete id}
    | none => d

/-- Put one chat into the history set. -/
def setHistoryChat (d : Data C) (chat : ℕ) : Data C :=
  let id := (d.heap chat).name
  match d.history.get id with
  | some _ => d
  | none =>
    if id ∈ d.historyCache then d
    else
      absorbChatUpdate evaluate
        {d with history := d.history.set id chat, historyCache := insert id d.historyCache} chat

/-- Put one chat into the upserts; a chat of the history set is merged there. -/
def upsertChat (d : Data C) (chat : ℕ) : Data C :=
  let id := (d.heap chat).name
  let d := match (d.upserts.get id).or (if id = "" then none else d.history.get id) with
    | some existing => absorbChatUpdate evaluate (concatChats d existing chat) existing
    | none => absorbChatUpdate evaluate {d with upserts := d.upserts.set id chat} chat
  {d with deletes := d.deletes.delete id}

/-- Merge a change into the pending change of its chat. -/
def addUpdate (d : Data C) (id : String) (update : ℕ) : Data C :=
  match d.updates.get id with
  | some pending => concatChats d pending update
  | none =>
    let fresh := d.next
    let d := concatChats (alloc d ⟨none,none,none⟩) fresh update
    {d with updates := d.updates.set id fresh}

/-- Apply one change of a chat. -/
def updateChat (d : Data C) (update : ℕ) : Data C :=
  let id := (d.heap update).name
  let d := match matchesData evaluate d update with
    | some true =>
      let d := dropCondition d update
      match (d.history.get id).or (d.upserts.get id) with
      | some existing => concatChats d existing update
      | none => addUpdate d id update
    | some false => d
    | none => {d with updates := d.updates.set id update}
  {d with deletes := d.deletes.delete id}

/-- Delete one chat. -/
def deleteChat (d : Data C) (id : String) : Data C :=
  {d with
    deletes := d.deletes.set id ()
    updates := d.updates.delete id
    upserts := d.upserts.delete id
    history := d.history.delete id}

/-- One unread message of a chat was read; a count of none left is removed. -/
def readMessage (d : Data C) (chatId : String) : Data C :=
  match (d.updates.get chatId).or (d.upserts.get chatId) with
  | none => d
  | some chat =>
    match (d.heap chat).unreadCount with
    | some (.number n) =>
      if 0 < n then
        let left := if n-1 = 0 then none else some (.number (n-1))
        {d with heap := modify d.heap chat (setUnread left)}
      else d
    | _ => d

/-- Events on chats. A history event emits its set and then upserts the same chat
objects; it also caches names of contacts and messages. Updates of messages count by
the chats of the pending unread messages they mark as read. -/
inductive Event (C : Type*) where
  | historySync (chats : List HistoryChat) (cached : List String)
  | chatsUpsert (chats : List (Chat C))
  | chatsUpdate (updates : List (Chat C))
  | chatsDelete (ids : List String)
  | messagesUpdate (read : List String)

/-- Put fresh chat objects into the history set; their references come out too. -/
def setHistory (d : Data C) : List HistoryChat → Data C × List ℕ
  | [] => (d,[])
  | chat::chats =>
    let rest := setHistory (setHistoryChat evaluate (alloc d (chat.chat C)) d.next) chats
    (rest.1,d.next::rest.2)

/-- Buffer one event. -/
def append (d : Data C) : Event C → Data C
  | .historySync chats cached =>
    let set := setHistory evaluate d chats
    set.2.foldl (upsertChat evaluate)
      {set.1 with historyCache := set.1.historyCache∪cached.toFinset}
  | .chatsUpsert chats => chats.foldl (fun d chat => upsertChat evaluate (alloc d chat) d.next) d
  | .chatsUpdate updates =>
    updates.foldl (fun d update => updateChat evaluate (alloc d update) d.next) d
  | .chatsDelete ids => ids.foldl deleteChat d
  | .messagesUpdate read => read.foldl readMessage d

/-- Buffer the events of a window. -/
def appendAll (d : Data C) (events : List (Event C)) : Data C := events.foldl (append evaluate) d

end Appending

/-- Event of a chat that was marked as read or unread. -/
def markChatAsReadUpdate (jid : String) (read : Bool) : Event C :=
  .chatsUpdate [⟨some jid,some (.number (if read then 0 else -1)),none⟩]

/-- Data without pending chats. -/
def makeBufferData (heap : ℕ → Chat C) (next : ℕ) (historyCache : Finset String) : Data C :=
  ⟨heap,next,.empty,.empty,.empty,.empty,historyCache⟩

/-- A change waits for its condition. -/
def waits (update : Chat C) : Bool := update.conditional.isSome && update.name != ""

/-- Chats of one release: of the history set, of the upserts and of the updates. -/
structure Released (C : Type*) where
  /-- Chats of the history set. -/
  history : List (Chat C)
  /-- Upserted chats. -/
  upserts : List (Chat C)
  /-- Changes of chats. -/
  updates : List (Chat C)

/-- All chats of a release, in the order the listeners see them. -/
def Released.chats (released : Released C) : List (Chat C) :=
  released.history++released.upserts++released.updates

/-- Changes that wait for their condition. -/
def waiting (d : Data C) : List ℕ := d.updates.values.filter fun ref => waits (d.heap ref)

/-- Release what is pending; changes that wait for their condition stay for the next
window. -/
def flush (d : Data C) : Released C × Data C :=
  let left := (waiting d).foldl (fun updates ref => updates.delete (d.heap ref).name) d.updates
  let next := (waiting d).foldl (fun updates ref => updates.set (d.heap ref).name ref) .empty
  let cache := if 10000 < d.historyCache.card then ∅ else d.historyCache
  (⟨d.history.values.map d.heap,d.upserts.values.map d.heap,left.values.map d.heap⟩,
    {makeBufferData d.heap d.next cache with updates := next})

/-- Pending data at the start of a window: that of a new buffer, or what a release left. -/
inductive Opens (evaluate : C → Data C → Option Bool) : Data C → Prop where
  | new (heap : ℕ → Chat C) : Opens evaluate (makeBufferData heap 0 ∅)
  | flushed {d : Data C} (opens : Opens evaluate d) (events : List (Event C)) :
    Opens evaluate (flush (appendAll evaluate d events)).2

end Baileyrs.UnreadCounts
