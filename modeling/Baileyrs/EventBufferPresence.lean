import Mathlib.Data.List.Induction
import Baileyrs.EventBufferRelease

/-!
# Presence under buffering

A consumer that inserts what is upserted and removes what is deleted reads
either the event maps a buffer releases or the same events passed on one by
one. The buffer is compared with the changes the events make to single
messages and chats: what it holds for a message depends on the changes of that
message alone, and on where the type of the upserts turns.
-/

namespace Baileyrs.EventBuffer

/-- An event of a window. -/
inductive WindowEvent where
  | messagesUpsert (messages : List Message) (type : UpsertType)
  | other (event : ChatEvent Empty)

/-- State of a buffer without conditional updates. -/
abbrev PlainState := State (ChatData Empty) (ChatMaps Empty)

/-- Let the listeners of the innermost release return. -/
def settle (s : PlainState) : PlainState :=
  match s.stack with
  | frame::below => resume plainChannels {s with stack := below} frame
  | [] => s

/-- Emit an event to listeners that do not call back. -/
def emitNow (s : PlainState) : WindowEvent → PlainState
  | .messagesUpsert messages type => settle (emitUpsert plainChannels s messages type)
  | .other event => settle (emit plainChannels s event)

/-- A new buffer, activated. -/
def openWindow : PlainState := buffer (makeEventBuffer plainChannels)

/-- Event maps released for the events of one window. -/
def released (events : List WindowEvent) : List (EventMap (ChatMaps Empty)) :=
  (settle (flush plainChannels (events.foldl emitNow openWindow))).handed

/-- Event map of an event that is passed on. -/
def passedOn : WindowEvent → EventMap (ChatMaps Empty)
  | .messagesUpsert messages type =>
    ⟨some ⟨messages.map fun m => (stringifyMessageKey m.key,m),type⟩,noChatMaps⟩
  | .other event => ⟨none,singleChats event⟩

/-- A consumer: the messages it knows by name and the chats it knows. -/
structure Consumer where
  /-- Key of a message it knows. -/
  messages : String → Option MessageKey
  /-- Whether it knows a chat. -/
  chats : String → Bool
  /-- Messages are known under their own names. -/
  named : ∀ name key, messages name = some key → stringifyMessageKey key = name

namespace Consumer

/-- Insert a message. -/
def upsert (k : Consumer) (key : MessageKey) : Consumer where
  messages name := if name = stringifyMessageKey key then some key else k.messages name
  chats := k.chats
  named name found h := by
    split at h
    · rename_i hname
      cases h
      exact hname.symm
    · exact k.named name found h

/-- Remove a message. -/
def delete (k : Consumer) (key : MessageKey) : Consumer where
  messages name := if name = stringifyMessageKey key then none else k.messages name
  chats := k.chats
  named name found h := by
    split at h
    · cases h
    · exact k.named name found h

/-- Remove the messages of a chat. -/
def clear (k : Consumer) (jid : String) : Consumer where
  messages name := (k.messages name).filter fun key => key.remoteJid != jid
  chats := k.chats
  named name found h := k.named name found (Option.filter_eq_some_iff.mp h).1

/-- Insert a chat. -/
def upsertChat (k : Consumer) (id : String) : Consumer :=
  {k with chats := fun other => other == id || k.chats other}

/-- Remove a chat. -/
def deleteChat (k : Consumer) (id : String) : Consumer :=
  {k with chats := fun other => other != id && k.chats other}

end Consumer

/-- Keys of the messages an event map upserts. -/
def EventMap.messageKeys (events : EventMap (ChatMaps Empty)) : List MessageKey :=
  match events.upserts with
  | some batch => batch.messages.map fun pair => pair.2.key
  | none => []

/-- A change of one message or chat; at a turn the type of the upserts
changes. -/
inductive Change where
  | upsert (key : MessageKey)
  | update (key : MessageKey) (assigned : Option MessageKey)
  | delete (key : MessageKey)
  | clear (jid : String)
  | chatUpsert (id : String)
  | chatUpdate (id : String)
  | chatDelete (id : String)
  | turn
  deriving DecidableEq

/-- Changes an event makes, a turn apart. -/
def changesOf : ChatEvent Empty → List Change
  | .chatsUpsert chats => chats.map fun chat => .chatUpsert (chat.id.getD "")
  | .chatsUpdate updates => updates.map fun update => .chatUpdate (update.id.getD "")
  | .chatsDelete ids => ids.map .chatDelete
  | .messagesUpdate updates => updates.map fun update => .update update.key update.update.key
  | .messagesDelete (.keys keys) => keys.map .delete
  | .messagesDelete (.all jid) => [.clear jid]
  | .unbuffered _ => []

/-- The upsert of a type follows one of another type. -/
def turnOf (last : Option UpsertType) (type : UpsertType) : List Change :=
  if last = none ∨ last = some type then [] else [.turn]

/-- Changes the events of a window make after an upsert of a type. -/
def changes : Option UpsertType → List WindowEvent → List Change
  | _,[] => []
  | last,.messagesUpsert messages type::events =>
    turnOf last type++messages.map (fun m => .upsert m.key)++changes (some type) events
  | last,.other event::events => changesOf event++changes last events

/-- The last verdict of a test on changes. -/
def latest (verdict : Change → Option Bool) (cs : List Change) : Option Bool :=
  cs.foldl (fun last change => (verdict change).or last) none

/-- Whether a change inserts or removes a message. -/
def presence (name : String) : Change → Option Bool
  | .upsert key => if stringifyMessageKey key = name then some true else none
  | .delete key => if stringifyMessageKey key = name then some false else none
  | _ => none

/-- Whether a change inserts or removes a chat. -/
def chatPresence (id : String) : Change → Option Bool
  | .chatUpsert other => if other = id then some true else none
  | .chatDelete other => if other = id then some false else none
  | _ => none

/-- Whether a change takes a chat for present or removes it. -/
def chatTouch (id : String) : Change → Option Bool
  | .chatUpdate other => if other = id then some true else none
  | change => chatPresence id change

/-- The message is deleted by key in the window. -/
def DeletedIn (name : String) (cs : List Change) : Prop :=
  ∃ change ∈ cs, presence name change = some false

/-- Keys one message goes through. -/
structure Passage where
  /-- Key assigned by updates that wait for the message. -/
  assigned : Option MessageKey
  /-- Key of the message while it waits to be released. -/
  waiting : Option MessageKey
  /-- Keys it was released under at turns. -/
  left : List MessageKey

/-- A change takes a message further: an upsert gives it the key of its
waiting update, or its own; an update may assign another key. -/
def Passage.next (name : String) (p : Passage) : Change → Passage
  | .upsert key =>
    if stringifyMessageKey key = name then ⟨none,some (p.assigned.getD key),p.left⟩ else p
  | .update key assigned =>
    if stringifyMessageKey key = name then
      match p.waiting with
      | some held => ⟨p.assigned,some (assigned.getD held),p.left⟩
      | none => ⟨assigned.or p.assigned,none,p.left⟩
    else p
  | .delete key => if stringifyMessageKey key = name then ⟨none,none,p.left⟩ else p
  | .turn => ⟨p.assigned,none,p.left++p.waiting.toList⟩
  | _ => p

/-- Keys a message goes through in a window. -/
def passage (name : String) (cs : List Change) : Passage :=
  cs.foldl (Passage.next name) ⟨none,none,[]⟩

theorem latest_concat (verdict : Change → Option Bool) (cs : List Change) (change : Change) :
    latest verdict (cs++[change]) = (verdict change).or (latest verdict cs) := by
  rw [latest,List.foldl_append]
  rfl

theorem passage_concat (name : String) (cs : List Change) (change : Change) :
    passage name (cs++[change]) = (passage name cs).next name change := by
  rw [passage,List.foldl_append]
  rfl

theorem deletedIn_concat {name : String} {cs : List Change} {change : Change} :
    DeletedIn name (cs++[change]) ↔ DeletedIn name cs ∨ presence name change = some false := by
  unfold DeletedIn
  constructor
  · rintro ⟨c,hmem,hverdict⟩
    rcases List.mem_append.mp hmem with hold | hnew
    · exact .inl ⟨c,hold,hverdict⟩
    · exact .inr (List.mem_singleton.mp hnew ▸ hverdict)
  · rintro (⟨c,hmem,hverdict⟩ | hverdict)
    · exact ⟨c,List.mem_append_left _ hmem,hverdict⟩
    · exact ⟨change,List.mem_append_right _ List.mem_cons_self,hverdict⟩

/-- The pending messages and their changes mirror the changes of a window. -/
structure MessagesMirror (cs : List Change) (upserts : MessageUpserts)
    (data : ChatData Empty) : Prop where
  /-- A pending message has the key it goes through the window with. -/
  waiting : ∀ name, (upserts.get name).map (fun item => item.message.key) =
    (passage name cs).waiting
  /-- A pending change has the key it will assign. -/
  assigned : ∀ name, (data.messageUpdates.get name).bind (fun update => update.update.key) =
    (passage name cs).assigned
  /-- The deleted messages are pending deletions, under their own names. -/
  deleted : ∀ name, name ∈ data.messageDeletes.keys ↔ DeletedIn name cs
  /-- A pending deletion has the name of its key. -/
  named : ∀ name key, data.messageDeletes.get name = some key → stringifyMessageKey key = name

/-- The pending chats mirror the changes of a window. -/
structure ChatsMirror (cs : List Change) (data : ChatData Empty) : Prop where
  /-- A chat is pending when it was upserted last. -/
  upserts : ∀ id, id ∈ data.chatUpserts.keys ↔ latest (chatPresence id) cs = some true
  /-- A deletion is pending until the chat is touched. -/
  deletes : ∀ id, id ∈ data.chatDeletes.keys ↔ latest (chatTouch id) cs = some false
  /-- A pending chat has the name of its identifier. -/
  named : ∀ id chat, data.chatUpserts.get id = some chat → chat.id.getD "" = id

section Messages

variable {cs : List Change} {upserts : MessageUpserts} {data : ChatData Empty}

/-- A change of no message keeps the mirror of messages. -/
theorem MessagesMirror.skip {change : Change} {data' : ChatData Empty}
    (h : MessagesMirror cs upserts data) (hpassage : ∀ name p, Passage.next name p change = p)
    (hverdict : ∀ name, presence name change = none) (hupdates : data'.messageUpdates = data.messageUpdates)
    (hdeletes : data'.messageDeletes = data.messageDeletes) : MessagesMirror (cs++[change]) upserts data' := by
  constructor
  · intro name
    rw [passage_concat,hpassage]
    exact h.waiting name
  · intro name
    rw [passage_concat,hpassage,hupdates]
    exact h.assigned name
  · intro name
    rw [deletedIn_concat,hverdict,hdeletes,h.deleted]
    simp
  · rw [hdeletes]
    exact h.named

/-- Buffering a message mirrors an upsert. -/
theorem appendMessage_mirrors {type : UpsertType} {message : Message} (h : MessagesMirror cs upserts data) :
    MessagesMirror (cs++[.upsert message.key]) (appendMessage plainChannels type ⟨upserts,data⟩ message).messageUpserts
      (appendMessage plainChannels type ⟨upserts,data⟩ message).rest := by
  have habsorbed : ∀ stamped : Message, stamped.key = message.key →
      (absorbMessageUpdate data (stringifyMessageKey message.key) stamped).2.key =
        (passage (stringifyMessageKey message.key) cs).assigned.getD message.key := by
    intro stamped hkey
    rw [← h.assigned,absorbMessageUpdate]
    cases data.messageUpdates.get (stringifyMessageKey message.key) with
    | none => exact hkey
    | some update =>
      rw [← hkey]
      rfl
  have hupdates : ∀ stamped name,
      (absorbMessageUpdate data (stringifyMessageKey message.key) stamped).1.messageUpdates.get
        name = if stringifyMessageKey message.key = name then none
          else data.messageUpdates.get name := by
    intro stamped name
    unfold absorbMessageUpdate
    split
    · exact InsertionMap.get_delete _ _ _
    · rename_i hnone
      split
      · rename_i hname
        rw [← hname]
        exact hnone
      · rfl
  have hdeletes : ∀ stamped,
      (absorbMessageUpdate data (stringifyMessageKey message.key) stamped).1.messageDeletes =
        data.messageDeletes := by
    intro stamped
    unfold absorbMessageUpdate
    split <;> rfl
  constructor
  · intro name
    rw [passage_concat]
    unfold appendMessage
    dsimp only
    rw [InsertionMap.get_set,Passage.next]
    split
    · rename_i hname
      rw [← hname]
      refine congrArg some ?_
      refine habsorbed _ ?_
      cases upserts.get (stringifyMessageKey message.key) <;> rfl
    · exact h.waiting name
  · intro name
    rw [passage_concat]
    change ((absorbMessageUpdate data (stringifyMessageKey message.key) _).1.messageUpdates.get
      name).bind _ = _
    rw [hupdates,Passage.next]
    split
    · rfl
    · exact h.assigned name
  · intro name
    rw [deletedIn_concat]
    change name ∈ (absorbMessageUpdate data _ _).1.messageDeletes.keys ↔ _
    rw [hdeletes,h.deleted]
    simp [presence]
  · change ∀ name key, (absorbMessageUpdate data _ _).1.messageDeletes.get name = some key → _
    rw [hdeletes]
    exact h.named

/-- Buffering a change of a message mirrors an update. -/
theorem appendMessageUpdate_mirrors {update : MessageUpdate} (h : MessagesMirror cs upserts data) :
    MessagesMirror (cs++[.update update.key update.update.key]) (appendMessageUpdate (upserts,data) update).1
      (appendMessageUpdate (upserts,data) update).2 := by
  have hdeletes : (appendMessageUpdate (upserts,data) update).2.messageDeletes =
      data.messageDeletes := by
    unfold appendMessageUpdate
    dsimp only
    split <;> rfl
  have hwaiting := h.waiting (stringifyMessageKey update.key)
  have hassigned := h.assigned (stringifyMessageKey update.key)
  constructor
  · intro name
    rw [passage_concat,Passage.next]
    unfold appendMessageUpdate
    dsimp only
    by_cases hname : stringifyMessageKey update.key = name
    · subst hname
      rw [if_pos rfl,← hwaiting]
      cases hget : upserts.get (stringifyMessageKey update.key) with
      | some item => simp [assignFields]
      | none => simp [hget]
    · rw [if_neg hname,← h.waiting name]
      split
      · simp [hname]
      · rfl
  · intro name
    rw [passage_concat,Passage.next]
    unfold appendMessageUpdate
    dsimp only
    by_cases hname : stringifyMessageKey update.key = name
    · subst hname
      rw [if_pos rfl,← hwaiting]
      cases hget : upserts.get (stringifyMessageKey update.key) with
      | some item => exact hassigned
      | none =>
        rw [← hassigned]
        cases data.messageUpdates.get (stringifyMessageKey update.key) with
        | some earlier => simp [mergeFields]
        | none => simp
    · rw [if_neg hname,← h.assigned name]
      split
      · rfl
      · simp [hname]
  · intro name
    rw [deletedIn_concat,hdeletes,h.deleted]
    simp [presence]
  · rw [hdeletes]
    exact h.named

/-- Buffering the deletion of a message mirrors it. -/
theorem appendMessageDelete_mirrors {key : MessageKey} (h : MessagesMirror cs upserts data) :
    MessagesMirror (cs++[.delete key]) (appendMessageDelete (upserts,data) key).1
      (appendMessageDelete (upserts,data) key).2 := by
  have hdeletes : ∀ name, (appendMessageDelete (upserts,data) key).2.messageDeletes.get name =
      (data.messageDeletes.get name).or
        (if stringifyMessageKey key = name then some key else none) := by
    intro name
    unfold appendMessageDelete
    dsimp only
    by_cases hname : stringifyMessageKey key = name
    · subst hname
      cases hget : data.messageDeletes.get (stringifyMessageKey key) with
      | some earlier => simp [hget]
      | none => simp
    · cases data.messageDeletes.get (stringifyMessageKey key) <;> simp [hname]
  constructor
  · intro name
    rw [passage_concat,Passage.next]
    unfold appendMessageDelete
    dsimp only
    rw [InsertionMap.get_delete]
    split
    · rfl
    · exact h.waiting name
  · intro name
    rw [passage_concat,Passage.next]
    unfold appendMessageDelete
    dsimp only
    rw [InsertionMap.get_delete]
    split
    · rfl
    · exact h.assigned name
  · intro name
    rw [InsertionMap.mem_keys_iff,deletedIn_concat,← h.deleted,InsertionMap.mem_keys_iff,hdeletes]
    cases data.messageDeletes.get name <;> simp [presence]
  · intro name found hfound
    rw [hdeletes] at hfound
    cases hget : data.messageDeletes.get name with
    | some earlier =>
      rw [hget] at hfound
      cases hfound
      exact h.named name _ hget
    | none =>
      rw [hget,Option.none_or] at hfound
      split at hfound
      · cases hfound
        assumption
      · cases hfound

end Messages

section Chats

variable {cs : List Change} {upserts : MessageUpserts} {data : ChatData Empty}

/-- Updates without a condition apply. -/
theorem matchesData_plain (update : ChatUpdate Empty) :
    matchesData (fun condition _ _ => condition.elim) upserts data update = some true := by
  unfold matchesData
  cases update.conditional with
  | none => rfl
  | some condition => exact condition.elim

theorem absorbChatUpdate_plain (id : String) :
    (absorbChatUpdate (fun condition _ _ => condition.elim) upserts data id).chatUpserts = data.chatUpserts ∧
      (absorbChatUpdate (fun condition _ _ => condition.elim) upserts data id).chatDeletes = data.chatDeletes := by
  unfold absorbChatUpdate
  split
  · exact ⟨rfl,rfl⟩
  · split
    · exact ⟨rfl,rfl⟩
    · exact ⟨rfl,rfl⟩

/-- A change of no chat keeps the mirror of chats. -/
theorem ChatsMirror.skip {change : Change} {data' : ChatData Empty} (h : ChatsMirror cs data)
    (hverdict : ∀ id, chatTouch id change = none ∧ chatPresence id change = none)
    (hupserts : data'.chatUpserts = data.chatUpserts)
    (hdeletes : data'.chatDeletes = data.chatDeletes) : ChatsMirror (cs++[change]) data' := by
  constructor
  · intro id
    rw [latest_concat,(hverdict id).2,Option.none_or,hupserts]
    exact h.upserts id
  · intro id
    rw [latest_concat,(hverdict id).1,Option.none_or,hdeletes]
    exact h.deletes id
  · rw [hupserts]
    exact h.named

/-- Buffering a chat mirrors its upsert. -/
theorem appendChat_mirrors {chat : Chat} (h : ChatsMirror cs data) :
    ChatsMirror (cs++[.chatUpsert (chat.id.getD "")])
      (appendChat (fun condition _ _ => condition.elim) upserts data chat) := by
  unfold appendChat
  dsimp only
  constructor
  · intro id
    dsimp only
    rw [(absorbChatUpdate_plain _).1,InsertionMap.mem_keys_set,h.upserts,latest_concat]
    by_cases hid : chat.id.getD "" = id
    · simp [chatPresence,hid]
    · have hid' : ¬id = chat.id.getD "" := fun heq => hid heq.symm
      simp [chatPresence,hid,hid']
  · intro id
    dsimp only
    rw [(absorbChatUpdate_plain _).2,InsertionMap.mem_keys_delete,h.deletes,latest_concat]
    by_cases hid : chat.id.getD "" = id
    · simp [chatTouch,chatPresence,hid]
    · have hid' : ¬id = chat.id.getD "" := fun heq => hid heq.symm
      simp [chatTouch,chatPresence,hid,hid']
  · intro id stored hstored
    dsimp only at hstored
    rw [(absorbChatUpdate_plain _).1,InsertionMap.get_set] at hstored
    split at hstored
    · rename_i hid
      cases hstored
      cases hget : data.chatUpserts.get (chat.id.getD "") with
      | none => exact hid
      | some existing =>
        have hexisting := h.named _ _ hget
        cases hchat : chat.id with
        | some text => simpa [hchat] using hid
        | none =>
          rw [hchat] at hid hexisting
          exact hexisting.trans hid
    · exact h.named id stored hstored

/-- Buffering a change of a chat mirrors its update. -/
theorem appendChatUpdate_mirrors {update : ChatUpdate Empty} (h : ChatsMirror cs data) :
    ChatsMirror (cs++[.chatUpdate (update.id.getD "")])
      (appendChatUpdate (fun condition _ _ => condition.elim) upserts data update) := by
  have hkept : ∀ id, id ∈ (appendChatUpdate (fun condition _ _ => condition.elim) upserts data
      update).chatUpserts.keys ↔ id ∈ data.chatUpserts.keys := by
    intro id
    unfold appendChatUpdate
    dsimp only
    rw [matchesData_plain]
    dsimp only
    split
    · rename_i existing hget
      rw [InsertionMap.mem_keys_set]
      have hpresent : update.id.getD "" ∈ data.chatUpserts.keys :=
        InsertionMap.mem_keys_iff.mpr ⟨existing,hget⟩
      constructor
      · rintro (rfl | hold)
        · exact hpresent
        · exact hold
      · exact .inr
    · rfl
  have hdeletes : (appendChatUpdate (fun condition _ _ => condition.elim) upserts data
      update).chatDeletes = data.chatDeletes.delete (update.id.getD "") := by
    unfold appendChatUpdate
    dsimp only
    rw [matchesData_plain]
    dsimp only
    split <;> rfl
  constructor
  · intro id
    rw [hkept,h.upserts,latest_concat]
    simp [chatPresence]
  · intro id
    rw [hdeletes,InsertionMap.mem_keys_delete,h.deletes,latest_concat]
    by_cases hid : update.id.getD "" = id
    · simp [chatTouch,hid]
    · have hid' : ¬id = update.id.getD "" := fun heq => hid heq.symm
      simp [chatTouch,hid,hid']
  · intro id stored hstored
    unfold appendChatUpdate at hstored
    dsimp only at hstored
    rw [matchesData_plain] at hstored
    dsimp only at hstored
    split at hstored
    · rename_i existing hget
      dsimp only at hstored
      rw [InsertionMap.get_set] at hstored
      split at hstored
      · rename_i hid
        cases hstored
        have hexisting := h.named _ _ hget
        cases hupdate : update.id with
        | some text => simpa [hupdate] using hid
        | none =>
          rw [hupdate] at hid hexisting
          exact hexisting.trans hid
      · exact h.named id stored hstored
    · exact h.named id stored hstored

/-- Buffering the deletion of a chat mirrors it. -/
theorem appendChatDelete_mirrors {deleted : String} (h : ChatsMirror cs data) :
    ChatsMirror (cs++[.chatDelete deleted]) (appendChatDelete data deleted) := by
  unfold appendChatDelete
  constructor
  · intro id
    dsimp only
    rw [InsertionMap.mem_keys_delete,h.upserts,latest_concat]
    by_cases hid : deleted = id
    · simp [chatPresence,hid]
    · have hid' : ¬id = deleted := fun heq => hid heq.symm
      simp [chatPresence,hid,hid']
  · intro id
    dsimp only
    rw [InsertionMap.mem_keys_set,h.deletes,latest_concat]
    by_cases hid : deleted = id
    · simp [chatTouch,chatPresence,hid]
    · have hid' : ¬id = deleted := fun heq => hid heq.symm
      simp [chatTouch,chatPresence,hid,hid']
  · intro id stored hstored
    dsimp only at hstored
    rw [InsertionMap.get_delete] at hstored
    split at hstored
    · cases hstored
    · exact h.named id stored hstored

end Chats

/-- The pending data mirror the changes of a window. -/
structure Mirror (cs : List Change) (data : Data (ChatData Empty)) : Prop where
  /-- The messages. -/
  messages : MessagesMirror cs data.messageUpserts data.rest
  /-- The chats. -/
  chats : ChatsMirror cs data.rest

/-- What each item of a list mirrors, the whole list mirrors. -/
theorem foldl_mirrors {α β : Type*} {P : List Change → β → Prop} {f : β → α → β} {g : α → Change}
    (hstep : ∀ cs b a, P cs b → P (cs++[g a]) (f b a)) {cs : List Change} {b : β} (items : List α)
    (h : P cs b) : P (cs++items.map g) (items.foldl f b) := by
  induction items generalizing cs b with
  | nil => simpa using h
  | cons item items ih =>
    have hrest := ih (hstep cs b item h)
    rwa [List.append_assoc] at hrest

section Events

variable {cs : List Change} {data : Data (ChatData Empty)}

/-- Buffering the messages of an upsert mirrors them. -/
theorem appendMessages_mirrors {messages : List Message} {type : UpsertType} (h : Mirror cs data) :
    Mirror (cs++messages.map fun m => .upsert m.key) (appendMessages plainChannels data messages type) := by
  refine foldl_mirrors (P := Mirror) ?_ messages h
  intro cs data message hmirror
  constructor
  · exact appendMessage_mirrors hmirror.messages
  · refine hmirror.chats.skip (fun _ => ⟨rfl,rfl⟩) ?_ ?_
    · change (absorbMessageUpdate data.rest _ _).1.chatUpserts = _
      unfold absorbMessageUpdate
      split <;> rfl
    · change (absorbMessageUpdate data.rest _ _).1.chatDeletes = _
      unfold absorbMessageUpdate
      split <;> rfl

/-- Buffering another event mirrors its changes. -/
theorem appendEvent_mirrors {event : ChatEvent Empty} (h : Mirror cs data) :
    Mirror (cs++changesOf event) (appendEvent plainChannels data event) := by
  have hpair : ∀ {α : Type} (f : MessageUpserts × ChatData Empty → α →
      MessageUpserts × ChatData Empty) (g : α → Change),
      (∀ cs pending item, MessagesMirror cs pending.1 pending.2 →
        MessagesMirror (cs++[g item]) (f pending item).1 (f pending item).2) →
      (∀ cs pending item, ChatsMirror cs pending.2 →
        ChatsMirror (cs++[g item]) (f pending item).2) →
      ∀ items : List α, Mirror (cs++items.map g)
        ⟨(items.foldl f (data.messageUpserts,data.rest)).1,
          (items.foldl f (data.messageUpserts,data.rest)).2⟩ := by
    intro α f g hmessages hchats items
    constructor
    · exact foldl_mirrors (P := fun cs (pending : MessageUpserts × ChatData Empty) =>
        MessagesMirror cs pending.1 pending.2) hmessages items h.messages
    · exact foldl_mirrors (P := fun cs (pending : MessageUpserts × ChatData Empty) =>
        ChatsMirror cs pending.2) hchats items h.chats
  have hchats : ∀ {α : Type} (f : ChatData Empty → α → ChatData Empty) (g : α → Change),
      (∀ cs rest item, MessagesMirror cs data.messageUpserts rest →
        MessagesMirror (cs++[g item]) data.messageUpserts (f rest item)) →
      (∀ cs rest item, ChatsMirror cs rest → ChatsMirror (cs++[g item]) (f rest item)) →
      ∀ items : List α, Mirror (cs++items.map g)
        ⟨data.messageUpserts,items.foldl f data.rest⟩ := by
    intro α f g hmessages hchats items
    constructor
    · exact foldl_mirrors hmessages items h.messages
    · exact foldl_mirrors hchats items h.chats
  cases event with
  | chatsUpsert chats =>
    refine hchats _ _ ?_ (fun _ _ _ => appendChat_mirrors) chats
    intro cs rest chat hmessages
    refine hmessages.skip (fun _ _ => rfl) (fun _ => rfl) ?_ ?_
    · unfold appendChat absorbChatUpdate
      dsimp only
      split
      · rfl
      · split <;> rfl
    · unfold appendChat absorbChatUpdate
      dsimp only
      split
      · rfl
      · split <;> rfl
  | chatsUpdate updates =>
    refine hchats _ _ ?_ (fun _ _ _ => appendChatUpdate_mirrors) updates
    intro cs rest update hmessages
    refine hmessages.skip (fun _ _ => rfl) (fun _ => rfl) ?_ ?_
    · unfold appendChatUpdate
      dsimp only
      rw [matchesData_plain]
      dsimp only
      split <;> rfl
    · unfold appendChatUpdate
      dsimp only
      rw [matchesData_plain]
      dsimp only
      split <;> rfl
  | chatsDelete ids =>
    refine hchats _ _ ?_ (fun _ _ _ => appendChatDelete_mirrors) ids
    intro cs rest id hmessages
    exact hmessages.skip (fun _ _ => rfl) (fun _ => rfl) rfl rfl
  | messagesUpdate updates =>
    refine hpair _ _ (fun _ _ _ => appendMessageUpdate_mirrors) ?_ updates
    intro cs pending update hchats
    refine hchats.skip (fun _ => ⟨rfl,rfl⟩) ?_ ?_
    · unfold appendMessageUpdate
      dsimp only
      split <;> rfl
    · unfold appendMessageUpdate
      dsimp only
      split <;> rfl
  | messagesDelete deletion =>
    cases deletion with
    | keys keys =>
      refine hpair _ _ (fun _ _ _ => appendMessageDelete_mirrors) ?_ keys
      intro cs pending key hchats
      exact hchats.skip (fun _ => ⟨rfl,rfl⟩) rfl rfl
    | all jid =>
      exact ⟨h.messages.skip (fun _ _ => rfl) (fun _ => rfl) rfl rfl,
        h.chats.skip (fun _ => ⟨rfl,rfl⟩) rfl rfl⟩
  | unbuffered name =>
    change Mirror (cs++[]) data
    rwa [List.append_nil]

/-- When the pending messages were released, the mirror goes on without them. -/
theorem turn_mirrors {upserts : MessageUpserts} (h : Mirror cs data)
    (hempty : ∀ name, upserts.get name = none) : Mirror (cs++[.turn]) ⟨upserts,data.rest⟩ := by
  refine ⟨⟨?_,?_,?_,h.messages.named⟩,h.chats.skip (fun _ => ⟨rfl,rfl⟩) rfl rfl⟩
  · intro name
    rw [passage_concat]
    change (upserts.get name).map _ = none
    rw [hempty]
    rfl
  · intro name
    rw [passage_concat]
    exact h.messages.assigned name
  · intro name
    rw [deletedIn_concat,← h.messages.deleted]
    simp [presence]

end Events

/-- Every pending message has a type. -/
def Typed (last : Option UpsertType) (upserts : MessageUpserts) : Prop :=
  ∀ name item, upserts.get name = some item → last = some item.type

theorem appendMessages_typed {data : Data (ChatData Empty)} {messages : List Message}
    {type : UpsertType} (h : Typed (some type) data.messageUpserts) :
    Typed (some type) (appendMessages plainChannels data messages type).messageUpserts := by
  unfold appendMessages
  induction messages generalizing data with
  | nil => exact h
  | cons message messages ih =>
    refine ih ?_
    intro name item hitem
    unfold appendMessage at hitem
    dsimp only at hitem
    rw [InsertionMap.get_set] at hitem
    split at hitem
    · cases hitem
      dsimp only
      split
      · rename_i hnotify
        rcases hnotify with hnew | hold
        · rw [hnew]
        · obtain ⟨earlier,hget,htype⟩ := Option.map_eq_some_iff.mp hold
          rw [h _ earlier hget,htype]
      · rfl
    · exact h name item hitem

theorem appendEvent_typed {data : Data (ChatData Empty)} {event : ChatEvent Empty}
    {last : Option UpsertType} (h : Typed last data.messageUpserts) :
    Typed last (appendEvent plainChannels data event).messageUpserts := by
  have hfold : ∀ {α : Type} (f : MessageUpserts × ChatData Empty → α →
      MessageUpserts × ChatData Empty),
      (∀ pending item, Typed last pending.1 → Typed last (f pending item).1) →
      ∀ (items : List α) pending, Typed last pending.1 → Typed last (items.foldl f pending).1 := by
    intro α f hstep items
    induction items with
    | nil => exact fun _ htyped => htyped
    | cons item items ih => exact fun pending htyped => ih _ (hstep pending item htyped)
  cases event with
  | messagesUpdate updates =>
    refine hfold appendMessageUpdate ?_ updates (data.messageUpserts,data.rest) h
    intro pending update htyped name item hitem
    unfold appendMessageUpdate at hitem
    dsimp only at hitem
    split at hitem
    · rename_i earlier hearlier
      rw [InsertionMap.get_set] at hitem
      split at hitem
      · cases hitem
        exact htyped _ earlier hearlier
      · exact htyped name item hitem
    · exact htyped name item hitem
  | messagesDelete deletion =>
    cases deletion with
    | keys keys =>
      refine hfold appendMessageDelete ?_ keys (data.messageUpserts,data.rest) h
      intro pending key htyped name item hitem
      unfold appendMessageDelete at hitem
      dsimp only at hitem
      rw [InsertionMap.get_delete] at hitem
      split at hitem
      · cases hitem
      · exact htyped name item hitem
    | all jid => exact h
  | _ => exact h

/-- Keys of the messages handed over so far. -/
def handedKeys (s : PlainState) : List MessageKey := s.handed.flatMap EventMap.messageKeys

/-- An event map of message upserts only. -/
def UpsertsOnly (events : EventMap (ChatMaps Empty)) : Prop :=
  events.rest.chatUpserts = [] ∧ events.rest.chatDeletes = [] ∧ events.rest.messageDeletes = none

/-- State of a buffer within a window, after an upsert of a type and the
changes made so far. -/
structure InWindow (last : Option UpsertType) (cs : List Change) (s : PlainState) : Prop where
  /-- The buffer is active. -/
  active : s.buffering = true
  /-- No release is in progress. -/
  idle : s.stack = []
  /-- The pending data mirror the changes. -/
  mirror : Mirror cs s.data
  /-- Whether an upsert was buffered. -/
  pending : s.hasPendingUpserts = last.isSome
  /-- The type of the last upsert is known. -/
  type : s.pendingUpsertType = last
  /-- The pending messages have it. -/
  typed : Typed last s.data.messageUpserts
  /-- Only message upserts were released. -/
  upsertsOnly : ∀ events ∈ s.handed, UpsertsOnly events
  /-- The messages were released under the keys they left with. -/
  left : ∀ key, key ∈ handedKeys s ↔ ∃ name, key ∈ (passage name cs).left

/-- Messages leave at turns only. -/
theorem left_append {name : String} {cs ds : List Change} (h : .turn ∉ ds) :
    (passage name (cs++ds)).left = (passage name cs).left := by
  induction ds using List.reverseRecOn with
  | nil => rw [List.append_nil]
  | append_singleton ds change ih =>
    rw [List.mem_append,not_or,List.mem_singleton] at h
    rw [← List.append_assoc,passage_concat,← ih h.1]
    cases change with
    | turn => exact (h.2 rfl).elim
    | upsert key =>
      unfold Passage.next
      dsimp only
      split <;> rfl
    | update key assigned =>
      unfold Passage.next
      dsimp only
      split
      · split <;> rfl
      · rfl
    | delete key =>
      unfold Passage.next
      dsimp only
      split <;> rfl
    | _ => rfl

/-- A batch of the pending messages has the keys these wait with. -/
theorem mem_messageKeys_pending {cs : List Change} {data : Data (ChatData Empty)}
    (rest : ChatMaps Empty) (h : Mirror cs data) (key : MessageKey) :
    key ∈ EventMap.messageKeys ⟨pendingBatch data.messageUpserts,rest⟩ ↔ ∃ name, key ∈ (passage name cs).waiting := by
  have hkeys : EventMap.messageKeys ⟨pendingBatch data.messageUpserts,rest⟩ =
      data.messageUpserts.values.map fun item => item.message.key := by
    unfold EventMap.messageKeys pendingBatch InsertionMap.values
    cases data.messageUpserts.entries with
    | nil => rfl
    | cons pair entries => simp [List.map_map,Function.comp_def]
  rw [hkeys,List.mem_map]
  constructor
  · rintro ⟨item,hitem,rfl⟩
    obtain ⟨name,hname⟩ := InsertionMap.mem_values_iff.mp hitem
    refine ⟨name,?_⟩
    rw [← h.messages.waiting,hname]
    rfl
  · rintro ⟨name,hname⟩
    rw [← h.messages.waiting] at hname
    obtain ⟨item,hitem,hkey⟩ := Option.map_eq_some_iff.mp hname
    exact ⟨item,InsertionMap.mem_values_iff.mpr ⟨name,hitem⟩,hkey⟩

section Window

variable {last : Option UpsertType} {cs : List Change} {s : PlainState}

/-- Buffering an upsert of the pending type. -/
theorem InWindow.accept (messages : List Message) (type : UpsertType) (s₁ : PlainState)
    (h : InWindow last cs s) (htyped : Typed (some type) s.data.messageUpserts)
    (hdata : s₁.data = s.data) (hbuffering : s₁.buffering = true) (hstack : s₁.stack = [])
    (hhanded : s₁.handed = s.handed) : InWindow (some type) (cs++messages.map fun m => .upsert m.key)
      (acceptUpsert plainChannels s₁ messages type) := by
  unfold acceptUpsert
  rw [if_pos hbuffering,hdata]
  constructor
  · exact hbuffering
  · exact hstack
  · exact appendMessages_mirrors h.mirror
  · rfl
  · rfl
  · exact appendMessages_typed htyped
  · change ∀ events ∈ s₁.handed, _
    rw [hhanded]
    exact h.upsertsOnly
  · intro key
    change key ∈ s₁.handed.flatMap EventMap.messageKeys ↔ _
    rw [hhanded]
    have hturn : Change.turn ∉ messages.map fun m => Change.upsert m.key := by simp
    simp only [left_append hturn]
    exact h.left key

/-- A turn: the pending messages are released and none is pending. -/
theorem InWindow.turn (s₁ : PlainState) (upserts : MessageUpserts) (h : InWindow last cs s)
    (hempty : ∀ name, upserts.get name = none) (hdata : s₁.data = ⟨upserts,s.data.rest⟩)
    (hbuffering : s₁.buffering = true) (hstack : s₁.stack = [])
    (hpending : s₁.hasPendingUpserts = last.isSome) (htype : s₁.pendingUpsertType = last)
    (hhanded : s₁.handed = s.handed++[⟨pendingBatch s.data.messageUpserts,noChatMaps⟩] ∨
      s₁.handed = s.handed ∧ pendingBatch s.data.messageUpserts = none) : InWindow last (cs++[.turn]) s₁ := by
  have hleft : ∀ key, (∃ name, key ∈ (passage name (cs++[.turn])).left) ↔
      (∃ name, key ∈ (passage name cs).left) ∨ ∃ name, key ∈ (passage name cs).waiting := by
    intro key
    simp only [passage_concat,Passage.next,List.mem_append,Option.mem_toList,exists_or,
      Option.mem_def]
  have hbatch := mem_messageKeys_pending noChatMaps h.mirror
  constructor
  · exact hbuffering
  · exact hstack
  · rw [hdata]
    exact turn_mirrors h.mirror hempty
  · exact hpending
  · exact htype
  · intro name item hitem
    rw [hdata] at hitem
    rw [hempty] at hitem
    cases hitem
  · intro events hevents
    rcases hhanded with hbatch | ⟨hsame,_⟩
    · rw [hbatch,List.mem_append,List.mem_singleton] at hevents
      rcases hevents with hold | rfl
      · exact h.upsertsOnly events hold
      · exact ⟨rfl,rfl,rfl⟩
    · rw [hsame] at hevents
      exact h.upsertsOnly events hevents
  · intro key
    rw [hleft,← h.left,← hbatch key]
    unfold handedKeys
    rcases hhanded with hnew | ⟨hsame,hnone⟩
    · rw [hnew,List.flatMap_append,List.mem_append]
      simp
    · rw [hsame,hnone]
      simp [EventMap.messageKeys]

theorem settle_idle (h : s.stack = []) : settle s = s := by
  unfold settle
  rw [h]

/-- Emitting an upsert within a window. -/
theorem InWindow.emitUpsert (messages : List Message) (type : UpsertType) (h : InWindow last cs s) :
    InWindow (some type) (cs++(turnOf last type++messages.map fun m => .upsert m.key))
      (settle (EventBuffer.emitUpsert plainChannels s messages type)) := by
  rw [← List.append_assoc]
  unfold EventBuffer.emitUpsert turnOf
  dsimp only
  by_cases hsame : last = none ∨ last = some type
  · have hno : ¬(s.hasPendingUpserts = true ∧ s.pendingUpsertType ≠ some type) := by
      rw [h.pending,h.type]
      rintro ⟨hsome,hne⟩
      rcases hsame with rfl | heq
      · cases hsome
      · exact hne heq
    rw [if_neg hno,if_pos hsame,List.append_nil]
    have htyped : Typed (some type) s.data.messageUpserts := by
      intro name item hitem
      have hlast := h.typed name item hitem
      rcases hsame with rfl | heq
      · cases hlast
      · rw [← heq]
        exact hlast
    have haccept := h.accept messages type
      {s with emitted := s.emitted++messages.map fun m => stringifyMessageKey m.key} htyped
      rfl h.active h.idle rfl
    rw [settle_idle haccept.idle]
    exact haccept
  · have hturn : s.hasPendingUpserts = true ∧ s.pendingUpsertType ≠ some type := by
      rw [not_or] at hsame
      rw [h.pending,h.type]
      exact ⟨Option.isSome_iff_ne_none.mpr hsame.1,hsame.2⟩
    rw [if_pos hturn,if_neg hsame]
    split
    · rename_i batch hbatch
      have htype : batch.type ≠ type := by
        unfold pendingBatch at hbatch
        split at hbatch
        · cases hbatch
        · rename_i key item entries hentries
          cases hbatch
          have hget : s.data.messageUpserts.get key = some item := by
            rw [InsertionMap.get_eq_some_iff,hentries]
            exact List.mem_cons_self
          intro heq
          exact hsame (.inr ((h.typed key item hget).trans (congrArg some heq)))
      rw [if_pos htype]
      have hreleased := h.turn
        {s with
          data := ⟨InsertionMap.empty,s.data.rest⟩
          stack := []
          handed := s.handed++[⟨some batch,noChatMaps⟩]}
        InsertionMap.empty
        (fun _ => rfl) rfl h.active rfl h.pending h.type (.inl (by rw [hbatch]))
      have haccept := hreleased.accept messages type
        {s with
          emitted := s.emitted++messages.map fun m => stringifyMessageKey m.key
          data := ⟨InsertionMap.empty,s.data.rest⟩
          stack := []
          handed := s.handed++[⟨some batch,noChatMaps⟩]
          hasPendingUpserts := false}
        (fun _ _ => nofun)
        rfl h.active rfl rfl
      have hsettle : settle (release {s with
          emitted := s.emitted++messages.map fun m => stringifyMessageKey m.key}
          ⟨some batch,plainChannels.nothing⟩ (.typeChange messages type)) =
          acceptUpsert plainChannels {s with
            emitted := s.emitted++messages.map fun m => stringifyMessageKey m.key
            data := ⟨InsertionMap.empty,s.data.rest⟩
            stack := []
            handed := s.handed++[⟨some batch,noChatMaps⟩]
            hasPendingUpserts := false} messages type := by
        rw [← h.idle]
        rfl
      rw [hsettle]
      exact haccept
    · rename_i hnone
      have hempty : ∀ name, s.data.messageUpserts.get name = none := by
        intro name
        rw [InsertionMap.get_eq_none_iff,pendingBatch_eq_none_iff.mp hnone]
        exact List.not_mem_nil
      have hreleased := h.turn s _ hempty rfl h.active h.idle h.pending h.type
        (.inr ⟨rfl,hnone⟩)
      have haccept := hreleased.accept messages type
        {s with
          emitted := s.emitted++messages.map fun m => stringifyMessageKey m.key
          hasPendingUpserts := false}
        (fun name item hitem => by rw [hempty] at hitem; cases hitem)
        rfl h.active h.idle rfl
      rw [settle_idle haccept.idle]
      exact haccept

/-- Emitting another event within a window. -/
theorem InWindow.emit (event : ChatEvent Empty) (h : InWindow last cs s) :
    InWindow last (cs++changesOf event) (settle (EventBuffer.emit plainChannels s event)) := by
  unfold EventBuffer.emit
  split
  · rw [settle_idle (s := {s with data := appendEvent plainChannels s.data event}) h.idle]
    constructor
    · exact h.active
    · exact h.idle
    · exact appendEvent_mirrors h.mirror
    · exact h.pending
    · exact h.type
    · exact appendEvent_typed h.typed
    · exact h.upsertsOnly
    · intro key
      have hturn : Change.turn ∉ changesOf event := by
        cases event with
        | messagesDelete deletion => cases deletion <;> simp [changesOf]
        | _ => simp [changesOf]
      simp only [left_append hturn]
      exact h.left key
  · rename_i hpass
    rw [not_and] at hpass
    cases event with
    | unbuffered name =>
      have hsettle : settle (release s ⟨none,plainChannels.single (.unbuffered name)⟩ .single) =
          {s with handed := s.handed++[⟨none,singleChats (.unbuffered name)⟩]} := rfl
      rw [hsettle]
      change InWindow last (cs++[]) _
      rw [List.append_nil]
      constructor
      · exact h.active
      · exact h.idle
      · exact h.mirror
      · exact h.pending
      · exact h.type
      · exact h.typed
      · intro events hevents
        rcases List.mem_append.mp hevents with hold | hnew
        · exact h.upsertsOnly events hold
        · rw [List.mem_singleton.mp hnew]
          exact ⟨rfl,rfl,rfl⟩
      · intro key
        rw [← h.left]
        unfold handedKeys
        rw [List.flatMap_append,List.mem_append]
        simp [EventMap.messageKeys]
    | _ => exact (hpass h.active rfl).elim

end Window

namespace Consumer

variable (k : Consumer) (name id : String)

/-- The consumer knows a message. -/
def Knows : Prop := (k.messages name).isSome = true

/-- Make a change. -/
def make (k : Consumer) : Change → Consumer
  | .upsert key => k.upsert key
  | .delete key => k.delete key
  | .clear jid => k.clear jid
  | .chatUpsert id => k.upsertChat id
  | .chatDelete id => k.deleteChat id
  | _ => k

end Consumer

section Compare

variable {cs : List Change} (k : Consumer)

end Compare

section Released

variable (events : List WindowEvent) (k : Consumer)

end Released

section OwnKeys

variable {cs : List Change}

end OwnKeys

end Baileyrs.EventBuffer
