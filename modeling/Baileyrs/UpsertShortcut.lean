import Mathlib.Data.Finset.Card
import Mathlib.Data.Finset.Insert
import Baileyrs.EventBufferChannels

/-!
# The shortcut for a change of the upsert type

An upsert first releases the pending ones of another type. The buffer keeps a
flag and the type of the last buffered upsert, and looks at the pending
messages only when these tell a change; a scanning buffer looks at them on
every upsert. Messages are objects of a store, shared with outside code, and
the listeners of a release return before the emit or flush goes on. Contents
of objects, and chats, contacts and groups, are a parameter of the buffer.
-/

namespace Baileyrs.UpsertShortcut

open EventBuffer (MessageKey UpsertType TimerKind stringifyMessageKey)
open LabelledRuns

variable {H U X O ρ σ : Type*}

/-- A pending message, by its address, and the type it will be released with. -/
structure Pending where
  /-- The message. -/
  message : ℕ
  /-- Its type. -/
  type : UpsertType
  deriving DecidableEq

/-- A change of a message. -/
structure MessageUpdate (U : Type*) where
  /-- Key of the message. -/
  key : MessageKey
  /-- Fields it assigns. -/
  update : U
  deriving DecidableEq

/-- Reactions and receipts are buffered alike. -/
inductive NoteKind where
  | reaction
  | receipt
  deriving DecidableEq

/-- Reactions or receipts that wait for their message. -/
structure Notes (X : Type*) where
  /-- Key of the first one. -/
  key : MessageKey
  /-- All of them. -/
  notes : List X
  deriving DecidableEq

/-- Forms of a message deletion. -/
inductive MessagesDelete where
  | keys (keys : List MessageKey)
  | all (jid : String)
  deriving DecidableEq

/-- Events beside message upserts; those of type `O` are about chats, contacts and groups,
or are never buffered. -/
inductive Event (U X O : Type*) where
  | messagesUpdate (updates : List (MessageUpdate U))
  | messagesDelete (deletion : MessagesDelete)
  | historySet (messages : List ℕ) (history : O)
  | notes (kind : NoteKind) (notes : List (MessageKey × X))
  | other (event : O)
  deriving DecidableEq

/-- Pending data, by property name. -/
structure Data (U X ρ : Type*) where
  /-- Messages of the history set. -/
  historyMessages : InsertionMap String ℕ
  /-- Whether there is no history set. -/
  historyEmpty : Bool
  /-- Pending messages. -/
  messageUpserts : InsertionMap String Pending
  /-- Changes of other messages. -/
  messageUpdates : InsertionMap String (MessageUpdate U)
  /-- Deleted messages. -/
  messageDeletes : InsertionMap String MessageKey
  /-- Reactions and receipts of other messages. -/
  messageNotes : NoteKind → InsertionMap String (Notes X)
  /-- Chats, contacts, groups and the other fields of the history set. -/
  rest : ρ

/-- What buffering an event reads and changes. -/
structure World (H U X ρ : Type*) where
  /-- Objects, messages among them. -/
  objects : H
  /-- Names seen in history sets. -/
  historyCache : Finset String
  /-- Pending data. -/
  data : Data U X ρ

/-- Contents of objects, and the channels of chats, contacts and groups. -/
structure Contents (H U X O ρ σ : Type*) where
  /-- Key of a message. -/
  key : H → ℕ → MessageKey
  /-- Give a message the timestamp of an existing one. -/
  takeTimestamp : H → (message existing : ℕ) → H
  /-- Assign the fields of an update to a message. -/
  assign : H → ℕ → U → H
  /-- Assign the fields of a later update to an earlier one. -/
  merge : U → U → U
  /-- An update without fields. -/
  noFields : U
  /-- A message of a chat was read: its chat has one unread message less. -/
  countRead : H → ρ → (message : ℕ) → MessageUpdate U → H × ρ
  /-- Put a reaction or receipt on a message. -/
  note : NoteKind → H → ℕ → X → H
  /-- Put a reaction or receipt to those that wait. -/
  noteWaiting : NoteKind → H → List X → X → H × List X
  /-- Buffer chats and contacts of a history set. -/
  history : World H U X ρ → O → H × Finset String × ρ
  /-- Take over the other fields of a history set. -/
  header : ρ → O → ρ
  /-- Whether another event is buffered. -/
  bufferable : O → Bool
  /-- Buffer another event; conditions of chat updates see all data. -/
  append : World H U X ρ → O → H × ρ
  /-- Data of a new buffer. -/
  makeData : ρ
  /-- Split off the chat updates that wait for a later release; the rest is released. -/
  carry : ρ → ρ × ρ
  /-- Part of an event map made of the data. -/
  consolidate : H → ρ → σ
  /-- Whether that part has no entry. -/
  isEmpty : σ → Bool

/-- Event map of a flush. -/
structure Consolidated (U X σ : Type*) where
  /-- Messages of the history set, when there is one. -/
  history : Option (List ℕ)
  /-- Message upserts and their type, when there are any. -/
  upserts : Option (List ℕ × UpsertType)
  /-- Changes of messages. -/
  updates : List (MessageUpdate U)
  /-- Keys of deleted messages. -/
  deletes : List MessageKey
  /-- Reactions and receipts. -/
  notes : NoteKind → List (MessageKey × X)
  /-- Chats, contacts, groups and the other fields of the history set. -/
  rest : σ

/-- Event maps handed to the listeners. -/
inductive EventMap (U X O σ : Type*) where
  | consolidated (events : Consolidated U X σ)
  | upserts (messages : List ℕ) (type : UpsertType)
  | single (event : Event U X O)

/-- Calls of the buffer, firing timers, and changes of objects by outside code. -/
inductive Action (H U X O : Type*) where
  | emitUpsert (messages : List ℕ) (type : UpsertType)
  | emit (event : Event U X O)
  | buffer
  | flush
  | startBuffered
  | finishBuffered
  | fire (timer : ℕ)
  | change (objects : H)

/-- A buffer that scans the pending messages on every upsert. -/
structure Scanning (H U X O ρ σ : Type*) where
  /-- Objects and pending data. -/
  world : World H U X ρ
  /-- Whether events are buffered. -/
  buffering : Bool
  /-- Buffered functions believed to be running. -/
  bufferCount : ℕ
  /-- Handle of the safety timer. -/
  bufferTimeout : Option ℕ
  /-- Handle of the quick flush timer. -/
  flushPendingTimeout : Option ℕ
  /-- Live timers. -/
  timers : List (ℕ × TimerKind)
  /-- Next unused handle. -/
  fresh : ℕ
  /-- Buffered functions whose work has not settled. -/
  working : ℕ
  /-- Event maps handed to the listeners and the objects they saw, oldest first. -/
  handed : List (EventMap U X O σ × H)

/-- The buffer. -/
structure Buffer (H U X O ρ σ : Type*) extends Scanning H U X O ρ σ where
  /-- Whether a message upsert was buffered since the last release. -/
  hasPendingUpserts : Bool
  /-- Its type. -/
  pendingUpsertType : Option UpsertType

variable (c : Contents H U X O ρ σ)

/-- Pending data of a new buffer. -/
def makeBufferData : Data U X ρ :=
  ⟨InsertionMap.empty,true,InsertionMap.empty,InsertionMap.empty,InsertionMap.empty,fun _ => InsertionMap.empty,c.makeData⟩

section Append

/-- Buffer one message of an upsert. -/
def appendMessage (type : UpsertType) (w : World H U X ρ) (message : ℕ) : World H U X ρ :=
  let key := stringifyMessageKey (c.key w.objects message)
  let existing := ((w.data.messageUpserts.get key).map Pending.message).or (w.data.historyMessages.get key)
  let objects := match existing with
    | some existing => c.takeTimestamp w.objects message existing
    | none => w.objects
  let objects := match w.data.messageUpdates.get key with
    | some pending => c.assign objects message pending.update
    | none => objects
  let data := {w.data with messageUpdates := w.data.messageUpdates.delete key}
  match data.historyMessages.get key with
  | some _ => {w with objects, data := {data with historyMessages := data.historyMessages.set key message}}
  | none =>
    let notify := type = .notify ∨ (data.messageUpserts.get key).map Pending.type = some .notify
    let item : Pending := ⟨message,if notify then .notify else type⟩
    {w with objects, data := {data with messageUpserts := data.messageUpserts.set key item}}

/-- Buffer one change of a message. -/
def appendUpdate (w : World H U X ρ) (update : MessageUpdate U) : World H U X ρ :=
  let key := stringifyMessageKey update.key
  match (w.data.historyMessages.get key).or ((w.data.messageUpserts.get key).map Pending.message) with
  | some existing =>
    let counted := c.countRead (c.assign w.objects existing update.update) w.data.rest existing update
    {w with objects := counted.1, data := {w.data with rest := counted.2}}
  | none =>
    let pending := (w.data.messageUpdates.get key).getD ⟨update.key,c.noFields⟩
    let stored := {pending with update := c.merge pending.update update.update}
    {w with data := {w.data with messageUpdates := w.data.messageUpdates.set key stored}}

/-- Buffer the deletion of one message. -/
def appendDelete (w : World H U X ρ) (key : MessageKey) : World H U X ρ :=
  let value := stringifyMessageKey key
  let deletes := match w.data.messageDeletes.get value with
    | some _ => w.data.messageDeletes
    | none => w.data.messageDeletes.set value key
  {w with data := {w.data with
    messageDeletes := deletes
    messageUpserts := w.data.messageUpserts.delete value
    messageUpdates := w.data.messageUpdates.delete value}}

/-- Buffer one reaction or receipt. -/
def appendNote (kind : NoteKind) (w : World H U X ρ) (note : MessageKey × X) : World H U X ρ :=
  let value := stringifyMessageKey note.1
  match w.data.messageUpserts.get value with
  | some existing => {w with objects := c.note kind w.objects existing.message note.2}
  | none =>
    let entry := ((w.data.messageNotes kind).get value).getD ⟨note.1,[]⟩
    let noted := c.noteWaiting kind w.objects entry.notes note.2
    let waiting := (w.data.messageNotes kind).set value {entry with notes := noted.2}
    {w with
      objects := noted.1
      data := {w.data with messageNotes := Function.update w.data.messageNotes kind waiting}}

/-- Buffer one message of a history set, unless it was seen before. -/
def appendHistoryMessage (w : World H U X ρ) (message : ℕ) : World H U X ρ :=
  let key := stringifyMessageKey (c.key w.objects message)
  match w.data.historyMessages.get key with
  | some _ => w
  | none =>
    if key ∈ w.historyCache then w
    else
      {w with
        historyCache := insert key w.historyCache
        data := {w.data with historyMessages := w.data.historyMessages.set key message}}

/-- Buffer a history set. -/
def appendHistory (w : World H U X ρ) (messages : List ℕ) (history : O) : World H U X ρ :=
  let added := c.history w history
  let w : World H U X ρ := ⟨added.1,added.2.1,{w.data with rest := added.2.2}⟩
  let w := messages.foldl (appendHistoryMessage c) w
  {w with data := {w.data with historyEmpty := false, rest := c.header w.data.rest history}}

/-- Buffer an event that is no upsert. -/
def append (w : World H U X ρ) : Event U X O → World H U X ρ
  | .messagesUpdate updates => updates.foldl (appendUpdate c) w
  | .messagesDelete (.keys keys) => keys.foldl appendDelete w
  | .messagesDelete (.all _) => w
  | .historySet messages history => appendHistory c w messages history
  | .notes kind notes => notes.foldl (appendNote c kind) w
  | .other event => {w with objects := (c.append w event).1, data := {w.data with rest := (c.append w event).2}}

/-- Whether an event that is no upsert is buffered. -/
def bufferable : Event U X O → Bool
  | .other event => c.bufferable event
  | _ => true

/-- Event map made of the pending data. -/
def consolidateEvents (objects : H) (data : Data U X ρ) : Consolidated U X σ where
  history := if data.historyEmpty then none else some data.historyMessages.values
  upserts := match data.messageUpserts.values with
    | [] => none
    | first::rest => some ((first::rest).map Pending.message,first.type)
  updates := data.messageUpdates.values
  deletes := data.messageDeletes.values
  notes := fun kind => (data.messageNotes kind).values.flatMap fun entry => entry.notes.map fun note => (entry.key,note)
  rest := c.consolidate objects data.rest

/-- Whether an event map has no entry. -/
def Consolidated.hasNoKeys (events : Consolidated U X σ) : Bool :=
  events.history.isNone && events.upserts.isNone && events.updates.isEmpty && events.deletes.isEmpty &&
    (events.notes .reaction).isEmpty && (events.notes .receipt).isEmpty && c.isEmpty events.rest

end Append

namespace Scanning

/-- Hand an event map to the listeners, which return. -/
def release (s : Scanning H U X O ρ σ) (events : EventMap U X O σ) : Scanning H U X O ρ σ :=
  {s with handed := s.handed++[(events,s.world.objects)]}

/-- Cancel a timer. -/
def clearTimeout (s : Scanning H U X O ρ σ) (handle : Option ℕ) : Scanning H U X O ρ σ :=
  {s with timers := s.timers.filter fun timer => handle ≠ some timer.1}

/-- Release the pending data. -/
def flush (s : Scanning H U X O ρ σ) : Scanning H U X O ρ σ :=
  if s.buffering then
    let s := {s with buffering := false, bufferCount := 0}
    let s := clearTimeout (clearTimeout s s.bufferTimeout) s.flushPendingTimeout
    let historyCache := if 10000 < s.world.historyCache.card then ∅ else s.world.historyCache
    let carried := c.carry s.world.data.rest
    let s := {s with
      bufferTimeout := none
      flushPendingTimeout := none
      world := ⟨s.world.objects,historyCache,{s.world.data with rest := carried.2}⟩}
    let consolidated := consolidateEvents c s.world.objects s.world.data
    let s := if consolidated.hasNoKeys c then s else release s (.consolidated consolidated)
    {s with world := {s.world with data := {makeBufferData c with rest := carried.1}}}
  else s

/-- Activate the buffer. -/
def buffer (s : Scanning H U X O ρ σ) : Scanning H U X O ρ σ :=
  if s.buffering then {s with bufferCount := s.bufferCount+1}
  else
    let s := clearTimeout s s.bufferTimeout
    {s with
      buffering := true
      bufferCount := 1
      bufferTimeout := some s.fresh
      timers := (s.fresh,.safety)::s.timers
      fresh := s.fresh+1}

/-- The work of a buffered function settled. -/
def finishBuffered (s : Scanning H U X O ρ σ) : Scanning H U X O ρ σ :=
  let s := {s with bufferCount := s.bufferCount-1, working := s.working-1}
  if s.bufferCount = 0 ∧ s.flushPendingTimeout = none then
    {s with
      flushPendingTimeout := some s.fresh
      timers := (s.fresh,.quick)::s.timers
      fresh := s.fresh+1}
  else s

/-- Release the pending messages; the first one gives the type. -/
def releaseUpserts (s : Scanning H U X O ρ σ) (type : UpsertType) : Scanning H U X O ρ σ :=
  let pending := s.world.data.messageUpserts.values
  let s := release s (.upserts (pending.map Pending.message) type)
  {s with world := {s.world with data := {s.world.data with messageUpserts := InsertionMap.empty}}}

/-- Buffer a message upsert, or pass it on. -/
def acceptUpsert (s : Scanning H U X O ρ σ) (messages : List ℕ) (type : UpsertType) : Scanning H U X O ρ σ :=
  if s.buffering then {s with world := messages.foldl (appendMessage c type) s.world}
  else release s (.upserts messages type)

/-- Emit a message upsert: scan the pending ones, and release them first when there is
one of another type. -/
def emitUpsert (s : Scanning H U X O ρ σ) (messages : List ℕ) (type : UpsertType) : Scanning H U X O ρ σ :=
  match s.world.data.messageUpserts.values.find? fun item => item.type ≠ type with
  | some item => acceptUpsert c (releaseUpserts s item.type) messages type
  | none => acceptUpsert c s messages type

/-- Emit another event. -/
def emit (s : Scanning H U X O ρ σ) (event : Event U X O) : Scanning H U X O ρ σ :=
  if s.buffering ∧ bufferable c event then {s with world := append c s.world event}
  else release s (.single event)

/-- Execute one step. -/
def step (s : Scanning H U X O ρ σ) : Action H U X O → Option (Scanning H U X O ρ σ)
  | .emitUpsert messages type => some (emitUpsert c s messages type)
  | .emit event => some (emit c s event)
  | .buffer => some (buffer s)
  | .flush => some (flush c s)
  | .startBuffered => some {buffer s with working := s.working+1}
  | .finishBuffered => if 0 < s.working then some (finishBuffered s) else none
  | .fire timer =>
    if s.timers.any fun live => live.1 = timer then
      some (flush c {s with timers := s.timers.filter fun live => live.1 ≠ timer})
    else none
  | .change objects => some {s with world := {s.world with objects}}

/-- A new buffer among the objects of its callers. -/
def make (objects : H) : Scanning H U X O ρ σ :=
  ⟨⟨objects,∅,makeBufferData c⟩,false,0,none,none,[],0,0,[]⟩

end Scanning

namespace Buffer

/-- Release the pending data. -/
def flush (s : Buffer H U X O ρ σ) : Buffer H U X O ρ σ :=
  if s.buffering then {s with toScanning := s.toScanning.flush c, hasPendingUpserts := false}
  else s

/-- What an upsert does before it is buffered or passed on: only a change of the type looks at
the pending messages. -/
def changeType (s : Buffer H U X O ρ σ) (type : UpsertType) : Buffer H U X O ρ σ :=
  if s.hasPendingUpserts ∧ s.pendingUpsertType ≠ some type then
    match s.world.data.messageUpserts.values with
    | first::_ =>
      if first.type ≠ type then {s with toScanning := s.toScanning.releaseUpserts first.type, hasPendingUpserts := false}
      else {s with hasPendingUpserts := false}
    | [] => {s with hasPendingUpserts := false}
  else s

/-- Emit a message upsert. -/
def emitUpsert (s : Buffer H U X O ρ σ) (messages : List ℕ) (type : UpsertType) : Buffer H U X O ρ σ :=
  let s := s.changeType type
  if s.buffering then
    {s with
      world := messages.foldl (appendMessage c type) s.world
      hasPendingUpserts := true
      pendingUpsertType := some type}
  else {s with toScanning := s.toScanning.release (.upserts messages type)}

/-- Emit another event. -/
def emit (s : Buffer H U X O ρ σ) (event : Event U X O) : Buffer H U X O ρ σ :=
  if s.buffering ∧ bufferable c event then {s with world := append c s.world event}
  else {s with toScanning := s.toScanning.release (.single event)}

/-- Execute one step. Timers fire and buffered functions settle in turns of their own. -/
def step (s : Buffer H U X O ρ σ) : Action H U X O → Option (Buffer H U X O ρ σ)
  | .emitUpsert messages type => some (s.emitUpsert c messages type)
  | .emit event => some (s.emit c event)
  | .buffer => some {s with toScanning := s.toScanning.buffer}
  | .flush => some (s.flush c)
  | .startBuffered => some {s with toScanning := {s.toScanning.buffer with working := s.working+1}}
  | .finishBuffered => if 0 < s.working then some {s with toScanning := s.toScanning.finishBuffered} else none
  | .fire timer =>
    if s.timers.any fun live => live.1 = timer then
      some (flush c {s with timers := s.timers.filter fun live => live.1 ≠ timer})
    else none
  | .change objects => some {s with world := {s.world with objects}}

/-- A new buffer among the objects of its callers. -/
def makeEventBuffer (objects : H) : Buffer H U X O ρ σ :=
  ⟨Scanning.make c objects,false,none⟩

end Buffer

/-- Pending upserts of one type. -/
def Typed (type : UpsertType) (data : Data U X ρ) : Prop :=
  ∀ item ∈ data.messageUpserts.values, item.type = type

/-- The flag and the type of the last upsert tell the types of all pending messages. -/
structure Summarises (s : Buffer H U X O ρ σ) : Prop where
  /-- The flag is set when a message is pending. -/
  flag : s.world.data.messageUpserts.values ≠ [] → s.hasPendingUpserts = true
  /-- All pending messages have the type of the last upsert. -/
  types : ∀ item ∈ s.world.data.messageUpserts.values, s.pendingUpsertType = some item.type

section Pending

variable {c : Contents H U X O ρ σ} {w : World H U X ρ}

/-- What is pending after the second was pending before. -/
def PendingFrom (w w' : World H U X ρ) : Prop :=
  ∀ item ∈ w'.data.messageUpserts.values, item ∈ w.data.messageUpserts.values

/-- A fold of steps that add nothing adds nothing. -/
theorem pendingFrom_foldl {α : Type*} {next : World H U X ρ → α → World H U X ρ}
    (h : ∀ w a, PendingFrom w (next w a)) (w : World H U X ρ) (list : List α) : PendingFrom w (list.foldl next w) := by
  induction list generalizing w with
  | nil => exact fun _ hitem => hitem
  | cons a list ih =>
    have hfirst := h w a
    have hrest := ih (next w a)
    exact fun item hitem => hfirst item (hrest item hitem)

theorem appendUpdate_pending (w : World H U X ρ) (update : MessageUpdate U) : PendingFrom w (appendUpdate c w update) := by
  intro item hitem
  unfold appendUpdate at hitem
  dsimp only at hitem
  split at hitem <;> exact hitem

theorem appendDelete_pending (w : World H U X ρ) (key : MessageKey) : PendingFrom w (appendDelete w key) :=
  fun _ hitem => InsertionMap.mem_values_delete hitem

theorem appendNote_pending (kind : NoteKind) (w : World H U X ρ) (note : MessageKey × X) :
    PendingFrom w (appendNote c kind w note) := by
  intro item hitem
  unfold appendNote at hitem
  dsimp only at hitem
  split at hitem <;> exact hitem

theorem appendHistoryMessage_pending (w : World H U X ρ) (message : ℕ) :
    PendingFrom w (appendHistoryMessage c w message) := by
  intro item hitem
  unfold appendHistoryMessage at hitem
  dsimp only at hitem
  split at hitem
  · exact hitem
  · split at hitem <;> exact hitem

/-- Only upserts add to the pending messages. -/
theorem append_pending (w : World H U X ρ) (event : Event U X O) : PendingFrom w (append c w event) := by
  cases event with
  | messagesUpdate updates => exact pendingFrom_foldl appendUpdate_pending w updates
  | messagesDelete deletion =>
    cases deletion with
    | keys keys => exact pendingFrom_foldl appendDelete_pending w keys
    | all jid => exact fun _ hitem => hitem
  | historySet messages history =>
    have hfold := pendingFrom_foldl (appendHistoryMessage_pending (c:=c))
      ⟨(c.history w history).1,(c.history w history).2.1,{w.data with rest := (c.history w history).2.2}⟩ messages
    exact fun item hitem => hfold item hitem
  | notes kind notes => exact pendingFrom_foldl (appendNote_pending kind) w notes
  | other event => exact fun _ hitem => hitem

/-- A message is buffered with the type of its upsert among others of that type: none is
promoted. -/
theorem appendMessage_typed {type : UpsertType} (h : Typed type w.data) (message : ℕ) :
    Typed type (appendMessage c type w message).data := by
  unfold appendMessage
  dsimp only
  split
  · exact h
  · intro item hitem
    obtain ⟨key,hkey⟩ := InsertionMap.mem_values_iff.mp hitem
    rw [InsertionMap.get_set] at hkey
    split at hkey
    · have hitem := Option.some.inj hkey
      rw [← hitem]
      dsimp only
      split
      · rename_i hnotify
        rcases hnotify with hnew | hheld
        · exact hnew.symm
        · obtain ⟨held,hget,htype⟩ := Option.map_eq_some_iff.mp hheld
          have hmem := InsertionMap.mem_values_iff.mpr ⟨_,hget⟩
          exact htype.symm.trans (h held hmem)
      · rfl
    · exact h item (InsertionMap.mem_values_iff.mpr ⟨key,hkey⟩)

theorem appendMessages_typed {type : UpsertType} (h : Typed type w.data) (messages : List ℕ) :
    Typed type (messages.foldl (appendMessage c type) w).data := by
  induction messages generalizing w with
  | nil => exact h
  | cons message messages ih => exact ih (appendMessage_typed h message)

end Pending

section Steps

variable {c : Contents H U X O ρ σ} {s : Buffer H U X O ρ σ}

/-- What adds no pending message and leaves the flag and the type alone keeps the summary. -/
theorem Summarises.keeps {s' : Buffer H U X O ρ σ} (h : Summarises s) (hpending : PendingFrom s.world s'.world)
    (hflag : s'.hasPendingUpserts = s.hasPendingUpserts) (htype : s'.pendingUpsertType = s.pendingUpsertType) :
    Summarises s' := by
  constructor
  · intro hsome
    obtain ⟨item,hitem⟩ := List.exists_mem_of_ne_nil _ hsome
    have hbefore := hpending item hitem
    rw [hflag]
    exact h.flag (List.ne_nil_of_mem hbefore)
  · intro item hitem
    rw [htype]
    exact h.types item (hpending item hitem)

/-- Without pending messages there is nothing to tell. -/
theorem Summarises.nothing (hnone : s.world.data.messageUpserts.values = []) : Summarises s where
  flag hsome := absurd hnone hsome
  types item hitem := by
    rw [hnone] at hitem
    cases hitem

/-- After a flush of an active buffer nothing is pending. -/
theorem flush_pending {s : Scanning H U X O ρ σ} (h : s.buffering = true) :
    (s.flush c).world.data.messageUpserts.values = [] := by
  rw [Scanning.flush,if_pos h]
  rfl

theorem Buffer.flush_toScanning (s : Buffer H U X O ρ σ) : (s.flush c).toScanning = s.toScanning.flush c := by
  unfold Buffer.flush
  split
  · rfl
  · rename_i hidle
    rw [Scanning.flush,if_neg hidle]

theorem Summarises.flush (h : Summarises s) : Summarises (s.flush c) := by
  unfold Buffer.flush
  split
  · rename_i hactive
    exact .nothing (flush_pending hactive)
  · exact h

/-- The shortcut releases when a scan finds a message of another type, and with that type. -/
theorem Summarises.changeType (h : Summarises s) (type : UpsertType) :
    (s.changeType type).toScanning =
        (match s.world.data.messageUpserts.values.find? fun item => item.type ≠ type with
        | some item => s.toScanning.releaseUpserts item.type
        | none => s.toScanning) ∧
      Summarises (s.changeType type) ∧ Typed type (s.changeType type).world.data := by
  unfold Buffer.changeType
  cases hvalues : s.world.data.messageUpserts.values with
  | nil =>
    have htyped : Typed type s.world.data := by
      intro item hitem
      rw [hvalues] at hitem
      cases hitem
    split
    · exact ⟨rfl,.nothing hvalues,htyped⟩
    · exact ⟨rfl,h,htyped⟩
  | cons first rest =>
    have hflag := h.flag (hvalues ▸ List.cons_ne_nil first rest)
    have hfirst : s.pendingUpsertType = some first.type := h.types first (hvalues ▸ List.mem_cons_self)
    have hshare : ∀ item ∈ first::rest, item.type = first.type := by
      intro item hitem
      have htype := h.types item (hvalues ▸ hitem)
      exact Option.some.inj (htype.symm.trans hfirst)
    by_cases hsame : first.type = type
    · have hnone : (first::rest).find? (fun item => item.type ≠ type) = none := by
        rw [List.find?_eq_none]
        intro item hitem
        simp [hshare item hitem,hsame]
      have hcond : ¬(s.hasPendingUpserts = true ∧ s.pendingUpsertType ≠ some type) := by
        rw [hfirst,hsame]
        exact fun hboth => hboth.2 rfl
      rw [if_neg hcond,hnone]
      refine ⟨rfl,h,?_⟩
      intro item hitem
      rw [hvalues] at hitem
      exact (hshare item hitem).trans hsame
    · have hfound : (first::rest).find? (fun item => item.type ≠ type) = some first := by
        rw [List.find?_cons_of_pos]
        simpa using hsame
      have hcond : s.hasPendingUpserts = true ∧ s.pendingUpsertType ≠ some type := by
        rw [hfirst]
        exact ⟨hflag,fun heq => hsame (Option.some.inj heq)⟩
      have hother : first.type ≠ type := hsame
      rw [if_pos hcond,hfound]
      dsimp only
      rw [if_pos hother]
      exact ⟨rfl,.nothing rfl,fun item hitem => nomatch hitem⟩

/-- An upsert of the buffer is one of the scanning buffer. -/
theorem Summarises.emitUpsert (h : Summarises s) (messages : List ℕ) (type : UpsertType) :
    (s.emitUpsert c messages type).toScanning = s.toScanning.emitUpsert c messages type ∧
      Summarises (s.emitUpsert c messages type) := by
  obtain ⟨hscan,hsummary,htyped⟩ := h.changeType type
  have haccept : (s.emitUpsert c messages type).toScanning =
      (s.changeType type).toScanning.acceptUpsert c messages type := by
    unfold Buffer.emitUpsert Scanning.acceptUpsert
    dsimp only
    split <;> rfl
  constructor
  · rw [haccept,hscan,Scanning.emitUpsert]
    split <;> rfl
  · unfold Buffer.emitUpsert
    dsimp only
    split
    · have hall := appendMessages_typed (c:=c) htyped messages
      exact ⟨fun _ => rfl,fun item hitem => congrArg some (hall item hitem).symm⟩
    · exact hsummary.keeps (fun _ hitem => hitem) rfl rfl

/-- Another event of the buffer is one of the scanning buffer. -/
theorem Summarises.emit (h : Summarises s) (event : Event U X O) :
    (s.emit c event).toScanning = s.toScanning.emit c event ∧ Summarises (s.emit c event) := by
  unfold Buffer.emit Scanning.emit
  split
  · exact ⟨rfl,h.keeps (append_pending s.world event) rfl rfl⟩
  · exact ⟨rfl,h.keeps (fun _ hitem => hitem) rfl rfl⟩

/-- A step of the buffer is a step of the scanning buffer. -/
theorem step_toScanning (h : Summarises s) (a : Action H U X O) :
    (s.step c a).map Buffer.toScanning = s.toScanning.step c a := by
  cases a with
  | emitUpsert messages type => exact congrArg some (h.emitUpsert messages type).1
  | emit event => exact congrArg some (h.emit event).1
  | flush => exact congrArg some (Buffer.flush_toScanning s)
  | finishBuffered =>
    unfold Buffer.step Scanning.step
    dsimp only
    split <;> rfl
  | fire timer =>
    unfold Buffer.step Scanning.step
    dsimp only
    split
    · exact congrArg some (Buffer.flush_toScanning _)
    · rfl
  | buffer => rfl
  | startBuffered => rfl
  | change objects => rfl

/-- Every step keeps the summary. -/
theorem step_summarises (a : Action H U X O) {next : Buffer H U X O ρ σ} (h : Summarises s)
    (hstep : s.step c a = some next) : Summarises next := by
  have hsame : ∀ s' : Buffer H U X O ρ σ, s'.world.data = s.world.data → s'.hasPendingUpserts = s.hasPendingUpserts →
      s'.pendingUpsertType = s.pendingUpsertType → Summarises s' := by
    intro s' hdata hflag htype
    refine h.keeps ?_ hflag htype
    intro item hitem
    rwa [hdata] at hitem
  cases a with
  | emitUpsert messages type =>
    cases hstep
    exact (h.emitUpsert messages type).2
  | emit event =>
    cases hstep
    exact (h.emit event).2
  | flush =>
    cases hstep
    exact h.flush
  | buffer =>
    cases hstep
    refine hsame _ ?_ rfl rfl
    unfold Scanning.buffer
    split <;> rfl
  | startBuffered =>
    cases hstep
    refine hsame _ ?_ rfl rfl
    unfold Scanning.buffer
    split <;> rfl
  | finishBuffered =>
    obtain ⟨_,hnext⟩ := Option.ite_none_right_eq_some.mp hstep
    cases hnext
    refine hsame _ ?_ rfl rfl
    unfold Scanning.finishBuffered
    dsimp only
    split <;> rfl
  | fire timer =>
    obtain ⟨_,hnext⟩ := Option.ite_none_right_eq_some.mp hstep
    cases hnext
    have hfired := hsame {s with timers := s.timers.filter fun live => live.1 ≠ timer} rfl rfl rfl
    exact hfired.flush
  | change objects =>
    cases hstep
    exact hsame _ rfl rfl rfl

end Steps

/-- In every run the flag and the type tell what is pending, and the buffer hands over the
event maps that the scanning buffer hands over. -/
theorem upsert_shortcut (c : Contents H U X O ρ σ) (objects : H) (actions : List (Action H U X O)) :
    (run (Buffer.step c) (Buffer.makeEventBuffer c objects) actions).map (fun s => s.handed) =
        (run (Scanning.step c) (Scanning.make c objects) actions).map (fun s => s.handed) ∧
      ∀ s, run (Buffer.step c) (Buffer.makeEventBuffer c objects) actions = some s → Summarises s := by
  have hnew : Summarises (Buffer.makeEventBuffer c objects) := .nothing rfl
  have hkeeps : ∀ (s : Buffer H U X O ρ σ) a next, Summarises s → s.step c a = some next → Summarises next :=
    fun s a next h hstep => step_summarises a h hstep
  constructor
  · have hmap := run_map Buffer.toScanning (fun s a (h : Summarises s) => step_toScanning h a) hkeeps hnew actions
    have hstart : (Buffer.makeEventBuffer c objects).toScanning = Scanning.make c objects := rfl
    rw [← hstart,← hmap,Option.map_map]
    rfl
  · intro s hrun
    exact run_invariant hkeeps hrun hnew

/-- Messages with a key and a timestamp, and no other channels. -/
def plainContents : Contents (ℕ → EventBuffer.Message) EventBuffer.MessageFields Unit Unit Unit Unit where
  key objects message := (objects message).key
  takeTimestamp objects message existing :=
    Function.update objects message {objects message with messageTimestamp := (objects existing).messageTimestamp}
  assign objects message fields := Function.update objects message (EventBuffer.assignFields (objects message) fields)
  merge := EventBuffer.mergeFields
  noFields := ⟨none,none⟩
  countRead objects chats _ _ := (objects,chats)
  note _ objects _ _ := objects
  noteWaiting _ objects waiting note := (objects,waiting++[note])
  history w _ := (w.objects,w.historyCache,w.data.rest)
  header chats _ := chats
  bufferable _ := true
  append w _ := (w.objects,w.data.rest)
  makeData := ()
  carry _ := ((),())
  consolidate _ _ := ()
  isEmpty _ := true

/-- Messages of one chat, named by their addresses. -/
def chatMessages : ℕ → EventBuffer.Message :=
  fun message => ⟨⟨"1@s.whatsapp.net",toString message,false⟩,none⟩

/-- Upserts of both types around a deletion of all that is pending, and a flush. -/
def typeChanges : List (Action (ℕ → EventBuffer.Message) EventBuffer.MessageFields Unit Unit) :=
  [.buffer,.emitUpsert [0,1] .notify,.emitUpsert [2] .notify,.emitUpsert [3] .append,
    .emit (.messagesDelete (.keys [(chatMessages 3).key])),.emitUpsert [4] .notify,.flush,.emitUpsert [5] .append]

/-- Addresses and type of the messages an event map upserts. -/
def EventMap.upserted : EventMap U X O σ → Option (List ℕ × UpsertType)
  | .consolidated events => events.upserts
  | .upserts messages type => some (messages,type)
  | .single _ => none

theorem upsert_shortcut_typeChanges :
    ∃ s, run (Buffer.step plainContents) (Buffer.makeEventBuffer plainContents chatMessages) typeChanges = some s ∧
      Summarises s ∧ s.handed.map (fun events => events.1.upserted) =
        [some ([0,1,2],.notify),some ([4],.notify),some ([5],.append)] := by
  have hrun := @run_after _ _ (Buffer.step plainContents) (Buffer.makeEventBuffer plainContents chatMessages)
    typeChanges (by decide +kernel)
  exact ⟨_,hrun,(upsert_shortcut plainContents chatMessages typeChanges).2 _ hrun,by decide +kernel⟩

end Baileyrs.UpsertShortcut
