import Baileyrs.InsertionMap
import Baileyrs.LabelledRuns

/-!
# The event buffer

While the buffer is active, bufferable events are folded into pending data,
and a flush hands one consolidated event map to the listeners of `event`.
Listeners run inside the release and may call back into the buffer, so the
releases in progress form a stack; what a release does after its listeners
returned is lost when one of them throws. The channels other than message
upserts are a parameter of the buffer.
-/

namespace Baileyrs.EventBuffer

/-- Key of a message; absent parts are the texts `undefined` and `null`. -/
structure MessageKey where
  /-- Chat of the message. -/
  remoteJid : String
  /-- Identifier of the message. -/
  id : String
  /-- Whether the own account sent it. -/
  fromMe : Bool
  deriving DecidableEq

/-- Property name of a message in the pending data. -/
def stringifyMessageKey (key : MessageKey) : String :=
  key.remoteJid++","++key.id++","++(if key.fromMe then "1" else "0")

/-- Types of a message upsert. -/
inductive UpsertType where
  | notify
  | append
  deriving DecidableEq

/-- A message. -/
structure Message where
  /-- Its key. -/
  key : MessageKey
  /-- When it was sent. -/
  messageTimestamp : Option ℕ
  deriving DecidableEq

/-- A pending message and the type it will be released with. -/
structure Pending where
  /-- The message. -/
  message : Message
  /-- Its type. -/
  type : UpsertType
  deriving DecidableEq

/-- Pending messages by property name. -/
abbrev MessageUpserts := InsertionMap String Pending

/-- The channels beside message upserts: other events of type `O`, their
pending data `ρ` and the part `σ` of an event map they fill. -/
structure Channels (O ρ σ : Type*) where
  /-- Pending data of a new buffer. -/
  makeData : ρ
  /-- Whether an event is buffered. -/
  bufferable : O → Bool
  /-- Fold an event into the pending data. -/
  append : MessageUpserts → ρ → O → MessageUpserts × ρ
  /-- Fold what is pending for a message into an upsert of it. -/
  absorb : ρ → String → Message → ρ × Message
  /-- Split off what waits for a later release; the rest is released. -/
  carry : ρ → ρ × ρ
  /-- Part of an event map made of the pending data. -/
  consolidate : ρ → σ
  /-- Part of an event map made of one event. -/
  single : O → σ
  /-- Part of an event map of message upserts alone. -/
  nothing : σ
  /-- Whether a part has no entry. -/
  isEmpty : σ → Bool
  /-- Whether an event takes pending messages away. -/
  removes : O → Bool
  /-- Other events leave the pending messages in place. -/
  append_keys : ∀ upserts data event, removes event = false →
    (append upserts data event).1.keys = upserts.keys

/-- Pending data. -/
structure Data (ρ : Type*) where
  /-- Pending messages. -/
  messageUpserts : MessageUpserts
  /-- Pending data of the other channels. -/
  rest : ρ

/-- Message upserts of an event map: property name and message, and the type. -/
structure UpsertBatch where
  /-- Messages in release order. -/
  messages : List (String × Message)
  /-- Their type. -/
  type : UpsertType

/-- One event map handed to the listeners. -/
structure EventMap (σ : Type*) where
  /-- Message upserts, when there are any. -/
  upserts : Option UpsertBatch
  /-- The other channels. -/
  rest : σ

/-- What a release does after its listeners returned. -/
inductive Frame (ρ : Type*) where
  | flush (next : Data ρ)
  | typeChange (messages : List Message) (type : UpsertType)
  | single

/-- The two timers. -/
inductive TimerKind where
  | safety
  | quick
  deriving DecidableEq

/-- The buffer. The last two fields record what happened. -/
structure State (ρ σ : Type*) where
  /-- Pending data. -/
  data : Data ρ
  /-- Whether events are buffered. -/
  buffering : Bool
  /-- Buffered functions believed to be running. -/
  bufferCount : ℕ
  /-- Handle of the safety timer. -/
  bufferTimeout : Option ℕ
  /-- Handle of the quick flush timer. -/
  flushPendingTimeout : Option ℕ
  /-- Live timers. -/
  timers : List (ℕ × TimerKind)
  /-- Next unused handle. -/
  fresh : ℕ
  /-- Whether a message upsert was buffered since the last release. -/
  hasPendingUpserts : Bool
  /-- Its type. -/
  pendingUpsertType : Option UpsertType
  /-- Releases whose listeners are running, the innermost first. -/
  stack : List (Frame ρ)
  /-- Buffered functions whose work has not settled. -/
  working : ℕ
  /-- Event maps handed to the listeners, oldest first. -/
  handed : List (EventMap σ)
  /-- Messages passed to emit, oldest first. -/
  emitted : List String

/-- Calls of the buffer by anyone, and what its listeners and timers do. -/
inductive Action (O : Type*) where
  | emitUpsert (messages : List Message) (type : UpsertType)
  | emit (event : O)
  | buffer
  | flush
  | startBuffered
  | finishBuffered
  | fire (timer : ℕ)
  | listenersReturn
  | listenersThrow

variable {O ρ σ : Type*} (c : Channels O ρ σ)

/-- Pending data of a new buffer. -/
def makeBufferData : Data ρ := ⟨InsertionMap.empty,c.makeData⟩

/-- Buffer one message. -/
def appendMessage (type : UpsertType) (data : Data ρ) (message : Message) : Data ρ :=
  let key := stringifyMessageKey message.key
  let existing := data.messageUpserts.get key
  let stamped : Message := match existing with
    | some item => {message with messageTimestamp := item.message.messageTimestamp}
    | none => message
  let merged := c.absorb data.rest key stamped
  let notify := type = .notify ∨ existing.map Pending.type = some .notify
  ⟨data.messageUpserts.set key ⟨merged.2,if notify then .notify else type⟩,merged.1⟩

/-- Buffer the messages of one upsert. -/
def appendMessages (data : Data ρ) (messages : List Message) (type : UpsertType) : Data ρ :=
  messages.foldl (appendMessage c type) data

/-- Buffer another event. -/
def appendEvent (data : Data ρ) (event : O) : Data ρ :=
  ⟨(c.append data.messageUpserts data.rest event).1,(c.append data.messageUpserts data.rest event).2⟩

/-- Message upserts made of the pending messages. -/
def pendingBatch (upserts : MessageUpserts) : Option UpsertBatch :=
  match upserts.entries with
  | [] => none
  | (key,item)::rest =>
    some ⟨((key,item)::rest).map fun pair => (pair.1,pair.2.message),item.type⟩

/-- Event map made of the pending data. -/
def consolidateEvents (data : Data ρ) : EventMap σ :=
  ⟨pendingBatch data.messageUpserts,c.consolidate data.rest⟩

/-- Hand an event map to the listeners. -/
def release (s : State ρ σ) (events : EventMap σ) (frame : Frame ρ) : State ρ σ :=
  {s with handed := s.handed++[events], stack := frame::s.stack}

/-- Cancel a timer. -/
def clearTimeout (s : State ρ σ) (handle : Option ℕ) : State ρ σ :=
  {s with timers := s.timers.filter fun timer => handle ≠ some timer.1}

/-- The rest of a flush once its event map was handed over. -/
def finishFlush (s : State ρ σ) (next : Data ρ) : State ρ σ :=
  {s with data := next, hasPendingUpserts := false}

/-- Release the pending data. -/
def flush (s : State ρ σ) : State ρ σ :=
  if s.buffering then
    let s := {s with buffering := false, bufferCount := 0}
    let s := clearTimeout (clearTimeout s s.bufferTimeout) s.flushPendingTimeout
    let carried := c.carry s.data.rest
    let next : Data ρ := ⟨InsertionMap.empty,carried.1⟩
    let s := {s with
      bufferTimeout := none
      flushPendingTimeout := none
      data := ⟨s.data.messageUpserts,carried.2⟩}
    let events := consolidateEvents c s.data
    if events.upserts.isNone && c.isEmpty events.rest then finishFlush s next
    else release s events (.flush next)
  else s

/-- Activate the buffer. -/
def buffer (s : State ρ σ) : State ρ σ :=
  if s.buffering then {s with bufferCount := s.bufferCount+1}
  else
    let s := clearTimeout s s.bufferTimeout
    {s with
      buffering := true
      bufferCount := 1
      bufferTimeout := some s.fresh
      timers := (s.fresh,.safety)::s.timers
      fresh := s.fresh+1}

/-- Buffer a message upsert, or pass it on. -/
def acceptUpsert (s : State ρ σ) (messages : List Message) (type : UpsertType) : State ρ σ :=
  if s.buffering then
    {s with
      data := appendMessages c s.data messages type
      hasPendingUpserts := true
      pendingUpsertType := some type}
  else
    let batch : UpsertBatch := ⟨messages.map fun m => (stringifyMessageKey m.key,m),type⟩
    release s ⟨some batch,c.nothing⟩ .single

/-- Emit a message upsert; one of another type than the pending ones first
releases these. -/
def emitUpsert (s : State ρ σ) (messages : List Message) (type : UpsertType) : State ρ σ :=
  let s := {s with emitted := s.emitted++messages.map fun m => stringifyMessageKey m.key}
  if s.hasPendingUpserts ∧ s.pendingUpsertType ≠ some type then
    match pendingBatch s.data.messageUpserts with
    | some batch =>
      if batch.type ≠ type then release s ⟨some batch,c.nothing⟩ (.typeChange messages type)
      else acceptUpsert c {s with hasPendingUpserts := false} messages type
    | none => acceptUpsert c {s with hasPendingUpserts := false} messages type
  else acceptUpsert c s messages type

/-- Emit another event. -/
def emit (s : State ρ σ) (event : O) : State ρ σ :=
  if s.buffering ∧ c.bufferable event then {s with data := appendEvent c s.data event}
  else release s ⟨none,c.single event⟩ .single

/-- The work of a buffered function settled. -/
def finishBuffered (s : State ρ σ) : State ρ σ :=
  let s := {s with bufferCount := s.bufferCount-1, working := s.working-1}
  if s.bufferCount = 0 ∧ s.flushPendingTimeout = none then
    {s with
      flushPendingTimeout := some s.fresh
      timers := (s.fresh,.quick)::s.timers
      fresh := s.fresh+1}
  else s

/-- What follows the listeners of a release. -/
def resume (s : State ρ σ) : Frame ρ → State ρ σ
  | .flush next => finishFlush s next
  | .typeChange messages type =>
    let data := {s.data with messageUpserts := InsertionMap.empty}
    acceptUpsert c {s with data := data, hasPendingUpserts := false} messages type
  | .single => s

/-- Execute one step. Timers fire and buffered functions settle in turns of
their own, outside of any release. -/
def step (s : State ρ σ) : Action O → Option (State ρ σ)
  | .emitUpsert messages type => some (emitUpsert c s messages type)
  | .emit event => some (emit c s event)
  | .buffer => some (buffer s)
  | .flush => some (flush c s)
  | .startBuffered => some {buffer s with working := s.working+1}
  | .finishBuffered =>
    if s.stack.isEmpty ∧ 0 < s.working then some (finishBuffered s) else none
  | .fire timer =>
    if s.stack.isEmpty ∧ (s.timers.any fun live => live.1 = timer) then
      some (flush c {s with timers := s.timers.filter fun live => live.1 ≠ timer})
    else none
  | .listenersReturn =>
    match s.stack with
    | frame::rest => some (resume c {s with stack := rest} frame)
    | [] => none
  | .listenersThrow =>
    match s.stack with
    | _::rest => some {s with stack := rest}
    | [] => none

/-- A new buffer. -/
def makeEventBuffer : State ρ σ where
  data := makeBufferData c
  buffering := false
  bufferCount := 0
  bufferTimeout := none
  flushPendingTimeout := none
  timers := []
  fresh := 0
  hasPendingUpserts := false
  pendingUpsertType := none
  stack := []
  working := 0
  handed := []
  emitted := []

end Baileyrs.EventBuffer
