import Mathlib.Data.Int.Notation
import Baileyrs.MessageBatch

/-!
# Channels of batched dispatch

The dispatcher with everything it puts on the event bus: the upsert, the push
name, the secondary channels of reactions, revocations, edits and member
labels, and whatever the dispatchers of other events emit. Values that are
only passed on stay abstract. A batch that groups ordinary messages is
compared with the same events dispatched one by one.
-/

namespace Baileyrs.MessageDispatch

open MessageBatch (MessageUpsertType MessageUpsertMetadata hasSameUpsertMetadata isJidBroadcast)

variable {ε σ ν : Type*}

/-- Reaction carried by a message. -/
structure ReactionMessage (ν : Type*) where
  /-- Key of the message reacted to. -/
  key : Option ν
  /-- The remaining fields. -/
  content : ν

/-- Protocol message carried by a message. -/
structure ProtocolMessage (ν : Type*) where
  /-- Number of its type. -/
  type : Option ℤ
  /-- Id inside its target key. -/
  keyId : Option String
  /-- Label of a member-label change. -/
  memberLabel : Option String
  /-- Replacement content of an edit. -/
  editedMessage : Option ν
  /-- Time of an edit in milliseconds. -/
  timestampMs : Option ν

/-- A canonical message. -/
structure CanonicalMessage (ν : Type*) where
  /-- Chat of the message. -/
  chatJid : String
  /-- Sender inside a group. -/
  senderJid : Option String
  /-- Sent by this account. -/
  isFromMe : Bool
  /-- Message id. -/
  id : String
  /-- Id given by the newsletter server. -/
  serverId : Option String
  /-- Seconds of the envelope. -/
  timestamp : ν
  /-- Push name of the envelope. -/
  pushName : Option String
  /-- Other address of the participant. -/
  participantAlt : Option String
  /-- Other address of the chat. -/
  remoteJidAlt : Option String
  /-- View-once envelope. -/
  isViewOnce : Bool
  /-- Delivered from the offline queue. -/
  isOffline : Bool
  /-- Placeholder request this message answers. -/
  unavailableRequestId : Option String
  /-- Edit attribute of the stanza. -/
  editAttribute : Option String
  /-- Decrypted content. -/
  messageProto : ν
  /-- Reaction inside the content. -/
  reactionMessage : Option (ReactionMessage ν)
  /-- Protocol message inside the content. -/
  protocolMessage : Option (ProtocolMessage ν)

/-- A message, or an event of any other kind. -/
inductive CanonicalEvent (ε ν : Type*) where
  | message (message : CanonicalMessage ν)
  | other (event : ε)

/-- Key of a public message. -/
structure WAMessageKey where
  /-- Chat of the message. -/
  remoteJid : String
  /-- Sent by this account. -/
  fromMe : Bool
  /-- Message id. -/
  id : String
  /-- Id given by the newsletter server. -/
  serverId : Option String
  /-- Sender inside a group. -/
  participant : Option String
  /-- Other address of the participant. -/
  participantAlt : Option String
  /-- Other address of the chat. -/
  remoteJidAlt : Option String
  /-- View-once envelope. -/
  isViewOnce : Bool
  /-- Edit attribute of the stanza. -/
  editAttribute : Option String
  deriving DecidableEq

/-- A public message: converted from an envelope, or made by the dispatcher
of another event. -/
inductive WAMessage (ν : Type*) where
  | received (key : WAMessageKey) (message messageTimestamp : ν) (pushName : Option String)
  | stub (content : ν)
  deriving DecidableEq

/-- Payload of a channel other than the upsert. -/
inductive Payload (ν : Type*) where
  | contactsUpdate (id notify : String)
  | messagesReaction (key : ν) (reaction : ν) (reactionKey : WAMessageKey)
  | memberTagUpdate (groupId label participant : String) (participantAlt : Option String)
      (messageTimestamp : ν)
  | messageRevoked (key : WAMessageKey) (revocation : WAMessageKey)
  | messageEdited (key : WAMessageKey) (editedMessage messageTimestamp : ν)
  | passedOn (payload : ν)
  deriving DecidableEq

/-- One call of the event bus. Every message of an upsert, and every other
call, carries the position of the event it stems from. -/
inductive Emission (ν : Type*) where
  | messagesUpsert (messages : List (ℕ × WAMessage ν)) (type : MessageUpsertType)
      (requestId : Option String)
  | emitted (position : ℕ) (channel : String) (payload : Payload ν)
  deriving DecidableEq

/-- A call made by the dispatcher of another event. -/
inductive BusCall (ν : Type*) where
  | upsert (messages : List ν) (type : MessageUpsertType)
  | emit (channel : String) (payload : Payload ν)

/-- What the dispatcher of another event does. -/
structure Dispatched (σ ν : Type*) where
  /-- Calls of the bus, oldest first. -/
  calls : List (BusCall ν)
  /-- State kept by the dispatchers. -/
  state : σ
  /-- Whether it ended in an exception. -/
  threw : Bool

/-- The socket as the dispatcher sees it. -/
structure SocketContext (ε σ ν : Type*) where
  /-- Chats whose messages are dropped. -/
  shouldIgnoreJid : String → Bool
  /-- Conversion of the content, `none` when it throws. -/
  fromObject : ν → Option ν
  /-- Conversion of the timestamp. -/
  longFromValue : ν → ν
  /-- Whole seconds of a time in milliseconds. -/
  editSeconds : ν → ν
  /-- Dispatchers of the other events. -/
  dispatchers : ε → σ → Dispatched σ ν

/-- The event bus, the dispatchers' state and the errors reported. -/
structure Bus (σ ν : Type*) where
  /-- Calls so far, oldest first. -/
  log : List (Emission ν)
  /-- State kept by the dispatchers. -/
  state : σ
  /-- Errors passed to the error reporter. -/
  reported : ℕ

/-- One more call of the bus. -/
def Bus.emit (bus : Bus σ ν) (emission : Emission ν) : Bus σ ν :=
  {bus with log := bus.log++[emission]}

/-- Report an error of one event. -/
def reportUnexpectedError (bus : Bus σ ν) : Bus σ ν := {bus with reported := bus.reported+1}

/-- Type number of a revocation. -/
def revoke : ℤ := 0

/-- Type number of an edit. -/
def messageEdit : ℤ := 14

/-- Type number of a member-label change. -/
def groupMemberLabelChange : ℤ := 30

/-- Public message of an envelope, `none` when the content does not convert. -/
def canonicalMessageToWAMessage (ctx : SocketContext ε σ ν) (m : CanonicalMessage ν) :
    Option (WAMessageKey × WAMessage ν) :=
  (ctx.fromObject m.messageProto).map fun message =>
    let key : WAMessageKey :=
      { remoteJid := m.chatJid
        fromMe := m.isFromMe
        id := m.id
        serverId := m.serverId
        participant := m.senderJid
        participantAlt := m.participantAlt.filter (· ≠ "")
        remoteJidAlt := m.remoteJidAlt.filter (· ≠ "")
        isViewOnce := m.isViewOnce
        editAttribute := m.editAttribute.filter (· ≠ "") }
    (key,.received key message (ctx.longFromValue m.timestamp) m.pushName)

/-- Metadata of the upsert a message belongs to. -/
def messageUpsertMetadata (message : CanonicalMessage ν) : MessageUpsertMetadata where
  type := if message.isOffline then .append else .notify
  requestId := message.unavailableRequestId

/-- Whether a message has secondary channels. -/
def hasMessageSideEffects (message : CanonicalMessage ν) : Bool :=
  message.reactionMessage.isSome || message.protocolMessage.isSome

/-- Surface the push name of an inbound envelope. -/
def emitInboundPushName (bus : Bus σ ν) (position : ℕ) (evt : CanonicalMessage ν) : Bus σ ν :=
  match evt.pushName with
  | none => bus
  | some notify =>
    let id := evt.senderJid.getD evt.chatJid
    if notify = "" || evt.isFromMe || isJidBroadcast id then bus
    else bus.emit (.emitted position "contacts.update" (.contactsUpdate id notify))

/-- Emit one canonical upsert payload. -/
def emitMessageUpsert (bus : Bus σ ν) (messages : List (ℕ × WAMessage ν))
    (metadata : MessageUpsertMetadata) : Bus σ ν :=
  bus.emit (.messagesUpsert messages metadata.type (metadata.requestId.filter (· ≠ "")))

/-- The reaction channel of a message. -/
def reactionCalls (evt : CanonicalMessage ν) (key : WAMessageKey) : List (String × Payload ν) :=
  match evt.reactionMessage with
  | some ⟨some target,content⟩ => [("messages.reaction",.messagesReaction target content key)]
  | _ => []

/-- The member-label channel of a message; a change without a sender is dropped. -/
def memberTagCalls (evt : CanonicalMessage ν) : List (String × Payload ν) :=
  match evt.protocolMessage with
  | some protocolMsg =>
    match protocolMsg.memberLabel.filter (· ≠ ""),evt.senderJid.filter (· ≠ "") with
    | some label,some senderJid =>
      if protocolMsg.type = some groupMemberLabelChange then
        [("group.member-tag.update",
          .memberTagUpdate evt.chatJid label senderJid evt.participantAlt evt.timestamp)]
      else []
    | _,_ => []
  | none => []

/-- The update channel of a revocation or an edit. -/
def messageUpdateCalls (ctx : SocketContext ε σ ν) (evt : CanonicalMessage ν)
    (key : WAMessageKey) : List (String × Payload ν) :=
  match evt.protocolMessage with
  | some protocolMsg =>
    match protocolMsg.keyId.filter (· ≠ "") with
    | some protocolKeyId =>
      let target : WAMessageKey := {key with id := protocolKeyId}
      if protocolMsg.type = some revoke then [("messages.update",.messageRevoked target key)]
      else if protocolMsg.type = some messageEdit then
        match protocolMsg.editedMessage with
        | some editedMessage =>
          let editedTs := (protocolMsg.timestampMs.map ctx.editSeconds).getD evt.timestamp
          [("messages.update",.messageEdited target editedMessage editedTs)]
        | none => []
      else []
    | none => []
  | none => []

/-- Secondary channels of a message, in the dispatcher's order. -/
def secondaryCalls (ctx : SocketContext ε σ ν) (evt : CanonicalMessage ν) (key : WAMessageKey) :
    List (String × Payload ν) :=
  reactionCalls evt key++memberTagCalls evt++messageUpdateCalls ctx evt key

/-- The dispatcher of messages. -/
def dispatchMessage (ctx : SocketContext ε σ ν) (bus : Bus σ ν) (position : ℕ)
    (evt : CanonicalMessage ν) : Bus σ ν :=
  if ctx.shouldIgnoreJid evt.chatJid then bus
  else
    let named := emitInboundPushName bus position evt
    match canonicalMessageToWAMessage ctx evt with
    | none => reportUnexpectedError named
    | some (key,waMsg) =>
      let upserted := emitMessageUpsert named [(position,waMsg)] (messageUpsertMetadata evt)
      (secondaryCalls ctx evt key).foldl
        (fun bus call => bus.emit (.emitted position call.1 call.2)) upserted

/-- A call of another dispatcher with the position of its event. -/
def BusCall.toEmission (position : ℕ) : BusCall ν → Emission ν
  | .upsert messages type => .messagesUpsert (messages.map fun m => (position,.stub m)) type none
  | .emit channel payload => .emitted position channel payload

/-- The dispatcher of an event that is no message. -/
def dispatchOther (ctx : SocketContext ε σ ν) (bus : Bus σ ν) (position : ℕ) (event : ε) :
    Bus σ ν :=
  let done := ctx.dispatchers event bus.state
  let called : Bus σ ν :=
    {bus with
      log := bus.log++done.calls.map (BusCall.toEmission position)
      state := done.state}
  if done.threw then reportUnexpectedError called else called

/-- Dispatch one event on its own. -/
def dispatchCanonicalEvent (ctx : SocketContext ε σ ν) (bus : Bus σ ν) (position : ℕ) :
    CanonicalEvent ε ν → Bus σ ν
  | .message evt => dispatchMessage ctx bus position evt
  | .other event => dispatchOther ctx bus position event

/-- Group waiting for its emission. -/
structure PendingMessageUpsert (ν : Type*) extends MessageUpsertMetadata where
  /-- Messages of the group. -/
  messages : List (ℕ × WAMessage ν)

/-- Emit the group that waits, if one does. -/
def flushPending (bus : Bus σ ν) : Option (PendingMessageUpsert ν) → Bus σ ν
  | some group => emitMessageUpsert bus group.messages group.toMessageUpsertMetadata
  | none => bus

/-- The message of an event that may share an upsert with its neighbours. -/
def ordinaryMessage : CanonicalEvent ε ν → Option (CanonicalMessage ν)
  | .message message => if hasMessageSideEffects message then none else some message
  | .other _ => none

/-- The bus and the pending group after an ordinary message of a batch. -/
def groupMessage (ctx : SocketContext ε σ ν) (bus : Bus σ ν) (position : ℕ)
    (pending : Option (PendingMessageUpsert ν)) (message : CanonicalMessage ν) :
    Bus σ ν × Option (PendingMessageUpsert ν) :=
  if ctx.shouldIgnoreJid message.chatJid then (bus,pending)
  else
    let named := emitInboundPushName bus position message
    let metadata := messageUpsertMetadata message
    match canonicalMessageToWAMessage ctx message with
    | none => (reportUnexpectedError named,pending)
    | some (_,waMsg) =>
      match pending with
      | some group =>
        if hasSameUpsertMetadata group.toMessageUpsertMetadata metadata then
          (named,some {group with messages := group.messages++[(position,waMsg)]})
        else (flushPending named pending,some ⟨metadata,[(position,waMsg)]⟩)
      | none => (named,some ⟨metadata,[(position,waMsg)]⟩)

/-- One iteration of the batch loop. -/
def loopBody (ctx : SocketContext ε σ ν) (bus : Bus σ ν) (position : ℕ)
    (pending : Option (PendingMessageUpsert ν)) :
    Option (CanonicalEvent ε ν) → Bus σ ν × Option (PendingMessageUpsert ν)
  | none => (bus,pending)
  | some canonical =>
    match ordinaryMessage canonical with
    | none => (dispatchCanonicalEvent ctx (flushPending bus pending) position canonical,none)
    | some message => groupMessage ctx bus position pending message

/-- The batch loop from one position on. -/
def dispatchLoop (ctx : SocketContext ε σ ν) (bus : Bus σ ν) (position : ℕ)
    (pending : Option (PendingMessageUpsert ν)) : List (Option (CanonicalEvent ε ν)) → Bus σ ν
  | [] => flushPending bus pending
  | entry::rest =>
    let next := loopBody ctx bus position pending entry
    dispatchLoop ctx next.1 (position+1) next.2 rest

/-- Dispatch a list of bridge events as one batch. -/
def dispatchCanonicalBatch {β : Type*} (ctx : SocketContext ε σ ν)
    (adapt : β → Option (CanonicalEvent ε ν)) (state : σ) (batch : List β) : Bus σ ν :=
  dispatchLoop ctx ⟨[],state,0⟩ 0 none (batch.map adapt)

/-- Dispatch the entries from one position on, one by one. -/
def dispatchEach (ctx : SocketContext ε σ ν) (bus : Bus σ ν) (position : ℕ) :
    List (Option (CanonicalEvent ε ν)) → Bus σ ν
  | [] => bus
  | none::rest => dispatchEach ctx bus (position+1) rest
  | some canonical::rest =>
    dispatchEach ctx (dispatchCanonicalEvent ctx bus position canonical) (position+1) rest

/-- Hand a list of bridge events to the single-event handler in turn. -/
def onEvents {β : Type*} (ctx : SocketContext ε σ ν) (adapt : β → Option (CanonicalEvent ε ν))
    (state : σ) (batch : List β) : Bus σ ν :=
  dispatchEach ctx ⟨[],state,0⟩ 0 (batch.map adapt)

/-- Channel of a call. -/
def Emission.channel : Emission ν → String
  | .messagesUpsert _ _ _ => "messages.upsert"
  | .emitted _ channel _ => channel

/-- A grouped upsert as single messages with its type and request id. -/
def Emission.split : Emission ν → List (Emission ν)
  | .messagesUpsert messages type requestId =>
    messages.map fun message => .messagesUpsert [message] type requestId
  | .emitted position channel payload => [.emitted position channel payload]

/-- A log with every grouped upsert split. -/
def splitUpserts (log : List (Emission ν)) : List (Emission ν) := log.flatMap Emission.split

/-- Calls on one channel, in order. -/
def onChannel (channel : String) (log : List (Emission ν)) : List (Emission ν) :=
  log.filter (·.channel == channel)

/-- Whether the event at a position is an ordinary message. -/
def ordinaryAt (entries : List (Option (CanonicalEvent ε ν))) (position : ℕ) : Bool :=
  ((entries[position]?.join).bind ordinaryMessage).isSome

/-- Whether a call is an upsert or stems from a side-effecting event. -/
def isOrdered (entries : List (Option (CanonicalEvent ε ν))) : Emission ν → Bool
  | .messagesUpsert _ _ _ => true
  | .emitted position _ _ => !ordinaryAt entries position

/-- Calls of side-effecting events together with all message upserts. -/
def orderedCalls (entries : List (Option (CanonicalEvent ε ν))) (log : List (Emission ν)) :
    List (Emission ν) :=
  log.filter (isOrdered entries)

section Views

variable (keep : Emission ν → Bool)

/-- The split log as one observer sees it. -/
def view (log : List (Emission ν)) : List (Emission ν) := (splitUpserts log).filter keep

@[simp] theorem view_nil : view keep [] = [] := rfl

@[simp] theorem view_append (first second : List (Emission ν)) :
    view keep (first++second) = view keep first++view keep second := by
  simp [view,splitUpserts]

/-- A group shows as its messages one by one. -/
theorem view_group (messages : List (ℕ × WAMessage ν)) (message : ℕ × WAMessage ν)
    (type : MessageUpsertType) (requestId : Option String) :
    view keep [.messagesUpsert (messages++[message]) type requestId] =
      view keep [.messagesUpsert messages type requestId]++ view keep [.messagesUpsert [message] type requestId] := by
  simp [view,splitUpserts,Emission.split]

/-- An observer that sees no upsert sees nothing of a group. -/
theorem view_upsert_hidden (hk : ∀ messages type requestId, keep (.messagesUpsert messages type requestId) = false)
    (messages : List (ℕ × WAMessage ν)) (type : MessageUpsertType) (requestId : Option String) :
    view keep [.messagesUpsert messages type requestId] = [] := by
  have hall : ∀ e ∈ messages.map fun message => Emission.messagesUpsert [message] type requestId,
      ¬keep e = true := by
    intro e he
    obtain ⟨message,_,rfl⟩ := List.mem_map.mp he
    simp [hk]
  simpa [view,splitUpserts,Emission.split] using hall

/-- An observer that misses the push names of the ordinary messages from one
position on, or misses every upsert. -/
def Tolerant (position : ℕ) (entries : List (Option (CanonicalEvent ε ν))) : Prop :=
  (∀ i evt id notify, entries[i]? = some (some (.message evt)) →
      hasMessageSideEffects evt = false →
      keep (.emitted (position+i) "contacts.update" (.contactsUpdate id notify)) = false) ∨
    ∀ messages type requestId, keep (.messagesUpsert messages type requestId) = false

variable {keep}

theorem Tolerant.tail {position : ℕ} {entry : Option (CanonicalEvent ε ν)}
    {rest : List (Option (CanonicalEvent ε ν))} (h : Tolerant keep position (entry::rest)) :
    Tolerant keep (position+1) rest := by
  rcases h with h | h
  · refine Or.inl fun i evt id notify hi hs => ?_
    have hshift : position+1+i = position+(i+1) := by omega
    rw [hshift]
    exact h (i+1) evt id notify (by simpa using hi) hs
  · exact Or.inr h

end Views

/-- Calls a push name adds. -/
def pushNameCalls (position : ℕ) (evt : CanonicalMessage ν) : List (Emission ν) :=
  match evt.pushName with
  | none => []
  | some notify =>
    let id := evt.senderJid.getD evt.chatJid
    if notify = "" || evt.isFromMe || isJidBroadcast id then []
    else [.emitted position "contacts.update" (.contactsUpdate id notify)]

theorem emitInboundPushName_eq (bus : Bus σ ν) (position : ℕ) (evt : CanonicalMessage ν) :
    emitInboundPushName bus position evt = {bus with log := bus.log++pushNameCalls position evt} := by
  unfold emitInboundPushName pushNameCalls
  split
  · simp
  · dsimp only
    split
    · simp
    · rfl

/-- Calls that a canonical upsert adds. -/
def upsertCalls (messages : List (ℕ × WAMessage ν)) (metadata : MessageUpsertMetadata) :
    List (Emission ν) :=
  [.messagesUpsert messages metadata.type (metadata.requestId.filter (· ≠ ""))]

theorem emitMessageUpsert_eq (bus : Bus σ ν) (messages : List (ℕ × WAMessage ν))
    (metadata : MessageUpsertMetadata) :
    emitMessageUpsert bus messages metadata =
      {bus with log := bus.log++upsertCalls messages metadata} := rfl

/-- Calls that a group waiting for its emission will add. -/
def pendingCalls : Option (PendingMessageUpsert ν) → List (Emission ν)
  | some group => upsertCalls group.messages group.toMessageUpsertMetadata
  | none => []

theorem flushPending_eq (bus : Bus σ ν) (pending : Option (PendingMessageUpsert ν)) :
    flushPending bus pending = {bus with log := bus.log++pendingCalls pending} := by
  cases pending with
  | none => simp [flushPending,pendingCalls]
  | some group => rfl

/-- An observer that tolerates a message sees its push name before or after
the group that waits. -/
theorem Tolerant.comm {keep : Emission ν → Bool} {position : ℕ} {evt : CanonicalMessage ν}
    {rest : List (Option (CanonicalEvent ε ν))} (h : Tolerant keep position (some (.message evt)::rest))
    (hs : hasMessageSideEffects evt = false) (pending : Option (PendingMessageUpsert ν)) :
    view keep (pushNameCalls position evt)++view keep (pendingCalls pending) =
      view keep (pendingCalls pending)++view keep (pushNameCalls position evt) := by
  rcases h with h | h
  · have hpush : view keep (pushNameCalls position evt) = [] := by
      unfold pushNameCalls
      split
      · rfl
      · rename_i notify _
        dsimp only
        split
        · rfl
        · have hdrop := h 0 evt (evt.senderJid.getD evt.chatJid) notify rfl hs
          simpa [view,splitUpserts,Emission.split] using hdrop
    simp [hpush]
  · have hpending : view keep (pendingCalls pending) = [] := by
      cases pending with
      | none => rfl
      | some group => exact view_upsert_hidden keep h _ _ _
    simp [hpending]

/-- Calls made in turn are appended in turn. -/
theorem foldl_emit (position : ℕ) (calls : List (String × Payload ν)) (bus : Bus σ ν) :
    calls.foldl (fun bus call => bus.emit (.emitted position call.1 call.2)) bus =
      {bus with log := bus.log++calls.map fun call => .emitted position call.1 call.2} := by
  induction calls generalizing bus with
  | nil => simp
  | cons call rest ih =>
    rw [List.foldl_cons,ih]
    simp [Bus.emit]

theorem hasSameUpsertMetadata_iff (left right : MessageUpsertMetadata) :
    hasSameUpsertMetadata left right = true ↔ left = right := by
  cases left
  cases right
  simp [hasSameUpsertMetadata]

/-- What a dispatcher adds depends on the dispatchers' state only. -/
theorem dispatchCanonicalEvent_adds (ctx : SocketContext ε σ ν) (state : σ) (position : ℕ)
    (canonical : CanonicalEvent ε ν) : ∃ added next errors, ∀ bus : Bus σ ν, bus.state = state →
      dispatchCanonicalEvent ctx bus position canonical = ⟨bus.log++added,next,bus.reported+errors⟩ := by
  cases canonical with
  | other event =>
    let done := ctx.dispatchers event state
    refine ⟨done.calls.map (BusCall.toEmission position),done.state,
      if done.threw then 1 else 0,fun bus hb => ?_⟩
    subst hb
    by_cases ht : done.threw = true
    · simp [dispatchCanonicalEvent,dispatchOther,reportUnexpectedError,done,ht]
    · simp [dispatchCanonicalEvent,dispatchOther,done,ht]
  | message evt =>
    by_cases hi : ctx.shouldIgnoreJid evt.chatJid = true
    · refine ⟨[],state,0,fun bus hb => ?_⟩
      subst hb
      simp [dispatchCanonicalEvent,dispatchMessage,hi]
    · cases hw : canonicalMessageToWAMessage ctx evt with
      | none =>
        refine ⟨pushNameCalls position evt,state,1,fun bus hb => ?_⟩
        subst hb
        simp [dispatchCanonicalEvent,dispatchMessage,hi,hw,reportUnexpectedError,
          emitInboundPushName_eq]
      | some converted =>
        obtain ⟨key,waMsg⟩ := converted
        refine ⟨pushNameCalls position evt++
          upsertCalls [(position,waMsg)] (messageUpsertMetadata evt)++
          (secondaryCalls ctx evt key).map (fun call => .emitted position call.1 call.2),
          state,0,fun bus hb => ?_⟩
        subst hb
        simp [dispatchCanonicalEvent,dispatchMessage,hi,hw,foldl_emit,emitMessageUpsert_eq,
          emitInboundPushName_eq]

/-- An ordinary message has no secondary channel. -/
theorem secondaryCalls_ordinary (ctx : SocketContext ε σ ν) {evt : CanonicalMessage ν}
    (hs : hasMessageSideEffects evt = false) (key : WAMessageKey) : secondaryCalls ctx evt key = [] := by
  obtain ⟨hreaction,hprotocol⟩ : evt.reactionMessage = none ∧ evt.protocolMessage = none := by
    simpa [hasMessageSideEffects] using hs
  simp [secondaryCalls,reactionCalls,memberTagCalls,messageUpdateCalls,hreaction,hprotocol]

/-- The batch and the dispatch one by one, as one observer sees them: what
the batch has emitted or holds back is what the other has emitted. -/
structure Agrees (keep : Emission ν → Bool) (bus : Bus σ ν)
    (pending : Option (PendingMessageUpsert ν)) (single : Bus σ ν) : Prop where
  /-- The same calls, once the pending group is out. -/
  seen : view keep bus.log++view keep (pendingCalls pending) = view keep single.log
  /-- The same state of the dispatchers. -/
  state : bus.state = single.state
  /-- The same errors reported. -/
  reported : bus.reported = single.reported

/-- Dispatching an event on its own keeps the agreement once the group is out. -/
theorem Agrees.dispatch {keep : Emission ν → Bool} {bus single : Bus σ ν}
    {pending : Option (PendingMessageUpsert ν)} (h : Agrees keep bus pending single)
    (ctx : SocketContext ε σ ν) (position : ℕ) (canonical : CanonicalEvent ε ν) :
    Agrees keep (dispatchCanonicalEvent ctx (flushPending bus pending) position canonical) none
      (dispatchCanonicalEvent ctx single position canonical) := by
  obtain ⟨added,next,errors,hadds⟩ :=
    dispatchCanonicalEvent_adds ctx single.state position canonical
  have hflush : (flushPending bus pending).state = single.state := by
    rw [flushPending_eq]
    exact h.state
  rw [hadds _ hflush,hadds single rfl,flushPending_eq]
  refine ⟨?_,rfl,?_⟩
  · simp [pendingCalls,← h.seen]
  · simp [h.reported]

/-- An ordinary message keeps the agreement for an observer that tolerates it. -/
theorem Agrees.groupMessage {keep : Emission ν → Bool} {bus single : Bus σ ν}
    {pending : Option (PendingMessageUpsert ν)} (h : Agrees keep bus pending single)
    (ctx : SocketContext ε σ ν) {position : ℕ} {message : CanonicalMessage ν}
    {rest : List (Option (CanonicalEvent ε ν))} (ht : Tolerant keep position (some (.message message)::rest))
    (hs : hasMessageSideEffects message = false) : Agrees keep (groupMessage ctx bus position pending message).1
      (groupMessage ctx bus position pending message).2
      (dispatchCanonicalEvent ctx single position (.message message)) := by
  by_cases hi : ctx.shouldIgnoreJid message.chatJid = true
  · simpa [MessageDispatch.groupMessage,dispatchCanonicalEvent,dispatchMessage,hi] using h
  have hcomm := ht.comm hs pending
  cases hw : canonicalMessageToWAMessage ctx message with
  | none =>
    simp only [MessageDispatch.groupMessage,dispatchCanonicalEvent,dispatchMessage,hi,hw,
      emitInboundPushName_eq,reportUnexpectedError]
    refine ⟨?_,h.state,?_⟩
    · simp [← h.seen,hcomm]
    · simp [h.reported]
  | some converted =>
    obtain ⟨key,waMsg⟩ := converted
    have hsingle : dispatchCanonicalEvent ctx single position (.message message) =
        {single with
          log := single.log++pushNameCalls position message++
            upsertCalls [(position,waMsg)] (messageUpsertMetadata message)} := by
      simp [dispatchCanonicalEvent,dispatchMessage,hi,hw,emitInboundPushName_eq,
        emitMessageUpsert_eq,secondaryCalls_ordinary ctx hs]
    rw [hsingle]
    cases pending with
    | none =>
      have hbody : MessageDispatch.groupMessage ctx bus position none message =
          ({bus with log := bus.log++pushNameCalls position message},
            some ⟨messageUpsertMetadata message,[(position,waMsg)]⟩) := by
        simp [MessageDispatch.groupMessage,hi,hw,emitInboundPushName_eq]
      rw [hbody]
      refine ⟨?_,h.state,h.reported⟩
      simp [← h.seen,pendingCalls]
    | some group =>
      by_cases hm : hasSameUpsertMetadata group.toMessageUpsertMetadata
          (messageUpsertMetadata message) = true
      · have hbody : MessageDispatch.groupMessage ctx bus position (some group) message =
            ({bus with log := bus.log++pushNameCalls position message},
              some {group with messages := group.messages++[(position,waMsg)]}) := by
          simp [MessageDispatch.groupMessage,hi,hw,hm,emitInboundPushName_eq]
        have hgroup : view keep (pendingCalls
              (some {group with messages := group.messages++[(position,waMsg)]})) =
            view keep (pendingCalls (some group))++
              view keep (upsertCalls [(position,waMsg)] (messageUpsertMetadata message)) := by
          rw [← (hasSameUpsertMetadata_iff _ _).mp hm]
          exact view_group keep group.messages (position,waMsg) _ _
        rw [hbody]
        refine ⟨?_,h.state,h.reported⟩
        simp only [view_append,hgroup,← h.seen]
        rw [List.append_assoc,← List.append_assoc (view keep (pushNameCalls position message)),
          hcomm]
        simp only [List.append_assoc]
      · have hbody : MessageDispatch.groupMessage ctx bus position (some group) message =
            ({bus with log := bus.log++pushNameCalls position message++pendingCalls (some group)},
              some ⟨messageUpsertMetadata message,[(position,waMsg)]⟩) := by
          simp [MessageDispatch.groupMessage,hi,hw,hm,emitInboundPushName_eq,flushPending_eq]
        rw [hbody]
        refine ⟨?_,h.state,h.reported⟩
        simp only [view_append,← h.seen]
        rw [List.append_assoc (view keep bus.log),hcomm]
        simp only [List.append_assoc]
        rfl

/-- An iteration of the batch loop and the single dispatch of its entry. -/
theorem Agrees.loopBody {keep : Emission ν → Bool} {bus single : Bus σ ν}
    {pending : Option (PendingMessageUpsert ν)} (h : Agrees keep bus pending single)
    (ctx : SocketContext ε σ ν) {position : ℕ} (canonical : CanonicalEvent ε ν)
    {rest : List (Option (CanonicalEvent ε ν))} (ht : Tolerant keep position (some canonical::rest)) :
    Agrees keep (loopBody ctx bus position pending (some canonical)).1
      (loopBody ctx bus position pending (some canonical)).2
      (dispatchCanonicalEvent ctx single position canonical) := by
  cases canonical with
  | other event => exact h.dispatch ctx position (.other event)
  | message message =>
    cases hs : hasMessageSideEffects message with
    | true =>
      simp only [MessageDispatch.loopBody,ordinaryMessage,hs,if_true]
      exact h.dispatch ctx position (.message message)
    | false =>
      simp only [MessageDispatch.loopBody,ordinaryMessage,hs]
      exact h.groupMessage ctx ht hs

/-- From any point of the batch loop, a tolerant observer sees what the
dispatch one by one emits. -/
theorem dispatchLoop_agrees {keep : Emission ν → Bool} (ctx : SocketContext ε σ ν)
    (entries : List (Option (CanonicalEvent ε ν))) {bus single : Bus σ ν} {position : ℕ}
    {pending : Option (PendingMessageUpsert ν)} (h : Agrees keep bus pending single)
    (ht : Tolerant keep position entries) : Agrees keep (dispatchLoop ctx bus position pending entries) none
      (dispatchEach ctx single position entries) := by
  induction entries generalizing bus single position pending with
  | nil =>
    refine ⟨?_,?_,?_⟩
    · simpa [dispatchLoop,dispatchEach,flushPending_eq,pendingCalls] using h.seen
    · simpa [dispatchLoop,dispatchEach,flushPending_eq] using h.state
    · simpa [dispatchLoop,dispatchEach,flushPending_eq] using h.reported
  | cons entry rest ih =>
    cases entry with
    | none => exact ih h ht.tail
    | some canonical => exact ih (h.loopBody ctx canonical ht) ht.tail

/-- One channel either misses the push names or misses the upserts. -/
theorem tolerant_channel (channel : String) (entries : List (Option (CanonicalEvent ε ν))) :
    Tolerant (fun e : Emission ν => e.channel == channel) 0 entries := by
  by_cases hc : channel = "messages.upsert"
  · refine Or.inl fun i evt id notify _ _ => ?_
    simp [hc,Emission.channel]
  · refine Or.inr fun messages type requestId => ?_
    simpa [Emission.channel] using Ne.symm hc

/-- The side-effecting events and the upserts leave out the push names of
ordinary messages. -/
theorem tolerant_ordered (entries : List (Option (CanonicalEvent ε ν))) :
    Tolerant (isOrdered (ν := ν) entries) 0 entries := by
  refine Or.inl fun i evt id notify hi hs => ?_
  simp [isOrdered,ordinaryAt,hi,ordinaryMessage,hs]

/-- A batch emits on every channel what the same events emit one by one, once
every group is split, keeps every call of a side-effecting event in its place
among all message upserts, and leaves the same state and the same errors. -/
theorem dispatchCanonicalBatch_refines {β : Type*} (ctx : SocketContext ε σ ν)
    (adapt : β → Option (CanonicalEvent ε ν)) (state : σ) (batch : List β) :
    (∀ channel,
      onChannel channel (splitUpserts (dispatchCanonicalBatch ctx adapt state batch).log) =
        onChannel channel (splitUpserts (onEvents ctx adapt state batch).log)) ∧
      orderedCalls (batch.map adapt)
          (splitUpserts (dispatchCanonicalBatch ctx adapt state batch).log) =
        orderedCalls (batch.map adapt) (splitUpserts (onEvents ctx adapt state batch).log) ∧
      (dispatchCanonicalBatch ctx adapt state batch).state =
        (onEvents ctx adapt state batch).state ∧
      (dispatchCanonicalBatch ctx adapt state batch).reported =
        (onEvents ctx adapt state batch).reported := by
  have hrun : ∀ keep : Emission ν → Bool, Tolerant keep 0 (batch.map adapt) →
      Agrees keep (dispatchCanonicalBatch ctx adapt state batch) none
        (onEvents ctx adapt state batch) := by
    intro keep ht
    exact dispatchLoop_agrees ctx (batch.map adapt) ⟨rfl,rfl,rfl⟩ ht
  have hordered := hrun _ (tolerant_ordered (batch.map adapt))
  refine ⟨fun channel => ?_,?_,hordered.state,hordered.reported⟩
  · have hseen := (hrun _ (tolerant_channel channel (batch.map adapt))).seen
    rwa [pendingCalls,view_nil,List.append_nil] at hseen
  · have hseen := hordered.seen
    rwa [pendingCalls,view_nil,List.append_nil] at hseen

end Baileyrs.MessageDispatch
