import Mathlib.Data.List.Basic

/-!
# Batched message dispatch

Adjacent ordinary messages with equal metadata share one upsert emission; a
pending group is flushed at a metadata change, before a side-effecting event
and at the end of the batch. Listeners of the upsert may throw at any call.
Only the flush at a metadata change is inside the loop's try block, and it
leaves the group pending when it throws.
-/

namespace Baileyrs.MessageBatch

/-- Fields of an inbound message that decide how it is dispatched. -/
structure CanonicalMessage where
  /-- Chat of the message. -/
  chatJid : String
  /-- Sent by this account. -/
  isFromMe : Bool
  /-- Sender inside a group. -/
  senderJid : Option String
  /-- Push name of the envelope. -/
  pushName : Option String
  /-- Delivered from the offline queue. -/
  isOffline : Bool
  /-- Placeholder request this message answers. -/
  unavailableRequestId : Option String
  /-- Whether the content is a reaction. -/
  reactionMessage : Bool
  /-- Whether the content is a protocol message. -/
  protocolMessage : Bool
  deriving DecidableEq

variable {ε : Type*}

/-- A message, or an event of any other kind. -/
inductive CanonicalEvent (ε : Type*) where
  | message (message : CanonicalMessage)
  | other (event : ε)

/-- The object converted from the message at one position of the batch. -/
structure WAMessage where
  /-- Position in the batch. -/
  position : ℕ
  /-- Message it was converted from. -/
  message : CanonicalMessage
  deriving DecidableEq

/-- Type of an upsert. -/
inductive MessageUpsertType where
  | append
  | notify
  deriving DecidableEq

/-- Metadata shared by the messages of one upsert. -/
structure MessageUpsertMetadata where
  /-- Offline messages append, live ones notify. -/
  type : MessageUpsertType
  /-- Placeholder request answered. -/
  requestId : Option String
  deriving DecidableEq

/-- Group waiting for its emission. -/
structure PendingMessageUpsert extends MessageUpsertMetadata where
  /-- Messages of the group. -/
  messages : List WAMessage
  deriving DecidableEq

/-- What reaches the event bus. -/
inductive Emission (ε : Type*) where
  | messagesUpsert (messages : List WAMessage) (type : MessageUpsertType)
      (requestId : Option String)
  | contactsUpdate (id notify : String)
  | secondary (message : WAMessage)
  | dispatched (position : ℕ) (event : ε)

/-- The socket as the dispatcher sees it. -/
structure SocketContext (ε : Type*) where
  /-- Chats whose messages are dropped. -/
  shouldIgnoreJid : String → Bool
  /-- Whether the dispatcher of another event emits an upsert itself. -/
  dispatcherUpserts : ε → Bool
  /-- Which calls of the upsert listeners throw. -/
  throws : ℕ → Bool

/-- Emissions so far and the number of upserts among them. -/
structure Bus (ε : Type*) where
  /-- Emissions, oldest first. -/
  log : List (Emission ε)
  /-- Upsert listener calls so far. -/
  upserts : ℕ
  /-- Errors passed to the error reporter. -/
  reported : ℕ

/-- Metadata of the upsert a message belongs to. -/
def messageUpsertMetadata (message : CanonicalMessage) : MessageUpsertMetadata where
  type := if message.isOffline then .append else .notify
  requestId := message.unavailableRequestId

/-- Whether a message has secondary channels. -/
def hasMessageSideEffects (message : CanonicalMessage) : Bool :=
  message.reactionMessage || message.protocolMessage

/-- Whether two groups may share one emission. -/
def hasSameUpsertMetadata (left right : MessageUpsertMetadata) : Bool :=
  decide (left.type = right.type) && decide (left.requestId = right.requestId)

/-- Broadcast pseudo-contacts, the status list among them. -/
def isJidBroadcast (jid : String) : Bool := jid.endsWith "@broadcast"

/-- Surface the push name of an inbound envelope. -/
def emitInboundPushName (bus : Bus ε) (message : CanonicalMessage) : Bus ε :=
  match message.pushName with
  | none => bus
  | some notify =>
    let id := message.senderJid.getD message.chatJid
    if notify = "" || message.isFromMe || isJidBroadcast id then bus
    else {bus with log := bus.log++[.contactsUpdate id notify]}

/-- Emit one upsert; the second component tells whether a listener threw. -/
def emitMessageUpsert (ctx : SocketContext ε) (bus : Bus ε) (messages : List WAMessage)
    (metadata : MessageUpsertMetadata) : Bus ε × Bool :=
  let requestId := metadata.requestId.filter (· ≠ "")
  ({bus with
    log := bus.log++[.messagesUpsert messages metadata.type requestId]
    upserts := bus.upserts+1},ctx.throws bus.upserts)

/-- Report an error of one event. -/
def reportUnexpectedError (bus : Bus ε) : Bus ε := {bus with reported := bus.reported+1}

/-- Dispatch one event on its own; every throw is contained. -/
def dispatchCanonicalEvent (ctx : SocketContext ε) (bus : Bus ε) (position : ℕ) :
    CanonicalEvent ε → Bus ε
  | .message message =>
    if ctx.shouldIgnoreJid message.chatJid then bus
    else
      let named := emitInboundPushName bus message
      let waMessage : WAMessage := ⟨position,message⟩
      let emitted := emitMessageUpsert ctx named [waMessage] (messageUpsertMetadata message)
      if emitted.2 then reportUnexpectedError emitted.1
      else {emitted.1 with log := emitted.1.log++[.secondary waMessage]}
  | .other event =>
    let called : Bus ε := {bus with log := bus.log++[.dispatched position event]}
    if ctx.dispatcherUpserts event then
      let emitted : Bus ε := {called with upserts := bus.upserts+1}
      if ctx.throws bus.upserts then reportUnexpectedError emitted else emitted
    else called

/-- The message of an event that may share an upsert with its neighbours. -/
def ordinaryMessage : CanonicalEvent ε → Option CanonicalMessage
  | .message message => if hasMessageSideEffects message then none else some message
  | .other _ => none

/-- One iteration of the batch loop: the bus and the pending group after it,
or no group when an exception escaped the loop. -/
def loopBody (ctx : SocketContext ε) (bus : Bus ε) (position : ℕ)
    (pending : Option PendingMessageUpsert) :
    Option (CanonicalEvent ε) → Bus ε × Option (Option PendingMessageUpsert)
  | none => (bus,some pending)
  | some canonical =>
    match ordinaryMessage canonical with
    | none =>
      match pending with
      | some group =>
        let emitted := emitMessageUpsert ctx bus group.messages group.toMessageUpsertMetadata
        if emitted.2 then (emitted.1,none)
        else (dispatchCanonicalEvent ctx emitted.1 position canonical,some none)
      | none => (dispatchCanonicalEvent ctx bus position canonical,some none)
    | some message =>
      if ctx.shouldIgnoreJid message.chatJid then (bus,some pending)
      else
        let named := emitInboundPushName bus message
        let metadata := messageUpsertMetadata message
        let waMessage : WAMessage := ⟨position,message⟩
        match pending with
        | some group =>
          if hasSameUpsertMetadata group.toMessageUpsertMetadata metadata then
            (named,some (some {group with messages := group.messages++[waMessage]}))
          else
            let emitted := emitMessageUpsert ctx named group.messages group.toMessageUpsertMetadata
            -- The assignment after a throwing emission is skipped: the group stays pending.
            if emitted.2 then (reportUnexpectedError emitted.1,some (some group))
            else (emitted.1,some (some ⟨metadata,[waMessage]⟩))
        | none => (named,some (some ⟨metadata,[waMessage]⟩))

/-- The batch loop from one position on; the second component tells whether
an exception escaped it. -/
def dispatchLoop (ctx : SocketContext ε) (bus : Bus ε) (position : ℕ)
    (pending : Option PendingMessageUpsert) : List (Option (CanonicalEvent ε)) → Bus ε × Bool
  | [] =>
    match pending with
    | some group => emitMessageUpsert ctx bus group.messages group.toMessageUpsertMetadata
    | none => (bus,false)
  | entry::rest =>
    match loopBody ctx bus position pending entry with
    | (next,some group) => dispatchLoop ctx next (position+1) group rest
    | (next,none) => (next,true)

/-- Dispatch a whole batch on a bus whose listeners were called `upserts`
times before. -/
def dispatchCanonicalBatch (ctx : SocketContext ε) (upserts : ℕ)
    (batch : List (Option (CanonicalEvent ε))) : Bus ε × Bool :=
  dispatchLoop ctx ⟨[],upserts,0⟩ 0 none batch

/-- Messages passed to the upsert, in order. -/
def passedMessages (log : List (Emission ε)) : List WAMessage :=
  log.flatMap fun
    | .messagesUpsert messages _ _ => messages
    | _ => []

/-- Events of other kinds that were dispatched, in order. -/
def dispatchedEvents (log : List (Emission ε)) : List (ℕ × ε) :=
  log.flatMap fun
    | .dispatched position event => [(position,event)]
    | _ => []

/-- Messages of a batch that are not dropped, in order. -/
def expectedMessages (ctx : SocketContext ε) (position : ℕ) :
    List (Option (CanonicalEvent ε)) → List WAMessage
  | [] => []
  | some (.message message)::rest =>
    if ctx.shouldIgnoreJid message.chatJid then expectedMessages ctx (position+1) rest
    else ⟨position,message⟩::expectedMessages ctx (position+1) rest
  | _::rest => expectedMessages ctx (position+1) rest

/-- Other events of a batch, in order. -/
def expectedEvents (position : ℕ) : List (Option (CanonicalEvent ε)) → List (ℕ × ε)
  | [] => []
  | some (.other event)::rest => (position,event)::expectedEvents (position+1) rest
  | _::rest => expectedEvents (position+1) rest

/-- Every message that is not dropped was passed to the upsert exactly once
and in batch order, and every other event was dispatched once. -/
def Delivered (ctx : SocketContext ε) (upserts : ℕ) (batch : List (Option (CanonicalEvent ε))) :
    Prop :=
  passedMessages (dispatchCanonicalBatch ctx upserts batch).1.log = expectedMessages ctx 0 batch ∧
    dispatchedEvents (dispatchCanonicalBatch ctx upserts batch).1.log = expectedEvents 0 batch

/-- Where the dispatch of a batch calls the upsert listeners. -/
inductive CallSite (ε : Type*) where
  | dispatcher
  | beforeEvent (remaining : List (Option (CanonicalEvent ε)))
  | metadataChange
  | final

/-- An entry that reaches no listener: undecodable, or a dropped message. -/
def dropped (ctx : SocketContext ε) : Option (CanonicalEvent ε) → Bool
  | none => true
  | some (.message message) => ctx.shouldIgnoreJid message.chatJid
  | some (.other _) => false

/-- Listener calls made inside the dispatcher of one event. -/
def dispatcherSites (ctx : SocketContext ε) : CanonicalEvent ε → List (CallSite ε)
  | .message message => if ctx.shouldIgnoreJid message.chatJid then [] else [.dispatcher]
  | .other event => if ctx.dispatcherUpserts event then [.dispatcher] else []

/-- Listener calls of a batch while none of them throws, given the metadata
of the pending group. -/
def upsertSites (ctx : SocketContext ε) (pending : Option MessageUpsertMetadata) :
    List (Option (CanonicalEvent ε)) → List (CallSite ε)
  | [] => if pending.isSome then [.final] else []
  | none::rest => upsertSites ctx pending rest
  | some canonical::rest =>
    match ordinaryMessage canonical with
    | none =>
      (if pending.isSome then [.beforeEvent (some canonical::rest)] else [])++
        (dispatcherSites ctx canonical++upsertSites ctx none rest)
    | some message =>
      let metadata := messageUpsertMetadata message
      if ctx.shouldIgnoreJid message.chatJid then upsertSites ctx pending rest
      else
        match pending with
        | some group =>
          if hasSameUpsertMetadata group metadata then upsertSites ctx pending rest
          else .metadataChange::upsertSites ctx (some metadata) rest
        | none => upsertSites ctx (some metadata) rest

/-- A throw at this call loses nothing and repeats nothing. -/
def harmless (ctx : SocketContext ε) : CallSite ε → Bool
  | .dispatcher => true
  | .beforeEvent remaining => remaining.all (dropped ctx)
  | .metadataChange => false
  | .final => true

/-- Listener calls numbered from `upserts` throw only where it is harmless. -/
def ThrowsHarmlessly (ctx : SocketContext ε) (upserts : ℕ) (sites : List (CallSite ε)) : Prop :=
  ∀ n site, sites[n]? = some site → ctx.throws (upserts+n) = true → harmless ctx site = true

theorem throwsHarmlessly_nil (ctx : SocketContext ε) (upserts : ℕ) : ThrowsHarmlessly ctx upserts [] := by
  intro n site hn
  simp at hn

theorem throwsHarmlessly_cons {ctx : SocketContext ε} {upserts : ℕ} {site : CallSite ε}
    {rest : List (CallSite ε)} : ThrowsHarmlessly ctx upserts (site::rest) ↔
      (ctx.throws upserts = true → harmless ctx site = true) ∧ ThrowsHarmlessly ctx (upserts+1) rest := by
  constructor
  · intro h
    refine ⟨fun ht => h 0 site rfl ht,fun n other hn ht => ?_⟩
    have hshift : upserts+(n+1) = upserts+1+n := by omega
    exact h (n+1) other hn (hshift ▸ ht)
  · rintro ⟨hfirst,hrest⟩ n other hn ht
    cases n with
    | zero =>
      cases hn
      exact hfirst ht
    | succ n =>
      have hshift : upserts+(n+1) = upserts+1+n := by omega
      exact hrest n other hn (hshift ▸ ht)

/-- What a bus and a pending group have delivered, or will deliver. -/
def owed (bus : Bus ε) (pending : Option PendingMessageUpsert) : List WAMessage :=
  passedMessages bus.log++(pending.map PendingMessageUpsert.messages).getD []

@[simp] theorem emitInboundPushName_upserts (bus : Bus ε) (message : CanonicalMessage) :
    (emitInboundPushName bus message).upserts = bus.upserts := by
  unfold emitInboundPushName
  split
  · rfl
  · dsimp only
    split <;> rfl

/-- Push names are neither messages nor other events. -/
theorem emitInboundPushName_log (bus : Bus ε) (message : CanonicalMessage) :
    passedMessages (emitInboundPushName bus message).log = passedMessages bus.log ∧
      dispatchedEvents (emitInboundPushName bus message).log = dispatchedEvents bus.log := by
  unfold emitInboundPushName
  split
  · exact ⟨rfl,rfl⟩
  · dsimp only
    split
    · exact ⟨rfl,rfl⟩
    · simp [passedMessages,dispatchedEvents]

theorem expectedMessages_cons (ctx : SocketContext ε) (position : ℕ)
    (entry : Option (CanonicalEvent ε)) (rest : List (Option (CanonicalEvent ε))) :
    expectedMessages ctx position (entry::rest) =
      expectedMessages ctx position [entry]++expectedMessages ctx (position+1) rest := by
  cases entry with
  | none => simp [expectedMessages]
  | some canonical =>
    cases canonical with
    | message message =>
      by_cases hi : ctx.shouldIgnoreJid message.chatJid = true
      · simp [expectedMessages,hi]
      · simp [expectedMessages,hi]
    | other event => simp [expectedMessages]

theorem expectedEvents_cons (position : ℕ) (entry : Option (CanonicalEvent ε))
    (rest : List (Option (CanonicalEvent ε))) : expectedEvents position (entry::rest) =
      expectedEvents position [entry]++expectedEvents (position+1) rest := by
  cases entry with
  | none => simp [expectedEvents]
  | some canonical => cases canonical <;> simp [expectedEvents]

/-- A batch expects nothing exactly when all its entries are dropped. -/
theorem expected_nil_iff (ctx : SocketContext ε) (position : ℕ) (batch : List (Option (CanonicalEvent ε))) :
    expectedMessages ctx position batch = [] ∧ expectedEvents position batch = [] ↔ batch.all (dropped ctx) = true := by
  induction batch generalizing position with
  | nil => simp [expectedMessages,expectedEvents]
  | cons entry rest ih =>
    have hrest := ih (position+1)
    rw [List.all_cons,Bool.and_eq_true,← hrest]
    cases entry with
    | none => simp [expectedMessages,expectedEvents,dropped]
    | some canonical =>
      cases canonical with
      | message message =>
        by_cases hi : ctx.shouldIgnoreJid message.chatJid = true
        · simp [expectedMessages,expectedEvents,dropped,hi]
        · simp [expectedMessages,expectedEvents,dropped,hi]
      | other event => simp [expectedMessages,expectedEvents,dropped]

/-- Dispatching one event delivers exactly that event, whatever throws. -/
theorem dispatchCanonicalEvent_delivers (ctx : SocketContext ε) (bus : Bus ε) (position : ℕ)
    (canonical : CanonicalEvent ε) : passedMessages (dispatchCanonicalEvent ctx bus position canonical).log =
        passedMessages bus.log++expectedMessages ctx position [some canonical] ∧
      dispatchedEvents (dispatchCanonicalEvent ctx bus position canonical).log =
        dispatchedEvents bus.log++expectedEvents position [some canonical] ∧
      (dispatchCanonicalEvent ctx bus position canonical).upserts =
        bus.upserts+(dispatcherSites ctx canonical).length := by
  cases canonical with
  | message message =>
    obtain ⟨hpassed,hevents⟩ := emitInboundPushName_log bus message
    by_cases hi : ctx.shouldIgnoreJid message.chatJid = true
    · simp [dispatchCanonicalEvent,expectedMessages,expectedEvents,dispatcherSites,hi]
    · by_cases ht : ctx.throws bus.upserts = true
      · simp [dispatchCanonicalEvent,emitMessageUpsert,reportUnexpectedError,expectedMessages,
          expectedEvents,dispatcherSites,hi,ht,passedMessages,dispatchedEvents]
        exact ⟨hpassed,hevents⟩
      · simp [dispatchCanonicalEvent,emitMessageUpsert,expectedMessages,
          expectedEvents,dispatcherSites,hi,ht,passedMessages,dispatchedEvents]
        exact ⟨hpassed,hevents⟩
  | other event =>
    by_cases hu : ctx.dispatcherUpserts event = true
    · by_cases ht : ctx.throws bus.upserts = true
      · simp [dispatchCanonicalEvent,reportUnexpectedError,expectedMessages,expectedEvents,
          dispatcherSites,hu,ht,passedMessages,dispatchedEvents]
      · simp [dispatchCanonicalEvent,expectedMessages,expectedEvents,
          dispatcherSites,hu,ht,passedMessages,dispatchedEvents]
    · simp [dispatchCanonicalEvent,expectedMessages,expectedEvents,
        dispatcherSites,hu,passedMessages,dispatchedEvents]

/-- Calls inside a dispatcher are contained. -/
theorem throwsHarmlessly_dispatcher (ctx : SocketContext ε) (upserts : ℕ)
    (canonical : CanonicalEvent ε) (rest : List (CallSite ε)) :
    ThrowsHarmlessly ctx upserts (dispatcherSites ctx canonical++rest) ↔
      ThrowsHarmlessly ctx (upserts+(dispatcherSites ctx canonical).length) rest := by
  have hsites : dispatcherSites ctx canonical = [] ∨
      dispatcherSites ctx canonical = [.dispatcher] := by
    cases canonical with
    | message message => simp only [dispatcherSites]; split <;> simp
    | other event => simp only [dispatcherSites]; split <;> simp
  rcases hsites with hs | hs
  · rw [hs]
    rfl
  · rw [hs,List.singleton_append,throwsHarmlessly_cons]
    simp [harmless]

/-- A dropped tail makes no listener calls. -/
theorem upsertSites_dropped (ctx : SocketContext ε) (batch : List (Option (CanonicalEvent ε)))
    (h : batch.all (dropped ctx) = true) : upsertSites ctx none batch = [] := by
  induction batch with
  | nil => rfl
  | cons entry rest ih =>
    rw [List.all_cons,Bool.and_eq_true] at h
    have hrest := ih h.2
    cases entry with
    | none => exact hrest
    | some canonical =>
      cases canonical with
      | message message =>
        have hi : ctx.shouldIgnoreJid message.chatJid = true := h.1
        cases hs : hasMessageSideEffects message <;>
          simp [upsertSites,ordinaryMessage,dispatcherSites,hs,hi,hrest]
      | other event => simp [dropped] at h

/-- The ways one iteration can end. -/
inductive Iteration (ctx : SocketContext ε) (bus : Bus ε) (position : ℕ)
    (pending : Option PendingMessageUpsert) (entry : Option (CanonicalEvent ε))
    (rest : List (Option (CanonicalEvent ε))) :
    Bus ε × Option (Option PendingMessageUpsert) → Prop where
  | kept (next : Bus ε) (group : Option PendingMessageUpsert)
      (howed : owed next group = owed bus pending++expectedMessages ctx position [entry])
      (hevents : dispatchedEvents next.log =
        dispatchedEvents bus.log++expectedEvents position [entry])
      (hsites : ThrowsHarmlessly ctx bus.upserts
          (upsertSites ctx (pending.map PendingMessageUpsert.toMessageUpsertMetadata)
            (entry::rest)) ↔
        ThrowsHarmlessly ctx next.upserts
          (upsertSites ctx (group.map PendingMessageUpsert.toMessageUpsertMetadata) rest)) :
      Iteration ctx bus position pending entry rest (next,some group)
  | repeated (next : Bus ε) (group : PendingMessageUpsert) (message : CanonicalMessage)
      (hlost : expectedMessages ctx position [entry] = [⟨position,message⟩])
      (howed : ∀ old ∈ owed next (some group), old ∈ owed bus pending)
      (hharm : ¬ThrowsHarmlessly ctx bus.upserts
        (upsertSites ctx (pending.map PendingMessageUpsert.toMessageUpsertMetadata)
          (entry::rest))) :
      Iteration ctx bus position pending entry rest (next,some (some group))
  | escaped (next : Bus ε) (hpassed : passedMessages next.log = owed bus pending)
      (hevents : dispatchedEvents next.log = dispatchedEvents bus.log)
      (hsites : ThrowsHarmlessly ctx bus.upserts
          (upsertSites ctx (pending.map PendingMessageUpsert.toMessageUpsertMetadata)
            (entry::rest)) ↔ (entry::rest).all (dropped ctx) = true) :
      Iteration ctx bus position pending entry rest (next,none)

/-- An upsert passes on the group it was given. -/
theorem emitMessageUpsert_log (ctx : SocketContext ε) (bus : Bus ε) (messages : List WAMessage)
    (metadata : MessageUpsertMetadata) : passedMessages (emitMessageUpsert ctx bus messages metadata).1.log =
        passedMessages bus.log++messages ∧
      dispatchedEvents (emitMessageUpsert ctx bus messages metadata).1.log = dispatchedEvents bus.log := by
  simp [emitMessageUpsert,passedMessages,dispatchedEvents]

/-- An iteration that dispatches an event on its own. -/
theorem loopBody_alone (ctx : SocketContext ε) (bus : Bus ε) (position : ℕ)
    (pending : Option PendingMessageUpsert) (canonical : CanonicalEvent ε)
    (rest : List (Option (CanonicalEvent ε))) (ho : ordinaryMessage canonical = none) :
    Iteration ctx bus position pending (some canonical) rest (loopBody ctx bus position pending (some canonical)) := by
  cases pending with
  | none =>
    obtain ⟨hpassed,hevents,hupserts⟩ :=
      dispatchCanonicalEvent_delivers ctx bus position canonical
    simp only [loopBody,ho]
    refine .kept _ _ ?_ hevents ?_
    · simp [owed,hpassed]
    · rw [hupserts,← throwsHarmlessly_dispatcher]
      simp [upsertSites,ho]
  | some group =>
    let emitted := emitMessageUpsert ctx bus group.messages group.toMessageUpsertMetadata
    obtain ⟨hgroup,hsame⟩ :=
      emitMessageUpsert_log ctx bus group.messages group.toMessageUpsertMetadata
    have hsites : upsertSites ctx (some group.toMessageUpsertMetadata) (some canonical::rest) =
        .beforeEvent (some canonical::rest)::
          (dispatcherSites ctx canonical++upsertSites ctx none rest) := by
      simp [upsertSites,ho]
    by_cases ht : ctx.throws bus.upserts = true
    · have hbody : loopBody ctx bus position (some group) (some canonical) = (emitted.1,none) := by
        simp [loopBody,ho,emitted,emitMessageUpsert,ht]
      rw [hbody]
      refine .escaped _ ?_ hsame ?_
      · simp [owed,emitted,hgroup]
      · rw [Option.map_some,hsites,throwsHarmlessly_cons]
        constructor
        · intro h
          exact h.1 ht
        · intro h
          refine ⟨fun _ => h,?_⟩
          rw [throwsHarmlessly_dispatcher,
            upsertSites_dropped ctx rest (by rw [List.all_cons,Bool.and_eq_true] at h; exact h.2)]
          exact throwsHarmlessly_nil ctx _
    · have hbody : loopBody ctx bus position (some group) (some canonical) =
          (dispatchCanonicalEvent ctx emitted.1 position canonical,some none) := by
        simp [loopBody,ho,emitted,emitMessageUpsert,ht]
      obtain ⟨hpassed,hevents,hupserts⟩ :=
        dispatchCanonicalEvent_delivers ctx emitted.1 position canonical
      rw [hbody]
      refine .kept _ _ ?_ (hevents.trans (by rw [hsame])) ?_
      · simp [owed,hpassed,emitted,hgroup]
      · rw [Option.map_some,hsites,throwsHarmlessly_cons,throwsHarmlessly_dispatcher,hupserts]
        simp [ht,emitted,emitMessageUpsert]

/-- An iteration on an ordinary message. -/
theorem loopBody_ordinary (ctx : SocketContext ε) (bus : Bus ε) (position : ℕ)
    (pending : Option PendingMessageUpsert) (message : CanonicalMessage) (rest : List (Option (CanonicalEvent ε)))
    (ho : ordinaryMessage (.message message : CanonicalEvent ε) = some message) :
    Iteration ctx bus position pending (some (.message message)) rest
      (loopBody ctx bus position pending (some (.message message))) := by
  obtain ⟨hnamed,hnamedEvents⟩ := emitInboundPushName_log bus message
  have hevents : expectedEvents position [some (.message message : CanonicalEvent ε)] = [] := by
    simp [expectedEvents]
  by_cases hi : ctx.shouldIgnoreJid message.chatJid = true
  · have hbody : loopBody ctx bus position pending (some (.message message)) =
        (bus,some pending) := by
      simp [loopBody,ho,hi]
    rw [hbody]
    refine .kept _ _ ?_ ?_ ?_
    · simp [expectedMessages,hi]
    · simp [hevents]
    · simp [upsertSites,ho,hi]
  · have hexpected : expectedMessages ctx position [some (.message message)] =
        [⟨position,message⟩] := by
      simp [expectedMessages,hi]
    cases pending with
    | none =>
      have hbody : loopBody ctx bus position none (some (.message message)) =
          (emitInboundPushName bus message,
            some (some ⟨messageUpsertMetadata message,[⟨position,message⟩]⟩)) := by
        simp [loopBody,ho,hi]
      rw [hbody]
      refine .kept _ _ ?_ ?_ ?_
      · simp [owed,hnamed,hexpected]
      · simp [hnamedEvents,hevents]
      · simp [upsertSites,ho,hi]
    | some group =>
      by_cases hm : hasSameUpsertMetadata group.toMessageUpsertMetadata
          (messageUpsertMetadata message) = true
      · have hbody : loopBody ctx bus position (some group) (some (.message message)) =
            (emitInboundPushName bus message,
              some (some {group with messages := group.messages++[⟨position,message⟩]})) := by
          simp [loopBody,ho,hi,hm]
        rw [hbody]
        refine .kept _ _ ?_ ?_ ?_
        · simp [owed,hnamed,hexpected]
        · simp [hnamedEvents,hevents]
        · simp [upsertSites,ho,hi,hm]
      · have hsites : upsertSites ctx (some group.toMessageUpsertMetadata)
            (some (.message message)::rest) =
            .metadataChange::upsertSites ctx (some (messageUpsertMetadata message)) rest := by
          simp [upsertSites,ho,hi,hm]
        let named := emitInboundPushName bus message
        let emitted := emitMessageUpsert ctx named group.messages group.toMessageUpsertMetadata
        obtain ⟨hgroup,hsame⟩ :=
          emitMessageUpsert_log ctx named group.messages group.toMessageUpsertMetadata
        by_cases ht : ctx.throws bus.upserts = true
        · have hbody : loopBody ctx bus position (some group) (some (.message message)) =
              (reportUnexpectedError emitted.1,some (some group)) := by
            simp [loopBody,ho,hi,hm,emitted,named,emitMessageUpsert,ht]
          rw [hbody]
          refine .repeated _ _ message hexpected ?_ ?_
          · intro old hold
            have hpassed : passedMessages (reportUnexpectedError emitted.1).log =
                passedMessages bus.log++group.messages := by
              rw [← hnamed]
              exact hgroup
            simp only [owed,hpassed,Option.map_some,Option.getD_some,List.mem_append] at hold ⊢
            rcases hold with h | h
            · exact h
            · exact Or.inr h
          · rw [Option.map_some,hsites,throwsHarmlessly_cons]
            rintro ⟨h,_⟩
            cases h ht
        · have hbody : loopBody ctx bus position (some group) (some (.message message)) =
              (emitted.1,some (some ⟨messageUpsertMetadata message,[⟨position,message⟩]⟩)) := by
            simp [loopBody,ho,hi,hm,emitted,named,emitMessageUpsert,ht]
          rw [hbody]
          refine .kept _ _ ?_ ?_ ?_
          · simp [owed,emitted,hgroup,named,hnamed,hexpected]
          · rw [hevents,List.append_nil]
            exact hsame.trans hnamedEvents
          · rw [Option.map_some,hsites,throwsHarmlessly_cons]
            simp [ht,emitted,named,emitMessageUpsert]

/-- Every iteration keeps what it owes, repeats a group, or escapes. -/
theorem loopBody_iteration (ctx : SocketContext ε) (bus : Bus ε) (position : ℕ)
    (pending : Option PendingMessageUpsert) (entry : Option (CanonicalEvent ε))
    (rest : List (Option (CanonicalEvent ε))) :
    Iteration ctx bus position pending entry rest (loopBody ctx bus position pending entry) := by
  cases entry with
  | none =>
    refine .kept _ _ ?_ ?_ Iff.rfl
    · simp [expectedMessages]
    · simp [expectedEvents]
  | some canonical =>
    cases ho : ordinaryMessage canonical with
    | none => exact loopBody_alone ctx bus position pending canonical rest ho
    | some message =>
      cases canonical with
      | message inner =>
        have hinner : inner = message := by
          cases hs : hasMessageSideEffects inner with
          | true => simp [ordinaryMessage,hs] at ho
          | false => simpa [ordinaryMessage,hs] using ho
        subst hinner
        exact loopBody_ordinary ctx bus position pending inner rest ho
      | other event => cases ho

/-- What an entry expects is the message at its position. -/
theorem expectedMessages_position (ctx : SocketContext ε) (position : ℕ) (entry : Option (CanonicalEvent ε)) :
    ∀ message ∈ expectedMessages ctx position [entry], message.position = position := by
  intro message hm
  cases entry with
  | none => simp [expectedMessages] at hm
  | some canonical =>
    cases canonical with
    | message inner =>
      by_cases hi : ctx.shouldIgnoreJid inner.chatJid = true
      · simp [expectedMessages,hi] at hm
      · simp only [expectedMessages,if_neg hi,List.mem_singleton] at hm
        rw [hm]
    | other event => simp [expectedMessages] at hm

/-- The loop passes on only what it owed and messages from here on. -/
theorem dispatchLoop_sources (ctx : SocketContext ε) (batch : List (Option (CanonicalEvent ε)))
    (bus : Bus ε) (position : ℕ) (pending : Option PendingMessageUpsert) :
    ∀ message ∈ passedMessages (dispatchLoop ctx bus position pending batch).1.log,
      message ∈ owed bus pending ∨ position ≤ message.position := by
  induction batch generalizing bus position pending with
  | nil =>
    intro message hm
    cases pending with
    | none => exact Or.inl (by simpa [dispatchLoop,owed] using hm)
    | some group =>
      refine Or.inl ?_
      simpa [dispatchLoop,emitMessageUpsert,passedMessages,owed] using hm
  | cons entry rest ih =>
    intro message hm
    have hbody := loopBody_iteration ctx bus position pending entry rest
    unfold dispatchLoop at hm
    generalize loopBody ctx bus position pending entry = ended at hbody hm
    cases hbody with
    | kept next group howed =>
      rcases ih next (position+1) group message hm with h | h
      · rw [howed,List.mem_append] at h
        rcases h with h | h
        · exact Or.inl h
        · have hlast := expectedMessages_position ctx position entry message h
          exact Or.inr (by omega)
      · exact Or.inr (by omega)
    | repeated next group inner _ howed =>
      rcases ih next (position+1) (some group) message hm with h | h
      · exact Or.inl (howed message h)
      · exact Or.inr (by omega)
    | escaped next hpassed =>
      refine Or.inl ?_
      rw [← hpassed]
      exact hm

/-- From any point of the loop, everything owed and expected is delivered
exactly when the listeners throw harmlessly. -/
theorem dispatchLoop_delivers_iff (ctx : SocketContext ε)
    (batch : List (Option (CanonicalEvent ε))) (bus : Bus ε) (position : ℕ) (pending : Option PendingMessageUpsert)
    (hbound : ∀ message ∈ owed bus pending, message.position < position) :
    (passedMessages (dispatchLoop ctx bus position pending batch).1.log =
        owed bus pending++expectedMessages ctx position batch ∧
      dispatchedEvents (dispatchLoop ctx bus position pending batch).1.log =
        dispatchedEvents bus.log++expectedEvents position batch) ↔ ThrowsHarmlessly ctx bus.upserts
        (upsertSites ctx (pending.map PendingMessageUpsert.toMessageUpsertMetadata) batch) := by
  induction batch generalizing bus position pending with
  | nil =>
    cases pending with
    | none => simp [dispatchLoop,owed,expectedMessages,expectedEvents,upsertSites,
        throwsHarmlessly_nil]
    | some group =>
      have hfinal : ThrowsHarmlessly ctx bus.upserts [.final] := by
        rw [throwsHarmlessly_cons]
        exact ⟨fun _ => rfl,throwsHarmlessly_nil ctx _⟩
      simp [dispatchLoop,emitMessageUpsert,passedMessages,dispatchedEvents,owed,expectedMessages,
        expectedEvents,upsertSites,hfinal]
  | cons entry rest ih =>
    have hbody := loopBody_iteration ctx bus position pending entry rest
    rw [expectedMessages_cons,expectedEvents_cons]
    unfold dispatchLoop
    generalize loopBody ctx bus position pending entry = ended at hbody
    cases hbody with
    | kept next group howed hevents hsites =>
      have hnext : ∀ message ∈ owed next group, message.position < position+1 := by
        intro message hm
        rw [howed,List.mem_append] at hm
        rcases hm with hm | hm
        · have hlt := hbound message hm
          omega
        · have hlast := expectedMessages_position ctx position entry message hm
          omega
      rw [hsites,← ih next (position+1) group hnext,howed,hevents,List.append_assoc,
        List.append_assoc]
    | repeated next group message hlost howed hharm =>
      refine iff_of_false ?_ hharm
      rintro ⟨hpassed,_⟩
      have hmem : (⟨position,message⟩ : WAMessage) ∈
          passedMessages (dispatchLoop ctx next (position+1) (some group) rest).1.log := by
        rw [hpassed,hlost]
        simp
      rcases dispatchLoop_sources ctx rest next (position+1) (some group) _ hmem with h | h
      · have hlt := hbound _ (howed _ h)
        exact absurd hlt (Nat.lt_irrefl position)
      · exact absurd h (Nat.not_succ_le_self position)
    | escaped next hpassed hevents hsites =>
      rw [hsites,← expected_nil_iff ctx position,expectedMessages_cons ctx position entry rest,
        expectedEvents_cons position entry rest]
      simp [hpassed,hevents]

/-- The messages of a batch are delivered exactly once and in order, and its
other events dispatched once, exactly when no upsert listener throws at a
metadata change, and one called before a side-effecting event throws only if
that event and everything after it is dropped. -/
theorem dispatchCanonicalBatch_delivers_iff (ctx : SocketContext ε) (upserts : ℕ)
    (batch : List (Option (CanonicalEvent ε))) :
    Delivered ctx upserts batch ↔ ThrowsHarmlessly ctx upserts (upsertSites ctx none batch) := by
  have hloop := dispatchLoop_delivers_iff ctx batch ⟨[],upserts,0⟩ 0 none (by simp [owed,passedMessages])
  simpa [Delivered,dispatchCanonicalBatch,owed,passedMessages,dispatchedEvents] using hloop

/-- A live message of one chat, answering no request. -/
def liveMessage (isOffline : Bool) : CanonicalMessage where
  chatJid := "1@s.whatsapp.net"
  isFromMe := false
  senderJid := none
  pushName := none
  isOffline := isOffline
  unavailableRequestId := none
  reactionMessage := false
  protocolMessage := false

/-- A socket that ignores no chat and whose first upsert listener throws. -/
def throwsOnce : SocketContext Unit where
  shouldIgnoreJid _ := false
  dispatcherUpserts _ := false
  throws call := call == 0

/-- An offline and a live message: the throw at the metadata change between
them emits the first one twice and never the second. -/
theorem metadata_throw_not_delivered :
    ¬∀ (ctx : SocketContext Unit) (upserts : ℕ) (batch : List (Option (CanonicalEvent Unit))),
      Delivered ctx upserts batch := by
  intro h
  have hpassed := (h throwsOnce 0
    [some (.message (liveMessage true)),some (.message (liveMessage false))]).1
  exact absurd hpassed (by decide)

end Baileyrs.MessageBatch
