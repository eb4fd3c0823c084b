import Baileyrs.EventBufferChannels

/-!
# Every buffered message is released once

Every message passed to `emit` is either in an event map handed to the
listeners, or pending, or waits for a type change to finish. This account is
kept by every step whose listeners do not reach into the release they run in:
the data of a release in progress is neither extended nor released again, and
no listener throws out of a release that still holds messages.
-/

namespace Baileyrs.EventBuffer

open LabelledRuns

variable {O ρ σ : Type*} {c : Channels O ρ σ} {s s' : State ρ σ}

/-- Property names of the messages of an event map. -/
def EventMap.keys (events : EventMap σ) : List String :=
  match events.upserts with
  | some batch => batch.messages.map Prod.fst
  | none => []

/-- Messages handed to the listeners so far. -/
def releasedKeys (s : State ρ σ) : List String := s.handed.flatMap EventMap.keys

/-- A flush or a type change, as opposed to an event passed on. -/
def Frame.isRelease : Frame ρ → Bool
  | .flush _ => true
  | .typeChange _ _ => true
  | .single => false

/-- Listeners of a flush or of a type change are running. -/
def releasing (s : State ρ σ) : Bool := s.stack.any Frame.isRelease

/-- Property names of messages. -/
def messageKeys (messages : List Message) : List String :=
  messages.map fun m => stringifyMessageKey m.key

/-- Messages accepted once the listeners of a frame returned. -/
def Frame.waitingKeys : Frame ρ → List String
  | .typeChange messages _ => messageKeys messages
  | _ => []

/-- Messages that wait for a type change to finish. -/
def waitingKeys (s : State ρ σ) : List String := s.stack.flatMap Frame.waitingKeys

/-- Pending messages that were not handed over yet. -/
def pendingKeys (s : State ρ σ) : List String :=
  if releasing s then [] else s.data.messageUpserts.keys

/-- A flush goes on with data without messages, and a type change is the
outermost release. -/
def FramesOk : List (Frame ρ) → Prop
  | [] => True
  | .flush next::below => next.messageUpserts.keys = [] ∧ FramesOk below
  | .typeChange _ _::below => below.any Frame.isRelease = false ∧ FramesOk below
  | .single::below => FramesOk below

/-- Every emitted message is accounted for once. -/
structure Accounted (s : State ρ σ) : Prop where
  /-- It was handed over, is pending, or waits for a type change. -/
  account : (releasedKeys s++pendingKeys s++waitingKeys s).Perm s.emitted
  /-- Pending messages were emitted. -/
  known : ∀ key ∈ s.data.messageUpserts.keys, key ∈ s.emitted
  /-- The releases in progress. -/
  frames : FramesOk s.stack
  /-- Nothing is pending in an inactive buffer. -/
  inactive : s.buffering = false → releasing s = false → s.data.messageUpserts.keys = []

/-- The condition under which a step keeps the account: while a release is in
progress, no message upsert is buffered and none changes the pending type, no
flush releases the same messages again, and no listener throws while the
release still holds messages. -/
def Safe (s : State ρ σ) : Action O → Prop
  | .emitUpsert _ type => releasing s = false ∨ s.buffering = false ∧
      (s.hasPendingUpserts = false ∨ s.pendingUpsertType = some type ∨
        s.data.messageUpserts.keys = [])
  | .flush => s.buffering = false ∨ releasing s = false ∨ s.data.messageUpserts.keys = []
  | .listenersThrow => ∀ frame below, s.stack = frame::below → match frame with
      | .single => True
      | .flush _ => s.data.messageUpserts.keys = []
      | .typeChange _ _ => False
  | _ => True

/-- The step is not an event that takes pending messages away. -/
def Keeps (c : Channels O ρ σ) : Action O → Prop
  | .emit event => c.removes event = false
  | _ => True

/-- Messages a step passes to `emit`. -/
def Action.emittedKeys : Action O → List String
  | .emitUpsert messages _ => messageKeys messages
  | _ => []

theorem messageKeys_cons (message : Message) (messages : List Message) :
    messageKeys (message::messages) =
      stringifyMessageKey message.key::messageKeys messages := rfl

/-- Buffering new messages appends them to the pending ones. -/
theorem keys_appendMessages {data : Data ρ} {messages : List Message} (type : UpsertType)
    (hnew : ∀ key ∈ messageKeys messages, key ∉ data.messageUpserts.keys)
    (hdistinct : (messageKeys messages).Nodup) : (appendMessages c data messages type).messageUpserts.keys =
      data.messageUpserts.keys++messageKeys messages := by
  induction messages generalizing data with
  | nil => exact (List.append_nil _).symm
  | cons message messages ih =>
    rw [messageKeys_cons,List.nodup_cons] at hdistinct
    have habsent : data.messageUpserts.get (stringifyMessageKey message.key) = none :=
      InsertionMap.get_eq_none_iff.mpr (hnew _ List.mem_cons_self)
    have hfirst : (appendMessage c type data message).messageUpserts.keys =
        data.messageUpserts.keys++[stringifyMessageKey message.key] :=
      InsertionMap.keys_set_of_absent _ habsent
    have hrest := @ih (appendMessage c type data message) ?_ hdistinct.2
    · unfold appendMessages at hrest ⊢
      rw [List.foldl_cons,hrest,hfirst,messageKeys_cons,List.append_assoc]
      rfl
    · intro key hkey
      rw [hfirst,List.mem_append,List.mem_singleton,not_or]
      refine ⟨hnew key (List.mem_cons_of_mem _ hkey),?_⟩
      intro heq
      exact hdistinct.1 (heq ▸ hkey)

/-- A batch of the pending messages names exactly these. -/
theorem keys_pendingBatch (upserts : MessageUpserts) (rest : σ) :
    EventMap.keys ⟨pendingBatch upserts,rest⟩ = upserts.keys := by
  unfold EventMap.keys pendingBatch InsertionMap.keys
  cases upserts.entries with
  | nil => rfl
  | cons pair entries => simp [List.map_map,Function.comp_def]

theorem pendingBatch_eq_none_iff {upserts : MessageUpserts} : pendingBatch upserts = none ↔ upserts.keys = [] := by
  unfold pendingBatch InsertionMap.keys
  cases upserts.entries with
  | nil => simp
  | cons pair entries => simp

theorem releasedKeys_release (events : EventMap σ) (frame : Frame ρ) :
    releasedKeys (release s events frame) = releasedKeys s++events.keys := by
  unfold releasedKeys release
  rw [List.flatMap_append]
  simp

theorem releasing_release (events : EventMap σ) (frame : Frame ρ) :
    releasing (release s events frame) = (frame.isRelease || releasing s) := rfl

theorem waitingKeys_release (events : EventMap σ) (frame : Frame ρ) :
    waitingKeys (release s events frame) = frame.waitingKeys++waitingKeys s := rfl

/-- Steps that touch neither messages nor releases keep the account. -/
theorem Accounted.congr (h : Accounted s) (hdata : s'.data = s.data) (hstack : s'.stack = s.stack)
    (hhanded : s'.handed = s.handed) (hemitted : s'.emitted = s.emitted)
    (hbuffering : s'.buffering = false → s.buffering = false) : Accounted s' := by
  have hreleasing : releasing s' = releasing s := by rw [releasing,hstack,releasing]
  constructor
  · have hreleased : releasedKeys s' = releasedKeys s := by rw [releasedKeys,hhanded,releasedKeys]
    have hwaiting : waitingKeys s' = waitingKeys s := by rw [waitingKeys,hstack,waitingKeys]
    have hpending : pendingKeys s' = pendingKeys s := by
      rw [pendingKeys,hreleasing,hdata,pendingKeys]
    rw [hreleased,hpending,hwaiting,hemitted]
    exact h.account
  · rw [hdata,hemitted]
    exact h.known
  · rw [hstack]
    exact h.frames
  · intro hb hr
    rw [hdata]
    exact h.inactive (hbuffering hb) (hreleasing ▸ hr)

/-- Messages that are buffered or passed on join the account. -/
theorem acceptUpsert_accounted {messages : List Message} {type : UpsertType}
    (haccount : (releasedKeys s++pendingKeys s++waitingKeys s++messageKeys messages).Perm s.emitted)
    (hnodup : s.emitted.Nodup) (hknown : ∀ key ∈ s.data.messageUpserts.keys, key ∈ s.emitted)
    (hframes : FramesOk s.stack)
    (hinactive : s.buffering = false → releasing s = false → s.data.messageUpserts.keys = [])
    (hsafe : s.buffering = true → releasing s = false) : Accounted (acceptUpsert c s messages type) := by
  have hemitted : ∀ key ∈ messageKeys messages, key ∈ s.emitted := fun key hkey =>
    haccount.subset (List.mem_append_right _ hkey)
  have hparts := haccount.nodup_iff.mpr hnodup
  unfold acceptUpsert
  cases hb : s.buffering with
  | true =>
    rw [if_pos rfl]
    have hidle := hsafe hb
    have hpending : pendingKeys s = s.data.messageUpserts.keys := by rw [pendingKeys,hidle]; rfl
    have hdistinct : (messageKeys messages).Nodup := (List.nodup_append.mp hparts).2.1
    have hnew : ∀ key ∈ messageKeys messages, key ∉ s.data.messageUpserts.keys := by
      intro key hkey hold
      have hin : key ∈ releasedKeys s++pendingKeys s++waitingKeys s := by
        rw [hpending]
        exact List.mem_append_left _ (List.mem_append_right _ hold)
      exact (List.nodup_append.mp hparts).2.2 key hin key hkey rfl
    have hkeys := keys_appendMessages (c := c) type hnew hdistinct
    constructor
    · change (releasedKeys s++(if releasing s then [] else
        (appendMessages c s.data messages type).messageUpserts.keys)++waitingKeys s).Perm s.emitted
      rw [hidle,hkeys]
      refine List.Perm.trans ?_ haccount
      rw [hpending]
      simp only [Bool.false_eq_true,if_false,List.append_assoc]
      exact (List.perm_append_comm.append_left _).append_left _
    · intro key hkey
      change key ∈ (appendMessages c s.data messages type).messageUpserts.keys at hkey
      rw [hkeys] at hkey
      exact (List.mem_append.mp hkey).elim (hknown key) (hemitted key)
    · exact hframes
    · intro hoff
      cases hoff
  | false =>
    rw [if_neg Bool.false_ne_true]
    constructor
    · rw [releasedKeys_release,waitingKeys_release]
      have hkeys : EventMap.keys
          ⟨some ⟨messages.map fun m => (stringifyMessageKey m.key,m),type⟩,c.nothing⟩ =
            messageKeys messages := by
        simp [EventMap.keys,messageKeys,List.map_map,Function.comp_def]
      rw [hkeys]
      refine List.Perm.trans ?_ haccount
      change (releasedKeys s++messageKeys messages++pendingKeys s++([]++waitingKeys s)).Perm _
      simp only [List.append_assoc,List.nil_append]
      refine List.Perm.append_left _ ?_
      rw [← List.append_assoc (pendingKeys s)]
      exact List.perm_append_comm.trans (by rw [List.append_assoc])
    · exact hknown
    · exact hframes
    · intro _ hidle
      exact hinactive hb hidle

/-- Handing over the pending messages takes them out of the pending account. -/
theorem Accounted.releasePending {s₁ : State ρ σ} {rest : σ} {frame : Frame ρ}
    (h : Accounted s) (hdata : s₁.data.messageUpserts = s.data.messageUpserts)
    (hstack : s₁.stack = s.stack) (hhanded : s₁.handed = s.handed)
    (hemitted : s₁.emitted = s.emitted++frame.waitingKeys)
    (hframe : frame.isRelease = true) (hframes : FramesOk (frame::s.stack))
    (hidle : releasing s = false ∨ s.data.messageUpserts.keys = []) :
    Accounted (release s₁ ⟨pendingBatch s₁.data.messageUpserts,rest⟩ frame) := by
  have hpending : pendingKeys s = s.data.messageUpserts.keys := by
    unfold pendingKeys
    rcases hidle with hidle | hempty
    · rw [hidle]
      rfl
    · rw [hempty]
      exact ite_self _
  have hreleasing : releasing (release s₁ ⟨pendingBatch s₁.data.messageUpserts,rest⟩ frame) =
      true := by
    rw [releasing_release,hframe]
    rfl
  constructor
  · have hreleased : releasedKeys s₁ = releasedKeys s := by
      rw [releasedKeys,hhanded,releasedKeys]
    have hwaiting : waitingKeys s₁ = waitingKeys s := by rw [waitingKeys,hstack,waitingKeys]
    have haccount := h.account
    rw [hpending] at haccount
    rw [releasedKeys_release,waitingKeys_release,keys_pendingBatch,pendingKeys,hreleasing,hreleased,
      hwaiting,hdata]
    change (releasedKeys s++s.data.messageUpserts.keys++[]++(frame.waitingKeys++waitingKeys s)).Perm
      s₁.emitted
    rw [hemitted,List.append_nil]
    refine List.Perm.trans ?_ (haccount.append_right frame.waitingKeys)
    rw [List.append_assoc _ (waitingKeys s)]
    exact List.perm_append_comm.append_left _
  · intro key hkey
    change key ∈ s₁.data.messageUpserts.keys at hkey
    rw [hdata] at hkey
    change key ∈ s₁.emitted
    rw [hemitted]
    exact List.mem_append_left _ (h.known key hkey)
  · change FramesOk (frame::s₁.stack)
    rw [hstack]
    exact hframes
  · intro _ hfalse
    rw [hreleasing] at hfalse
    cases hfalse

/-- A flush without anything to release starts over. -/
theorem Accounted.finishFlush {s₁ : State ρ σ} {next : Data ρ} (h : Accounted s)
    (hempty : s.data.messageUpserts.keys = []) (hnext : next.messageUpserts.keys = [])
    (hstack : s₁.stack = s.stack) (hhanded : s₁.handed = s.handed)
    (hemitted : s₁.emitted = s.emitted) : Accounted (finishFlush s₁ next) := by
  have hpending : pendingKeys s = [] := by
    unfold pendingKeys
    rw [hempty]
    exact ite_self _
  constructor
  · have haccount := h.account
    rw [hpending] at haccount
    have hpending' : pendingKeys (EventBuffer.finishFlush s₁ next) = [] := by
      unfold pendingKeys
      change (if _ then [] else next.messageUpserts.keys) = []
      rw [hnext]
      exact ite_self _
    rw [hpending']
    change (s₁.handed.flatMap EventMap.keys++[]++s₁.stack.flatMap Frame.waitingKeys).Perm s₁.emitted
    rw [hhanded,hstack,hemitted]
    exact haccount
  · intro key hkey
    change key ∈ next.messageUpserts.keys at hkey
    rw [hnext] at hkey
    cases hkey
  · change FramesOk s₁.stack
    rw [hstack]
    exact h.frames
  · exact fun _ _ => hnext

/-- A flush hands the pending messages over once. -/
theorem flush_accounted (h : Accounted s)
    (hsafe : s.buffering = false ∨ releasing s = false ∨ s.data.messageUpserts.keys = []) : Accounted (flush c s) := by
  unfold flush
  cases hb : s.buffering with
  | false => exact h
  | true =>
    rw [if_pos rfl]
    have hidle : releasing s = false ∨ s.data.messageUpserts.keys = [] := by
      rcases hsafe with hoff | hidle
      · rw [hb] at hoff
        cases hoff
      · exact hidle
    dsimp only
    split
    · rename_i hnothing
      have hnone : pendingBatch s.data.messageUpserts = none := by
        rw [Bool.and_eq_true,Option.isNone_iff_eq_none] at hnothing
        exact hnothing.1
      exact h.finishFlush (pendingBatch_eq_none_iff.mp hnone) rfl rfl rfl rfl
    · exact h.releasePending rfl rfl rfl (List.append_nil _).symm rfl ⟨rfl,h.frames⟩ hidle

/-- Emitting a message upsert keeps the account. -/
theorem emitUpsert_accounted {messages : List Message} {type : UpsertType} (h : Accounted s)
    (hnodup : (s.emitted++messageKeys messages).Nodup)
    (hsafe : Safe (O := O) s (.emitUpsert messages type)) :
    Accounted (emitUpsert c s messages type) := by
  have haccept : ∀ s₁ : State ρ σ, s₁.data = s.data → s₁.stack = s.stack →
      s₁.handed = s.handed → s₁.emitted = s.emitted++messageKeys messages →
      s₁.buffering = s.buffering → (s.buffering = true → releasing s = false) →
      Accounted (acceptUpsert c s₁ messages type) := by
    intro s₁ hdata hstack hhanded hemitted hbuffering hidle
    have hreleasing : releasing s₁ = releasing s := by rw [releasing,hstack,releasing]
    have hreleased : releasedKeys s₁ = releasedKeys s := by rw [releasedKeys,hhanded,releasedKeys]
    have hwaiting : waitingKeys s₁ = waitingKeys s := by rw [waitingKeys,hstack,waitingKeys]
    have hpending : pendingKeys s₁ = pendingKeys s := by
      rw [pendingKeys,hreleasing,hdata,pendingKeys]
    refine acceptUpsert_accounted ?_ ?_ ?_ ?_ ?_ ?_
    · rw [hreleased,hpending,hwaiting,hemitted]
      exact h.account.append_right _
    · rw [hemitted]
      exact hnodup
    · intro key hkey
      rw [hdata] at hkey
      rw [hemitted]
      exact List.mem_append_left _ (h.known key hkey)
    · rw [hstack]
      exact h.frames
    · rw [hbuffering,hreleasing,hdata]
      exact h.inactive
    · rw [hbuffering,hreleasing]
      exact hidle
  have hoff : s.buffering = true → releasing s = false := by
    intro hb
    rcases hsafe with hidle | ⟨hb',_⟩
    · exact hidle
    · rw [hb] at hb'
      cases hb'
  unfold emitUpsert
  dsimp only
  split
  · rename_i hchange
    split
    · rename_i batch hbatch
      split
      · -- the pending messages go out before the new ones are accepted
        have hidle : releasing s = false := by
          rcases hsafe with hidle | ⟨_,hnone | hsame | hempty⟩
          · exact hidle
          · rw [hnone] at hchange
            cases hchange.1
          · exact absurd hsame hchange.2
          · rw [pendingBatch_eq_none_iff.mpr hempty] at hbatch
            cases hbatch
        rw [← hbatch]
        exact h.releasePending rfl rfl rfl rfl rfl ⟨hidle,h.frames⟩ (.inl hidle)
      · exact haccept _ rfl rfl rfl rfl rfl hoff
    · exact haccept _ rfl rfl rfl rfl rfl hoff
  · exact haccept _ rfl rfl rfl rfl rfl hoff

/-- Emitting another event keeps the pending messages. -/
theorem emit_accounted {event : O} (h : Accounted s) (hkeeps : c.removes event = false) :
    Accounted (emit c s event) := by
  unfold emit
  split
  · have hkeys : (appendEvent c s.data event).messageUpserts.keys = s.data.messageUpserts.keys :=
      c.append_keys _ _ _ hkeeps
    constructor
    · have haccount := h.account
      unfold pendingKeys at haccount ⊢
      change (releasedKeys s++(if releasing s then [] else
        (appendEvent c s.data event).messageUpserts.keys)++waitingKeys s).Perm s.emitted
      rw [hkeys]
      exact haccount
    · intro key hkey
      change key ∈ (appendEvent c s.data event).messageUpserts.keys at hkey
      rw [hkeys] at hkey
      exact h.known key hkey
    · exact h.frames
    · intro hb hidle
      change (appendEvent c s.data event).messageUpserts.keys = []
      rw [hkeys]
      exact h.inactive hb hidle
  · constructor
    · rw [releasedKeys_release]
      have hkeys : EventMap.keys (⟨none,c.single event⟩ : EventMap σ) = [] := rfl
      rw [hkeys,List.append_nil]
      exact h.account
    · exact h.known
    · exact h.frames
    · exact h.inactive

theorem releasing_cons {frame : Frame ρ} {below : List (Frame ρ)} (hstack : s.stack = frame::below) :
    releasing s = (frame.isRelease || below.any Frame.isRelease) := by
  rw [releasing,hstack]
  rfl

theorem waitingKeys_cons {frame : Frame ρ} {below : List (Frame ρ)} (hstack : s.stack = frame::below) :
    waitingKeys s = frame.waitingKeys++below.flatMap Frame.waitingKeys := by
  rw [waitingKeys,hstack]
  rfl

/-- The end of a single event's listeners keeps the account. -/
theorem Accounted.single {below : List (Frame ρ)} (h : Accounted s) (hstack : s.stack = .single::below) :
    Accounted {s with stack := below} := by
  have hreleasing := releasing_cons hstack
  have hwaiting := waitingKeys_cons hstack
  have hframes := h.frames
  rw [hstack] at hframes
  constructor
  · have haccount := h.account
    unfold pendingKeys at haccount ⊢
    rw [hreleasing,hwaiting] at haccount
    exact haccount
  · exact h.known
  · exact hframes
  · intro hb hidle
    refine h.inactive hb ?_
    rw [hreleasing]
    exact hidle

/-- What follows the listeners of the innermost release keeps the account. -/
theorem resume_accounted {frame : Frame ρ} {below : List (Frame ρ)} (h : Accounted s)
    (hnodup : s.emitted.Nodup) (hstack : s.stack = frame::below) :
    Accounted (resume c {s with stack := below} frame) := by
  have hframes := h.frames
  rw [hstack] at hframes
  have haccount := h.account
  have hreleasing := releasing_cons hstack
  have hwaiting := waitingKeys_cons hstack
  cases frame with
  | flush next =>
    have hpending : pendingKeys s = [] := by
      rw [pendingKeys,hreleasing]
      rfl
    rw [hpending,hwaiting] at haccount
    have hnext : next.messageUpserts.keys = [] := hframes.1
    constructor
    · have hpending' : pendingKeys (resume c {s with stack := below} (.flush next)) = [] := by
        unfold pendingKeys
        change (if _ then [] else next.messageUpserts.keys) = []
        rw [hnext]
        exact ite_self _
      rw [hpending']
      exact haccount
    · intro key hkey
      change key ∈ next.messageUpserts.keys at hkey
      rw [hnext] at hkey
      cases hkey
    · exact hframes.2
    · exact fun _ _ => hnext
  | typeChange messages type =>
    have hpending : pendingKeys s = [] := by
      rw [pendingKeys,hreleasing]
      rfl
    have hidle : below.any Frame.isRelease = false := hframes.1
    rw [hpending,hwaiting,List.append_nil] at haccount
    refine acceptUpsert_accounted ?_ hnodup ?_ hframes.2 ?_ ?_
    · refine List.Perm.trans ?_ haccount
      unfold pendingKeys
      change (releasedKeys s++(if below.any Frame.isRelease then [] else [])++
        below.flatMap Frame.waitingKeys++messageKeys messages).Perm _
      rw [ite_self,List.append_nil,List.append_assoc]
      exact List.perm_append_comm.append_left _
    · intro key hkey
      cases hkey
    · exact fun _ _ => rfl
    · exact fun _ => hidle
  | single => exact h.single hstack

/-- A listener that throws leaves nothing pending behind a release. -/
theorem throw_accounted {frame : Frame ρ} {below : List (Frame ρ)} (h : Accounted s)
    (hstack : s.stack = frame::below) (hsafe : Safe (O := O) s .listenersThrow) :
    Accounted {s with stack := below} := by
  have hframes := h.frames
  rw [hstack] at hframes
  have haccount := h.account
  have hreleasing := releasing_cons hstack
  have hwaiting := waitingKeys_cons hstack
  have hthrow := hsafe frame below hstack
  cases frame with
  | flush next =>
    have hempty : s.data.messageUpserts.keys = [] := hthrow
    constructor
    · unfold pendingKeys at haccount ⊢
      rw [hwaiting,hempty,ite_self] at haccount
      change (releasedKeys s++(if below.any Frame.isRelease then [] else
        s.data.messageUpserts.keys)++below.flatMap Frame.waitingKeys).Perm s.emitted
      rw [hempty,ite_self]
      exact haccount
    · exact h.known
    · exact hframes.2
    · exact fun _ _ => hempty
  | typeChange messages type => cases hthrow
  | single => exact h.single hstack

theorem buffer_accounted (h : Accounted s) : Accounted (buffer s) := by
  unfold buffer
  split
  · exact h.congr rfl rfl rfl rfl id
  · exact h.congr rfl rfl rfl rfl nofun

/-- A step records what it passes to `emit`. -/
theorem step_emitted {a : Action O} (hs : step c s a = some s') : s'.emitted = s.emitted++a.emittedKeys := by
  have haccept : ∀ (s₁ : State ρ σ) messages type,
      (acceptUpsert c s₁ messages type).emitted = s₁.emitted := by
    intro s₁ messages type
    unfold acceptUpsert
    split <;> rfl
  have hflush : ∀ s₁ : State ρ σ, (flush c s₁).emitted = s₁.emitted := by
    intro s₁
    unfold flush
    split
    · dsimp only
      split <;> rfl
    · rfl
  have hbuffer : (buffer s).emitted = s.emitted := by
    unfold buffer
    split <;> rfl
  cases a with
  | emitUpsert messages type =>
    cases hs
    unfold emitUpsert
    dsimp only
    split
    · split
      · split
        · rfl
        · exact haccept _ _ _
      · exact haccept _ _ _
    · exact haccept _ _ _
  | emit event =>
    cases hs
    unfold emit
    split <;> exact (List.append_nil _).symm
  | buffer =>
    cases hs
    exact hbuffer.trans (List.append_nil _).symm
  | flush =>
    cases hs
    exact (hflush s).trans (List.append_nil _).symm
  | startBuffered =>
    cases hs
    exact hbuffer.trans (List.append_nil _).symm
  | finishBuffered =>
    unfold step at hs
    dsimp only at hs
    split at hs
    · cases hs
      unfold finishBuffered
      dsimp only
      split <;> exact (List.append_nil _).symm
    · cases hs
  | fire timer =>
    unfold step at hs
    dsimp only at hs
    split at hs
    · cases hs
      exact (hflush _).trans (List.append_nil _).symm
    · cases hs
  | listenersReturn =>
    unfold step at hs
    dsimp only at hs
    split at hs
    · rename_i frame below _
      cases hs
      cases frame with
      | flush next => exact (List.append_nil _).symm
      | typeChange messages type => exact (haccept _ _ _).trans (List.append_nil _).symm
      | single => exact (List.append_nil _).symm
    · cases hs
  | listenersThrow =>
    unfold step at hs
    dsimp only at hs
    split at hs
    · cases hs
      exact (List.append_nil _).symm
    · cases hs

/-- Every step that meets the condition keeps the account. -/
theorem step_accounted {a : Action O} (h : Accounted s) (hnodup : s'.emitted.Nodup)
    (hsafe : Safe s a) (hkeeps : Keeps c a) (hs : step c s a = some s') : Accounted s' := by
  rw [step_emitted hs] at hnodup
  have hold : s.emitted.Nodup := (List.nodup_append.mp hnodup).1
  cases a with
  | emitUpsert messages type =>
    cases hs
    exact emitUpsert_accounted h hnodup hsafe
  | emit event =>
    cases hs
    exact emit_accounted h hkeeps
  | buffer =>
    cases hs
    exact buffer_accounted h
  | flush =>
    cases hs
    exact flush_accounted h hsafe
  | startBuffered =>
    cases hs
    exact (buffer_accounted h).congr rfl rfl rfl rfl id
  | finishBuffered =>
    unfold step at hs
    dsimp only at hs
    split at hs
    · cases hs
      unfold finishBuffered
      dsimp only
      split <;> exact h.congr rfl rfl rfl rfl id
    · cases hs
  | fire timer =>
    unfold step at hs
    dsimp only at hs
    split at hs
    · rename_i hidle
      have hempty : s.stack = [] := List.isEmpty_iff.mp hidle.1
      cases hs
      refine flush_accounted (h.congr rfl rfl rfl rfl id) (.inr (.inl ?_))
      rw [releasing]
      change s.stack.any Frame.isRelease = false
      rw [hempty]
      rfl
    · cases hs
  | listenersReturn =>
    unfold step at hs
    dsimp only at hs
    split at hs
    · rename_i hstack
      cases hs
      exact resume_accounted h hold hstack
    · cases hs
  | listenersThrow =>
    unfold step at hs
    dsimp only at hs
    split at hs
    · rename_i hstack
      cases hs
      exact throw_accounted h hstack hsafe
    · cases hs

theorem makeEventBuffer_accounted : Accounted (makeEventBuffer c) :=
  ⟨List.Perm.refl _,nofun,trivial,fun _ _ => rfl⟩

/-- A run records what its steps pass to `emit`. -/
theorem run_emitted {labels : List (Action O)} (hr : run (step c) s labels = some s') :
    s'.emitted = s.emitted++labels.flatMap Action.emittedKeys := by
  induction labels generalizing s with
  | nil =>
    cases hr
    exact (List.append_nil _).symm
  | cons a labels ih =>
    obtain ⟨mid,hs,hrest⟩ := run_cons_some hr
    rw [ih hrest,step_emitted hs,List.flatMap_cons,List.append_assoc]

/-- In every run of emits of distinct messages in which no listener reaches
into the release it runs in, nothing is handed over twice, and once the buffer
is flushed exactly the emitted messages were handed over. -/
theorem released_exactly_once {labels : List (Action O)}
    (hkeeps : ∀ a ∈ labels, Keeps c a)
    (hdistinct : (labels.flatMap Action.emittedKeys).Nodup)
    (hsafe : Guarded (step c) Safe (makeEventBuffer c) labels)
    (hr : run (step c) (makeEventBuffer c) labels = some s) :
    (releasedKeys s).Nodup ∧ (s.buffering = false → s.stack = [] →
      (releasedKeys s).Perm (labels.flatMap Action.emittedKeys)) := by
  have hemitted : s.emitted = labels.flatMap Action.emittedKeys := run_emitted hr
  have haccounted : s.emitted.Nodup → Accounted s := by
    refine run_guarded_invariant (P := fun s => s.emitted.Nodup → Accounted s) ?_
      (hsafe.and_labels hkeeps) hr fun _ => makeEventBuffer_accounted
    intro mid a next hmid hguard hs hnodup
    have hold := hnodup
    rw [step_emitted hs] at hold
    exact step_accounted (hmid (List.nodup_append.mp hold).1) hnodup hguard.1 hguard.2 hs
  rw [← hemitted] at hdistinct ⊢
  have h := haccounted hdistinct
  have hparts := h.account.nodup_iff.mpr hdistinct
  refine ⟨(List.nodup_append.mp (List.nodup_append.mp hparts).1).1,fun hoff hidle => ?_⟩
  have hreleasing : releasing s = false := by rw [releasing,hidle]; rfl
  have haccount := h.account
  have hpending : pendingKeys s = [] := by
    rw [pendingKeys,hreleasing]
    exact h.inactive hoff hreleasing
  have hwaiting : waitingKeys s = [] := by rw [waitingKeys,hidle]; rfl
  rw [hpending,hwaiting,List.append_nil,List.append_nil] at haccount
  exact haccount

/-- A message of one chat. -/
def chatMessage (id : String) : Message := ⟨⟨"1@s.whatsapp.net",id,false⟩,none⟩

/-- Channels whose updates are never conditional. -/
abbrev plainChannels : Channels (ChatEvent Empty) (ChatData Empty) (ChatMaps Empty) :=
  chatChannels fun condition _ _ => condition.elim

/-- Two messages of one burst and one of another type, all flushed. -/
def burst : List (Action (ChatEvent Empty)) :=
  [.buffer,.emitUpsert [chatMessage "a"] .notify,.emitUpsert [chatMessage "b"] .append,
    .listenersReturn,.flush,.buffer,.listenersReturn,.flush]

theorem released_exactly_once_burst :
    (releasedKeys (after (step plainChannels) (makeEventBuffer plainChannels) burst)).Perm
      ["1@s.whatsapp.net,a,0","1@s.whatsapp.net,b,0"] := by
  have hr : run (step plainChannels) (makeEventBuffer plainChannels) burst =
      some (after (step plainChannels) (makeEventBuffer plainChannels) burst) :=
    run_after (by decide)
  have hkeeps : ∀ a ∈ burst, Keeps plainChannels a := by
    simp [burst,Keeps]
  have hsafe : Guarded (step plainChannels) Safe (makeEventBuffer plainChannels) burst := by
    refine ⟨trivial,fun s₁ h₁ => ⟨?_,fun s₂ h₂ => ⟨?_,fun s₃ h₃ => ⟨trivial,fun s₄ h₄ =>
      ⟨?_,fun s₅ h₅ => ⟨trivial,fun s₆ h₆ => ⟨trivial,fun s₇ h₇ => ⟨?_,fun _ _ => trivial⟩⟩⟩⟩⟩⟩⟩⟩
    · cases h₁
      exact .inl rfl
    · cases h₁
      cases h₂
      exact .inl rfl
    · cases h₁
      cases h₂
      cases h₃
      cases h₄
      exact .inr (.inl rfl)
    · cases h₁
      cases h₂
      cases h₃
      cases h₄
      cases h₅
      cases h₆
      cases h₇
      exact .inr (.inl rfl)
  exact (released_exactly_once hkeeps (by decide) hsafe hr).2 rfl rfl

/-- A message accepted while a flush calls its listeners is discarded. -/
theorem accepted_during_flush_lost :
    ¬∀ (labels : List (Action (ChatEvent Empty))) s,
      (∀ a ∈ labels, Keeps plainChannels a) → (labels.flatMap Action.emittedKeys).Nodup →
        run (step plainChannels) (makeEventBuffer plainChannels) labels = some s →
          s.buffering = false → s.stack = [] →
            (releasedKeys s).Perm (labels.flatMap Action.emittedKeys) := by
  intro h
  have hperm := h [.buffer,.emitUpsert [chatMessage "a"] .notify,.flush,.buffer,
    .emitUpsert [chatMessage "b"] .notify,.listenersReturn,.flush] _ ?_ (by decide)
    (run_after (by decide)) rfl rfl
  · exact absurd (hperm.symm.subset (List.mem_cons_of_mem _ List.mem_cons_self)) (by decide)
  · simp [Keeps]

end Baileyrs.EventBuffer
