import Baileyrs.EventBufferRelease

/-!
# A completed function is followed by a quick flush

When the last buffered function completes, a timer is armed that flushes the buffer
soon after. A plain call of `buffer` holds the buffer beside the functions, and a
quick timer that fires on an inactive buffer leaves its handle behind. Apart from
these, an active buffer without a running function has a live quick timer.
-/

namespace Baileyrs.EventBuffer

open LabelledRuns

variable {O ρ σ : Type*} {c : Channels O ρ σ}

section Timing

/-- What emits and listeners leave alone. -/
structure SameTiming (s s' : State ρ σ) : Prop where
  /-- Whether events are buffered. -/
  buffering : s'.buffering = s.buffering
  /-- The count of functions. -/
  bufferCount : s'.bufferCount = s.bufferCount
  /-- The safety timer. -/
  bufferTimeout : s'.bufferTimeout = s.bufferTimeout
  /-- The quick timer. -/
  flushPendingTimeout : s'.flushPendingTimeout = s.flushPendingTimeout
  /-- Live timers. -/
  timers : s'.timers = s.timers
  /-- Running functions. -/
  working : s'.working = s.working

theorem acceptUpsert_timing (s : State ρ σ) (messages : List Message) (type : UpsertType) :
    SameTiming s (acceptUpsert c s messages type) := by
  unfold acceptUpsert
  split
  · exact ⟨rfl,rfl,rfl,rfl,rfl,rfl⟩
  · exact ⟨rfl,rfl,rfl,rfl,rfl,rfl⟩

theorem SameTiming.trans {s s' s'' : State ρ σ} (h : SameTiming s s') (h' : SameTiming s' s'') : SameTiming s s'' :=
  ⟨h'.buffering.trans h.buffering,h'.bufferCount.trans h.bufferCount,h'.bufferTimeout.trans h.bufferTimeout,
    h'.flushPendingTimeout.trans h.flushPendingTimeout,h'.timers.trans h.timers,h'.working.trans h.working⟩

theorem emitUpsert_timing (s : State ρ σ) (messages : List Message) (type : UpsertType) :
    SameTiming s (emitUpsert c s messages type) := by
  have hsame : ∀ s' : State ρ σ, s'.buffering = s.buffering → s'.bufferCount = s.bufferCount →
      s'.bufferTimeout = s.bufferTimeout → s'.flushPendingTimeout = s.flushPendingTimeout →
      s'.timers = s.timers → s'.working = s.working → SameTiming s (acceptUpsert c s' messages type) :=
    fun s' h1 h2 h3 h4 h5 h6 => SameTiming.trans ⟨h1,h2,h3,h4,h5,h6⟩ (acceptUpsert_timing s' messages type)
  unfold emitUpsert
  dsimp only
  split
  · split
    · split
      · exact ⟨rfl,rfl,rfl,rfl,rfl,rfl⟩
      · exact hsame _ rfl rfl rfl rfl rfl rfl
    · exact hsame _ rfl rfl rfl rfl rfl rfl
  · exact hsame _ rfl rfl rfl rfl rfl rfl

theorem emit_timing (s : State ρ σ) (event : O) : SameTiming s (emit c s event) := by
  unfold emit
  split
  · exact ⟨rfl,rfl,rfl,rfl,rfl,rfl⟩
  · exact ⟨rfl,rfl,rfl,rfl,rfl,rfl⟩

theorem resume_timing (s : State ρ σ) (frame : Frame ρ) : SameTiming s (resume c s frame) := by
  cases frame with
  | flush next => exact ⟨rfl,rfl,rfl,rfl,rfl,rfl⟩
  | typeChange messages type =>
    refine SameTiming.trans ?_ (acceptUpsert_timing _ messages type)
    exact ⟨rfl,rfl,rfl,rfl,rfl,rfl⟩
  | single => exact ⟨rfl,rfl,rfl,rfl,rfl,rfl⟩

/-- A flush of an active buffer leaves it inactive, with no handle and no count. -/
theorem flush_active {s : State ρ σ} (h : s.buffering = true) :
    (flush c s).buffering = false ∧ (flush c s).bufferCount = 0 ∧ (flush c s).bufferTimeout = none ∧
      (flush c s).flushPendingTimeout = none ∧ (flush c s).working = s.working := by
  unfold flush
  rw [if_pos h]
  dsimp only
  split
  · exact ⟨rfl,rfl,rfl,rfl,rfl⟩
  · exact ⟨rfl,rfl,rfl,rfl,rfl⟩

/-- A flush of an inactive buffer does nothing. -/
theorem flush_inactive {s : State ρ σ} (h : s.buffering = false) : flush c s = s := by
  unfold flush
  rw [if_neg (by rw [h]; exact Bool.false_ne_true)]

/-- What a step does to the timers and the count. -/
theorem step_timing {s s' : State ρ σ} {a : Action O} (hs : step c s a = some s') :
    SameTiming s s' ∨ a = .buffer ∧ s' = buffer s ∨
    a = .startBuffered ∧ s' = {buffer s with working := s.working+1} ∨
    a = .flush ∧ s' = flush c s ∨
    a = .finishBuffered ∧ s.stack = [] ∧ 0 < s.working ∧ s' = finishBuffered s ∨
    ∃ timer, a = .fire timer ∧
      s' = flush c {s with timers := s.timers.filter fun live => live.1 ≠ timer} := by
  cases a with
  | emitUpsert messages type =>
    cases hs
    exact .inl (emitUpsert_timing s messages type)
  | emit event =>
    cases hs
    exact .inl (emit_timing s event)
  | buffer =>
    cases hs
    exact .inr (.inl ⟨rfl,rfl⟩)
  | flush =>
    cases hs
    exact .inr (.inr (.inr (.inl ⟨rfl,rfl⟩)))
  | startBuffered =>
    cases hs
    exact .inr (.inr (.inl ⟨rfl,rfl⟩))
  | finishBuffered =>
    rw [step] at hs
    split at hs
    · rename_i hguard
      cases hs
      exact .inr (.inr (.inr (.inr (.inl ⟨rfl,List.isEmpty_iff.mp hguard.1,hguard.2,rfl⟩))))
    · cases hs
  | fire timer =>
    rw [step] at hs
    split at hs
    · cases hs
      exact .inr (.inr (.inr (.inr (.inr ⟨timer,rfl,rfl⟩))))
    · cases hs
  | listenersReturn =>
    rw [step] at hs
    split at hs
    · rename_i frame rest _
      cases hs
      have hpopped : SameTiming s {s with stack := rest} := ⟨rfl,rfl,rfl,rfl,rfl,rfl⟩
      exact .inl (hpopped.trans (resume_timing _ frame))
    · cases hs
  | listenersThrow =>
    rw [step] at hs
    split at hs
    · cases hs
      exact .inl ⟨rfl,rfl,rfl,rfl,rfl,rfl⟩
    · cases hs

/-- After `buffer` the buffer is active. -/
theorem buffer_active (s : State ρ σ) : (buffer s).buffering = true := by
  unfold buffer
  split
  · assumption
  · rfl

end Timing

section Quick

/-- An inactive buffer counts nothing and has no safety timer. -/
structure Idle (s : State ρ σ) : Prop where
  /-- No function is counted. -/
  count : s.buffering = false → s.bufferCount = 0
  /-- The safety timer is gone. -/
  safety : s.buffering = false → s.bufferTimeout = none

theorem Idle.active {s : State ρ σ} (h : s.buffering = true) : Idle s := by
  have hno : s.buffering ≠ false := by
    rw [h]
    exact Bool.noConfusion
  exact ⟨fun hinactive => absurd hinactive hno,fun hinactive => absurd hinactive hno⟩

theorem Idle.flush {s : State ρ σ} (h : Idle s) : Idle (flush c s) := by
  by_cases hactive : s.buffering = true
  · have hflushed := @flush_active _ _ _ c s hactive
    exact ⟨fun _ => hflushed.2.1,fun _ => hflushed.2.2.1⟩
  · rw [flush_inactive (Bool.eq_false_iff.mpr hactive)]
    exact h

/-- Every step keeps it. -/
theorem Idle.step {s s' : State ρ σ} {a : Action O} (h : Idle s) (hs : step c s a = some s') : Idle s' := by
  rcases step_timing hs with hsame | ⟨_,rfl⟩ | ⟨_,rfl⟩ | ⟨_,rfl⟩ | ⟨_,_,_,rfl⟩ | ⟨timer,_,rfl⟩
  · refine ⟨fun hinactive => ?_,fun hinactive => ?_⟩
    · rw [hsame.bufferCount]
      exact h.count (hsame.buffering ▸ hinactive)
    · rw [hsame.bufferTimeout]
      exact h.safety (hsame.buffering ▸ hinactive)
  · exact .active (buffer_active s)
  · exact .active (buffer_active s)
  · exact h.flush
  · unfold finishBuffered
    dsimp only
    split
    · exact ⟨fun hinactive => by dsimp only at hinactive ⊢; rw [h.count hinactive],h.safety⟩
    · exact ⟨fun hinactive => by dsimp only at hinactive ⊢; rw [h.count hinactive],h.safety⟩
  · exact Idle.flush ⟨h.count,h.safety⟩

/-- A quick timer fires on an inactive buffer. -/
def FiresIdle (s : State ρ σ) (a : Action O) : Prop :=
  ∃ timer, a = .fire timer ∧ (timer,TimerKind.quick) ∈ s.timers ∧ s.buffering = false

/-- A step that neither calls `buffer` itself nor fires a quick timer in vain. -/
def Prompt (s : State ρ σ) (a : Action O) : Prop := a ≠ .buffer ∧ ¬FiresIdle s a

/-- What prompt steps keep. -/
structure Quick (s : State ρ σ) : Prop where
  /-- Only running functions are counted. -/
  count : s.bufferCount ≤ s.working
  /-- The handle is that of a live quick timer. -/
  live : ∀ timer, s.flushPendingTimeout = some timer → (timer,TimerKind.quick) ∈ s.timers

theorem Quick.flush {s : State ρ σ} (h : Quick s) : Quick (flush c s) := by
  by_cases hactive : s.buffering = true
  · have hflushed := @flush_active _ _ _ c s hactive
    refine ⟨?_,fun timer htimer => ?_⟩
    · rw [hflushed.2.1]
      exact Nat.zero_le _
    · rw [hflushed.2.2.2.1] at htimer
      cases htimer
  · rw [flush_inactive (Bool.eq_false_iff.mpr hactive)]
    exact h

/-- The quick timer outlives the start of the safety timer. -/
theorem Quick.buffer {s : State ρ σ} (h : Quick s) (hidle : Idle s) : (buffer s).bufferCount ≤ s.working+1 ∧
    ∀ timer, (buffer s).flushPendingTimeout = some timer → (timer,TimerKind.quick) ∈ (buffer s).timers := by
  unfold EventBuffer.buffer
  split
  · exact ⟨Nat.succ_le_succ h.count,h.live⟩
  · rename_i hinactive
    have hnone := hidle.safety (Bool.eq_false_iff.mpr hinactive)
    refine ⟨Nat.succ_le_succ (Nat.zero_le _),fun timer htimer => ?_⟩
    have hlive := h.live timer htimer
    refine List.mem_cons_of_mem _ (List.mem_filter.mpr ⟨hlive,?_⟩)
    rw [hnone]
    rfl

/-- Completing a function leaves a live quick timer, unless others are counted. -/
theorem Quick.finish {s : State ρ σ} (h : Quick s) (hworking : 0 < s.working) :
    Quick (finishBuffered s) ∧ ((finishBuffered s).working = 0 →
      ∃ timer, (timer,TimerKind.quick) ∈ (finishBuffered s).timers) := by
  have hcount := h.count
  unfold finishBuffered
  dsimp only
  split
  · refine ⟨⟨?_,fun timer htimer => ?_⟩,fun _ => ⟨s.fresh,List.mem_cons_self⟩⟩
    · dsimp only
      omega
    · cases htimer
      exact List.mem_cons_self
  · rename_i hblocked
    refine ⟨⟨?_,h.live⟩,fun hzero => ?_⟩
    · dsimp only
      omega
    · dsimp only at hzero hblocked ⊢
      have hnone : s.bufferCount-1 = 0 := by omega
      cases hhandle : s.flushPendingTimeout with
      | none => exact absurd ⟨hnone,hhandle⟩ hblocked
      | some timer => exact ⟨timer,h.live timer hhandle⟩

/-- Prompt steps keep it. -/
theorem Quick.step {s s' : State ρ σ} {a : Action O} (h : Quick s) (hidle : Idle s) (hprompt : Prompt s a)
    (hs : step c s a = some s') : Quick s' := by
  rcases step_timing hs with hsame | ⟨rfl,_⟩ | ⟨_,rfl⟩ | ⟨_,rfl⟩ | ⟨_,_,hworking,rfl⟩ | ⟨timer,rfl,rfl⟩
  · refine ⟨?_,fun timer htimer => ?_⟩
    · rw [hsame.bufferCount,hsame.working]
      exact h.count
    · rw [hsame.timers]
      exact h.live timer (hsame.flushPendingTimeout ▸ htimer)
  · exact absurd rfl hprompt.1
  · have hbuffer := h.buffer hidle
    exact ⟨hbuffer.1,hbuffer.2⟩
  · exact h.flush
  · exact (h.finish hworking).1
  · by_cases hactive : s.buffering = true
    · have hflushed := @flush_active _ _ _ c
        {s with timers := s.timers.filter fun live => live.1 ≠ timer} hactive
      refine ⟨?_,fun other hother => ?_⟩
      · rw [hflushed.2.1]
        exact Nat.zero_le _
      · rw [hflushed.2.2.2.1] at hother
        cases hother
    · have hinactive := Bool.eq_false_iff.mpr hactive
      have hstays : EventBuffer.flush c {s with timers := s.timers.filter fun live => live.1 ≠ timer} =
          {s with timers := s.timers.filter fun live => live.1 ≠ timer} := flush_inactive hinactive
      rw [hstays]
      refine ⟨h.count,fun other hother => List.mem_filter.mpr ⟨h.live other hother,?_⟩⟩
      have hne : other ≠ timer := by
        rintro rfl
        exact hprompt.2 ⟨other,rfl,h.live other hother,hinactive⟩
      simpa using hne

theorem idle_makeEventBuffer : Idle (makeEventBuffer c) := ⟨fun _ => rfl,fun _ => rfl⟩

/-- Once the buffer was inactive without a quick timer, and no plain `buffer` call and
no quick timer on an inactive buffer has come since, a completed function that leaves
the buffer active and is the last one running leaves a live quick timer, whose firing
releases the buffer. -/
theorem quick_flush_follows {first second : List (Action O)} {mid s next : State ρ σ}
    (hfirst : run (step c) (makeEventBuffer c) first = some mid) (hinactive : mid.buffering = false)
    (hhandle : mid.flushPendingTimeout = none) (hprompt : Guarded (step c) Prompt mid second)
    (hsecond : run (step c) mid second = some s) (hfinish : step c s .finishBuffered = some next)
    (hactive : next.buffering = true) (hlast : next.working = 0) :
    ∃ timer, (timer,TimerKind.quick) ∈ next.timers ∧
      ∃ flushed, step c next (.fire timer) = some flushed ∧ flushed.buffering = false := by
  have hmid : Idle mid := run_invariant (fun _ _ _ h hs => Idle.step h hs) hfirst idle_makeEventBuffer
  have hquick : Quick mid := by
    refine ⟨?_,fun timer htimer => ?_⟩
    · rw [hmid.count hinactive]
      exact Nat.zero_le _
    · rw [hhandle] at htimer
      cases htimer
  have hboth : Idle s ∧ Quick s := by
    refine run_guarded_invariant (P := fun s => Idle s ∧ Quick s) ?_ hprompt hsecond ⟨hmid,hquick⟩
    exact fun s a next h hp hs => ⟨h.1.step hs,h.2.step h.1 hp hs⟩
  rw [step] at hfinish
  split at hfinish
  · rename_i hguard
    cases hfinish
    obtain ⟨timer,htimer⟩ := (hboth.2.finish hguard.2).2 hlast
    have hflushed : (flush c {finishBuffered s with
        timers := (finishBuffered s).timers.filter fun live => live.1 ≠ timer}).buffering = false :=
      (@flush_active _ _ _ c {finishBuffered s with
        timers := (finishBuffered s).timers.filter fun live => live.1 ≠ timer} hactive).1
    refine ⟨timer,htimer,_,?_,hflushed⟩
    have hstack : (finishBuffered s).stack.isEmpty = true := by
      unfold finishBuffered
      dsimp only
      split
      · exact hguard.1
      · exact hguard.1
    have hany : (finishBuffered s).timers.any (fun live => live.1 = timer) = true :=
      List.any_eq_true.mpr ⟨_,htimer,by simp⟩
    rw [step,if_pos ⟨hstack,hany⟩]
  · cases hfinish

/-- A buffered function on a new buffer. -/
theorem quick_flush_follows_alone : ∃ next, run (step plainChannels)
    (makeEventBuffer plainChannels) [.startBuffered,.finishBuffered] = some next ∧
    ∃ timer, (timer,TimerKind.quick) ∈ next.timers := by
  refine ⟨_,rfl,?_⟩
  have hprompt : Guarded (step plainChannels) Prompt (makeEventBuffer plainChannels)
      [.startBuffered] := by
    refine ⟨⟨fun h => (by cases h),?_⟩,fun _ _ => trivial⟩
    rintro ⟨timer,h,_⟩
    cases h
  obtain ⟨timer,htimer,_⟩ := @quick_flush_follows _ _ _ plainChannels [] [.startBuffered] _ _ _ rfl rfl rfl hprompt rfl rfl rfl rfl
  exact ⟨timer,htimer⟩

/-- A plain call of `buffer` holds the buffer after the only function completed. -/
theorem quick_flush_held : ∃ next, run (step plainChannels)
    (makeEventBuffer plainChannels) [.buffer,.startBuffered,.finishBuffered] = some next ∧
    next.buffering = true ∧ next.working = 0 ∧ ¬∃ timer, (timer,TimerKind.quick) ∈ next.timers := by
  refine ⟨_,rfl,rfl,rfl,?_⟩
  rintro ⟨timer,htimer⟩
  have htimers : (timer,TimerKind.quick) ∈ [(0,TimerKind.safety)] := htimer
  cases List.mem_singleton.mp htimers

end Quick

end Baileyrs.EventBuffer
