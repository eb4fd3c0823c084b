import Baileyrs.LabelledRuns
import Mathlib.Data.Int.Notation

/-!
# Flushing the fallback logger

Lines are counted until the sink has delivered them, and a flush is answered when none is left.
-/

namespace Baileyrs.FallbackFlush

open LabelledRuns

/-- Writes and flushes; a callback stands for the lines written before its flush. -/
structure State where
  /-- Lines written. -/
  written : ℕ
  /-- Lines that have not settled. -/
  unsettled : List ℕ
  /-- Their count. -/
  fallbackPendingWrites : ℤ
  /-- Callbacks that wait. -/
  fallbackFlushWaiters : List ℕ
  /-- Callbacks that no longer do. -/
  resuming : List ℕ
  /-- Callbacks that were called. -/
  called : List ℕ
  /-- Flushes. -/
  flushes : ℕ

/-- Calls of the loggers and of the sinks; a callback may make any of them. -/
inductive Action where
  | write
  | delivered (line : ℕ)
  | flush
  | resume

/-- A line goes to the sink. -/
def writeFallbackLine (s : State) : State :=
  {s with
    written := s.written+1, unsettled := s.written::s.unsettled, fallbackPendingWrites := s.fallbackPendingWrites+1}

/-- One line less; the last one takes the callbacks that wait. -/
def noteFallbackDelivered (s : State) : State :=
  let s := {s with fallbackPendingWrites := s.fallbackPendingWrites-1}
  if s.fallbackPendingWrites = 0 then
    {s with fallbackFlushWaiters := [], resuming := s.fallbackFlushWaiters++s.resuming}
  else s

/-- A sink reports a line or throws, which counts once. -/
def delivered (s : State) (line : ℕ) : State :=
  if line ∈ s.unsettled then noteFallbackDelivered {s with unsettled := s.unsettled.erase line} else s

/-- A flush calls back at once or waits. -/
def flush (s : State) : State :=
  let s := {s with flushes := s.flushes+1}
  if s.fallbackPendingWrites = 0 then {s with called := s.called++[s.written]}
  else {s with fallbackFlushWaiters := s.fallbackFlushWaiters++[s.written]}

/-- One step. -/
def step (s : State) : Action → Option State
  | .write => some (writeFallbackLine s)
  | .delivered line => some (delivered s line)
  | .flush => some (flush s)
  | .resume => match s.resuming with
    | [] => none
    | lines::rest => some {s with resuming := rest, called := s.called++[lines]}

/-- A callback is called once, after the lines written before its flush have settled, and none waits without a line. -/
structure Drained (s : State) : Prop where
  /-- The count is exact. -/
  count : s.fallbackPendingWrites = s.unsettled.length
  /-- Earlier lines have settled. -/
  settled : ∀ lines, lines ∈ s.called ∨ lines ∈ s.resuming → ∀ line ∈ s.unsettled, lines ≤ line
  /-- Every flush has one callback. -/
  once : s.called.length+s.resuming.length+s.fallbackFlushWaiters.length = s.flushes
  /-- Waiting is for a line. -/
  waits : s.unsettled = [] → s.fallbackFlushWaiters = []
  /-- Flushes come after what was written. -/
  given : ∀ lines, lines ∈ s.called ∨ lines ∈ s.resuming ∨ lines ∈ s.fallbackFlushWaiters → lines ≤ s.written

theorem step_drained {s next : State} (a : Action) (h : Drained s) (hs : step s a = some next) : Drained next := by
  obtain ⟨hcount,hsettled,honce,hwaits,hgiven⟩ := h
  cases a with
  | write =>
    cases hs
    refine ⟨?_,?_,honce,?_,?_⟩ <;> grind [writeFallbackLine]
  | delivered line =>
    cases hs
    unfold delivered
    split
    · have hlength := List.length_erase_of_mem ‹line ∈ s.unsettled›
      have hpositive := List.length_pos_of_mem ‹line ∈ s.unsettled›
      have hlast : s.fallbackPendingWrites-1 = 0 ↔ s.unsettled.erase line = [] := by
        rw [← List.length_eq_zero_iff]
        omega
      unfold noteFallbackDelivered
      dsimp only
      split <;> refine ⟨?_,?_,?_,?_,?_⟩ <;> grind
    · exact ⟨hcount,hsettled,honce,hwaits,hgiven⟩
  | flush =>
    cases hs
    unfold flush
    dsimp only
    split <;> refine ⟨?_,?_,?_,?_,?_⟩ <;> grind
  | resume =>
    simp only [step] at hs
    split at hs
    · cases hs
    · cases hs
      refine ⟨?_,?_,?_,?_,?_⟩ <;> grind

/-- Every run keeps to it, whatever the sinks and the callbacks do. -/
theorem flushes_drained (labels : List Action) : Throughout step Drained ⟨0,[],0,[],[],[],0⟩ labels :=
  throughout_invariant (fun _ a _ => step_drained a) (fun _ h => h)
    ⟨rfl,by simp,rfl,fun _ => rfl,by simp⟩ labels

end Baileyrs.FallbackFlush
