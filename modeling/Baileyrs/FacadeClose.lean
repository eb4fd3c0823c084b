import Baileyrs.LabelledRuns

/-!
# Closing the web socket facade

A close disconnects the client once, and another close joins it as long as it is not over.
What happens in between is up to the client: a disconnect may call back, fail, or take its
time while others close or connect.
-/

namespace Baileyrs.WebSocketClient

open LabelledRuns

section Model

/-- Work of one close. -/
inductive Work where
  /-- A microtask that has not run. -/
  | deferred
  /-- The disconnect of the client has been called and has not settled. -/
  | disconnecting
  /-- The disconnect has settled, or there was no client. -/
  | returned (failed : Bool)
  /-- The facade is closed. -/
  | finished (failed : Bool)
  /-- The promise of the work has settled. -/
  | settled (failed : Bool)
  deriving DecidableEq

/-- Phases of the facade; a settled one has the work whose promise it carries. -/
inductive CloseState where
  /-- Open. -/
  | opened
  /-- A close is going on. -/
  | closing (work : ℕ)
  /-- Closed. -/
  | closed (work : ℕ)
  deriving DecidableEq

/-- A promise that a call of close returned. -/
structure CloseCall where
  /-- The work that it joined. -/
  joined : ℕ
  /-- It has settled. -/
  isSettled : Bool

/-- The facade. -/
structure Closing where
  /-- Its phase. -/
  closeState : CloseState
  /-- Work of all closes, oldest first. -/
  works : List Work
  /-- Calls of close. -/
  calls : List CloseCall

/-- A facade that nobody has closed. -/
def Closing.fresh : Closing := ⟨.opened,[],[]⟩

/-- What happens to the facade. -/
inductive CloseEvent where
  /-- Somebody closes, perhaps from inside the disconnect. -/
  | close
  /-- Somebody connects; it is told whether there is a client that is not connected. -/
  | connect (disconnected : Bool)
  /-- The microtask of a work runs, with a client or without one. -/
  | start (work : ℕ) (hasClient : Bool)
  /-- A disconnect throws, fulfills or rejects. -/
  | settle (work : ℕ) (failed : Bool)
  /-- A work goes on behind its disconnect. -/
  | finish (work : ℕ)
  /-- The promise of a work settles. -/
  | resolve (work : ℕ)
  /-- The promise of a call settles. -/
  | answer (call : ℕ)

/-- Close the facade. -/
def Closing.close (s : Closing) : Closing :=
  match s.closeState with
  | .opened => ⟨.closing s.works.length,s.works++[.deferred],s.calls++[⟨s.works.length,false⟩]⟩
  | .closing work => { s with calls := s.calls++[⟨work,false⟩] }
  | .closed work => { s with calls := s.calls++[⟨work,false⟩] }

/-- Connect the facade. -/
def Closing.connect (s : Closing) (disconnected : Bool) : Closing :=
  if !disconnected then s
  else
    match s.closeState with
    | .closing _ => s
    | _ => { s with closeState := .opened }

/-- One step of the facade. -/
def closeStep (s : Closing) : CloseEvent → Option Closing
  | .close => some s.close
  | .connect disconnected => some (s.connect disconnected)
  | .start work hasClient =>
    match s.works[work]? with
    | some .deferred => some { s with works := s.works.set work (if hasClient then .disconnecting else .returned false) }
    | _ => none
  | .settle work failed =>
    match s.works[work]? with
    | some .disconnecting => some { s with works := s.works.set work (.returned failed) }
    | _ => none
  | .finish work =>
    match s.works[work]? with
    | some (.returned failed) => some { s with works := s.works.set work (.finished failed), closeState := .closed work }
    | _ => none
  | .resolve work =>
    match s.works[work]? with
    | some (.finished failed) => some { s with works := s.works.set work (.settled failed) }
    | _ => none
  | .answer call =>
    match s.calls[call]? with
    | some ⟨joined,false⟩ =>
      match s.works[joined]? with
      | some (.settled _) => some { s with calls := s.calls.set call ⟨joined,true⟩ }
      | _ => none
    | _ => none

/-- Disconnects that have been called and have not settled. -/
def Closing.inFlight (s : Closing) : ℕ := s.works.count .disconnecting

/-- Neither waiting for its microtask nor for its disconnect. -/
def Work.isOver : Work → Bool
  | .deferred => false
  | .disconnecting => false
  | _ => true

end Model

section Invariant

/-- Work behind which the facade has been closed. -/
def Work.isPast : Work → Bool
  | .finished _ => true
  | .settled _ => true
  | _ => false

/-- Only the work of a close that is going on is not past, and a call settles behind its work. -/
structure Closing.Sound (s : Closing) : Prop where
  /-- Every work is past but that of the close that is going on. -/
  past : ∀ i work, s.works[i]? = some work → work.isPast = true ∨ s.closeState = .closing i
  /-- A call that has settled joined a work that has. -/
  answered : ∀ call ∈ s.calls, call.isSettled = true → ∃ failed, s.works[call.joined]? = some (.settled failed)

theorem sound_fresh : Closing.fresh.Sound :=
  ⟨(fun _ _ h => nomatch h),fun _ h => absurd h List.not_mem_nil⟩

variable {s : Closing} {i : ℕ} {old work : Work} {closeState : CloseState}

/-- A call that has settled is left behind a work that goes on. -/
theorem Closing.Sound.answered_set (h : s.Sound) (hold : s.works[i]? = some old) (hpending : ∀ failed, old ≠ .settled failed) :
    ∀ call ∈ s.calls, call.isSettled = true → ∃ failed, (s.works.set i work)[call.joined]? = some (.settled failed) := by
  intro call hcall hsettled
  obtain ⟨failed,hfailed⟩ := h.answered call hcall hsettled
  have hne : i ≠ call.joined := by
    intro heq
    rw [heq,hfailed] at hold
    exact hpending failed (Option.some.inj hold).symm
  exact ⟨failed,(List.getElem?_set_ne hne).trans hfailed⟩

/-- A work of the close that is going on goes on. -/
theorem Closing.Sound.pending (h : s.Sound) (hold : s.works[i]? = some old) (hpast : old.isPast = false) :
    s.closeState = .closing i := by
  cases h.past i old hold with
  | inl hover =>
    rw [hpast] at hover
    cases hover
  | inr hclosing => exact hclosing

/-- The work of a close that is going on takes one more step. -/
theorem Closing.Sound.advance (h : s.Sound) (hold : s.works[i]? = some old) (hpast : old.isPast = false) :
    Closing.Sound { s with works := s.works.set i work } := by
  have hclosing := h.pending hold hpast
  refine ⟨fun j other hj => ?_,h.answered_set hold fun failed heq => ?_⟩
  · by_cases hij : i = j
    · rw [← hij]
      exact .inr hclosing
    · rw [List.getElem?_set_ne hij] at hj
      exact h.past j other hj
  · rw [heq] at hpast
    cases hpast

/-- Once it is past, every work is, whatever the phase. -/
theorem Closing.Sound.complete (h : s.Sound) (hold : s.works[i]? = some old) (hpast : old.isPast = false) (hwork : work.isPast = true) :
    Closing.Sound { s with works := s.works.set i work, closeState := closeState } := by
  have hclosing := h.pending hold hpast
  refine ⟨fun j other hj => .inl ?_,h.answered_set hold fun failed heq => ?_⟩
  · by_cases hij : i = j
    · have hlt := (List.getElem?_eq_some_iff.mp hold).1
      rw [← hij,List.getElem?_set_self hlt] at hj
      rw [← Option.some.inj hj]
      exact hwork
    · rw [List.getElem?_set_ne hij] at hj
      cases h.past j other hj with
      | inl hover => exact hover
      | inr hother =>
        rw [hclosing] at hother
        exact absurd (CloseState.closing.inj hother) hij
  · rw [heq] at hpast
    cases hpast

theorem Closing.Sound.joins (h : s.Sound) (joined : ℕ) : Closing.Sound { s with calls := s.calls++[⟨joined,false⟩] } := by
  refine ⟨h.past,fun call hcall hsettled => ?_⟩
  cases List.mem_append.mp hcall with
  | inl hbefore => exact h.answered call hbefore hsettled
  | inr hnew =>
    rw [List.mem_singleton.mp hnew] at hsettled
    cases hsettled

/-- A close starts a work where every other one is past, or joins one. -/
theorem Closing.Sound.close (h : s.Sound) : s.close.Sound := by
  unfold Closing.close
  split
  · rename_i hopened
    have hstart : Closing.Sound ⟨.closing s.works.length,s.works++[.deferred],s.calls⟩ := by
      refine ⟨fun j other hj => ?_,fun call hcall hsettled => ?_⟩
      · by_cases hlt : j < s.works.length
        · rw [List.getElem?_append_left hlt] at hj
          cases h.past j other hj with
          | inl hover => exact .inl hover
          | inr hclosing =>
            rw [hopened] at hclosing
            cases hclosing
        · have hbound := (List.getElem?_eq_some_iff.mp hj).1
          rw [List.length_append,List.length_singleton] at hbound
          have hlast : s.works.length = j := by omega
          exact .inr (congrArg CloseState.closing hlast)
      · obtain ⟨failed,hfailed⟩ := h.answered call hcall hsettled
        have hlt := (List.getElem?_eq_some_iff.mp hfailed).1
        exact ⟨failed,(List.getElem?_append_left hlt).trans hfailed⟩
    exact hstart.joins s.works.length
  · exact h.joins _
  · exact h.joins _

theorem Closing.Sound.connect (h : s.Sound) (disconnected : Bool) : (s.connect disconnected).Sound := by
  unfold Closing.connect
  split
  · exact h
  · split
    · exact h
    · rename_i hphase
      refine ⟨fun j other hj => ?_,h.answered⟩
      cases h.past j other hj with
      | inl hover => exact .inl hover
      | inr hclosing => exact absurd hclosing (hphase j)

/-- Every step keeps the facade sound. -/
theorem closeStep_sound (s : Closing) (event : CloseEvent) (next : Closing) (h : s.Sound) (hstep : closeStep s event = some next) :
    next.Sound := by
  cases event with
  | close =>
    cases hstep
    exact h.close
  | connect disconnected =>
    cases hstep
    exact h.connect disconnected
  | start i hasClient =>
    rw [closeStep] at hstep
    split at hstep
    · rename_i hold
      cases hstep
      exact h.advance hold rfl
    · cases hstep
  | settle i failed =>
    rw [closeStep] at hstep
    split at hstep
    · rename_i hold
      cases hstep
      exact h.advance hold rfl
    · cases hstep
  | finish i =>
    rw [closeStep] at hstep
    split at hstep
    · rename_i failed hold
      cases hstep
      exact h.complete hold rfl rfl
    · cases hstep
  | resolve i =>
    rw [closeStep] at hstep
    split at hstep
    · rename_i failed hold
      cases hstep
      refine ⟨fun j other hj => ?_,h.answered_set hold fun other heq => Work.noConfusion heq⟩
      by_cases hij : i = j
      · have hlt := (List.getElem?_eq_some_iff.mp hold).1
        rw [← hij,List.getElem?_set_self hlt] at hj
        rw [← Option.some.inj hj]
        exact .inl rfl
      · rw [List.getElem?_set_ne hij] at hj
        exact h.past j other hj
    · cases hstep
  | answer j =>
    rw [closeStep] at hstep
    split at hstep
    · rename_i joined hcall
      split at hstep
      · rename_i failed hwork
        cases hstep
        refine ⟨h.past,fun call hmem hsettled => ?_⟩
        cases List.mem_or_eq_of_mem_set hmem with
        | inl hbefore => exact h.answered call hbefore hsettled
        | inr hnew =>
          rw [hnew]
          exact ⟨failed,hwork⟩
      · cases hstep
    · cases hstep

/-- What stands at one place at most is counted once at most. -/
theorem count_le_one {α : Type} [DecidableEq α] {x : α} {items : List α}
    (h : ∀ i j : ℕ, items[i]? = some x → items[j]? = some x → i = j) : items.count x ≤ 1 := by
  induction items with
  | nil => exact Nat.zero_le 1
  | cons y rest ih =>
    have hrest : rest.count x ≤ 1 := ih fun i j hi hj => Nat.succ_inj.mp (h (i+1) (j+1) hi hj)
    by_cases hy : y = x
    · have hnone : rest.count x = 0 := by
        refine List.count_eq_zero.mpr fun hmem => ?_
        obtain ⟨i,hi⟩ := List.getElem?_of_mem hmem
        have hplace := h 0 (i+1) (congrArg some hy) hi
        omega
      rw [hy,List.count_cons_self]
      omega
    · rw [List.count_cons_of_ne hy]
      exact hrest

/-- No two disconnects are in flight. -/
theorem Closing.Sound.inFlight_le (h : s.Sound) : s.inFlight ≤ 1 := by
  refine count_le_one fun i j hi hj => ?_
  have hboth := (h.pending hi rfl).symm.trans (h.pending hj rfl)
  exact CloseState.closing.inj hboth

/-- A call that has settled joined a disconnect that has. -/
theorem Closing.Sound.isOver (h : s.Sound) : ∀ call ∈ s.calls, call.isSettled = true →
    ∃ work, s.works[call.joined]? = some work ∧ work.isOver = true := by
  intro call hcall hsettled
  obtain ⟨failed,hfailed⟩ := h.answered call hcall hsettled
  exact ⟨_,hfailed,rfl⟩

/-- In every run at most one disconnect is in flight, and calls settle behind theirs. -/
theorem run_closing {s : Closing} {events : List CloseEvent} (hrun : run closeStep Closing.fresh events = some s) : s.Sound :=
  run_invariant closeStep_sound hrun sound_fresh

end Invariant

end Baileyrs.WebSocketClient
