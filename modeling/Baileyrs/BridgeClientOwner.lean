import Baileyrs.LabelledRuns
import Mathlib.Data.List.Nodup

/-!
# Bridge client owner

One state holds the client while it is starting, running or closing. Closing is
entered at once, before any teardown work; the work itself runs in a microtask,
then the client is released, then every release started elsewhere is joined. A
client offered too late, or discarded, is released on the side.
-/

namespace Baileyrs.BridgeClientOwner

open LabelledRuns

/-- Phase of the client, with the promise of a close. -/
inductive Phase (C : Type*) where
  | starting
  | running (client : C)
  | closing (client : Option C) (done : ℕ)
  | closed (done : ℕ)

/-- Where the work of a close stands. -/
inductive CloseTask (C : Type*) where
  | idle
  | scheduled (client : Option C)
  | tearing (client : Option C)
  | releasing (client : C)
  | draining (joined : List C)
  | drained (before : List C)
  | settled (before : List C)

/-- A drain of the releases started on the side. -/
inductive Drain (C : Type*) where
  | joining (joined : List C)
  | ended

/-- State of an owner, with what it was handed and what it has called. -/
structure Owner (C : Type*) where
  /-- Phase of the client. -/
  phase : Phase C
  /-- Work of the close. -/
  task : CloseTask C
  /-- Releases on the side that have not been removed yet. -/
  pendingReleases : List C
  /-- Promises made so far. -/
  promises : ℕ
  /-- Promises that close has returned. -/
  returned : List ℕ
  /-- Drains of the callers that wait for the releases. -/
  waiters : List (Drain C)
  /-- Clients handed to adopt. -/
  handed : List C
  /-- Clients whose release was called. -/
  released : List C
  /-- Clients whose release has settled. -/
  finished : List C
  /-- Times teardown was called. -/
  teardowns : ℕ

variable {C : Type*}

/-- A new owner. -/
def start : Owner C := ⟨.starting,.idle,[],0,[],[],[],[],[],0⟩

/-- Release a client on the side. -/
def trackRelease (s : Owner C) (client : C) : Owner C :=
  {s with released := s.released++[client], pendingReleases := s.pendingReleases++[client]}

/-- The client teardown can still reach. -/
def peek (s : Owner C) : Option C :=
  match s.phase with
  | .running client => some client
  | .closing client _ => client
  | _ => none

/-- Whether a close was called. -/
def isClosing (s : Owner C) : Bool :=
  match s.phase with
  | .closing _ _ => true
  | .closed _ => true
  | _ => false

/-- Hand over a client; it is installed only while starting. -/
def adopt (s : Owner C) (candidate : C) : Owner C × Bool :=
  let s := {s with handed := s.handed++[candidate]}
  match s.phase with
  | .starting => ({s with phase := .running candidate},true)
  | _ => (trackRelease s candidate,false)

/-- Start closing with the client there is; the work is left to a microtask. -/
def startClose (s : Owner C) (client : Option C) : Owner C × ℕ :=
  ({s with
    phase := .closing client s.promises
    task := .scheduled client
    promises := s.promises+1
    returned := s.returned++[s.promises]},s.promises)

/-- Start closing, or join the close under way; returns its promise. -/
def close (s : Owner C) : Owner C × ℕ :=
  match s.phase with
  | .closing _ done => ({s with returned := s.returned++[done]},done)
  | .closed done => ({s with returned := s.returned++[done]},done)
  | .running client => startClose s (some client)
  | .starting => startClose s none

/-- Drop the client without a teardown; during a close it only waits. -/
def discard (s : Owner C) : Owner C :=
  match s.phase with
  | .running client => trackRelease {s with phase := .starting} client
  | _ => s

/-- Wait for the releases on the side. -/
def drainReleases (s : Owner C) : Drain C :=
  match s.pendingReleases with
  | [] => .ended
  | pending => .joining pending

/-- The close waits for the releases on the side. -/
def drainClose (s : Owner C) : Owner C :=
  match drainReleases s with
  | .ended => {s with task := .drained s.released}
  | .joining joined => {s with task := .draining joined}

/-- Teardown ended, with or without a failure: hand the client back. -/
def finishTeardown (s : Owner C) (client : Option C) (done : ℕ) : Owner C :=
  let s := {s with phase := .closed done}
  match client with
  | some client => {s with task := .releasing client, released := s.released++[client]}
  | none => drainClose s

/-- The microtask of a close calls teardown, which may throw at once. -/
def startTeardown (s : Owner C) (throws : Bool) : Option (Owner C) :=
  match s.task,s.phase with
  | .scheduled client,.closing _ done =>
    let s := {s with task := .tearing client, teardowns := s.teardowns+1}
    some (if throws then finishTeardown s client done else s)
  | _,_ => none

/-- Teardown's promise settles. -/
def teardownSettles (s : Owner C) : Option (Owner C) :=
  match s.task,s.phase with
  | .tearing client,.closing _ done => some (finishTeardown s client done)
  | _,_ => none

variable [DecidableEq C]

/-- A release settles; a failure is only logged. -/
def releaseSettles (s : Owner C) (client : C) : Option (Owner C) :=
  if client ∈ s.released ∧ client ∉ s.finished then
    some {s with finished := s.finished++[client]}
  else none

/-- A settled release on the side is removed. -/
def releaseDeleted (s : Owner C) (client : C) : Option (Owner C) :=
  if client ∈ s.pendingReleases ∧ client ∈ s.finished then
    some {s with pendingReleases := s.pendingReleases.erase client}
  else none

/-- The close goes on: after its own release, after the releases it joined, and at
last by settling its promise. -/
def closeTurn (s : Owner C) : Option (Owner C) :=
  match s.task with
  | .releasing client => if client ∈ s.finished then some (drainClose s) else none
  | .draining joined =>
    if ∀ client ∈ joined, client ∉ s.pendingReleases then some (drainClose s) else none
  | .drained before => some {s with task := .settled before}
  | _ => none

/-- A caller that waits for the releases goes on. -/
def waiterTurn (s : Owner C) (n : ℕ) : Option (Owner C) :=
  match s.waiters[n]? with
  | some (.joining joined) =>
    if ∀ client ∈ joined, client ∉ s.pendingReleases then
      some {s with waiters := s.waiters.set n (drainReleases s)}
    else none
  | _ => none

/-- A call on the owner, or what goes on by itself. -/
inductive Label (C : Type*) where
  | adopt (candidate : C)
  | close
  | discard
  | settled
  | startTeardown (throws : Bool)
  | teardownSettles
  | releaseSettles (client : C)
  | releaseDeleted (client : C)
  | closeTurn
  | waiterTurn (n : ℕ)

/-- One step; a client is handed over at most once. -/
def step (s : Owner C) : Label C → Option (Owner C)
  | .adopt candidate => if candidate ∈ s.handed then none else some (adopt s candidate).1
  | .close => some (close s).1
  | .discard => some (discard s)
  | .settled => some {s with waiters := s.waiters++[drainReleases s]}
  | .startTeardown throws => startTeardown s throws
  | .teardownSettles => teardownSettles s
  | .releaseSettles client => releaseSettles s client
  | .releaseDeleted client => releaseDeleted s client
  | .closeTurn => closeTurn s
  | .waiterTurn n => waiterTurn s n

/-- The owner after any calls. -/
def Reached (s : Owner C) : Prop := Reachable step (· = start) s

/-- Clients the owner still has to release. -/
def held : Phase C → CloseTask C → List C
  | .running client,_ => [client]
  | _,.scheduled client => client.toList
  | _,.tearing client => client.toList
  | _,_ => []

/-- How the work of a close follows the phase. -/
def Follows : Phase C → CloseTask C → ℕ → List ℕ → Prop
  | .closing client done,.scheduled target,teardowns,returned =>
    target = client ∧ teardowns = 0 ∧ ∀ promise ∈ returned, promise = done
  | .closing client done,.tearing target,teardowns,returned =>
    target = client ∧ teardowns = 1 ∧ ∀ promise ∈ returned, promise = done
  | .closing _ _,_,_,_ => False
  | .closed done,.releasing _,teardowns,returned =>
    teardowns = 1 ∧ ∀ promise ∈ returned, promise = done
  | .closed done,.draining _,teardowns,returned =>
    teardowns = 1 ∧ ∀ promise ∈ returned, promise = done
  | .closed done,.drained _,teardowns,returned =>
    teardowns = 1 ∧ ∀ promise ∈ returned, promise = done
  | .closed done,.settled _,teardowns,returned =>
    teardowns = 1 ∧ ∀ promise ∈ returned, promise = done
  | .closed _,_,_,_ => False
  | _,.idle,teardowns,returned => teardowns = 0 ∧ returned = []
  | _,_,_,_ => False

/-- Every released client is accounted for: settled, on the side, or the close's own. -/
def InFlight (s : Owner C) : Prop :=
  ∀ client ∈ s.released, client ∈ s.finished ∨ client ∈ s.pendingReleases ∨
    s.task = .releasing client

/-- What every run keeps. -/
structure Consistent (s : Owner C) : Prop where
  /-- A client handed over is held or was released. -/
  account : ∀ client, s.handed.count client =
    (held s.phase s.task).count client + s.released.count client
  /-- Every client is handed over once. -/
  distinct : s.handed.Nodup
  /-- Releases are accounted for. -/
  inFlight : InFlight s
  /-- The close follows the phase. -/
  follows : Follows s.phase s.task s.teardowns s.returned
  /-- What was released before the drain ended has settled. -/
  joined : ∀ before, s.task = .drained before ∨ s.task = .settled before →
    ∀ client ∈ before, client ∈ s.finished

omit [DecidableEq C] in
/-- Releasing a client on the side keeps the releases accounted for. -/
theorem inFlight_trackRelease {s : Owner C} (h : InFlight s) (client : C) : InFlight (trackRelease s client) := by
  intro other hother
  dsimp only [trackRelease] at hother ⊢
  rw [List.mem_append,List.mem_singleton] at hother
  rcases hother with hother | rfl
  · rcases h other hother with hfinished | hpending | htask
    · exact .inl hfinished
    · exact .inr (.inl (List.mem_append_left _ hpending))
    · exact .inr (.inr htask)
  · exact .inr (.inl (List.mem_append_right _ (List.mem_singleton_self _)))

/-- A client that is refused is released on the side. -/
theorem Consistent.refuse {s : Owner C} (h : Consistent s) {candidate : C} (hdistinct : (s.handed++[candidate]).Nodup) :
    Consistent (trackRelease {s with handed := s.handed++[candidate]} candidate) := by
  refine ⟨?_,hdistinct,inFlight_trackRelease h.inFlight candidate,h.follows,h.joined⟩
  intro client
  have haccount := h.account client
  dsimp only [trackRelease]
  rw [List.count_append,List.count_append]
  omega

/-- Handing over a client accounts for it. -/
theorem Consistent.adopt {s : Owner C} (h : Consistent s) {candidate : C}
    (hnew : candidate ∉ s.handed) : Consistent (adopt s candidate).1 := by
  have hdistinct : (s.handed++[candidate]).Nodup := by
    rw [List.nodup_append]
    refine ⟨h.distinct,List.nodup_cons.mpr ⟨List.not_mem_nil,List.nodup_nil⟩,?_⟩
    intro first hfirst second hsecond heq
    rw [List.mem_singleton] at hsecond
    rw [heq,hsecond] at hfirst
    exact hnew hfirst
  have hrefused := h.refuse hdistinct
  rcases s with ⟨phase,task,pendingReleases,promises,returned,waiters,handed,released,finished,
    teardowns⟩
  cases phase with
  | starting =>
    have hfollows := h.follows
    cases task with
    | idle =>
      refine ⟨?_,hdistinct,h.inFlight,hfollows,h.joined⟩
      intro client
      have haccount := h.account client
      dsimp only [BridgeClientOwner.adopt,BridgeClientOwner.held] at haccount ⊢
      rw [List.count_append]
      rw [List.count_nil] at haccount
      omega
    | _ => exact hfollows.elim
  | running client => exact hrefused
  | closing client done => exact hrefused
  | closed done => exact hrefused

/-- The first close takes the client over. -/
theorem Consistent.startClose {s : Owner C} (h : Consistent s) {client : Option C}
    (hheld : held s.phase s.task = client.toList) (hidle : s.teardowns = 0 ∧ s.returned = [])
    (htask : s.task = .idle) : Consistent (startClose s client).1 := by
  refine ⟨?_,h.distinct,?_,?_,?_⟩
  · intro other
    have haccount := h.account other
    rw [hheld] at haccount
    exact haccount
  · intro other hother
    rcases h.inFlight other hother with hfinished | hpending | hreleasing
    · exact .inl hfinished
    · exact .inr (.inl hpending)
    · rw [htask] at hreleasing
      cases hreleasing
  · refine ⟨rfl,hidle.1,?_⟩
    intro promise hpromise
    dsimp only [BridgeClientOwner.startClose] at hpromise ⊢
    rw [hidle.2] at hpromise
    exact List.mem_singleton.mp hpromise
  · intro before hbefore
    rcases hbefore with hbefore | hbefore
    · cases hbefore
    · cases hbefore

omit [DecidableEq C] in
/-- A later close returns the promise of the first. -/
theorem Follows.join {phase : Phase C} {task : CloseTask C} {teardowns done : ℕ}
    {returned : List ℕ} (h : Follows phase task teardowns returned)
    (hdone : (∃ client, phase = .closing client done) ∨ phase = .closed done) :
    Follows phase task teardowns (returned++[done]) := by
  have hall : (∀ promise ∈ returned, promise = done) →
      ∀ promise ∈ returned++[done], promise = done := by
    intro hreturned promise hpromise
    rw [List.mem_append,List.mem_singleton] at hpromise
    rcases hpromise with hpromise | hpromise
    · exact hreturned promise hpromise
    · exact hpromise
  rcases hdone with ⟨client,rfl⟩ | rfl
  · cases task with
    | scheduled target => exact ⟨h.1,h.2.1,hall h.2.2⟩
    | tearing target => exact ⟨h.1,h.2.1,hall h.2.2⟩
    | _ => exact h.elim
  · cases task with
    | releasing client => exact ⟨h.1,hall h.2⟩
    | draining joined => exact ⟨h.1,hall h.2⟩
    | drained before => exact ⟨h.1,hall h.2⟩
    | settled before => exact ⟨h.1,hall h.2⟩
    | _ => exact h.elim

/-- Closing once, or joining the close under way. -/
theorem Consistent.close {s : Owner C} (h : Consistent s) : Consistent (close s).1 := by
  have hfollows := h.follows
  rcases s with ⟨phase,task,pendingReleases,promises,returned,waiters,handed,released,finished,
    teardowns⟩
  cases phase with
  | starting =>
    cases task with
    | idle => exact h.startClose rfl hfollows rfl
    | _ => exact hfollows.elim
  | running client =>
    cases task with
    | idle => exact h.startClose rfl hfollows rfl
    | _ => exact hfollows.elim
  | closing client done =>
    exact ⟨h.account,h.distinct,h.inFlight,hfollows.join (.inl ⟨client,rfl⟩),h.joined⟩
  | closed done => exact ⟨h.account,h.distinct,h.inFlight,hfollows.join (.inr rfl),h.joined⟩

/-- Discarding moves the client to the side. -/
theorem Consistent.discard {s : Owner C} (h : Consistent s) : Consistent (discard s) := by
  have hfollows := h.follows
  rcases s with ⟨phase,task,pendingReleases,promises,returned,waiters,handed,released,finished,
    teardowns⟩
  cases phase with
  | running client =>
    cases task with
    | idle =>
      refine ⟨?_,h.distinct,inFlight_trackRelease h.inFlight client,hfollows,h.joined⟩
      intro other
      have haccount := h.account other
      dsimp only [BridgeClientOwner.discard,trackRelease,held] at haccount ⊢
      rw [List.count_append,List.count_nil]
      omega
    | _ => exact hfollows.elim
  | _ => exact h

/-- Draining: something is left on the side, or everything released has settled. -/
theorem drainClose_consistent {s : Owner C} {done : ℕ} (hphase : s.phase = .closed done)
    (haccount : ∀ client, s.handed.count client = s.released.count client) (hdistinct : s.handed.Nodup)
    (hsettled : ∀ client ∈ s.released, client ∈ s.finished ∨ client ∈ s.pendingReleases)
    (hcalls : s.teardowns = 1 ∧ ∀ promise ∈ s.returned, promise = done) : Consistent (drainClose s) := by
  rcases s with ⟨phase,task,pendingReleases,promises,returned,waiters,handed,released,finished,
    teardowns⟩
  cases hphase
  have hcount : ∀ client, handed.count client = ([] : List C).count client+released.count client := by
    intro client
    have hsame := haccount client
    rw [List.count_nil]
    dsimp only at hsame
    omega
  cases pendingReleases with
  | nil =>
    have hfinished : ∀ client ∈ released, client ∈ finished := by
      intro client hclient
      rcases hsettled client hclient with hfinished | hside
      · exact hfinished
      · cases hside
    refine ⟨hcount,hdistinct,?_,hcalls,?_⟩
    · intro client hclient
      exact .inl (hfinished client hclient)
    · intro before hbefore
      rcases hbefore with hbefore | hbefore
      · cases hbefore
        exact hfinished
      · cases hbefore
  | cons first rest =>
    refine ⟨hcount,hdistinct,?_,hcalls,?_⟩
    · intro client hclient
      rcases hsettled client hclient with hfinished | hside
      · exact .inl hfinished
      · exact .inr (.inl hside)
    · intro before hbefore
      rcases hbefore with hbefore | hbefore
      · cases hbefore
      · cases hbefore

/-- The end of teardown releases the client, or goes straight to the drain. -/
theorem finishTeardown_consistent {s : Owner C} (h : Consistent s) {client : Option C} {done : ℕ}
    (htask : s.task = .tearing client) (hphase : s.phase = .closing client done) :
    Consistent (finishTeardown s client done) := by
  have hfollows := h.follows
  rcases s with ⟨phase,task,pendingReleases,promises,returned,waiters,handed,released,finished,
    teardowns⟩
  cases htask
  cases hphase
  have hcalls : teardowns = 1 ∧ ∀ promise ∈ returned, promise = done := hfollows.2
  have hsettled : ∀ other ∈ released, other ∈ finished ∨ other ∈ pendingReleases := by
    intro other hother
    rcases h.inFlight other hother with hfinished | hpending | hreleasing
    · exact .inl hfinished
    · exact .inr hpending
    · cases hreleasing
  cases client with
  | some client =>
    refine ⟨?_,h.distinct,?_,hcalls,?_⟩
    · intro other
      have haccount := h.account other
      dsimp only [finishTeardown,held,Option.toList] at haccount ⊢
      rw [List.count_append,List.count_nil]
      omega
    · intro other hother
      dsimp only [finishTeardown] at hother ⊢
      rw [List.mem_append,List.mem_singleton] at hother
      rcases hother with hother | rfl
      · rcases hsettled other hother with hfinished | hside
        · exact .inl hfinished
        · exact .inr (.inl hside)
      · exact .inr (.inr rfl)
    · intro before hbefore
      rcases hbefore with hbefore | hbefore
      · cases hbefore
      · cases hbefore
  | none =>
    refine drainClose_consistent rfl ?_ h.distinct hsettled hcalls
    intro other
    have haccount := h.account other
    dsimp only [held,Option.toList] at haccount ⊢
    rw [List.count_nil] at haccount
    omega

/-- The microtask of a close. -/
theorem startTeardown_consistent {s next : Owner C} (h : Consistent s) {throws : Bool}
    (hs : startTeardown s throws = some next) : Consistent next := by
  have hfollows := h.follows
  rcases s with ⟨phase,task,pendingReleases,promises,returned,waiters,handed,released,finished,
    teardowns⟩
  unfold startTeardown at hs
  split at hs
  · rename_i client target done htask hphase
    cases htask
    cases hphase
    have htarget : client = target := hfollows.1
    have hnone : teardowns = 0 := hfollows.2.1
    have hone : teardowns+1 = 1 := by omega
    subst htarget
    have htearing : Consistent ⟨.closing client done,.tearing client,pendingReleases,promises,
        returned,waiters,handed,released,finished,teardowns+1⟩ := by
      refine ⟨h.account,h.distinct,?_,⟨rfl,hone,hfollows.2.2⟩,?_⟩
      · intro other hother
        rcases h.inFlight other hother with hfinished | hpending | hreleasing
        · exact .inl hfinished
        · exact .inr (.inl hpending)
        · cases hreleasing
      · intro before hbefore
        rcases hbefore with hbefore | hbefore
        · cases hbefore
        · cases hbefore
    cases throws with
    | true =>
      cases hs
      exact finishTeardown_consistent htearing rfl rfl
    | false =>
      cases hs
      exact htearing
  · cases hs

/-- Teardown's promise. -/
theorem teardownSettles_consistent {s next : Owner C} (h : Consistent s)
    (hs : teardownSettles s = some next) : Consistent next := by
  have hfollows := h.follows
  unfold teardownSettles at hs
  split at hs
  · rename_i client target done htask hphase
    cases hs
    rw [htask,hphase] at hfollows
    have htarget : client = target := hfollows.1
    subst htarget
    exact finishTeardown_consistent h htask hphase
  · cases hs

/-- A release that settles. -/
theorem releaseSettles_consistent {s next : Owner C} (h : Consistent s) {client : C}
    (hs : releaseSettles s client = some next) : Consistent next := by
  unfold releaseSettles at hs
  split_ifs at hs
  cases hs
  refine ⟨h.account,h.distinct,?_,h.follows,?_⟩
  · intro other hother
    rcases h.inFlight other hother with hfinished | hrest
    · exact .inl (List.mem_append_left _ hfinished)
    · exact .inr hrest
  · intro before hbefore other hother
    exact List.mem_append_left _ (h.joined before hbefore other hother)

/-- A settled release that is removed. -/
theorem releaseDeleted_consistent {s next : Owner C} (h : Consistent s) {client : C}
    (hs : releaseDeleted s client = some next) : Consistent next := by
  unfold releaseDeleted at hs
  split_ifs at hs with hsettled
  cases hs
  refine ⟨h.account,h.distinct,?_,h.follows,h.joined⟩
  intro other hother
  rcases h.inFlight other hother with hfinished | hpending | hreleasing
  · exact .inl hfinished
  · by_cases hsame : other = client
    · subst hsame
      exact .inl hsettled.2
    · exact .inr (.inl ((List.mem_erase_of_ne hsame).mpr hpending))
  · exact .inr (.inr hreleasing)

/-- The close goes on. -/
theorem closeTurn_consistent {s next : Owner C} (h : Consistent s)
    (hs : closeTurn s = some next) : Consistent next := by
  have hfollows := h.follows
  rcases s with ⟨phase,task,pendingReleases,promises,returned,waiters,handed,released,finished,
    teardowns⟩
  cases phase with
  | closed done =>
    cases task with
    | releasing client =>
      simp only [closeTurn] at hs
      split_ifs at hs with hfinished
      cases hs
      refine drainClose_consistent rfl ?_ h.distinct ?_ hfollows
      · intro other
        have haccount := h.account other
        dsimp only [held] at haccount ⊢
        rw [List.count_nil] at haccount
        omega
      · intro other hother
        rcases h.inFlight other hother with hsettled | hpending | hreleasing
        · exact .inl hsettled
        · exact .inr hpending
        · cases hreleasing
          exact .inl hfinished
    | draining joined =>
      simp only [closeTurn] at hs
      split_ifs at hs
      cases hs
      refine drainClose_consistent rfl ?_ h.distinct ?_ hfollows
      · intro other
        have haccount := h.account other
        dsimp only [held] at haccount ⊢
        rw [List.count_nil] at haccount
        omega
      · intro other hother
        rcases h.inFlight other hother with hsettled | hpending | hreleasing
        · exact .inl hsettled
        · exact .inr hpending
        · cases hreleasing
    | drained before =>
      cases hs
      refine ⟨h.account,h.distinct,?_,hfollows,?_⟩
      · intro other hother
        rcases h.inFlight other hother with hsettled | hpending | hreleasing
        · exact .inl hsettled
        · exact .inr (.inl hpending)
        · cases hreleasing
      · intro list hlist
        rcases hlist with hlist | hlist
        · cases hlist
        · cases hlist
          exact h.joined before (.inl rfl)
    | _ => cases hs
  | closing client done =>
    cases task with
    | scheduled target => cases hs
    | tearing target => cases hs
    | _ => exact hfollows.elim
  | _ =>
    cases task with
    | idle => cases hs
    | _ => exact hfollows.elim

/-- Every step keeps the account. -/
theorem step_consistent {s next : Owner C} {label : Label C} (h : Consistent s)
    (hs : step s label = some next) : Consistent next := by
  cases label with
  | adopt candidate =>
    simp only [step] at hs
    split_ifs at hs with hnew
    cases hs
    exact h.adopt hnew
  | close =>
    cases hs
    exact h.close
  | discard =>
    cases hs
    exact h.discard
  | settled =>
    cases hs
    exact ⟨h.account,h.distinct,h.inFlight,h.follows,h.joined⟩
  | startTeardown throws => exact startTeardown_consistent h hs
  | teardownSettles => exact teardownSettles_consistent h hs
  | releaseSettles client => exact releaseSettles_consistent h hs
  | releaseDeleted client => exact releaseDeleted_consistent h hs
  | closeTurn => exact closeTurn_consistent h hs
  | waiterTurn n =>
    simp only [step,waiterTurn] at hs
    split at hs
    · split_ifs at hs
      cases hs
      exact ⟨h.account,h.distinct,h.inFlight,h.follows,h.joined⟩
    · cases hs

/-- The account holds after any calls. -/
theorem consistent_of_reached {s : Owner C} (h : Reached s) : Consistent s := by
  refine Reachable.invariant h ?_ ?_
  · rintro _ rfl
    refine ⟨fun _ => rfl,List.nodup_nil,?_,⟨rfl,rfl⟩,?_⟩
    · intro client hclient
      cases hclient
    · intro before hbefore
      rcases hbefore with hbefore | hbefore
      · cases hbefore
      · cases hbefore
  · intro s label next hconsistent hs
    exact step_consistent hconsistent hs

omit [DecidableEq C] in
/-- After a close the client is closing or closed, with its promise. -/
theorem Follows.closed {phase : Phase C} {task : CloseTask C} {teardowns : ℕ} {returned : List ℕ}
    (h : Follows phase task teardowns returned) (hcalled : returned ≠ []) :
    ((∃ client done, phase = .closing client done) ∨ ∃ done, phase = .closed done) ∧
      ∃ done, ∀ promise ∈ returned, promise = done := by
  cases phase with
  | closing client done =>
    cases task with
    | scheduled target => exact ⟨.inl ⟨client,done,rfl⟩,done,h.2.2⟩
    | tearing target => exact ⟨.inl ⟨client,done,rfl⟩,done,h.2.2⟩
    | _ => exact h.elim
  | closed done =>
    cases task with
    | releasing client => exact ⟨.inr ⟨done,rfl⟩,done,h.2⟩
    | draining joined => exact ⟨.inr ⟨done,rfl⟩,done,h.2⟩
    | drained before => exact ⟨.inr ⟨done,rfl⟩,done,h.2⟩
    | settled before => exact ⟨.inr ⟨done,rfl⟩,done,h.2⟩
    | _ => exact h.elim
  | _ =>
    cases task with
    | idle => exact absurd h.2 hcalled
    | _ => exact h.elim

end Baileyrs.BridgeClientOwner
