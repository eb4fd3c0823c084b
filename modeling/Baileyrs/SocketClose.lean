import Baileyrs.CloseReporter
import Baileyrs.BridgeClientOwner

/-!
# One close per socket

A socket can end by a logout, by a call of end, by a terminal event of its
dispatcher, by its run loop, or because its startup failed. Terminal events, run
completions and startup failures claim the close through the reporter and tear the
socket down through the owner; a logout claims it afterwards if nobody has.
-/

namespace Baileyrs.SocketClose

open LabelledRuns CloseReporter BridgeClientOwner

/-- What the end of the startup waits for. -/
inductive InitWait (C : Type*) where
  | nothing
  | drain (n : ℕ)
  | close
  | release (client : C)

/-- Where the startup stands. -/
inductive Init (C : Type*) where
  | building
  | wiring (client : C)
  | leaving (wait : InitWait C)
  | resolved

/-- Where a logout stands: at the live client, at the teardown, or past it. -/
inductive Logout where
  | asking (reportedBefore : Bool)
  | ending (mayNeedFallback joins : Bool)
  | finished
  deriving DecidableEq

/-- State of a socket. -/
structure Socket (C : Type*) where
  /-- Owner of the client. -/
  owner : Owner C
  /-- Reporter of the close. -/
  reporter : Reporter
  /-- The startup. -/
  init : Init C
  /-- Client whose run completion is still observed. -/
  observed : Option C
  /-- The end handlers are running. -/
  runningEndHandlers : Bool
  /-- Calls of logout. -/
  logouts : List Logout
  /-- Terminal events of the dispatcher. -/
  terminalEvents : ℕ

variable {C : Type*}

/-- A socket whose startup has begun. -/
def create : Socket C := ⟨BridgeClientOwner.start,CloseReporter.start,.building,none,false,[],0⟩

/-- Only the publish callback may throw. -/
def listenerThrows (publish : Bool) : Throws := ⟨false,publish,false⟩

/-- Closes the socket has published. -/
def closes (s : Socket C) : ℕ := s.reporter.publishes.length

/-- The teardown has settled and the startup has resolved. -/
def teardownDone (s : Socket C) : Bool :=
  match s.owner.task,s.init with
  | .settled _,.resolved => true
  | _,_ => false

/-- Claim the close; the winner closes the owner. -/
def reportTerminalClose (s : Socket C) : Socket C :=
  {s with
    owner := if hasReported s.reporter then s.owner else (close s.owner).1
    reporter := reportAfter s.reporter .promise quietly}

/-- End the socket; from inside an end handler this only returns. -/
def endSocket (s : Socket C) : Socket C :=
  if s.runningEndHandlers then s else {s with owner := (close s.owner).1}

/-- A failed startup drops its client, or joins the close. -/
def discardInit (s : Socket C) : Socket C :=
  let wait := match s.owner.phase with
    | .running client => .release client
    | .starting => .nothing
    | _ => .close
  {s with owner := discard s.owner, init := .leaving wait}

/-- A failed startup reports the close unless the socket is closing. -/
def reportInitFailure (s : Socket C) : Socket C :=
  discardInit (if isClosing s.owner then s else reportTerminalClose s)

/-- Startup fails; its logger may end the socket before the failure is reported. -/
def initFails (s : Socket C) (endsInLogger : Bool) : Socket C :=
  if isClosing s.owner then discardInit s
  else reportInitFailure (if endsInLogger then endSocket s else s)

/-- Startup offers the client it has built. -/
def initCreated (s : Socket C) (client : C) : Socket C :=
  let adopted := adopt s.owner client
  if adopted.2 then {s with owner := adopted.1, init := .wiring client}
  else
    {s with
      owner := {adopted.1 with waiters := adopted.1.waiters++[drainReleases adopted.1]}
      init := .leaving (.drain adopted.1.waiters.length)}

variable [DecidableEq C]

/-- What the end of the startup waits for has happened. -/
def initReady (s : Socket C) : InitWait C → Bool
  | .nothing => true
  | .drain n =>
    match s.owner.waiters[n]? with
    | some .ended => true
    | _ => false
  | .close =>
    match s.owner.task with
    | .settled _ => true
    | _ => false
  | .release client => s.owner.finished.contains client && !s.owner.pendingReleases.contains client

/-- The run loop of the observed client ended. -/
def runCompletes (s : Socket C) (client : C) : Socket C :=
  let s := {s with observed := none}
  if isClosing s.owner ∨ peek s.owner ≠ some client then s else reportTerminalClose s

/-- A logout that has asked the client ends the socket. -/
def logoutEnds (s : Socket C) (reportedBefore : Bool) : Socket C × Logout :=
  (endSocket s,.ending (!reportedBefore && !hasReported s.reporter) (!s.runningEndHandlers))

/-- A call of logout asks the live client, if there is one. -/
def logout (s : Socket C) : Socket C :=
  let reportedBefore := hasReported s.reporter
  match peek s.owner with
  | some _ => {s with logouts := s.logouts++[.asking reportedBefore]}
  | none =>
    let ends := logoutEnds s reportedBefore
    {ends.1 with logouts := ends.1.logouts++[ends.2]}

/-- A logout past the teardown reports the close unless somebody has. -/
def logoutEnded (s : Socket C) (n : ℕ) (mayNeedFallback publishThrows : Bool) : Socket C :=
  {s with
    reporter :=
      if mayNeedFallback && !hasReported s.reporter then
        reportNow s.reporter (listenerThrows publishThrows)
      else s.reporter
    logouts := s.logouts.set n .finished}

/-- What the owner does by itself; teardown waits for the end handlers. -/
def ownerTurn (s : Socket C) (label : BridgeClientOwner.Label C) : Option (Socket C) :=
  let goes := match label with
    | .startTeardown throws => !throws
    | .teardownSettles => !s.runningEndHandlers
    | .releaseSettles _ => true
    | .releaseDeleted _ => true
    | .closeTurn => true
    | .waiterTurn _ => true
    | _ => false
  if goes then (BridgeClientOwner.step s.owner label).map fun owner => {s with owner := owner}
  else none

/-- What can happen to a socket. -/
inductive Label (C : Type*) where
  | logout
  | logoutAsked (n : ℕ)
  | logoutEnded (n : ℕ) (publishThrows : Bool)
  | endSocket
  | terminalEvent
  | runCompletes
  | initCreated (client : C)
  | initLeaves
  | initRuns
  | initFails (endsInLogger : Bool)
  | initResolves
  | endHandlers (running : Bool)
  | ownerTurn (label : BridgeClientOwner.Label C)
  | teardownSettled (outcome : TeardownOutcome) (publishThrows : Bool)
  | watchdog (publishThrows : Bool)

/-- One step of a socket. -/
def step (s : Socket C) : Label C → Option (Socket C)
  | .logout => some (logout s)
  | .logoutAsked n =>
    match s.logouts[n]? with
    | some (.asking reportedBefore) =>
      let ends := logoutEnds s reportedBefore
      some {ends.1 with logouts := ends.1.logouts.set n ends.2}
    | _ => none
  | .logoutEnded n publishThrows =>
    match s.logouts[n]? with
    | some (.ending mayNeedFallback joins) =>
      if joins = false ∨ teardownDone s = true then
        some (logoutEnded s n mayNeedFallback publishThrows)
      else none
    | _ => none
  | .endSocket => some (endSocket s)
  | .terminalEvent => some {reportTerminalClose s with terminalEvents := s.terminalEvents+1}
  | .runCompletes => s.observed.map fun client => runCompletes s client
  | .initCreated client =>
    match s.init with
    | .building => if client ∈ s.owner.handed then none else some (initCreated s client)
    | _ => none
  | .initLeaves =>
    match s.init with
    | .wiring _ => if isClosing s.owner then some {s with init := .resolved} else none
    | _ => none
  | .initRuns =>
    match s.init with
    | .wiring client =>
      if isClosing s.owner then none else some {s with init := .resolved, observed := some client}
    | _ => none
  | .initFails endsInLogger =>
    match s.init with
    | .building => some (initFails s endsInLogger)
    | .wiring _ => some (initFails s endsInLogger)
    | _ => none
  | .initResolves =>
    match s.init with
    | .leaving wait => if initReady s wait then some {s with init := .resolved} else none
    | _ => none
  | .endHandlers running =>
    match s.owner.task with
    | .tearing _ =>
      if s.runningEndHandlers = running then none else some {s with runningEndHandlers := running}
    | _ => none
  | .ownerTurn label => ownerTurn s label
  | .teardownSettled outcome publishThrows =>
    if teardownDone s then
      (CloseReporter.teardownSettled s.reporter outcome (listenerThrows publishThrows)).map
        fun reporter => {s with reporter := reporter}
    else none
  | .watchdog publishThrows =>
    (watchdogFires s.reporter (listenerThrows publishThrows)).map
      fun reporter => {s with reporter := reporter}

/-- Sockets that some history leads to. -/
def Reached (s : Socket C) : Prop := Reachable step (· = create) s

/-- A logout that knows the close is claimed, or has seen to it. -/
def Logout.claims : Logout → Bool
  | .asking reportedBefore => reportedBefore
  | .ending mayNeedFallback _ => !mayNeedFallback
  | .finished => true

/-- The reporter is left alone or takes a step in which no logger throws. -/
def Reports (r next : Reporter) : Prop :=
  next = r ∨ ∃ label, CloseReporter.step r label = some next ∧ LogsQuietly r label

/-- What every history keeps. -/
structure Consistent (s : Socket C) : Prop where
  /-- The reporter is consistent. -/
  reporter : CloseReporter.Consistent s.reporter
  /-- The reporter owes nothing. -/
  delivered : Delivered s.reporter
  /-- A terminal event claims the close. -/
  events : s.terminalEvents > 0 → hasReported s.reporter = true
  /-- A logout past its teardown has the close claimed. -/
  logouts : ∀ logout ∈ s.logouts, logout.claims = true → hasReported s.reporter = true

omit [DecidableEq C] in
/-- A step that reports, and whose new logouts and events have the close claimed. -/
theorem Consistent.reports {s next : Socket C} (h : Consistent s) (hreports : Reports s.reporter next.reporter)
    (hevents : next.terminalEvents > 0 → s.terminalEvents > 0 ∨ hasReported next.reporter = true)
    (hlogouts : ∀ logout ∈ next.logouts, logout ∈ s.logouts ∨
      (logout.claims = true → hasReported next.reporter = true)) : Consistent next := by
  have hkeeps : hasReported s.reporter = true → hasReported next.reporter = true := by
    intro hreported
    rcases hreports with heq | ⟨label,hs,_⟩
    · rw [heq]
      exact hreported
    · exact hasReported_step hs hreported
  have hreporter : CloseReporter.Consistent next.reporter ∧ Delivered next.reporter := by
    rcases hreports with heq | ⟨label,hs,hquiet⟩
    · rw [heq]
      exact ⟨h.reporter,h.delivered⟩
    · have hspec := step_spec h.reporter hs
      exact ⟨hspec.1,(hspec.2 h.delivered).mpr hquiet⟩
  refine ⟨hreporter.1,hreporter.2,?_,?_⟩
  · intro hcount
    rcases hevents hcount with hbefore | hreported
    · exact hkeeps (h.events hbefore)
    · exact hreported
  · intro logout hlogout hclaims
    rcases hlogouts logout hlogout with hbefore | hreported
    · exact hkeeps (h.logouts logout hbefore hclaims)
    · exact hreported hclaims

/-- Claiming after a teardown throws nothing. -/
theorem reports_reportAfter (r : Reporter) : Reports r (reportAfter r .promise quietly) :=
  .inr ⟨.reportAfter .promise quietly,rfl,trivial⟩

/-- A logout reports at once, with a logger that does not throw. -/
theorem reports_reportNow (r : Reporter) (publishThrows : Bool) :
    Reports r (reportNow r (listenerThrows publishThrows)) := by
  refine .inr ⟨.reportNow (listenerThrows publishThrows),rfl,?_⟩
  intro _
  simp [listenerThrows]

/-- Only the owner and the startup change when the close is not claimed. -/
structure Quietens (s next : Socket C) : Prop where
  /-- The reporter is left alone or claims. -/
  reporter : next.reporter = s.reporter ∨ next.reporter = reportAfter s.reporter .promise quietly
  /-- No logout moves. -/
  logouts : next.logouts = s.logouts
  /-- No terminal event comes. -/
  terminalEvents : next.terminalEvents = s.terminalEvents

omit [DecidableEq C] in
theorem Consistent.quietens {s next : Socket C} (h : Consistent s) (hq : Quietens s next) : Consistent next := by
  refine h.reports ?_ ?_ ?_
  · rcases hq.reporter with heq | heq
    · exact .inl heq
    · rw [heq]
      exact reports_reportAfter s.reporter
  · intro hcount
    rw [hq.terminalEvents] at hcount
    exact .inl hcount
  · intro logout hlogout
    rw [hq.logouts] at hlogout
    exact .inl hlogout

omit [DecidableEq C] in
theorem quietens_endSocket (s : Socket C) : Quietens s (endSocket s) := by
  unfold endSocket
  split_ifs
  · exact ⟨.inl rfl,rfl,rfl⟩
  · exact ⟨.inl rfl,rfl,rfl⟩

omit [DecidableEq C] in
theorem quietens_reportInitFailure {s next : Socket C} (hreporter : next.reporter = s.reporter)
    (hlogouts : next.logouts = s.logouts) (hevents : next.terminalEvents = s.terminalEvents) :
    Quietens s (reportInitFailure next) := by
  unfold reportInitFailure
  split_ifs
  · exact ⟨.inl hreporter,hlogouts,hevents⟩
  · refine ⟨.inr ?_,hlogouts,hevents⟩
    rw [← hreporter]
    rfl

omit [DecidableEq C] in
theorem quietens_initFails (s : Socket C) (endsInLogger : Bool) : Quietens s (initFails s endsInLogger) := by
  unfold initFails endSocket
  split_ifs
  · exact ⟨.inl rfl,rfl,rfl⟩
  · exact quietens_reportInitFailure rfl rfl rfl
  · exact quietens_reportInitFailure rfl rfl rfl
  · exact quietens_reportInitFailure rfl rfl rfl

theorem quietens_runCompletes (s : Socket C) (client : C) : Quietens s (runCompletes s client) := by
  unfold runCompletes
  dsimp only
  split_ifs
  · exact ⟨.inl rfl,rfl,rfl⟩
  · exact ⟨.inr rfl,rfl,rfl⟩

omit [DecidableEq C] in
theorem quietens_initCreated (s : Socket C) (client : C) : Quietens s (initCreated s client) := by
  unfold initCreated
  dsimp only
  split_ifs
  · exact ⟨.inl rfl,rfl,rfl⟩
  · exact ⟨.inl rfl,rfl,rfl⟩

omit [DecidableEq C] in
/-- A logout that ends needs no fallback only if the close is claimed. -/
theorem logoutEnds_claims {s : Socket C} {reportedBefore : Bool}
    (h : reportedBefore = true → hasReported s.reporter = true)
    (hclaims : (logoutEnds s reportedBefore).2.claims = true) : hasReported s.reporter = true := by
  cases hreported : hasReported s.reporter with
  | true => rfl
  | false =>
    cases reportedBefore with
    | true =>
      rw [← hreported]
      exact h rfl
    | false => simp [logoutEnds,Logout.claims,hreported] at hclaims

omit [DecidableEq C] in
/-- Ending the socket in a logout. -/
theorem quietens_logoutEnds (s : Socket C) (reportedBefore : Bool) :
    Quietens s (logoutEnds s reportedBefore).1 ∧ (logoutEnds s reportedBefore).1.reporter = s.reporter := by
  refine ⟨quietens_endSocket s,?_⟩
  unfold logoutEnds endSocket
  split_ifs <;> rfl

/-- Every step keeps the close claimed where it is owed. -/
theorem step_consistent {s next : Socket C} {label : Label C} (h : Consistent s)
    (hs : step s label = some next) : Consistent next := by
  cases label with
  | logout =>
    cases hs
    unfold logout
    split
    · refine h.reports (.inl rfl) .inl ?_
      intro other hother
      rw [List.mem_append,List.mem_singleton] at hother
      rcases hother with hother | rfl
      · exact .inl hother
      · exact .inr fun hclaims => hclaims
    · have hends := quietens_logoutEnds s (hasReported s.reporter)
      refine h.reports (.inl hends.2) ?_ ?_
      · intro hcount
        dsimp only at hcount
        rw [hends.1.terminalEvents] at hcount
        exact .inl hcount
      · intro other hother
        dsimp only at hother ⊢
        rw [hends.1.logouts,List.mem_append,List.mem_singleton] at hother
        rcases hother with hother | rfl
        · exact .inl hother
        · refine .inr ?_
          intro hclaims
          rw [hends.2]
          exact logoutEnds_claims (fun hreported => hreported) hclaims
  | logoutAsked n =>
    simp only [step] at hs
    split at hs
    · rename_i reportedBefore hlogout
      cases hs
      have hends := quietens_logoutEnds s reportedBefore
      refine h.reports (.inl hends.2) ?_ ?_
      · intro hcount
        dsimp only at hcount
        rw [hends.1.terminalEvents] at hcount
        exact .inl hcount
      · intro other hother
        dsimp only at hother ⊢
        rw [hends.1.logouts] at hother
        have hcases := List.mem_or_eq_of_mem_set hother
        rcases hcases with hother | rfl
        · exact .inl hother
        · refine .inr ?_
          intro hclaims
          rw [hends.2]
          refine logoutEnds_claims ?_ hclaims
          exact h.logouts _ (List.mem_of_getElem? hlogout)
    · cases hs
  | logoutEnded n publishThrows =>
    simp only [step] at hs
    split at hs
    · rename_i mayNeedFallback joins hlogout
      split_ifs at hs
      cases hs
      have hreported : hasReported (logoutEnded s n mayNeedFallback publishThrows).reporter = true ∧
          Reports s.reporter (logoutEnded s n mayNeedFallback publishThrows).reporter := by
        unfold logoutEnded
        dsimp only
        cases mayNeedFallback with
        | false =>
          have hclaimed := h.logouts _ (List.mem_of_getElem? hlogout) rfl
          exact ⟨hclaimed,.inl rfl⟩
        | true =>
          cases hbefore : hasReported s.reporter with
          | true => exact ⟨hbefore,.inl rfl⟩
          | false =>
            exact ⟨(hasReported_report s.reporter .promise _).2,reports_reportNow s.reporter _⟩
      refine h.reports hreported.2 .inl ?_
      intro other hother
      have hcases := List.mem_or_eq_of_mem_set hother
      rcases hcases with hother | rfl
      · exact .inl hother
      · exact .inr fun _ => hreported.1
    · cases hs
  | endSocket =>
    cases hs
    exact h.quietens (quietens_endSocket s)
  | terminalEvent =>
    cases hs
    have hreported := (hasReported_report s.reporter .promise quietly).1
    exact h.reports (reports_reportAfter s.reporter) (fun _ => .inr hreported) fun _ => .inl
  | runCompletes =>
    simp only [step,Option.map_eq_some_iff] at hs
    rcases hs with ⟨client,_,rfl⟩
    exact h.quietens (quietens_runCompletes s client)
  | initCreated client =>
    simp only [step] at hs
    split at hs
    · split_ifs at hs
      cases hs
      exact h.quietens (quietens_initCreated s client)
    · cases hs
  | initLeaves =>
    simp only [step] at hs
    split at hs
    · split_ifs at hs
      cases hs
      exact h.quietens ⟨.inl rfl,rfl,rfl⟩
    · cases hs
  | initRuns =>
    simp only [step] at hs
    split at hs
    · split_ifs at hs
      cases hs
      exact h.quietens ⟨.inl rfl,rfl,rfl⟩
    · cases hs
  | initFails endsInLogger =>
    simp only [step] at hs
    split at hs
    · cases hs
      exact h.quietens (quietens_initFails s endsInLogger)
    · cases hs
      exact h.quietens (quietens_initFails s endsInLogger)
    · cases hs
  | initResolves =>
    simp only [step] at hs
    split at hs
    · split_ifs at hs
      cases hs
      exact h.quietens ⟨.inl rfl,rfl,rfl⟩
    · cases hs
  | endHandlers running =>
    simp only [step] at hs
    split at hs
    · split_ifs at hs
      cases hs
      exact h.quietens ⟨.inl rfl,rfl,rfl⟩
    · cases hs
  | ownerTurn label =>
    simp only [step,ownerTurn] at hs
    split_ifs at hs
    rw [Option.map_eq_some_iff] at hs
    rcases hs with ⟨owner,_,rfl⟩
    exact h.quietens ⟨.inl rfl,rfl,rfl⟩
  | teardownSettled outcome publishThrows =>
    simp only [step] at hs
    split_ifs at hs
    rw [Option.map_eq_some_iff] at hs
    rcases hs with ⟨reporter,hreporter,rfl⟩
    refine h.reports (.inr ⟨.teardownSettled outcome (listenerThrows publishThrows),hreporter,?_⟩)
      .inl fun _ => .inl
    intro g _ _
    simp [listenerThrows]
  | watchdog publishThrows =>
    simp only [step,Option.map_eq_some_iff] at hs
    rcases hs with ⟨reporter,hreporter,rfl⟩
    refine h.reports (.inr ⟨.watchdog (listenerThrows publishThrows),hreporter,?_⟩)
      .inl fun _ => .inl
    simp [LogsQuietly,listenerThrows]

theorem consistent_of_reached {s : Socket C} (h : Reached s) : Consistent s := by
  refine Reachable.invariant h ?_ fun _ _ _ => step_consistent
  rintro _ rfl
  have hstart := start_spec
  refine ⟨hstart.1,hstart.2,?_,?_⟩
  · intro hcount
    cases hcount
  · intro logout hlogout
    cases hlogout

/-- A logout that waits for the teardown, or is past it. -/
def Logout.reachedEnd : Logout → Bool
  | .asking _ => false
  | .ending _ _ => true
  | .finished => true

/-- A logout reached the teardown, or a terminal event occurred. -/
def Owed (s : Socket C) : Prop :=
  s.terminalEvents > 0 ∨ ∃ logout ∈ s.logouts, logout.reachedEnd = true

/-- The watchdog of the claimed close fired, or its teardown settled. -/
def Released (s : Socket C) : Prop := ∃ g, s.reporter.generation = some g ∧ g.released = true

/-- A logout goes on without waiting any longer. -/
def Logout.goesOn (done : Bool) : Logout → Bool
  | .ending _ joins => !joins || done
  | _ => false

/-- Continuations that have nothing left to wait for. -/
def continuations (s : Socket C) : ℕ :=
  s.logouts.countP (Logout.goesOn (teardownDone s))+
    if teardownDone s = true ∧ ∃ g ∈ s.reporter.generation, g.pending = true then 1 else 0

omit [DecidableEq C] in
/-- A released winner has been published. -/
theorem Consistent.closes_of_released {s : Socket C} (h : Consistent s) (hreleased : Released s) : closes s = 1 := by
  rcases hreleased with ⟨g,hg,hreleased⟩
  have hdone := (h.delivered g hg hreleased).1
  have hpublishes := h.reporter.publishes g hg
  rw [closes,hpublishes,if_pos hdone]
  rfl

omit [DecidableEq C] in
/-- Without continuations left, a finished teardown has every owed close published. -/
theorem Consistent.closes_of_done {s : Socket C} (h : Consistent s) (hidle : continuations s = 0)
    (howed : Owed s) (hdone : teardownDone s = true) : closes s = 1 := by
  unfold continuations at hidle
  have hlogouts : s.logouts.countP (Logout.goesOn (teardownDone s)) = 0 := by omega
  have hreported : hasReported s.reporter = true := by
    rcases howed with hevents | ⟨logout,hlogout,hend⟩
    · exact h.events hevents
    · rw [List.countP_eq_zero] at hlogouts
      have hstays := hlogouts logout hlogout
      rw [hdone] at hstays
      cases logout with
      | asking reportedBefore => cases hend
      | ending mayNeedFallback joins => simp [Logout.goesOn] at hstays
      | finished => exact h.logouts _ hlogout rfl
  rcases h.reporter.generation_of_reported hreported with ⟨g,hg⟩
  have hpending : g.pending = false := by
    cases hcase : g.pending with
    | false => rfl
    | true =>
      rw [if_pos ⟨hdone,g,hg,hcase⟩] at hidle
      omega
  exact h.closes_of_released ⟨g,hg,h.reporter.waiting g hg hpending⟩

omit [DecidableEq C] in
/-- A logout that goes on is one continuation less, whoever reports. -/
theorem continuations_logoutEnded {s : Socket C} (h : Consistent s) {n : ℕ} {mayNeedFallback joins publishThrows : Bool}
    (hlogout : s.logouts[n]? = some (.ending mayNeedFallback joins)) (hgoes : joins = false ∨ teardownDone s = true) :
    continuations (logoutEnded s n mayNeedFallback publishThrows) < continuations s := by
  have hdone : teardownDone (logoutEnded s n mayNeedFallback publishThrows) = teardownDone s := rfl
  rcases List.getElem?_eq_some_iff.mp hlogout with ⟨hlength,hget⟩
  have hon : Logout.goesOn (teardownDone s) (.ending mayNeedFallback joins) = true := by
    rcases hgoes with hjoins | hfinished
    · simp [Logout.goesOn,hjoins]
    · simp [Logout.goesOn,hfinished]
  have hpositive : 0 < s.logouts.countP (Logout.goesOn (teardownDone s)) := by
    rw [List.countP_pos_iff]
    exact ⟨_,List.mem_of_getElem? hlogout,hon⟩
  have hcount : (logoutEnded s n mayNeedFallback publishThrows).logouts.countP
      (Logout.goesOn (teardownDone s)) = s.logouts.countP (Logout.goesOn (teardownDone s))-1 := by
    unfold logoutEnded
    dsimp only
    rw [List.countP_set hlength,hget,if_pos hon]
    rfl
  have hpending : (∃ g ∈ (logoutEnded s n mayNeedFallback publishThrows).reporter.generation,
      g.pending = true) → ∃ g ∈ s.reporter.generation, g.pending = true := by
    unfold logoutEnded
    dsimp only
    cases hreports : mayNeedFallback && !hasReported s.reporter with
    | false => exact fun hexists => hexists
    | true =>
      rw [if_pos rfl]
      rintro ⟨g,hg,hwaits⟩
      have hnone : s.reporter.generation = none := by
        cases hgen : s.reporter.generation with
        | none => rfl
        | some winner =>
          have hwinner := h.reporter.winner winner hgen
          simp [hasReported,hwinner.1] at hreports
      have hclaim := claim_none h.reporter hnone
      rw [reportNow,hclaim.1] at hg
      cases hg
      cases hwaits
  unfold continuations
  rw [hdone,hcount]
  split_ifs with hafter hbefore
  · omega
  · exact absurd ⟨hafter.1,hpending hafter.2⟩ hbefore
  · omega
  · omega

omit [DecidableEq C] in
/-- The winner's settled teardown is one continuation less. -/
theorem continuations_teardownSettled {s : Socket C} {g : Generation}
    (hg : s.reporter.generation = some g) (hpending : g.pending = true)
    (hdone : teardownDone s = true) (outcome : TeardownOutcome) (throws : Throws) :
    continuations {s with reporter := finish s.reporter g outcome throws} < continuations s := by
  have hsettled : ¬∃ winner ∈ (finish s.reporter g outcome throws).generation,
      winner.pending = true := by
    rintro ⟨winner,hwinner,hwaits⟩
    unfold finish publishOnce at hwinner
    dsimp only at hwinner
    split_ifs at hwinner
    all_goals
      cases hwinner
      cases hwaits
  have hsame : teardownDone {s with reporter := finish s.reporter g outcome throws} =
      teardownDone s := rfl
  unfold continuations
  rw [hsame,if_neg (fun hboth => hsettled hboth.2),if_pos ⟨hdone,g,hg,hpending⟩]
  dsimp only
  omega

/-- While a continuation is left it can run, and then one less is left. -/
theorem continuations_run {s : Socket C} (h : Consistent s) (hleft : 0 < continuations s) :
    ∃ label next, step s label = some next ∧ continuations next < continuations s := by
  by_cases hlogouts : s.logouts.countP (Logout.goesOn (teardownDone s)) = 0
  · unfold continuations at hleft
    rw [hlogouts] at hleft
    split_ifs at hleft with hboth
    · rcases hboth with ⟨hdone,g,hg,hpending⟩
      have hgen : s.reporter.generation = some g := hg
      have hless := continuations_teardownSettled hgen hpending hdone .resolved (listenerThrows false)
      refine ⟨.teardownSettled .resolved false,_,?_,hless⟩
      rw [step,if_pos hdone,CloseReporter.teardownSettled,hgen]
      dsimp only
      rw [if_pos hpending]
      rfl
    · omega
  · have hpositive := Nat.pos_of_ne_zero hlogouts
    rcases List.countP_pos_iff.mp hpositive with ⟨logout,hlogout,hon⟩
    cases logout with
    | asking reportedBefore => cases hon
    | finished => cases hon
    | ending mayNeedFallback joins =>
      rcases List.mem_iff_getElem?.mp hlogout with ⟨n,hn⟩
      have hgoes : joins = false ∨ teardownDone s = true := by
        simpa [Logout.goesOn] using hon
      have hless := @continuations_logoutEnded C s h n mayNeedFallback joins false hn hgoes
      refine ⟨.logoutEnded n false,_,?_,hless⟩
      rw [step,hn]
      dsimp only
      rw [if_pos hgoes]

/-- In every history a socket publishes at most one close. It has published one once the
claimed teardown settled or timed out, and once the teardown is done, whatever was owed by
a terminal event or a logout is published as soon as the continuations that wait for
nothing have run; each of them can run and leaves one less. -/
theorem one_close {s : Socket C} (h : Reached s) :
    closes s ≤ 1 ∧ (Released s → closes s = 1) ∧
    (Owed s → teardownDone s = true → continuations s = 0 → closes s = 1) ∧
    (0 < continuations s →
      ∃ label next, step s label = some next ∧ continuations next < continuations s) := by
  have hconsistent := consistent_of_reached h
  have hcontract := hconsistent.reporter.contract_iff.mpr hconsistent.delivered
  refine ⟨?_,hconsistent.closes_of_released,?_,continuations_run hconsistent⟩
  · unfold closes
    rcases hcontract.publishes with heq | heq
    · rw [heq]
      exact Nat.zero_le 1
    · rw [heq]
      exact hcontract.wins
  · intro howed hdone hidle
    exact hconsistent.closes_of_done hidle howed hdone

/-- A logout during which the dispatcher announces the close. -/
def loggedOut : List (Label ℕ) :=
  [.initCreated 0,.initRuns,.logout,.terminalEvent,.logoutAsked 0,.ownerTurn (.startTeardown false),
    .ownerTurn .teardownSettles,.ownerTurn (.releaseSettles 0),.ownerTurn .closeTurn,
    .ownerTurn .closeTurn,.logoutEnded 0 false,.teardownSettled .resolved false]

/-- That logout publishes one close. -/
theorem one_close_loggedOut : closes (after step create loggedOut) = 1 :=
  (one_close ⟨create,loggedOut,rfl,run_after rfl⟩).2.2.1 (.inl (by decide)) rfl rfl

end Baileyrs.SocketClose
