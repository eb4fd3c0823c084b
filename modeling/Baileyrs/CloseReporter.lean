import Baileyrs.LabelledRuns

/-!
# Terminal close reporter

The first claim of a socket wins and publishes its close: at once, or when its
teardown settles or a watchdog fires, whichever comes first. The publish callback,
the teardown and the logger are the consumer's, and each call of them may throw. A
throw of the logger cuts a step short, so the lines that follow it do not run.
-/

namespace Baileyrs.CloseReporter

open LabelledRuns

/-- How a teardown ends; only a truthy reason is logged. -/
inductive TeardownOutcome where
  | resolved
  | rejected (truthy : Bool)
  deriving DecidableEq

/-- What calling a teardown gives: a promise, or a synchronous throw. -/
inductive TeardownCall where
  | promise
  | throws (truthy : Bool)
  deriving DecidableEq

/-- Which calls of consumer code throw in a step. -/
structure Throws where
  /-- The log line about the teardown. -/
  log : Bool
  /-- The publish callback. -/
  publish : Bool
  /-- The log line about the publish callback. -/
  listenerLog : Bool
  deriving DecidableEq

/-- Nothing throws. -/
def quietly : Throws := ⟨false,false,false⟩

/-- The winning claim. -/
structure Generation where
  /-- Number of the call that won. -/
  claim : ℕ
  /-- The publish callback was called. -/
  done : Bool
  /-- The published promise is resolved. -/
  settled : Bool
  /-- The watchdog is scheduled. -/
  watchdog : Bool
  /-- The teardown's promise is pending. -/
  pending : Bool
  /-- The teardown settled, the watchdog fired, or there was nothing to wait for. -/
  released : Bool
  deriving DecidableEq

/-- State of a reporter, with the calls it has seen and what it has published. -/
structure Reporter where
  /-- Claims so far, won or lost. -/
  calls : ℕ
  /-- Accepted claims. -/
  claimed : ℕ
  /-- The winning claim. -/
  generation : Option Generation
  /-- Claims whose publish callback was called. -/
  publishes : List ℕ
  /-- Claims that won. -/
  wins : List ℕ
  deriving DecidableEq

/-- A new reporter. -/
def start : Reporter := ⟨0,0,none,[],[]⟩

/-- Publish once; a throwing callback is logged before the promise is resolved. -/
def publishOnce (r : Reporter) (g : Generation) (throws : Throws) : Reporter :=
  if g.done then {r with generation := some g}
  else
    {r with
      generation := some {g with done := true, settled := !(throws.publish && throws.listenerLog)}
      publishes := r.publishes++[g.claim]}

/-- A teardown failure is logged. -/
def TeardownOutcome.logged : TeardownOutcome → Bool
  | .resolved => false
  | .rejected truthy => truthy

/-- Cancel the watchdog, log a failure and publish. -/
def finish (r : Reporter) (g : Generation) (outcome : TeardownOutcome) (throws : Throws) :
    Reporter :=
  let g := {g with watchdog := false, pending := false, released := true}
  if outcome.logged && throws.log then {r with generation := some g} else publishOnce r g throws

/-- The first claim is accepted; a later one is only counted. -/
def claim (r : Reporter) : Option Reporter :=
  if r.claimed > 0 then none
  else some ⟨r.calls+1,r.claimed+1,r.generation,r.publishes,r.wins++[r.calls]⟩

/-- Claim, then publish when the teardown settles. -/
def reportAfter (r : Reporter) (teardown : TeardownCall) (throws : Throws) : Reporter :=
  match claim r with
  | none => {r with calls := r.calls+1}
  | some claimed =>
    let g : Generation := ⟨r.calls,false,false,true,true,false⟩
    match teardown with
    | .promise => {claimed with generation := some g}
    | .throws truthy => finish claimed g (.rejected truthy) throws

/-- Claim and publish. -/
def reportNow (r : Reporter) (throws : Throws) : Reporter :=
  match claim r with
  | none => {r with calls := r.calls+1}
  | some claimed => publishOnce claimed ⟨r.calls,false,false,false,false,true⟩ throws

/-- The teardown's promise settles. -/
def teardownSettled (r : Reporter) (outcome : TeardownOutcome) (throws : Throws) : Option Reporter :=
  match r.generation with
  | some g => if g.pending then some (finish r g outcome throws) else none
  | none => none

/-- The watchdog fires. -/
def watchdogFires (r : Reporter) (throws : Throws) : Option Reporter :=
  match r.generation with
  | some g =>
    if g.watchdog then
      let g := {g with watchdog := false, released := true}
      some (if throws.log then {r with generation := some g} else publishOnce r g throws)
    else none
  | none => none

/-- Whether a close was claimed. -/
def hasReported (r : Reporter) : Bool := r.claimed > 0

/-- Whether the promise of published is resolved. -/
def publishedSettled (r : Reporter) : Bool := r.generation.all fun g => g.settled

/-- A call of the reporter, or what its teardown and timer do. -/
inductive Label where
  | reportAfter (teardown : TeardownCall) (throws : Throws)
  | reportNow (throws : Throws)
  | teardownSettled (outcome : TeardownOutcome) (throws : Throws)
  | watchdog (throws : Throws)
  deriving DecidableEq

/-- One step of a reporter. Claims made from inside a consumer callback find the
claim already won and change nothing, so they are steps of their own. -/
def step (r : Reporter) : Label → Option Reporter
  | .reportAfter teardown throws => some (reportAfter r teardown throws)
  | .reportNow throws => some (reportNow r throws)
  | .teardownSettled outcome throws => teardownSettled r outcome throws
  | .watchdog throws => watchdogFires r throws

/-- What a reporter promises: one claim wins, nothing else is ever published, and the
winner is published, and its waiters released, once it has nothing to wait for. -/
structure Contract (r : Reporter) : Prop where
  /-- At most one claim wins. -/
  wins : r.wins.length ≤ 1
  /-- Only the winner is published, at most once. -/
  publishes : r.publishes = [] ∨ r.publishes = r.wins
  /-- The winner is published, and the promise resolved, once it is released. -/
  delivered : ∀ g, r.generation = some g → g.released = true →
    r.publishes = [g.claim] ∧ publishedSettled r = true

/-- A step calls no logger that throws while the close is unpublished. -/
def LogsQuietly (r : Reporter) : Label → Prop
  | .reportAfter .promise _ => True
  | .reportAfter (.throws truthy) throws => r.claimed = 0 →
    (truthy && throws.log) = false ∧ (throws.publish && throws.listenerLog) = false
  | .reportNow throws => r.claimed = 0 → (throws.publish && throws.listenerLog) = false
  | .teardownSettled outcome throws => ∀ g, r.generation = some g → g.done = false →
    (outcome.logged && throws.log) = false ∧ (throws.publish && throws.listenerLog) = false
  | .watchdog throws => throws.log = false ∧ (throws.publish && throws.listenerLog) = false

/-- What every run keeps, whatever throws. -/
structure Consistent (r : Reporter) : Prop where
  /-- Without a winner nothing was claimed or published. -/
  idle : r.generation = none → r.claimed = 0 ∧ r.wins = [] ∧ r.publishes = []
  /-- The winner is the one claim. -/
  winner : ∀ g, r.generation = some g → r.claimed = 1 ∧ r.wins = [g.claim]
  /-- What was published is the winner, once. -/
  publishes : ∀ g, r.generation = some g → r.publishes = if g.done then [g.claim] else []
  /-- A resolved promise follows a publish call, and that follows the release. -/
  order : ∀ g, r.generation = some g → (g.settled = true → g.done = true) ∧
    (g.done = true → g.released = true)
  /-- A scheduled watchdog has nothing published before it. -/
  watchdog : ∀ g, r.generation = some g → g.watchdog = true → g.released = false
  /-- A winner that waits for nothing was released. -/
  waiting : ∀ g, r.generation = some g → g.pending = false → g.released = true

/-- A released winner was published and its waiters were released. -/
def Delivered (r : Reporter) : Prop :=
  ∀ g, r.generation = some g → g.released = true → g.done = true ∧ g.settled = true

/-- A consistent reporter keeps its promise exactly when it has delivered. -/
theorem Consistent.contract_iff {r : Reporter} (h : Consistent r) : Contract r ↔ Delivered r := by
  cases hg : r.generation with
  | none =>
    have hidle := h.idle hg
    constructor
    · intro _ g hgen
      rw [hg] at hgen
      cases hgen
    · intro _
      refine ⟨?_,.inl hidle.2.2,?_⟩
      · rw [hidle.2.1]
        exact Nat.zero_le 1
      · intro g hgen
        rw [hg] at hgen
        cases hgen
  | some g =>
    have hwinner := h.winner g hg
    have hpublishes := h.publishes g hg
    have horder := h.order g hg
    constructor
    · intro hcontract other hgen hreleased
      have hdelivered := hcontract.delivered other hgen hreleased
      rw [hg] at hgen
      cases hgen
      have hsettled : g.settled = true := by
        have hall := hdelivered.2
        rw [publishedSettled,hg] at hall
        exact hall
      exact ⟨horder.1 hsettled,hsettled⟩
    · intro hdelivered
      refine ⟨?_,?_,?_⟩
      · rw [hwinner.2]
        exact Nat.le_refl 1
      · rw [hpublishes,hwinner.2]
        cases g.done with
        | true => exact .inr rfl
        | false => exact .inl rfl
      · intro other hgen hreleased
        have hdone := hdelivered other hgen hreleased
        rw [hg] at hgen
        cases hgen
        rw [hpublishes,hdone.1,publishedSettled,hg]
        exact ⟨rfl,hdone.2⟩

/-- Nothing is published before a scheduled watchdog. -/
theorem Consistent.watchdog_waiting {r : Reporter} {g : Generation} (h : Consistent r)
    (hg : r.generation = some g) (hscheduled : g.watchdog = true) : g.done = false := by
  have hreleased := h.watchdog g hg hscheduled
  have horder := h.order g hg
  cases hdone : g.done with
  | false => rfl
  | true =>
    have htrue := horder.2 hdone
    rw [hreleased] at htrue
    cases htrue

/-- Seeing another call changes nothing else. -/
theorem Consistent.congr {r next : Reporter} (h : Consistent r)
    (hgeneration : next.generation = r.generation) (hclaimed : next.claimed = r.claimed)
    (hwins : next.wins = r.wins) (hpublishes : next.publishes = r.publishes) : Consistent next := by
  refine ⟨?_,?_,?_,?_,?_,?_⟩
  · rw [hgeneration,hclaimed,hwins,hpublishes]
    exact h.idle
  · rw [hgeneration,hclaimed,hwins]
    exact h.winner
  · rw [hgeneration,hpublishes]
    exact h.publishes
  · rw [hgeneration]
    exact h.order
  · rw [hgeneration]
    exact h.watchdog
  · rw [hgeneration]
    exact h.waiting

/-- A released winner without a watchdog is consistent with what was published. -/
theorem consistent_released {r : Reporter} {g : Generation} (hgeneration : r.generation = some g)
    (hclaimed : r.claimed = 1 ∧ r.wins = [g.claim]) (hpublishes : r.publishes = if g.done then [g.claim] else [])
    (hsettled : g.settled = true → g.done = true) (hreleased : g.released = true)
    (hwatchdog : g.watchdog = false) : Consistent r := by
  have honly : ∀ other, r.generation = some other → other = g := fun other hother =>
    Option.some.inj (hother.symm.trans hgeneration)
  constructor
  · intro hnone
    rw [hgeneration] at hnone
    cases hnone
  · intro other hother
    rw [honly other hother]
    exact hclaimed
  · intro other hother
    rw [honly other hother]
    exact hpublishes
  · intro other hother
    rw [honly other hother]
    exact ⟨hsettled,fun _ => hreleased⟩
  · intro other hother hscheduled
    rw [honly other hother,hwatchdog] at hscheduled
    cases hscheduled
  · intro other hother _
    rw [honly other hother]
    exact hreleased

/-- A released winner was delivered when it was published and its waiters were released. -/
theorem delivered_released {r : Reporter} {g : Generation} (hgeneration : r.generation = some g)
    (hreleased : g.released = true) : Delivered r ↔ g.done = true ∧ g.settled = true := by
  constructor
  · intro hdelivered
    exact hdelivered g hgeneration hreleased
  · intro hpublished other hother _
    rw [Option.some.inj (hother.symm.trans hgeneration)]
    exact hpublished

/-- Publishing a released winner. -/
theorem publishOnce_spec {r : Reporter} {g : Generation} (throws : Throws)
    (hclaimed : r.claimed = 1 ∧ r.wins = [g.claim]) (hpublishes : r.publishes = if g.done then [g.claim] else [])
    (hsettled : g.settled = true → g.done = true) (hreleased : g.released = true)
    (hwatchdog : g.watchdog = false) : Consistent (publishOnce r g throws) ∧
      ((g.done = true → g.settled = true) → (Delivered (publishOnce r g throws) ↔
        (g.done = false → (throws.publish && throws.listenerLog) = false))) := by
  unfold publishOnce
  cases hdone : g.done with
  | true =>
    rw [if_pos rfl]
    refine ⟨consistent_released rfl hclaimed hpublishes hsettled hreleased hwatchdog,?_⟩
    intro hwaiters
    rw [delivered_released rfl hreleased]
    constructor
    · intro _ hfalse
      cases hfalse
    · intro _
      exact ⟨hdone,hwaiters rfl⟩
  | false =>
    rw [hdone] at hpublishes
    rw [if_neg Bool.false_ne_true]
    have hempty : r.publishes = [] := hpublishes
    constructor
    · refine @consistent_released _ {g with done := true, settled := !(throws.publish && throws.listenerLog)}
        rfl hclaimed ?_ (fun _ => rfl) hreleased hwatchdog
      dsimp only
      rw [hempty]
      rfl
    · intro _
      refine (@delivered_released _ {g with done := true, settled := !(throws.publish && throws.listenerLog)}
        rfl hreleased).trans ?_
      dsimp only
      rw [Bool.not_eq_true']
      constructor
      · intro hpublished _
        exact hpublished.2
      · intro hquiet
        exact ⟨rfl,hquiet rfl⟩

/-- A winner that is released but not published. -/
theorem unpublished_spec {r : Reporter} {g : Generation}
    (hclaimed : r.claimed = 1 ∧ r.wins = [g.claim])
    (hpublishes : r.publishes = if g.done then [g.claim] else [])
    (hsettled : g.settled = true → g.done = true) (hreleased : g.released = true)
    (hwatchdog : g.watchdog = false) :
    Consistent {r with generation := some g} ∧
      ((g.done = true → g.settled = true) →
        (Delivered {r with generation := some g} ↔ g.done = true)) := by
  refine ⟨consistent_released rfl hclaimed hpublishes hsettled hreleased hwatchdog,?_⟩
  intro hwaiters
  rw [delivered_released rfl hreleased]
  constructor
  · intro hpublished
    exact hpublished.1
  · intro hdone
    exact ⟨hdone,hwaiters hdone⟩

/-- Finishing a teardown delivers exactly when no logger throws before it has. -/
theorem finish_spec {r : Reporter} {g : Generation} (outcome : TeardownOutcome) (throws : Throws)
    (hclaimed : r.claimed = 1 ∧ r.wins = [g.claim]) (hpublishes : r.publishes = if g.done then [g.claim] else [])
    (hsettled : g.settled = true → g.done = true) : Consistent (finish r g outcome throws) ∧
      ((g.done = true → g.settled = true) → (Delivered (finish r g outcome throws) ↔
        (g.done = false → (outcome.logged && throws.log) = false ∧
          (throws.publish && throws.listenerLog) = false))) := by
  unfold finish
  dsimp only
  cases hlog : outcome.logged && throws.log with
  | true =>
    rw [if_pos rfl]
    have hspec := @unpublished_spec r {g with watchdog := false, pending := false, released := true}
      hclaimed hpublishes hsettled rfl rfl
    refine ⟨hspec.1,?_⟩
    intro hwaiters
    rw [hspec.2 hwaiters]
    cases g.done with
    | true => simp
    | false => simp
  | false =>
    rw [if_neg Bool.false_ne_true]
    have hspec := @publishOnce_spec r {g with watchdog := false, pending := false, released := true}
      throws hclaimed hpublishes hsettled rfl rfl
    refine ⟨hspec.1,?_⟩
    intro hwaiters
    rw [hspec.2 hwaiters]
    simp

/-- A claim is accepted before there is a winner. -/
theorem claim_none {r : Reporter} (h : Consistent r) (hg : r.generation = none) :
    claim r = some ⟨r.calls+1,1,none,[],[r.calls]⟩ ∧ r.claimed = 0 := by
  have hidle := h.idle hg
  have hclaimed : ¬r.claimed > 0 := by omega
  unfold claim
  rw [if_neg hclaimed,hg,hidle.1,hidle.2.1,hidle.2.2]
  exact ⟨rfl,rfl⟩

/-- A claim is refused once there is a winner. -/
theorem claim_some {r : Reporter} {g : Generation} (h : Consistent r) (hg : r.generation = some g) :
    claim r = none ∧ r.claimed = 1 := by
  have hwinner := h.winner g hg
  have hclaimed : r.claimed > 0 := by omega
  unfold claim
  rw [if_pos hclaimed]
  exact ⟨rfl,hwinner.1⟩

/-- A fresh winner waits for its teardown. -/
theorem waiting_spec (r : Reporter) : Consistent
    ⟨r.calls+1,1,some ⟨r.calls,false,false,true,true,false⟩,[],[r.calls]⟩ := by
  refine ⟨?_,?_,?_,?_,?_,?_⟩
  · intro hgen
    cases hgen
  · intro other hgen
    cases hgen
    exact ⟨rfl,rfl⟩
  · intro other hgen
    cases hgen
    rfl
  · intro other hgen
    cases hgen
    simp
  · intro other hgen _
    cases hgen
    rfl
  · intro other hgen hpending
    cases hgen
    cases hpending

/-- One step keeps a reporter consistent, and delivers exactly when it logs quietly. -/
theorem step_spec {r next : Reporter} {label : Label} (h : Consistent r) (hs : step r label = some next) :
    Consistent next ∧ (Delivered r → (Delivered next ↔ LogsQuietly r label)) := by
  cases label with
  | reportAfter teardown throws =>
    cases hs
    unfold reportAfter
    cases hg : r.generation with
    | none =>
      have hclaim := claim_none h hg
      rw [hclaim.1]
      cases teardown with
      | promise =>
        refine ⟨waiting_spec r,?_⟩
        intro _
        simp [Delivered,LogsQuietly]
      | throws truthy =>
        have hspec := @finish_spec ⟨r.calls+1,1,none,[],[r.calls]⟩
          ⟨r.calls,false,false,true,true,false⟩ (.rejected truthy) throws ⟨rfl,rfl⟩ rfl (by simp)
        refine ⟨hspec.1,?_⟩
        intro _
        have hdelivered := hspec.2 (by simp)
        dsimp only
        rw [hdelivered]
        simp [LogsQuietly,hclaim.2,TeardownOutcome.logged]
    | some g =>
      have hclaim := claim_some h hg
      rw [hclaim.1]
      refine ⟨h.congr hg.symm rfl rfl rfl,?_⟩
      intro hdelivered
      have hquiet : LogsQuietly r (.reportAfter teardown throws) := by
        cases teardown with
        | promise => trivial
        | throws truthy =>
          intro hclaimed
          omega
      exact ⟨fun _ => hquiet,fun _ other hgen => hdelivered other (hg.trans hgen)⟩
  | reportNow throws =>
    cases hs
    unfold reportNow
    cases hg : r.generation with
    | none =>
      have hclaim := claim_none h hg
      rw [hclaim.1]
      have hspec := @publishOnce_spec ⟨r.calls+1,1,none,[],[r.calls]⟩
        ⟨r.calls,false,false,false,false,true⟩ throws ⟨rfl,rfl⟩ rfl (by simp) rfl rfl
      refine ⟨hspec.1,?_⟩
      intro _
      have hdelivered := hspec.2 (by simp)
      dsimp only
      rw [hdelivered]
      simp [LogsQuietly,hclaim.2]
    | some g =>
      have hclaim := claim_some h hg
      rw [hclaim.1]
      refine ⟨h.congr hg.symm rfl rfl rfl,?_⟩
      intro hdelivered
      have hquiet : LogsQuietly r (.reportNow throws) := by
        intro hclaimed
        omega
      exact ⟨fun _ => hquiet,fun _ other hgen => hdelivered other (hg.trans hgen)⟩
  | teardownSettled outcome throws =>
    simp only [step,teardownSettled] at hs
    cases hg : r.generation with
    | none =>
      rw [hg] at hs
      cases hs
    | some g =>
      rw [hg] at hs
      dsimp only at hs
      split_ifs at hs
      cases hs
      have horder := h.order g hg
      have hspec := finish_spec outcome throws (h.winner g hg) (h.publishes g hg) horder.1
      refine ⟨hspec.1,?_⟩
      intro hdelivered
      have hwaiters : g.done = true → g.settled = true := by
        intro hdone
        exact (hdelivered g hg (horder.2 hdone)).2
      rw [hspec.2 hwaiters]
      constructor
      · intro hquiet other hgen
        rw [hg] at hgen
        cases hgen
        exact hquiet
      · intro hquiet
        exact hquiet g hg
  | watchdog throws =>
    simp only [step,watchdogFires] at hs
    cases hg : r.generation with
    | none =>
      rw [hg] at hs
      cases hs
    | some g =>
      rw [hg] at hs
      dsimp only at hs
      split_ifs at hs with hscheduled hlog
      · cases hs
        have hwaiters := h.watchdog_waiting hg hscheduled
        have hspec := @unpublished_spec r {g with watchdog := false, released := true}
          (h.winner g hg) (h.publishes g hg) (h.order g hg).1 rfl rfl
        refine ⟨hspec.1,?_⟩
        intro _
        rw [hspec.2 (by simp [hwaiters])]
        simp [LogsQuietly,hlog,hwaiters]
      · cases hs
        have hwaiters := h.watchdog_waiting hg hscheduled
        have hspec := @publishOnce_spec r {g with watchdog := false, released := true} throws
          (h.winner g hg) (h.publishes g hg) (h.order g hg).1 rfl rfl
        refine ⟨hspec.1,?_⟩
        intro _
        rw [hspec.2 (by simp [hwaiters])]
        simp [LogsQuietly,hlog,hwaiters]

/-- Publishing and finishing claim nothing. -/
theorem claimed_finish (r : Reporter) (g : Generation) (outcome : TeardownOutcome) (throws : Throws) :
    (publishOnce r g throws).claimed = r.claimed ∧ (finish r g outcome throws).claimed = r.claimed := by
  unfold finish publishOnce
  constructor
  · split_ifs <;> rfl
  · dsimp only
    split_ifs <;> rfl

/-- Whatever asks to report leaves a close claimed. -/
theorem hasReported_report (r : Reporter) (teardown : TeardownCall) (throws : Throws) :
    hasReported (reportAfter r teardown throws) = true ∧ hasReported (reportNow r throws) = true := by
  unfold hasReported
  rw [decide_eq_true_eq,decide_eq_true_eq]
  unfold reportAfter reportNow
  cases hclaim : claim r with
  | none =>
    unfold claim at hclaim
    split_ifs at hclaim with hclaimed
    exact ⟨hclaimed,hclaimed⟩
  | some next =>
    unfold claim at hclaim
    split_ifs at hclaim
    cases hclaim
    dsimp only
    constructor
    · cases teardown with
      | promise => exact Nat.succ_pos _
      | throws truthy =>
        dsimp only
        rw [(claimed_finish _ _ _ _).2]
        exact Nat.succ_pos _
    · rw [(claimed_finish _ _ .resolved _).1]
      exact Nat.succ_pos _

/-- A claimed close stays claimed. -/
theorem hasReported_step {r next : Reporter} {label : Label} (hs : step r label = some next)
    (h : hasReported r = true) : hasReported next = true := by
  cases label with
  | reportAfter teardown throws =>
    cases hs
    exact (hasReported_report r teardown throws).1
  | reportNow throws =>
    cases hs
    exact (hasReported_report r .promise throws).2
  | teardownSettled outcome throws =>
    simp only [step,teardownSettled] at hs
    split at hs
    · split_ifs at hs
      cases hs
      unfold hasReported at h ⊢
      rw [(claimed_finish _ _ _ _).2]
      exact h
    · cases hs
  | watchdog throws =>
    simp only [step,watchdogFires] at hs
    split at hs
    · split_ifs at hs
      · cases hs
        exact h
      · cases hs
        unfold hasReported at h ⊢
        rw [(claimed_finish _ _ .resolved _).1]
        exact h
    · cases hs

/-- A claimed close has a winner. -/
theorem Consistent.generation_of_reported {r : Reporter} (h : Consistent r)
    (hreported : hasReported r = true) : ∃ g, r.generation = some g := by
  cases hg : r.generation with
  | some g => exact ⟨g,rfl⟩
  | none =>
    have hidle := h.idle hg
    rw [hasReported,hidle.1] at hreported
    cases hreported

/-- A new reporter is consistent and owes nothing. -/
theorem start_spec : Consistent start ∧ Delivered start := by
  constructor
  · refine ⟨fun _ => ⟨rfl,rfl,rfl⟩,?_,?_,?_,?_,?_⟩
    · intro g hgen
      cases hgen
    · intro g hgen
      cases hgen
    · intro g hgen
      cases hgen
    · intro g hgen
      cases hgen
    · intro g hgen
      cases hgen
  · intro g hgen
    cases hgen

/-- A reporter keeps its promise in every state of a run exactly when no logger it
calls throws while the close is unpublished. -/
theorem contract_iff_quiet {last : Reporter} {labels : List Label}
    (hr : run step start labels = some last) :
    Throughout step Contract start labels ↔ Guarded step LogsQuietly start labels := by
  refine throughout_iff_guarded ?_ ?_ hr start_spec.1 (start_spec.1.contract_iff.mpr start_spec.2)
  · intro r label next hconsistent hs
    exact (step_spec hconsistent hs).1
  · intro r label next hconsistent hcontract hs
    have hspec := step_spec hconsistent hs
    rw [hspec.1.contract_iff]
    exact hspec.2 (hconsistent.contract_iff.mp hcontract)

/-- A teardown that rejects after the watchdog has published, with a throwing logger. -/
theorem contract_iff_quiet_late :
    Throughout step Contract start [.reportAfter .promise quietly,.watchdog quietly,
        .teardownSettled (.rejected true) ⟨true,false,false⟩,.reportNow quietly] ↔
      Guarded step LogsQuietly start [.reportAfter .promise quietly,.watchdog quietly,
        .teardownSettled (.rejected true) ⟨true,false,false⟩,.reportNow quietly] :=
  contract_iff_quiet (rfl : run step start [.reportAfter .promise quietly,.watchdog quietly,
    .teardownSettled (.rejected true) ⟨true,false,false⟩,.reportNow quietly] =
      some ⟨2,1,some ⟨0,true,true,false,false,true⟩,[0],[0]⟩)

/-- A logger that throws on a rejected teardown leaves the close unpublished. -/
theorem rejected_teardown_unpublished :
    ¬∀ labels last, run step start labels = some last → Contract last := by
  intro hall
  have hcontract := hall [.reportAfter .promise quietly,
    .teardownSettled (.rejected true) ⟨true,false,false⟩]
    ⟨1,1,some ⟨0,false,false,false,false,true⟩,[],[0]⟩ rfl
  have hdelivered := (hcontract.delivered _ rfl rfl).1
  cases hdelivered

end Baileyrs.CloseReporter
