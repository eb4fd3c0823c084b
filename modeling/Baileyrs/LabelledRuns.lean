import Mathlib.Data.List.Basic

/-!
# Runs of a labelled machine

A machine is a partial step function: a label carries every choice of its
environment, and a refused label has no successor. Runs execute a list of
labels in order. The rules below lift facts about one step to whole runs:
invariants, relations between both ends, and invariants of guarded runs.
-/

namespace Baileyrs.LabelledRuns

variable {σ α : Type*} {step : σ → α → Option σ}

/-- Execute the labels in order; the first refused label stops the run. -/
def run (step : σ → α → Option σ) : σ → List α → Option σ
  | s,[] => some s
  | s,a::rest => (step s a).bind fun next => run step next rest

@[simp] theorem run_nil (s : σ) : run step s [] = some s := rfl

theorem run_cons (s : σ) (a : α) (rest : List α) :
    run step s (a::rest) = (step s a).bind fun next => run step next rest := rfl

/-- A completed nonempty run has a completed first step. -/
theorem run_cons_some {s last : σ} {a : α} {rest : List α} (h : run step s (a::rest) = some last) :
    ∃ next, step s a = some next ∧ run step next rest = some last := by
  rw [run_cons] at h
  exact Option.bind_eq_some_iff.mp h

/-- Running a concatenation is running both parts in sequence. -/
theorem run_append (s : σ) (first second : List α) :
    run step s (first++second) = (run step s first).bind fun mid => run step mid second := by
  induction first generalizing s with
  | nil => rfl
  | cons a rest ih =>
    rw [List.cons_append,run_cons,run_cons]
    cases hs : step s a with
    | none => rfl
    | some next => exact ih next

/-- One more accepted label extends a completed run. -/
theorem run_snoc {s mid last : σ} {labels : List α} {a : α}
    (hr : run step s labels = some mid) (hs : step mid a = some last) : run step s (labels++[a]) = some last := by
  rw [run_append,hr]
  change run step mid [a] = some last
  rw [run_cons,hs]
  rfl

/-- State after the labels, or the start when one of them is refused. -/
def after (step : σ → α → Option σ) (s : σ) (labels : List α) : σ := (run step s labels).getD s

/-- A run that is not refused ends in the state after its labels. -/
theorem run_after {s : σ} {labels : List α} (h : (run step s labels).isSome = true) :
    run step s labels = some (after step s labels) := by
  obtain ⟨last,hr⟩ := Option.isSome_iff_exists.mp h
  rw [after,hr]
  rfl

/-- The state after one more accepted label is its successor. -/
theorem step_after {s : σ} {labels : List α} {a : α} (h : (run step s (labels++[a])).isSome = true) :
    step (after step s labels) a = some (after step s (labels++[a])) := by
  have hwhole := run_after h
  rw [run_append] at hwhole
  obtain ⟨mid,hm,hlast⟩ := Option.bind_eq_some_iff.mp hwhole
  obtain ⟨next,hn,hnil⟩ := run_cons_some hlast
  cases hnil
  rw [show after step s labels = mid by rw [after,hm]; rfl]
  exact hn

/-- A property kept by every step holds at the end of every run. -/
theorem run_invariant {P : σ → Prop} (hstep : ∀ s a next, P s → step s a = some next → P next)
    {s last : σ} {labels : List α} (hr : run step s labels = some last) (hs : P s) : P last := by
  induction labels generalizing s with
  | nil =>
    cases hr
    exact hs
  | cons a rest ih =>
    obtain ⟨next,hn,hrest⟩ := run_cons_some hr
    exact ih hrest (hstep s a next hs hn)

/-- Where every step of an invariant set is a step of another machine, so is every run. -/
theorem run_map {τ : Type*} {step' : τ → α → Option τ} {P : σ → Prop} (forget : σ → τ)
    (hstep : ∀ s a, P s → (step s a).map forget = step' (forget s) a)
    (hkeeps : ∀ s a next, P s → step s a = some next → P next) {s : σ} (hs : P s) (labels : List α) :
    (run step s labels).map forget = run step' (forget s) labels := by
  induction labels generalizing s with
  | nil => rfl
  | cons a rest ih =>
    have hmapped := hstep s a hs
    rw [run_cons,run_cons,← hmapped]
    cases hnext : step s a with
    | none => rfl
    | some next => exact ih (hkeeps s a next hs hnext)

/-- A reflexive and transitive relation kept by every step of an invariant
set relates both ends of every run that starts in the set. -/
theorem run_relation {P : σ → Prop} {R : σ → σ → Prop} (hrefl : ∀ s, R s s)
    (htrans : ∀ s mid last, R s mid → R mid last → R s last)
    (hstep : ∀ s a next, P s → step s a = some next → P next ∧ R s next)
    {s last : σ} {labels : List α} (hr : run step s labels = some last) (hs : P s) : R s last := by
  induction labels generalizing s with
  | nil =>
    cases hr
    exact hrefl _
  | cons a rest ih =>
    obtain ⟨next,hn,hrest⟩ := run_cons_some hr
    obtain ⟨hp,hR⟩ := hstep s a next hs hn
    exact htrans s next last hR (ih hrest hp)

/-- Every label of the run meets its guard at the state it is executed in. -/
def Guarded (step : σ → α → Option σ) (guard : σ → α → Prop) : σ → List α → Prop
  | _,[] => True
  | s,a::rest => guard s a ∧ ∀ next, step s a = some next → Guarded step guard next rest

/-- A property kept by every guarded step holds at the end of a guarded run. -/
theorem run_guarded_invariant {P : σ → Prop} {guard : σ → α → Prop}
    (hstep : ∀ s a next, P s → guard s a → step s a = some next → P next)
    {s last : σ} {labels : List α} (hg : Guarded step guard s labels)
    (hr : run step s labels = some last) (hs : P s) : P last := by
  induction labels generalizing s with
  | nil =>
    cases hr
    exact hs
  | cons a rest ih =>
    obtain ⟨next,hn,hrest⟩ := run_cons_some hr
    exact ih (hg.2 next hn) hrest (hstep s a next hs hg.1 hn)

/-- A property holds in every state of the run. -/
def Throughout (step : σ → α → Option σ) (P : σ → Prop) : σ → List α → Prop
  | s,[] => P s
  | s,a::rest => P s ∧ ∀ next, step s a = some next → Throughout step P next rest

/-- What holds throughout a run holds at its end. -/
theorem Throughout.last {P : σ → Prop} {s last : σ} {labels : List α} (h : Throughout step P s labels)
    (hr : run step s labels = some last) : P last := by
  induction labels generalizing s with
  | nil =>
    cases hr
    exact h
  | cons a rest ih =>
    obtain ⟨next,hn,hrest⟩ := run_cons_some hr
    exact ih (h.2 next hn) hrest

/-- What an invariant implies holds throughout every run. -/
theorem throughout_invariant {I P : σ → Prop} (hstep : ∀ s a next, I s → step s a = some next → I next)
    (himplies : ∀ s, I s → P s) {s : σ} (hs : I s) (labels : List α) : Throughout step P s labels := by
  induction labels generalizing s with
  | nil => exact himplies s hs
  | cons a rest ih => exact ⟨himplies s hs,fun next hn => ih (hstep s a next hs hn)⟩

/-- Where one step keeps a property exactly when it meets its guard, a run keeps it
throughout exactly when it is guarded. -/
theorem throughout_iff_guarded {I P : σ → Prop} {guard : σ → α → Prop}
    (hinvariant : ∀ s a next, I s → step s a = some next → I next)
    (hstep : ∀ s a next, I s → P s → step s a = some next → (P next ↔ guard s a))
    {s last : σ} {labels : List α} (hr : run step s labels = some last) (hi : I s) (hp : P s) :
    Throughout step P s labels ↔ Guarded step guard s labels := by
  induction labels generalizing s with
  | nil => exact ⟨fun _ => trivial,fun _ => hp⟩
  | cons a rest ih =>
    obtain ⟨next,hn,hrest⟩ := run_cons_some hr
    have hnext := hstep s a next hi hp hn
    have hinext := hinvariant s a next hi hn
    have hhead : ∀ labels, Throughout step P next labels → P next := by
      intro labels h
      cases labels with
      | nil => exact h
      | cons b rest => exact h.1
    constructor
    · rintro ⟨_,htail⟩
      have hpnext := hhead rest (htail next hn)
      refine ⟨hnext.mp hpnext,?_⟩
      intro other hother
      rw [hn] at hother
      cases hother
      exact (ih hrest hinext hpnext).mp (htail next hn)
    · rintro ⟨hguard,htail⟩
      have hpnext := hnext.mpr hguard
      refine ⟨hp,?_⟩
      intro other hother
      rw [hn] at hother
      cases hother
      exact (ih hrest hinext hpnext).mpr (htail next hn)

/-- Guards that agree in the states of an invariant guard the same runs. -/
theorem guarded_congr {I : σ → Prop} {guard other : σ → α → Prop}
    (hinvariant : ∀ s a next, I s → step s a = some next → I next) (hsame : ∀ s a, I s → (guard s a ↔ other s a))
    {s : σ} (hi : I s) (labels : List α) : Guarded step guard s labels ↔ Guarded step other s labels := by
  induction labels generalizing s with
  | nil => exact Iff.rfl
  | cons a rest ih =>
    refine and_congr (hsame s a hi) (forall_congr' fun next => forall_congr' fun hstep => ?_)
    exact ih (hinvariant s a next hi hstep)

/-- A guard that an invariant of guarded runs implies is met by them. -/
theorem Guarded.implies {I : σ → Prop} {guard other : σ → α → Prop}
    (hinvariant : ∀ s a next, I s → guard s a → step s a = some next → I next) (himplies : ∀ s a, I s → other s a)
    {s : σ} {labels : List α} (hi : I s) (hg : Guarded step guard s labels) : Guarded step other s labels := by
  induction labels generalizing s with
  | nil => trivial
  | cons a rest ih => exact ⟨himplies s a hi,fun next hstep => ih (hinvariant s a next hi hg.1 hstep) (hg.2 next hstep)⟩

/-- A condition on every label may join the guard. -/
theorem Guarded.and_labels {guard : σ → α → Prop} {Q : α → Prop} {s : σ} {labels : List α}
    (hg : Guarded step guard s labels) (hq : ∀ a ∈ labels, Q a) :
    Guarded step (fun s a => guard s a ∧ Q a) s labels := by
  induction labels generalizing s with
  | nil => trivial
  | cons a rest ih =>
    exact ⟨⟨hg.1,hq a List.mem_cons_self⟩,fun next hn =>
      ih (hg.2 next hn) fun b hb => hq b (List.mem_cons_of_mem a hb)⟩

/-- States that some completed run reaches from an initial one. -/
def Reachable (step : σ → α → Option σ) (initial : σ → Prop) (s : σ) : Prop :=
  ∃ start labels, initial start ∧ run step start labels = some s

theorem Reachable.start {initial : σ → Prop} {s : σ} (h : initial s) :
    Reachable step initial s := ⟨s,[],h,rfl⟩

theorem Reachable.next {initial : σ → Prop} {s last : σ} {a : α}
    (h : Reachable step initial s) (hs : step s a = some last) : Reachable step initial last := by
  obtain ⟨start,labels,hi,hr⟩ := h
  exact ⟨start,labels++[a],hi,run_snoc hr hs⟩

/-- A run from a reachable state ends in a reachable state. -/
theorem Reachable.run {initial : σ → Prop} {s last : σ} {labels : List α}
    (h : Reachable step initial s) (hr : run step s labels = some last) : Reachable step initial last := by
  obtain ⟨start,first,hi,hf⟩ := h
  refine ⟨start,first++labels,hi,?_⟩
  rw [run_append,hf]
  exact hr

/-- An invariant of the initial states and of every step holds wherever the
machine can get. -/
theorem Reachable.invariant {initial P : σ → Prop} {s : σ} (h : Reachable step initial s) (hinit : ∀ s, initial s → P s)
    (hstep : ∀ s a next, P s → step s a = some next → P next) : P s := by
  obtain ⟨start,labels,hi,hr⟩ := h
  exact run_invariant hstep hr (hinit start hi)

end Baileyrs.LabelledRuns
