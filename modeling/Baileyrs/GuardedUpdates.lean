import Mathlib.Data.List.Basic

/-!
# Updates behind checks

A procedure goes through stages. A stage checks its input and then assigns to the state,
and a check that rejects ends the procedure with what was assigned before. When every
stage assigns a part of the state that no later stage assigns, a failure leaves the state
as it was exactly if the state held what the stages before it assign.
-/

namespace Baileyrs.GuardedUpdates

variable {σ ε : Type}

/-- A check that is followed by an assignment. -/
structure Stage (σ ε : Type) where
  /-- The check. -/
  check : Except ε Unit
  /-- The assignment. -/
  assign : σ → σ
  /-- The state holds what is assigned. -/
  Holds : σ → Prop
  /-- The assignment changes every other state. -/
  assign_eq_self : ∀ s, assign s = s ↔ Holds s

/-- Go through the stages up to the first that rejects. -/
def run : List (Stage σ ε) → σ → Except ε Unit × σ
  | [], s => (.ok (),s)
  | stage::rest, s =>
    match stage.check with
    | .error error => (.error error,s)
    | .ok _ => run rest (stage.assign s)

/-- A check rejects. -/
def Rejects {α : Type} (check : Except ε α) : Prop := ∃ error, check = .error error

/-- What is assigned before a check that rejects is held already. -/
def Settled : List (Stage σ ε) → σ → Prop
  | [], _ => True
  | stage::rest, s =>
    stage.check = .ok () → ((∃ later ∈ rest, Rejects later.check) → stage.Holds s) ∧ Settled rest s

/-- A part of the state is assigned by one stage only. -/
structure Owned (stage : Stage σ ε) (rest : List (Stage σ ε)) {ν : Type} (view : σ → ν) : Prop where
  /-- The stage assigns nothing else. -/
  writes : ∀ s, view (stage.assign s) = view s → stage.assign s = s
  /-- Later stages leave it. -/
  keeps : ∀ later ∈ rest, ∀ s, view (later.assign s) = view s

/-- Every stage has a part of the state to itself. -/
def Separate : List (Stage σ ε) → Prop
  | [] => True
  | stage::rest => (∃ (ν : Type) (view : σ → ν), Owned stage rest view) ∧ Separate rest

/-- A view that no stage assigns is left by a run. -/
theorem run_keeps {ν : Type} {view : σ → ν} {stages : List (Stage σ ε)}
    (h : ∀ stage ∈ stages, ∀ s, view (stage.assign s) = view s) (s : σ) : view (run stages s).2 = view s := by
  induction stages generalizing s with
  | nil => rfl
  | cons stage rest ih =>
    have hrest := ih fun later hlater => h later (List.mem_cons_of_mem _ hlater)
    rw [run]
    cases stage.check with
    | error error => rfl
    | ok _ => exact (hrest _).trans (h stage List.mem_cons_self s)

/-- A run fails exactly if a check rejects. -/
theorem run_rejects (stages : List (Stage σ ε)) (s : σ) :
    Rejects (run stages s).1 ↔ ∃ stage ∈ stages, Rejects stage.check := by
  induction stages generalizing s with
  | nil =>
    constructor
    · rintro ⟨error,h⟩
      cases h
    · rintro ⟨stage,hstage,_⟩
      cases hstage
  | cons stage rest ih =>
    rw [run,List.exists_mem_cons_iff]
    cases hcheck : stage.check with
    | error error => exact ⟨fun _ => .inl ⟨error,rfl⟩,fun _ => ⟨error,rfl⟩⟩
    | ok value =>
      have hno : ¬Rejects (Except.ok value : Except ε Unit) := fun ⟨_,h⟩ => nomatch h
      exact (ih _).trans ⟨.inr,fun h => h.resolve_left hno⟩

/-- A failure of a run leaves the state. -/
def Atomic (stages : List (Stage σ ε)) (s : σ) : Prop := Rejects (run stages s).1 → (run stages s).2 = s

/-- A run is atomic exactly if what it assigns before it fails is already held. -/
theorem atomic_iff {stages : List (Stage σ ε)} (h : Separate stages) (s : σ) : Atomic stages s ↔ Settled stages s := by
  induction stages generalizing s with
  | nil => exact ⟨fun _ => trivial,fun _ _ => rfl⟩
  | cons stage rest ih =>
    obtain ⟨⟨ν,view,howned⟩,hrest⟩ := h
    unfold Atomic
    rw [run,Settled]
    cases hcheck : stage.check with
    | error error => exact ⟨fun _ hok => (nomatch hok),fun _ _ => rfl⟩
    | ok value =>
      have hkeeps := run_keeps howned.keeps (stage.assign s)
      constructor
      · intro hatomic _
        have hheld : (∃ later ∈ rest, Rejects later.check) → stage.assign s = s := by
          intro hrejects
          have hsame := hatomic ((run_rejects rest _).mpr hrejects)
          exact howned.writes s (hkeeps.symm.trans (congrArg view hsame))
        refine ⟨fun hrejects => (stage.assign_eq_self s).mp (hheld hrejects),(ih hrest s).mp fun hfails => ?_⟩
        have hassign := hheld ((run_rejects rest s).mp hfails)
        have hsame := hatomic
        dsimp only at hsame
        rw [hassign] at hsame
        exact hsame hfails
      · intro hsettled hfails
        obtain ⟨hheld,hlater⟩ := hsettled rfl
        have hassign := (stage.assign_eq_self s).mpr (hheld ((run_rejects rest _).mp hfails))
        dsimp only at hfails ⊢
        rw [hassign] at hfails ⊢
        exact (ih hrest s).mpr hlater hfails

end Baileyrs.GuardedUpdates
