import Mathlib.Data.List.Basic

/-!
# Programs that may crash

A program performs steps on a shared state. The environment answers each step, and
the process crashes between two steps when no answer is left. A program so ends in one
of three ways: it returns, it throws, or it crashed where it was. A triple states what
holds of the state in each of them, and the rules below prove triples along the syntax
of the program.
-/

namespace Baileyrs.CrashPrograms

variable {σ χ ε α β γ : Type}

/-- How a program ended, with the state it left and the answers not used. -/
inductive Ending (σ χ ε α : Type) where
  | returned (value : α) (state : σ) (answers : List χ)
  | thrown (error : ε) (state : σ) (answers : List χ)
  | crashed (state : σ)

/-- State a program left. -/
def Ending.state : Ending σ χ ε α → σ
  | .returned _ state _ => state
  | .thrown _ state _ => state
  | .crashed state => state

/-- A program over a state, run on the answers of its environment. -/
def Program (σ χ ε α : Type) := σ → List χ → Ending σ χ ε α

namespace Program

/-- Return a value. -/
def ret (value : α) : Program σ χ ε α := fun s answers => .returned value s answers

/-- Throw an error. -/
def throw (error : ε) : Program σ χ ε α := fun s answers => .thrown error s answers

/-- Go on with the value of a program. -/
def bind (program : Program σ χ ε α) (next : α → Program σ χ ε β) : Program σ χ ε β :=
  fun s answers =>
    match program s answers with
    | .returned value s answers => next value s answers
    | .thrown error s answers => .thrown error s answers
    | .crashed s => .crashed s

/-- Handle what a program throws. -/
def catching (program : Program σ χ ε α) (handler : ε → Program σ χ ε α) : Program σ χ ε α :=
  fun s answers =>
    match program s answers with
    | .returned value s answers => .returned value s answers
    | .thrown error s answers => handler error s answers
    | .crashed s => .crashed s

instance : Monad (Program σ χ ε) where
  pure := ret
  bind := bind

/-- Run a block after a program, however the program ends. -/
def finallyDo (program : Program σ χ ε α) (block : Program σ χ ε Unit) : Program σ χ ε α := do
  let outcome ← catching (do
    let value ← program
    return Except.ok value) (fun error => ret (.error error))
  block
  match outcome with
  | .ok value => ret value
  | .error error => throw error

/-- A step whose effect its answer decides. -/
def perform (effect : σ → χ → σ × Except ε α) : Program σ χ ε α
  | s,[] => .crashed s
  | s,answer::answers =>
    match effect s answer with
    | (next,.ok value) => .returned value next answers
    | (next,.error error) => .thrown error next answers

/-- Run a program for each item in turn. -/
def forEach : List β → (β → Program σ χ ε Unit) → Program σ χ ε Unit
  | [],_ => ret ()
  | item::items,body => do
    body item
    forEach items body

end Program

open Program

/-- What holds of an ending. -/
def Ending.Holds (returns : α → σ → Prop) (throws : ε → σ → Prop) (crashes : σ → Prop) :
    Ending σ χ ε α → Prop
  | .returned value s _ => returns value s
  | .thrown error s _ => throws error s
  | .crashed s => crashes s

/-- Whether a program returned. -/
def Ending.hasReturned : Ending σ χ ε α → Bool
  | .returned _ _ _ => true
  | _ => false

theorem Ending.Holds.returned {ending : Ending σ χ ε α} {returns : α → σ → Prop}
    {throws : ε → σ → Prop} {crashes : σ → Prop} (h : ending.Holds returns throws crashes)
    (hreturned : ending.hasReturned = true) : ∃ value, returns value ending.state := by
  cases ending with
  | returned value state rest => exact ⟨value,h⟩
  | thrown error state rest => cases hreturned
  | crashed state => cases hreturned

/-- From every state with the precondition the program ends as stated. -/
def Triple (pre : σ → Prop) (program : Program σ χ ε α) (returns : α → σ → Prop)
    (throws : ε → σ → Prop) (crashes : σ → Prop) : Prop :=
  ∀ s answers, pre s → (program s answers).Holds returns throws crashes

/-- A property holds however the program ends, if it held before. -/
def Keeps (P : σ → Prop) (program : Program σ χ ε α) : Prop :=
  Triple P program (fun _ => P) (fun _ => P) P

variable {P P' : σ → Prop} {program : Program σ χ ε α} {returns returns' : α → σ → Prop}
  {throws throws' : ε → σ → Prop} {crashes crashes' : σ → Prop}

/-- The rule of consequence. -/
theorem Triple.consequence (h : Triple P program returns throws crashes)
    (hpre : ∀ s, P' s → P s) (hreturns : ∀ value s, returns value s → returns' value s)
    (hthrows : ∀ error s, throws error s → throws' error s)
    (hcrashes : ∀ s, crashes s → crashes' s) : Triple P' program returns' throws' crashes' := by
  intro s answers hs
  have hend := h s answers (hpre s hs)
  cases hrun : program s answers with
  | returned value s' rest =>
    rw [hrun] at hend
    exact hreturns value s' hend
  | thrown error s' rest =>
    rw [hrun] at hend
    exact hthrows error s' hend
  | crashed s' =>
    rw [hrun] at hend
    exact hcrashes s' hend

theorem Triple.strengthen (h : Triple P program returns throws crashes)
    (hpre : ∀ s, P' s → P s) : Triple P' program returns throws crashes :=
  h.consequence hpre (fun _ _ hv => hv) (fun _ _ he => he) (fun _ hc => hc)

theorem Triple.weaken (h : Triple P program returns throws crashes)
    (hreturns : ∀ value s, returns value s → returns' value s) : Triple P program returns' throws crashes :=
  h.consequence (fun _ hs => hs) hreturns (fun _ _ he => he) (fun _ hc => hc)

/-- Failures may be described more coarsely. -/
theorem Triple.fails (h : Triple P program returns throws crashes)
    (hthrows : ∀ error s, throws error s → throws' error s)
    (hcrashes : ∀ s, crashes s → crashes' s) : Triple P program returns throws' crashes' :=
  h.consequence (fun _ hs => hs) (fun _ _ hv => hv) hthrows hcrashes

theorem Keeps.fails {F : σ → Prop} (h : Keeps P program) (hF : ∀ s, P s → F s) :
    Triple P program (fun _ => P) (fun _ => F) F :=
  Triple.fails h (fun _ => hF) hF

/-- What the precondition says may be assumed. -/
theorem Triple.assume (fact : Prop) (hfact : ∀ s, P s → fact)
    (h : fact → Triple P program returns throws crashes) : Triple P program returns throws crashes :=
  fun s answers hs => h (hfact s hs) s answers hs

/-- A witness of the precondition may be chosen before the program runs. -/
theorem Triple.choose {Q : γ → σ → Prop} (h : ∀ x, Triple (Q x) program returns throws crashes) :
    Triple (fun s => ∃ x, Q x s) program returns throws crashes := by
  intro s answers hs
  rcases hs with ⟨x,hx⟩
  exact h x s answers hx

theorem Triple.ret {value : α} (h : ∀ s, P s → returns value s) :
    Triple P (Program.ret value : Program σ χ ε α) returns throws crashes :=
  fun s _ hs => h s hs

theorem Triple.throw {error : ε} (h : ∀ s, P s → throws error s) :
    Triple P (Program.throw error : Program σ χ ε α) returns throws crashes :=
  fun s _ hs => h s hs

/-- Programs run in sequence share how they may fail. -/
theorem Triple.bind {Q : α → σ → Prop} {after : β → σ → Prop} {next : α → Program σ χ ε β}
    (h : Triple P program Q throws crashes) (hnext : ∀ value, Triple (Q value) (next value) after throws crashes) :
    Triple P (program >>= next) after throws crashes := by
  intro s answers hs
  have hend := h s answers hs
  change (Program.bind program next s answers).Holds after throws crashes
  unfold Program.bind
  cases hrun : program s answers with
  | returned value s' rest =>
    rw [hrun] at hend
    exact hnext value s' rest hend
  | thrown error s' rest =>
    rw [hrun] at hend
    exact hend
  | crashed s' =>
    rw [hrun] at hend
    exact hend

/-- A handler runs in what the error left. -/
theorem Triple.catching {handler : ε → Program σ χ ε α} (caught : ε → σ → Prop)
    (h : Triple P program returns caught crashes)
    (hhandler : ∀ error, Triple (caught error) (handler error) returns throws crashes) :
    Triple P (Program.catching program handler) returns throws crashes := by
  intro s answers hs
  have hend := h s answers hs
  unfold Program.catching
  cases hrun : program s answers with
  | returned value s' rest =>
    rw [hrun] at hend
    exact hend
  | thrown error s' rest =>
    rw [hrun] at hend
    exact hhandler error s' rest hend
  | crashed s' =>
    rw [hrun] at hend
    exact hend

/-- The block runs on both ways out. -/
theorem Triple.finallyDo {block : Program σ χ ε Unit} {Q : α → σ → Prop} {caught : ε → σ → Prop}
    (h : Triple P program Q caught crashes)
    (hreturned : ∀ value, Triple (Q value) block (fun _ => returns value) throws crashes)
    (hthrown : ∀ error, Triple (caught error) block (fun _ => throws error) throws crashes) :
    Triple P (Program.finallyDo program block) returns throws crashes := by
  unfold Program.finallyDo
  have houtcome : Triple P (Program.catching (do
      let value ← program
      return Except.ok value) (fun error => Program.ret (.error error)))
      (fun outcome s => match outcome with
        | .ok value => Q value s
        | .error error => caught error s) throws crashes := by
    refine Triple.catching caught (h.bind ?_) ?_
    · intro value
      exact Triple.ret fun s hs => hs
    · intro error
      exact Triple.ret fun s hs => hs
  refine houtcome.bind ?_
  intro outcome
  cases outcome with
  | ok value =>
    refine (hreturned value).bind ?_
    intro _
    exact Triple.ret fun s hs => hs
  | error error =>
    refine (hthrown error).bind ?_
    intro _
    exact Triple.throw fun s hs => hs

/-- A step may crash before its effect. -/
theorem Triple.perform {effect : σ → χ → σ × Except ε α} (hcrashes : ∀ s, P s → crashes s)
    (hok : ∀ s answer value, P s → (effect s answer).2 = .ok value → returns value (effect s answer).1)
    (herror : ∀ s answer error, P s → (effect s answer).2 = .error error → throws error (effect s answer).1) :
    Triple P (Program.perform effect) returns throws crashes := by
  intro s answers hs
  cases answers with
  | nil => exact hcrashes s hs
  | cons answer rest =>
    have hret := hok s answer
    have hthr := herror s answer
    unfold Program.perform
    rcases heffect : effect s answer with ⟨next,result⟩
    rw [heffect] at hret hthr
    simp only [heffect]
    cases result with
    | ok value => exact hret value hs rfl
    | error error => exact hthr error hs rfl

/-- A loop is proved with an invariant over the items that remain. -/
theorem Triple.forEach {body : β → Program σ χ ε Unit} (I : List β → σ → Prop)
    (hbody : ∀ item rest, Triple (I (item::rest)) (body item) (fun _ => I rest) throws crashes)
    (items : List β) : Triple (I items) (Program.forEach items body) (fun _ => I []) throws crashes := by
  induction items with
  | nil => exact Triple.ret fun s hs => hs
  | cons item rest ih =>
    refine (hbody item rest).bind ?_
    intro _
    exact ih

theorem Keeps.ret (value : α) : Keeps P (Program.ret value : Program σ χ ε α) :=
  Triple.ret fun _ hs => hs

theorem Keeps.throw (error : ε) : Keeps P (Program.throw error : Program σ χ ε α) :=
  Triple.throw fun _ hs => hs

theorem Keeps.bind {next : α → Program σ χ ε β} (h : Keeps P program)
    (hnext : ∀ value, Keeps P (next value)) : Keeps P (program >>= next) :=
  Triple.bind h hnext

theorem Keeps.catching {handler : ε → Program σ χ ε α} (h : Keeps P program)
    (hhandler : ∀ error, Keeps P (handler error)) : Keeps P (Program.catching program handler) :=
  Triple.catching (fun _ => P) h hhandler

/-- A step that leaves the state alone keeps everything. -/
theorem Keeps.perform {effect : σ → χ → σ × Except ε α} (heffect : ∀ s answer, P s → P (effect s answer).1) :
    Keeps P (Program.perform effect) :=
  Triple.perform (fun _ hs => hs) (fun s answer _ hs _ => heffect s answer hs)
    (fun s answer _ hs _ => heffect s answer hs)

/-- What holds of an ending of a program that did not crash, with answers of one kind left. -/
def Ending.HoldsOn (good : χ → Prop) (returns : α → σ → Prop) (throws : ε → σ → Prop) :
    Ending σ χ ε α → Prop
  | .returned value s answers => returns value s ∧ ∀ answer ∈ answers, good answer
  | .thrown error s answers => throws error s ∧ ∀ answer ∈ answers, good answer
  | .crashed _ => True

/-- On answers of one kind the program ends as stated, unless it crashes. -/
def TripleOn (good : χ → Prop) (pre : σ → Prop) (program : Program σ χ ε α)
    (returns : α → σ → Prop) (throws : ε → σ → Prop) : Prop :=
  ∀ s answers, pre s → (∀ answer ∈ answers, good answer) →
    (program s answers).HoldsOn good returns throws

section AnswersOfOneKind

variable {good : χ → Prop}

theorem TripleOn.ret {value : α} (h : ∀ s, P s → returns value s) :
    TripleOn good P (Program.ret value : Program σ χ ε α) returns throws :=
  fun s _ hs hgood => ⟨h s hs,hgood⟩

theorem TripleOn.throw {error : ε} (h : ∀ s, P s → throws error s) :
    TripleOn good P (Program.throw error : Program σ χ ε α) returns throws :=
  fun s _ hs hgood => ⟨h s hs,hgood⟩

/-- The rule of consequence. -/
theorem TripleOn.consequence (h : TripleOn good P program returns throws)
    (hpre : ∀ s, P' s → P s) (hreturns : ∀ value s, returns value s → returns' value s)
    (hthrows : ∀ error s, throws error s → throws' error s) : TripleOn good P' program returns' throws' := by
  intro s answers hs hgood
  have hend := h s answers (hpre s hs) hgood
  cases hrun : program s answers with
  | returned value s' rest =>
    rw [hrun] at hend
    exact ⟨hreturns value s' hend.1,hend.2⟩
  | thrown error s' rest =>
    rw [hrun] at hend
    exact ⟨hthrows error s' hend.1,hend.2⟩
  | crashed s' => exact trivial

/-- The state before the program may be fixed. -/
theorem TripleOn.fix (h : ∀ s, P s → TripleOn good (fun s' => s' = s) program returns throws) :
    TripleOn good P program returns throws :=
  fun s answers hs hgood => h s hs s answers rfl hgood

/-- Programs run in sequence share how they may fail. -/
theorem TripleOn.bind {Q : α → σ → Prop} {after : β → σ → Prop} {next : α → Program σ χ ε β}
    (h : TripleOn good P program Q throws) (hnext : ∀ value, TripleOn good (Q value) (next value) after throws) :
    TripleOn good P (program >>= next) after throws := by
  intro s answers hs hgood
  have hend := h s answers hs hgood
  change (Program.bind program next s answers).HoldsOn good after throws
  unfold Program.bind
  cases hrun : program s answers with
  | returned value s' rest =>
    rw [hrun] at hend
    exact hnext value s' rest hend.1 hend.2
  | thrown error s' rest =>
    rw [hrun] at hend
    exact hend
  | crashed s' => exact trivial

/-- A handler runs in what the error left. -/
theorem TripleOn.catching {handler : ε → Program σ χ ε α} (caught : ε → σ → Prop)
    (h : TripleOn good P program returns caught)
    (hhandler : ∀ error, TripleOn good (caught error) (handler error) returns throws) :
    TripleOn good P (Program.catching program handler) returns throws := by
  intro s answers hs hgood
  have hend := h s answers hs hgood
  unfold Program.catching
  cases hrun : program s answers with
  | returned value s' rest =>
    rw [hrun] at hend
    exact hend
  | thrown error s' rest =>
    rw [hrun] at hend
    exact hhandler error s' rest hend.1 hend.2
  | crashed s' => exact trivial

/-- A step is judged on the answers of the kind. -/
theorem TripleOn.perform {effect : σ → χ → σ × Except ε α}
    (hok : ∀ s answer value, P s → good answer → (effect s answer).2 = .ok value → returns value (effect s answer).1)
    (herror : ∀ s answer error, P s → good answer → (effect s answer).2 = .error error →
      throws error (effect s answer).1) : TripleOn good P (Program.perform effect) returns throws := by
  intro s answers hs hgood
  cases answers with
  | nil => exact trivial
  | cons answer rest =>
    have hanswer := hgood answer List.mem_cons_self
    have hrest : ∀ other ∈ rest, good other :=
      fun other hother => hgood other (List.mem_cons_of_mem _ hother)
    have hret := hok s answer
    have hthr := herror s answer
    unfold Program.perform
    rcases heffect : effect s answer with ⟨next,result⟩
    rw [heffect] at hret hthr
    simp only [heffect]
    cases result with
    | ok value => exact ⟨hret value hs hanswer rfl,hrest⟩
    | error error => exact ⟨hthr error hs hanswer rfl,hrest⟩

end AnswersOfOneKind

end Baileyrs.CrashPrograms
