import Mathlib.Data.List.Chain
import Mathlib.Logic.Function.Basic

/-!
# First come, first served mutex

A call takes the promise at the tail of the mutex as the one it awaits and leaves
its own ticket there. So the calls form a chain: the ticket a call awaits is that of
the call before it in the queue, and only the first one awaits nothing.
-/

namespace Baileyrs.AsyncPrimitives

open Function

/-- A mutex of calls, which are named by their tickets. -/
structure AsyncMutex where
  /-- Ticket of the last call, if there was one. -/
  tail : Option ℕ
  /-- Calls that have not finished. -/
  pending : ℕ

/-- A mutex nobody called. -/
def AsyncMutex.new : AsyncMutex := ⟨none,0⟩

/-- A call awaits the tail and leaves its own ticket there. -/
def AsyncMutex.runExclusive (m : AsyncMutex) (ticket : ℕ) : AsyncMutex × Option ℕ :=
  (⟨some ticket,m.pending+1⟩,m.tail)

/-- The work of a call has settled. -/
def AsyncMutex.settle (m : AsyncMutex) : AsyncMutex := {m with pending := m.pending-1}

/-- Some call has not finished. -/
def AsyncMutex.isLocked (m : AsyncMutex) : Bool := 0 < m.pending

/-- What a call awaits has been released. -/
def Resolved (released : ℕ → Prop) (previous : Option ℕ) : Prop :=
  ∀ p, previous = some p → released p

/-- The calls of a mutex that have not finished, in the order of the chain. -/
structure Queued (previous : ℕ → Option ℕ) (released : ℕ → Prop) (m : AsyncMutex)
    (queue : List ℕ) : Prop where
  /-- They are counted. -/
  pending : m.pending = queue.length
  /-- The last one left its ticket. -/
  last : ∀ t, queue.getLast? = some t → m.tail = some t
  /-- An empty queue lets the next call through. -/
  empty : queue = [] → Resolved released m.tail
  /-- Each one awaits the one before it. -/
  chain : queue.IsChain fun p t => previous t = some p
  /-- The first one awaits nothing. -/
  first : ∀ t, queue.head? = some t → Resolved released (previous t)

variable {previous : ℕ → Option ℕ} {released : ℕ → Prop} {m : AsyncMutex} {queue : List ℕ}

/-- Nobody is queued for a new mutex. -/
theorem queued_new (previous : ℕ → Option ℕ) (released : ℕ → Prop) :
    Queued previous released .new [] where
  pending := rfl
  last := nofun
  empty := nofun
  chain := List.isChain_nil
  first := nofun

/-- A mutex is locked while somebody is queued. -/
theorem Queued.isLocked (h : Queued previous released m queue) : m.isLocked = true ↔ queue ≠ [] := by
  unfold AsyncMutex.isLocked
  rw [h.pending,decide_eq_true_iff,List.length_pos_iff]

/-- A queued call whose predecessor has been released is the first. -/
theorem Queued.head (h : Queued previous released m queue) (hwaiting : ∀ t ∈ queue, ¬released t)
    {t : ℕ} (ht : t ∈ queue) (hready : Resolved released (previous t)) : queue.head? = some t := by
  rcases List.append_of_mem ht with ⟨before,after,hqueue⟩
  rcases List.eq_nil_or_concat before with hnil | ⟨front,p,hconcat⟩
  · rw [hqueue,hnil]
    rfl
  · have hchain := h.chain
    rw [hqueue,hconcat,List.concat_eq_append,List.append_assoc,List.singleton_append] at hchain
    have hprevious := (List.isChain_append_cons_cons.mp hchain).2.1
    have hmember : p ∈ queue := by
      rw [hqueue,hconcat]
      simp
    exact absurd (hready p hprevious) (hwaiting p hmember)

/-- A call joins at the end. -/
theorem Queued.runExclusive (h : Queued previous released m queue) {t : ℕ} (ht : t ∉ queue) :
    Queued (update previous t (m.runExclusive t).2) released (m.runExclusive t).1 (queue++[t]) := by
  have hkeep : ∀ u ∈ queue, update previous t m.tail u = previous u := by
    intro u hu
    exact update_of_ne (ne_of_mem_of_not_mem hu ht) _ _
  refine ⟨?_,?_,?_,?_,?_⟩
  · simp [AsyncMutex.runExclusive,h.pending]
  · intro u hu
    rw [List.getLast?_concat] at hu
    exact hu
  · intro hnil
    simp at hnil
  · refine List.isChain_append.mpr ⟨?_,List.isChain_singleton t,?_⟩
    · refine List.isChain_iff_getElem.mpr ?_
      intro i hi
      have hlink := List.isChain_iff_getElem.mp h.chain i hi
      change update previous t m.tail _ = _
      rw [hkeep _ (List.getElem_mem hi)]
      exact hlink
    · intro p hp u hu
      have hut : u = t := by
        simpa using hu.symm
      subst hut
      have hlast := h.last p hp
      change update previous u m.tail u = some p
      rw [update_self,hlast]
  · intro u hu
    change Resolved released (update previous t m.tail u)
    cases queue with
    | nil =>
      have hut : t = u := by
        simpa using hu
      subst hut
      rw [update_self]
      exact h.empty rfl
    | cons head rest =>
      have hhead : head = u := by
        simpa using hu
      subst hhead
      rw [hkeep head List.mem_cons_self]
      exact h.first head rfl

/-- The first call leaves. -/
theorem Queued.settle {t : ℕ} (h : Queued previous released m (t::queue)) :
    Queued previous (fun p => p = t ∨ released p) m.settle queue := by
  refine ⟨?_,?_,?_,?_,?_⟩
  · have hpending := h.pending
    simp only [List.length_cons] at hpending
    simp only [AsyncMutex.settle]
    omega
  · intro u hu
    have hlast := h.last u
    rw [List.getLast?_cons,hu] at hlast
    exact hlast rfl
  · intro hnil p hp
    have hlast := h.last t
    rw [hnil] at hlast
    have htail := hlast rfl
    change m.tail = some p at hp
    rw [htail] at hp
    exact .inl (Option.some.inj hp).symm
  · exact h.chain.tail
  · intro u hu p hp
    rcases List.head?_eq_some_iff.mp hu with ⟨rest,hrest⟩
    have hchain := h.chain
    rw [hrest] at hchain
    have hlink := (List.isChain_cons_cons.mp hchain).1
    rw [hlink] at hp
    exact .inl (Option.some.inj hp).symm

/-- Calls of other mutexes change nothing. -/
theorem Queued.mono {previous' : ℕ → Option ℕ} {released' : ℕ → Prop}
    (h : Queued previous released m queue) (hprevious : ∀ t ∈ queue, previous' t = previous t)
    (hreleased : ∀ p, released p → released' p) : Queued previous' released' m queue := by
  refine ⟨h.pending,h.last,?_,?_,?_⟩
  · intro hnil p hp
    exact hreleased p (h.empty hnil p hp)
  · refine List.isChain_iff_getElem.mpr ?_
    intro i hi
    rw [hprevious _ (List.getElem_mem hi)]
    exact List.isChain_iff_getElem.mp h.chain i hi
  · intro t ht p hp
    rw [hprevious t (List.mem_of_head? ht)] at hp
    exact hreleased p (h.first t ht p hp)

end Baileyrs.AsyncPrimitives
