import Mathlib.Data.Fintype.EquivFin
import Mathlib.Data.List.Basic
import Mathlib.Logic.Function.Basic
import Mathlib.Logic.Relation
import Mathlib.Order.WellFounded

/-!
# Wait graphs of first-in first-out queues

Tickets queue for resources; a ticket may be held by a node and awaited by a
node. A node waits for every holder ahead of a ticket it awaits. Joining a
queue at its end and leaving it at its front never close a cycle; awaiting a
queued ticket closes one exactly when a holder ahead of it is the node itself
or waits for it. Without a cycle, some node of a finite set waits for nobody.
-/

namespace Baileyrs.WaitGraph

open Relation Function

variable {N M T : Type*}

/-- No node waits for itself, directly or through others. -/
def Acyclic (waits : N → N → Prop) : Prop := ∀ n, ¬TransGen waits n n

/-- Fewer waits keep the graph acyclic. -/
theorem Acyclic.mono {waits fewer : N → N → Prop} (h : Acyclic waits)
    (hsub : ∀ a b, fewer a b → waits a b) : Acyclic fewer :=
  fun n hn => h n (TransGen.mono hsub _ _ hn)

/-- Waits of one node, added to a graph, only matter on paths through it. -/
theorem transGen_extend {waits : N → N → Prop} {n a b : N} {targets : N → Prop}
    (h : TransGen (fun x y => waits x y ∨ x = n ∧ targets y) a b) :
    TransGen waits a b ∨ ∃ t, targets t ∧ ReflTransGen waits t b := by
  induction h with
  | single hstep =>
    rcases hstep with hold | ⟨_,hnew⟩
    · exact .inl (TransGen.single hold)
    · exact .inr ⟨_,hnew,ReflTransGen.refl⟩
  | tail _ hstep ih =>
    rcases hstep with hold | ⟨_,hnew⟩
    · rcases ih with hpath | ⟨t,ht,hpath⟩
      · exact .inl (hpath.tail hold)
      · exact .inr ⟨t,ht,hpath.tail hold⟩
    · exact .inr ⟨_,hnew,ReflTransGen.refl⟩

/-- A path that ends before any new wait begins at the node, or is old. -/
theorem transGen_extend_source {waits : N → N → Prop} {n a b : N} {targets : N → Prop}
    (h : TransGen (fun x y => waits x y ∨ x = n ∧ targets y) a b) : TransGen waits a b ∨ ReflTransGen waits a n := by
  induction h with
  | single hstep =>
    rcases hstep with hold | ⟨heq,_⟩
    · exact .inl (TransGen.single hold)
    · exact .inr (heq ▸ ReflTransGen.refl)
  | tail _ hstep ih =>
    rcases ih with hpath | hpath
    · rcases hstep with hold | ⟨heq,_⟩
      · exact .inl (hpath.tail hold)
      · exact .inr (heq ▸ hpath.to_reflTransGen)
    · exact .inr hpath

/-- New waits of one node close a cycle exactly when a target of them is the
node or waits for it. -/
theorem acyclic_extend_iff {waits : N → N → Prop} {n : N} {targets : N → Prop} (h : Acyclic waits) :
    Acyclic (fun x y => waits x y ∨ x = n ∧ targets y) ↔ ∀ t, targets t → ¬ReflTransGen waits t n := by
  constructor
  · intro hnew t ht hpath
    have hback : ReflTransGen (fun x y => waits x y ∨ x = n ∧ targets y) t n :=
      ReflTransGen.mono (fun _ _ hold => Or.inl hold) _ _ hpath
    exact hnew n (TransGen.head' (.inr ⟨rfl,ht⟩) hback)
  · intro hclear m hm
    rcases transGen_extend hm with hold | ⟨t,ht,hpath⟩
    · exact h m hold
    · rcases transGen_extend_source hm with hold | hend
      · exact h m hold
      · exact hclear t ht (hpath.trans hend)

/-- A node nobody waits for may start to wait. -/
theorem acyclic_extend_new {waits : N → N → Prop} (n : N) (targets : N → Prop)
    (h : Acyclic waits) (hnobody : ∀ m, ¬waits m n) (hself : ¬targets n) :
    Acyclic (fun x y => waits x y ∨ x = n ∧ targets y) := by
  refine (acyclic_extend_iff h).mpr fun t ht hpath => ?_
  rcases ReflTransGen.cases_tail hpath with heq | ⟨m,_,hlast⟩
  · exact hself (heq ▸ ht)
  · exact hnobody m hlast

/-- In an acyclic graph some node of a nonempty finite range waits for nobody
in it. -/
theorem Acyclic.exists_free {waits : ℕ → ℕ → Prop} (h : Acyclic waits) {bound n : ℕ}
    {member : ℕ → Prop} (hbound : ∀ n, member n → n < bound) (hn : member n) :
    ∃ free, member free ∧ ∀ m, member m → ¬waits free m := by
  let later : Fin bound → Fin bound → Prop := fun a b => TransGen waits b.val a.val
  have htrans : IsTrans (Fin bound) later := ⟨fun _ _ _ hab hbc => hbc.trans hab⟩
  have hirrefl : Std.Irrefl later := ⟨fun a ha => h a.val ha⟩
  have hwf : WellFounded later := Finite.wellFounded_of_trans_of_irrefl later
  obtain ⟨free,hfree,hmin⟩ := hwf.has_min {a | member a.val} ⟨⟨n,hbound n hn⟩,hn⟩
  exact ⟨free.val,hfree,fun m hm hwaits => hmin ⟨m,hbound m hm⟩ hm (TransGen.single hwaits)⟩

section Queues

variable (waiter holder : T → Option N)

/-- A holder is ahead of a ticket with a property. -/
def Ahead (queue : List T) (property : T → Prop) (n : N) : Prop :=
  ∃ (i j : ℕ) (ahead ticket : T), i < j ∧ queue[i]? = some ahead ∧ holder ahead = some n ∧
    queue[j]? = some ticket ∧ property ticket

/-- A node waits for the holders ahead of the tickets it awaits. -/
def Waits (queues : M → List T) (a b : N) : Prop :=
  ∃ m, Ahead holder (queues m) (fun ticket => waiter ticket = some a) b

variable {waiter holder}

/-- Leaving a queue at its front keeps the order of the others. -/
theorem Ahead.of_tail {queue : List T} {property : T → Prop} {n : N}
    (h : Ahead holder queue.tail property n) : Ahead holder queue property n := by
  obtain ⟨i,j,ahead,ticket,hij,hi,hholder,hj,hp⟩ := h
  rw [List.getElem?_tail] at hi hj
  exact ⟨i+1,j+1,ahead,ticket,Nat.succ_lt_succ hij,hi,hholder,hj,hp⟩

/-- A ticket that joins at the end is behind all others. -/
theorem ahead_append {queue : List T} {property : T → Prop} {n : N} {last : T} :
    Ahead holder (queue++[last]) property n ↔
      Ahead holder queue property n ∨ property last ∧ ∃ ahead ∈ queue, holder ahead = some n := by
  constructor
  · rintro ⟨i,j,ahead,ticket,hij,hi,hholder,hj,hp⟩
    have hjlt : j < queue.length+1 := by
      have hlt := (List.getElem?_eq_some_iff.mp hj).1
      rw [List.length_append,List.length_singleton] at hlt
      exact hlt
    have hilt : i < queue.length := by omega
    rw [List.getElem?_append_left hilt] at hi
    by_cases hend : j < queue.length
    · rw [List.getElem?_append_left hend] at hj
      exact .inl ⟨i,j,ahead,ticket,hij,hi,hholder,hj,hp⟩
    · have hlast : j = queue.length := by omega
      rw [hlast,List.getElem?_concat_length] at hj
      cases hj
      exact .inr ⟨hp,ahead,List.mem_of_getElem? hi,hholder⟩
  · rintro (⟨i,j,ahead,ticket,hij,hi,hholder,hj,hp⟩ | ⟨hp,ahead,hm,hholder⟩)
    · have hilt := (List.getElem?_eq_some_iff.mp hi).1
      have hjlt := (List.getElem?_eq_some_iff.mp hj).1
      refine ⟨i,j,ahead,ticket,hij,?_,hholder,?_,hp⟩
      · rw [List.getElem?_append_left hilt]
        exact hi
      · rw [List.getElem?_append_left hjlt]
        exact hj
    · obtain ⟨i,hi⟩ := List.getElem?_of_mem hm
      have hilt := (List.getElem?_eq_some_iff.mp hi).1
      refine ⟨i,queue.length,ahead,last,hilt,?_,hholder,List.getElem?_concat_length,hp⟩
      rw [List.getElem?_append_left hilt]
      exact hi

variable [DecidableEq M]

/-- Leaving one queue at its front adds no wait. -/
theorem Waits.of_tail {queues : M → List T} {m : M} {a b : N}
    (h : Waits waiter holder (update queues m (queues m).tail) a b) : Waits waiter holder queues a b := by
  obtain ⟨k,hk⟩ := h
  by_cases hkm : k = m
  · subst hkm
    rw [update_self] at hk
    exact ⟨k,hk.of_tail⟩
  · rw [update_of_ne hkm] at hk
    exact ⟨k,hk⟩

/-- A new ticket makes its awaiting node wait for the holders in the queue. -/
theorem waits_append {queues : M → List T} {m : M} {last : T} {a b : N} :
    Waits waiter holder (update queues m (queues m++[last])) a b ↔ Waits waiter holder queues a b ∨
        waiter last = some a ∧ ∃ ahead ∈ queues m, holder ahead = some b := by
  constructor
  · rintro ⟨k,hk⟩
    by_cases hkm : k = m
    · subst hkm
      rw [update_self,ahead_append] at hk
      exact hk.imp (fun hold => ⟨k,hold⟩) id
    · rw [update_of_ne hkm] at hk
      exact .inl ⟨k,hk⟩
  · rintro (⟨k,hk⟩ | hnew)
    · refine ⟨k,?_⟩
      by_cases hkm : k = m
      · subst hkm
        rw [update_self,ahead_append]
        exact .inl hk
      · rw [update_of_ne hkm]
        exact hk
    · refine ⟨m,?_⟩
      rw [update_self,ahead_append]
      exact .inr hnew

end Queues

end Baileyrs.WaitGraph
