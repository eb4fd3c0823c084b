import Mathlib.Data.Int.Notation
import Mathlib.Data.List.Nodup
import Mathlib.Logic.Function.Basic

/-!
# Counted registries of queued locks

Tasks with one key queue for the lock the registry has for it, first come, first
served. A registry may drop the lock of a key once no task that looked it up is
left, which it knows by counting them. Then tasks with one key always queue for one
lock, so they run one at a time and in the order of their arrival.
-/

namespace Baileyrs.LockRegistry

open Function

/-- Where a task is. -/
inductive Phase where
  | waiting
  | running
  | settled
  | released
  deriving DecidableEq

/-- A task and the lock it looked up. -/
structure Job (K : Type*) where
  /-- Its key. -/
  key : K
  /-- The lock it queued for. -/
  lock : ℕ
  /-- Where it is. -/
  phase : Phase

/-- A registry, its counts, the tasks and the queues. -/
structure View (K : Type*) where
  /-- Lock of a key. -/
  registry : K → Option ℕ
  /-- References counted for a key. -/
  references : K → ℤ
  /-- Tasks by the order of their arrival. -/
  tasks : ℕ → Option (Job K)
  /-- Tasks queued for a lock. -/
  queue : ℕ → List ℕ

variable {K : Type*}

/-- The tasks that still refer to the lock of a key. -/
def Refers (v : View K) (key : K) (t : ℕ) : Prop :=
  ∃ task, v.tasks t = some task ∧ task.key = key ∧ task.phase ≠ .released

/-- What a counted registry keeps. -/
structure Orderly (v : View K) : Prop where
  /-- The references of a key are counted. -/
  counted : ∀ key, ∃ users : List ℕ, users.Nodup ∧ (∀ t, t ∈ users ↔ Refers v key t) ∧
    v.references key = users.length
  /-- A task that refers to a lock has the one of the registry. -/
  shared : ∀ t task, v.tasks t = some task → task.phase ≠ .released →
    v.registry task.key = some task.lock
  /-- A task that has not settled is queued. -/
  present : ∀ t task, v.tasks t = some task → task.phase = .waiting ∨ task.phase = .running →
    t ∈ v.queue task.lock
  /-- A running task is first. -/
  first : ∀ t task, v.tasks t = some task → task.phase = .running →
    (v.queue task.lock).head? = some t
  /-- Queues are in the order of arrival. -/
  sorted : ∀ lock, (v.queue lock).Pairwise (· < ·)
  /-- Queued tasks have not settled. -/
  queued : ∀ lock, ∀ t ∈ v.queue lock, ∃ task, v.tasks t = some task ∧ task.lock = lock ∧
    (task.phase = .waiting ∨ task.phase = .running)
  /-- A task starts after the earlier ones with its key. -/
  order : ∀ t u first second, v.tasks t = some first → v.tasks u = some second →
    first.key = second.key → t < u → second.phase ≠ .waiting →
    first.phase = .settled ∨ first.phase = .released

/-- Two tasks with one key never run at the same time. -/
theorem Orderly.exclusive {v : View K} (h : Orderly v) {t u : ℕ} {first second : Job K}
    (ht : v.tasks t = some first) (hu : v.tasks u = some second) (hkey : first.key = second.key)
    (hfirst : first.phase = .running) (hsecond : second.phase = .running) : t = u := by
  have hlater : ∀ {t u : ℕ} {first second : Job K}, v.tasks t = some first →
      v.tasks u = some second → first.key = second.key → first.phase = .running →
      second.phase = .running → ¬t < u := by
    intro t u first second ht hu hkey hfirst hsecond hlt
    have horder := h.order t u first second ht hu hkey hlt (by rw [hsecond]; simp)
    rw [hfirst] at horder
    rcases horder with horder | horder
    · cases horder
    · cases horder
  have hnot := hlater ht hu hkey hfirst hsecond
  have hnot' := hlater hu ht hkey.symm hsecond hfirst
  omega

/-- The lock looked up for a new task is the one others refer to. -/
theorem Orderly.lookup {v : View K} (h : Orderly v) {key : K} {lock : ℕ}
    (hlock : v.registry key = some lock ∨ v.registry key = none) {t : ℕ} {task : Job K}
    (ht : v.tasks t = some task) (hkey : task.key = key) (hphase : task.phase ≠ .released) : task.lock = lock := by
  have hshared := h.shared t task ht hphase
  rw [hkey] at hshared
  rcases hlock with hlock | hlock
  · rw [hlock] at hshared
    exact (Option.some.inj hshared).symm
  · rw [hlock] at hshared
    cases hshared

/-- A registry that has more locks is as orderly. -/
theorem Orderly.grow {v next : View K} (h : Orderly v) (htasks : next.tasks = v.tasks)
    (hqueue : next.queue = v.queue) (hreferences : next.references = v.references)
    (hregistry : ∀ key lock, v.registry key = some lock → next.registry key = some lock) : Orderly next := by
  have hrefers : ∀ key t, Refers next key t ↔ Refers v key t := by
    intro key t
    unfold Refers
    rw [htasks]
  refine ⟨?_,?_,?_,?_,?_,?_,?_⟩
  · intro key
    rcases h.counted key with ⟨users,hnodup,hmem,hcount⟩
    refine ⟨users,hnodup,?_,?_⟩
    · intro t
      rw [hrefers]
      exact hmem t
    · rw [hreferences]
      exact hcount
  · rw [htasks]
    intro t task ht hphase
    exact hregistry _ _ (h.shared t task ht hphase)
  · rw [htasks,hqueue]
    exact h.present
  · rw [htasks,hqueue]
    exact h.first
  · rw [hqueue]
    exact h.sorted
  · rw [htasks,hqueue]
    exact h.queued
  · rw [htasks]
    exact h.order

variable [DecidableEq K]

/-- A task arrives: it looks up the lock of its key and queues for it. -/
def arrive (v : View K) (key : K) (lock t : ℕ) : View K where
  registry := update v.registry key (some lock)
  references := update v.references key (v.references key+1)
  tasks := update v.tasks t (some ⟨key,lock,.waiting⟩)
  queue := update v.queue lock (v.queue lock++[t])

/-- A task moves on. -/
def move (v : View K) (t : ℕ) (task : Job K) (phase : Phase) : View K :=
  {v with tasks := update v.tasks t (some {task with phase := phase})}

/-- The running task of a lock leaves it. -/
def settle (v : View K) (t : ℕ) (task : Job K) : View K :=
  {move v t task .settled with queue := update v.queue task.lock (v.queue task.lock).tail}

/-- A settled task gives its reference back; the registry may drop the lock when the
count says that it was the last. -/
def release (v : View K) (t : ℕ) (task : Job K) (drops : Bool) : View K :=
  {move v t task .released with
    registry := if drops then update v.registry task.key none else v.registry
    references := update v.references task.key (v.references task.key-1)}

/-- A task that arrives later than all others keeps the registry orderly. -/
theorem Orderly.arrive {v : View K} (h : Orderly v) {key : K} {lock t : ℕ}
    (hlock : v.registry key = some lock ∨ v.registry key = none)
    (hnew : ∀ u task, v.tasks u = some task → u < t) : Orderly (arrive v key lock t) := by
  have hnone : v.tasks t = none := by
    cases htask : v.tasks t with
    | none => rfl
    | some task => exact absurd (hnew t task htask) (Nat.lt_irrefl t)
  have hcases : ∀ u task, (LockRegistry.arrive v key lock t).tasks u = some task →
      u = t ∧ task = ⟨key,lock,.waiting⟩ ∨ u ≠ t ∧ v.tasks u = some task := by
    intro u task hu
    by_cases hut : u = t
    · subst hut
      simp only [LockRegistry.arrive,update_self,Option.some.injEq] at hu
      exact .inl ⟨rfl,hu.symm⟩
    · simp only [LockRegistry.arrive,update_of_ne hut] at hu
      exact .inr ⟨hut,hu⟩
  have hqueue : ∀ other, (LockRegistry.arrive v key lock t).queue other =
      if other = lock then v.queue lock++[t] else v.queue other := by
    intro other
    by_cases hother : other = lock
    · subst hother
      simp [LockRegistry.arrive]
    · simp [LockRegistry.arrive,hother]
  have hbefore : ∀ other, ∀ u ∈ v.queue other, u < t := by
    intro other u hu
    rcases h.queued other u hu with ⟨task,htask,_⟩
    exact hnew u task htask
  have hsame : ∀ u task, v.tasks u = some task → task.phase ≠ .released → task.key = key →
      task.lock = lock := by
    intro u task hu hphase hkey
    exact h.lookup hlock hu hkey hphase
  refine ⟨?_,?_,?_,?_,?_,?_,?_⟩
  · intro other
    rcases h.counted other with ⟨users,hnodup,hmem,hcount⟩
    have hkeep : ∀ u, u ≠ t → (Refers (LockRegistry.arrive v key lock t) other u ↔
        Refers v other u) := by
      intro u hut
      unfold Refers
      simp only [LockRegistry.arrive,update_of_ne hut]
    have habsent : t ∉ users := by
      intro hmember
      rcases (hmem t).mp hmember with ⟨task,htask,_⟩
      rw [hnone] at htask
      cases htask
    by_cases hother : other = key
    · subst hother
      refine ⟨t::users,List.nodup_cons.mpr ⟨habsent,hnodup⟩,?_,?_⟩
      · intro u
        by_cases hut : u = t
        · subst hut
          have hrefers : Refers (LockRegistry.arrive v other lock u) other u :=
            ⟨⟨other,lock,.waiting⟩,by simp [LockRegistry.arrive],rfl,by simp⟩
          simp [hrefers]
        · rw [hkeep u hut,← hmem u]
          simp [hut]
      · simp only [LockRegistry.arrive,update_self,List.length_cons]
        omega
    · refine ⟨users,hnodup,?_,?_⟩
      · intro u
        by_cases hut : u = t
        · subst hut
          have hrefers : ¬Refers (LockRegistry.arrive v key lock u) other u := by
            rintro ⟨task,htask,hkey,_⟩
            rcases hcases u task htask with ⟨_,rfl⟩ | ⟨hne,_⟩
            · exact hother hkey.symm
            · exact hne rfl
          exact ⟨fun hmember => absurd hmember habsent,fun hmember => absurd hmember hrefers⟩
        · rw [hkeep u hut]
          exact hmem u
      · simp only [LockRegistry.arrive,update_of_ne hother]
        exact hcount
  · intro u task hu hphase
    rcases hcases u task hu with ⟨_,rfl⟩ | ⟨_,hold⟩
    · simp [LockRegistry.arrive]
    · by_cases hkey : task.key = key
      · rw [hkey,hsame u task hold hphase hkey]
        simp [LockRegistry.arrive]
      · simp only [LockRegistry.arrive,update_of_ne hkey]
        exact h.shared u task hold hphase
  · intro u task hu hphase
    rw [hqueue]
    rcases hcases u task hu with ⟨rfl,rfl⟩ | ⟨_,hold⟩
    · simp
    · have hpresent := h.present u task hold hphase
      split_ifs with hsame
      · rw [hsame] at hpresent
        exact List.mem_append_left _ hpresent
      · exact hpresent
  · intro u task hu hphase
    rw [hqueue]
    rcases hcases u task hu with ⟨_,rfl⟩ | ⟨_,hold⟩
    · cases hphase
    · have hfirst := h.first u task hold hphase
      split_ifs with hsame
      · rw [hsame] at hfirst
        rw [List.head?_append,hfirst]
        rfl
      · exact hfirst
  · intro other
    rw [hqueue]
    split_ifs with hsame
    · rw [List.pairwise_append]
      refine ⟨h.sorted lock,List.pairwise_singleton _ _,?_⟩
      intro u hu last hlast
      rw [List.mem_singleton.mp hlast]
      exact hbefore lock u hu
    · exact h.sorted other
  · intro other u hu
    rw [hqueue] at hu
    have hold : ∀ other, u ∈ v.queue other → ∃ task,
        (LockRegistry.arrive v key lock t).tasks u = some task ∧ task.lock = other ∧
          (task.phase = .waiting ∨ task.phase = .running) := by
      intro other hmember
      rcases h.queued other u hmember with ⟨task,htask,hfacts⟩
      have hlt := hnew u task htask
      have hut : u ≠ t := by omega
      refine ⟨task,?_,hfacts⟩
      simp only [LockRegistry.arrive,update_of_ne hut]
      exact htask
    split_ifs at hu with hsame
    · subst hsame
      rcases List.mem_append.mp hu with hmember | hmember
      · exact hold other hmember
      · rw [List.mem_singleton] at hmember
        subst hmember
        exact ⟨⟨key,other,.waiting⟩,by simp [LockRegistry.arrive],rfl,.inl rfl⟩
    · exact hold other hu
  · intro a b first second ha hb hkey hlt hphase
    rcases hcases b second hb with ⟨_,rfl⟩ | ⟨_,holdb⟩
    · exact absurd rfl hphase
    · rcases hcases a first ha with ⟨rfl,_⟩ | ⟨_,holda⟩
      · have hless := hnew b second holdb
        omega
      · exact h.order a b first second holda holdb hkey hlt hphase

omit [DecidableEq K] in
/-- Moving a task changes no other one. -/
theorem tasks_move {v : View K} {t : ℕ} {task : Job K} {phase : Phase} {u : ℕ} {other : Job K}
    (hu : (move v t task phase).tasks u = some other) :
    u = t ∧ other = {task with phase := phase} ∨ u ≠ t ∧ v.tasks u = some other := by
  by_cases hut : u = t
  · subst hut
    simp only [move,update_self,Option.some.injEq] at hu
    exact .inl ⟨rfl,hu.symm⟩
  · simp only [move,update_of_ne hut] at hu
    exact .inr ⟨hut,hu⟩

omit [DecidableEq K] in
/-- A task that has not given its reference back refers to the same lock after it moved. -/
theorem refers_move {v : View K} {t : ℕ} {task : Job K} {phase : Phase}
    (ht : v.tasks t = some task) (hphase : task.phase ≠ .released) (hnext : phase ≠ .released)
    (key : K) (u : ℕ) : Refers (move v t task phase) key u ↔ Refers v key u := by
  unfold Refers
  by_cases hut : u = t
  · subst hut
    rw [ht]
    simp only [move,update_self,Option.some.injEq,exists_eq_left']
    constructor
    · intro hkey
      exact ⟨hkey.1,hphase⟩
    · intro hkey
      exact ⟨hkey.1,hnext⟩
  · simp only [move,update_of_ne hut]

omit [DecidableEq K] in
/-- The first waiting task of a lock starts. -/
theorem Orderly.start {v : View K} (h : Orderly v) {t : ℕ} {task : Job K}
    (ht : v.tasks t = some task) (hphase : task.phase = .waiting)
    (hhead : (v.queue task.lock).head? = some t) : Orderly (move v t task .running) := by
  have hne : task.phase ≠ .released := by
    rw [hphase]
    simp
  refine ⟨?_,?_,?_,?_,?_,?_,?_⟩
  · intro key
    rcases h.counted key with ⟨users,hnodup,hmem,hcount⟩
    refine ⟨users,hnodup,?_,hcount⟩
    intro u
    rw [hmem,refers_move ht hne (by simp)]
  · intro u other hu hother
    rcases tasks_move hu with ⟨_,rfl⟩ | ⟨_,hold⟩
    · exact h.shared t task ht hne
    · exact h.shared u other hold hother
  · intro u other hu hother
    rcases tasks_move hu with ⟨rfl,rfl⟩ | ⟨_,hold⟩
    · exact h.present u task ht (.inl hphase)
    · exact h.present u other hold hother
  · intro u other hu hother
    rcases tasks_move hu with ⟨rfl,rfl⟩ | ⟨_,hold⟩
    · exact hhead
    · exact h.first u other hold hother
  · exact h.sorted
  · intro lock u hu
    rcases h.queued lock u hu with ⟨other,hother,hlock,hphases⟩
    by_cases hut : u = t
    · subst hut
      rw [ht] at hother
      cases hother
      exact ⟨_,update_self _ _ _,hlock,.inr rfl⟩
    · exact ⟨other,(update_of_ne hut _ _).trans hother,hlock,hphases⟩
  · intro a b first second ha hb hkey hlt hstarted
    rcases tasks_move ha with ⟨rfl,rfl⟩ | ⟨hat,holda⟩
    · rcases tasks_move hb with ⟨rfl,_⟩ | ⟨_,holdb⟩
      · omega
      · have horder := h.order a b task second ht holdb hkey hlt hstarted
        rw [hphase] at horder
        simp at horder
    · rcases tasks_move hb with ⟨rfl,rfl⟩ | ⟨_,holdb⟩
      · have hleaves : ¬(first.phase = .waiting ∨ first.phase = .running) := by
          intro hqueued
          have hshared := h.shared a first holda (by rcases hqueued with hq | hq <;> simp [hq])
          have hshared' := h.shared b task ht hne
          rw [hkey,hshared'] at hshared
          have hpresent := h.present a first holda hqueued
          rw [← Option.some.inj hshared] at hpresent
          have hsorted := h.sorted task.lock
          rcases List.head?_eq_some_iff.mp hhead with ⟨rest,hrest⟩
          rw [hrest] at hpresent hsorted
          have hafter := (List.pairwise_cons.mp hsorted).1
          rcases List.mem_cons.mp hpresent with heq | hlater
          · omega
          · have hless := hafter a hlater
            omega
        cases hfirst : first.phase with
        | waiting => exact absurd (.inl hfirst) hleaves
        | running => exact absurd (.inr hfirst) hleaves
        | settled => exact .inl rfl
        | released => exact .inr rfl
      · exact h.order a b first second holda holdb hkey hlt hstarted

omit [DecidableEq K] in
/-- A running task leaves its lock. -/
theorem Orderly.settle {v : View K} (h : Orderly v) {t : ℕ} {task : Job K}
    (ht : v.tasks t = some task) (hphase : task.phase = .running) : Orderly (settle v t task) := by
  have hne : task.phase ≠ .released := by
    rw [hphase]
    simp
  rcases List.head?_eq_some_iff.mp (h.first t task ht hphase) with ⟨rest,hrest⟩
  have hsorted := h.sorted task.lock
  rw [hrest] at hsorted
  have hafter := (List.pairwise_cons.mp hsorted).1
  have hqueue : ∀ lock, (LockRegistry.settle v t task).queue lock =
      if lock = task.lock then rest else v.queue lock := by
    intro lock
    by_cases hlock : lock = task.lock
    · subst hlock
      simp [LockRegistry.settle,hrest]
    · simp [LockRegistry.settle,hlock]
  have hgone : ∀ lock, t ∉ (LockRegistry.settle v t task).queue lock := by
    intro lock hmem
    rw [hqueue] at hmem
    split_ifs at hmem with hlock
    · have hless := hafter t hmem
      omega
    · rcases h.queued lock t hmem with ⟨other,hother,hothers,_⟩
      rw [ht] at hother
      cases hother
      exact hlock hothers.symm
  have hstays : ∀ lock u, u ≠ t → u ∈ v.queue lock →
      u ∈ (LockRegistry.settle v t task).queue lock := by
    intro lock u hut hmem
    rw [hqueue]
    split_ifs with hlock
    · rw [hlock,hrest] at hmem
      exact (List.mem_cons.mp hmem).resolve_left hut
    · exact hmem
  have hbefore : ∀ lock u, u ∈ (LockRegistry.settle v t task).queue lock → u ∈ v.queue lock := by
    intro lock u hmem
    rw [hqueue] at hmem
    split_ifs at hmem with hlock
    · rw [hlock,hrest]
      exact List.mem_cons_of_mem t hmem
    · exact hmem
  refine ⟨?_,?_,?_,?_,?_,?_,?_⟩
  · intro key
    rcases h.counted key with ⟨users,hnodup,hmem,hcount⟩
    refine ⟨users,hnodup,?_,hcount⟩
    intro u
    rw [hmem]
    exact (refers_move ht hne (by simp) key u).symm
  · intro u other hu hother
    rcases tasks_move hu with ⟨_,rfl⟩ | ⟨_,hold⟩
    · exact h.shared t task ht hne
    · exact h.shared u other hold hother
  · intro u other hu hother
    rcases tasks_move hu with ⟨_,rfl⟩ | ⟨hut,hold⟩
    · simp at hother
    · exact hstays other.lock u hut (h.present u other hold hother)
  · intro u other hu hother
    rcases tasks_move hu with ⟨_,rfl⟩ | ⟨hut,hold⟩
    · cases hother
    · have hfirst := h.first u other hold hother
      have hlock : other.lock ≠ task.lock := by
        intro hlock
        rw [hlock,h.first t task ht hphase] at hfirst
        exact hut (Option.some.inj hfirst).symm
      rw [hqueue,if_neg hlock]
      exact hfirst
  · intro lock
    rw [hqueue]
    split_ifs
    · exact (List.pairwise_cons.mp hsorted).2
    · exact h.sorted lock
  · intro lock u hu
    rcases h.queued lock u (hbefore lock u hu) with ⟨other,hother,hothers⟩
    have hut : u ≠ t := by
      intro hut
      rw [hut] at hu
      exact hgone lock hu
    exact ⟨other,(update_of_ne hut _ _).trans hother,hothers⟩
  · intro a b first second ha hb hkey hlt hstarted
    rcases tasks_move ha with ⟨_,rfl⟩ | ⟨_,holda⟩
    · exact .inl rfl
    · rcases tasks_move hb with ⟨rfl,rfl⟩ | ⟨_,holdb⟩
      · exact h.order a b first task holda ht hkey hlt (by rw [hphase]; simp)
      · exact h.order a b first second holda holdb hkey hlt hstarted

/-- A settled task gives its reference back; the lock goes with the last one. -/
theorem Orderly.release {v : View K} (h : Orderly v) {t : ℕ} {task : Job K} {drops : Bool}
    (ht : v.tasks t = some task) (hphase : task.phase = .settled)
    (hdrops : drops = true → v.references task.key-1 ≤ 0) : Orderly (release v t task drops) := by
  have hrefers : Refers v task.key t := ⟨task,ht,rfl,by rw [hphase]; simp⟩
  have hkeep : ∀ key u, u ≠ t → (Refers (LockRegistry.release v t task drops) key u ↔
      Refers v key u) := by
    intro key u hut
    unfold Refers
    simp only [LockRegistry.release,move,update_of_ne hut]
  have hleft : ∀ key, ¬Refers (LockRegistry.release v t task drops) key t := by
    rintro key ⟨other,hother,_,hphases⟩
    rcases tasks_move hother with ⟨_,rfl⟩ | ⟨hne,_⟩
    · exact hphases rfl
    · exact hne rfl
  have hlast : drops = true → ∀ u, u ≠ t → ¬Refers v task.key u := by
    intro hd u hut hother
    rcases h.counted task.key with ⟨users,hnodup,hmem,hcount⟩
    have hzero := hdrops hd
    have htwo : (users.erase t).length = users.length-1 :=
      List.length_erase_of_mem ((hmem t).mpr hrefers)
    have hin : u ∈ users.erase t := (List.mem_erase_of_ne hut).mpr ((hmem u).mpr hother)
    have hpositive := List.length_pos_of_mem hin
    omega
  refine ⟨?_,?_,?_,?_,?_,?_,?_⟩
  · intro key
    rcases h.counted key with ⟨users,hnodup,hmem,hcount⟩
    by_cases hkey : key = task.key
    · subst hkey
      have hin := (hmem t).mpr hrefers
      refine ⟨users.erase t,hnodup.erase t,?_,?_⟩
      · intro u
        by_cases hut : u = t
        · subst hut
          have hout : u ∉ users.erase u := hnodup.not_mem_erase
          exact ⟨fun hmember => absurd hmember hout,fun hmember => absurd hmember (hleft _)⟩
        · rw [List.mem_erase_of_ne hut,hmem,hkeep _ u hut]
      · have hlength := List.length_erase_of_mem hin
        have hpositive := List.length_pos_of_mem hin
        simp only [LockRegistry.release,update_self]
        omega
    · refine ⟨users,hnodup,?_,?_⟩
      · intro u
        by_cases hut : u = t
        · subst hut
          have hout : u ∉ users := by
            intro hmember
            rcases (hmem u).mp hmember with ⟨other,hother,hothers,_⟩
            rw [ht] at hother
            cases hother
            exact hkey hothers.symm
          exact ⟨fun hmember => absurd hmember hout,fun hmember => absurd hmember (hleft _)⟩
        · rw [hmem,hkeep _ u hut]
      · simp only [LockRegistry.release,update_of_ne hkey]
        exact hcount
  · intro u other hu hother
    rcases tasks_move hu with ⟨_,rfl⟩ | ⟨hut,hold⟩
    · exact absurd rfl hother
    · have hshared := h.shared u other hold hother
      cases hd : drops with
      | false => exact hshared
      | true =>
        have hkey : other.key ≠ task.key := by
          intro hkey
          exact hlast hd u hut ⟨other,hold,hkey,hother⟩
        simp only [LockRegistry.release,if_true,update_of_ne hkey]
        exact hshared
  · intro u other hu hother
    rcases tasks_move hu with ⟨_,rfl⟩ | ⟨_,hold⟩
    · simp at hother
    · exact h.present u other hold hother
  · intro u other hu hother
    rcases tasks_move hu with ⟨_,rfl⟩ | ⟨_,hold⟩
    · cases hother
    · exact h.first u other hold hother
  · exact h.sorted
  · intro lock u hu
    rcases h.queued lock u hu with ⟨other,hother,hlock,hphases⟩
    have hut : u ≠ t := by
      intro hut
      subst hut
      rw [ht] at hother
      cases hother
      rw [hphase] at hphases
      simp at hphases
    exact ⟨other,(update_of_ne hut _ _).trans hother,hlock,hphases⟩
  · intro a b first second ha hb hkey hlt hstarted
    rcases tasks_move ha with ⟨_,rfl⟩ | ⟨_,holda⟩
    · exact .inr rfl
    · rcases tasks_move hb with ⟨rfl,rfl⟩ | ⟨_,holdb⟩
      · exact h.order a b first task holda ht hkey hlt (by rw [hphase]; simp)
      · exact h.order a b first second holda holdb hkey hlt hstarted

/-- Tasks only arrive, later than those before them, and keep their keys. -/
structure Grows (v next : View K) : Prop where
  /-- A task stays and keeps its key. -/
  stays : ∀ t task, v.tasks t = some task → ∃ moved, next.tasks t = some moved ∧
    moved.key = task.key
  /-- A new one is later than those before it. -/
  later : ∀ t u, v.tasks t ≠ none → v.tasks u = none → next.tasks u ≠ none → t < u

omit [DecidableEq K] in
/-- Nothing happened. -/
theorem Grows.refl (v : View K) : Grows v v :=
  ⟨fun _ task ht => ⟨task,ht,rfl⟩,fun _ _ _ hnone hsome => absurd hnone hsome⟩

omit [DecidableEq K] in
theorem Grows.trans {v mid next : View K} (h : Grows v mid) (h' : Grows mid next) : Grows v next := by
  constructor
  · intro t task ht
    rcases h.stays t task ht with ⟨moved,hmoved,hkey⟩
    rcases h'.stays t moved hmoved with ⟨last,hlast,hkey'⟩
    exact ⟨last,hlast,hkey'.trans hkey⟩
  · intro t u ht hnone hsome
    by_cases hmid : mid.tasks u = none
    · rcases Option.ne_none_iff_exists'.mp ht with ⟨task,htask⟩
      rcases h.stays t task htask with ⟨moved,hmoved,_⟩
      exact h'.later t u (by rw [hmoved]; simp) hmid hsome
    · exact h.later t u ht hnone hmid

omit [DecidableEq K] in
/-- Steps that touch no task. -/
theorem Grows.of_eq {v next : View K} (h : next.tasks = v.tasks) : Grows v next := by
  constructor
  · rw [h]
    exact fun _ task ht => ⟨task,ht,rfl⟩
  · rw [h]
    exact fun _ _ _ hnone hsome => absurd hnone hsome

/-- An arrival. -/
theorem Grows.arrive {v : View K} (key : K) (lock : ℕ) {t : ℕ}
    (hnew : ∀ u task, v.tasks u = some task → u < t) : Grows v (arrive v key lock t) := by
  constructor
  · intro u task hu
    have hless := hnew u task hu
    have hut : u ≠ t := by omega
    exact ⟨task,(update_of_ne hut _ _).trans hu,rfl⟩
  · intro u w hu hnone hsome
    rcases Option.ne_none_iff_exists'.mp hu with ⟨task,htask⟩
    by_cases hwt : w = t
    · rw [hwt]
      exact hnew u task htask
    · refine absurd ?_ hsome
      exact (update_of_ne hwt _ _).trans hnone

omit [DecidableEq K] in
/-- A move. -/
theorem Grows.move {v next : View K} {t : ℕ} {task : Job K} {phase : Phase}
    (ht : v.tasks t = some task) (h : next.tasks = (move v t task phase).tasks) : Grows v next := by
  constructor
  · intro u other hu
    rw [h]
    by_cases hut : u = t
    · subst hut
      rw [ht] at hu
      cases hu
      exact ⟨_,update_self _ _ _,rfl⟩
    · exact ⟨other,(update_of_ne hut _ _).trans hu,rfl⟩
  · intro u w hu hnone hsome
    rw [h] at hsome
    by_cases hwt : w = t
    · subst hwt
      rw [ht] at hnone
      cases hnone
    · refine absurd ?_ hsome
      exact (update_of_ne hwt _ _).trans hnone

omit [DecidableEq K] in
/-- A task starts only after those with its key that were there before it arrived. -/
theorem Orderly.inTurn {v next : View K} (h : Orderly next) (hgrows : Grows v next) {t u : ℕ}
    {first second : Job K} (hearly : v.tasks t ≠ none) (hlate : v.tasks u = none)
    (ht : next.tasks t = some first) (hu : next.tasks u = some second)
    (hkey : first.key = second.key) (hstarted : second.phase ≠ .waiting) :
    first.phase = .settled ∨ first.phase = .released := by
  have hless := hgrows.later t u hearly hlate (by rw [hu]; simp)
  exact h.order t u first second ht hu hkey hless hstarted

end Baileyrs.LockRegistry
