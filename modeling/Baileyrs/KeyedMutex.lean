import Baileyrs.AsyncPrimitives
import Baileyrs.LabelledRuns
import Baileyrs.LockRegistry

/-!
# Keyed mutex

A call looks up the entry of its key, counts a reference to it and queues for its
mutex, all at once. When its task has settled and the caller resumes, it takes the
reference back and deletes an entry without references.
-/

namespace Baileyrs.KeyedMutex

open AsyncPrimitives LabelledRuns LockRegistry Function

/-- A call of `mutex`; its number is also its ticket. -/
structure Call where
  /-- Its key. -/
  key : String
  /-- The entry it looked up. -/
  entry : ℕ
  /-- The ticket it awaits. -/
  previous : Option ℕ
  /-- Where it is. -/
  phase : Phase

/-- The entries of one keyed mutex and the calls made on it. -/
structure State where
  /-- Next unused number of an entry or a call. -/
  fresh : ℕ
  /-- Entry of a key. -/
  entries : String → Option ℕ
  /-- References of an entry. -/
  references : ℕ → ℤ
  /-- Mutex of an entry. -/
  mutexes : ℕ → AsyncMutex
  /-- The calls. -/
  calls : ℕ → Option Call

/-- Calls of the callers, settling tasks and resuming callers. -/
inductive Action where
  | mutex (key : String)
  | start (t : ℕ)
  | settle (t : ℕ) (rejects : Bool)
  | resume (t : ℕ)

/-- The entry of a key, created on first use. -/
def getEntry (s : State) (key : String) : State × ℕ :=
  match s.entries key with
  | some entry => (s,entry)
  | none => (⟨s.fresh+1,update s.entries key (some s.fresh),update s.references s.fresh 0,
      update s.mutexes s.fresh .new,s.calls⟩,s.fresh)

/-- A call takes its reference and queues for the mutex of an entry. -/
def queueFor (s : State) (key : String) (entry : ℕ) : State :=
  let queued := (s.mutexes entry).runExclusive s.fresh
  ⟨s.fresh+1,s.entries,update s.references entry (s.references entry+1),
    update s.mutexes entry queued.1,update s.calls s.fresh (some ⟨key,entry,queued.2,.waiting⟩)⟩

/-- The work of a call has settled, so its ticket is released. -/
def releasedTicket (s : State) (t : ℕ) : Bool :=
  match s.calls t with
  | some call => call.phase == .settled || call.phase == .released
  | none => false

/-- What a call awaits has been released. -/
def ready (s : State) (call : Call) : Bool :=
  match call.previous with
  | some p => releasedTicket s p
  | none => true

/-- A call moves on. -/
def setPhase (s : State) (t : ℕ) (call : Call) (phase : Phase) : State :=
  {s with calls := update s.calls t (some {call with phase := phase})}

/-- A reference is taken back; an entry of the map without references is deleted. -/
def dereference (s : State) (call : Call) : State :=
  let count := s.references call.entry-1
  let drops := count == 0 && s.entries call.key == some call.entry
  ⟨s.fresh,if drops then update s.entries call.key none else s.entries,
    update s.references call.entry count,s.mutexes,s.calls⟩

/-- Execute one step. -/
def step (s : State) : Action → Option State
  | .mutex key => some (queueFor (getEntry s key).1 key (getEntry s key).2)
  | .start t =>
    match s.calls t with
    | some call =>
      if call.phase = .waiting ∧ ready s call = true then some (setPhase s t call .running) else none
    | none => none
  | .settle t _ =>
    match s.calls t with
    | some call =>
      if call.phase = .running then
        some {setPhase s t call .settled with
          mutexes := update s.mutexes call.entry (s.mutexes call.entry).settle}
      else none
    | none => none
  | .resume t =>
    match s.calls t with
    | some call =>
      if call.phase = .settled then some (dereference (setPhase s t call .released) call) else none
    | none => none

/-- Nobody called yet. -/
def idle : State where
  fresh := 0
  entries := fun _ => none
  references := fun _ => 0
  mutexes := fun _ => .new
  calls := fun _ => none

/-- A call as a task of a registry. -/
def Call.task (call : Call) : Job String := ⟨call.key,call.entry,call.phase⟩

/-- References of the entry of a key. -/
def referencesOf (s : State) (key : String) : ℤ := ((s.entries key).map s.references).getD 0

/-- The state as a registry with the calls queued for each entry. -/
def view (s : State) (queue : ℕ → List ℕ) : View String where
  registry := s.entries
  references := referencesOf s
  tasks := fun t => (s.calls t).map Call.task
  queue := queue

/-- The ticket a call awaits. -/
def previousOf (s : State) (t : ℕ) : Option ℕ := (s.calls t).bind Call.previous

/-- The chains of the mutexes are the queues of an orderly registry. -/
structure Keyed (s : State) (queue : ℕ → List ℕ) : Prop where
  /-- The registry is orderly. -/
  orderly : Orderly (view s queue)
  /-- Each mutex has its queue. -/
  queued : ∀ entry, Queued (previousOf s) (fun t => releasedTicket s t = true) (s.mutexes entry)
    (queue entry)
  /-- Calls and their entries were numbered. -/
  calls : ∀ t call, s.calls t = some call → t < s.fresh ∧ call.entry < s.fresh
  /-- So were the entries of the map. -/
  entries : ∀ key entry, s.entries key = some entry → entry < s.fresh
  /-- An entry has one key. -/
  injective : ∀ key other entry, s.entries key = some entry → s.entries other = some entry →
    key = other

theorem view_tasks {s : State} {queue : ℕ → List ℕ} {t : ℕ} {task : Job String} :
    (view s queue).tasks t = some task ↔ ∃ call, s.calls t = some call ∧ call.task = task := by
  simp [view]

/-- Nobody is queued for an entry that was not created. -/
theorem Keyed.queue_new {s : State} {queue : ℕ → List ℕ} (h : Keyed s queue) {entry : ℕ}
    (hentry : s.fresh ≤ entry) : queue entry = [] := by
  refine List.eq_nil_iff_forall_not_mem.mpr ?_
  intro t ht
  rcases h.orderly.queued entry t ht with ⟨task,htask,hlock,_⟩
  rcases view_tasks.mp htask with ⟨call,hcall,rfl⟩
  have hless := (h.calls t call hcall).2
  have hsame : call.entry = entry := hlock
  omega

/-- Queued calls have not been released. -/
theorem Keyed.unreleased {s : State} {queue : ℕ → List ℕ} (h : Keyed s queue) {entry t : ℕ}
    (ht : t ∈ queue entry) : ¬releasedTicket s t = true := by
  rcases h.orderly.queued entry t ht with ⟨task,htask,_,hphase⟩
  rcases view_tasks.mp htask with ⟨call,hcall,rfl⟩
  have hphases : call.phase = .waiting ∨ call.phase = .running := hphase
  simp only [releasedTicket,hcall]
  rcases hphases with hphases | hphases
  · simp [hphases]
  · simp [hphases]

/-- The entry of a key exists afterwards. -/
structure Found (s next : State) (queue : ℕ → List ℕ) (key : String) (entry : ℕ) : Prop where
  /-- The registry is as orderly. -/
  keyed : Keyed next queue
  /-- The key has this entry. -/
  found : next.entries key = some entry
  /-- No call was made. -/
  calls : next.calls = s.calls

/-- Looking up an entry may create it, and touches no call. -/
theorem Keyed.getEntry {s : State} {queue : ℕ → List ℕ} (h : Keyed s queue) (key : String) :
    Found s (getEntry s key).1 queue key (getEntry s key).2 := by
  unfold KeyedMutex.getEntry
  cases hentry : s.entries key with
  | some entry => exact ⟨h,hentry,rfl⟩
  | none =>
    have hother : ∀ other entry, s.entries other = some entry → other ≠ key := by
      intro other entry hsome heq
      rw [heq,hentry] at hsome
      cases hsome
    have hnext : ∀ other entry, update s.entries key (some s.fresh) other = some entry →
        other = key ∧ entry = s.fresh ∨ other ≠ key ∧ s.entries other = some entry := by
      intro other entry hsome
      by_cases hkey : other = key
      · subst hkey
        rw [update_self] at hsome
        exact .inl ⟨rfl,(Option.some.inj hsome).symm⟩
      · rw [update_of_ne hkey] at hsome
        exact .inr ⟨hkey,hsome⟩
    refine ⟨?_,update_self _ _ _,rfl⟩
    refine ⟨h.orderly.grow rfl rfl ?_ ?_,?_,?_,?_,?_⟩
    · funext other
      change ((update s.entries key (some s.fresh) other).map (update s.references s.fresh 0)).getD
        0 = ((s.entries other).map s.references).getD 0
      by_cases hkey : other = key
      · subst hkey
        rw [update_self,hentry]
        simp
      · rw [update_of_ne hkey]
        cases hsome : s.entries other with
        | none => rfl
        | some entry =>
          have hless := h.entries other entry hsome
          have hne : entry ≠ s.fresh := by omega
          simp [update_of_ne hne]
    · intro other entry hsome
      exact (update_of_ne (hother other entry hsome) _ _).trans hsome
    · intro entry
      by_cases hne : entry = s.fresh
      · subst hne
        change Queued _ _ (update s.mutexes s.fresh .new s.fresh) _
        rw [h.queue_new (Nat.le_refl s.fresh),update_self]
        exact queued_new _ _
      · change Queued _ _ (update s.mutexes s.fresh .new entry) _
        rw [update_of_ne hne]
        exact h.queued entry
    · intro t call hcall
      have hless := h.calls t call hcall
      change t < s.fresh+1 ∧ call.entry < s.fresh+1
      omega
    · intro other entry hsome
      change entry < s.fresh+1
      rcases hnext other entry hsome with ⟨_,rfl⟩ | ⟨_,hold⟩
      · omega
      · have hless := h.entries other entry hold
        omega
    · intro first second entry hfirst hsecond
      rcases hnext first entry hfirst with ⟨rfl,rfl⟩ | ⟨_,holdfirst⟩
      · rcases hnext second _ hsecond with ⟨rfl,_⟩ | ⟨_,holdsecond⟩
        · rfl
        · have hless := h.entries second _ holdsecond
          omega
      · rcases hnext second entry hsecond with ⟨_,rfl⟩ | ⟨_,holdsecond⟩
        · have hless := h.entries first _ holdfirst
          omega
        · exact h.injective first second entry holdfirst holdsecond

/-- The references of the entry of a key are counted for that key only. -/
theorem Keyed.references_update {s : State} {queue : ℕ → List ℕ} (h : Keyed s queue) {key : String}
    {entry : ℕ} (hentry : s.entries key = some entry) (count : ℤ) (other : String) :
    ((s.entries other).map (update s.references entry count)).getD 0 = update (referencesOf s) key count other := by
  by_cases hkey : other = key
  · subst hkey
    rw [hentry,update_self]
    simp
  · rw [update_of_ne hkey]
    unfold referencesOf
    cases hsome : s.entries other with
    | none => rfl
    | some old =>
      have hne : old ≠ entry := by
        intro heq
        rw [heq] at hsome
        exact hkey (h.injective other key entry hsome hentry)
      simp [update_of_ne hne]

/-- The call that is made next. -/
theorem Keyed.later {s : State} {queue : ℕ → List ℕ} (h : Keyed s queue) (t : ℕ)
    (task : Job String) (ht : (view s queue).tasks t = some task) : t < s.fresh := by
  rcases view_tasks.mp ht with ⟨call,hcall,_⟩
  exact (h.calls t call hcall).1

/-- Queueing is an arrival. -/
theorem Keyed.view_queueFor {s : State} {queue : ℕ → List ℕ} (h : Keyed s queue) {key : String}
    {entry : ℕ} (hentry : s.entries key = some entry) :
    view (queueFor s key entry) (update queue entry (queue entry++[s.fresh])) =
      arrive (view s queue) key entry s.fresh := by
  have hregistry : update s.entries key (some entry) = s.entries := by
    rw [← hentry]
    exact update_eq_self key s.entries
  have hcount : referencesOf s key = s.references entry := by
    simp [referencesOf,hentry]
  have hreferences : referencesOf (queueFor s key entry) =
      update (referencesOf s) key (referencesOf s key+1) := by
    funext other
    rw [hcount]
    exact h.references_update hentry (s.references entry+1) other
  have htasks : (fun t => ((queueFor s key entry).calls t).map Call.task) =
      update (fun t => (s.calls t).map Call.task) s.fresh (some ⟨key,entry,.waiting⟩) := by
    funext t
    by_cases ht : t = s.fresh
    · subst ht
      simp [queueFor,Call.task]
    · simp [queueFor,ht]
  unfold view arrive
  rw [hreferences,htasks,hregistry]
  rfl

/-- A call queues for the entry of its key. -/
theorem Keyed.queueFor {s : State} {queue : ℕ → List ℕ} (h : Keyed s queue) {key : String}
    {entry : ℕ} (hentry : s.entries key = some entry) :
    Keyed (queueFor s key entry) (update queue entry (queue entry++[s.fresh])) := by
  have hnew : s.calls s.fresh = none := by
    cases hcall : s.calls s.fresh with
    | none => rfl
    | some call => exact absurd (h.calls s.fresh call hcall).1 (Nat.lt_irrefl s.fresh)
  have hreleased : ∀ t, releasedTicket s t = true →
      releasedTicket (KeyedMutex.queueFor s key entry) t = true := by
    intro t ht
    have hne : t ≠ s.fresh := by
      rintro rfl
      simp [releasedTicket,hnew] at ht
    simp only [releasedTicket,KeyedMutex.queueFor,update_of_ne hne]
    exact ht
  have hprevious : previousOf (KeyedMutex.queueFor s key entry) =
      update (previousOf s) s.fresh (s.mutexes entry).tail := by
    funext t
    by_cases ht : t = s.fresh
    · subst ht
      simp [previousOf,KeyedMutex.queueFor,AsyncMutex.runExclusive]
    · simp [previousOf,KeyedMutex.queueFor,ht]
  have habsent : ∀ other, s.fresh ∉ queue other := by
    intro other hmem
    rcases h.orderly.queued other s.fresh hmem with ⟨task,htask,_⟩
    have hless := h.later s.fresh task htask
    omega
  refine ⟨?_,?_,?_,?_,h.injective⟩
  · rw [h.view_queueFor hentry]
    exact h.orderly.arrive (.inl hentry) h.later
  · intro other
    have hold : Queued (update (previousOf s) s.fresh (s.mutexes entry).tail)
        (fun t => releasedTicket (KeyedMutex.queueFor s key entry) t = true) (s.mutexes other)
        (queue other) := by
      refine (h.queued other).mono ?_ hreleased
      intro t ht
      exact update_of_ne (ne_of_mem_of_not_mem ht (habsent other)) _ _
    rw [hprevious]
    by_cases hother : other = entry
    · subst hother
      have hjoin := (h.queued other).runExclusive (habsent other)
      have hjoined := hjoin.mono (fun _ _ => rfl) hreleased
      simp only [KeyedMutex.queueFor,update_self]
      exact hjoined
    · simp only [KeyedMutex.queueFor,update_of_ne hother]
      exact hold
  · intro t call hcall
    change update s.calls s.fresh _ t = some call at hcall
    change t < s.fresh+1 ∧ call.entry < s.fresh+1
    by_cases ht : t = s.fresh
    · subst ht
      rw [update_self] at hcall
      have hentries := h.entries key entry hentry
      have hsame : call.entry = entry := by
        rw [← Option.some.inj hcall]
      omega
    · rw [update_of_ne ht] at hcall
      have hless := h.calls t call hcall
      omega
  · intro other old hold
    have hless := h.entries other old hold
    change old < s.fresh+1
    omega

/-- A moved call is a moved task. -/
theorem view_setPhase {s : State} {queue : ℕ → List ℕ} {t : ℕ} {call : Call} {phase : Phase} :
    view (setPhase s t call phase) queue = move (view s queue) t call.task phase := by
  have htasks : (fun u => ((setPhase s t call phase).calls u).map Call.task) =
      update (fun u => (s.calls u).map Call.task) t (some {call.task with phase := phase}) := by
    funext u
    by_cases hut : u = t
    · subst hut
      simp [setPhase,Call.task]
    · simp [setPhase,hut]
  unfold view move
  rw [htasks]
  rfl

/-- Moving a call changes no ticket it awaits. -/
theorem previousOf_setPhase {s : State} {t : ℕ} {call : Call} {phase : Phase}
    (hcall : s.calls t = some call) : previousOf (setPhase s t call phase) = previousOf s := by
  funext u
  by_cases hut : u = t
  · subst hut
    simp [previousOf,setPhase,hcall]
  · simp [previousOf,setPhase,hut]

/-- Moving a call on releases its ticket at most. -/
theorem releasedTicket_setPhase {s : State} {t : ℕ} {call : Call} {phase : Phase}
    (hcall : s.calls t = some call) (hon : call.phase = .settled → phase = .released)
    (hnot : call.phase ≠ .released) {u : ℕ} (hu : releasedTicket s u = true) :
    releasedTicket (setPhase s t call phase) u = true := by
  by_cases hut : u = t
  · subst hut
    simp only [releasedTicket,hcall] at hu
    have hsettled : call.phase = .settled := by
      simpa [hnot] using hu
    simp [releasedTicket,setPhase,hon hsettled]
  · simp only [releasedTicket,setPhase,update_of_ne hut]
    exact hu

/-- Moving a call keeps the numbers of calls and entries. -/
theorem Keyed.calls_setPhase {s : State} {queue : ℕ → List ℕ} (h : Keyed s queue) {t : ℕ}
    {call : Call} {phase : Phase} (hcall : s.calls t = some call) (u : ℕ) (other : Call)
    (hu : (setPhase s t call phase).calls u = some other) : u < s.fresh ∧ other.entry < s.fresh := by
  by_cases hut : u = t
  · subst hut
    change update s.calls u _ u = some other at hu
    rw [update_self] at hu
    have hless := h.calls u call hcall
    have hsame : other.entry = call.entry := by
      rw [← Option.some.inj hu]
    omega
  · change update s.calls t _ u = some other at hu
    rw [update_of_ne hut] at hu
    exact h.calls u other hu

/-- A ready call is the first of its queue, so it may start. -/
theorem Keyed.start {s : State} {queue : ℕ → List ℕ} (h : Keyed s queue) {t : ℕ} {call : Call}
    (hcall : s.calls t = some call) (hphase : call.phase = .waiting) (hready : ready s call = true) :
    Keyed (setPhase s t call .running) queue := by
  have htask : (view s queue).tasks t = some call.task := view_tasks.mpr ⟨call,hcall,rfl⟩
  have hpresent : t ∈ queue call.entry := h.orderly.present t call.task htask (.inl hphase)
  have hresolved : Resolved (fun p => releasedTicket s p = true) (previousOf s t) := by
    intro p hp
    have hprevious : call.previous = some p := by
      simpa [previousOf,hcall] using hp
    simpa [ready,hprevious] using hready
  have hhead := (h.queued call.entry).head (fun u hu => h.unreleased hu) hpresent hresolved
  refine ⟨?_,?_,h.calls_setPhase hcall,h.entries,h.injective⟩
  · rw [view_setPhase]
    exact h.orderly.start htask hphase hhead
  · intro entry
    rw [previousOf_setPhase hcall]
    refine (h.queued entry).mono (fun _ _ => rfl) ?_
    intro u hu
    exact releasedTicket_setPhase hcall (by simp [hphase]) (by simp [hphase]) hu

/-- A call that settles lets the next one through. -/
theorem Keyed.settle {s : State} {queue : ℕ → List ℕ} (h : Keyed s queue) {t : ℕ} {call : Call}
    (hcall : s.calls t = some call) (hphase : call.phase = .running) : Keyed ⟨s.fresh,s.entries,s.references,
      update s.mutexes call.entry (s.mutexes call.entry).settle, (setPhase s t call .settled).calls⟩
      (update queue call.entry (queue call.entry).tail) := by
  have htask : (view s queue).tasks t = some call.task := view_tasks.mpr ⟨call,hcall,rfl⟩
  have hprevious := @previousOf_setPhase s t call .settled hcall
  have hreleased : ∀ u, releasedTicket s u = true →
      releasedTicket (setPhase s t call .settled) u = true := by
    intro u hu
    exact releasedTicket_setPhase hcall (by simp [hphase]) (by simp [hphase]) hu
  have hown : releasedTicket (setPhase s t call .settled) t = true := by
    simp [releasedTicket,setPhase]
  refine ⟨?_,?_,h.calls_setPhase hcall,h.entries,h.injective⟩
  · have hsettled := h.orderly.settle htask hphase
    have hview : view ⟨s.fresh,s.entries,s.references,
        update s.mutexes call.entry (s.mutexes call.entry).settle,
        (setPhase s t call .settled).calls⟩ (update queue call.entry (queue call.entry).tail) =
          LockRegistry.settle (view s queue) t call.task := by
      unfold LockRegistry.settle
      rw [← view_setPhase]
      rfl
    rw [hview]
    exact hsettled
  · intro entry
    change Queued (previousOf (setPhase s t call .settled))
      (fun u => releasedTicket (setPhase s t call .settled) u = true)
      (update s.mutexes call.entry (s.mutexes call.entry).settle entry)
      (update queue call.entry (queue call.entry).tail entry)
    rw [hprevious]
    by_cases hentry : entry = call.entry
    · subst hentry
      rcases List.head?_eq_some_iff.mp (h.orderly.first t call.task htask hphase) with
        ⟨rest,hrest⟩
      have hqueue : queue call.entry = t::rest := hrest
      have hbefore := h.queued call.entry
      rw [hqueue] at hbefore
      rw [update_self,update_self,hqueue]
      refine hbefore.settle.mono (fun _ _ => rfl) ?_
      rintro u (rfl | hu)
      · exact hown
      · exact hreleased u hu
    · rw [update_of_ne hentry,update_of_ne hentry]
      exact (h.queued entry).mono (fun _ _ => rfl) hreleased

/-- A resumed call gives its reference back. -/
theorem Keyed.resume {s : State} {queue : ℕ → List ℕ} (h : Keyed s queue) {t : ℕ} {call : Call}
    (hcall : s.calls t = some call) (hphase : call.phase = .settled) :
    Keyed (dereference (setPhase s t call .released) call) queue := by
  have htask : (view s queue).tasks t = some call.task := view_tasks.mpr ⟨call,hcall,rfl⟩
  have hne : call.phase ≠ .released := by
    rw [hphase]
    simp
  have hentry : s.entries call.key = some call.entry := h.orderly.shared t call.task htask hne
  have hcount : referencesOf s call.key = s.references call.entry := by
    simp [referencesOf,hentry]
  have hkept : ∀ key entry,
      (dereference (setPhase s t call .released) call).entries key = some entry →
        s.entries key = some entry := by
    intro key entry hsome
    dsimp only [dereference] at hsome
    split_ifs at hsome with hdrops
    · by_cases hkey : key = call.key
      · subst hkey
        rw [update_self] at hsome
        cases hsome
      · rw [update_of_ne hkey] at hsome
        exact hsome
    · exact hsome
  refine ⟨?_,?_,?_,?_,?_⟩
  · have hview : view (dereference (setPhase s t call .released) call) queue =
        LockRegistry.release (view s queue) t call.task (s.references call.entry-1 == 0) := by
      have hreferences : referencesOf (dereference (setPhase s t call .released) call) =
          update (referencesOf s) call.key (referencesOf s call.key-1) := by
        funext other
        rw [hcount,← h.references_update hentry]
        by_cases hdrops : s.references call.entry-1 = 0
        · by_cases hkey : other = call.key
          · subst hkey
            simp [referencesOf,dereference,setPhase,hdrops,hentry]
          · simp [referencesOf,dereference,setPhase,hdrops,hentry,hkey]
        · simp [referencesOf,dereference,setPhase,hdrops]
      have hregistry : (dereference (setPhase s t call .released) call).entries =
          if s.references call.entry-1 == 0 then update s.entries call.key none
          else s.entries := by
        simp [dereference,setPhase,hentry]
      unfold LockRegistry.release
      rw [← view_setPhase]
      unfold view
      rw [hreferences,hregistry]
      rfl
    rw [hview]
    refine h.orderly.release htask hphase ?_
    intro hdrops
    have hzero : s.references call.entry-1 = 0 := by
      simpa using hdrops
    change referencesOf s call.key-1 ≤ 0
    omega
  · intro entry
    change Queued (previousOf (setPhase s t call .released))
      (fun u => releasedTicket (setPhase s t call .released) u = true) _ _
    rw [previousOf_setPhase hcall]
    refine (h.queued entry).mono (fun _ _ => rfl) ?_
    intro u hu
    exact releasedTicket_setPhase hcall (fun _ => rfl) hne hu
  · exact h.calls_setPhase hcall
  · intro key entry hsome
    exact h.entries key entry (hkept key entry hsome)
  · intro key other entry hkey hother
    exact h.injective key other entry (hkept key entry hkey) (hkept other entry hother)

/-- Some queues make the state orderly. -/
def Ordered (s : State) : Prop := ∃ queue, Keyed s queue

/-- Calls only arrive, later than those before them. -/
def Grown (s next : State) : Prop := ∀ queue queue', Grows (view s queue) (view next queue')

/-- Every step keeps the calls in order. -/
theorem step_ordered {s next : State} {a : Action} (h : Ordered s) (hs : step s a = some next) :
    Ordered next ∧ Grown s next := by
  rcases h with ⟨queue,h⟩
  cases a with
  | mutex key =>
    have hfound := h.getEntry key
    cases hs
    refine ⟨⟨_,hfound.keyed.queueFor hfound.found⟩,?_⟩
    intro before after
    have hsame : Grows (view s before) (view (getEntry s key).1 queue) := by
      refine Grows.of_eq ?_
      unfold view
      rw [hfound.calls]
    have harrived := Grows.arrive key (getEntry s key).2 hfound.keyed.later
    rw [← hfound.keyed.view_queueFor hfound.found] at harrived
    refine (hsame.trans harrived).trans ?_
    exact Grows.of_eq rfl
  | start t =>
    simp only [step] at hs
    cases hcall : s.calls t with
    | none =>
      simp only [hcall] at hs
      cases hs
    | some call =>
      simp only [hcall] at hs
      split_ifs at hs with hready
      cases hs
      refine ⟨⟨queue,h.start hcall hready.1 hready.2⟩,?_⟩
      intro before after
      have htasks := congrArg View.tasks (@view_setPhase s before t call .running)
      exact Grows.move (view_tasks.mpr ⟨call,hcall,rfl⟩) htasks
  | settle t rejects =>
    simp only [step] at hs
    cases hcall : s.calls t with
    | none =>
      simp only [hcall] at hs
      cases hs
    | some call =>
      simp only [hcall] at hs
      split_ifs at hs with hphase
      cases hs
      refine ⟨⟨_,h.settle hcall hphase⟩,?_⟩
      intro before after
      have htasks := congrArg View.tasks (@view_setPhase s before t call .settled)
      exact Grows.move (view_tasks.mpr ⟨call,hcall,rfl⟩) htasks
  | resume t =>
    simp only [step] at hs
    cases hcall : s.calls t with
    | none =>
      simp only [hcall] at hs
      cases hs
    | some call =>
      simp only [hcall] at hs
      split_ifs at hs with hphase
      cases hs
      refine ⟨⟨queue,h.resume hcall hphase⟩,?_⟩
      intro before after
      have htasks := congrArg View.tasks (@view_setPhase s before t call .released)
      exact Grows.move (view_tasks.mpr ⟨call,hcall,rfl⟩) htasks

/-- Nobody queues for anything before the first call. -/
theorem idle_ordered : Ordered idle := by
  refine ⟨fun _ => [],?_,?_,nofun,nofun,nofun⟩
  · refine ⟨?_,nofun,nofun,nofun,?_,nofun,nofun⟩
    · intro key
      refine ⟨[],List.nodup_nil,?_,rfl⟩
      intro t
      constructor
      · nofun
      · rintro ⟨task,htask,_⟩
        cases htask
    · intro lock
      exact List.Pairwise.nil
  · intro entry
    exact queued_new _ _

/-- Every run keeps the calls in order. -/
theorem run_ordered {s last : State} {labels : List Action} (h : Ordered s)
    (hr : run step s labels = some last) : Ordered last ∧ Grown s last := by
  have hboth := @run_relation _ _ step (fun next => Ordered next) (fun s next => Grown s next)
    (fun _ _ _ => Grows.of_eq rfl)
    (fun _ _ _ hfirst hsecond before after =>
      (hfirst before (fun _ => [])).trans (hsecond (fun _ => []) after))
    (fun _ _ _ hp hs => step_ordered hp hs) _ _ _ hr h
  refine ⟨?_,hboth⟩
  exact run_invariant (fun _ _ _ hp hs => (step_ordered hp hs).1) hr h

/-- Two calls with one key never run at the same time. -/
theorem Ordered.exclusive {s : State} (h : Ordered s) {t u : ℕ} {first second : Call}
    (ht : s.calls t = some first) (hu : s.calls u = some second) (hkey : first.key = second.key)
    (hfirst : first.phase = .running) (hsecond : second.phase = .running) : t = u := by
  rcases h with ⟨queue,h⟩
  exact h.orderly.exclusive (view_tasks.mpr ⟨first,ht,rfl⟩) (view_tasks.mpr ⟨second,hu,rfl⟩) hkey
    hfirst hsecond

/-- A call starts only after those with its key that were made before it. -/
theorem Ordered.inTurn {s last : State} (h : Ordered last) (hgrown : Grown s last) {t u : ℕ}
    {first second : Call} (hearly : s.calls t ≠ none) (hlate : s.calls u = none)
    (ht : last.calls t = some first) (hu : last.calls u = some second)
    (hkey : first.key = second.key) (hstarted : second.phase ≠ .waiting) :
    first.phase = .settled ∨ first.phase = .released := by
  rcases h with ⟨queue,h⟩
  have hgrows := hgrown queue queue
  have hthere : (view s queue).tasks t ≠ none := by
    simpa [view] using hearly
  have hnot : (view s queue).tasks u = none := by
    simpa [view] using hlate
  exact h.orderly.inTurn hgrows hthere hnot (view_tasks.mpr ⟨first,ht,rfl⟩)
    (view_tasks.mpr ⟨second,hu,rfl⟩) hkey hstarted

/-- Some call with the key has not been released. -/
def InUse (s : State) (key : String) : Prop :=
  ∃ t call, s.calls t = some call ∧ call.key = key ∧ call.phase ≠ .released

/-- A call can move on. -/
def Moves (s : State) (t : ℕ) : Prop := ∃ a ∈ [.start t,.settle t false,.resume t], step s a ≠ none

/-- Exactly the keys in use have entries, and for each of them some call can move on. -/
def Tidy (s : State) : Prop :=
  ∀ key, (s.entries key ≠ none ↔ InUse s key) ∧
    (InUse s key → ∃ t call, s.calls t = some call ∧ call.key = key ∧ Moves s t)

/-- The first call in the queue of a key in use can move on, unless one that has settled can. -/
theorem Keyed.moves {s : State} {queue : ℕ → List ℕ} (h : Keyed s queue) {key : String} (huse : InUse s key) :
    ∃ t call, s.calls t = some call ∧ call.key = key ∧ Moves s t := by
  obtain ⟨t,call,hcall,hkey,hphase⟩ := huse
  have htask : (view s queue).tasks t = some call.task := view_tasks.mpr ⟨call,hcall,rfl⟩
  cases hwhere : call.phase with
  | running => exact ⟨t,call,hcall,hkey,.settle t false,by simp,by simp [step,hcall,hwhere]⟩
  | settled => exact ⟨t,call,hcall,hkey,.resume t,by simp,by simp [step,hcall,hwhere]⟩
  | released => exact absurd hwhere hphase
  | waiting =>
    have hmem := h.orderly.present t call.task htask (.inl hwhere)
    obtain ⟨u,rest,hqueue⟩ := List.exists_cons_of_ne_nil (List.ne_nil_of_mem hmem)
    have hhead : (queue call.entry).head? = some u := List.head?_eq_some_iff.mpr ⟨rest,hqueue⟩
    obtain ⟨task,htaskFirst,hlock,hphases⟩ := h.orderly.queued call.entry u (List.mem_of_mem_head? hhead)
    obtain ⟨first,hfirst,rfl⟩ := view_tasks.mp htaskFirst
    have hnot : first.phase ≠ .released := by
      intro hno
      simp [Call.task,hno] at hphases
    have hshared := h.orderly.shared u first.task htaskFirst hnot
    have hsame : first.key = key :=
      (h.injective _ _ _ (hshared.trans (congrArg some hlock)) (h.orderly.shared t call.task htask hphase)).trans hkey
    cases hphases with
    | inr hrunning =>
      exact ⟨u,first,hfirst,hsame,.settle u false,by simp,by simp [step,hfirst,show first.phase = _ from hrunning]⟩
    | inl hwaiting =>
      have hready : ready s first = true := by
        have hresolved := (h.queued call.entry).first u hhead
        unfold ready
        cases hprevious : first.previous with
        | none => rfl
        | some p => exact hresolved p (by simp [previousOf,hfirst,hprevious])
      exact ⟨u,first,hfirst,hsame,.start u,by simp,by simp [step,hfirst,show first.phase = _ from hwaiting,hready]⟩

/-- A call that is not released by its move is still in use. -/
theorem InUse.setPhase {s : State} {key : String} {t : ℕ} {call : Call} {phase : Phase} (h : InUse s key)
    (hcall : s.calls t = some call) (hphase : phase = .released → call.key ≠ key) : InUse (setPhase s t call phase) key := by
  obtain ⟨u,other,hother,hkey,hnot⟩ := h
  by_cases hu : u = t
  · have hsame : call = other := Option.some.inj (hcall.symm.trans (hu ▸ hother))
    exact ⟨t,{call with phase := phase},update_self _ _ _,hsame ▸ hkey,fun hreleased => hphase hreleased (hsame ▸ hkey)⟩
  · exact ⟨u,other,(update_of_ne hu _ _).trans hother,hkey,hnot⟩

/-- Every entry of the map is in use. -/
def Held (s : State) : Prop := ∀ key, s.entries key ≠ none → InUse s key

/-- A reference that is left shows that the key is in use. -/
theorem Keyed.inUse_of_count {s : State} {queue : ℕ → List ℕ} (h : Keyed s queue) {key : String}
    (hcount : referencesOf s key ≠ 0) : InUse s key := by
  obtain ⟨users,_,hmem,hlength⟩ := h.orderly.counted key
  cases users with
  | nil => exact absurd hlength hcount
  | cons t rest =>
    obtain ⟨task,htask,hkey,hphase⟩ := (hmem t).mp List.mem_cons_self
    obtain ⟨call,hcall,rfl⟩ := view_tasks.mp htask
    exact ⟨t,call,hcall,hkey,hphase⟩

/-- A call makes the entry of its key in use. -/
theorem Keyed.held_mutex {s : State} {queue : ℕ → List ℕ} (h : Keyed s queue) (hheld : Held s) (key : String) :
    Held (KeyedMutex.queueFor (KeyedMutex.getEntry s key).1 key (KeyedMutex.getEntry s key).2) := by
  have hfound := h.getEntry key
  intro other hother
  by_cases hkey : other = key
  · exact ⟨_,_,update_self _ _ _,hkey.symm,by simp⟩
  · have hold : s.entries other ≠ none := by
      intro hnone
      refine hother ?_
      simp only [KeyedMutex.queueFor,KeyedMutex.getEntry]
      split
      · exact hnone
      · exact (update_of_ne hkey _ _).trans hnone
    obtain ⟨t,call,hcall,hsame,hphase⟩ := hheld other hold
    have hthere : (KeyedMutex.getEntry s key).1.calls t = some call := by rw [hfound.calls,hcall]
    have hless := (hfound.keyed.calls t call hthere).1
    exact ⟨t,call,(update_of_ne (by omega) _ _).trans hthere,hsame,hphase⟩

/-- An entry that is left when a call is released is in use by another one. -/
theorem Keyed.held_resume {s : State} {queue : ℕ → List ℕ} (h : Keyed s queue) (hheld : Held s) {t : ℕ} {call : Call}
    (hcall : s.calls t = some call) (hphase : call.phase = .settled) :
    Held (dereference (KeyedMutex.setPhase s t call .released) call) := by
  have hentry : s.entries call.key = some call.entry :=
    h.orderly.shared t call.task (view_tasks.mpr ⟨call,hcall,rfl⟩) (by simp [Call.task,hphase])
  intro key hkey
  by_cases hsame : key = call.key
  · refine (h.resume hcall hphase).inUse_of_count ?_
    by_cases hzero : s.references call.entry-1 = 0
    · simp [dereference,KeyedMutex.setPhase,hzero,hentry,hsame] at hkey
    · simp [referencesOf,dereference,KeyedMutex.setPhase,hzero,hentry,hsame]
  · have hold : s.entries key ≠ none :=
      fun hnone => hkey (by simp [dereference,KeyedMutex.setPhase,ite_apply,hsame,hnone])
    exact (hheld key hold).setPhase hcall fun _ heq => hsame heq.symm

/-- Every step leaves only entries in use. -/
theorem step_held {s next : State} {a : Action} (h : Ordered s ∧ Held s) (hs : step s a = some next) :
    Ordered next ∧ Held next := by
  refine ⟨(step_ordered h.1 hs).1,?_⟩
  obtain ⟨⟨queue,hkeyed⟩,hheld⟩ := h
  cases a with
  | mutex key =>
    cases hs
    exact hkeyed.held_mutex hheld key
  | start t =>
    simp only [step] at hs
    split at hs
    · split_ifs at hs
      cases hs
      exact fun key hkey => (hheld key hkey).setPhase ‹_› (by simp)
    · cases hs
  | settle t rejects =>
    simp only [step] at hs
    split at hs
    · split_ifs at hs
      cases hs
      exact fun key hkey => (hheld key hkey).setPhase ‹_› (by simp)
    · cases hs
  | resume t =>
    simp only [step] at hs
    split at hs
    · split_ifs at hs with hphase
      cases hs
      exact hkeyed.held_resume hheld ‹_› hphase
    · cases hs

/-- In every run the map holds exactly the entries in use, and no key in use is stuck. -/
theorem entries_in_use (labels : List Action) : Throughout step Tidy idle labels := by
  refine throughout_invariant (fun _ _ _ => step_held) ?_ ⟨idle_ordered,fun _ hkey => absurd rfl hkey⟩ labels
  rintro s ⟨⟨queue,h⟩,hheld⟩ key
  refine ⟨⟨hheld key,?_⟩,h.moves⟩
  rintro ⟨t,call,hcall,rfl,hphase⟩ hnone
  have hshared := h.orderly.shared t call.task (view_tasks.mpr ⟨call,hcall,rfl⟩) hphase
  exact absurd (hnone.symm.trans hshared) (by simp)

end Baileyrs.KeyedMutex
