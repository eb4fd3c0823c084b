import Baileyrs.LabelledRuns
import Baileyrs.SignalDataTypes
import Mathlib.Data.List.Nodup
import Mathlib.Logic.Function.Basic

/-!
# The cacheable signal key store

Reads and writes run one at a time under a mutex and await every cache and
store call; a clear runs beside them. A read fills the cache after its store
call resolved, a write caches its entries before the store accepts them, and
a clear flushes the cache before the store is cleared. The cache agrees with
the store in every run in which none of these windows is hit.
-/

namespace Baileyrs.KeyStoreCache

open LabelledRuns Function

/-- Type and id of one value. -/
abbrev SignalKey := SignalDataType × String

/-- Key of a value in the cache. -/
def getUniqueId (k : SignalKey) : String := k.1.name++"."++k.2

variable {V : Type*}

/-- Values of one set; null deletes. An object has each property once. -/
structure SignalDataSet (V : Type*) where
  /-- Values in enumeration order. -/
  entries : List (SignalKey × Option V)
  /-- No key is given twice. -/
  nodup : (entries.map Prod.fst).Nodup

/-- Calls of the wrapper. -/
inductive Call (V : Type*) where
  | get (type : SignalDataType) (ids : List String)
  | set (data : SignalDataSet V)
  | clear

/-- Object returned by a get; null is a present value. -/
abbrev Data (V : Type*) := String → Option (Option V)

/-- Where the operation holding the mutex is suspended. -/
inductive Stage (V : Type*) where
  | getLookup (type : SignalDataType) (left : List String) (data : Data V)
      (idsToFetch : List String)
  | getFetch (type : SignalDataType) (data : Data V) (idsToFetch : List String)
  | getFill (type : SignalDataType) (left : List String) (fetched : String → Option V)
      (data : Data V)
  | setCache (done left : List (SignalKey × Option V))
  | setStore (data : List (SignalKey × Option V))

/-- Where a clear is suspended. -/
inductive ClearStage where
  | flushing
  | storing
  deriving DecidableEq

/-- How a call settled. -/
inductive Outcome (V : Type*) where
  | resolved (data : Data V)
  | rejected

/-- The wrapper, its cache and its backing store. -/
structure State (V : Type*) where
  /-- Next unused identity of a call. -/
  fresh : ℕ
  /-- Cached values; null is cached like any other. -/
  cache : String → Option (Option V)
  /-- Values of the backing store. -/
  backing : SignalKey → Option V
  /-- Operation holding the mutex. -/
  running : Option (ℕ × Stage V)
  /-- Operations waiting for the mutex, in order. -/
  waiting : List (ℕ × Call V)
  /-- Clears that have not settled. -/
  clears : List (ℕ × ClearStage)
  /-- Settled calls. -/
  results : ℕ → Option (Outcome V)

/-- Reply of the backing store to a clear; it may not implement one. -/
inductive ClearReply where
  | cleared
  | rejected
  | absent
  deriving DecidableEq

/-- Settle the operation holding the mutex. -/
def settle (s : State V) (id : ℕ) (outcome : Outcome V) : State V :=
  {s with running := none, results := update s.results id (some outcome)}

/-- First stage of an operation that gets the mutex. -/
def startCall (s : State V) (id : ℕ) : Call V → State V
  | .get type ids => {s with running := some (id,.getLookup type ids (fun _ => none) [])}
  | .set data => {s with running := some (id,.setCache [] data.entries)}
  | .clear => s

/-- One awaited cache operation, or the end of a loop over them. -/
def advance (truthy : V → Bool) (s : State V) (id : ℕ) : Stage V → Option (State V)
  | .getLookup type (key::left) data idsToFetch =>
    match s.cache (getUniqueId (type,key)) with
    | some item =>
      some {s with running := some (id,.getLookup type left (update data key (some item)) idsToFetch)}
    | none => some {s with running := some (id,.getLookup type left data (idsToFetch++[key]))}
  | .getLookup type [] data idsToFetch =>
    if idsToFetch = [] then some (settle s id (.resolved data))
    else some {s with running := some (id,.getFetch type data idsToFetch)}
  | .getFetch _ _ _ => none
  | .getFill type (key::left) fetched data =>
    match (fetched key).filter truthy with
    | some item => some {s with
        cache := update s.cache (getUniqueId (type,key)) (some (some item))
        running := some (id,.getFill type left fetched (update data key (some (some item))))}
    | none => some {s with running := some (id,.getFill type left fetched data)}
  | .getFill _ [] _ data => some (settle s id (.resolved data))
  | .setCache done ((k,value)::left) => some {s with
      cache := update s.cache (getUniqueId k) (some value)
      running := some (id,.setCache (done++[(k,value)]) left)}
  | .setCache done [] => some {s with running := some (id,.setStore done)}
  | .setStore _ => none

/-- The backing store reads the ids still missing. -/
def fetch (s : State V) (id : ℕ) (ok : Bool) : Stage V → Option (State V)
  | .getFetch type data idsToFetch =>
    if ok then
      let fetched := fun key => s.backing (type,key)
      some {s with running := some (id,.getFill type idsToFetch fetched data)}
    else some (settle s id .rejected)
  | _ => none

/-- Values after the backing store applied a set. -/
def applySet (backing : SignalKey → Option V) (data : List (SignalKey × Option V)) :
    SignalKey → Option V :=
  data.foldl (fun values pair => update values pair.1 pair.2) backing

/-- The backing store accepts a set as a whole, or rejects without effect. -/
def store (s : State V) (id : ℕ) (ok : Bool) : Stage V → Option (State V)
  | .setStore data =>
    if ok then
      some (settle {s with backing := applySet s.backing data} id (.resolved fun _ => none))
    else some (settle s id .rejected)
  | _ => none

/-- Steps of the wrapper, its cache and its backing store. -/
inductive Action (V : Type*) where
  | invoke (call : Call V)
  | start
  | advance
  | storeGet (ok : Bool)
  | storeSet (ok : Bool)
  | clearFlush (id : ℕ)
  | storeClear (id : ℕ) (reply : ClearReply)

/-- Execute one step. -/
def step (truthy : V → Bool) (s : State V) : Action V → Option (State V)
  | .invoke .clear => some {s with fresh := s.fresh+1, clears := s.clears++[(s.fresh,.flushing)]}
  | .invoke call => some {s with fresh := s.fresh+1, waiting := s.waiting++[(s.fresh,call)]}
  | .start =>
    match s.running,s.waiting with
    | none,(id,call)::rest => some (startCall {s with waiting := rest} id call)
    | _,_ => none
  | .advance =>
    match s.running with
    | some (id,stage) => advance truthy s id stage
    | none => none
  | .storeGet ok =>
    match s.running with
    | some (id,stage) => fetch s id ok stage
    | none => none
  | .storeSet ok =>
    match s.running with
    | some (id,stage) => store s id ok stage
    | none => none
  | .clearFlush id =>
    if (id,ClearStage.flushing) ∈ s.clears then
      some {s with
        cache := fun _ => none
        clears := s.clears.map fun clear => if clear.1 = id then (id,.storing) else clear}
    else none
  | .storeClear id reply =>
    if (id,ClearStage.storing) ∈ s.clears then
      let outcome : Outcome V :=
        if reply = .rejected then .rejected else .resolved fun _ => none
      some {s with
        backing := if reply = .cleared then fun _ => none else s.backing
        clears := s.clears.filter fun clear => clear.1 ≠ id
        results := update s.results id (some outcome)}
    else none

/-- A wrapper with an empty cache over a store with arbitrary values. -/
def wrapped (backing : SignalKey → Option V) : State V where
  fresh := 0
  cache := fun _ => none
  backing := backing
  running := none
  waiting := []
  clears := []
  results := fun _ => none

/-- Every operation has settled. -/
structure Settled (s : State V) : Prop where
  /-- Nothing holds the mutex. -/
  running : s.running = none
  /-- Nothing waits for it. -/
  waiting : s.waiting = []
  /-- No clear is in progress. -/
  clears : s.clears = []

/-- Entries the running set has cached and not stored yet. -/
def unstored (s : State V) : List (SignalKey × Option V) :=
  match s.running with
  | some (_,.setCache done _) => done
  | some (_,.setStore data) => data
  | _ => []

/-- Every value of a list of entries is truthy. -/
def AllTruthy (truthy : V → Bool) (entries : List (SignalKey × Option V)) : Prop :=
  ∀ k value, (k,some value) ∈ entries → truthy value = true

/-- The condition under which a step keeps cache and store in agreement:
values are truthy; the store rejects a set only when it already holds those
of its values that are still cached; a read caches a value only while the
store still holds it; and the store is cleared only while nothing is cached
but null and what the running set will store. -/
def Safe (truthy : V → Bool) (s : State V) : Action V → Prop
  | .invoke (.set data) => AllTruthy truthy data.entries
  | .advance => ∀ id type key left fetched data item,
      s.running = some (id,.getFill type (key::left) fetched data) →
        fetched key = some item → s.backing (type,key) = some item
  | .storeSet false => ∀ id data, s.running = some (id,.setStore data) →
      ∀ k value, (k,value) ∈ data → s.cache (getUniqueId k) = some value → s.backing k = value
  | .storeClear _ .cleared => ∀ k value, s.cache (getUniqueId k) = some (some value) →
      k ∈ (unstored s).map Prod.fst
  | _ => True

/-- All entries of the running set. -/
def runningEntries (s : State V) : List (SignalKey × Option V) :=
  match s.running with
  | some (_,.setCache done left) => done++left
  | some (_,.setStore data) => data
  | _ => []

/-- Cache and store agree, up to what the running set will store. -/
structure Coherent (truthy : V → Bool) (s : State V) : Prop where
  /-- The store holds truthy values. -/
  stored : ∀ k value, s.backing k = some value → truthy value = true
  /-- A cached value is stored, or about to be. -/
  cached : ∀ k value, s.cache (getUniqueId k) = some value → (k,value) ∈ unstored s ∨
    k ∉ (unstored s).map Prod.fst ∧ s.backing k = value
  /-- The running set gives each key once. -/
  nodup : ((runningEntries s).map Prod.fst).Nodup
  /-- Its values are truthy. -/
  running : AllTruthy truthy (runningEntries s)
  /-- So are those of waiting sets. -/
  waiting : ∀ id data, (id,Call.set data) ∈ s.waiting → AllTruthy truthy data.entries

/-- What a step leaves of an agreement whose running set is unchanged. -/
theorem Coherent.congr {truthy : V → Bool} {s s' : State V} (hs : Coherent truthy s)
    (hcache : s'.cache = s.cache) (hbacking : s'.backing = s.backing)
    (hunstored : unstored s' = unstored s) (hentries : runningEntries s' = runningEntries s)
    (hwaiting : ∀ id data, (id,Call.set data) ∈ s'.waiting → AllTruthy truthy data.entries) :
    Coherent truthy s' where
  stored := by
    rw [hbacking]
    exact hs.stored
  cached := by
    rw [hcache,hbacking,hunstored]
    exact hs.cached
  nodup := by
    rw [hentries]
    exact hs.nodup
  running := by
    rw [hentries]
    exact hs.running
  waiting := hwaiting

/-- A get that moves on without touching the cache keeps the agreement. -/
theorem Coherent.quiet {truthy : V → Bool} {s s' : State V} (hs : Coherent truthy s)
    (hcache : s'.cache = s.cache) (hbacking : s'.backing = s.backing)
    (hwaiting : s'.waiting = s.waiting) (hbefore : unstored s = []) (hafter : unstored s' = [])
    (hentries : runningEntries s' = []) : Coherent truthy s' where
  stored := by
    rw [hbacking]
    exact hs.stored
  cached := by
    rw [hcache,hbacking,hafter,← hbefore]
    exact hs.cached
  nodup := by
    rw [hentries]
    exact List.nodup_nil
  running := by
    rw [hentries]
    intro k value hm
    cases hm
  waiting := by
    rw [hwaiting]
    exact hs.waiting

/-- Steps of a get that runs alone. -/
def GetStep : Action V → Prop
  | .start => True
  | .advance => True
  | .storeGet _ => True
  | _ => False

/-- A get has collected only values the store holds. -/
def DataOk (backing : SignalKey → Option V) (type : SignalDataType) (data : Data V) : Prop :=
  ∀ key value, data key = some value → backing (type,key) = value

/-- What holds of a get at each of its suspension points. -/
def StageOk (backing : SignalKey → Option V) (type : SignalDataType) (ids : List String) :
    Stage V → Prop
  | .getLookup t left data idsToFetch => t = type ∧ DataOk backing type data ∧
      ∀ key ∈ ids, key ∈ left ∨ key ∈ idsToFetch ∨ data key ≠ none
  | .getFetch t data idsToFetch => t = type ∧ DataOk backing type data ∧
      ∀ key ∈ ids, key ∈ idsToFetch ∨ data key ≠ none
  | .getFill t left fetched data => t = type ∧ (∀ key, fetched key = backing (type,key)) ∧
      DataOk backing type data ∧
      ∀ key ∈ ids, key ∈ left ∨ data key ≠ none ∨ backing (type,key) = none
  | _ => False

/-- Every id reads as the store has it; absent and null are the same. -/
def Returned (backing : SignalKey → Option V) (type : SignalDataType) (ids : List String)
    (data : Data V) : Prop :=
  ∀ key ∈ ids, (data key).join = backing (type,key)

theorem DataOk.update {backing : SignalKey → Option V} {type : SignalDataType} {data : Data V}
    (hs : DataOk backing type data) {key : String} {value : Option V}
    (hv : backing (type,key) = value) : DataOk backing type (update data key (some value)) := by
  intro other found hf
  by_cases hk : other = key
  · subst hk
    rw [update_self] at hf
    cases hf
    exact hv
  · rw [update_of_ne hk] at hf
    exact hs other found hf

/-- Collected values cover every id that is not known to be absent. -/
theorem DataOk.returned {backing : SignalKey → Option V} {type : SignalDataType}
    {ids : List String} {data : Data V} (hs : DataOk backing type data)
    (hcover : ∀ key ∈ ids, data key ≠ none ∨ backing (type,key) = none) : Returned backing type ids data := by
  intro key hk
  cases hd : data key with
  | some value =>
    have hvalue := hs key value hd
    rw [hvalue]
    rfl
  | none =>
    rcases hcover key hk with h | h
    · exact absurd hd h
    · rw [h]
      rfl

/-- Identities of calls in progress or settled are used up. -/
structure IdsUsed (s : State V) : Prop where
  /-- Settled calls. -/
  results : ∀ id, s.results id ≠ none → id < s.fresh
  /-- The call holding the mutex. -/
  running : ∀ id stage, s.running = some (id,stage) → id < s.fresh
  /-- Calls waiting for it. -/
  waiting : ∀ id call, (id,call) ∈ s.waiting → id < s.fresh
  /-- Clears in progress. -/
  clears : ∀ id stage, (id,stage) ∈ s.clears → id < s.fresh

/-- The running call moved to another suspension point, or settled. -/
def Moved (s : State V) (id : ℕ) (s' : State V) : Prop :=
  s'.fresh = s.fresh ∧ s'.waiting = s.waiting ∧ s'.clears = s.clears ∧
    ((s'.results = s.results ∧ ∃ stage, s'.running = some (id,stage)) ∨
      s'.running = none ∧ ∃ outcome, s'.results = update s.results id (some outcome))

theorem IdsUsed.moved {s s' : State V} {id : ℕ} {stage : Stage V} (hs : IdsUsed s)
    (hr : s.running = some (id,stage)) (hm : Moved s id s') : IdsUsed s' := by
  obtain ⟨hfresh,hwaiting,hclears,hend⟩ := hm
  have hid := hs.running id stage hr
  constructor
  · intro other ho
    rw [hfresh]
    rcases hend with ⟨hresults,_⟩ | ⟨_,outcome,hresults⟩
    · rw [hresults] at ho
      exact hs.results other ho
    · by_cases he : other = id
      · exact he ▸ hid
      · rw [hresults,update_of_ne he] at ho
        exact hs.results other ho
  · intro other next ho
    rw [hfresh]
    rcases hend with ⟨_,stage',hrunning⟩ | ⟨hrunning,_⟩
    · rw [hrunning] at ho
      cases ho
      exact hid
    · rw [hrunning] at ho
      cases ho
  · rw [hwaiting,hfresh]
    exact hs.waiting
  · rw [hclears,hfresh]
    exact hs.clears

/-- Queuing a call uses the next identity. -/
theorem IdsUsed.queue {s : State V} (hs : IdsUsed s) (call : Call V) :
    IdsUsed {s with fresh := s.fresh+1, waiting := s.waiting++[(s.fresh,call)]} where
  results id hr := Nat.lt_succ_of_lt (hs.results id hr)
  running id stage hr := Nat.lt_succ_of_lt (hs.running id stage hr)
  waiting id other hm := by
    rcases List.mem_append.mp hm with hm | hm
    · exact Nat.lt_succ_of_lt (hs.waiting id other hm)
    · cases List.mem_singleton.mp hm
      exact Nat.lt_succ_self _
  clears id stage hm := Nat.lt_succ_of_lt (hs.clears id stage hm)

/-- Some steps of a get that runs alone settle it with a result. -/
def Completes (truthy : V → Bool) (s : State V) (id : ℕ) : Prop :=
  ∃ labels s' data, (∀ a ∈ labels, GetStep a) ∧ run (step truthy) s labels = some s' ∧
    s'.results id = some (.resolved data)

/-- One more step before completing. -/
theorem Completes.cons {truthy : V → Bool} {s next : State V} {id : ℕ} {a : Action V}
    (ha : GetStep a) (hn : step truthy s a = some next) (hc : Completes truthy next id) : Completes truthy s id := by
  obtain ⟨labels,s',data,hl,hr,hres⟩ := hc
  refine ⟨a::labels,s',data,?_,?_,hres⟩
  · intro b hb
    rcases List.mem_cons.mp hb with rfl | hb
    · exact ha
    · exact hl b hb
  · rw [run_cons,hn]
    exact hr

/-- One session value. -/
def oneSession : SignalDataSet ℕ := ⟨[((.session,"a"),some 1)],by decide⟩

end Baileyrs.KeyStoreCache
