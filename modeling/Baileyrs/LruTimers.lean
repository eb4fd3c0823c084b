import Baileyrs.ExpiringLruMap
import Baileyrs.LabelledRuns
import Mathlib.Algebra.Order.Ring.Rat
import Mathlib.Data.List.Perm.Basic
import Mathlib.Data.List.Perm.Lattice

/-!
# Timers of expiring maps

The expiring map with its timers as the host sees them: a timer is armed with a callback
that compares the entry it was armed for with the one that is held, and a removal cancels
the timer of the entry. The callback of the owner may throw. In every run an entry that
was stored is held and was never disposed of, or is gone and was disposed of once.
-/

namespace Baileyrs.LruTimers

section Model

/-- An entry, with its identity. -/
structure HeldEntry (V T : Type) where
  /-- Its identity, by the order of creation. -/
  id : ℕ
  /-- The value. -/
  value : V
  /-- Not given out from then on. -/
  expiresAt : T
  /-- Handle of its timer. -/
  timer : ℕ
  deriving DecidableEq

/-- A timer that waits, with what its callback refers to. -/
structure ArmedTimer (K T : Type) where
  /-- Its handle. -/
  handle : ℕ
  /-- Key of the callback. -/
  key : K
  /-- Entry of the callback. -/
  entry : ℕ
  /-- When it is due. -/
  due : T
  deriving DecidableEq

/-- A call of the callback of the owner. -/
structure Disposed (K V : Type) where
  /-- The entry it is for. -/
  entry : ℕ
  /-- The value. -/
  value : V
  /-- The key. -/
  key : K
  deriving DecidableEq

/-- How a map holds its entries. -/
structure LruConfig (K V T : Type) where
  /-- How many are held. -/
  max : Option ℚ
  /-- Time at which something that starts at a time is over. -/
  later : T → T
  /-- Reading an entry lets it be held longer. -/
  updateAgeOnGet : Bool
  /-- Whether the last of the calls of the owner's callback throws. -/
  throws : List (Disposed K V) → Bool

/-- A map with its timers; what was disposed of and used is kept for the record. -/
structure TimedLru (K V T : Type) where
  /-- Entries, the longest unused first. -/
  entries : InsertionMap K (HeldEntry V T)
  /-- Timers that wait. -/
  armed : List (ArmedTimer K T)
  /-- The next handle. -/
  handles : ℕ
  /-- How many entries were created. -/
  inserted : ℕ
  /-- Calls of the owner's callback. -/
  disposed : List (Disposed K V)
  /-- Entries that were stored or read, the last one first. -/
  uses : List ℕ

/-- How a call of an operation ends. -/
inductive Outcome (α : Type) where
  | returned (value : α)
  | threw
  deriving DecidableEq

/-- Change what is returned. -/
def Outcome.map {α β : Type} (f : α → β) : Outcome α → Outcome β
  | .returned value => .returned (f value)
  | .threw => .threw

variable {K V T : Type} [DecidableEq K]

/-- A new map. -/
def TimedLru.start : TimedLru K V T := ⟨.empty,[],0,0,[],[]⟩

/-- Cancel a timer. -/
def clearTimeout (s : TimedLru K V T) (handle : ℕ) : TimedLru K V T :=
  {s with armed := s.armed.filter fun timer => timer.handle ≠ handle}

/-- Take an entry out and tell the owner. -/
def remove (s : TimedLru K V T) (key : K) (entry : HeldEntry V T) : TimedLru K V T :=
  let s := {s with entries := s.entries.delete key}
  let s := clearTimeout s entry.timer
  {s with disposed := s.disposed++[⟨entry.id,entry.value,key⟩]}

/-- Remove an entry. -/
def delete (config : LruConfig K V T) (s : TimedLru K V T) (key : K) : TimedLru K V T × Outcome Bool :=
  match s.entries.get key with
  | none => (s,.returned false)
  | some entry =>
    (remove s key entry,if config.throws (remove s key entry).disposed then .threw else .returned true)

/-- Create an entry with its timer and put it at the end. -/
def insert (config : LruConfig K V T) (s : TimedLru K V T) (key : K) (value : V) (now : T) : TimedLru K V T :=
  let entry : HeldEntry V T := ⟨s.inserted,value,config.later now,s.handles⟩
  {s with
    entries := s.entries.set key entry
    armed := s.armed++[⟨s.handles,key,s.inserted,config.later now⟩]
    handles := s.handles+1
    inserted := s.inserted+1
    uses := s.inserted::s.uses}

/-- There are too many entries. -/
def overfull (config : LruConfig K V T) (size : ℕ) : Bool := config.max.any fun max => max < (size : ℚ)

/-- Remove the first entry if there are too many. -/
def evict (config : LruConfig K V T) (s : TimedLru K V T) : TimedLru K V T × Outcome Unit :=
  if overfull config s.entries.size then
    match s.entries.keys.head? with
    | some oldest => ((delete config s oldest).1,(delete config s oldest).2.map fun _ => ())
    | none => (s,.returned ())
  else (s,.returned ())

/-- Store a value. -/
def set (config : LruConfig K V T) (s : TimedLru K V T) (key : K) (value : V) (now : T) : TimedLru K V T × Outcome Unit :=
  match delete config s key with
  | (s,.threw) => (s,.threw)
  | (s,.returned _) => evict config (insert config s key value now)

/-- Put an entry at the end. -/
def touch (s : TimedLru K V T) (key : K) (entry : HeldEntry V T) : TimedLru K V T :=
  {s with entries := (s.entries.delete key).set key entry, uses := entry.id::s.uses}

/-- Hold an entry longer, with another timer. -/
def refreshTimer (config : LruConfig K V T) (s : TimedLru K V T) (key : K) (entry : HeldEntry V T) (now : T) :
    TimedLru K V T :=
  let s := clearTimeout s entry.timer
  {s with
    entries := s.entries.set key {entry with expiresAt := config.later now, timer := s.handles}
    armed := s.armed++[⟨s.handles,key,entry.id,config.later now⟩]
    handles := s.handles+1}

/-- Read a value; the clock is read again when the entry is held longer. -/
def get [LinearOrder T] (config : LruConfig K V T) (s : TimedLru K V T) (key : K) (now again : T) :
    TimedLru K V T × Outcome (Option V) :=
  match s.entries.get key with
  | none => (s,.returned none)
  | some entry =>
    if entry.expiresAt ≤ now then ((delete config s key).1,(delete config s key).2.map fun _ => none)
    else
      let s := touch s key entry
      (if config.updateAgeOnGet then refreshTimer config s key entry again else s,.returned (some entry.value))

/-- Remove entries of keys in turn. -/
def clearKeys (config : LruConfig K V T) : TimedLru K V T → List K → TimedLru K V T × Outcome Unit
  | s,[] => (s,.returned ())
  | s,key::rest =>
    match delete config s key with
    | (s,.threw) => (s,.threw)
    | (s,.returned _) => clearKeys config s rest

/-- Remove every entry. -/
def clear (config : LruConfig K V T) (s : TimedLru K V T) : TimedLru K V T × Outcome Unit :=
  clearKeys config s s.entries.keys

/-- A timer fires: its callback removes the entry it was armed for, if that is held. -/
def fire (config : LruConfig K V T) (s : TimedLru K V T) (timer : ArmedTimer K T) : TimedLru K V T × Outcome Unit :=
  let s := clearTimeout s timer.handle
  if (s.entries.get timer.key).any fun entry => entry.id = timer.entry then
    ((delete config s timer.key).1,(delete config s timer.key).2.map fun _ => ())
  else (s,.returned ())

/-- What a step of a run is. -/
inductive LruCall (K V T : Type) where
  | set (key : K) (value : V) (now : T)
  | get (key : K) (now again : T)
  | delete (key : K)
  | clear
  | fire (timer : ArmedTimer K T)

variable [LinearOrder T]

/-- Execute a step; only a read returns a value. -/
def perform (config : LruConfig K V T) (s : TimedLru K V T) : LruCall K V T → TimedLru K V T × Outcome (Option V)
  | .set key value now => ((set config s key value now).1,(set config s key value now).2.map fun _ => none)
  | .get key now again => get config s key now again
  | .delete key => ((delete config s key).1,(delete config s key).2.map fun _ => none)
  | .clear => ((clear config s).1,(clear config s).2.map fun _ => none)
  | .fire timer => ((fire config s timer).1,(fire config s timer).2.map fun _ => none)

/-- One step of a run: only a timer that waits can fire. -/
def step (config : LruConfig K V T) (s : TimedLru K V T) (call : LruCall K V T) : Option (TimedLru K V T) :=
  match call with
  | .fire timer => if timer ∈ s.armed then some (perform config s (.fire timer)).1 else none
  | call => some (perform config s call).1

end Model

section Invariant

variable {K V T : Type} [DecidableEq K]

/-- Identities of the entries that are held. -/
def heldIds (s : TimedLru K V T) : List ℕ := s.entries.entries.map fun pair => pair.2.id

/-- The timer that an entry needs. -/
def timerOf (pair : K × HeldEntry V T) : ArmedTimer K T := ⟨pair.2.timer,pair.1,pair.2.id,pair.2.expiresAt⟩

/-- What holds between the steps, but for the number of entries. -/
structure Sound (s : TimedLru K V T) : Prop where
  /-- Each entry that was created is held or was disposed of, once. -/
  once : (s.disposed.map (·.entry)++heldIds s).Perm (List.range s.inserted)
  /-- The timers that wait are those of the entries. -/
  timers : s.armed.Perm (s.entries.entries.map timerOf)
  /-- Timers have different handles. -/
  handles : (s.armed.map (·.handle)).Nodup
  /-- Handles are not used again. -/
  fresh : ∀ timer ∈ s.armed, timer.handle < s.handles
  /-- Entries are in the order of their last use. -/
  recent : s.entries.entries.Pairwise fun x y => s.uses.idxOf y.2.id < s.uses.idxOf x.2.id

variable {s : TimedLru K V T} {key : K} {entry : HeldEntry V T}

/-- An entry and the others. -/
theorem entries_perm (h : s.entries.get key = some entry) :
    s.entries.entries.Perm ((key,entry)::(s.entries.delete key).entries) := by
  have hfind : ∀ entries : List (K × HeldEntry V T), (entries.map Prod.fst).Nodup →
      InsertionMap.find entries key = some entry →
      entries.Perm ((key,entry)::entries.filter fun pair => pair.1 ≠ key) := by
    intro entries
    induction entries with
    | nil => exact fun _ hnone => nomatch hnone
    | cons pair rest ih =>
      obtain ⟨k,e⟩ := pair
      intro hnodup hfound
      rw [List.map_cons,List.nodup_cons] at hnodup
      rw [InsertionMap.find] at hfound
      by_cases hk : k = key
      · rw [if_pos hk] at hfound
        cases hfound
        subst hk
        have hothers : rest.filter (fun pair => decide (pair.1 ≠ k)) = rest := by
          refine List.filter_eq_self.mpr fun pair hpair => decide_eq_true fun hsame => hnodup.1 ?_
          exact List.mem_map.mpr ⟨pair,hpair,hsame⟩
        rw [List.filter_cons_of_neg (by simp),hothers]
      · rw [if_neg hk] at hfound
        rw [List.filter_cons_of_pos (by simp [hk])]
        exact ((ih hnodup.2 hfound).cons (k,e)).trans (List.Perm.swap _ _ _)
  exact hfind s.entries.entries s.entries.nodup h

theorem heldIds_perm (h : s.entries.get key = some entry) :
    (heldIds s).Perm (entry.id::(s.entries.delete key).entries.map fun pair => pair.2.id) :=
  (entries_perm h).map fun pair : K × HeldEntry V T => pair.2.id

omit [DecidableEq K] in
theorem Sound.heldIds_nodup (h : Sound s) : (heldIds s).Nodup :=
  (List.nodup_append.mp (h.once.nodup_iff.mpr List.nodup_range)).2.1

omit [DecidableEq K] in
theorem Sound.heldIds_lt (h : Sound s) {id : ℕ} (hid : id ∈ heldIds s) : id < s.inserted :=
  List.mem_range.mp (h.once.mem_iff.mp (List.mem_append_right _ hid))

/-- Cancelling the timer of an entry leaves those of the others. -/
theorem Sound.cancelled (h : Sound s) (hentry : s.entries.get key = some entry) :
    (s.armed.filter fun timer => timer.handle ≠ entry.timer).Perm ((s.entries.delete key).entries.map timerOf) := by
  have hperm := h.timers.trans ((entries_perm hentry).map timerOf)
  rw [List.map_cons] at hperm
  have hhandles := (hperm.map fun timer : ArmedTimer K T => timer.handle).nodup_iff.mp h.handles
  rw [List.map_cons,List.nodup_cons] at hhandles
  have hfilter := hperm.filter fun timer : ArmedTimer K T => decide (timer.handle ≠ entry.timer)
  have hfirst : decide ((timerOf (key,entry)).handle ≠ entry.timer) = false := decide_eq_false fun hne => hne rfl
  rw [List.filter_cons,hfirst,if_neg Bool.false_ne_true] at hfilter
  have hothers : ((s.entries.delete key).entries.map timerOf).filter (fun timer => decide (timer.handle ≠ entry.timer)) =
      (s.entries.delete key).entries.map timerOf := by
    refine List.filter_eq_self.mpr fun timer htimer => decide_eq_true fun hsame => hhandles.1 ?_
    exact List.mem_map.mpr ⟨timer,htimer,hsame⟩
  rwa [hothers] at hfilter

/-- Removing an entry disposes of it. -/
theorem Sound.remove (h : Sound s) (hentry : s.entries.get key = some entry) : Sound (remove s key entry) := by
  refine ⟨?_,h.cancelled hentry,?_,fun timer htimer => ?_,?_⟩
  · have hids := (heldIds_perm hentry).append_left (s.disposed.map (·.entry))
    have hdisposed : (LruTimers.remove s key entry).disposed.map (·.entry) = s.disposed.map (·.entry)++[entry.id] := by
      rw [LruTimers.remove,clearTimeout,List.map_append,List.map_singleton]
    rw [hdisposed,List.append_assoc]
    exact hids.symm.trans h.once
  · exact h.handles.sublist (List.filter_sublist.map _)
  · exact h.fresh timer (List.mem_filter.mp htimer).1
  · exact h.recent.sublist List.filter_sublist

/-- Creating an entry puts it at the end. -/
theorem Sound.insert (h : Sound s) (habsent : s.entries.get key = none) (config : LruConfig K V T) (value : V) (now : T) :
    Sound (insert config s key value now) := by
  have hentries := InsertionMap.entries_set_of_absent ⟨s.inserted,value,config.later now,s.handles⟩ habsent
  refine ⟨?_,?_,?_,fun timer htimer => ?_,?_⟩
  · have hheld : heldIds (LruTimers.insert config s key value now) = heldIds s++[s.inserted] := by
      rw [heldIds,LruTimers.insert,hentries,List.map_append,List.map_singleton,heldIds]
    have hrange : List.range (LruTimers.insert config s key value now).inserted = List.range s.inserted++[s.inserted] :=
      List.range_succ
    rw [hheld,hrange,← List.append_assoc]
    exact h.once.append_right [s.inserted]
  · have harmed : (LruTimers.insert config s key value now).armed =
        s.armed++[⟨s.handles,key,s.inserted,config.later now⟩] := rfl
    rw [harmed,LruTimers.insert,hentries,List.map_append,List.map_singleton]
    exact h.timers.append_right _
  · have harmed : (LruTimers.insert config s key value now).armed.map (·.handle) = s.armed.map (·.handle)++[s.handles] := by
      rw [LruTimers.insert,List.map_append,List.map_singleton]
    rw [harmed]
    refine List.nodup_append.mpr ⟨h.handles,List.nodup_singleton _,fun handle hold other hother => ?_⟩
    obtain ⟨timer,htimer,rfl⟩ := List.mem_map.mp hold
    have hless := h.fresh timer htimer
    rw [List.mem_singleton.mp hother]
    omega
  · rcases List.mem_append.mp htimer with hold | hnew
    · have hless := h.fresh timer hold
      exact hless.trans (Nat.lt_succ_self _)
    · rw [List.mem_singleton.mp hnew]
      exact Nat.lt_succ_self _
  · have hne : ∀ pair ∈ s.entries.entries, pair.2.id ≠ s.inserted := by
      intro pair hpair
      have hless := h.heldIds_lt (List.mem_map.mpr ⟨pair,hpair,rfl⟩)
      omega
    have hshift : ∀ pair ∈ s.entries.entries, (s.inserted::s.uses).idxOf pair.2.id = s.uses.idxOf pair.2.id+1 :=
      fun pair hpair => List.idxOf_cons_ne _ fun hsame => hne pair hpair hsame.symm
    rw [LruTimers.insert]
    dsimp only
    rw [hentries,List.pairwise_append]
    refine ⟨h.recent.imp_of_mem fun hx hy hless => ?_,List.pairwise_singleton _ _,fun x hx y hy => ?_⟩
    · rw [hshift _ hx,hshift _ hy]
      omega
    · rw [List.mem_singleton.mp hy,List.idxOf_cons_self,hshift x hx]
      omega

/-- Using an entry puts it at the end. -/
theorem Sound.touch (h : Sound s) (hentry : s.entries.get key = some entry) : Sound (touch s key entry) := by
  have habsent : (s.entries.delete key).get key = none := InsertionMap.get_delete_self s.entries key
  have hentries := InsertionMap.entries_set_of_absent entry habsent
  have hperm : ((s.entries.delete key).entries++[(key,entry)]).Perm s.entries.entries :=
    (List.perm_append_singleton (key,entry) _).trans (entries_perm hentry).symm
  refine ⟨?_,?_,h.handles,h.fresh,?_⟩
  · have hheld : heldIds (LruTimers.touch s key entry) = ((s.entries.delete key).entries++[(key,entry)]).map fun pair =>
        pair.2.id := by
      rw [heldIds,LruTimers.touch,hentries]
    rw [hheld]
    exact ((hperm.map _).append_left _).trans h.once
  · rw [LruTimers.touch,hentries]
    exact h.timers.trans (hperm.map timerOf).symm
  · have hnodup := (heldIds_perm hentry).nodup_iff.mp h.heldIds_nodup
    rw [List.nodup_cons] at hnodup
    have hne : ∀ pair ∈ (s.entries.delete key).entries, pair.2.id ≠ entry.id := by
      intro pair hpair hsame
      exact hnodup.1 (List.mem_map.mpr ⟨pair,hpair,hsame⟩)
    have hshift : ∀ pair ∈ (s.entries.delete key).entries, (entry.id::s.uses).idxOf pair.2.id =
        s.uses.idxOf pair.2.id+1 := fun pair hpair => List.idxOf_cons_ne _ fun hsame => hne pair hpair hsame.symm
    have hothers : (s.entries.delete key).entries.Pairwise fun x y => s.uses.idxOf y.2.id < s.uses.idxOf x.2.id :=
      h.recent.sublist List.filter_sublist
    rw [LruTimers.touch]
    dsimp only
    rw [hentries,List.pairwise_append]
    refine ⟨hothers.imp_of_mem fun hx hy hless => ?_,List.pairwise_singleton _ _,fun x hx y hy => ?_⟩
    · rw [hshift _ hx,hshift _ hy]
      omega
    · rw [List.mem_singleton.mp hy,List.idxOf_cons_self,hshift x hx]
      omega

/-- Storing under a present key replaces the entry in its place. -/
theorem entries_set_of_present (hentry : s.entries.get key = some entry) (next : HeldEntry V T) :
    (s.entries.set key next).entries = s.entries.entries.map fun pair => if pair.1 = key then (key,next) else pair := by
  have hput : ∀ entries : List (K × HeldEntry V T), (entries.map Prod.fst).Nodup →
      InsertionMap.find entries key = some entry →
      InsertionMap.put entries key next = entries.map fun pair => if pair.1 = key then (key,next) else pair := by
    intro entries
    induction entries with
    | nil => exact fun _ hnone => nomatch hnone
    | cons pair rest ih =>
      obtain ⟨k,e⟩ := pair
      intro hnodup hfound
      rw [List.map_cons,List.nodup_cons] at hnodup
      rw [InsertionMap.find] at hfound
      rw [InsertionMap.put,List.map_cons]
      by_cases hk : k = key
      · subst hk
        have hothers : rest.map (fun pair => if pair.1 = k then (k,next) else pair) = rest := by
          refine (List.map_congr_left fun pair hpair => if_neg fun hsame => hnodup.1 ?_).trans (List.map_id rest)
          exact List.mem_map.mpr ⟨pair,hpair,hsame⟩
        rw [if_pos rfl,if_pos rfl,hothers]
      · rw [if_neg hk] at hfound
        rw [if_neg hk,if_neg hk,ih hnodup.2 hfound]
  exact hput s.entries.entries s.entries.nodup hentry

/-- The entry of a listed pair with a key is the one that is found. -/
theorem mem_entries_key (hentry : s.entries.get key = some entry) {pair : K × HeldEntry V T}
    (hpair : pair ∈ s.entries.entries) (hkey : pair.1 = key) : pair.2 = entry := by
  obtain ⟨k,e⟩ := pair
  have hfound := InsertionMap.get_eq_some_iff.mpr hpair
  subst hkey
  exact Option.some.inj (hfound.symm.trans hentry)

/-- Holding an entry longer replaces its timer. -/
theorem Sound.refreshTimer (h : Sound s) (hentry : s.entries.get key = some entry) (config : LruConfig K V T) (now : T) :
    Sound (refreshTimer config s key entry now) := by
  obtain ⟨next,hnext⟩ : ∃ next : HeldEntry V T, next = {entry with expiresAt := config.later now, timer := s.handles} :=
    ⟨_,rfl⟩
  have hstate : LruTimers.refreshTimer config s key entry now =
      {s with
        entries := s.entries.set key next
        armed := (s.armed.filter fun timer => timer.handle ≠ entry.timer)++[timerOf (key,next)]
        handles := s.handles+1} := by
    rw [hnext]
    rfl
  have hentries := entries_set_of_present hentry next
  have hids : ∀ pair ∈ s.entries.entries, (if pair.1 = key then (key,next) else pair).2.id = pair.2.id := by
    intro pair hpair
    split
    · rename_i hkey
      rw [mem_entries_key hentry hpair hkey,hnext]
    · rfl
  have hcancelled := h.cancelled hentry
  have hnew : (s.entries.set key next).get key = some next := InsertionMap.get_set_self s.entries key next
  rw [hstate]
  refine ⟨?_,?_,?_,fun timer htimer => ?_,?_⟩
  · have hheld : (s.entries.set key next).entries.map (fun pair => pair.2.id) = heldIds s := by
      rw [hentries,List.map_map,heldIds]
      exact List.map_congr_left hids
    rw [heldIds,hheld]
    exact h.once
  · have hperm := (entries_perm (s:={s with entries := s.entries.set key next}) hnew).map timerOf
    have hothers : ((s.entries.set key next).delete key).entries = (s.entries.delete key).entries := by
      have hfilter : ((s.entries.set key next).entries.filter fun pair => pair.1 ≠ key) =
          s.entries.entries.filter fun pair => pair.1 ≠ key := by
        rw [hentries,List.filter_map]
        have hsame : ((fun pair : K × HeldEntry V T => decide (pair.1 ≠ key)) ∘
            fun pair => if pair.1 = key then (key,next) else pair) = fun pair => decide (pair.1 ≠ key) := by
          funext pair
          rw [Function.comp_apply]
          split
          · rename_i hkey
            rw [hkey]
          · rfl
        rw [hsame]
        refine (List.map_congr_left fun pair hpair => if_neg ?_).trans (List.map_id _)
        exact of_decide_eq_true (List.mem_filter.mp hpair).2
      exact hfilter
    dsimp only at hperm ⊢
    rw [hothers,List.map_cons] at hperm
    exact ((hcancelled.append_right _).trans (List.perm_append_singleton _ _)).trans hperm.symm
  · rw [List.map_append,List.map_singleton]
    refine List.nodup_append.mpr ⟨h.handles.sublist (List.filter_sublist.map _),List.nodup_singleton _,
      fun handle hold other hother => ?_⟩
    obtain ⟨timer,htimer,rfl⟩ := List.mem_map.mp hold
    have hless := h.fresh timer (List.mem_filter.mp htimer).1
    have hhandle : (timerOf (key,next)).handle = s.handles := by rw [hnext]; rfl
    rw [List.mem_singleton.mp hother,hhandle]
    omega
  · rcases List.mem_append.mp htimer with hold | hlast
    · have hless := h.fresh timer (List.mem_filter.mp hold).1
      exact hless.trans (Nat.lt_succ_self _)
    · have hhandle : (timerOf (key,next)).handle = s.handles := by rw [hnext]; rfl
      rw [List.mem_singleton.mp hlast,hhandle]
      exact Nat.lt_succ_self _
  · dsimp only
    rw [hentries,List.pairwise_map]
    refine h.recent.imp_of_mem fun hx hy hless => ?_
    rw [hids _ hx,hids _ hy]
    exact hless

end Invariant

section Disposal

variable {K V T : Type} [DecidableEq K]

/-- The call of the owner's callback for an entry. -/
def disposal (pair : K × HeldEntry V T) : Disposed K V := ⟨pair.2.id,pair.2.value,pair.1⟩

/-- The entry of a key, if one is held. -/
def heldAs (s : TimedLru K V T) (key : K) : List (Disposed K V) := ((s.entries.get key).map fun e => disposal (key,e)).toList

/-- Entries with a new one, before one is removed. -/
def withNew (config : LruConfig K V T) (s : TimedLru K V T) (key : K) (value : V) (now : T) : List (K × HeldEntry V T) :=
  (s.entries.delete key).entries++[(key,⟨s.inserted,value,config.later now,s.handles⟩)]

/-- Of too many entries the one whose last use is the oldest. -/
def leastRecent (config : LruConfig K V T) (uses : List ℕ) (entries : List (K × HeldEntry V T)) : List (Disposed K V) :=
  if overfull config entries.length then
    ((entries.find? fun x => entries.all fun y => uses.idxOf y.2.id ≤ uses.idxOf x.2.id).map disposal).toList
  else []

/-- What a step disposes of, in order. -/
def goes [LinearOrder T] (config : LruConfig K V T) (s : TimedLru K V T) : LruCall K V T → List (Disposed K V)
  | .set key value now =>
    heldAs s key++leastRecent config (s.inserted::s.uses) (withNew config s key value now)
  | .get key now _ => if (s.entries.get key).any (·.expiresAt ≤ now) then heldAs s key else []
  | .delete key => heldAs s key
  | .clear => s.entries.entries.map disposal
  | .fire timer => if (s.entries.get timer.key).any (·.id = timer.entry) then heldAs s timer.key else []

/-- There are not too many entries. -/
def Fits (config : LruConfig K V T) (s : TimedLru K V T) : Prop := ∀ max ∈ config.max, (s.entries.size : ℚ) ≤ max

/-- A call disposes of what is due, or of a part of it when the owner's callback throws. -/
structure Disposes {α : Type} (config : LruConfig K V T) (s : TimedLru K V T) (due : List (Disposed K V))
    (result : TimedLru K V T × Outcome α) : Prop where
  /-- What goes is due. -/
  gone : ∃ gone, result.1.disposed = s.disposed++gone ∧ gone <+: due ∧ (result.2 = .threw → gone ≠ []) ∧
    (result.2 ≠ .threw → gone = due)
  /-- The state is as it should be. -/
  sound : Sound result.1
  /-- There are still not too many entries. -/
  fits : Fits config s → Fits config result.1

variable {s : TimedLru K V T} {config : LruConfig K V T} {key : K}

omit [DecidableEq K] in
theorem Outcome.map_threw {α β : Type} {f : α → β} {outcome : Outcome α} : outcome.map f = .threw ↔ outcome = .threw := by
  cases outcome with
  | returned value => exact ⟨fun h => (nomatch h),fun h => (nomatch h)⟩
  | threw => exact ⟨fun _ => rfl,fun _ => rfl⟩

omit [DecidableEq K] in
theorem Disposes.map {α β : Type} {due : List (Disposed K V)} {result : TimedLru K V T × Outcome α}
    (h : Disposes config s due result) (f : α → β) : Disposes config s due (result.1,result.2.map f) := by
  obtain ⟨gone,hgone,hpart,hthrew,hreturned⟩ := h.gone
  refine ⟨⟨gone,hgone,hpart,fun hmap => hthrew (Outcome.map_threw.mp hmap),fun hmap => hreturned ?_⟩,h.sound,h.fits⟩
  exact fun hresult => hmap (Outcome.map_threw.mpr hresult)

omit [DecidableEq K] in
/-- A state that keeps its calls and is not larger disposes of nothing. -/
theorem Disposes.nothing {α : Type} {next : TimedLru K V T} (h : Sound next) (hdisposed : next.disposed = s.disposed)
    (hsize : next.entries.size ≤ s.entries.size) (value : α) : Disposes config s [] (next,.returned value) := by
  refine ⟨⟨[],?_,List.prefix_refl [],fun hthrew => (nomatch hthrew),fun _ => rfl⟩,h,fun hfits max hmax => ?_⟩
  · rw [List.append_nil]
    exact hdisposed
  · have hcast : (next.entries.size : ℚ) ≤ s.entries.size := by exact_mod_cast hsize
    exact hcast.trans (hfits max hmax)

end Disposal

section Runs

variable {K V T : Type} [DecidableEq K] [LinearOrder T] {s : TimedLru K V T} {config : LruConfig K V T}

end Runs

end Baileyrs.LruTimers
