import Baileyrs.LabelledRuns
import Baileyrs.TransactionCommit
import Mathlib.Data.List.TakeWhile

/-!
# Pre-keys in a transaction

A transaction hands the pre-keys it sets to their manager, which takes a deletion only
when the cache of the transaction reads a value for the id. The keys of every other type
live in objects of their own. A deletion of an id that was neither read nor set before is
dropped, and the commit leaves the pre-key in the store.
-/

namespace Baileyrs.PreKeyTransactions

open LabelledRuns
open TransactionCommit (Entries Found)
open TransactionLocks (inherited)

variable {V E : Type*}

/-- An object with pre-keys by id; a null stands for no value. -/
structure KeyObject (V : Type*) where
  /-- Its own properties. -/
  own : Entries V
  /-- Its prototype was taken away. -/
  bare : Bool

/-- An empty object. -/
def KeyObject.empty (V : Type*) : KeyObject V := ⟨fun _ => none,false⟩

/-- A name is found in the object. -/
def KeyObject.has (o : KeyObject V) (id : String) : Bool :=
  (o.own id).isSome || !o.bare && inherited.contains id

/-- The property of this name is no null. -/
def KeyObject.truthy (o : KeyObject V) (id : String) : Bool :=
  match o.own id with
  | some value => value.isSome
  | none => !o.bare && inherited.contains id

/-- Set the property of this name to null. -/
def KeyObject.clear (o : KeyObject V) (id : String) : KeyObject V :=
  if id = "__proto__" ∧ o.bare = false then ⟨o.own,true⟩
  else ⟨Function.update o.own id (some none),o.bare⟩

/-- Assign the properties of another object; an object with a prototype is never assigned
a property named after it. -/
def KeyObject.assign (o : KeyObject V) (source : Entries V) : KeyObject V :=
  ⟨fun id => if id = "__proto__" ∧ o.bare = false then o.own id else (source id).or (o.own id),
    o.bare⟩

/-- Pre-keys to set, in the order of their ids; a null deletes. -/
structure KeyData (V : Type*) where
  /-- Ids with their values. -/
  entries : List (String × Option V)
  /-- No id occurs twice. -/
  nodup : (entries.map Prod.fst).Nodup

/-- Value of an id. -/
def KeyData.value (data : KeyData V) (id : String) : Option (Option V) :=
  (data.entries.find? fun entry => entry.1 = id).map Prod.snd

/-- Values to assign, collected in an object that cannot name its prototype. -/
def KeyData.updates (data : KeyData V) : Entries V := fun id =>
  if id = "__proto__" then none
  else (data.value id).bind fun value => value.map some

/-- Ids to delete. -/
def KeyData.deletions (data : KeyData V) : List String :=
  (data.entries.filter fun entry => entry.2.isNone).map Prod.fst

/-- The pre-keys of a transaction. -/
structure Context (V : Type*) where
  /-- Pre-keys read and written. -/
  cache : Option (KeyObject V)
  /-- Pre-keys written. -/
  mutations : Option (KeyObject V)

/-- The context of a new transaction. -/
def Context.new (V : Type*) : Context V := ⟨none,none⟩

/-- The cached object and the changed one, created when they are missing. -/
def Context.objects (ctx : Context V) : KeyObject V × KeyObject V :=
  (ctx.cache.getD (.empty V),ctx.mutations.getD (.empty V))

/-- Delete an id that the cache has a value for. -/
def processDeletion (objects : KeyObject V × KeyObject V) (id : String) :
    KeyObject V × KeyObject V :=
  if objects.1.truthy id then (objects.1.clear id,objects.2.clear id) else objects

/-- Delete ids in order; others are skipped with a warning. -/
def processDeletions (objects : KeyObject V × KeyObject V) (ids : List String) :
    KeyObject V × KeyObject V :=
  ids.foldl processDeletion objects

/-- Assign the values of the pre-keys that are set. -/
def processUpdates (objects : KeyObject V × KeyObject V) (data : KeyData V) :
    KeyObject V × KeyObject V :=
  (objects.1.assign data.updates,objects.2.assign data.updates)

/-- Assign the values, then delete. -/
def processOperations (objects : KeyObject V × KeyObject V) (data : KeyData V) :
    KeyObject V × KeyObject V :=
  processDeletions (processUpdates objects data) data.deletions

/-- Set pre-keys in the transaction. -/
def Context.set (ctx : Context V) (data : KeyData V) : Context V :=
  let objects := processOperations ctx.objects data
  ⟨some objects.1,some objects.2⟩

/-- Ids that are not found in the cached object. -/
def Context.missing (ctx : Context V) (ids : List String) : List String :=
  ids.filter fun id => !((ctx.cache.getD (.empty V)).has id)

/-- The properties a read returns. -/
def answer (cached : Option (KeyObject V)) (ids : List String) : String → Option (Found V) :=
  fun id =>
    if ids.contains id && id != "__proto__" then
      match cached with
      | none => none
      | some object =>
        match object.own id with
        | some value => value.map .stored
        | none => if !object.bare && inherited.contains id then some (.inherited id) else none
    else none

/-- Fetch the missing pre-keys and answer from the cache. -/
def Context.get (ctx : Context V) (fetch : List String → Except E (Entries V))
    (ids : List String) : Context V × Except E (String → Option (Found V)) :=
  let missing := ctx.missing ids
  if missing = [] then (ctx,.ok (answer ctx.cache ids))
  else
    match fetch missing with
    | .error error => (ctx,.error error)
    | .ok fetched =>
      let cached := (ctx.cache.getD (.empty V)).assign fetched
      (⟨some cached,ctx.mutations⟩,.ok (answer (some cached) ids))

/-- How a store replies to a read of some ids. -/
structure Reply where
  /-- Ids without a value that the reply names with a null. -/
  nulls : String → Bool
  /-- The reply is an object that can hold a property of any name. -/
  named : Bool

/-- What the store replies to a read of some ids: nothing but what it was asked for. -/
def Reply.fetch (reply : Reply) (store : String → Option V) (ids : List String) : Entries V :=
  fun id =>
    if ids.contains id && (reply.named || id != "__proto__") then
      match store id with
      | some value => some (some value)
      | none => if reply.nulls id then some none else none
    else none

/-- What happens while a transaction runs. -/
inductive Label (V E : Type*) where
  /-- The transaction reads; the store replies or rejects. -/
  | get (ids : List String) (reply : Except E Reply)
  /-- The transaction sets. -/
  | set (data : KeyData V)
  /-- Another writer leaves the store with this content. -/
  | outside (store : String → Option V)

/-- The store and a running transaction. -/
structure State (V : Type*) where
  /-- Pre-keys of the store. -/
  store : String → Option V
  /-- Pre-keys of the transaction. -/
  ctx : Context V

/-- What a read does to the transaction and what it returns. -/
def State.read (s : State V) (ids : List String) (reply : Except E Reply) :
    Context V × Except E (String → Option (Found V)) :=
  s.ctx.get (fun missing => reply.map fun reply => reply.fetch s.store missing) ids

/-- Take one step. -/
def step (s : State V) : Label V E → Option (State V)
  | .get ids reply => some {s with ctx := (s.read ids reply).1}
  | .set data => some {s with ctx := s.ctx.set data}
  | .outside store => some {s with store := store}

/-- The store after the changes were committed; attempts that fail before are other
writers' steps. -/
def State.commit (s : State V) : String → Option V :=
  match s.ctx.mutations with
  | none => s.store
  | some changed => fun id =>
    match changed.own id with
    | none => s.store id
    | some value => value

/-- A read returns nothing for the id. -/
def Unread (id : String) (s : State V) (label : Label V E) : Prop :=
  ∀ ids reply found, label = .get ids reply → (s.read ids reply).2 = .ok found →
    found id = none

/-- A step sets the id. -/
def Label.sets (label : Label V E) (id : String) : Prop :=
  ∃ data, label = .set data ∧ data.value id ≠ none

/-- A step of another writer. -/
def Label.isOutside : Label V E → Bool
  | .outside _ => true
  | _ => false

/-- The deletion of an id held: later reads return nothing for it, and after the commit
the store has no value for it. -/
structure Deleted (id : String) (s last : State V) (later : List (Label V E)) : Prop where
  /-- The commit leaves no value. -/
  removed : last.commit id = none
  /-- Reads return nothing. -/
  unread : Guarded step (Unread id) s later

/-- The objects at the moment the deletion of an id is decided. -/
def atDeletion (ctx : Context V) (data : KeyData V) (id : String) :
    KeyObject V × KeyObject V :=
  processDeletions (processUpdates ctx.objects data)
    (data.deletions.takeWhile fun other => other ≠ id)

/-- The cache reads a value for the id then, which is not the prototype itself, or the
deletion was recorded before. -/
def Decided (ctx : Context V) (data : KeyData V) (id : String) : Prop :=
  (atDeletion ctx data id).1.truthy id = true ∧
      (id = "__proto__" → (atDeletion ctx data id).1.bare = true) ∨
    (atDeletion ctx data id).2.own id = some none

@[simp] theorem KeyObject.clear_own_ne (o : KeyObject V) {id other : String} (h : id ≠ other) :
    (o.clear other).own id = o.own id := by
  unfold KeyObject.clear
  split
  · rfl
  · exact Function.update_of_ne h _ _

theorem KeyObject.clear_bare (o : KeyObject V) (id : String) :
    (o.clear id).bare = (o.bare || decide (id = "__proto__")) := by
  unfold KeyObject.clear
  split_ifs with h
  · simp [h.1]
  · by_cases hid : id = "__proto__"
    · have hbare : o.bare = true := by simpa [hid] using h
      simp [hbare]
    · simp [hid]

/-- Clearing a property leaves a null, or takes the prototype away. -/
theorem KeyObject.clear_own (o : KeyObject V) (id : String) :
    (o.clear id).own id = some none ∨
      id = "__proto__" ∧ o.bare = false ∧ (o.clear id).own id = o.own id := by
  unfold KeyObject.clear
  split_ifs with h
  · exact .inr ⟨h.1,h.2,rfl⟩
  · exact .inl (Function.update_self _ _ _)

/-- Assigning without a property of this name leaves it. -/
theorem KeyObject.assign_own_none (o : KeyObject V) {source : Entries V} {id : String}
    (h : source id = none) : (o.assign source).own id = o.own id := by
  simp [KeyObject.assign,h]

/-- What the changed object holds is cached, and the prototypes are taken away together. -/
structure Paired (objects : KeyObject V × KeyObject V) : Prop where
  /-- The changes are cached. -/
  cached : ∀ id value, objects.2.own id = some value → objects.1.own id = some value
  /-- Both have their prototype or none has. -/
  bare : objects.2.bare = objects.1.bare
  /-- An object with a prototype has no property named after it. -/
  proto : objects.1.bare = false → objects.1.own "__proto__" = none

theorem paired_new : Paired (Context.new V).objects := by
  refine ⟨?_,rfl,fun _ => rfl⟩
  intro id value h
  cases h

/-- Assigning the same properties to both keeps them paired. -/
theorem Paired.updates {objects : KeyObject V × KeyObject V} (h : Paired objects)
    (data : KeyData V) : Paired (processUpdates objects data) := by
  refine ⟨?_,h.bare,fun hbare => (KeyObject.assign_own_none _ (by simp [KeyData.updates])).trans
    (h.proto hbare)⟩
  intro id value hvalue
  have hbare := h.bare
  have hold := h.cached id
  dsimp only [processUpdates,KeyObject.assign] at hvalue ⊢
  rw [hbare] at hvalue
  split_ifs at hvalue ⊢ with hproto
  · exact hold value hvalue
  · cases hsource : data.updates id with
    | some new =>
      rw [hsource] at hvalue
      exact hvalue
    | none =>
      rw [hsource] at hvalue
      exact hold value hvalue

/-- So does deleting an id. -/
theorem Paired.deletion {objects : KeyObject V × KeyObject V} (h : Paired objects)
    (id : String) : Paired (processDeletion objects id) := by
  unfold processDeletion
  split_ifs
  · refine ⟨?_,?_,?_⟩
    · intro other value hvalue
      dsimp only at hvalue ⊢
      unfold KeyObject.clear at hvalue ⊢
      rw [h.bare] at hvalue
      split_ifs at hvalue ⊢ with hproto
      · exact h.cached other value hvalue
      · by_cases hother : other = id
        · subst hother
          simpa using hvalue
        · simp only [Function.update_of_ne hother] at hvalue ⊢
          exact h.cached other value hvalue
    · simp [KeyObject.clear_bare,h.bare]
    · intro hbare
      dsimp only at hbare ⊢
      simp only [KeyObject.clear_bare,Bool.or_eq_false_iff,decide_eq_false_iff_not] at hbare
      rw [KeyObject.clear_own_ne _ (Ne.symm hbare.2)]
      exact h.proto hbare.1
  · exact h

theorem Paired.deletions {objects : KeyObject V × KeyObject V} (h : Paired objects)
    (ids : List String) : Paired (processDeletions objects ids) := by
  induction ids generalizing objects with
  | nil => exact h
  | cons id rest ih => exact ih (h.deletion id)

/-- A set keeps them paired. -/
theorem Paired.set {ctx : Context V} (h : Paired ctx.objects) (data : KeyData V) : Paired (ctx.set data).objects :=
  (h.updates data).deletions data.deletions

/-- Ids that are cached are never fetched. -/
theorem missing_uncached {ctx : Context V} {ids : List String} {id : String}
    (h : id ∈ ctx.missing ids) : ctx.objects.1.own id = none := by
  have hfacts := (List.mem_filter.mp h).2
  have hnone : ctx.objects.1.has id = false := by simpa [Context.objects] using hfacts
  simp only [KeyObject.has,Bool.or_eq_false_iff] at hnone
  simpa using hnone.1

theorem fetch_eq_none (reply : Reply) (store : String → Option V) {ids : List String}
    {id : String} (h : id ∉ ids) : reply.fetch store ids id = none := by
  simp [Reply.fetch,h]

/-- A read leaves what is cached and every change. -/
theorem read_keeps (s : State V) (ids : List String) (reply : Except E Reply) :
    (s.read ids reply).1.objects.2 = s.ctx.objects.2 ∧
    (s.read ids reply).1.objects.1.bare = s.ctx.objects.1.bare ∧
    (s.ctx.objects.1.bare = false → (s.read ids reply).1.objects.1.own "__proto__" =
      s.ctx.objects.1.own "__proto__") ∧
    ∀ id value, s.ctx.objects.1.own id = some value →
      (s.read ids reply).1.objects.1.own id = some value := by
  unfold State.read Context.get
  dsimp only
  split_ifs with hmissing
  · exact ⟨rfl,rfl,fun _ => rfl,fun _ _ h => h⟩
  · cases reply with
    | error error => exact ⟨rfl,rfl,fun _ => rfl,fun _ _ h => h⟩
    | ok reply =>
      refine ⟨rfl,rfl,?_,?_⟩
      · intro hbare
        exact if_pos ⟨rfl,hbare⟩
      intro id value hvalue
      have hid : id ∉ s.ctx.missing ids := by
        intro hmem
        rw [missing_uncached hmem] at hvalue
        cases hvalue
      have hnone := fetch_eq_none reply s.store hid
      exact (KeyObject.assign_own_none _ hnone).trans hvalue

/-- A read keeps them paired. -/
theorem Paired.read {s : State V} (h : Paired s.ctx.objects) (ids : List String)
    (reply : Except E Reply) : Paired (s.read ids reply).1.objects := by
  obtain ⟨hmutations,hbare,hproto,hkept⟩ := read_keeps s ids reply
  refine ⟨?_,?_,?_⟩
  · intro id value hvalue
    rw [hmutations] at hvalue
    exact hkept id value (h.cached id value hvalue)
  · rw [hmutations,hbare]
    exact h.bare
  · intro hfalse
    rw [hbare] at hfalse
    rw [hproto hfalse]
    exact h.proto hfalse

theorem paired_step {s next : State V} {label : Label V E} (h : Paired s.ctx.objects)
    (hs : step s label = some next) : Paired next.ctx.objects := by
  cases label with
  | get ids reply =>
    cases hs
    exact h.read ids reply
  | set data =>
    cases hs
    exact h.set data
  | outside store =>
    cases hs
    exact h

theorem processDeletion_own_ne (objects : KeyObject V × KeyObject V) {id other : String} (h : id ≠ other) :
    (processDeletion objects other).1.own id = objects.1.own id ∧
      (processDeletion objects other).2.own id = objects.2.own id := by
  unfold processDeletion
  split_ifs
  · exact ⟨KeyObject.clear_own_ne _ h,KeyObject.clear_own_ne _ h⟩
  · exact ⟨rfl,rfl⟩

/-- Deleting other ids leaves an id. -/
theorem processDeletions_own (objects : KeyObject V × KeyObject V) {id : String}
    {ids : List String} (h : id ∉ ids) : (processDeletions objects ids).1.own id = objects.1.own id ∧
      (processDeletions objects ids).2.own id = objects.2.own id := by
  induction ids generalizing objects with
  | nil => exact ⟨rfl,rfl⟩
  | cons other rest ih =>
    have hother : id ≠ other := fun heq => h (heq ▸ List.mem_cons_self)
    have hhead := processDeletion_own_ne objects hother
    have htail := ih (processDeletion objects other) (fun hm => h (List.mem_cons_of_mem _ hm))
    exact ⟨htail.1.trans hhead.1,htail.2.trans hhead.2⟩

/-- An element of a list without repeats splits it where it first occurs. -/
theorem takeWhile_split {ids : List String} {id : String} (hnodup : ids.Nodup) (h : id ∈ ids) :
    ∃ rest, ids = (ids.takeWhile fun other => other ≠ id)++id::rest ∧ id ∉ rest := by
  induction ids with
  | nil => cases h
  | cons head tail ih =>
    have hfacts := List.nodup_cons.mp hnodup
    by_cases hhead : head = id
    · subst hhead
      exact ⟨tail,by simp,hfacts.1⟩
    · have htail : id ∈ tail := by
        rcases List.mem_cons.mp h with heq | hmem
        · exact absurd heq.symm hhead
        · exact hmem
      obtain ⟨rest,hrest,hnot⟩ := ih hfacts.2 htail
      refine ⟨rest,?_,hnot⟩
      rw [List.takeWhile_cons_of_pos (by simpa using hhead),List.cons_append,← hrest]

/-- An id is deleted exactly when its value is null. -/
theorem KeyData.mem_deletions (data : KeyData V) (id : String) : id ∈ data.deletions ↔ data.value id = some none := by
  have hnodup := data.nodup
  unfold KeyData.deletions KeyData.value
  generalize data.entries = entries at hnodup ⊢
  induction entries with
  | nil => simp
  | cons entry rest ih =>
    obtain ⟨name,value⟩ := entry
    rw [List.map_cons,List.nodup_cons] at hnodup
    have hrest := ih hnodup.2
    by_cases hname : name = id
    · subst hname
      have hnot : name ∉ (rest.filter fun entry => entry.2.isNone).map Prod.fst := by
        intro hmem
        obtain ⟨entry,hentry,heq⟩ := List.mem_map.mp hmem
        exact hnodup.1 (List.mem_map.mpr ⟨entry,(List.mem_filter.mp hentry).1,heq⟩)
      cases value with
      | none => simp
      | some value => simpa using hnot
    · have hcons : id ∈ (((name,value)::rest).filter fun entry => entry.2.isNone).map Prod.fst ↔
          id ∈ (rest.filter fun entry => entry.2.isNone).map Prod.fst := by
        cases value with
        | none => simp [Ne.symm hname]
        | some value => simp
      refine hcons.trans (hrest.trans ?_)
      simp [hname]

theorem KeyData.deletions_nodup (data : KeyData V) : data.deletions.Nodup :=
  data.nodup.sublist (List.filter_sublist.map Prod.fst)

/-- An id whose value is no value is not assigned. -/
theorem KeyData.updates_none {data : KeyData V} {id : String}
    (h : data.value id = none ∨ data.value id = some none) : data.updates id = none := by
  unfold KeyData.updates
  split_ifs
  · rfl
  · rcases h with h | h <;> simp [h]

/-- Assigning leaves an id without a value. -/
theorem processUpdates_own (objects : KeyObject V × KeyObject V) {data : KeyData V}
    {id : String} (h : data.value id = none ∨ data.value id = some none) :
    (processUpdates objects data).1.own id = objects.1.own id ∧
      (processUpdates objects data).2.own id = objects.2.own id :=
  ⟨KeyObject.assign_own_none _ (KeyData.updates_none h),
    KeyObject.assign_own_none _ (KeyData.updates_none h)⟩

/-- A set takes the deletion of an id at its moment, and later those of other ids. -/
theorem set_objects {ctx : Context V} {data : KeyData V} {id : String}
    (h : data.value id = some none) : ∃ rest, id ∉ rest ∧ (ctx.set data).objects =
      processDeletions (processDeletion (atDeletion ctx data id) id) rest := by
  obtain ⟨rest,hrest,hnot⟩ := takeWhile_split data.deletions_nodup
    ((data.mem_deletions id).mpr h)
  refine ⟨rest,hnot,?_⟩
  change processDeletions (processUpdates ctx.objects data) data.deletions = _
  rw [hrest]
  simp [processDeletions,atDeletion]

/-- What a set does to an id it deletes is decided at its deletion. -/
theorem set_own {ctx : Context V} {data : KeyData V} {id : String} (h : data.value id = some none) :
    (ctx.set data).objects.1.own id = (processDeletion (atDeletion ctx data id) id).1.own id ∧
      (ctx.set data).objects.2.own id = (processDeletion (atDeletion ctx data id) id).2.own id := by
  obtain ⟨rest,hnot,hset⟩ := @set_objects _ ctx data id h
  rw [hset]
  exact processDeletions_own _ hnot

/-- Up to its deletion a set leaves the id. -/
theorem atDeletion_own (ctx : Context V) {data : KeyData V} {id : String} (h : data.value id = some none) :
    (atDeletion ctx data id).1.own id = ctx.objects.1.own id ∧
      (atDeletion ctx data id).2.own id = ctx.objects.2.own id := by
  have hnot : id ∉ data.deletions.takeWhile fun other => other ≠ id := by
    intro hmem
    have hne := List.mem_takeWhile_imp hmem
    simp at hne
  have hdeletions := processDeletions_own (processUpdates ctx.objects data) hnot
  have hupdates := processUpdates_own ctx.objects (.inr h)
  exact ⟨hdeletions.1.trans hupdates.1,hdeletions.2.trans hupdates.2⟩

theorem paired_atDeletion {ctx : Context V} (h : Paired ctx.objects) (data : KeyData V)
    (id : String) : Paired (atDeletion ctx data id) :=
  (h.updates data).deletions _

/-- A deletion that is taken is recorded. -/
theorem decided_recorded {ctx : Context V} {data : KeyData V} {id : String}
    (hp : Paired ctx.objects) (hnull : data.value id = some none) (h : Decided ctx data id) :
    (ctx.set data).objects.2.own id = some none := by
  have hpaired := paired_atDeletion hp data id
  have hbare := hpaired.bare
  rw [(set_own hnull).2]
  unfold processDeletion
  rcases h with ⟨htruthy,hproto⟩ | hrecorded
  · rw [if_pos htruthy]
    rcases (atDeletion ctx data id).2.clear_own id with hown | ⟨hid,hfalse,_⟩
    · exact hown
    · rw [hbare,hproto hid] at hfalse
      cases hfalse
  · split_ifs
    · rcases (atDeletion ctx data id).2.clear_own id with hown | ⟨_,_,hown⟩
      · exact hown
      · exact hown.trans hrecorded
    · exact hrecorded

/-- One that is skipped leaves no change of the id. -/
theorem skipped_unrecorded {ctx : Context V} {data : KeyData V} {id : String}
    (hp : Paired ctx.objects) (hnull : data.value id = some none) (h : ¬Decided ctx data id) :
    (ctx.set data).objects.2.own id = none := by
  have hpaired := paired_atDeletion hp data id
  have hnone : (atDeletion ctx data id).2.own id = none := by
    cases hown : (atDeletion ctx data id).2.own id with
    | none => rfl
    | some value =>
      have hcached := hpaired.cached id value hown
      refine absurd ?_ h
      cases value with
      | none => exact .inr hown
      | some value =>
        refine .inl ⟨by simp [KeyObject.truthy,hcached],?_⟩
        rintro rfl
        by_contra hbare
        rw [hpaired.proto (by simpa using hbare)] at hcached
        cases hcached
  rw [(set_own hnull).2]
  unfold processDeletion
  split_ifs with htruthy
  · have hskip : id = "__proto__" ∧ (atDeletion ctx data id).1.bare = false := by
      by_contra hnot
      refine h (.inl ⟨htruthy,?_⟩)
      intro hid
      simpa [hid] using hnot
    rw [← hpaired.bare] at hskip
    dsimp only
    rw [KeyObject.clear,if_pos hskip]
    exact hnone
  · exact hnone

/-- A step that does not set an id leaves its change. -/
theorem step_own {s next : State V} {label : Label V E} {id : String}
    (hs : step s label = some next) (h : ¬label.sets id) : next.ctx.objects.2.own id = s.ctx.objects.2.own id := by
  cases label with
  | get ids reply =>
    cases hs
    change (s.read ids reply).1.objects.2.own id = _
    rw [(read_keeps s ids reply).1]
  | set data =>
    cases hs
    have hvalue : data.value id = none := by
      by_contra hne
      exact h ⟨data,rfl,hne⟩
    have hnot : id ∉ data.deletions := by
      rw [data.mem_deletions id,hvalue]
      simp
    change (processDeletions (processUpdates s.ctx.objects data) data.deletions).2.own id = _
    rw [(processDeletions_own _ hnot).2]
    exact (processUpdates_own _ (.inl hvalue)).2
  | outside store =>
    cases hs
    rfl

/-- So does a run of them. -/
theorem run_own {s last : State V} {labels : List (Label V E)} {id : String}
    (hr : run step s labels = some last) (h : ∀ label ∈ labels, ¬label.sets id) :
    last.ctx.objects.2.own id = s.ctx.objects.2.own id := by
  induction labels generalizing s with
  | nil =>
    cases hr
    rfl
  | cons label rest ih =>
    obtain ⟨next,hn,hrest⟩ := run_cons_some hr
    have hhead := step_own hn (h label List.mem_cons_self)
    have htail := ih hrest fun later hl => h later (List.mem_cons_of_mem _ hl)
    rw [htail,hhead]

/-- A cached null is answered with nothing. -/
theorem read_unread {s : State V} {ids : List String} {reply : Except E Reply} {id : String}
    {found : String → Option (Found V)} (hcached : s.ctx.objects.1.own id = some none)
    (hread : (s.read ids reply).2 = .ok found) : found id = none := by
  have hanswer : ∀ cached : Option (KeyObject V),
      (∀ object, cached = some object → object.own id = some none) →
      answer cached ids id = none := by
    intro cached hown
    unfold answer
    cases cached with
    | none => simp
    | some object => simp [hown object rfl]
  have hkept := (read_keeps s ids reply).2.2.2 id none hcached
  unfold State.read Context.get at hread hkept
  dsimp only at hread hkept
  split_ifs at hread hkept
  · cases hread
    apply hanswer
    intro object hobject
    simpa [Context.objects,hobject] using hcached
  · cases reply with
    | error error => cases hread
    | ok reply =>
      cases hread
      apply hanswer
      intro object hobject
      cases hobject
      exact hkept

/-- While a deletion is recorded and its id not set again, reads return nothing for it. -/
theorem run_unread {s : State V} {labels : List (Label V E)} {id : String}
    (hp : Paired s.ctx.objects) (hrecorded : s.ctx.objects.2.own id = some none)
    (h : ∀ label ∈ labels, ¬label.sets id) : Guarded step (Unread id) s labels := by
  induction labels generalizing s with
  | nil => trivial
  | cons label rest ih =>
    refine ⟨?_,?_⟩
    · intro ids reply found hlabel hread
      exact read_unread (hp.cached id none hrecorded) hread
    · intro next hn
      have hown := step_own hn (h label List.mem_cons_self)
      exact ih (paired_step hp hn) (hown.trans hrecorded)
        fun later hl => h later (List.mem_cons_of_mem _ hl)

/-- Without other writers the store stays. -/
theorem run_store {s last : State V} {labels : List (Label V E)}
    (hr : run step s labels = some last) (h : ∀ label ∈ labels, label.isOutside = false) : last.store = s.store := by
  induction labels generalizing s with
  | nil =>
    cases hr
    rfl
  | cons label rest ih =>
    obtain ⟨next,hn,hrest⟩ := run_cons_some hr
    have htail := ih hrest fun later hl => h later (List.mem_cons_of_mem _ hl)
    rw [htail]
    cases label with
    | get ids reply =>
      cases hn
      rfl
    | set data =>
      cases hn
      rfl
    | outside store => cases h _ List.mem_cons_self

/-- A commit writes the changes and leaves every other id. -/
theorem commit_eq (s : State V) (id : String) : s.commit id = (s.ctx.objects.2.own id).getD (s.store id) := by
  unfold State.commit Context.objects
  cases s.ctx.mutations with
  | none => rfl
  | some changed => cases hown : changed.own id <;> simp [hown]

/-- The last set of a transaction that deletes an id holds, whatever others write, when the
cache reads a value for the id or its deletion was recorded before; and where nobody else
writes, a pre-key that exists is deleted only then. -/
theorem deletion_held_iff {s s₁ s₂ last : State V} {before later : List (Label V E)}
    {data : KeyData V} {id : String} (hnew : s.ctx = .new V) (hexists : s.store id ≠ none)
    (hbefore : run step s before = some s₁)
    (hset : step s₁ (.set data : Label V E) = some s₂) (hlater : run step s₂ later = some last)
    (hnull : data.value id = some none) (hlast : ∀ label ∈ later, ¬label.sets id) :
    (Decided s₁.ctx data id → Deleted id s₂ last later) ∧
    ((∀ label ∈ before++later, label.isOutside = false) →
      (Deleted id s₂ last later ↔ Decided s₁.ctx data id)) := by
  have hpaired₀ : Paired s.ctx.objects := hnew ▸ paired_new
  have hpaired₁ : Paired s₁.ctx.objects :=
    @run_invariant _ _ step (fun s => Paired s.ctx.objects)
      (fun _ _ _ hp hs => paired_step hp hs) s s₁ before hbefore hpaired₀
  have hpaired₂ := paired_step hpaired₁ hset
  have hctx : s₂ = {s₁ with ctx := s₁.ctx.set data} := (Option.some.inj hset).symm
  have hown := run_own hlater hlast
  have htaken : Decided s₁.ctx data id → Deleted id s₂ last later := by
    intro hdecided
    have hrecorded : s₂.ctx.objects.2.own id = some none := by
      rw [hctx]
      exact decided_recorded hpaired₁ hnull hdecided
    refine ⟨?_,run_unread hpaired₂ hrecorded hlast⟩
    rw [commit_eq,hown,hrecorded]
    rfl
  refine ⟨htaken,fun halone => ⟨?_,htaken⟩⟩
  intro hdeleted
  by_contra hskipped
  have hnone : s₂.ctx.objects.2.own id = none := by
    rw [hctx]
    exact skipped_unrecorded hpaired₁ hnull hskipped
  have hstore : last.store = s.store := by
    have hfirst := run_store hbefore fun label hl => halone label (List.mem_append_left _ hl)
    have hsecond := run_store hlater fun label hl => halone label (List.mem_append_right _ hl)
    rw [hsecond,hctx]
    exact hfirst
  have hremoved := hdeleted.removed
  rw [commit_eq,hown,hnone,hstore] at hremoved
  exact hexists hremoved

/-- A read that the store answers asks for the id, or a set gives it a value. -/
def Label.touches (label : Label V E) (id : String) : Prop :=
  (∃ ids reply, label = .get ids (.ok reply) ∧ id ∈ ids) ∨
    ∃ data value, label = .set data ∧ data.value id = some (some value)

/-- The id is cached when it was touched, and a cached null was recorded. -/
structure Loaded (id : String) (touched : Prop) (s : State V) : Prop where
  /-- It is cached. -/
  cached : s.ctx.objects.1.own id ≠ none ↔ touched
  /-- Its null is a change. -/
  recorded : s.ctx.objects.1.own id = some none → s.ctx.objects.2.own id = some none

/-- A read loads the ids it asks for. -/
theorem read_loads {s : State V} {ids : List String} {reply : Reply} {id : String} {value : V}
    (hid : id ∉ inherited) (hstore : s.store id = some value) (hnone : s.ctx.objects.1.own id = none) :
    (s.read ids (.ok reply : Except E Reply)).1.objects.1.own id = if id ∈ ids then some (some value) else none := by
  have hproto : id ≠ "__proto__" := by
    rintro rfl
    exact hid (by decide)
  have hown : (s.ctx.cache.getD (.empty V)).own id = none := hnone
  have hmissing : id ∈ s.ctx.missing ids ↔ id ∈ ids := by
    simp [Context.missing,KeyObject.has,hown,hid]
  unfold State.read Context.get
  dsimp only
  split_ifs with hempty hmem hmem
  · rw [← hmissing,hempty] at hmem
    cases hmem
  · exact hnone
  · simp [Context.objects,Except.map,KeyObject.assign,hproto,Reply.fetch,hmissing.mpr hmem,hstore]
  · have hnot : id ∉ s.ctx.missing ids := fun h => hmem (hmissing.mp h)
    simp [Context.objects,Except.map,KeyObject.assign,fetch_eq_none _ _ hnot,hown]

/-- Setting a value caches it. -/
theorem set_loads {ctx : Context V} {data : KeyData V} {id : String} {value : V}
    (hproto : id ≠ "__proto__") (h : data.value id = some (some value)) :
    (ctx.set data).objects.1.own id = some (some value) := by
  have hnot : id ∉ data.deletions := by
    rw [data.mem_deletions id,h]
    simp
  have hupdates : data.updates id = some (some value) := by
    simp [KeyData.updates,hproto,h]
  change (processDeletions (processUpdates ctx.objects data) data.deletions).1.own id = _
  rw [(processDeletions_own _ hnot).1]
  simp [processUpdates,KeyObject.assign,hproto,hupdates]

/-- Deleting caches a null for what was cached. -/
theorem delete_loads {ctx : Context V} {data : KeyData V} {id : String} (hid : id ∉ inherited)
    (h : data.value id = some none) : ((ctx.set data).objects.1.own id ≠ none ↔ ctx.objects.1.own id ≠ none) ∧
      ((ctx.objects.1.own id = some none → ctx.objects.2.own id = some none) →
        (ctx.set data).objects.1.own id = some none → (ctx.set data).objects.2.own id = some none) := by
  have hproto : id ≠ "__proto__" := by
    rintro rfl
    exact hid (by decide)
  rw [(set_own h).1,(set_own h).2]
  obtain ⟨hcache,hchange⟩ := atDeletion_own ctx h
  unfold processDeletion
  have htruthy : (atDeletion ctx data id).1.truthy id =
      ((ctx.objects.1.own id).bind fun value => value).isSome := by
    unfold KeyObject.truthy
    rw [hcache]
    cases ctx.objects.1.own id with
    | none => simp [hid]
    | some value => rfl
  rw [htruthy]
  cases hown : ctx.objects.1.own id with
  | none => simp [hcache,hown]
  | some value =>
    cases value with
    | none => simp [hcache,hchange,hown]
    | some value => simp [KeyObject.clear,hproto]

/-- A step without other writers keeps the account of what was touched. -/
theorem Loaded.step {id : String} {touched : Prop} {s next : State V} {label : Label V E}
    (h : Loaded id touched s) (hid : id ∉ inherited) (hexists : s.store id ≠ none)
    (hs : step s label = some next) : Loaded id (touched ∨ label.touches id) next := by
  obtain ⟨value,hstore⟩ := Option.ne_none_iff_exists'.mp hexists
  have hsame : next.ctx.objects.1.own id = s.ctx.objects.1.own id →
      next.ctx.objects.2.own id = s.ctx.objects.2.own id → (label.touches id → touched) →
      Loaded id (touched ∨ label.touches id) next := by
    intro hcache hchange htouched
    refine ⟨?_,?_⟩
    · rw [hcache,h.cached]
      exact ⟨.inl,fun hor => hor.elim (fun h => h) htouched⟩
    · rw [hcache,hchange]
      exact h.recorded
  cases label with
  | get ids reply =>
    cases hs
    have hkept := read_keeps s ids reply
    cases hown : s.ctx.objects.1.own id with
    | some old =>
      have hcached := hkept.2.2.2 id old hown
      have htouched : touched := h.cached.mp (by simp [hown])
      exact hsame (hcached.trans hown.symm) (by rw [hkept.1]) fun _ => htouched
    | none =>
      cases reply with
      | error error =>
        have hctx : (s.read ids (.error error)).1 = s.ctx := by
          unfold State.read Context.get
          dsimp only
          split_ifs <;> rfl
        refine hsame (by rw [hctx]) (by rw [hctx]) ?_
        rintro (⟨_,_,hlabel,_⟩ | ⟨_,_,hlabel,_⟩) <;> cases hlabel
      | ok reply =>
        have hread := @read_loads _ E s ids reply id value hid hstore hown
        by_cases hmem : id ∈ ids
        · rw [if_pos hmem] at hread
          refine ⟨?_,?_⟩
          · rw [hread]
            exact ⟨fun _ => .inr (.inl ⟨ids,reply,rfl,hmem⟩),fun _ => by simp⟩
          · rw [hread]
            simp
        · rw [if_neg hmem] at hread
          refine hsame (hread.trans hown.symm) (by rw [hkept.1]) ?_
          rintro (⟨_,_,hlabel,hasked⟩ | ⟨_,_,hlabel,_⟩)
          · cases hlabel
            exact absurd hasked hmem
          · cases hlabel
  | set data =>
    cases hs
    cases hvalue : data.value id with
    | none =>
      have hnot : id ∉ data.deletions := by
        rw [data.mem_deletions id,hvalue]
        simp
      have hdeletions := processDeletions_own (processUpdates s.ctx.objects data) hnot
      have hupdates := processUpdates_own s.ctx.objects (.inl hvalue)
      refine hsame (hdeletions.1.trans hupdates.1) (hdeletions.2.trans hupdates.2) ?_
      rintro (⟨_,_,hlabel,_⟩ | ⟨_,_,hlabel,hset⟩)
      · cases hlabel
      · cases hlabel
        rw [hvalue] at hset
        cases hset
    | some new =>
      cases new with
      | some new =>
        have hproto : id ≠ "__proto__" := by
          rintro rfl
          exact hid (by decide)
        have hset := @set_loads V s.ctx data id new hproto hvalue
        refine ⟨?_,?_⟩
        · rw [hset]
          exact ⟨fun _ => .inr (.inr ⟨data,new,rfl,hvalue⟩),fun _ => by simp⟩
        · rw [hset]
          simp
      | none =>
        obtain ⟨hcache,hchange⟩ := delete_loads hid hvalue
        refine ⟨?_,hchange h.recorded⟩
        rw [hcache,h.cached]
        refine ⟨.inl,?_⟩
        rintro (htouched | ⟨_,_,hlabel,_⟩ | ⟨_,_,hlabel,hset⟩)
        · exact htouched
        · cases hlabel
        · cases hlabel
          rw [hvalue] at hset
          cases hset
  | outside store =>
    cases hs
    refine hsame rfl rfl ?_
    rintro (⟨_,_,hlabel,_⟩ | ⟨_,_,hlabel,_⟩) <;> cases hlabel

/-- A run without other writers keeps the account. -/
theorem Loaded.run {id : String} {touched : Prop} {s last : State V} {labels : List (Label V E)}
    (h : Loaded id touched s) (hid : id ∉ inherited) (hexists : s.store id ≠ none)
    (hr : run PreKeyTransactions.step s labels = some last) (halone : ∀ label ∈ labels, label.isOutside = false) :
    Loaded id (touched ∨ ∃ label ∈ labels, label.touches id) last := by
  induction labels generalizing s touched with
  | nil =>
    cases hr
    simpa using h
  | cons label rest ih =>
    obtain ⟨next,hn,hrest⟩ := run_cons_some hr
    have hnext := h.step hid hexists hn
    have hstore : next.store = s.store :=
      @run_store V E s next [label] (by rw [run_cons,hn]; rfl) (by
        intro later hl
        rw [List.mem_singleton.mp hl]
        exact halone label List.mem_cons_self)
    have hlast := ih hnext (by rw [hstore]; exact hexists) hrest
      fun later hl => halone later (List.mem_cons_of_mem _ hl)
    simpa [or_assoc] using hlast

/-- A deletion is decided exactly when the id is cached. -/
theorem Loaded.decided_iff {id : String} {touched : Prop} {s : State V} {data : KeyData V} (h : Loaded id touched s)
    (hp : Paired s.ctx.objects) (hid : id ∉ inherited) (hnull : data.value id = some none) :
    Decided s.ctx data id ↔ touched := by
  obtain ⟨hcache,hchange⟩ := atDeletion_own s.ctx hnull
  have hproto : id ≠ "__proto__" := by
    rintro rfl
    exact hid (by decide)
  rw [← h.cached,Decided,hchange,KeyObject.truthy,hcache]
  cases hown : s.ctx.objects.1.own id with
  | none =>
    have hunrecorded : s.ctx.objects.2.own id ≠ some none := by
      intro hrecorded
      have hcached := hp.cached id none hrecorded
      rw [hown] at hcached
      cases hcached
    simp [hid,hunrecorded]
  | some value =>
    cases value with
    | none => simp [h.recorded hown]
    | some value => simp [hproto]

/-- Where nobody else writes, the commit deletes a pre-key that exists exactly when the
transaction had read it or had given it a value before it deleted it. -/
theorem committed_deletion_iff {s s₁ s₂ : State V} {before : List (Label V E)} {data : KeyData V} {id : String}
    (hnew : s.ctx = .new V) (hid : id ∉ inherited) (hexists : s.store id ≠ none)
    (hbefore : run step s before = some s₁) (hset : step s₁ (.set data : Label V E) = some s₂)
    (halone : ∀ label ∈ before, label.isOutside = false) (hnull : data.value id = some none) :
    s₂.commit id = none ↔ ∃ label ∈ before, label.touches id := by
  have hpaired : Paired s₁.ctx.objects :=
    @run_invariant _ _ step (fun s => Paired s.ctx.objects) (fun _ _ _ hp hs => paired_step hp hs) s s₁ before hbefore
      (hnew ▸ paired_new)
  have hunloaded : Loaded id False s := by
    constructor <;> simp [hnew,Context.new,Context.objects,KeyObject.empty]
  have hdecided := (hunloaded.run hid hexists hbefore halone).decided_iff hpaired hid hnull
  rw [false_or] at hdecided
  have hstore := run_store hbefore halone
  cases hset
  rw [commit_eq,← hdecided]
  by_cases h : Decided s₁.ctx data id
  · have hrecorded := decided_recorded hpaired hnull h
    simp [hrecorded,h]
  · have hskipped := skipped_unrecorded hpaired hnull h
    simp [hskipped,h,hstore,hexists]

/-- One pre-key to delete. -/
def deletion : KeyData ℕ := ⟨[("1",none)],by decide⟩

/-- A store with that pre-key and a new transaction. -/
def stored : State ℕ := ⟨fun id => if id = "1" then some 7 else none,.new ℕ⟩

/-- A reply without nulls. -/
def plainReply : Reply := ⟨fun _ => false,false⟩

/-- A pre-key that was read before is deleted. -/
theorem deletion_held_read :
    ∃ s₁ s₂ last : State ℕ,
      run step stored [(.get ["1"] (.ok plainReply) : Label ℕ Unit)] = some s₁ ∧
      Decided s₁.ctx deletion "1" ∧
      Deleted "1" s₂ last [(.get ["1"] (.ok plainReply) : Label ℕ Unit)] := by
  have hdecided : Decided (stored.read ["1"] (.ok plainReply : Except Unit Reply)).1 deletion
      "1" := .inl ⟨by decide,by decide⟩
  have hlast : ∀ label ∈ [(.get ["1"] (.ok plainReply) : Label ℕ Unit)], ¬label.sets "1" := by
    intro label hlabel
    rw [List.mem_singleton.mp hlabel]
    rintro ⟨data,hdata,_⟩
    cases hdata
  have hheld := @deletion_held_iff ℕ Unit stored _ _ _ [.get ["1"] (.ok plainReply)]
    [.get ["1"] (.ok plainReply)] deletion "1" rfl (by decide) rfl rfl rfl (by decide) hlast
  exact ⟨_,_,_,rfl,hdecided,hheld.1 hdecided⟩

/-- A pre-key that was read before it was deleted is gone after the commit. -/
theorem committed_deletion_read : ∃ s₁ s₂ : State ℕ,
    run step stored [(.get ["1"] (.ok plainReply) : Label ℕ Unit)] = some s₁ ∧
    step s₁ (.set deletion : Label ℕ Unit) = some s₂ ∧ s₂.commit "1" = none := by
  refine ⟨_,_,rfl,rfl,?_⟩
  refine (@committed_deletion_iff ℕ Unit stored _ _ [.get ["1"] (.ok plainReply)] deletion "1" rfl (by decide) (by decide)
    rfl rfl (by simp [Label.isOutside]) (by decide)).mpr ?_
  exact ⟨_,List.mem_singleton_self _,.inl ⟨["1"],plainReply,rfl,List.mem_singleton_self _⟩⟩

/-- A pre-key that was not read stays in the store. -/
theorem unread_deletion_lost :
    ¬∀ (s s₁ s₂ last : State ℕ) (before later : List (Label ℕ Unit)) (data : KeyData ℕ)
      (id : String), s.ctx = .new ℕ → s.store id ≠ none → run step s before = some s₁ →
      step s₁ (.set data : Label ℕ Unit) = some s₂ → run step s₂ later = some last →
      data.value id = some none → (∀ label ∈ later, ¬label.sets id) →
      Deleted id s₂ last later := by
  intro hall
  have hdeleted := hall stored stored _ _ [] [] deletion "1" rfl (by decide) rfl rfl rfl
    (by decide) (by simp)
  have hremoved : (State.commit ⟨stored.store,stored.ctx.set deletion⟩) "1" = none :=
    hdeleted.removed
  revert hremoved
  decide

end Baileyrs.PreKeyTransactions
