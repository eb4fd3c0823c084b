import Baileyrs.TransactionLocks
import Mathlib.Algebra.Order.Floor.Semiring
import Mathlib.Data.Rat.Floor

/-!
# Commit of a transaction

A top-level transaction runs its callback over a context of cached and changed keys,
which its nested transactions share, and hands the changes to the store until one
attempt succeeds. The loop of attempts ends in silence when it runs out of retries
without the count of retries left ever being zero.
-/

namespace Baileyrs.TransactionCommit

open TransactionLocks (inherited)

/-- A number; the finite ones are rational. -/
inductive Number where
  | nan
  | infinity
  | negInfinity
  | finite (q : ℚ)

/-- An attempt is below the maximum. -/
def Number.exceeds : Number → ℕ → Bool
  | .infinity,_ => true
  | .finite q,attempt => (attempt : ℚ) < q
  | _,_ => false

/-- No retries are left after an attempt. -/
def Number.spent : Number → ℕ → Bool
  | .nan,_ => true
  | .finite q,attempt => q-attempt-1 = 0
  | _,_ => false

/-- Count one more attempt; from the largest exact number on the count stays. -/
def increment (attempt : ℕ) : ℕ := if attempt < 2^53 then attempt+1 else attempt

/-- Properties of an object; a null marks a deletion. -/
abbrev Entries (V : Type*) := String → Option (Option V)

/-- Keys by their types. -/
abbrev KeySet (V : Type*) := SignalDataType → Option (Entries V)

/-- What a callback sets; pre-keys are left to their manager. -/
structure Changes (V : Type*) where
  /-- The keys. -/
  keys : KeySet V
  /-- None of them is a pre-key. -/
  noPreKeys : keys .preKey = none

/-- A property found by a read. -/
inductive Found (V : Type*) where
  | stored (value : V)
  | inherited (name : String)
  deriving DecidableEq

/-- A callback that awaits its store calls. -/
inductive Work (V R E : Type*) where
  | done (result : Except E R)
  | get (type : SignalDataType) (ids : List String)
      (next : Except E (String → Option (Found V)) → Work V R E)
  | set (changes : Changes V) (next : Work V R E)
  | transaction (inner : Work V R E) (next : Except E R → Work V R E)

/-- What happened in a transaction. -/
inductive Event (V : Type*) where
  | wrote (changes : Changes V)
  | read (type : SignalDataType) (ids : List String) (result : String → Option (Found V))

/-- The context of a transaction and what happened in it. -/
structure Context (V : Type*) where
  /-- Keys read and written. -/
  cache : KeySet V
  /-- Keys written. -/
  mutations : KeySet V
  /-- Reads of the store. -/
  dbQueries : ℕ
  /-- Reads and writes, in order. -/
  log : List (Event V)

/-- The context of a new transaction. -/
def Context.new (V : Type*) : Context V := ⟨fun _ => none,fun _ => none,0,[]⟩

variable {V R E : Type*}

/-- Assign the properties of an object; this name sets a prototype instead. -/
def assign (target source : Entries V) : Entries V := fun id =>
  if id = "__proto__" then target id else (source id).or (target id)

/-- Assign the keys of each type that is set. -/
def assignTypes (target source : KeySet V) : KeySet V := fun type =>
  match source type with
  | none => target type
  | some entries => some (assign ((target type).getD fun _ => none) entries)

/-- Cache and record the keys a callback sets. -/
def Context.set (ctx : Context V) (changes : Changes V) : Context V :=
  ⟨assignTypes ctx.cache changes.keys,assignTypes ctx.mutations changes.keys,ctx.dbQueries,
    ctx.log++[.wrote changes]⟩

/-- Ids that are not in the cached object of their type. -/
def Context.missing (ctx : Context V) (type : SignalDataType) (ids : List String) :
    List String :=
  ids.filter fun id => ((ctx.cache type).bind (· id)).isNone && !inherited.contains id

/-- What a read finds in the cached object of its type. -/
def answer (cached : Option (Entries V)) (ids : List String) : String → Option (Found V) :=
  fun id =>
    if ids.contains id && id != "__proto__" then
      match cached with
      | none => none
      | some entries =>
        match entries id with
        | some value => value.map .stored
        | none => if inherited.contains id then some (.inherited id) else none
    else none

/-- Replies of the store to the reads of a transaction. -/
abbrev Replies (V E : Type*) := ℕ → SignalDataType → List String → Except E (Entries V)

/-- Fetch the missing keys and answer from the cache. -/
def Context.get (ctx : Context V) (replies : Replies V E) (type : SignalDataType)
    (ids : List String) : Context V × Except E (String → Option (Found V)) :=
  let missing := ctx.missing type ids
  if missing = [] then
    let result := answer (ctx.cache type) ids
    (⟨ctx.cache,ctx.mutations,ctx.dbQueries,ctx.log++[.read type ids result]⟩,.ok result)
  else
    match replies ctx.dbQueries type missing with
    | .error error => (⟨ctx.cache,ctx.mutations,ctx.dbQueries+1,ctx.log⟩,.error error)
    | .ok fetched =>
      let cached := assign ((ctx.cache type).getD fun _ => none) fetched
      let result := answer (some cached) ids
      (⟨Function.update ctx.cache type (some cached),ctx.mutations,ctx.dbQueries+1,
        ctx.log++[.read type ids result]⟩,.ok result)

/-- Run a callback; a nested transaction reuses the context. -/
def Work.run (replies : Replies V E) : Work V R E → Context V → Context V × Except E R
  | .done result,ctx => (ctx,result)
  | .get type ids next,ctx =>
    let (ctx,result) := ctx.get replies type ids
    (next result).run replies ctx
  | .set changes next,ctx => next.run replies (ctx.set changes)
  | .transaction inner next,ctx =>
    let (ctx,result) := inner.run replies ctx
    (next result).run replies ctx

/-- All types of keys. -/
def keyTypes : List SignalDataType :=
  [.preKey,.session,.senderKey,.senderKeyMemory,.appStateSyncKey,.appStateSyncVersion,.lidMapping,
    .deviceList,.tctoken,.identityKey]

/-- No type was set. -/
def unchanged (mutations : KeySet V) : Bool := keyTypes.all fun type => (mutations type).isNone

/-- Hand the changes to the store until an attempt succeeds, with the failures of the
attempts made; `none` when the fuel runs out first. -/
def attempts (maxCommitRetries : Number) (failures : ℕ → Option E) :
    ℕ → ℕ → ℕ → Option (List (Option E) × Except E Unit)
  | 0,_,_ => none
  | fuel+1,attempt,call =>
    if maxCommitRetries.exceeds attempt then
      match failures call with
      | none => some ([none],.ok ())
      | some error =>
        if maxCommitRetries.spent attempt then some ([some error],.error error)
        else (attempts maxCommitRetries failures fuel (increment attempt) (call+1)).map
          fun rest => (some error::rest.1,rest.2)
    else some ([],.ok ())

/-- How a top-level transaction settled. -/
structure Outcome (V R E : Type*) where
  /-- What the callback returned or threw. -/
  callback : Except E R
  /-- What the transaction resolves or rejects with. -/
  result : Except E R
  /-- Reads and writes of the callback. -/
  log : List (Event V)
  /-- Changes handed to the store, with the failure of each attempt. -/
  sets : List (KeySet V × Option E)

/-- Run a top-level transaction. -/
def transaction (maxCommitRetries : Number) (replies : Replies V E) (failures : ℕ → Option E)
    (work : Work V R E) (fuel : ℕ) : Option (Outcome V R E) :=
  let (ctx,callback) := work.run replies (.new V)
  match callback with
  | .error error => some ⟨callback,.error error,ctx.log,[]⟩
  | .ok value =>
    if unchanged ctx.mutations then some ⟨callback,.ok value,ctx.log,[]⟩
    else (attempts maxCommitRetries failures fuel 0 0).map fun made =>
      ⟨callback,made.2.map fun _ => value,ctx.log,
        made.1.map fun failure => (ctx.mutations,failure)⟩

/-- Last value set for an id. -/
def lastWrite (log : List (Event V)) (type : SignalDataType) (id : String) : Option (Option V) :=
  log.foldl (fun last event =>
    match event with
    | .wrote changes => ((changes.keys type).bind (· id)).or last
    | .read _ _ _ => last) none

/-- Keys are exactly those written last. -/
def Carries (keys : KeySet V) (log : List (Event V)) : Prop :=
  ∀ type id, (keys type).bind (· id) = lastWrite log type id

/-- Every read answers an id that was written before with its last value. -/
def SeesOwnWrites (log : List (Event V)) : Prop :=
  ∀ before type ids result after, log = before++.read type ids result::after →
    ∀ id ∈ ids, ∀ value, lastWrite before type id = some value →
      result id = value.map .stored

/-- A transaction resolves with its changes committed, or rejects. -/
structure CommitOrReject (o : Outcome V R E) : Prop where
  /-- It resolves without changes or after one commit that succeeded. -/
  resolves : ∀ value, o.result = .ok value → (∀ type id, lastWrite o.log type id = none) ∨
    ∃ keys, ∃ errors : List E, o.sets = (errors.map fun error => (keys,some error))++[(keys,none)] ∧
      Carries keys o.log
  /-- It rejects with the error of the callback or of the last attempt. -/
  rejects : ∀ error, o.result = .error error → o.callback = .error error ∧ o.sets = [] ∨
    ∃ keys, ∃ errors : List E, o.sets = (errors++[error]).map fun error => (keys,some error)
  /-- Nothing else is written. -/
  only : ∀ made ∈ o.sets, Carries made.1 o.log
  /-- Reads see what was written before. -/
  reads : SeesOwnWrites o.log

/-- The maximum is a positive integer or beyond counting. -/
def Number.countable : Number → Bool
  | .infinity => true
  | .finite q => q.den = 1 ∧ 0 < q ∨ 2^53 < q
  | _ => false

/-- The store replies only with the ids it was asked for. -/
def OnlyAsked (replies : Replies V E) : Prop :=
  ∀ query type ids entries, replies query type ids = .ok entries →
    ∀ id, entries id ≠ none → id ∈ ids

/-- Every id written becomes a property. -/
def Ordinary (log : List (Event V)) : Prop :=
  ∀ changes, .wrote changes ∈ log → ∀ type, (changes.keys type).bind (· "__proto__") = none

theorem lastWrite_wrote (log : List (Event V)) (changes : Changes V) (type : SignalDataType)
    (id : String) : lastWrite (log++[.wrote changes]) type id =
      ((changes.keys type).bind (· id)).or (lastWrite log type id) := by
  simp [lastWrite]

theorem lastWrite_read (log : List (Event V)) (read : SignalDataType) (ids : List String)
    (result : String → Option (Found V)) (type : SignalDataType) (id : String) :
    lastWrite (log++[.read read ids result]) type id = lastWrite log type id := by
  simp [lastWrite]

/-- Assigned types answer with the source first, then with the target. -/
theorem assignTypes_bind (target source : KeySet V) (type : SignalDataType) {id : String}
    (hid : id ≠ "__proto__") : (assignTypes target source type).bind (· id) =
      ((source type).bind (· id)).or ((target type).bind (· id)) := by
  unfold assignTypes
  cases hsource : source type with
  | none => simp
  | some entries =>
    have hassign : assign ((target type).getD fun _ => none) entries id =
        (entries id).or ((target type).getD (fun _ => none) id) := by
      simp [assign,hid]
    cases htarget : target type with
    | none => simp [assign,hid]
    | some old => simp [assign,hid]

/-- That name never becomes a property. -/
theorem assignTypes_proto (target source : KeySet V) (type : SignalDataType) :
    (assignTypes target source type).bind (· "__proto__") =
      (target type).bind (· "__proto__") := by
  unfold assignTypes
  cases hsource : source type with
  | none => rfl
  | some entries =>
    cases htarget : target type with
    | none => simp [assign]
    | some old => simp [assign]

theorem Ordinary.of_append {log more : List (Event V)} (h : Ordinary (log++more)) : Ordinary log :=
  fun changes hmem => h changes (List.mem_append_left more hmem)

/-- An ordinary log never names it. -/
theorem Ordinary.lastWrite_proto {log : List (Event V)} (h : Ordinary log)
    (type : SignalDataType) : lastWrite log type "__proto__" = none := by
  induction log using List.reverseRecOn with
  | nil => rfl
  | append_singleton log event ih =>
    have hlog := ih h.of_append
    cases event with
    | wrote changes =>
      have hnone := h changes (by simp) type
      rw [lastWrite_wrote,hnone,hlog]
      rfl
    | read read ids result =>
      rw [lastWrite_read]
      exact hlog

/-- A read that answers with the last values keeps the account. -/
theorem SeesOwnWrites.read {log : List (Event V)} (h : SeesOwnWrites log) {type : SignalDataType}
    {ids : List String} {result : String → Option (Found V)}
    (hresult : ∀ id ∈ ids, ∀ value, lastWrite log type id = some value →
      result id = value.map .stored) : SeesOwnWrites (log++[.read type ids result]) := by
  intro before other others found after hlog
  rcases List.eq_nil_or_concat after with hnil | ⟨front,last,hconcat⟩
  · subst hnil
    have hsplit := List.append_inj' hlog rfl
    have hlast := hsplit.2
    cases hlast
    rw [← hsplit.1]
    exact hresult
  · rw [hconcat,List.concat_eq_append,← List.cons_append,← List.append_assoc] at hlog
    have hsplit := List.append_inj' hlog rfl
    exact h before other others found front hsplit.1

/-- A write keeps the account. -/
theorem SeesOwnWrites.wrote {log : List (Event V)} (h : SeesOwnWrites log)
    (changes : Changes V) : SeesOwnWrites (log++[.wrote changes]) := by
  intro before type ids result after hlog
  rcases List.eq_nil_or_concat after with hnil | ⟨front,last,hconcat⟩
  · subst hnil
    have hsplit := List.append_inj' hlog rfl
    cases hsplit.2
  · rw [hconcat,List.concat_eq_append,← List.cons_append,← List.append_assoc] at hlog
    have hsplit := List.append_inj' hlog rfl
    exact h before type ids result front hsplit.1

/-- The context holds what was written, as long as every id becomes a property. -/
structure Accounted (ctx : Context V) : Prop where
  /-- The changes are those written last. -/
  mutations : Carries ctx.mutations ctx.log
  /-- They are cached. -/
  cached : ∀ type id value, lastWrite ctx.log type id = some value →
    (ctx.cache type).bind (· id) = some value
  /-- Reads have seen them. -/
  reads : SeesOwnWrites ctx.log

/-- An id that was written is answered with its value. -/
theorem answer_cached {cached : Option (Entries V)} {ids : List String} {id : String}
    {value : Option V} (hid : id ∈ ids) (hproto : id ≠ "__proto__")
    (hcached : cached.bind (· id) = some value) :
    answer cached ids id = value.map .stored := by
  cases cached with
  | none => cases hcached
  | some entries =>
    have hentry : entries id = some value := hcached
    simp [answer,hid,hproto,hentry]

/-- A new context is accounted for. -/
theorem accounted_new : Accounted (.new V) := by
  refine ⟨?_,?_,?_⟩
  · intro type id
    rfl
  · intro type id value hvalue
    cases hvalue
  · intro before type ids result after hlog
    simp [Context.new] at hlog

/-- Writing keeps the account. -/
theorem Accounted.set {ctx : Context V} {changes : Changes V}
    (h : Accounted ctx) (hordinary : Ordinary (ctx.set changes).log) : Accounted (ctx.set changes) := by
  have hbefore : Ordinary ctx.log := hordinary.of_append
  refine ⟨?_,?_,h.reads.wrote changes⟩
  · intro type id
    by_cases hid : id = "__proto__"
    · subst hid
      have hnone := hordinary.lastWrite_proto type
      rw [hnone]
      change (assignTypes ctx.mutations changes.keys type).bind _ = none
      rw [assignTypes_proto,h.mutations,hbefore.lastWrite_proto]
    · change (assignTypes ctx.mutations changes.keys type).bind _ =
        lastWrite (ctx.log++[.wrote changes]) type id
      rw [assignTypes_bind _ _ _ hid,lastWrite_wrote,h.mutations]
  · intro type id value hvalue
    have hid : id ≠ "__proto__" := by
      rintro rfl
      rw [hordinary.lastWrite_proto] at hvalue
      cases hvalue
    change lastWrite (ctx.log++[.wrote changes]) type id = some value at hvalue
    change (assignTypes ctx.cache changes.keys type).bind _ = some value
    rw [assignTypes_bind _ _ _ hid]
    rw [lastWrite_wrote] at hvalue
    cases hchanges : (changes.keys type).bind (· id) with
    | some new =>
      rw [hchanges] at hvalue
      exact hvalue
    | none =>
      rw [hchanges,Option.none_or] at hvalue
      rw [Option.none_or]
      exact h.cached type id value hvalue

/-- Reading keeps the account: what was written is never fetched. -/
theorem Accounted.get {ctx : Context V} {replies : Replies V E} {type : SignalDataType}
    {ids : List String} (h : Accounted ctx) (hasked : OnlyAsked replies)
    (hordinary : Ordinary ctx.log) : Accounted (ctx.get replies type ids).1 := by
  have hproto : ∀ other id value, lastWrite ctx.log other id = some value → id ≠ "__proto__" := by
    intro other id value hvalue hid
    rw [hid,hordinary.lastWrite_proto] at hvalue
    cases hvalue
  unfold Context.get
  dsimp only
  split_ifs with hmissing
  · refine ⟨?_,?_,?_⟩
    · intro other id
      exact (h.mutations other id).trans (lastWrite_read _ _ _ _ _ _).symm
    · intro other id value hvalue
      rw [lastWrite_read] at hvalue
      exact h.cached other id value hvalue
    · refine h.reads.read ?_
      intro id hid value hvalue
      exact answer_cached hid (hproto type id value hvalue) (h.cached type id value hvalue)
  · cases hreply : replies ctx.dbQueries type (ctx.missing type ids) with
    | error error => exact ⟨h.mutations,h.cached,h.reads⟩
    | ok fetched =>
      have hkept : ∀ id value, lastWrite ctx.log type id = some value →
          assign ((ctx.cache type).getD fun _ => none) fetched id = some value := by
        intro id value hvalue
        have hcached := h.cached type id value hvalue
        have hnotMissing : id ∉ ctx.missing type ids := by
          intro hmem
          have hfacts := (List.mem_filter.mp hmem).2
          rw [hcached] at hfacts
          simp at hfacts
        have hnotFetched : fetched id = none := by
          by_contra hfetched
          exact hnotMissing (hasked _ _ _ _ hreply id hfetched)
        cases hcache : ctx.cache type with
        | none =>
          rw [hcache] at hcached
          cases hcached
        | some entries =>
          rw [hcache] at hcached
          have hentry : entries id = some value := hcached
          simp [assign,hnotFetched,hentry]
      refine ⟨?_,?_,?_⟩
      · intro other id
        exact (h.mutations other id).trans (lastWrite_read _ _ _ _ _ _).symm
      · intro other id value hvalue
        rw [lastWrite_read] at hvalue
        by_cases hother : other = type
        · subst hother
          simp only [Function.update_self]
          exact hkept id value hvalue
        · simp only [Function.update_of_ne hother]
          exact h.cached other id value hvalue
      · refine h.reads.read ?_
        intro id hid value hvalue
        exact answer_cached hid (hproto type id value hvalue) (hkept id value hvalue)

/-- A read appends to the log at most. -/
theorem Context.get_log (ctx : Context V) (replies : Replies V E) (type : SignalDataType)
    (ids : List String) : ∃ more, (ctx.get replies type ids).1.log = ctx.log++more := by
  unfold Context.get
  dsimp only
  split_ifs
  · exact ⟨_,rfl⟩
  · cases replies ctx.dbQueries type (ctx.missing type ids) with
    | error error => exact ⟨[],(List.append_nil _).symm⟩
    | ok fetched => exact ⟨_,rfl⟩

/-- So does a callback. -/
theorem Work.run_log (replies : Replies V E) (work : Work V R E) (ctx : Context V) :
    ∃ more, (work.run replies ctx).1.log = ctx.log++more := by
  induction work generalizing ctx with
  | done result => exact ⟨[],(List.append_nil _).symm⟩
  | get type ids next ih =>
    rcases ctx.get_log replies type ids with ⟨first,hfirst⟩
    rcases ih (ctx.get replies type ids).2 (ctx.get replies type ids).1 with ⟨rest,hrest⟩
    refine ⟨first++rest,?_⟩
    rw [← List.append_assoc,← hfirst]
    exact hrest
  | set changes next ih =>
    rcases ih (ctx.set changes) with ⟨rest,hrest⟩
    refine ⟨[.wrote changes]++rest,?_⟩
    rw [← List.append_assoc]
    exact hrest
  | transaction inner next ihInner ihNext =>
    rcases ihInner ctx with ⟨first,hfirst⟩
    rcases ihNext (inner.run replies ctx).2 (inner.run replies ctx).1 with ⟨rest,hrest⟩
    refine ⟨first++rest,?_⟩
    rw [← List.append_assoc,← hfirst]
    exact hrest

/-- A callback keeps the account. -/
theorem Accounted.run {replies : Replies V E} {work : Work V R E} {ctx : Context V}
    (h : Accounted ctx) (hasked : OnlyAsked replies) (hordinary : Ordinary (work.run replies ctx).1.log) :
    Accounted (work.run replies ctx).1 := by
  induction work generalizing ctx with
  | done result => exact h
  | get type ids next ih =>
    rcases Work.run_log replies (.get type ids next) ctx with ⟨more,hmore⟩
    have hbefore : Ordinary ctx.log := (hmore ▸ hordinary).of_append
    exact ih _ (h.get hasked hbefore) hordinary
  | set changes next ih =>
    rcases Work.run_log replies next (ctx.set changes) with ⟨more,hmore⟩
    have hbefore : Ordinary (ctx.set changes).log := by
      change Ordinary (next.run replies (ctx.set changes)).1.log at hordinary
      rw [hmore] at hordinary
      exact hordinary.of_append
    exact ih (h.set hbefore) hordinary
  | transaction inner next ihInner ihNext =>
    rcases Work.run_log replies (next (inner.run replies ctx).2) (inner.run replies ctx).1 with
      ⟨more,hmore⟩
    have hbefore : Ordinary (inner.run replies ctx).1.log := by
      change Ordinary ((next (inner.run replies ctx).2).run replies
        (inner.run replies ctx).1).1.log at hordinary
      rw [hmore] at hordinary
      exact hordinary.of_append
    exact ihNext _ (ihInner h hbefore) hordinary

/-- Fewer attempts are below a maximum as well. -/
theorem exceeds_of_le {max : Number} {attempt later : ℕ} (hle : attempt ≤ later)
    (h : max.exceeds later = true) : max.exceeds attempt = true := by
  cases max with
  | nan => cases h
  | negInfinity => cases h
  | infinity => rfl
  | finite q =>
    have hlater : (later : ℚ) < q := by
      simpa [Number.exceeds] using h
    have hcast : (attempt : ℚ) ≤ later := Nat.cast_le.mpr hle
    have hless : (attempt : ℚ) < q := lt_of_le_of_lt hcast hlater
    simpa [Number.exceeds] using hless

/-- One round of the loop: it ends, by success, rejection or silence, or goes on. -/
theorem attempts_succ {max : Number} {failures : ℕ → Option E} {fuel attempt call : ℕ}
    {made : List (Option E) × Except E Unit} (h : attempts max failures (fuel+1) attempt call = some made) :
    max.exceeds attempt = true ∧ failures call = none ∧ made = ([none],.ok ()) ∨
    (∃ error, max.exceeds attempt = true ∧ failures call = some error ∧
      max.spent attempt = true ∧ made = ([some error],.error error)) ∨
    (∃ error rest, max.exceeds attempt = true ∧ failures call = some error ∧ max.spent attempt = false ∧
      attempts max failures fuel (increment attempt) (call+1) = some rest ∧
      made = (some error::rest.1,rest.2)) ∨ max.exceeds attempt = false ∧ made = ([],.ok ()) := by
  simp only [attempts] at h
  cases hexceeds : max.exceeds attempt with
  | false =>
    rw [hexceeds,if_neg (by simp)] at h
    exact .inr (.inr (.inr ⟨rfl,(Option.some.inj h).symm⟩))
  | true =>
    rw [hexceeds,if_pos rfl] at h
    cases hfailure : failures call with
    | none =>
      simp only [hfailure,Option.some.injEq] at h
      exact .inl ⟨rfl,rfl,h.symm⟩
    | some error =>
      simp only [hfailure] at h
      cases hspent : max.spent attempt with
      | true =>
        rw [hspent,if_pos rfl] at h
        exact .inr (.inl ⟨error,rfl,rfl,rfl,(Option.some.inj h).symm⟩)
      | false =>
        rw [hspent,if_neg (by simp)] at h
        rcases Option.map_eq_some_iff.mp h with ⟨rest,hrest,hmade⟩
        exact .inr (.inr (.inl ⟨error,rest,rfl,rfl,rfl,hrest,hmade.symm⟩))

/-- The loop made failing attempts only, but for a last one that succeeded. -/
inductive Made : List (Option E) × Except E Unit → Prop where
  | succeeded (errors : List E) : Made (errors.map some++[none],.ok ())
  | rejected (errors : List E) (error : E) : Made ((errors++[error]).map some,.error error)
  | silent (errors : List E) : Made (errors.map some,.ok ())

/-- A failing attempt before them. -/
theorem Made.cons {made : List (Option E) × Except E Unit} (h : Made made) (error : E) :
    Made (some error::made.1,made.2) := by
  cases h with
  | succeeded errors => exact .succeeded (error::errors)
  | rejected errors last => exact .rejected (error::errors) last
  | silent errors => exact .silent (error::errors)

/-- Every loop ends in one of these ways. -/
theorem attempts_made {max : Number} {failures : ℕ → Option E} {fuel attempt call : ℕ}
    {made : List (Option E) × Except E Unit} (h : attempts max failures fuel attempt call = some made) : Made made := by
  induction fuel generalizing attempt call made with
  | zero => cases h
  | succ fuel ih =>
    rcases attempts_succ h with ⟨_,_,rfl⟩ | ⟨error,_,_,_,rfl⟩ | ⟨error,rest,_,_,_,hrest,rfl⟩ |
      ⟨_,rfl⟩
    · exact .succeeded []
    · exact .rejected [] error
    · exact (ih hrest).cons error
    · exact .silent []

/-- A loop whose count stays below the maximum never ends in silence. -/
theorem attempts_stuck {max : Number} {failures : ℕ → Option E} {fuel call : ℕ}
    {made : List (Option E) × Except E Unit} (hexceeds : max.exceeds (2^53) = true)
    (h : attempts max failures fuel (2^53) call = some made) (hok : made.2 = .ok ()) : none ∈ made.1 := by
  induction fuel generalizing call made with
  | zero => cases h
  | succ fuel ih =>
    rcases attempts_succ h with ⟨_,_,rfl⟩ | ⟨error,_,_,_,rfl⟩ | ⟨error,rest,_,_,_,hrest,rfl⟩ |
      ⟨hnot,_⟩
    · simp
    · cases hok
    · have hstays : increment (2^53) = 2^53 := if_neg (Nat.lt_irrefl _)
      rw [hstays] at hrest
      exact List.mem_cons_of_mem _ (ih hrest hok)
    · rw [hexceeds] at hnot
      cases hnot

/-- A loop that ends in silence ran out of failing attempts without spending its
retries. -/
theorem attempts_silent {max : Number} {failures : ℕ → Option E} {fuel attempt : ℕ}
    {made : List (Option E) × Except E Unit}
    (h : attempts max failures fuel attempt attempt = some made) (hok : made.2 = .ok ())
    (hsilent : none ∉ made.1) (hle : attempt ≤ 2^53) :
    max.exceeds (2^53) = false ∧ ∀ n, attempt ≤ n → max.exceeds n = true → failures n ≠ none ∧ max.spent n = false := by
  induction fuel generalizing attempt made with
  | zero => cases h
  | succ fuel ih =>
    have hend : max.exceeds attempt = false → max.exceeds (2^53) = false ∧
        ∀ n, attempt ≤ n → max.exceeds n = true → failures n ≠ none ∧ max.spent n = false := by
      intro hnot
      have hnever : ∀ n, attempt ≤ n → max.exceeds n ≠ true := by
        intro n hn hexceeds
        rw [exceeds_of_le hn hexceeds] at hnot
        cases hnot
      exact ⟨Bool.eq_false_iff.mpr (hnever _ hle),fun n hn hexceeds =>
        absurd hexceeds (hnever n hn)⟩
    rcases attempts_succ h with ⟨_,_,rfl⟩ | ⟨error,_,_,_,rfl⟩ |
      ⟨error,rest,hexceeds,hfailure,hspent,hrest,rfl⟩ | ⟨hnot,_⟩
    · simp at hsilent
    · cases hok
    · have hrestSilent : none ∉ rest.1 := by
        intro hmem
        exact hsilent (List.mem_cons_of_mem _ hmem)
      by_cases hless : attempt < 2^53
      · have hnext : increment attempt = attempt+1 := if_pos hless
        rw [hnext] at hrest
        have hlater := ih hrest hok hrestSilent (by omega)
        refine ⟨hlater.1,?_⟩
        intro n hn hbelow
        by_cases hcase : n = attempt
        · subst hcase
          exact ⟨by rw [hfailure]; simp,hspent⟩
        · exact hlater.2 n (by omega) hbelow
      · have heq : attempt = 2^53 := by omega
        subst heq
        have hsame : increment (2^53) = 2^53 := if_neg (Nat.lt_irrefl _)
        rw [hsame] at hrest
        exact absurd (attempts_stuck hexceeds hrest hok) hrestSilent
    · exact hend hnot

/-- With a countable maximum the retries are spent before they run out. -/
theorem countable_spent {max : Number} (hcountable : max.countable = true) :
    max.exceeds (2^53) = true ∨ ∃ n, max.exceeds n = true ∧ max.spent n = true := by
  cases max with
  | nan => cases hcountable
  | negInfinity => cases hcountable
  | infinity => exact .inl rfl
  | finite q =>
    have hcases : q.den = 1 ∧ 0 < q ∨ 2^53 < q := by
      simpa [Number.countable] using hcountable
    rcases hcases with ⟨hden,hpositive⟩ | hlarge
    · right
      have hnum : (q.num : ℚ) = q := Rat.coe_int_num_of_den_eq_one hden
      have hnumPositive : 0 < q.num := Rat.num_pos.mpr hpositive
      have hcast : ((q.num.toNat-1 : ℕ) : ℚ) = q-1 := by
        have hint : ((q.num.toNat-1 : ℕ) : ℤ) = q.num-1 := by omega
        have hrat : ((q.num.toNat-1 : ℕ) : ℚ) = ((q.num-1 : ℤ) : ℚ) := by
          rw [← hint]
          simp
        rw [hrat]
        push_cast
        rw [hnum]
      refine ⟨q.num.toNat-1,?_,?_⟩
      · simp [Number.exceeds,hcast]
      · simp [Number.spent,hcast]
    · left
      have hcast : ((2^53 : ℕ) : ℚ) < q := by
        push_cast
        exact hlarge
      simpa [Number.exceeds] using hcast

/-- Without one, failing attempts end in silence. -/
theorem attempts_run_out {max : Number} {failures : ℕ → Option E} (hcountable : max.countable = false)
    (hfailures : ∀ n, max.exceeds n = true → failures n ≠ none) {left attempt : ℕ}
    (hleft : max.exceeds (attempt+left) = false) :
    ∃ fuel, ∃ errors : List E, attempts max failures fuel attempt attempt = some (errors.map some,.ok ()) := by
  induction left generalizing attempt with
  | zero =>
    refine ⟨1,[],?_⟩
    have hnot : max.exceeds attempt = false := hleft
    simp [attempts,hnot]
  | succ left ih =>
    cases hexceeds : max.exceeds attempt with
    | false =>
      refine ⟨1,[],?_⟩
      simp [attempts,hexceeds]
    | true =>
      rcases Option.ne_none_iff_exists'.mp (hfailures attempt hexceeds) with ⟨error,herror⟩
      have hfinite : max.spent attempt = false ∧ attempt < 2^53 := by
        cases max with
        | nan => cases hexceeds
        | negInfinity => cases hexceeds
        | infinity => cases hcountable
        | finite q =>
          have hless : (attempt : ℚ) < q := by
            simpa [Number.exceeds] using hexceeds
          have hnot : ¬(q.den = 1 ∧ 0 < q ∨ 2^53 < q) := by
            simpa [Number.countable] using hcountable
          constructor
          · refine Bool.eq_false_iff.mpr ?_
            intro hspent
            have hzero : q-attempt-1 = 0 := by
              simpa [Number.spent] using hspent
            have hq : q = ((attempt+1 : ℕ) : ℚ) := by
              push_cast
              linarith
            refine hnot (.inl ⟨?_,?_⟩)
            · rw [hq]
              exact Rat.den_natCast _
            · rw [hq]
              exact Nat.cast_pos.mpr (Nat.succ_pos attempt)
          · by_contra hge
            have hle : ((2^53 : ℕ) : ℚ) ≤ attempt := Nat.cast_le.mpr (Nat.le_of_not_lt hge)
            push_cast at hle
            exact hnot (.inr (lt_of_le_of_lt hle hless))
      have hnext : max.exceeds (attempt+1+left) = false := by
        rw [Nat.add_assoc,Nat.add_comm 1 left]
        exact hleft
      rcases ih hnext with ⟨fuel,errors,hrest⟩
      refine ⟨fuel+1,error::errors,?_⟩
      have hincrement : increment attempt = attempt+1 := if_pos hfinite.2
      simp [attempts,hexceeds,herror,hfinite.1,hincrement,hrest]

/-- The attempts below a maximum that is not countable are few. -/
theorem exists_not_exceeds {max : Number} (hcountable : max.countable = false) : ∃ n, max.exceeds n = false := by
  cases max with
  | nan => exact ⟨0,rfl⟩
  | negInfinity => exact ⟨0,rfl⟩
  | infinity => cases hcountable
  | finite q =>
    refine ⟨⌈q⌉₊,?_⟩
    have hceil := Nat.le_ceil q
    simpa [Number.exceeds] using hceil

/-- Types that were not set hold nothing. -/
theorem bind_of_unchanged {mutations : KeySet V} (h : unchanged mutations = true)
    (type : SignalDataType) (id : String) : (mutations type).bind (· id) = none := by
  have hmem : type ∈ keyTypes := by
    cases type <;> simp [keyTypes]
  have hnone := List.all_eq_true.mp h type hmem
  rw [Option.isNone_iff_eq_none.mp hnone]
  rfl

/-- A committed transaction, by the way its loop ended. -/
theorem CommitOrReject.of_made {keys : KeySet V} {log : List (Event V)} {value : R}
    {made : List (Option E) × Except E Unit} (hmade : Made made) (hcarries : Carries keys log)
    (hreads : SeesOwnWrites log) (hsilent : made.2 = .ok () → none ∉ made.1 → ∀ type id, lastWrite log type id = none) :
    CommitOrReject (⟨.ok value,made.2.map fun _ => value,log,
      made.1.map fun failure => (keys,failure)⟩ : Outcome V R E) := by
  refine ⟨?_,?_,?_,hreads⟩
  · intro resolved hresolved
    cases hmade with
    | succeeded errors =>
      refine .inr ⟨keys,errors,?_,hcarries⟩
      simp
    | rejected errors error => cases hresolved
    | silent errors => exact .inl (hsilent rfl (by simp))
  · intro error herror
    cases hmade with
    | succeeded errors => cases herror
    | rejected errors last =>
      cases herror
      refine .inr ⟨keys,errors,?_⟩
      simp
    | silent errors => cases herror
  · intro set hset
    rcases List.mem_map.mp hset with ⟨failure,_,rfl⟩
    exact hcarries

/-- A callback whose writes all become properties commits or rejects in every run
exactly when it throws, or writes nothing, or the maximum is a positive integer or
beyond counting, or an attempt below the maximum succeeds. -/
theorem transaction_commits_iff (max : Number) (replies : Replies V E) (failures : ℕ → Option E)
    (work : Work V R E) (hasked : OnlyAsked replies)
    (hordinary : Ordinary (work.run replies (.new V)).1.log) :
    (∀ fuel o, transaction max replies failures work fuel = some o → CommitOrReject o) ↔
      (∃ error, (work.run replies (.new V)).2 = .error error) ∨
      (∀ type id, lastWrite (work.run replies (.new V)).1.log type id = none) ∨
      max.countable = true ∨ ∃ n, max.exceeds n = true ∧ failures n = none := by
  have haccounted := accounted_new.run hasked hordinary
  cases hcallback : (work.run replies (.new V)).2 with
  | error error =>
    refine iff_of_true ?_ (.inl ⟨error,rfl⟩)
    intro fuel o ho
    simp only [transaction,hcallback,Option.some.injEq] at ho
    subst ho
    refine ⟨nofun,?_,nofun,haccounted.reads⟩
    intro other hother
    cases hother
    exact .inl ⟨rfl,rfl⟩
  | ok value =>
    constructor
    · intro hall
      by_contra hnot
      have hwritten : ¬∀ type id, lastWrite (work.run replies (.new V)).1.log type id = none :=
        fun hnone => hnot (.inr (.inl hnone))
      have hcountable : max.countable = false :=
        Bool.eq_false_iff.mpr fun htrue => hnot (.inr (.inr (.inl htrue)))
      have hfailures : ∀ n, max.exceeds n = true → failures n ≠ none :=
        fun n hn hnone => hnot (.inr (.inr (.inr ⟨n,hn,hnone⟩)))
      have hchanged : unchanged (work.run replies (.new V)).1.mutations = false := by
        refine Bool.eq_false_iff.mpr ?_
        intro hunchanged
        refine hwritten ?_
        intro type id
        rw [← haccounted.mutations]
        exact bind_of_unchanged hunchanged type id
      rcases exists_not_exceeds hcountable with ⟨n,hn⟩
      have hzero : max.exceeds (0+n) = false := by
        rw [Nat.zero_add]
        exact hn
      rcases attempts_run_out hcountable hfailures hzero with ⟨fuel,errors,hrun⟩
      have houtcome : transaction max replies failures work fuel =
          some ⟨.ok value,.ok value,(work.run replies (.new V)).1.log,
            (errors.map some).map fun failure =>
              ((work.run replies (.new V)).1.mutations,failure)⟩ := by
        simp only [transaction,hcallback,hchanged,hrun]
        rfl
      have hcommit := (hall fuel _ houtcome).resolves value rfl
      rcases hcommit with hnone | ⟨keys,others,hsets,_⟩
      · exact hwritten hnone
      · have hmem : (keys,(none : Option E)) ∈ (errors.map some).map fun failure =>
            ((work.run replies (.new V)).1.mutations,failure) := by
          dsimp only at hsets
          rw [hsets]
          simp
        simp at hmem
    · intro hcondition fuel o ho
      simp only [transaction,hcallback] at ho
      split_ifs at ho with hunchanged
      · cases ho
        refine ⟨?_,nofun,nofun,haccounted.reads⟩
        intro resolved _
        left
        intro type id
        rw [← haccounted.mutations]
        exact bind_of_unchanged hunchanged type id
      · rcases Option.map_eq_some_iff.mp ho with ⟨made,hmade,rfl⟩
        refine .of_made (attempts_made hmade) haccounted.mutations haccounted.reads ?_
        intro hok hsilent
        have hended := attempts_silent hmade hok hsilent (Nat.zero_le _)
        rcases hcondition with ⟨error,herror⟩ | hnone | hcountable | ⟨n,hn,hsuccess⟩
        · cases herror
        · exact hnone
        · rcases countable_spent hcountable with hlarge | ⟨n,hn,hspent⟩
          · rw [hended.1] at hlarge
            cases hlarge
          · rw [(hended.2 n (Nat.zero_le n) hn).2] at hspent
            cases hspent
        · exact absurd hsuccess (hended.2 n (Nat.zero_le n) hn).1

/-- A session that is written. -/
def sessionChange : Changes ℕ where
  keys := fun type =>
    if type = .session then some fun id => if id = "a" then some (some 1) else none else none
  noPreKeys := rfl

/-- A callback that writes it. -/
def sessionWork : Work ℕ Unit Unit := .set sessionChange (.done (.ok ()))

/-- A store that finds nothing. -/
def emptyStore : Replies ℕ Unit := fun _ _ _ => .ok fun _ => none

theorem emptyStore_onlyAsked : OnlyAsked emptyStore := by
  intro query type ids entries hreply id hid
  cases hreply
  exact absurd rfl hid

theorem sessionWork_ordinary : Ordinary (sessionWork.run emptyStore (.new ℕ)).1.log := by
  intro changes hmem type
  have hsame : changes = sessionChange := by
    simpa [sessionWork,Work.run,Context.set,Context.new] using hmem
  subst hsame
  cases type <;> rfl

/-- The third of three attempts succeeds. -/
theorem transaction_commits_third :
    ∃ o, transaction (.finite 3) emptyStore (fun n => if n < 2 then some () else none)
      sessionWork 3 = some o ∧ o.sets.length = 3 ∧ CommitOrReject o := by
  have hlog : unchanged (sessionWork.run emptyStore (.new ℕ)).1.mutations = false := rfl
  have hrun : attempts (.finite 3) (fun n => if n < 2 then some () else none) 3 0 0 =
      some ([some (),some (),none],.ok ()) := by
    norm_num [attempts,Number.exceeds,Number.spent,increment]
  have hdone : transaction (.finite 3) emptyStore (fun n => if n < 2 then some () else none)
      sessionWork 3 = some ⟨.ok (),.ok (),(sessionWork.run emptyStore (.new ℕ)).1.log,
        [some (),some (),none].map fun failure =>
          ((sessionWork.run emptyStore (.new ℕ)).1.mutations,failure)⟩ := by
    have hcallback : (sessionWork.run emptyStore (.new ℕ)).2 = .ok () := rfl
    simp only [transaction,hcallback,hlog,hrun]
    rfl
  refine ⟨_,hdone,rfl,?_⟩
  exact (transaction_commits_iff (.finite 3) emptyStore (fun n => if n < 2 then some () else none)
    sessionWork emptyStore_onlyAsked sessionWork_ordinary).mpr (.inr (.inr (.inl rfl))) 3 _ hdone

/-- Without retries a transaction resolves and its changes are gone. -/
theorem no_retries_commit_nothing :
    ¬∀ (max : Number) (replies : Replies ℕ Unit) (failures : ℕ → Option Unit)
      (work : Work ℕ Unit Unit), OnlyAsked replies →
      Ordinary (work.run replies (.new ℕ)).1.log → ∀ fuel o,
        transaction max replies failures work fuel = some o → CommitOrReject o := by
  intro hall
  have hcommit := hall (.finite 0) emptyStore (fun _ => none) sessionWork emptyStore_onlyAsked
    sessionWork_ordinary 1 _ rfl
  rcases hcommit.resolves () rfl with hnone | ⟨keys,errors,hsets,_⟩
  · have hwritten := hnone .session "a"
    cases hwritten
  · have hlength := congrArg List.length hsets
    simp at hlength

end Baileyrs.TransactionCommit
