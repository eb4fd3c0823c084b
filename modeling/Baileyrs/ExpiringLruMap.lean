import Baileyrs.InsertionMap

/-!
# Expiring maps

A map of limited size whose entries expire. Storing and reading move an entry to the end,
and what does not fit goes from the front. An entry goes when it is read too late or when
its timer fires, whichever is first. Each operation answers what it disposed of, in order,
for the callback of the owner.
-/

namespace Baileyrs

/-- An entry of an expiring map. -/
structure LruEntry (V : Type*) where
  /-- The value. -/
  value : V
  /-- Not given out from then on. -/
  expiresAt : ℕ
  /-- Its timer. -/
  timer : ℕ
  deriving DecidableEq

/-- How a map holds its entries. -/
structure LruOptions where
  /-- How long an entry is held. -/
  ttl : ℕ
  /-- How many are held. -/
  max : Option ℕ
  /-- Reading an entry lets it be held longer. -/
  updateAgeOnGet : Bool

/-- A map whose entries expire. -/
structure ExpiringLruMap (K V : Type*) where
  /-- How it holds its entries. -/
  options : LruOptions
  /-- Entries, the longest unused first. -/
  entries : InsertionMap K (LruEntry V)
  /-- The next timer. -/
  nextTimer : ℕ

namespace ExpiringLruMap

variable {K V : Type*} [DecidableEq K]

section Operations

/-- No entries. -/
def empty (options : LruOptions) : ExpiringLruMap K V := ⟨options,.empty,0⟩

/-- Remove an entry. -/
def delete (m : ExpiringLruMap K V) (key : K) : ExpiringLruMap K V × List (V × K) :=
  match m.entries.get key with
  | none => (m,[])
  | some entry => ({m with entries := m.entries.delete key},[(entry.value,key)])

/-- Remove the first entry if there are too many. -/
def evict (m : ExpiringLruMap K V) : ExpiringLruMap K V × List (V × K) :=
  match m.options.max with
  | none => (m,[])
  | some max =>
    if max < m.entries.size then
      match m.entries.keys.head? with
      | some oldest => m.delete oldest
      | none => (m,[])
    else (m,[])

/-- Store a value. -/
def set (m : ExpiringLruMap K V) (key : K) (value : V) (now : ℕ) : ExpiringLruMap K V × List (V × K) :=
  let (cleared,replaced) := m.delete key
  let entry := ⟨value,now+m.options.ttl,cleared.nextTimer⟩
  let (kept,evicted) := evict
    {cleared with entries := cleared.entries.set key entry, nextTimer := cleared.nextTimer+1}
  (kept,replaced++evicted)

/-- Hold an entry longer, with another timer. -/
def refreshTimer (m : ExpiringLruMap K V) (entry : LruEntry V) (now : ℕ) : LruEntry V :=
  ⟨entry.value,now+m.options.ttl,m.nextTimer⟩

/-- Read a value. -/
def get (m : ExpiringLruMap K V) (key : K) (now : ℕ) : Option V × ExpiringLruMap K V × List (V × K) :=
  match m.entries.get key with
  | none => (none,m,[])
  | some entry =>
    if entry.expiresAt ≤ now then (none,m.delete key)
    else
      let moved := m.entries.delete key
      if m.options.updateAgeOnGet then
        (some entry.value,{m with entries := moved.set key (m.refreshTimer entry now), nextTimer := m.nextTimer+1},[])
      else (some entry.value,{m with entries := moved.set key entry},[])

/-- The timer of an entry fires. -/
def expire (m : ExpiringLruMap K V) (key : K) (timer : ℕ) : ExpiringLruMap K V × List (V × K) :=
  if (m.entries.get key).any (·.timer = timer) then m.delete key else (m,[])

/-- Remove every entry. -/
def clear (m : ExpiringLruMap K V) : ExpiringLruMap K V × List (V × K) :=
  m.entries.keys.foldl (fun (m,disposed) key => ((m.delete key).1,disposed++(m.delete key).2)) (m,[])

end Operations

section Keys

variable {m : ExpiringLruMap K V} {key other : K} {value : V} {now : ℕ}

/-- Keys that are held. -/
def keys (m : ExpiringLruMap K V) : List K := m.entries.keys

/-- The key, if it is held. -/
def held (m : ExpiringLruMap K V) (key : K) : List K := if (m.entries.get key).isSome then [key] else []

theorem held_mem (h : key ∈ m.keys) : m.held key = [key] := by
  obtain ⟨entry,hentry⟩ := InsertionMap.mem_keys_iff.mp h
  rw [held,hentry]
  rfl

/-- What a removal disposes of. -/
theorem delete_disposed (m : ExpiringLruMap K V) (key : K) : (m.delete key).2.map Prod.snd = m.held key := by
  unfold delete held
  cases m.entries.get key with
  | none => rfl
  | some entry => rfl

theorem mem_keys_delete : other ∈ (m.delete key).1.keys ↔ other ≠ key ∧ other ∈ m.keys := by
  unfold delete
  cases hentry : m.entries.get key with
  | none =>
    have hno := InsertionMap.get_eq_none_iff.mp hentry
    refine ⟨fun h => ⟨fun heq => hno (heq ▸ h),h⟩,fun h => h.2⟩
  | some entry => exact InsertionMap.mem_keys_delete

/-- Removing keeps the order of the others. -/
theorem keys_delete (m : ExpiringLruMap K V) (key : K) : (m.delete key).1.keys = m.keys.filter (· ≠ key) := by
  unfold delete keys
  cases hentry : m.entries.get key with
  | none =>
    have hno := InsertionMap.get_eq_none_iff.mp hentry
    symm
    rw [List.filter_eq_self]
    intro other hother
    exact decide_eq_true fun heq => hno (heq ▸ hother)
  | some entry =>
    change ((m.entries.entries.filter fun pair => pair.1 ≠ key).map Prod.fst) = _
    rw [InsertionMap.keys,List.filter_map]
    rfl

theorem delete_options (m : ExpiringLruMap K V) (key : K) : (m.delete key).1.options = m.options := by
  unfold delete
  cases m.entries.get key with
  | none => rfl
  | some entry => rfl

/-- The key that does not fit any more when a value is stored. -/
def evicted (m : ExpiringLruMap K V) (key : K) : Option K :=
  match m.options.max with
  | none => none
  | some max => if max < (m.keys.filter (· ≠ key)).length+1 then (m.keys.filter (· ≠ key)++[key]).head? else none

/-- The map once the value is stored and before the first entry is removed. -/
def stored (m : ExpiringLruMap K V) (key : K) (value : V) (now : ℕ) : ExpiringLruMap K V :=
  {(m.delete key).1 with
    entries := (m.delete key).1.entries.set key ⟨value,now+m.options.ttl,(m.delete key).1.nextTimer⟩,
    nextTimer := (m.delete key).1.nextTimer+1}

theorem set_eq (m : ExpiringLruMap K V) (key : K) (value : V) (now : ℕ) :
    m.set key value now = ((m.stored key value now).evict.1,(m.delete key).2++(m.stored key value now).evict.2) := rfl

/-- A stored value is last. -/
theorem keys_stored (m : ExpiringLruMap K V) (key : K) (value : V) (now : ℕ) :
    (m.stored key value now).keys = m.keys.filter (· ≠ key)++[key] := by
  have habsent : (m.delete key).1.entries.get key = none :=
    InsertionMap.get_eq_none_iff.mpr fun h => (mem_keys_delete.mp h).1 rfl
  rw [← keys_delete]
  exact InsertionMap.keys_set_of_absent _ habsent

/-- What does not fit is what the map removes. -/
theorem evict_stored (m : ExpiringLruMap K V) (key : K) (value : V) (now : ℕ) :
    (m.stored key value now).evict = match m.evicted key with
      | some oldest => (m.stored key value now).delete oldest
      | none => (m.stored key value now,[]) := by
  have hkeys := keys_stored m key value now
  have hsize : (m.stored key value now).entries.size = (m.keys.filter (· ≠ key)).length+1 := by
    have hlength := congrArg List.length hkeys
    rw [List.length_append,List.length_singleton] at hlength
    rw [← hlength,keys,InsertionMap.keys,List.length_map]
    rfl
  have hoptions : (m.stored key value now).options = m.options := delete_options m key
  unfold evict evicted
  rw [hoptions,hsize]
  change (match m.options.max with
    | none => _
    | some max => if _ then (match (m.stored key value now).keys.head? with
      | some oldest => _
      | none => _) else _) = _
  rw [hkeys]
  cases m.options.max with
  | none => rfl
  | some max =>
    dsimp only
    split
    · rfl
    · rfl

/-- Keys that are held once a value is stored. -/
theorem mem_keys_set : other ∈ (m.set key value now).1.keys ↔ (other = key ∨ other ∈ m.keys) ∧ m.evicted key ≠ some other := by
  have hstored : other ∈ (m.stored key value now).keys ↔ other = key ∨ other ∈ m.keys := by
    rw [keys_stored,List.mem_append,List.mem_filter,List.mem_singleton,decide_eq_true_eq]
    by_cases heq : other = key
    · exact ⟨fun _ => .inl heq,fun _ => .inr heq⟩
    · constructor
      · intro h
        cases h with
        | inl h => exact .inr h.1
        | inr h => exact .inl h
      · intro h
        exact .inl ⟨h.resolve_left heq,heq⟩
  rw [set_eq,evict_stored]
  cases m.evicted key with
  | none =>
    rw [hstored]
    exact ⟨fun h => ⟨h,fun hno => (nomatch hno)⟩,fun h => h.1⟩
  | some oldest =>
    rw [mem_keys_delete,hstored,ne_eq,ne_eq,Option.some_inj]
    exact ⟨fun h => ⟨h.2,fun heq => h.1 heq.symm⟩,fun h => ⟨fun heq => h.2 heq.symm,h.1⟩⟩

/-- What does not fit was held or is the new entry. -/
theorem evicted_mem (h : m.evicted key = some other) : other = key ∨ other ∈ m.keys := by
  unfold evicted at h
  cases hmax : m.options.max with
  | none =>
    rw [hmax] at h
    cases h
  | some max =>
    rw [hmax] at h
    dsimp only at h
    split at h
    · have hmem := List.mem_of_mem_head? (Option.mem_def.mpr h)
      rw [List.mem_append,List.mem_filter,List.mem_singleton] at hmem
      cases hmem with
      | inl hheld => exact .inr hheld.1
      | inr hnew => exact .inl hnew
    · cases h

/-- A map with room for an entry keeps the new one. -/
theorem evicted_ne (hmax : m.options.max ≠ some 0) : m.evicted key ≠ some key := by
  unfold evicted
  cases hsize : m.options.max with
  | none => exact fun hno => nomatch hno
  | some max =>
    dsimp only
    split
    · rename_i hfull
      cases hothers : m.keys.filter (· ≠ key) with
      | nil =>
        rw [hothers,List.length_nil] at hfull
        have hzero : max = 0 := by omega
        exact absurd (hzero ▸ hsize) hmax
      | cons oldest rest =>
        have hmem : oldest ∈ m.keys.filter (· ≠ key) := by
          rw [hothers]
          exact List.mem_cons_self
        rw [List.mem_filter,decide_eq_true_eq] at hmem
        exact fun heq => hmem.2 (Option.some.inj heq)
    · exact fun hno => nomatch hno

/-- What storing a value disposes of. -/
theorem set_disposed (m : ExpiringLruMap K V) (key : K) (value : V) (now : ℕ) :
    (m.set key value now).2.map Prod.snd = m.held key++(m.evicted key).toList := by
  rw [set_eq,List.map_append,delete_disposed,evict_stored]
  cases hevicted : m.evicted key with
  | none => rfl
  | some oldest =>
    have hheld : oldest ∈ (m.stored key value now).keys := by
      rw [keys_stored,List.mem_append,List.mem_filter,List.mem_singleton,decide_eq_true_eq]
      by_cases heq : oldest = key
      · exact .inr heq
      · exact .inl ⟨(evicted_mem hevicted).resolve_left heq,heq⟩
    dsimp only
    rw [delete_disposed,held_mem hheld]
    rfl

theorem set_options (m : ExpiringLruMap K V) (key : K) (value : V) (now : ℕ) :
    (m.set key value now).1.options = m.options := by
  have hstored : (m.stored key value now).options = m.options := delete_options m key
  rw [set_eq,evict_stored]
  cases m.evicted key with
  | none => exact hstored
  | some oldest => exact (delete_options _ oldest).trans hstored

/-- An entry that is read too late. -/
def isLate (m : ExpiringLruMap K V) (key : K) (now : ℕ) : Bool := (m.entries.get key).any (·.expiresAt ≤ now)

/-- An entry is removed when it is read too late; otherwise every key is still held. -/
theorem get_spec (m : ExpiringLruMap K V) (key : K) (now : ℕ) : (m.get key now).2.1.options = m.options ∧
      ((m.isLate key now = true ∧ (m.get key now).2 = m.delete key) ∨
        (m.isLate key now = false ∧ (∀ other, other ∈ (m.get key now).2.1.keys ↔ other ∈ m.keys) ∧
          (m.get key now).2.2 = [])) := by
  unfold get isLate
  cases hentry : m.entries.get key with
  | none => exact ⟨rfl,.inr ⟨rfl,fun _ => Iff.rfl,rfl⟩⟩
  | some entry =>
    have hheld : key ∈ m.keys := InsertionMap.mem_keys_iff.mpr ⟨entry,hentry⟩
    have hmoved : ∀ next : LruEntry V, ∀ other, other ∈ ((m.entries.delete key).set key next).keys ↔ other ∈ m.keys := by
      intro next other
      rw [InsertionMap.mem_keys_set,InsertionMap.mem_keys_delete]
      by_cases heq : other = key
      · rw [heq]
        exact ⟨fun _ => hheld,fun _ => .inl rfl⟩
      · exact ⟨fun h => (h.resolve_left heq).2,fun h => .inr ⟨heq,h⟩⟩
    dsimp only
    rw [Option.any_some]
    split
    · rename_i hlate
      exact ⟨delete_options m key,.inl ⟨decide_eq_true hlate,rfl⟩⟩
    · rename_i hearly
      split
      · exact ⟨rfl,.inr ⟨decide_eq_false hearly,hmoved _,rfl⟩⟩
      · exact ⟨rfl,.inr ⟨decide_eq_false hearly,hmoved _,rfl⟩⟩

/-- Nothing is given out for a key that is not held. -/
theorem get_absent (h : key ∉ m.keys) (now : ℕ) : (m.get key now).1 = none := by
  have hnone : m.entries.get key = none := InsertionMap.get_eq_none_iff.mpr h
  unfold get
  rw [hnone]

/-- Clearing removes the keys one by one. -/
theorem clear_fold (order : List K) (m : ExpiringLruMap K V) (disposed : List (V × K)) :
    (order.foldl (fun (m,disposed) key => ((m.delete key).1,disposed++(m.delete key).2)) (m,disposed)).1.keys =
      m.keys.filter (· ∉ order) ∧
    (order.foldl (fun (m,disposed) key => ((m.delete key).1,disposed++(m.delete key).2)) (m,disposed)).1.options =
      m.options := by
  induction order generalizing m disposed with
  | nil =>
    refine ⟨(List.filter_eq_self.mpr ?_).symm,rfl⟩
    intro key _
    exact decide_eq_true List.not_mem_nil
  | cons key rest ih =>
    obtain ⟨hkeys,hoptions⟩ := ih (m.delete key).1 (disposed++(m.delete key).2)
    refine ⟨hkeys.trans ?_,hoptions.trans (delete_options m key)⟩
    rw [keys_delete,List.filter_filter]
    congr 1
    funext other
    rw [← Bool.decide_and,decide_eq_decide,List.mem_cons,not_or,and_comm]

theorem keys_clear (m : ExpiringLruMap K V) : m.clear.1.keys = [] ∧ m.clear.1.options = m.options := by
  obtain ⟨hkeys,hoptions⟩ := clear_fold m.entries.keys m []
  refine ⟨hkeys.trans ?_,hoptions⟩
  rw [List.filter_eq_nil_iff]
  intro key hkey hno
  exact of_decide_eq_true hno hkey

end Keys

end ExpiringLruMap

end Baileyrs
