import Mathlib.Data.List.Basic
import Mathlib.Data.List.Nodup

/-!
# Maps that remember insertion order

A finite map whose enumeration follows first insertion: setting a present
key keeps its place, setting a new key appends it, and deleting a key closes
the gap. The field `nodup` carries the uniqueness of keys, so enumeration
and lookup agree on every value that can be built.
-/

namespace Baileyrs

/-- Entries in insertion order, each key at most once. -/
structure InsertionMap (κ β : Type*) where
  /-- Key and value pairs, oldest key first. -/
  entries : List (κ × β)
  /-- No key is listed twice. -/
  nodup : (entries.map Prod.fst).Nodup

namespace InsertionMap

variable {κ β γ : Type*} [DecidableEq κ]

/-- First value listed under a key. -/
def find : List (κ × β) → κ → Option β
  | [],_ => none
  | (k,v)::rest,key => if k = key then some v else find rest key

/-- Replace the value listed under a key, or append a new pair. -/
def put : List (κ × β) → κ → β → List (κ × β)
  | [],key,value => [(key,value)]
  | (k,v)::rest,key,value => if k = key then (k,value)::rest else (k,v)::put rest key value

theorem map_fst_put (entries : List (κ × β)) (key : κ) (value : β) : (put entries key value).map Prod.fst =
      if key ∈ entries.map Prod.fst then entries.map Prod.fst else entries.map Prod.fst++[key] := by
  induction entries with
  | nil => rfl
  | cons pair rest ih =>
    obtain ⟨k,v⟩ := pair
    by_cases hk : k = key
    · subst hk
      simp [put]
    · have hk' : ¬key = k := fun h => hk h.symm
      simp only [put,if_neg hk,List.map_cons,ih,List.mem_cons,hk',false_or]
      split <;> rfl

theorem find_put (entries : List (κ × β)) (key other : κ) (value : β) :
    find (put entries key value) other = if key = other then some value else find entries other := by
  induction entries with
  | nil => simp [put,find]
  | cons pair rest ih =>
    obtain ⟨k,v⟩ := pair
    by_cases hk : k = key
    · subst hk
      by_cases ho : k = other <;> simp [put,find,ho]
    · by_cases ho : k = other
      · subst ho
        have hko : ¬key = k := fun h => hk h.symm
        simp [put,find,hk,hko]
      · simp [put,find,hk,ho,ih]

theorem find_filter (entries : List (κ × β)) (key other : κ) : find (entries.filter fun pair => pair.1 ≠ key) other =
      if key = other then none else find entries other := by
  induction entries with
  | nil => simp [find]
  | cons pair rest ih =>
    obtain ⟨k,v⟩ := pair
    by_cases hk : k = key
    · subst hk
      by_cases ho : k = other
      · subst ho
        simpa [find] using ih
      · simpa [find,ho] using ih
    · by_cases ho : k = other
      · subst ho
        have hko : ¬key = k := fun h => hk h.symm
        simp [find,hk,hko]
      · simpa [find,hk,ho] using ih

theorem find_eq_some_iff {entries : List (κ × β)} (hn : (entries.map Prod.fst).Nodup)
    {key : κ} {value : β} : find entries key = some value ↔ (key,value) ∈ entries := by
  induction entries with
  | nil => simp [find]
  | cons pair rest ih =>
    obtain ⟨k,v⟩ := pair
    rw [List.map_cons,List.nodup_cons] at hn
    by_cases hk : k = key
    · subst hk
      have habsent : ∀ w, (k,w) ∉ rest := fun w hw => hn.1 (List.mem_map.mpr ⟨(k,w),hw,rfl⟩)
      simp [find,habsent,eq_comm]
    · have hk' : ¬key = k := fun h => hk h.symm
      simp [find,hk,hk',ih hn.2]

theorem find_eq_none_iff {entries : List (κ × β)} {key : κ} : find entries key = none ↔ key ∉ entries.map Prod.fst := by
  induction entries with
  | nil => simp [find]
  | cons pair rest ih =>
    obtain ⟨k,v⟩ := pair
    by_cases hk : k = key
    · simp [find,hk]
    · have hk' : ¬key = k := fun h => hk h.symm
      simp [find,hk,hk',ih]

/-- What is found is listed. -/
theorem mem_of_find {entries : List (κ × β)} {key : κ} {value : β} (h : find entries key = some value) :
    (key,value) ∈ entries := by
  induction entries with
  | nil => cases h
  | cons pair rest ih =>
    rw [find] at h
    split at h
    · rename_i hk
      cases h
      rw [← hk]
      exact List.mem_cons_self
    · exact List.mem_cons_of_mem _ (ih h)

/-- The map without entries. -/
def empty : InsertionMap κ β := ⟨[],List.nodup_nil⟩

/-- Value stored under a key. -/
def get (m : InsertionMap κ β) (key : κ) : Option β := find m.entries key

/-- Store a value; a present key keeps its place in the enumeration. -/
def set (m : InsertionMap κ β) (key : κ) (value : β) : InsertionMap κ β where
  entries := put m.entries key value
  nodup := by
    rw [map_fst_put]
    split
    · exact m.nodup
    · rename_i hk
      exact List.nodup_append.mpr ⟨m.nodup,List.nodup_singleton _,fun a ha b hb hab =>
        hk (List.mem_singleton.mp hb ▸ hab ▸ ha)⟩

/-- Remove a key. -/
def delete (m : InsertionMap κ β) (key : κ) : InsertionMap κ β where
  entries := m.entries.filter fun pair => pair.1 ≠ key
  nodup := m.nodup.sublist (List.filter_sublist.map _)

/-- Remove the oldest entry. -/
def dropOldest (m : InsertionMap κ β) : InsertionMap κ β where
  entries := m.entries.tail
  nodup := m.nodup.sublist ((List.tail_sublist _).map _)

/-- Stored keys, oldest first. -/
def keys (m : InsertionMap κ β) : List κ := m.entries.map Prod.fst

/-- Stored values in key order. -/
def values (m : InsertionMap κ β) : List β := m.entries.map Prod.snd

/-- Number of stored keys. -/
def size (m : InsertionMap κ β) : ℕ := m.entries.length

@[simp] theorem get_empty (key : κ) : (empty : InsertionMap κ β).get key = none := rfl

omit [DecidableEq κ] in
@[simp] theorem values_empty : (empty : InsertionMap κ β).values = [] := rfl

omit [DecidableEq κ] in
@[simp] theorem keys_empty : (empty : InsertionMap κ β).keys = [] := rfl

theorem get_set (m : InsertionMap κ β) (key other : κ) (value : β) :
    (m.set key value).get other = if key = other then some value else m.get other :=
  find_put m.entries key other value

@[simp] theorem get_set_self (m : InsertionMap κ β) (key : κ) (value : β) :
    (m.set key value).get key = some value := by simp [get_set]

@[simp] theorem get_set_ne (m : InsertionMap κ β) {key other : κ} (value : β) (h : key ≠ other) :
    (m.set key value).get other = m.get other := by simp [get_set,h]

theorem get_delete (m : InsertionMap κ β) (key other : κ) :
    (m.delete key).get other = if key = other then none else m.get other :=
  find_filter m.entries key other

theorem get_of_delete {m : InsertionMap κ β} {key other : κ} {value : β} (h : (m.delete key).get other = some value) :
    m.get other = some value := by
  rw [get_delete] at h
  split at h
  · cases h
  · exact h

@[simp] theorem get_delete_self (m : InsertionMap κ β) (key : κ) :
    (m.delete key).get key = none := by simp [get_delete]

@[simp] theorem get_delete_ne (m : InsertionMap κ β) {key other : κ} (h : key ≠ other) :
    (m.delete key).get other = m.get other := by simp [get_delete,h]

theorem get_eq_some_iff {m : InsertionMap κ β} {key : κ} {value : β} :
    m.get key = some value ↔ (key,value) ∈ m.entries := find_eq_some_iff m.nodup

theorem get_eq_none_iff {m : InsertionMap κ β} {key : κ} : m.get key = none ↔ key ∉ m.keys :=
  find_eq_none_iff

theorem mem_keys_iff {m : InsertionMap κ β} {key : κ} : key ∈ m.keys ↔ ∃ value, m.get key = some value := by
  rw [← Option.isSome_iff_exists,Option.isSome_iff_ne_none,ne_eq,get_eq_none_iff,not_not]

theorem mem_values_iff {m : InsertionMap κ β} {value : β} : value ∈ m.values ↔ ∃ key, m.get key = some value := by
  simp only [values,List.mem_map,get_eq_some_iff]
  constructor
  · rintro ⟨⟨key,v⟩,hm,rfl⟩
    exact ⟨key,hm⟩
  · rintro ⟨key,hm⟩
    exact ⟨(key,value),hm,rfl⟩

/-- Dropping the oldest entry only forgets. -/
theorem get_dropOldest {m : InsertionMap κ β} {key : κ} {value : β}
    (h : m.dropOldest.get key = some value) : m.get key = some value :=
  get_eq_some_iff.mpr (List.mem_of_mem_tail (get_eq_some_iff.mp h))

/-- A new key is enumerated last. -/
theorem entries_set_of_absent {m : InsertionMap κ β} {key : κ} (value : β)
    (h : m.get key = none) : (m.set key value).entries = m.entries++[(key,value)] := by
  have hput : ∀ entries : List (κ × β), find entries key = none →
      put entries key value = entries++[(key,value)] := by
    intro entries
    induction entries with
    | nil => intro _; rfl
    | cons pair rest ih =>
      obtain ⟨k,v⟩ := pair
      intro hf
      by_cases hk : k = key
      · simp [find,hk] at hf
      · simp only [find,if_neg hk] at hf
        simp only [put,if_neg hk,ih hf,List.cons_append]
  exact hput m.entries h

theorem values_set_of_absent {m : InsertionMap κ β} {key : κ} (value : β)
    (h : m.get key = none) : (m.set key value).values = m.values++[value] := by
  rw [values,entries_set_of_absent value h,List.map_append]
  rfl

/-- A present key keeps its place. -/
theorem values_set_of_present {m : InsertionMap κ β} {key : κ} {value : β} (h : m.get key = some value) :
    ∃ before after, m.values = before++value::after ∧ ∀ next, (m.set key next).values = before++next::after := by
  have hput : ∀ entries : List (κ × β), find entries key = some value →
      ∃ before after, entries.map Prod.snd = before++value::after ∧
        ∀ next, (put entries key next).map Prod.snd = before++next::after := by
    intro entries
    induction entries with
    | nil => exact fun hf => nomatch hf
    | cons pair rest ih =>
      obtain ⟨k,v⟩ := pair
      intro hf
      by_cases hk : k = key
      · rw [find,if_pos hk] at hf
        cases hf
        refine ⟨[],rest.map Prod.snd,rfl,fun next => ?_⟩
        rw [put,if_pos hk]
        rfl
      · rw [find,if_neg hk] at hf
        obtain ⟨before,after,hentries,hnext⟩ := ih hf
        refine ⟨v::before,after,by rw [List.map_cons,hentries]; rfl,fun next => ?_⟩
        rw [put,if_neg hk,List.map_cons,hnext]
        rfl
  exact hput m.entries h

theorem keys_set (m : InsertionMap κ β) (key : κ) (value : β) :
    (m.set key value).keys = if key ∈ m.keys then m.keys else m.keys++[key] :=
  map_fst_put m.entries key value

/-- Storing under a present key keeps the number of values. -/
theorem length_values_set {m : InsertionMap κ β} {key : κ} {value : β} (h : m.get key = some value) (next : β) :
    (m.set key next).values.length = m.values.length := by
  obtain ⟨before,after,hvalues,hnext⟩ := values_set_of_present h
  rw [hnext,hvalues,List.length_append,List.length_append,List.length_cons,List.length_cons]

/-- Storing twice keeps the second value. -/
theorem set_set (m : InsertionMap κ β) (key : κ) (first second : β) :
    (m.set key first).set key second = m.set key second := by
  have hput : ∀ entries : List (κ × β), put (put entries key first) key second = put entries key second := by
    intro entries
    induction entries with
    | nil => exact if_pos rfl
    | cons pair rest ih =>
      obtain ⟨k,v⟩ := pair
      by_cases hk : k = key
      · rw [put,put,if_pos hk,if_pos hk,put,if_pos hk]
      · rw [put,put,if_neg hk,if_neg hk,put,if_neg hk,ih]
  unfold set
  congr 1
  exact hput m.entries

/-- Deleting only forgets. -/
theorem mem_values_delete {m : InsertionMap κ β} {key : κ} {value : β} (h : value ∈ (m.delete key).values) :
    value ∈ m.values := by
  obtain ⟨pair,hpair,rfl⟩ := List.mem_map.mp h
  exact List.mem_map_of_mem (List.mem_filter.mp hpair).1

theorem mem_keys_set {m : InsertionMap κ β} {key other : κ} {value : β} :
    other ∈ (m.set key value).keys ↔ other = key ∨ other ∈ m.keys := by
  rw [keys_set]
  split
  · rename_i hk
    constructor
    · exact .inr
    · rintro (rfl | h)
      · exact hk
      · exact h
  · rw [List.mem_append,List.mem_singleton,or_comm]

theorem mem_keys_delete {m : InsertionMap κ β} {key other : κ} :
    other ∈ (m.delete key).keys ↔ other ≠ key ∧ other ∈ m.keys := by
  rw [mem_keys_iff,mem_keys_iff,get_delete]
  by_cases h : key = other
  · subst h
    simp
  · have h' : other ≠ key := fun heq => h heq.symm
    simp [h,h']

theorem keys_set_of_absent {m : InsertionMap κ β} {key : κ} (value : β)
    (h : m.get key = none) : (m.set key value).keys = m.keys++[key] := by
  rw [keys,entries_set_of_absent value h,List.map_append]
  rfl

end InsertionMap

end Baileyrs
