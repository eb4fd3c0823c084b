import Mathlib.Data.List.Basic

/-!
# Sparse arrays

An array with holes is allocated at a length, filled from the front through a counter and
cut off at the counter. It then has no holes and holds what was written, in order, even
where more was written than there was room for.
-/

namespace Baileyrs

/-- An array with holes. -/
structure SparseArray (α : Type*) where
  /-- Its slots; a hole holds nothing. -/
  slots : List (Option α)

namespace SparseArray

variable {α : Type*}

section Operations

/-- An array of holes. -/
def create (length : ℕ) : SparseArray α := ⟨List.replicate length none⟩

/-- Write a slot; an array that is too short is filled up with holes. -/
def write (a : SparseArray α) (index : ℕ) (x : α) : SparseArray α :=
  if index < a.slots.length then ⟨a.slots.set index (some x)⟩
  else ⟨a.slots++List.replicate (index-a.slots.length) none++[some x]⟩

/-- Set the length: cut off what is behind it, or fill up with holes. -/
def setLength (a : SparseArray α) (length : ℕ) : SparseArray α :=
  ⟨a.slots.take length++List.replicate (length-a.slots.length) none⟩

/-- An array without holes. -/
def dense (items : List α) : SparseArray α := ⟨items.map some⟩

/-- An array with a counter of what is written. -/
structure Cursor (α : Type*) where
  /-- The array. -/
  array : SparseArray α
  /-- Where to write next. -/
  count : ℕ

namespace Cursor

/-- A counter at the start of a new array. -/
def start (length : ℕ) : Cursor α := ⟨create length,0⟩

/-- Write at the counter and move it. -/
def put (c : Cursor α) (x : α) : Cursor α := ⟨c.array.write c.count x,c.count+1⟩

/-- Set the length of the array. -/
def reserve (c : Cursor α) (length : ℕ) : Cursor α := ⟨c.array.setLength length,c.count⟩

/-- Cut the array off at the counter. -/
def close (c : Cursor α) : SparseArray α := c.array.setLength c.count

/-- The items are written and there are only holes behind them. -/
structure Holds (c : Cursor α) (items : List α) : Prop where
  /-- The items come first. -/
  filled : ∃ holes, c.array.slots = items.map some++List.replicate holes none
  /-- The counter is behind them. -/
  count : c.count = items.length

end Cursor

end Operations

section Filling

open Cursor

variable {c : Cursor α} {items : List α}

theorem holds_start (length : ℕ) : (start length : Cursor α).Holds [] := ⟨⟨length,rfl⟩,rfl⟩

/-- What is written is behind what is there. -/
theorem Cursor.Holds.put (h : c.Holds items) (x : α) : (c.put x).Holds (items++[x]) := by
  obtain ⟨⟨holes,hslots⟩,hcount⟩ := h
  have hlength : c.array.slots.length = items.length+holes := by
    rw [hslots,List.length_append,List.length_map,List.length_replicate]
  refine ⟨?_,?_⟩
  · unfold Cursor.put write
    dsimp only
    rw [hlength,hcount]
    cases holes with
    | zero =>
      have hnone : items.length-(items.length+0) = 0 := by omega
      rw [if_neg (by omega),hnone,hslots]
      refine ⟨0,?_⟩
      dsimp only
      rw [List.replicate_zero,List.append_nil,List.append_nil,List.append_nil,List.map_append]
      rfl
    | succ holes =>
      have hset : (items.map some++List.replicate (holes+1) none).set items.length (some x) =
          items.map some++(List.replicate (holes+1) none).set 0 (some x) := by
        rw [List.set_append_right _ _ (Nat.le_of_eq (List.length_map some)),List.length_map,Nat.sub_self]
      rw [if_pos (by omega),hslots,hset]
      refine ⟨holes,?_⟩
      dsimp only
      rw [List.replicate_succ,List.set_cons_zero,List.map_append,List.append_assoc]
      rfl
  · rw [List.length_append,List.length_singleton,← hcount]
    rfl

/-- There is room for more. -/
theorem Cursor.Holds.reserve (h : c.Holds items) {length : ℕ} (hlength : items.length ≤ length) :
    (c.reserve length).Holds items := by
  obtain ⟨⟨holes,hslots⟩,hcount⟩ := h
  have htake : (items.map some++List.replicate holes none).take length =
      items.map some++(List.replicate holes none).take (length-items.length) := by
    have hkept : (items.map some).length ≤ length := by rwa [List.length_map]
    rw [List.take_append,List.take_of_length_le hkept,List.length_map]
  refine ⟨⟨min (length-items.length) holes+(length-(items.length+holes)),?_⟩,hcount⟩
  unfold Cursor.reserve setLength
  dsimp only
  rw [hslots,htake,List.length_append,List.length_map,List.length_replicate,List.take_replicate,List.append_assoc,
    List.replicate_append_replicate]

/-- What is cut off at the counter has no holes. -/
theorem Cursor.Holds.close (h : c.Holds items) : c.close = dense items := by
  obtain ⟨⟨holes,hslots⟩,hcount⟩ := h
  have hnone : items.length-(items.length+holes) = 0 := by omega
  have htake : (items.map some++List.replicate holes none).take items.length = items.map some := by
    rw [← List.length_map some,List.take_left]
  unfold Cursor.close setLength dense
  rw [hslots,hcount,List.length_append,List.length_map,List.length_replicate,hnone,htake,List.replicate_zero,
    List.append_nil]

end Filling

end SparseArray

end Baileyrs
