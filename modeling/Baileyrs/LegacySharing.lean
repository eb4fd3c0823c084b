import Baileyrs.LegacyFingerprint
import Mathlib.Logic.Relation

/-!
# Fingerprints of shared values

A legacy value may hold one array or object in several places. A fingerprint
walks such a value with the set of the objects it is inside of: it accepts what
is shared, and rejects exactly the values that lead back into themselves.
-/

namespace Baileyrs.LegacySharing

open JsString AtomicStore LegacyValues LegacyMirror LegacyFingerprint

/-- A place in a value: a value of its own, or a reference to an array or object. -/
inductive Slot where
  | leaf (value : Value)
  | ref (address : ℕ)

/-- An array or object. -/
inductive Cell where
  | array (items : List Slot)
  | object (members : List (JsString × Slot))

/-- Places of an array or object. -/
def Cell.slots : Cell → List Slot
  | .array items => items
  | .object members => members.map Prod.snd

/-- Arrays and objects by their address; an address without one stands for no value. -/
abbrev Heap := List Cell

/-- The value with these parts. -/
def Cell.tree : Cell → List Value → Value
  | .array _,values => .array values
  | .object members,values => .object ((members.map Prod.fst).zip values)

/-- Members whose value is not absent; a name that sets the prototype is none of them. -/
def keptMembers : List (JsString × Option Value) → Members
  | [] => []
  | (name,some canonical)::rest =>
    if name = ofString "__proto__" then keptMembers rest else (name,canonical)::keptMembers rest
  | (_,none)::rest => keptMembers rest

/-- Canonical form with these parts; an absent item is null. -/
def Cell.canonical : Cell → List (Option Value) → Value
  | .array _,parts => .array (parts.map fun part => part.getD .null)
  | .object members,parts =>
    .object (sortMembers (keptMembers ((members.map Prod.fst).zip parts)))

/-- The value leads back into itself. -/
def cyclicError : StoreError := .typeError "cannot fingerprint a cyclic legacy store value"

/-- Canonical form of a place, given the objects it is inside of; the first argument
bounds how many more it may enter. -/
def canonicalizeSlot (heap : Heap) : ℕ → List ℕ → Slot → Except StoreError (Option Value)
  | _,_,.leaf value => .ok (canonicalize value)
  | 0,_,.ref _ => .error (.rangeError "Maximum call stack size exceeded")
  | fuel+1,seen,.ref address =>
    if address ∈ seen then .error cyclicError
    else
      match heap[address]? with
      | none => .ok none
      | some cell => do
        let parts ← cell.slots.mapM (canonicalizeSlot heap fuel (address::seen))
        return some (cell.canonical parts)

/-- Canonical form of a value with shared parts. -/
def canonicalizeGraph (heap : Heap) (slot : Slot) : Except StoreError (Option Value) :=
  canonicalizeSlot heap (heap.length+1) [] slot

/-- The value of a place, if it has no more levels than this. -/
def unfold (heap : Heap) : ℕ → Slot → Option Value
  | _,.leaf value => some value
  | 0,.ref _ => none
  | levels+1,.ref address =>
    match heap[address]? with
    | none => some .undefined
    | some cell => (cell.slots.mapM (unfold heap levels)).map cell.tree

/-- A place has this value. -/
def Unfolds (heap : Heap) (slot : Slot) (value : Value) : Prop :=
  ∃ levels, unfold heap levels slot = some value

/-- An object holds a reference to another. -/
def Refers (heap : Heap) (a b : ℕ) : Prop :=
  ∃ cell, heap[a]? = some cell ∧ Slot.ref b ∈ cell.slots

/-- The value leads to an object that leads back to itself. -/
def Cyclic (heap : Heap) (slot : Slot) : Prop :=
  ∃ a b, slot = .ref a ∧ Relation.ReflTransGen (Refers heap) a b ∧
    Relation.TransGen (Refers heap) b b

theorem mapM_mono {f g : Slot → Option Value} (h : ∀ slot value, f slot = some value →
    g slot = some value) {slots : List Slot} {values : List Value}
    (hf : slots.mapM f = some values) : slots.mapM g = some values := by
  induction slots generalizing values with
  | nil => exact hf
  | cons slot rest ih =>
    simp only [List.mapM_cons,Option.bind_eq_bind,Option.bind_eq_some_iff] at hf ⊢
    obtain ⟨first,hfirst,others,hothers,hvalues⟩ := hf
    exact ⟨first,h slot first hfirst,others,ih hothers,hvalues⟩

/-- A value with fewer levels is unfolded by more. -/
theorem unfold_mono {heap : Heap} {levels more : ℕ} (hle : levels ≤ more) {slot : Slot}
    {value : Value} (h : unfold heap levels slot = some value) : unfold heap more slot = some value := by
  induction levels generalizing more slot value with
  | zero =>
    cases slot with
    | leaf own => cases more <;> exact h
    | ref address => cases h
  | succ levels ih =>
    obtain ⟨more,rfl⟩ : ∃ k, more = k+1 := ⟨more-1,by omega⟩
    cases slot with
    | leaf own => exact h
    | ref address =>
      unfold LegacySharing.unfold at h ⊢
      cases hcell : heap[address]? with
      | none =>
        rw [hcell] at h
        exact h
      | some cell =>
        rw [hcell] at h
        obtain ⟨values,hvalues,hvalue⟩ := Option.map_eq_some_iff.mp h
        have hdeeper : ∀ slot value, unfold heap levels slot = some value →
            unfold heap more slot = some value := fun slot value hslot => ih (by omega) hslot
        have hmore := mapM_mono hdeeper hvalues
        exact Option.map_eq_some_iff.mpr ⟨values,hmore,hvalue⟩

theorem mapM_canonicalize {f : Slot → Option Value} {g : Slot → Except StoreError (Option Value)}
    {slots : List Slot} {values : List Value} (hf : slots.mapM f = some values)
    (h : ∀ slot value, f slot = some value → g slot = .ok (canonicalize value)) :
    slots.mapM g = .ok (values.map canonicalize) := by
  induction slots generalizing values with
  | nil =>
    cases hf
    rfl
  | cons slot rest ih =>
    simp only [List.mapM_cons,Option.bind_eq_bind,Option.bind_eq_some_iff] at hf
    obtain ⟨first,hfirst,others,hothers,hvalues⟩ := hf
    cases hvalues
    rw [List.mapM_cons,h slot first hfirst,ih hothers]
    rfl

theorem keptMembers_canonicalize (names : List JsString) (values : List Value) :
    canonicalMembers (names.zip values) = keptMembers (names.zip (values.map canonicalize)) := by
  induction names generalizing values with
  | nil => rfl
  | cons name names ih =>
    cases values with
    | nil => rfl
    | cons value values =>
      rw [List.zip_cons_cons,List.map_cons,List.zip_cons_cons,canonicalMembers,ih]
      cases canonicalize value with
      | none => rfl
      | some canonical => rfl

/-- The canonical form of a value is made of those of its parts. -/
theorem canonical_tree (cell : Cell) (values : List Value) :
    canonicalize (cell.tree values) = some (cell.canonical (values.map canonicalize)) := by
  cases cell with
  | array items =>
    change some (Value.array (canonicalItems values)) = some (.array _)
    rw [canonicalItems_eq,List.map_map]
    rfl
  | object members =>
    change some (Value.object (sortMembers (canonicalMembers _))) = some (.object _)
    rw [keptMembers_canonicalize]

/-- The walk may enter every object it is not inside of. -/
structure Room (heap : Heap) (fuel : ℕ) (seen : List ℕ) : Prop where
  /-- It is inside of each object once. -/
  nodup : seen.Nodup
  /-- It is inside of objects only. -/
  within : ∀ a ∈ seen, a < heap.length
  /-- There is one more step than objects left. -/
  fuel : heap.length < fuel+seen.length

theorem Room.start (heap : Heap) : Room heap (heap.length+1) [] :=
  ⟨List.nodup_nil,by simp,by simp⟩

/-- There is always one more step. -/
theorem Room.pos {heap : Heap} {fuel : ℕ} {seen : List ℕ} (h : Room heap fuel seen) : 0 < fuel := by
  have hsubset : seen ⊆ List.range heap.length := fun a ha => List.mem_range.mpr (h.within a ha)
  have hlength := (List.subperm_of_subset h.nodup hsubset).length_le
  rw [List.length_range] at hlength
  have hfuel := h.fuel
  omega

/-- Entering an object leaves room for the others. -/
theorem Room.enter {heap : Heap} {fuel : ℕ} {seen : List ℕ} (h : Room heap (fuel+1) seen)
    {address : ℕ} {cell : Cell} (hcell : heap[address]? = some cell) (hseen : address ∉ seen) :
    Room heap fuel (address::seen) := by
  have hlength := (List.getElem?_eq_some_iff.mp hcell).1
  refine ⟨List.nodup_cons.mpr ⟨hseen,h.nodup⟩,?_,?_⟩
  · intro a ha
    rcases List.mem_cons.mp ha with rfl | ha
    · exact hlength
    · exact h.within a ha
  · have hfuel := h.fuel
    rw [List.length_cons]
    omega

theorem canonicalizeSlot_leaf (heap : Heap) (fuel : ℕ) (seen : List ℕ) (value : Value) :
    canonicalizeSlot heap fuel seen (.leaf value) = .ok (canonicalize value) := by
  cases fuel <;> rfl

/-- A value that unfolds is accepted: the objects the walk is inside of have more levels
than any object it meets. -/
theorem canonicalizeSlot_unfolds {heap : Heap} {levels fuel : ℕ} {seen : List ℕ} {slot : Slot}
    {value : Value} (h : unfold heap levels slot = some value)
    (hseen : ∀ a ∈ seen, unfold heap levels (.ref a) = none) (hroom : Room heap fuel seen) :
    canonicalizeSlot heap fuel seen slot = .ok (canonicalize value) := by
  induction levels using Nat.strong_induction_on generalizing fuel seen slot value with
  | _ levels ih =>
    cases slot with
    | leaf own =>
      have hown : value = own := by
        cases levels <;> exact (Option.some.inj h).symm
      rw [hown]
      exact canonicalizeSlot_leaf heap fuel seen own
    | ref address =>
      have hnot : address ∉ seen := by
        intro hmem
        rw [hseen address hmem] at h
        cases h
      obtain ⟨fuel,rfl⟩ : ∃ k, fuel = k+1 := ⟨fuel-1,by have := hroom.pos; omega⟩
      -- the least number of levels: the object does not unfold at one less
      have hexists : ∃ n, (unfold heap n (.ref address)).isSome = true := ⟨levels,by rw [h]; rfl⟩
      obtain ⟨least,hleast,hmin⟩ : ∃ least, unfold heap (least+1) (.ref address) = some value ∧
          least < levels ∧ unfold heap least (.ref address) = none := by
        have hspec := Nat.find_spec hexists
        have hle : Nat.find hexists ≤ levels := Nat.find_min' hexists (by rw [h]; rfl)
        cases hfind : Nat.find hexists with
        | zero =>
          rw [hfind] at hspec
          cases hspec
        | succ least =>
          rw [hfind] at hspec hle
          obtain ⟨found,hfound⟩ := Option.isSome_iff_exists.mp hspec
          have hsame := unfold_mono hle hfound
          rw [h] at hsame
          have hnone : ¬(unfold heap least (.ref address)).isSome = true :=
            Nat.find_min hexists (by omega)
          exact ⟨least,hsame ▸ hfound,by omega,by simpa using hnone⟩
      have hstep : canonicalizeSlot heap (fuel+1) seen (.ref address) =
          match heap[address]? with
          | none => .ok none
          | some cell => do
            let parts ← cell.slots.mapM (canonicalizeSlot heap fuel (address::seen))
            return some (cell.canonical parts) := by
        rw [canonicalizeSlot,if_neg hnot]
      rw [hstep]
      unfold LegacySharing.unfold at hleast
      cases hcell : heap[address]? with
      | none =>
        rw [hcell] at hleast
        cases hleast
        rfl
      | some cell =>
        rw [hcell] at hleast
        obtain ⟨values,hvalues,hvalue⟩ := Option.map_eq_some_iff.mp hleast
        have hinside : ∀ a ∈ address::seen, unfold heap least (.ref a) = none := by
          intro a ha
          rcases List.mem_cons.mp ha with rfl | ha
          · exact hmin.2
          · cases hunfold : unfold heap least (.ref a) with
            | none => rfl
            | some found =>
              have hlater := unfold_mono (Nat.le_of_lt hmin.1) hunfold
              rw [hseen a ha] at hlater
              cases hlater
        have hparts := mapM_canonicalize hvalues fun slot value hslot =>
          ih least hmin.1 hslot hinside (hroom.enter hcell hnot)
        rw [← hvalue,canonical_tree]
        dsimp only
        rw [hparts]
        rfl

theorem mapM_unfolds {heap : Heap} {f : Slot → Except StoreError (Option Value)}
    {slots : List Slot} {parts : List (Option Value)} (hf : slots.mapM f = .ok parts)
    (h : ∀ slot ∈ slots, ∀ part, f slot = .ok part → ∃ value, Unfolds heap slot value) :
    ∃ levels values, slots.mapM (unfold heap levels) = some values := by
  induction slots generalizing parts with
  | nil => exact ⟨0,[],rfl⟩
  | cons slot rest ih =>
    rw [List.mapM_cons] at hf
    obtain ⟨first,hfirst,hrest⟩ := bind_ok hf
    obtain ⟨others,hothers,_⟩ := bind_ok hrest
    obtain ⟨value,n,hvalue⟩ := h slot List.mem_cons_self first hfirst
    obtain ⟨m,values,hvalues⟩ := ih hothers fun other hother =>
      h other (List.mem_cons_of_mem _ hother)
    have hhead := unfold_mono (le_max_left n m) hvalue
    have htail := mapM_mono (fun slot value => unfold_mono (le_max_right n m)) hvalues
    refine ⟨max n m,value::values,?_⟩
    rw [List.mapM_cons,hhead,htail]
    rfl

/-- A value that is accepted unfolds. -/
theorem unfolds_of_ok {heap : Heap} {fuel : ℕ} {seen : List ℕ} {slot : Slot}
    {canonical : Option Value} (h : canonicalizeSlot heap fuel seen slot = .ok canonical) :
    ∃ value, Unfolds heap slot value := by
  induction fuel generalizing seen slot canonical with
  | zero =>
    cases slot with
    | leaf own => exact ⟨own,0,rfl⟩
    | ref address => cases h
  | succ fuel ih =>
    cases slot with
    | leaf own => exact ⟨own,0,rfl⟩
    | ref address =>
      rw [canonicalizeSlot] at h
      split_ifs at h with hseen
      cases hcell : heap[address]? with
      | none => exact ⟨.undefined,1,by rw [unfold,hcell]⟩
      | some cell =>
        rw [hcell] at h
        obtain ⟨parts,hparts,_⟩ := bind_ok h
        obtain ⟨levels,values,hvalues⟩ := mapM_unfolds hparts fun slot _ part hpart => ih hpart
        refine ⟨cell.tree values,levels+1,?_⟩
        rw [unfold,hcell]
        exact Option.map_eq_some_iff.mpr ⟨values,hvalues,rfl⟩

theorem mapM_error {f : Slot → Except StoreError (Option Value)} {slots : List Slot}
    {error : StoreError} (h : slots.mapM f = .error error) : ∃ slot ∈ slots, f slot = .error error := by
  induction slots with
  | nil => cases h
  | cons slot rest ih =>
    rw [List.mapM_cons] at h
    cases hfirst : f slot with
    | error other =>
      rw [hfirst] at h
      have hother : other = error := Except.error.inj h
      exact ⟨slot,List.mem_cons_self,hother ▸ hfirst⟩
    | ok first =>
      rw [hfirst] at h
      cases hrest : rest.mapM f with
      | error other =>
        have hother : other = error := by
          rw [hrest] at h
          exact Except.error.inj h
        obtain ⟨found,hmem,hfound⟩ := ih (hother ▸ hrest)
        exact ⟨found,List.mem_cons_of_mem _ hmem,hfound⟩
      | ok others =>
        rw [hrest] at h
        cases h

/-- What an object holds may lead back into itself, and then the object does. -/
theorem Cyclic.enter {heap : Heap} {address : ℕ} {cell : Cell} {slot : Slot}
    (hcell : heap[address]? = some cell) (hslot : slot ∈ cell.slots) (h : Cyclic heap slot) :
    Cyclic heap (.ref address) := by
  obtain ⟨a,b,rfl,hpath,hcycle⟩ := h
  exact ⟨address,b,rfl,hpath.head ⟨cell,hcell,hslot⟩,hcycle⟩

/-- A value that is rejected leads back into itself: every object the walk is inside of
leads to the place it has reached. -/
theorem cyclic_of_error {heap : Heap} {fuel : ℕ} {seen : List ℕ} {slot : Slot}
    {error : StoreError} (h : canonicalizeSlot heap fuel seen slot = .error error) (hroom : Room heap fuel seen)
    (hpath : ∀ a, slot = .ref a → ∀ b ∈ seen, Relation.TransGen (Refers heap) b a) :
    error = cyclicError ∧ Cyclic heap slot := by
  induction fuel generalizing seen slot with
  | zero =>
    have hpos := hroom.pos
    omega
  | succ fuel ih =>
    cases slot with
    | leaf own => cases h
    | ref address =>
      rw [canonicalizeSlot] at h
      split_ifs at h with hseen
      · cases h
        exact ⟨rfl,address,address,rfl,.refl,hpath address rfl address hseen⟩
      · cases hcell : heap[address]? with
        | none =>
          rw [hcell] at h
          cases h
        | some cell =>
          rw [hcell] at h
          have hfailed : cell.slots.mapM (canonicalizeSlot heap fuel (address::seen)) =
              .error error := by
            cases hparts : cell.slots.mapM (canonicalizeSlot heap fuel (address::seen)) with
            | error other =>
              dsimp only at h
              rw [hparts] at h
              exact congrArg Except.error (Except.error.inj h)
            | ok parts =>
              dsimp only at h
              rw [hparts] at h
              cases h
          obtain ⟨slot,hmem,hslot⟩ := mapM_error hfailed
          have hinside : ∀ a, slot = .ref a → ∀ b ∈ address::seen,
              Relation.TransGen (Refers heap) b a := by
            rintro a rfl b hb
            have hedge : Refers heap address a := ⟨cell,hcell,hmem⟩
            rcases List.mem_cons.mp hb with rfl | hb
            · exact .single hedge
            · exact (hpath address rfl b hb).tail hedge
          obtain ⟨herror,hcyclic⟩ := ih hslot (hroom.enter hcell hseen) hinside
          exact ⟨herror,hcyclic.enter hcell hmem⟩

theorem mapM_mem {f : Slot → Option Value} {slots : List Slot} {values : List Value}
    (h : slots.mapM f = some values) {slot : Slot} (hmem : slot ∈ slots) : ∃ value, f slot = some value := by
  induction slots generalizing values with
  | nil => cases hmem
  | cons first rest ih =>
    simp only [List.mapM_cons,Option.bind_eq_bind,Option.bind_eq_some_iff] at h
    obtain ⟨value,hvalue,others,hothers,_⟩ := h
    rcases List.mem_cons.mp hmem with rfl | hmem
    · exact ⟨value,hvalue⟩
    · exact ih hothers hmem

/-- An object refers to objects with fewer levels only. -/
theorem Refers.unfold {heap : Heap} {a b levels : ℕ} (h : Refers heap a b) {value : Value}
    (ha : unfold heap (levels+1) (.ref a) = some value) : ∃ other, unfold heap levels (.ref b) = some other := by
  obtain ⟨cell,hcell,hslot⟩ := h
  rw [LegacySharing.unfold,hcell] at ha
  obtain ⟨values,hvalues,_⟩ := Option.map_eq_some_iff.mp ha
  exact mapM_mem hvalues hslot

/-- So do the objects it leads to. -/
theorem transGen_unfold {heap : Heap} {a b : ℕ} (h : Relation.TransGen (Refers heap) a b)
    {levels : ℕ} {value : Value} (ha : unfold heap (levels+1) (.ref a) = some value) :
    ∃ other, unfold heap levels (.ref b) = some other := by
  induction h with
  | single hedge => exact hedge.unfold ha
  | tail _ hedge ih =>
    obtain ⟨middle,hmiddle⟩ := ih
    exact hedge.unfold (unfold_mono (Nat.le_succ levels) hmiddle)

/-- A value that unfolds does not lead back into itself. -/
theorem Unfolds.not_cyclic {heap : Heap} {slot : Slot} {value : Value}
    (h : Unfolds heap slot value) : ¬Cyclic heap slot := by
  rintro ⟨a,b,rfl,hpath,hcycle⟩
  have hreached : ∃ levels other, unfold heap levels (.ref b) = some other := by
    obtain ⟨levels,hlevels⟩ := h
    rcases Relation.reflTransGen_iff_eq_or_transGen.mp hpath with rfl | hpath
    · exact ⟨levels,value,hlevels⟩
    · obtain ⟨other,hother⟩ := transGen_unfold hpath
        (unfold_mono (Nat.le_succ levels) hlevels)
      exact ⟨levels,other,hother⟩
  obtain ⟨levels,other,hother⟩ := hreached
  induction levels generalizing other with
  | zero => cases hother
  | succ levels ih =>
    obtain ⟨next,hnext⟩ := transGen_unfold hcycle hother
    exact ih next hnext

/-- A shared value is accepted with the canonical form of what it unfolds to, and exactly a
value that leads back into itself is rejected. -/
theorem canonicalizeGraph_decides (heap : Heap) (slot : Slot) :
    (Cyclic heap slot → canonicalizeGraph heap slot = .error cyclicError) ∧
    (¬Cyclic heap slot → ∃ value, Unfolds heap slot value ∧
      canonicalizeGraph heap slot = .ok (canonicalize value)) := by
  cases hresult : canonicalizeGraph heap slot with
  | error error =>
    obtain ⟨rfl,hcyclic⟩ := cyclic_of_error hresult (Room.start heap) (by simp)
    exact ⟨fun _ => rfl,fun hnot => absurd hcyclic hnot⟩
  | ok canonical =>
    obtain ⟨value,levels,hvalue⟩ := unfolds_of_ok hresult
    have hnot := Unfolds.not_cyclic ⟨levels,hvalue⟩
    have hok := canonicalizeSlot_unfolds hvalue (by simp) (Room.start heap)
    refine ⟨fun hcyclic => absurd hcyclic hnot,fun _ => ⟨value,⟨levels,hvalue⟩,?_⟩⟩
    rw [← hresult]
    exact hok

/-- A fingerprint decides what a persistent store keeps: it rejects exactly the values that
lead back into themselves, and the canonical forms of two others agree exactly when they are
the same after they were written and read back. -/
theorem fingerprint_decides_reload (byteOf : Value → Option UInt8) (heap : Heap) :
    (∀ slot, (Cyclic heap slot → canonicalizeGraph heap slot = .error cyclicError) ∧
      (¬Cyclic heap slot → ∃ value, Unfolds heap slot value ∧
        canonicalizeGraph heap slot = .ok (canonicalize value))) ∧
    ∀ first second value other, Unfolds heap first value → Unfolds heap second other →
      Persistable value → Persistable other →
      (canonicalizeGraph heap first = canonicalizeGraph heap second ↔
        SameReload byteOf value other) := by
  refine ⟨canonicalizeGraph_decides heap,?_⟩
  intro first second value other hfirst hsecond hvalue hother
  have haccepted : ∀ slot value, Unfolds heap slot value →
      canonicalizeGraph heap slot = .ok (canonicalize value) := by
    rintro slot value ⟨levels,hlevels⟩
    exact canonicalizeSlot_unfolds hlevels (by simp) (Room.start heap)
  rw [haccepted first value hfirst,haccepted second other hsecond,Except.ok.injEq]
  exact canonicalize_eq_iff_sameReload byteOf hvalue hother

/-- An array that holds one object twice, the object, and one that holds itself. -/
def sharedHeap : Heap :=
  [.array [.ref 1,.ref 1],.object [(ofString "a",.leaf (.bool true)),(ofString "b",.leaf .undefined)],
    .object [(ofString "self",.ref 2)]]

/-- The array without sharing. -/
def unshared : Value :=
  .array (List.replicate 2
    (.object [(ofString "a",.bool true),(ofString "b",.undefined)]))

theorem unshared_persistable : Persistable unshared := by
  refine .array _ ?_
  intro item hitem
  rw [List.eq_of_mem_replicate hitem]
  refine .object _ ?_ (by decide) (by decide) (by decide) (by decide)
  intro m hm
  simp only [List.mem_cons,List.not_mem_nil,or_false] at hm
  rcases hm with rfl | rfl
  · exact .bool true
  · exact .undefined

/-- The shared array has the fingerprint of the copy, and the object that holds itself has none. -/
theorem fingerprint_decides_shared :
    canonicalizeGraph sharedHeap (.ref 2) = .error cyclicError ∧
      (canonicalizeGraph sharedHeap (.ref 0) = canonicalizeGraph sharedHeap (.leaf unshared) ↔
        SameReload (fun _ => none) unshared unshared) := by
  have hdecides := fingerprint_decides_reload (fun _ => none) sharedHeap
  have hself : Refers sharedHeap 2 2 := ⟨_,rfl,List.mem_cons_self⟩
  refine ⟨(hdecides.1 (.ref 2)).1 ⟨2,2,rfl,.refl,.single hself⟩,?_⟩
  exact hdecides.2 (.ref 0) (.leaf unshared) unshared unshared ⟨2,rfl⟩ ⟨0,rfl⟩
    unshared_persistable unshared_persistable

end Baileyrs.LegacySharing
