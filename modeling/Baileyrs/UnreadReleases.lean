import Baileyrs.UnreadWindows

/-!
# Released unread counts

What one release makes of the pending chats. A chat of a single history event is
released with its count, unless the chat is new to the history cache and its count is
positive: then the set and the upsert of the one object are summed.
-/

namespace Baileyrs.UnreadCounts

variable {C : Type*} {evaluate : C → Data C → Option Bool}

section Flush

theorem get_foldl_delete (name : ℕ → String) (refs : List ℕ) (entries : InsertionMap String ℕ)
    (id : String) : (refs.foldl (fun entries ref => entries.delete (name ref)) entries).get id =
      if ∃ ref ∈ refs,name ref = id then none else entries.get id := by
  induction refs generalizing entries with
  | nil => simp
  | cons ref refs ih =>
    rw [List.foldl_cons,ih,InsertionMap.get_delete]
    by_cases hlater : ∃ ref ∈ refs,name ref = id
    · have hany : ∃ x ∈ ref::refs,name x = id := by
        obtain ⟨x,hx,hname⟩ := hlater
        exact ⟨x,List.mem_cons_of_mem _ hx,hname⟩
      rw [if_pos hlater,if_pos hany]
    · by_cases hfirst : name ref = id
      · simp [hlater,hfirst]
      · simp [hlater,hfirst]

theorem get_foldl_set (name : ℕ → String) (refs : List ℕ) (entries : InsertionMap String ℕ) {id : String} {x : ℕ}
    (h : (refs.foldl (fun entries ref => entries.set (name ref) ref) entries).get id = some x) :
    x ∈ refs ∧ name x = id ∨ entries.get id = some x := by
  induction refs generalizing entries with
  | nil => exact .inr h
  | cons ref refs ih =>
    obtain ⟨hmem,hname⟩ | hset := ih _ h
    · exact .inl ⟨List.mem_cons_of_mem _ hmem,hname⟩
    · rw [InsertionMap.get_set] at hset
      split at hset
      · rename_i hname
        cases hset
        exact .inl ⟨List.mem_cons_self,hname⟩
      · exact .inr hset

variable {d : Data C} {pending : List ℕ}

/-- A change waits in the updates. -/
theorem mem_waiting_iff {ref : ℕ} :
    ref ∈ waiting d ↔ (∃ id,d.slot .update id = some ref) ∧ waits (d.heap ref) = true := by
  rw [waiting,List.mem_filter,InsertionMap.mem_values_iff]
  rfl

/-- A window is released entry by entry, but for changes that wait. -/
theorem mem_released_iff (h : Sound d pending) (chat : Chat C) :
    chat ∈ (flush d).1.chats ↔ ∃ kind id ref,d.slot kind id = some ref ∧ d.heap ref = chat ∧
      (kind = .update → waits chat = false) := by
  have hleft (id : String) (ref : ℕ) :
      ((waiting d).foldl (fun updates ref => updates.delete (d.heap ref).name) d.updates).get id =
        some ref ↔ d.slot .update id = some ref ∧ waits (d.heap ref) = false := by
    rw [get_foldl_delete (fun ref => (d.heap ref).name)]
    constructor
    · intro hget
      split at hget
      · cases hget
      · rename_i hnone
        refine ⟨hget,?_⟩
        by_contra hwaits
        exact hnone ⟨ref,mem_waiting_iff.mpr ⟨⟨id,hget⟩,by simpa using hwaits⟩,h.named .update id ref hget⟩
    · rintro ⟨hslot,hwaits⟩
      have hnone : ¬∃ other ∈ waiting d,(d.heap other).name = id := by
        rintro ⟨other,hother,hname⟩
        obtain ⟨⟨id',hslot'⟩,hwaits'⟩ := mem_waiting_iff.mp hother
        have hid : id' = id := (h.named .update id' other hslot').symm.trans hname
        rw [hid,hslot] at hslot'
        rw [Option.some.inj hslot'] at hwaits
        rw [hwaits] at hwaits'
        cases hwaits'
      rw [if_neg hnone]
      exact hslot
  have hmem : chat ∈ (flush d).1.chats ↔ (∃ ref ∈ d.history.values,d.heap ref = chat) ∨
      (∃ ref ∈ d.upserts.values,d.heap ref = chat) ∨ ∃ ref ∈ ((waiting d).foldl (fun updates ref =>
        updates.delete (d.heap ref).name) d.updates).values,d.heap ref = chat := by
    simp [flush,Released.chats]
  rw [hmem]
  simp only [InsertionMap.mem_values_iff,hleft]
  constructor
  · rintro (⟨ref,⟨id,hslot⟩,rfl⟩ | ⟨ref,⟨id,hslot⟩,rfl⟩ | ⟨ref,⟨id,hslot,hwaits⟩,rfl⟩)
    · exact ⟨.history,id,ref,hslot,rfl,fun hkind => by cases hkind⟩
    · exact ⟨.upsert,id,ref,hslot,rfl,fun hkind => by cases hkind⟩
    · exact ⟨.update,id,ref,hslot,rfl,fun _ => hwaits⟩
  · rintro ⟨kind,id,ref,hslot,rfl,hwaits⟩
    cases kind with
    | history => exact .inl ⟨ref,⟨id,hslot⟩,rfl⟩
    | upsert => exact .inr (.inl ⟨ref,⟨id,hslot⟩,rfl⟩)
    | update => exact .inr (.inr ⟨ref,⟨id,hslot,hwaits rfl⟩,rfl⟩)

/-- What a release leaves: changes that waited, under their names. -/
theorem flush_slot {kind : Kind} {id : String} {x : ℕ} (h : (flush d).2.slot kind id = some x) :
    kind = .update ∧ x ∈ waiting d ∧ (d.heap x).name = id := by
  cases kind with
  | update =>
    obtain hkept | hempty := get_foldl_set (fun ref => (d.heap ref).name) _ _ h
    · exact ⟨rfl,hkept⟩
    · cases hempty
  | _ => cases h

/-- A release keeps the places. -/
theorem flush_sound (h : Sound d []) : Sound (flush d).2 [] where
  below := by
    intro kind id x hx
    obtain ⟨⟨id',hslot⟩,-⟩ := mem_waiting_iff.mp (flush_slot hx).2.1
    exact h.below .update id' x hslot
  apart := by
    intro kind kind' id id' x hx hx'
    rw [(flush_slot hx).1,(flush_slot hx').1]
  named := fun kind id x hx => (flush_slot hx).2.2
  nodup := List.nodup_nil
  pendingBelow := fun x hx => by cases hx
  pendingNamed := fun x hx => by cases hx
  pendingFree := fun x hx => by cases hx

/-- At the start of a window every object has its place, and only changes are pending. -/
theorem Opens.sound (h : Opens evaluate d) : Sound d [] ∧ ∀ kind id,kind ≠ .update → d.slot kind id = none := by
  induction h with
  | new heap =>
    refine ⟨⟨?_,?_,?_,List.nodup_nil,?_,?_,?_⟩,?_⟩
    · intro kind id x hx
      cases kind <;> cases hx
    · intro kind kind' id id' x hx
      cases kind <;> cases hx
    · intro kind id x hx
      cases kind <;> cases hx
    · exact fun x hx => by cases hx
    · exact fun x hx => by cases hx
    · exact fun x hx => by cases hx
    · intro kind id hkind
      cases kind <;> rfl
  | flushed opens events ih =>
    refine ⟨flush_sound (appendAll_keeps ih.1 events).1,?_⟩
    intro kind id hkind
    cases hslot : (flush (appendAll evaluate _ events)).2.slot kind id with
    | none => rfl
    | some x => exact absurd (flush_slot hslot).1 hkind

end Flush

/-- A chat is pending in one map only. -/
structure Only (d : Data C) (id : String) (place : Kind) (ref : ℕ) : Prop where
  /-- The map holds it. -/
  slot : d.slot place id = some ref
  /-- No other map does. -/
  others : ∀ kind,kind ≠ place → d.slot kind id = none

/-- The count is a positive number. -/
def isPositive : Option Unread → Bool
  | some (.number n) => 0 < n
  | _ => false

section HistoryOnly

variable {d : Data C} {pending : List ℕ} {id : String}

/-- Without a pending change there is nothing to absorb. -/
theorem absorbChatUpdate_none {existing : ℕ} (h : d.updates.get (d.heap existing).name = none) :
    absorbChatUpdate evaluate d existing = d := by
  simp [absorbChatUpdate,h]

theorem Only.keeps {d d' : Data C} {place : Kind} {ref : ℕ} (h : Only d id place ref)
    (keeps : Keeps id d d') : Only d' id place ref :=
  ⟨by rw [keeps.slots,h.slot],fun kind hkind => by rw [keeps.slots,h.others kind hkind]⟩

end HistoryOnly

end Baileyrs.UnreadCounts
