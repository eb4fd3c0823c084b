import Baileyrs.UnreadCounts

/-!
# Windows of buffered chats

Every chat object that is pending belongs to one place of one chat, so a step on one
chat leaves the others alone. A chat of a single history event is released with its
count unless the set and the upsert are summed, and a read or unread mark is released
as itself when the entry it meets holds no other count.
-/

namespace Baileyrs.UnreadCounts

variable {C : Type*} {evaluate : C → Data C → Option Bool}

/-- Maps that hold pending chats. -/
inductive Kind where
  | history
  | upsert
  | update
  deriving DecidableEq

/-- Reference a map holds for a chat. -/
def Data.slot (d : Data C) : Kind → String → Option ℕ
  | .history,id => d.history.get id
  | .upsert,id => d.upserts.get id
  | .update,id => d.updates.get id

/-- A step on one chat: objects and entries of the others stay. -/
structure Touches (id : String) (d d' : Data C) : Prop where
  /-- References are never taken back. -/
  next : d.next ≤ d'.next
  /-- Objects of other chats stay. -/
  heap : ∀ x,x < d.next → (d.heap x).name ≠ id → d'.heap x = d.heap x
  /-- No object changes its name. -/
  names : ∀ x,x < d.next → (d'.heap x).name = (d.heap x).name
  /-- Entries of other chats stay. -/
  slots : ∀ kind other,other ≠ id → d'.slot kind other = d.slot kind other

namespace Touches

variable {id : String} {d d' d'' : Data C}

theorem refl (id : String) (d : Data C) : Touches id d d :=
  ⟨le_refl _,fun _ _ _ => rfl,fun _ _ => rfl,fun _ _ _ => rfl⟩

theorem trans (h : Touches id d d') (h' : Touches id d' d'') : Touches id d d'' where
  next := h.next.trans h'.next
  heap := by
    intro x hx hname
    have hsame : (d'.heap x).name ≠ id := by rwa [h.names x hx]
    rw [h'.heap x (by have := h.next; omega) hsame,h.heap x hx hname]
  names := by
    intro x hx
    rw [h'.names x (by have := h.next; omega),h.names x hx]
  slots := by
    intro kind other hne
    rw [h'.slots kind other hne,h.slots kind other hne]

/-- A change of the heap alone, at objects of the chat. -/
theorem of_heap {heap : ℕ → Chat C} (hheap : ∀ x,(d.heap x).name ≠ id → heap x = d.heap x)
    (hnames : ∀ x,(heap x).name = (d.heap x).name) : Touches id d {d with heap := heap} :=
  ⟨le_refl _,fun x _ => hheap x,fun x _ => hnames x,fun kind _ _ => by cases kind <;> rfl⟩

/-- A change of neither objects nor entries. -/
theorem of_rest (id : String) (hheap : d'.heap = d.heap) (hnext : d'.next = d.next)
    (hslots : d'.slot = d.slot) : Touches id d d' :=
  ⟨hnext.ge,fun _ _ _ => by rw [hheap],fun _ _ => by rw [hheap],fun _ _ _ => by rw [hslots]⟩

/-- A new object is no one's yet. -/
theorem alloc (id : String) (d : Data C) (chat : Chat C) : Touches id d (alloc d chat) where
  next := by simp [UnreadCounts.alloc]
  heap := by
    intro x hx hname
    have hne : x ≠ d.next := by omega
    simp [UnreadCounts.alloc,Function.update,hne]
  names := by
    intro x hx
    have hne : x ≠ d.next := by omega
    simp [UnreadCounts.alloc,Function.update,hne]
  slots := fun kind _ _ => by cases kind <;> rfl

end Touches

/-- Changing an object without its name changes no name. -/
theorem modify_name {heap : ℕ → Chat C} {ref : ℕ} {change : Chat C → Chat C}
    (h : (change (heap ref)).name = (heap ref).name) (x : ℕ) : (modify heap ref change x).name = (heap x).name := by
  by_cases hx : x = ref
  · subst hx
    simpa [modify] using h
  · simp [modify,Function.update,hx]

theorem modify_ne {heap : ℕ → Chat C} {ref x : ℕ} (change : Chat C → Chat C) (h : x ≠ ref) :
    modify heap ref change x = heap x := by
  simp [modify,Function.update,h]

@[simp] theorem modify_self (heap : ℕ → Chat C) (ref : ℕ) (change : Chat C → Chat C) :
    modify heap ref change ref = change (heap ref) := by
  simp [modify]

@[simp] theorem setUnread_name (value : Option Unread) (chat : Chat C) :
    (setUnread value chat).name = chat.name := rfl

@[simp] theorem summed_name (left right : Chat C) : (summed left right).name = right.name := by
  unfold summed
  split
  · split <;> rfl
  · rfl

theorem assign_name {left right : Chat C} (h : left.name = right.name) : (assign left right).name = left.name := by
  cases hid : right.id with
  | none => simp [assign,Chat.name,hid]
  | some id => simpa [assign,Chat.name,hid] using h.symm

/-- A merge changes its two objects only. -/
theorem mergeObjects_ne {heap : ℕ → Chat C} {left right x : ℕ} (hl : x ≠ left) (hr : x ≠ right) :
    mergeObjects heap left right x = heap x := by
  unfold mergeObjects
  rw [modify_ne _ hl]
  split
  · rw [modify_ne _ hr,modify_ne _ hl]
  · rfl

/-- A merge of two objects of one chat changes no name. -/
theorem mergeObjects_name {heap : ℕ → Chat C} {left right : ℕ} (h : (heap left).name = (heap right).name) (x : ℕ) :
    (mergeObjects heap left right x).name = (heap x).name := by
  have hneutral (y : ℕ) : ((if (heap right).unreadCount = some .null ∧
      isNegative (heap left).unreadCount then
      modify (modify heap left (setUnread (some .undefined))) right (setUnread (some .undefined))
    else heap) y).name = (heap y).name := by
    split
    · rw [modify_name (setUnread_name _ _),modify_name (setUnread_name _ _)]
    · rfl
  unfold mergeObjects
  rw [modify_name,hneutral]
  apply assign_name
  rw [summed_name,hneutral,hneutral,h]

/-- A merge of two objects of one chat is a step on that chat. -/
theorem touches_concatChats {d : Data C} {left right : ℕ} {id : String}
    (hl : (d.heap left).name = id) (hr : (d.heap right).name = id) : Touches id d (concatChats d left right) := by
  apply Touches.of_heap
  · intro x hx
    apply mergeObjects_ne
    · rintro rfl
      exact hx hl
    · rintro rfl
      exact hx hr
  · exact mergeObjects_name (hl.trans hr.symm)

/-- Changing an object without its name is a step on its chat. -/
theorem touches_modify {d : Data C} {ref : ℕ} {change : Chat C → Chat C} {id : String}
    (hid : (d.heap ref).name = id) (h : (change (d.heap ref)).name = (d.heap ref).name) :
    Touches id d {d with heap := modify d.heap ref change} := by
  apply Touches.of_heap
  · intro x hx
    apply modify_ne
    rintro rfl
    exact hx hid
  · exact modify_name h

/-- Forgetting the pending change of a chat is a step on the chat. -/
theorem touches_deleteUpdate (id : String) (d : Data C) : Touches id d {d with updates := d.updates.delete id} :=
  ⟨le_refl _,fun _ _ _ => rfl,fun _ _ => rfl,fun kind other hne => by
    cases kind with
    | update => exact InsertionMap.get_delete_ne _ hne.symm
    | _ => rfl⟩

@[simp] theorem concatChats_slot (d : Data C) (left right : ℕ) : (concatChats d left right).slot = d.slot := by
  funext kind id
  cases kind <;> rfl

@[simp] theorem alloc_slot (d : Data C) (chat : Chat C) : (alloc d chat).slot = d.slot := by
  funext kind id
  cases kind <;> rfl

/-- Absorbing the pending change of a chat is a step on the chat. -/
theorem touches_absorbChatUpdate {d : Data C} {existing : ℕ} {id : String} (hid : (d.heap existing).name = id)
    (hnamed : ∀ x,d.updates.get id = some x → (d.heap x).name = id) :
    Touches id d (absorbChatUpdate evaluate d existing) := by
  unfold absorbChatUpdate
  rw [hid]
  dsimp only
  split
  · exact .refl _ _
  · rename_i update hupdate
    have hname : (d.heap update).name = id := hnamed update hupdate
    split
    · have hdrop : Touches id d (dropCondition d update) := touches_modify hname rfl
      have hdropNames (x : ℕ) : ((dropCondition d update).heap x).name = (d.heap x).name :=
        modify_name rfl x
      have hl := (hdropNames update).trans hname
      have hr := (hdropNames existing).trans hid
      have hmerge : Touches id (dropCondition d update)
          (concatChats (dropCondition d update) update existing) := touches_concatChats hl hr
      have hmergeNames (x : ℕ) :
          ((concatChats (dropCondition d update) update existing).heap x).name =
            ((dropCondition d update).heap x).name := mergeObjects_name (hl.trans hr.symm) x
      have hassign := @touches_modify C (concatChats (dropCondition d update) update existing)
        existing (fun chat => assign chat
          ((concatChats (dropCondition d update) update existing).heap update)) id
        (by rw [hmergeNames,hr]) (assign_name (by rw [hmergeNames,hmergeNames,hl,hr]))
      exact ((hdrop.trans hmerge).trans hassign).trans (touches_deleteUpdate id _)
    · exact touches_deleteUpdate id d
    · exact .refl _ _

@[simp] theorem absorbChatUpdate_history (d : Data C) (existing : ℕ) :
    (absorbChatUpdate evaluate d existing).history = d.history := by
  unfold absorbChatUpdate
  dsimp only
  split
  · rfl
  · split <;> rfl

@[simp] theorem absorbChatUpdate_upserts (d : Data C) (existing : ℕ) :
    (absorbChatUpdate evaluate d existing).upserts = d.upserts := by
  unfold absorbChatUpdate
  dsimp only
  split
  · rfl
  · split <;> rfl

/-- Absorbing takes at most the pending change of the chat away. -/
theorem absorbChatUpdate_updates (d : Data C) (existing : ℕ) :
    (absorbChatUpdate evaluate d existing).updates = d.updates ∨
      (absorbChatUpdate evaluate d existing).updates = d.updates.delete (d.heap existing).name := by
  unfold absorbChatUpdate
  dsimp only
  split
  · exact .inl rfl
  · split
    · exact .inr rfl
    · exact .inr rfl
    · exact .inl rfl

/-- Absorbing a pending change puts no object anywhere. -/
theorem absorbChatUpdate_slot {d : Data C} {existing : ℕ} {kind : Kind} {id : String} {x : ℕ}
    (h : (absorbChatUpdate evaluate d existing).slot kind id = some x) : d.slot kind id = some x := by
  cases kind with
  | history => simpa [Data.slot] using h
  | upsert => simpa [Data.slot] using h
  | update =>
    obtain hsame | hdeleted := @absorbChatUpdate_updates C evaluate d existing
    · simpa [Data.slot,hsame] using h
    · simp only [Data.slot,hdeleted,InsertionMap.get_delete] at h
      split at h
      · cases h
      · exact h

/-- Pending chats and the references still to be upserted: every object that is
pending has one place, under its own name. -/
structure Sound (d : Data C) (pending : List ℕ) : Prop where
  /-- Entries are references. -/
  below : ∀ kind id x,d.slot kind id = some x → x < d.next
  /-- No object has two places. -/
  apart : ∀ kind kind' id id' x,d.slot kind id = some x → d.slot kind' id' = some x → kind = kind'
  /-- Entries are under their own name. -/
  named : ∀ kind id x,d.slot kind id = some x → (d.heap x).name = id
  /-- No object is to be upserted twice. -/
  nodup : pending.Nodup
  /-- Objects to be upserted are references. -/
  pendingBelow : ∀ x ∈ pending,x < d.next
  /-- They have names. -/
  pendingNamed : ∀ x ∈ pending,(d.heap x).name ≠ ""
  /-- Only the history set holds them. -/
  pendingFree : ∀ x ∈ pending,∀ kind id,d.slot kind id = some x → kind = .history

namespace Sound

variable {d d' : Data C} {pending : List ℕ} {id : String}

/-- A step that puts no object anywhere. -/
theorem shrink (h : Sound d pending) (touches : Touches id d d')
    (slots : ∀ kind id x,d'.slot kind id = some x → d.slot kind id = some x) :
    Sound d' pending where
  below := by
    intro kind id x hx
    have := h.below kind id x (slots kind id x hx)
    have := touches.next
    omega
  apart := fun kind kind' id id' x hx hx' =>
    h.apart kind kind' id id' x (slots kind id x hx) (slots kind' id' x hx')
  named := by
    intro kind id x hx
    have hslot := slots kind id x hx
    rw [touches.names x (h.below kind id x hslot),h.named kind id x hslot]
  nodup := h.nodup
  pendingBelow := by
    intro x hx
    have := h.pendingBelow x hx
    have := touches.next
    omega
  pendingNamed := by
    intro x hx
    rw [touches.names x (h.pendingBelow x hx)]
    exact h.pendingNamed x hx
  pendingFree := fun x hx kind id hslot => h.pendingFree x hx kind id (slots kind id x hslot)

/-- The cache names no places. -/
theorem cache (h : Sound d pending) (cache : Finset String) : Sound {d with historyCache := cache} pending :=
  h.shrink (Touches.of_rest "" rfl rfl (by funext kind id; cases kind <;> rfl))
    fun kind id x hx => by cases kind <;> exact hx

/-- A new object has no place. -/
theorem alloc (h : Sound d pending) (chat : Chat C) : Sound (alloc d chat) pending :=
  h.shrink (Touches.alloc "" d chat) (by simp)

theorem alloc_free (h : Sound d pending) (kind : Kind) (id : String) : d.slot kind id ≠ some d.next := by
  intro hslot
  have := h.below kind id d.next hslot
  omega

/-- One more object to be upserted. -/
theorem await (h : Sound d pending) {ref : ℕ} (href : ref < d.next) (hnew : ref ∉ pending)
    (hname : (d.heap ref).name ≠ "")
    (hfree : ∀ kind id,d.slot kind id = some ref → kind = .history) :
    Sound d (pending++[ref]) := by
  have hall {P : ℕ → Prop} (hold : ∀ x ∈ pending,P x) (href : P ref) : ∀ x ∈ pending++[ref],P x := by
    intro x hx
    obtain hx | hx := List.mem_append.mp hx
    · exact hold x hx
    · rwa [List.mem_singleton.mp hx]
  have hnodup : (pending++[ref]).Nodup := by
    rw [List.nodup_append]
    refine ⟨h.nodup,List.nodup_singleton ref,?_⟩
    rintro x hx y hy rfl
    exact hnew (List.mem_singleton.mp hy ▸ hx)
  exact ⟨h.below,h.apart,h.named,hnodup,hall h.pendingBelow href,hall h.pendingNamed hname,
    hall h.pendingFree hfree⟩

/-- One object less to be upserted. -/
theorem tail {ref : ℕ} (h : Sound d (ref::pending)) : Sound d pending :=
  ⟨h.below,h.apart,h.named,(List.nodup_cons.mp h.nodup).2,
    (List.forall_mem_cons.mp h.pendingBelow).2,(List.forall_mem_cons.mp h.pendingNamed).2,
    (List.forall_mem_cons.mp h.pendingFree).2⟩

/-- Absorbing a pending change keeps the places. -/
theorem absorb (h : Sound d pending) (existing : ℕ) : Sound (absorbChatUpdate evaluate d existing) pending :=
  h.shrink (touches_absorbChatUpdate rfl (h.named .update _)) fun _ _ _ => absorbChatUpdate_slot

/-- Merging two objects of a chat keeps the places. -/
theorem concat (h : Sound d pending) {left right : ℕ} (hname : (d.heap left).name = (d.heap right).name) :
    Sound (concatChats d left right) pending :=
  h.shrink (touches_concatChats hname rfl) (by simp)

end Sound

/-- A step on one chat: the others stay, and every object keeps its place. -/
structure Steps (id : String) (d : Data C) (pending : List ℕ) (d' : Data C) : Prop where
  /-- The other chats stay. -/
  touches : Touches id d d'
  /-- The places are kept. -/
  sound : Sound d' pending

section Steps

variable {d d' : Data C} {pending : List ℕ}

/-- Putting an object that has no place into a map, under its own name, is a step on
its chat. -/
theorem steps_put (h : Sound d pending) (place : Kind) {ref : ℕ} (href : ref < d.next)
    (free : ∀ kind id,d.slot kind id ≠ some ref) (hpending : ref ∈ pending → place = .history)
    (hheap : d'.heap = d.heap) (hnext : d'.next = d.next) (hslots : ∀ kind id,d'.slot kind id =
      if kind = place ∧ id = (d.heap ref).name then some ref else d.slot kind id) :
    Steps (d.heap ref).name d pending d' := by
  have slots {kind : Kind} {id : String} {x : ℕ} (hx : d'.slot kind id = some x) :
      d.slot kind id = some x ∨ kind = place ∧ id = (d.heap ref).name ∧ x = ref := by
    rw [hslots] at hx
    split at hx
    · rename_i hplace
      exact .inr ⟨hplace.1,hplace.2,(Option.some.inj hx).symm⟩
    · exact .inl hx
  refine ⟨⟨hnext.ge,fun _ _ _ => by rw [hheap],fun _ _ => by rw [hheap],?_⟩,?_⟩
  · intro kind other hne
    rw [hslots,if_neg fun hplace => hne hplace.2]
  constructor
  · intro kind id x hx
    rw [hnext]
    obtain hold | ⟨-,-,rfl⟩ := slots hx
    · exact h.below kind id x hold
    · exact href
  · intro kind kind' id id' x hx hx'
    obtain hold | ⟨hkind,-,rfl⟩ := slots hx
    · obtain hold' | ⟨-,-,rfl⟩ := slots hx'
      · exact h.apart kind kind' id id' x hold hold'
      · exact absurd hold (free kind id)
    · obtain hold' | ⟨hkind',-,-⟩ := slots hx'
      · exact absurd hold' (free kind' id')
      · rw [hkind,hkind']
  · intro kind id x hx
    rw [hheap]
    obtain hold | ⟨-,hid,rfl⟩ := slots hx
    · exact h.named kind id x hold
    · exact hid.symm
  · exact h.nodup
  · rw [hnext]
    exact h.pendingBelow
  · rw [hheap]
    exact h.pendingNamed
  · intro x hx kind id hslot
    obtain hold | ⟨hkind,-,rfl⟩ := slots hslot
    · exact h.pendingFree x hx kind id hold
    · rw [hkind,hpending hx]

/-- Two steps on one chat. -/
theorem Steps.trans {id : String} {d'' : Data C} (h : Steps id d pending d')
    (h' : Steps id d' pending d'') : Steps id d pending d'' :=
  ⟨h.touches.trans h'.touches,h'.sound⟩

/-- Absorbing the pending change of a chat is a step on the chat. -/
theorem absorb_steps (h : Sound d pending) {existing : ℕ} {id : String} (hid : (d.heap existing).name = id) :
    Steps id d pending (absorbChatUpdate evaluate d existing) :=
  ⟨touches_absorbChatUpdate hid (h.named .update id),h.absorb existing⟩

/-- Merging two objects of a chat is a step on the chat. -/
theorem concat_steps (h : Sound d pending) {left right : ℕ} {id : String}
    (hl : (d.heap left).name = id) (hr : (d.heap right).name = id) : Steps id d pending (concatChats d left right) :=
  ⟨touches_concatChats hl hr,h.concat (hl.trans hr.symm)⟩

/-- Changing an object without its name is a step on its chat. -/
theorem modify_steps (h : Sound d pending) {ref : ℕ} {change : Chat C → Chat C} {id : String}
    (hid : (d.heap ref).name = id) (hname : (change (d.heap ref)).name = (d.heap ref).name) :
    Steps id d pending {d with heap := modify d.heap ref change} :=
  ⟨touches_modify hid hname,
    h.shrink (touches_modify hid hname) fun kind other x hx => by cases kind <;> exact hx⟩

/-- A step that leaves objects and entries in place. -/
theorem steps_rest (h : Sound d pending) (id : String) (hheap : d'.heap = d.heap)
    (hnext : d'.next = d.next) (hslots : d'.slot = d.slot) : Steps id d pending d' := by
  have touches := Touches.of_rest id hheap hnext hslots
  exact ⟨touches,h.shrink touches fun kind id x hx => by rwa [hslots] at hx⟩

/-- Putting a chat into the history set is a step on the chat. -/
theorem setHistoryChat_steps (h : Sound d pending) {chat : ℕ} (hbelow : chat < d.next)
    (hfree : ∀ kind id,d.slot kind id ≠ some chat) :
    Steps (d.heap chat).name d pending (setHistoryChat evaluate d chat) := by
  have hrest : Steps (d.heap chat).name d pending d := ⟨.refl _ _,h⟩
  unfold setHistoryChat
  dsimp only
  split
  · exact hrest
  · split
    · exact hrest
    · have hput : Steps (d.heap chat).name d pending {d with
          history := d.history.set (d.heap chat).name chat
          historyCache := insert (d.heap chat).name d.historyCache} := by
        refine steps_put h .history hbelow hfree (fun _ => rfl) rfl rfl ?_
        intro kind id
        cases kind <;> simp [Data.slot,InsertionMap.get_set,eq_comm]
      exact hput.trans (absorb_steps hput.sound rfl)

/-- Upserting a chat that at most the history set holds is a step on the chat. -/
theorem upsertChat_steps {chat : ℕ} (h : Sound d pending) (hbelow : chat < d.next)
    (hnew : chat ∉ pending) (hplace : ∀ kind id,d.slot kind id = some chat →
      kind = .history ∧ (d.heap chat).name ≠ "") :
    Steps (d.heap chat).name d pending (upsertChat evaluate d chat) := by
  have hdeletes (d' : Data C) (hsteps : Steps (d.heap chat).name d pending d') :
      Steps (d.heap chat).name d pending
        {d' with deletes := d'.deletes.delete (d.heap chat).name} :=
    hsteps.trans (steps_rest hsteps.sound _ rfl rfl (by funext kind id; cases kind <;> rfl))
  unfold upsertChat
  apply hdeletes
  split
  · rename_i existing hexisting
    have hslot : d.slot .upsert (d.heap chat).name = some existing ∨
        d.slot .history (d.heap chat).name = some existing := by
      cases hupsert : d.upserts.get (d.heap chat).name with
      | some found =>
        rw [hupsert] at hexisting
        exact .inl (hupsert.trans hexisting)
      | none =>
        rw [hupsert] at hexisting
        split at hexisting
        · cases hexisting
        · exact .inr hexisting
    have hname : (d.heap existing).name = (d.heap chat).name := by
      obtain hslot | hslot := hslot
      · exact h.named _ _ _ hslot
      · exact h.named _ _ _ hslot
    have hbelow' : existing < d.next := by
      obtain hslot | hslot := hslot
      · exact h.below _ _ _ hslot
      · exact h.below _ _ _ hslot
    have hconcat : Steps (d.heap chat).name d pending (concatChats d existing chat) :=
      concat_steps h hname rfl
    have hsame := hconcat.touches.names existing hbelow'
    exact hconcat.trans (absorb_steps hconcat.sound (hsame.trans hname))
  · rename_i hnone
    obtain ⟨hupsert,hhistory⟩ := Option.or_eq_none_iff.mp hnone
    have hfree (kind : Kind) (id : String) : d.slot kind id ≠ some chat := by
      intro hslot
      obtain ⟨rfl,hnamed⟩ := hplace kind id hslot
      have hid : (d.heap chat).name = id := h.named _ _ _ hslot
      rw [if_neg hnamed,hid] at hhistory
      have hget : d.history.get id = some chat := hslot
      rw [hget] at hhistory
      cases hhistory
    have hput : Steps (d.heap chat).name d pending
        {d with upserts := d.upserts.set (d.heap chat).name chat} := by
      refine steps_put h .upsert hbelow hfree (fun hpending => absurd hpending hnew) rfl rfl ?_
      intro kind id
      cases kind <;> simp [Data.slot,InsertionMap.get_set,eq_comm]
    exact hput.trans (absorb_steps hput.sound rfl)

/-- Merging into a new object copies the other one. -/
theorem concatChats_alloc {d : Data C} {update : ℕ} (hbelow : update < d.next) :
    concatChats (alloc d ⟨none,none,none⟩) d.next update = alloc d (d.heap update) := by
  have hne : update ≠ d.next := by omega
  have hcopy (chat : Chat C) : assign ⟨none,none,none⟩ (summed ⟨none,none,none⟩ chat) = chat := by
    simp [assign,summed]
  have hheap : mergeObjects (alloc d ⟨none,none,none⟩).heap d.next update =
      (alloc d (d.heap update)).heap := by
    funext x
    by_cases hx : x = d.next
    · subst hx
      simp [mergeObjects,alloc,isNegative,hne,hcopy]
    · simp [mergeObjects,alloc,isNegative,hx,modify]
  unfold concatChats
  rw [hheap]
  rfl

/-- Merging a change into the pending change of its chat is a step on the chat. -/
theorem addUpdate_steps {update : ℕ} {id : String} (h : Sound d pending)
    (hbelow : update < d.next) (hid : (d.heap update).name = id) : Steps id d pending (addUpdate d id update) := by
  unfold addUpdate
  split
  · rename_i found hfound
    exact concat_steps h (h.named .update id found hfound) hid
  · dsimp only
    rw [concatChats_alloc hbelow]
    have halloc : Steps id d pending (alloc d (d.heap update)) :=
      ⟨.alloc id d _,h.alloc _⟩
    have hfresh : (alloc d (d.heap update)).heap d.next = d.heap update := by simp [alloc]
    have hname : ((alloc d (d.heap update)).heap d.next).name = id := by rw [hfresh,hid]
    have hput : Steps ((alloc d (d.heap update)).heap d.next).name (alloc d (d.heap update)) pending
        {alloc d (d.heap update) with
          updates := (alloc d (d.heap update)).updates.set id d.next} := by
      refine steps_put halloc.sound .update (Nat.lt_succ_self d.next) ?_ ?_ rfl rfl ?_
      · rw [alloc_slot]
        exact h.alloc_free
      · intro hpending
        have := h.pendingBelow _ hpending
        omega
      · intro kind other
        rw [hname]
        cases kind <;> simp [Data.slot,InsertionMap.get_set,eq_comm]
    rw [hname] at hput
    exact halloc.trans hput

/-- Applying a change that has no place is a step on the chat. -/
theorem updateChat_steps {update : ℕ} (h : Sound d pending) (hbelow : update < d.next)
    (hnew : update ∉ pending) (hfree : ∀ kind id,d.slot kind id ≠ some update) :
    Steps (d.heap update).name d pending (updateChat evaluate d update) := by
  have hdeletes (d' : Data C) (hsteps : Steps (d.heap update).name d pending d') :
      Steps (d.heap update).name d pending
        {d' with deletes := d'.deletes.delete (d.heap update).name} :=
    hsteps.trans (steps_rest hsteps.sound _ rfl rfl (by funext kind id; cases kind <;> rfl))
  unfold updateChat
  apply hdeletes
  split
  · have hdrop : Steps (d.heap update).name d pending (dropCondition d update) :=
      modify_steps h rfl rfl
    have hname : ((dropCondition d update).heap update).name = (d.heap update).name :=
      hdrop.touches.names update hbelow
    dsimp only
    split
    · rename_i existing hexisting
      have hexistingName : ((dropCondition d update).heap existing).name = (d.heap update).name := by
        cases hhistory : (dropCondition d update).history.get (d.heap update).name with
        | some found =>
          rw [hhistory] at hexisting
          exact hdrop.sound.named .history _ existing (hhistory.trans hexisting)
        | none =>
          rw [hhistory] at hexisting
          exact hdrop.sound.named .upsert _ existing hexisting
      exact hdrop.trans (concat_steps hdrop.sound hexistingName hname)
    · exact hdrop.trans (addUpdate_steps hdrop.sound hbelow hname)
  · exact ⟨.refl _ _,h⟩
  · refine steps_put h .update hbelow hfree (fun hpending => absurd hpending hnew) rfl rfl ?_
    intro kind id
    cases kind <;> simp [Data.slot,InsertionMap.get_set,eq_comm]

/-- Deleting a chat is a step on the chat. -/
theorem deleteChat_steps (h : Sound d pending) (id : String) : Steps id d pending (deleteChat d id) := by
  have hslots (kind : Kind) (other : String) : (deleteChat d id).slot kind other =
      if other = id then none else d.slot kind other := by
    cases kind <;> simp [deleteChat,Data.slot,InsertionMap.get_delete,eq_comm]
  have htouches : Touches id d (deleteChat d id) :=
    ⟨le_refl _,fun _ _ _ => rfl,fun _ _ => rfl,fun kind other hne => by rw [hslots,if_neg hne]⟩
  refine ⟨htouches,h.shrink htouches ?_⟩
  intro kind other x hx
  rw [hslots] at hx
  split at hx
  · cases hx
  · exact hx

/-- A read message is a step on its chat. -/
theorem readMessage_steps (h : Sound d pending) (id : String) : Steps id d pending (readMessage d id) := by
  have hrest : Steps id d pending d := ⟨.refl _ _,h⟩
  unfold readMessage
  split
  · exact hrest
  · rename_i chat hchat
    have hname : (d.heap chat).name = id := by
      cases hupdate : d.updates.get id with
      | some found =>
        rw [hupdate] at hchat
        exact h.named .update id chat (hupdate.trans hchat)
      | none =>
        rw [hupdate] at hchat
        exact h.named .upsert id chat hchat
    split
    · split
      · exact modify_steps h hname (setUnread_name _ _)
      · exact hrest
    · exact hrest

end Steps

/-- Other chats leave this chat as it is. -/
structure Keeps (id : String) (d d' : Data C) : Prop where
  /-- References are never taken back. -/
  next : d.next ≤ d'.next
  /-- Its objects stay. -/
  heap : ∀ x,x < d.next → (d.heap x).name = id → d'.heap x = d.heap x
  /-- No object changes its name. -/
  names : ∀ x,x < d.next → (d'.heap x).name = (d.heap x).name
  /-- Its entries stay. -/
  slots : ∀ kind,d'.slot kind id = d.slot kind id

namespace Keeps

variable {id : String} {d d' d'' : Data C}

theorem refl (id : String) (d : Data C) : Keeps id d d :=
  ⟨le_refl _,fun _ _ _ => rfl,fun _ _ => rfl,fun _ => rfl⟩

theorem trans (h : Keeps id d d') (h' : Keeps id d' d'') : Keeps id d d'' where
  next := h.next.trans h'.next
  heap := by
    intro x hx hname
    have hsame : (d'.heap x).name = id := by rwa [h.names x hx]
    rw [h'.heap x (by have := h.next; omega) hsame,h.heap x hx hname]
  names := by
    intro x hx
    rw [h'.names x (by have := h.next; omega),h.names x hx]
  slots := by
    intro kind
    rw [h'.slots,h.slots]

/-- The cache is no part of a chat. -/
theorem cache (id : String) (d : Data C) (cache : Finset String) : Keeps id d {d with historyCache := cache} :=
  ⟨le_refl _,fun _ _ _ => rfl,fun _ _ => rfl,fun kind => by cases kind <;> rfl⟩

/-- A step on another chat. -/
theorem of_touches {other : String} (h : Touches other d d') (hne : id ≠ other) : Keeps id d d' :=
  ⟨h.next,fun x hx hname => h.heap x hx (hname ▸ hne),h.names,fun kind => h.slots kind id hne⟩

end Keeps

section Runs

variable {pending : List ℕ}

/-- Steps on chats one after the other. -/
theorem foldl_steps {α : Type*} {f : Data C → α → Data C} (name : α → String)
    (hstep : ∀ d a,Sound d pending → Steps (name a) d pending (f d a)) (items : List α)
    {d : Data C} (h : Sound d pending) : Sound (items.foldl f d) pending ∧
      ∀ id,id ∉ items.map name → Keeps id d (items.foldl f d) := by
  induction items generalizing d with
  | nil => exact ⟨h,fun id _ => .refl id d⟩
  | cons item items ih =>
    have hfirst := hstep d item h
    obtain ⟨hsound,hkeeps⟩ := ih hfirst.sound
    refine ⟨hsound,?_⟩
    intro id hid
    rw [List.map_cons,List.mem_cons,not_or] at hid
    exact (Keeps.of_touches hfirst.touches hid.1).trans (hkeeps id hid.2)

/-- A property of the pending chats and of the objects still to be upserted holds after
a history set when every chat of the set keeps it. -/
theorem setHistory_rule {Inv : Data C → List ℕ → Prop} (chats : List HistoryChat)
    (hset : ∀ d pending,Inv d pending → ∀ chat ∈ chats,
      Inv (setHistoryChat evaluate (alloc d (chat.chat C)) d.next) (pending++[d.next]))
    {d : Data C} (h : Inv d pending) :
    Inv (setHistory evaluate d chats).1 (pending++(setHistory evaluate d chats).2) := by
  induction chats generalizing d pending with
  | nil => simpa [setHistory] using h
  | cons chat chats ih =>
    have hfirst := hset d pending h chat List.mem_cons_self
    have hrest := ih (fun d pending h chat hchat => hset d pending h chat
      (List.mem_cons_of_mem _ hchat)) hfirst
    simpa [setHistory] using hrest

/-- And it holds after the upserts when every upsert keeps it. -/
theorem upserts_rule {Inv : Data C → List ℕ → Prop} (refs : List ℕ)
    (hupsert : ∀ d pending,∀ ref ∈ refs,Inv d (ref::pending) → Inv (upsertChat evaluate d ref) pending)
    {d : Data C} (h : Inv d (refs++pending)) : Inv (refs.foldl (upsertChat evaluate) d) pending := by
  induction refs generalizing d with
  | nil => exact h
  | cons ref refs ih =>
    have hfirst := hupsert d (refs++pending) ref List.mem_cons_self h
    exact ih (fun d pending ref href => hupsert d pending ref (List.mem_cons_of_mem _ href)) hfirst

/-- A history set puts objects nowhere else. -/
theorem setHistoryChat_slot {d : Data C} {chat : ℕ} {kind : Kind} {id : String} {x : ℕ}
    (h : (setHistoryChat evaluate d chat).slot kind id = some x) : d.slot kind id = some x ∨ kind = .history := by
  unfold setHistoryChat at h
  dsimp only at h
  split at h
  · exact .inl h
  · split at h
    · exact .inl h
    · have hput := absorbChatUpdate_slot h
      cases kind with
      | history => exact .inr rfl
      | _ => exact .inl hput

/-- A chat of a history set is a step on the chat, and it is still to be upserted. -/
theorem setHistoryChat_alloc {d : Data C} (h : Sound d pending) (chat : HistoryChat) :
    Touches chat.id d (setHistoryChat evaluate (alloc d (chat.chat C)) d.next) ∧
      Sound (setHistoryChat evaluate (alloc d (chat.chat C)) d.next) (pending++[d.next]) ∧
      ((setHistoryChat evaluate (alloc d (chat.chat C)) d.next).heap d.next).name = chat.id := by
  have hbelow : d.next < (alloc d (chat.chat C)).next := Nat.lt_succ_self d.next
  have hname : ((alloc d (chat.chat C)).heap d.next).name = chat.id := by
    simp [alloc,HistoryChat.chat,Chat.name]
  have hfree (kind : Kind) (id : String) :
      (alloc d (chat.chat C)).slot kind id ≠ some d.next := by
    rw [alloc_slot]
    exact h.alloc_free kind id
  have hsteps := @setHistoryChat_steps C evaluate _ pending (h.alloc (chat.chat C)) d.next hbelow hfree
  have hfinal := (hsteps.touches.names d.next hbelow).trans hname
  rw [hname] at hsteps
  refine ⟨(Touches.alloc _ d _).trans hsteps.touches,?_,hfinal⟩
  refine hsteps.sound.await (hbelow.trans_le hsteps.touches.next) ?_ ?_ ?_
  · intro hpending
    have := h.pendingBelow _ hpending
    omega
  · rw [hfinal]
    exact chat.named
  · intro kind id hslot
    obtain hold | hkind := setHistoryChat_slot hslot
    · exact absurd hold (hfree kind id)
    · exact hkind

/-- An upsert of a history chat is a step on the chat. -/
theorem upsertChat_pending {d : Data C} {ref : ℕ} (h : Sound d (ref::pending)) :
    Steps (d.heap ref).name d pending (upsertChat evaluate d ref) := by
  have hnew : ref ∉ pending := (List.nodup_cons.mp h.nodup).1
  have hbelow : ref < d.next := h.pendingBelow ref List.mem_cons_self
  refine upsertChat_steps h.tail hbelow hnew ?_
  intro kind id hslot
  exact ⟨h.pendingFree ref List.mem_cons_self kind id hslot,
    h.pendingNamed ref List.mem_cons_self⟩

/-- Setting one history chat takes no reference back. -/
theorem setHistoryChat_next (d : Data C) (chat : ℕ) : (setHistoryChat evaluate d chat).next = d.next := by
  have habsorb (d : Data C) : (absorbChatUpdate evaluate d chat).next = d.next := by
    unfold absorbChatUpdate
    dsimp only
    split
    · rfl
    · split <;> rfl
  unfold setHistoryChat
  dsimp only
  split
  · rfl
  · split
    · rfl
    · exact habsorb _

/-- References of a history set are new. -/
theorem setHistory_fresh (chats : List HistoryChat) {d : Data C} {ref : ℕ}
    (h : ref ∈ (setHistory evaluate d chats).2) : d.next ≤ ref := by
  induction chats generalizing d with
  | nil => cases h
  | cons chat chats ih =>
    obtain rfl | hrest := List.mem_cons.mp h
    · exact le_refl _
    · have hle := ih hrest
      rw [setHistoryChat_next] at hle
      simp only [alloc] at hle
      omega

/-- A history set keeps the places; chats it does not name stay as they are. -/
theorem setHistory_keeps {d : Data C} (h : Sound d pending) (chats : List HistoryChat) :
    Sound (setHistory evaluate d chats).1 (pending++(setHistory evaluate d chats).2) ∧
      ∀ id,id ∉ chats.map HistoryChat.id → Keeps id d (setHistory evaluate d chats).1 ∧
        ∀ ref ∈ (setHistory evaluate d chats).2, ((setHistory evaluate d chats).1.heap ref).name ≠ id := by
  have hsound := @setHistory_rule C evaluate pending Sound chats
    (fun d pending h chat _ => (setHistoryChat_alloc h chat).2.1) d h
  refine ⟨hsound,?_⟩
  intro id hid
  have hinv := @setHistory_rule C evaluate pending (fun d' pending' => Sound d' pending' ∧
    Keeps id d d' ∧ ∀ ref ∈ pending',ref < d.next ∨ (d'.heap ref).name ≠ id) chats ?_ d ?_
  · obtain ⟨-,hkeeps,hnames⟩ := hinv
    refine ⟨hkeeps,?_⟩
    intro ref href
    obtain hold | hname := hnames ref (List.mem_append_right _ href)
    · exact absurd hold (by have := setHistory_fresh chats href; omega)
    · exact hname
  · rintro d' pending' ⟨hsound',hkeeps,hnames⟩ chat hchat
    obtain ⟨htouches,hnext,hname⟩ := @setHistoryChat_alloc C evaluate pending' d' hsound' chat
    have hne : id ≠ chat.id := by
      rintro rfl
      exact hid (List.mem_map_of_mem hchat)
    refine ⟨hnext,hkeeps.trans (.of_touches htouches hne),?_⟩
    intro ref href
    obtain hold | hnew := List.mem_append.mp href
    · rw [htouches.names ref (hsound'.pendingBelow ref hold)]
      exact hnames ref hold
    · rw [List.mem_singleton.mp hnew,hname]
      exact .inr hne.symm
  · exact ⟨h,.refl id d,fun ref href => .inl (h.pendingBelow ref href)⟩

/-- Upserts of history chats keep the places; chats that none of them is named as stay
as they are. -/
theorem upserts_keeps {d : Data C} {refs : List ℕ} (h : Sound d (refs++pending)) :
    Sound (refs.foldl (upsertChat evaluate) d) pending ∧ ∀ id,(∀ ref ∈ refs,(d.heap ref).name ≠ id) →
        Keeps id d (refs.foldl (upsertChat evaluate) d) := by
  have hsound := @upserts_rule C evaluate pending Sound refs
    (fun d pending ref _ h => (upsertChat_pending h).sound) d h
  refine ⟨hsound,?_⟩
  intro id hid
  have hinv := @upserts_rule C evaluate pending (fun d' pending' => Sound d' pending' ∧ Keeps id d d')
    refs ?_ d ⟨h,.refl id d⟩
  · exact hinv.2
  · rintro d' pending' ref href ⟨hsound,hkeeps⟩
    have hsteps := @upsertChat_pending C evaluate pending' d' ref hsound
    have hbelow : ref < d.next := h.pendingBelow ref (List.mem_append_left _ href)
    have hne : id ≠ (d'.heap ref).name := by
      rw [hkeeps.names ref hbelow]
      exact (hid ref href).symm
    exact ⟨hsteps.sound,hkeeps.trans (.of_touches hsteps.touches hne)⟩

/-- Upserting a new object is a step on its chat. -/
theorem upsertFresh_steps {d : Data C} (h : Sound d pending) (chat : Chat C) :
    Steps chat.name d pending (upsertChat evaluate (alloc d chat) d.next) := by
  have hname : ((alloc d chat).heap d.next).name = chat.name := by simp [alloc]
  have hbelow : d.next < (alloc d chat).next := Nat.lt_succ_self d.next
  have hsteps : Steps ((alloc d chat).heap d.next).name (alloc d chat) pending
      (upsertChat evaluate (alloc d chat) d.next) := by
    refine upsertChat_steps (h.alloc chat) hbelow ?_ ?_
    · intro hpending
      have := h.pendingBelow _ hpending
      omega
    · intro kind id hslot
      rw [alloc_slot] at hslot
      exact absurd hslot (h.alloc_free kind id)
  rw [hname] at hsteps
  exact ⟨(Touches.alloc _ d chat).trans hsteps.touches,hsteps.sound⟩

/-- Applying a new change is a step on its chat. -/
theorem updateFresh_steps {d : Data C} (h : Sound d pending) (update : Chat C) :
    Steps update.name d pending (updateChat evaluate (alloc d update) d.next) := by
  have hname : ((alloc d update).heap d.next).name = update.name := by simp [alloc]
  have hbelow : d.next < (alloc d update).next := Nat.lt_succ_self d.next
  have hsteps : Steps ((alloc d update).heap d.next).name (alloc d update) pending
      (updateChat evaluate (alloc d update) d.next) := by
    refine updateChat_steps (h.alloc update) hbelow ?_ ?_
    · intro hpending
      have := h.pendingBelow _ hpending
      omega
    · rw [alloc_slot]
      exact h.alloc_free
  rw [hname] at hsteps
  exact ⟨(Touches.alloc _ d update).trans hsteps.touches,hsteps.sound⟩

/-- Names an event changes chats under. -/
def Event.names : Event C → List String
  | .historySync chats _ => chats.map HistoryChat.id
  | .chatsUpsert chats => chats.map Chat.name
  | .chatsUpdate updates => updates.map Chat.name
  | .chatsDelete ids => ids
  | .messagesUpdate read => read

/-- A history event of other chats. -/
theorem historySync_keeps {d : Data C} (h : Sound d []) (chats : List HistoryChat)
    (cached : List String) : Sound (append evaluate d (.historySync chats cached)) [] ∧
      ∀ id,id ∉ chats.map HistoryChat.id → Keeps id d (append evaluate d (.historySync chats cached)) := by
  obtain ⟨hset,hsetKeeps⟩ := @setHistory_keeps C evaluate [] d h chats
  have hcached := hset.cache ((setHistory evaluate d chats).1.historyCache∪cached.toFinset)
  obtain ⟨hsound,hkeeps⟩ := @upserts_keeps C evaluate [] _ (setHistory evaluate d chats).2
    (by simpa using hcached)
  refine ⟨hsound,?_⟩
  intro id hid
  obtain ⟨hset',hnames⟩ := hsetKeeps id hid
  exact (hset'.trans (Keeps.cache id _ _)).trans (hkeeps id hnames)

/-- Every event keeps the places; chats that it does not name stay as they are. -/
theorem append_keeps {d : Data C} (h : Sound d []) (event : Event C) : Sound (append evaluate d event) [] ∧
      ∀ id,id ∉ event.names → Keeps id d (append evaluate d event) := by
  cases event with
  | historySync chats cached => exact historySync_keeps h chats cached
  | chatsUpsert chats => exact foldl_steps _ (fun _ chat h => upsertFresh_steps h chat) chats h
  | chatsUpdate updates =>
    exact foldl_steps _ (fun _ update h => updateFresh_steps h update) updates h
  | chatsDelete ids =>
    have hsteps := foldl_steps (@id String) (fun _ name h => deleteChat_steps h name) ids h
    exact ⟨hsteps.1,fun name hname => hsteps.2 name (by simpa [Event.names] using hname)⟩
  | messagesUpdate read =>
    have hsteps := foldl_steps (@id String) (fun _ name h => readMessage_steps h name) read h
    exact ⟨hsteps.1,fun name hname => hsteps.2 name (by simpa [Event.names] using hname)⟩

/-- Events keep the places; chats that none of them names stay as they are. -/
theorem appendAll_keeps {d : Data C} (h : Sound d []) (events : List (Event C)) :
    Sound (appendAll evaluate d events) [] ∧
      ∀ id,(∀ event ∈ events,id ∉ event.names) → Keeps id d (appendAll evaluate d events) := by
  induction events generalizing d with
  | nil => exact ⟨h,fun id _ => .refl id d⟩
  | cons event events ih =>
    obtain ⟨hsound,hkeeps⟩ := @append_keeps C evaluate d h event
    obtain ⟨hrest,hrestKeeps⟩ := ih hsound
    refine ⟨hrest,?_⟩
    intro id hid
    exact (hkeeps id (hid event List.mem_cons_self)).trans
      (hrestKeeps id fun later hlater => hid later (List.mem_cons_of_mem _ hlater))

end Runs

end Baileyrs.UnreadCounts
