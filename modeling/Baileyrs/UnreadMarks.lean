import Baileyrs.UnreadReleases

/-!
# Read and unread marks

A mark sets the unread count of a chat. It is released as itself, whatever follows
without a count, exactly when the entry it meets holds no positive count beside a read
mark and no other entry of the chat holds another count.
-/

namespace Baileyrs.UnreadCounts

variable {C : Type*} {evaluate : C → Data C → Option Bool}

/-- No count, or a given number. -/
def Good (n : ℤ) (count : Option Unread) : Prop := count = none ∨ count = some (.number n)

/-- The release holds the chat with the number, and with no other count. -/
def ReleasedWith (released : Released C) (id : String) (n : ℤ) : Prop :=
  (∃ chat ∈ released.chats,chat.name = id ∧ chat.unreadCount = some (.number n)) ∧
    ∀ chat ∈ released.chats,chat.name = id → Good n chat.unreadCount

/-- Number of a mark. -/
def markCount (read : Bool) : ℤ := if read then 0 else -1

/-- Reference a change of a chat is merged into. -/
def mergeTarget (d : Data C) (id : String) : Option ℕ :=
  ((d.history.get id).or (d.upserts.get id)).or (d.updates.get id)

/-- A mark arrives unchanged: no positive count awaits a read mark, and no other entry
of the chat holds another count. -/
structure MarkKept (d : Data C) (id : String) (read : Bool) : Prop where
  /-- A read mark meets no positive count. -/
  target : read = true → ∀ ref,mergeTarget d id = some ref →
    isPositive (d.heap ref).unreadCount = false
  /-- Other entries hold no other count. -/
  others : ∀ kind ref,d.slot kind id = some ref → mergeTarget d id ≠ some ref →
    Good (markCount read) (d.heap ref).unreadCount

/-- The event gives the chat no count, no condition, and does not delete it. -/
def CountFree (id : String) : Event C → Prop
  | .historySync chats _ => ∀ chat ∈ chats,chat.id = id → chat.unreadCount = none
  | .chatsUpsert chats => ∀ chat ∈ chats,chat.name = id → chat.unreadCount = none
  | .chatsUpdate updates => ∀ update ∈ updates,update.name = id →
    update.unreadCount = none ∧ update.conditional = none
  | .chatsDelete ids => id ∉ ids
  | .messagesUpdate _ => True

section Marks

variable {n : ℤ} {d d' : Data C} {pending : List ℕ} {id : String}

/-- Pending objects of a chat hold a number that is not positive, or none; the number is
held, and no change of the chat waits. -/
structure Counts (n : ℤ) (id : String) (d : Data C) (pending : List ℕ) : Prop where
  /-- Objects in a map hold the number or none. -/
  entries : ∀ kind ref,d.slot kind id = some ref → Good n (d.heap ref).unreadCount
  /-- Objects still to be upserted do. -/
  awaiting : ∀ ref ∈ pending,(d.heap ref).name = id → Good n (d.heap ref).unreadCount
  /-- No change of the chat has a condition. -/
  plain : ∀ ref,d.slot .update id = some ref → (d.heap ref).conditional = none
  /-- The number is held. -/
  held : ∃ kind ref,d.slot kind id = some ref ∧ (d.heap ref).unreadCount = some (.number n)

/-- A step on another chat. -/
theorem Counts.keeps (hsound : Sound d pending) (h : Counts n id d pending)
    (hkeeps : Keeps id d d') : Counts n id d' pending := by
  have hobject {kind : Kind} {ref : ℕ} (hslot : d'.slot kind id = some ref) :
      d.slot kind id = some ref ∧ d'.heap ref = d.heap ref := by
    rw [hkeeps.slots] at hslot
    exact ⟨hslot,hkeeps.heap ref (hsound.below _ _ _ hslot) (hsound.named _ _ _ hslot)⟩
  constructor
  · intro kind ref hslot
    rw [(hobject hslot).2]
    exact h.entries kind ref (hobject hslot).1
  · intro ref href hname
    have hbelow := hsound.pendingBelow ref href
    rw [hkeeps.names ref hbelow] at hname
    rw [hkeeps.heap ref hbelow hname]
    exact h.awaiting ref href hname
  · intro ref hslot
    rw [(hobject hslot).2]
    exact h.plain ref (hobject hslot).1
  · obtain ⟨kind,ref,hslot,hcount⟩ := h.held
    have hslot' : d'.slot kind id = some ref := by rw [hkeeps.slots,hslot]
    exact ⟨kind,ref,hslot',by rw [(hobject hslot').2,hcount]⟩

/-- Merging two objects that hold the number or none only copies. -/
theorem mergeObjects_good (hn : n ≤ 0) {heap : ℕ → Chat C} {left right : ℕ}
    (hl : Good n (heap left).unreadCount) (hr : Good n (heap right).unreadCount) :
    mergeObjects heap left right = modify heap left fun chat => assign chat (heap right) := by
  have hneutral : ¬((heap right).unreadCount = some .null ∧
      isNegative (heap left).unreadCount = true) := by
    rintro ⟨hnull,-⟩
    obtain hr | hr := hr <;> simp [hnull] at hr
  have hsummed : summed (heap left) (heap right) = heap right := by
    obtain hr | hr := hr
    · simp [summed,hr]
    · obtain hl | hl := hl
      · simp [summed,hl]
      · simp only [summed,hl,hr]
        split
        · have hmax : max n 0+max n 0 = n := by omega
          rw [hmax,← hr]
          rfl
        · rfl
  unfold mergeObjects
  rw [if_neg hneutral]
  simp only [modify,hsummed]

/-- Of two good counts the first that is there is good. -/
theorem Good.or {first second : Option Unread} (h : Good n first) (h' : Good n second) : Good n (first.or second) := by
  obtain rfl | rfl := h
  · simpa using h'
  · exact .inr rfl

/-- A number is held when either of two good counts is it. -/
theorem Good.or_held {first second : Option Unread} (h : Good n first)
    (held : first = some (.number n) ∨ second = some (.number n)) : first.or second = some (.number n) := by
  obtain rfl | rfl := h
  · obtain hfirst | hsecond := held
    · cases hfirst
    · simpa using hsecond
  · rfl

/-- Merging two good objects of the chat. -/
theorem Counts.concat (hn : n ≤ 0) (h : Counts n id d pending) {left right : ℕ}
    (hname : (d.heap left).name = (d.heap right).name)
    (hl : Good n (d.heap left).unreadCount) (hr : Good n (d.heap right).unreadCount)
    (hplain : d.slot .update id = some left → (d.heap right).conditional = none) :
    Counts n id (concatChats d left right) pending := by
  have hcount (ref : ℕ) : ((concatChats d left right).heap ref).unreadCount =
      if ref = left then (d.heap right).unreadCount.or (d.heap left).unreadCount
      else (d.heap ref).unreadCount := by
    simp only [concatChats,mergeObjects_good hn hl hr]
    split
    · rename_i href
      rw [href,modify_self]
      rfl
    · rename_i href
      rw [modify_ne _ href]
  have hgood (ref : ℕ) (href : Good n (d.heap ref).unreadCount) :
      Good n ((concatChats d left right).heap ref).unreadCount := by
    rw [hcount]
    split
    · exact hr.or hl
    · exact href
  constructor
  · intro kind ref hslot
    rw [concatChats_slot] at hslot
    exact hgood ref (h.entries kind ref hslot)
  · intro ref href hname'
    have hsame := mergeObjects_name hname ref
    exact hgood ref (h.awaiting ref href (hsame.symm.trans hname'))
  · intro ref hslot
    rw [concatChats_slot] at hslot
    simp only [concatChats,mergeObjects_good hn hl hr]
    by_cases href : ref = left
    · subst href
      simp [assign,hplain hslot,h.plain ref hslot]
    · rw [modify_ne _ href]
      exact h.plain ref hslot
  · obtain ⟨kind,ref,hslot,hheld⟩ := h.held
    refine ⟨kind,ref,by rw [concatChats_slot,hslot],?_⟩
    rw [hcount]
    split
    · rename_i href
      subst href
      exact hr.or_held (.inr hheld)
    · exact hheld

/-- A change without a condition has none to drop. -/
theorem dropCondition_none {update : ℕ} (h : (d.heap update).conditional = none) : dropCondition d update = d := by
  have hsame : ({d.heap update with conditional := none} : Chat C) = d.heap update := by
    rw [← h]
  have hheap : modify d.heap update (fun chat => {chat with conditional := none}) = d.heap := by
    unfold modify
    exact (congrArg _ hsame).trans (Function.update_eq_self update d.heap)
  unfold dropCondition
  rw [hheap]

/-- Absorbing the pending change of the chat into an entry of it. -/
theorem Counts.absorb (hn : n ≤ 0) (hsound : Sound d pending) (h : Counts n id d pending)
    {place : Kind} {existing : ℕ} (hplace : place ≠ .update) (hslot : d.slot place id = some existing) :
    Counts n id (absorbChatUpdate evaluate d existing) pending := by
  have hname : (d.heap existing).name = id := hsound.named place id existing hslot
  cases hupdate : d.updates.get id with
  | none =>
    rw [absorbChatUpdate_none (by rw [hname,hupdate])]
    exact h
  | some update =>
    have hupdateSlot : d.slot .update id = some update := hupdate
    have hplain : (d.heap update).conditional = none := h.plain update hupdateSlot
    have hne : existing ≠ update := by
      rintro rfl
      exact hplace (hsound.apart _ _ _ _ _ hslot hupdateSlot)
    have hgood : Good n (d.heap existing).unreadCount := h.entries place existing hslot
    have hgoodUpdate : Good n (d.heap update).unreadCount := h.entries .update update hupdateSlot
    have hboth := hgood.or hgoodUpdate
    -- Both objects end with the count of the entry, or else that of the change.
    have hcount (ref : ℕ) : ((absorbChatUpdate evaluate d existing).heap ref).unreadCount =
        if ref = existing ∨ ref = update then
          (d.heap existing).unreadCount.or (d.heap update).unreadCount
        else (d.heap ref).unreadCount := by
      simp only [absorbChatUpdate,hname,hupdate,matchesData,hplain,dropCondition_none hplain,
        concatChats,mergeObjects_good hn hgoodUpdate hgood]
      by_cases href : ref = existing
      · subst href
        rw [modify_self,modify_ne _ hne,modify_self]
        cases hfirst : (d.heap ref).unreadCount <;>
          cases hsecond : (d.heap update).unreadCount <;> simp [assign,hfirst,hsecond]
      · rw [modify_ne _ href]
        by_cases href' : ref = update
        · subst href'
          simp [assign]
        · rw [modify_ne _ href']
          simp [href,href']
    have hslots (kind : Kind) (ref : ℕ)
        (hslot' : (absorbChatUpdate evaluate d existing).slot kind id = some ref) :
        kind ≠ .update ∧ d.slot kind id = some ref := by
      refine ⟨?_,absorbChatUpdate_slot hslot'⟩
      rintro rfl
      simp [Data.slot,absorbChatUpdate,hname,hupdate,matchesData,hplain] at hslot'
    have hgoodAfter (ref : ℕ) (href : Good n (d.heap ref).unreadCount) :
        Good n ((absorbChatUpdate evaluate d existing).heap ref).unreadCount := by
      rw [hcount]
      split
      · exact hboth
      · exact href
    constructor
    · intro kind ref hslot'
      exact hgoodAfter ref (h.entries kind ref (hslots kind ref hslot').2)
    · intro ref href hname'
      have hbelow := hsound.pendingBelow ref href
      rw [(touches_absorbChatUpdate hname (hsound.named .update id)).names ref hbelow] at hname'
      exact hgoodAfter ref (h.awaiting ref href hname')
    · intro ref hslot'
      exact absurd rfl (hslots .update ref hslot').1
    · have hkept (kind : Kind) (hkind : kind ≠ .update) (ref : ℕ)
          (hslot' : d.slot kind id = some ref) :
          (absorbChatUpdate evaluate d existing).slot kind id = some ref := by
        cases kind with
        | update => exact absurd rfl hkind
        | history => simpa [Data.slot] using hslot'
        | upsert => simpa [Data.slot] using hslot'
      obtain ⟨kind,ref,hslot',hheld⟩ := h.held
      by_cases hkind : kind = .update
      · subst hkind
        have href : ref = update := Option.some.inj (hslot'.symm.trans hupdateSlot)
        subst href
        refine ⟨place,existing,hkept place hplace existing hslot,?_⟩
        rw [hcount,if_pos (.inl rfl)]
        exact hgood.or_held (.inr hheld)
      · refine ⟨kind,ref,hkept kind hkind ref hslot',?_⟩
        rw [hcount]
        split
        · rename_i href
          obtain rfl | rfl := href
          · exact hgood.or_held (.inl hheld)
          · exact absurd (hsound.apart _ _ _ _ _ hslot' hupdateSlot) hkind
        · exact hheld

/-- Putting a good object into an empty entry of the chat. -/
theorem Counts.put (h : Counts n id d pending) (place : Kind) {ref : ℕ}
    (hempty : d.slot place id = none) (hgood : Good n (d.heap ref).unreadCount)
    (hplain : place = .update → (d.heap ref).conditional = none) (hheap : d'.heap = d.heap)
    (hslots : ∀ kind,d'.slot kind id = if kind = place then some ref else d.slot kind id) : Counts n id d' pending := by
  constructor
  · intro kind x hslot
    rw [hheap]
    rw [hslots] at hslot
    split at hslot
    · rw [← Option.some.inj hslot]
      exact hgood
    · exact h.entries kind x hslot
  · rw [hheap]
    exact h.awaiting
  · intro x hslot
    rw [hheap]
    rw [hslots] at hslot
    split at hslot
    · rename_i hkind
      rw [← Option.some.inj hslot]
      exact hplain hkind.symm
    · exact h.plain x hslot
  · obtain ⟨kind,x,hslot,hheld⟩ := h.held
    refine ⟨kind,x,?_,by rw [hheap,hheld]⟩
    rw [hslots]
    split
    · rename_i hkind
      rw [hkind,hempty] at hslot
      cases hslot
    · exact hslot

/-- A step that leaves objects and entries in place. -/
theorem Counts.rest (h : Counts n id d pending) (hheap : d'.heap = d.heap)
    (hslots : d'.slot = d.slot) : Counts n id d' pending :=
  ⟨by rw [hheap,hslots]; exact h.entries,by rw [hheap]; exact h.awaiting,
    by rw [hheap,hslots]; exact h.plain,by rw [hheap,hslots]; exact h.held⟩

/-- Fewer objects to be upserted. -/
theorem Counts.mono {fewer : List ℕ} (h : Counts n id d pending) (hfewer : fewer ⊆ pending) : Counts n id d fewer :=
  ⟨h.entries,fun ref href => h.awaiting ref (hfewer href),h.plain,h.held⟩

/-- A new object of another chat, or a good one. -/
theorem Counts.alloc (hsound : Sound d pending) (h : Counts n id d pending) {chat : Chat C}
    (hchat : chat.name = id → Good n chat.unreadCount) :
    Counts n id (UnreadCounts.alloc d chat) (pending++[d.next]) := by
  have hkeeps : Keeps id d (UnreadCounts.alloc d chat) :=
    ⟨(Touches.alloc id d chat).next,fun x hx _ => by
      have hne : x ≠ d.next := by omega
      simp [UnreadCounts.alloc,Function.update,hne],(Touches.alloc id d chat).names,
      fun kind => by rw [alloc_slot]⟩
  have hkept := h.keeps hsound hkeeps
  refine ⟨hkept.entries,?_,hkept.plain,hkept.held⟩
  intro ref href hname
  obtain hold | hnew := List.mem_append.mp href
  · exact hkept.awaiting ref hold hname
  · rw [List.mem_singleton.mp hnew] at hname ⊢
    have hobject : (UnreadCounts.alloc d chat).heap d.next = chat := by simp [UnreadCounts.alloc]
    rw [hobject] at hname ⊢
    exact hchat hname

/-- Putting a chat without a count into the history set. -/
theorem Counts.setHistoryChat (hn : n ≤ 0) (hsound : Sound d pending) (h : Counts n id d pending)
    {chat : ℕ} (hpending : chat ∈ pending) (hfree : ∀ kind id,d.slot kind id ≠ some chat) :
    Counts n id (setHistoryChat evaluate d chat) pending := by
  have hbelow : chat < d.next := hsound.pendingBelow chat hpending
  by_cases hname : (d.heap chat).name = id
  · unfold UnreadCounts.setHistoryChat
    simp only [hname]
    split
    · exact h
    · rename_i hnone
      split
      · exact h
      · have hput : Steps (d.heap chat).name d pending {d with
            history := d.history.set id chat
            historyCache := insert id d.historyCache} := by
          refine steps_put hsound .history hbelow hfree (fun _ => rfl) rfl rfl ?_
          intro kind other
          cases kind <;> simp [Data.slot,InsertionMap.get_set,hname,eq_comm]
        have hcounts : Counts n id {d with
            history := d.history.set id chat
            historyCache := insert id d.historyCache} pending := by
          refine h.put .history hnone (h.awaiting chat hpending hname) (by simp) rfl ?_
          intro kind
          cases kind <;> simp [Data.slot]
        exact hcounts.absorb hn hput.sound (by simp : Kind.history ≠ .update) (by simp [Data.slot])
  · exact h.keeps hsound (.of_touches (setHistoryChat_steps hsound hbelow hfree).touches
      (Ne.symm hname))

/-- Upserting a chat without a count, or one that the history set holds. -/
theorem Counts.upsertChat (hn : n ≤ 0) (hsound : Sound d pending) {chat : ℕ}
    (hbelow : chat < d.next) (hnew : chat ∉ pending)
    (hplace : ∀ kind id,d.slot kind id = some chat → kind = .history ∧ (d.heap chat).name ≠ "")
    (h : Counts n id d (pending++[chat])) : Counts n id (upsertChat evaluate d chat) pending := by
  have hcounts : Counts n id d pending := h.mono (List.subset_append_left _ _)
  by_cases hname : (d.heap chat).name = id
  · have hgood : Good n (d.heap chat).unreadCount :=
      h.awaiting chat (List.mem_append_right _ (List.mem_singleton_self chat)) hname
    have hdeletes (d' : Data C) (hcounts : Counts n id d' pending) :
        Counts n id {d' with deletes := d'.deletes.delete (d.heap chat).name} pending :=
      hcounts.rest rfl (by funext kind id; cases kind <;> rfl)
    unfold UnreadCounts.upsertChat
    apply hdeletes
    simp only [hname]
    split
    · rename_i existing hexisting
      obtain ⟨place,hplace',hslot⟩ : ∃ place,place ≠ .update ∧ d.slot place id = some existing := by
        cases hupsert : d.upserts.get id with
        | some found =>
          rw [hupsert] at hexisting
          exact ⟨.upsert,by simp,hupsert.trans hexisting⟩
        | none =>
          rw [hupsert] at hexisting
          split at hexisting
          · cases hexisting
          · exact ⟨.history,by simp,hexisting⟩
      have hsame : (d.heap existing).name = (d.heap chat).name :=
        (hsound.named _ _ _ hslot).trans hname.symm
      have hconcat : Counts n id (concatChats d existing chat) pending := by
        refine hcounts.concat hn hsame (hcounts.entries _ _ hslot) hgood ?_
        intro hupdate
        exact absurd (hsound.apart _ _ _ _ _ hslot hupdate) hplace'
      exact hconcat.absorb hn (hsound.concat hsame) hplace' (by rw [concatChats_slot,hslot])
    · rename_i hnone
      obtain ⟨hupsert,hhistory⟩ := Option.or_eq_none_iff.mp hnone
      have hfree (kind : Kind) (other : String) : d.slot kind other ≠ some chat := by
        intro hslot
        obtain ⟨rfl,hnamed⟩ := hplace kind other hslot
        have hother : other = id := (hsound.named _ _ _ hslot).symm.trans hname
        rw [if_neg (by rwa [hname] at hnamed)] at hhistory
        rw [hother] at hslot
        exact absurd (hslot.symm.trans hhistory) (by simp)
      have hput : Steps (d.heap chat).name d pending
          {d with upserts := d.upserts.set id chat} := by
        refine steps_put hsound .upsert hbelow hfree (fun hpending => absurd hpending hnew) rfl rfl ?_
        intro kind other
        cases kind <;> simp [Data.slot,InsertionMap.get_set,hname,eq_comm]
      have hcounts' : Counts n id {d with upserts := d.upserts.set id chat} pending := by
        refine hcounts.put .upsert hupsert hgood (by simp) rfl ?_
        intro kind
        cases kind <;> simp [Data.slot]
      exact hcounts'.absorb hn hput.sound (by simp : Kind.upsert ≠ .update) (by simp [Data.slot])
  · exact hcounts.keeps hsound (.of_touches (upsertChat_steps hsound hbelow hnew hplace).touches
      (Ne.symm hname))

/-- Applying a change without a count and without a condition. -/
theorem Counts.updateChat (hn : n ≤ 0) (hsound : Sound d pending) {update : ℕ}
    (hbelow : update < d.next) (hnew : update ∉ pending) (hfree : ∀ kind id,d.slot kind id ≠ some update)
    (hplain : (d.heap update).name = id → (d.heap update).conditional = none)
    (h : Counts n id d (pending++[update])) : Counts n id (updateChat evaluate d update) pending := by
  have hcounts : Counts n id d pending := h.mono (List.subset_append_left _ _)
  by_cases hname : (d.heap update).name = id
  · have hgood : Good n (d.heap update).unreadCount :=
      h.awaiting update (List.mem_append_right _ (List.mem_singleton_self update)) hname
    have hconcat (place : Kind) (existing : ℕ) (hslot : d.slot place id = some existing) :
        Counts n id (concatChats d existing update) pending :=
      hcounts.concat hn ((hsound.named _ _ _ hslot).trans hname.symm) (hcounts.entries _ _ hslot)
        hgood fun _ => hplain hname
    have hdeletes (d' : Data C) (hcounts : Counts n id d' pending) :
        Counts n id {d' with deletes := d'.deletes.delete (d.heap update).name} pending :=
      hcounts.rest rfl (by funext kind id; cases kind <;> rfl)
    unfold UnreadCounts.updateChat
    apply hdeletes
    simp only [hname,matchesData,hplain hname,dropCondition_none (hplain hname)]
    cases hhistory : d.history.get id with
    | some existing => exact hconcat .history existing hhistory
    | none =>
      cases hupsert : d.upserts.get id with
      | some existing => exact hconcat .upsert existing hupsert
      | none =>
        obtain ⟨kind,ref,hslot,-⟩ := hcounts.held
        have hupdate : d.updates.get id = some ref := by
          cases kind with
          | history => exact absurd (hslot.symm.trans hhistory) (by simp)
          | upsert => exact absurd (hslot.symm.trans hupsert) (by simp)
          | update => exact hslot
        simp only [Option.or_self,addUpdate,hupdate]
        exact hconcat .update ref hupdate
  · exact hcounts.keeps hsound (.of_touches (updateChat_steps hsound hbelow hnew hfree).touches
      (Ne.symm hname))

/-- A read message takes nothing from a count that is not positive. -/
theorem Counts.readMessage (hn : n ≤ 0) (hsound : Sound d pending) (h : Counts n id d pending)
    (chatId : String) : Counts n id (readMessage d chatId) pending := by
  by_cases hid : chatId = id
  · subst hid
    have hsame : UnreadCounts.readMessage d chatId = d := by
      unfold UnreadCounts.readMessage
      split
      · rfl
      · rename_i chat hchat
        have hgood : Good n (d.heap chat).unreadCount := by
          cases hupdate : d.updates.get chatId with
          | some found =>
            rw [hupdate] at hchat
            exact h.entries .update chat (hupdate.trans hchat)
          | none =>
            rw [hupdate] at hchat
            exact h.entries .upsert chat hchat
        obtain hgood | hgood := hgood
        · simp [hgood]
        · have hnot : ¬0 < n := by omega
          simp [hgood,hnot]
    rw [hsame]
    exact h
  · exact h.keeps hsound (.of_touches (readMessage_steps hsound chatId).touches (Ne.symm hid))

/-- Places and counts together. -/
def Marked (n : ℤ) (id : String) (d : Data C) (pending : List ℕ) : Prop :=
  Sound d pending ∧ Counts n id d pending

/-- A history event without a count for the chat. -/
theorem Marked.historySync (hn : n ≤ 0) (h : Marked n id d []) {chats : List HistoryChat}
    (cached : List String) (hfree : ∀ chat ∈ chats,chat.id = id → chat.unreadCount = none) :
    Marked n id (append evaluate d (.historySync chats cached)) [] := by
  have hset := @setHistory_rule C evaluate [] (Marked n id) chats ?_ d h
  · have hcached : Marked n id {(setHistory evaluate d chats).1 with historyCache :=
        (setHistory evaluate d chats).1.historyCache∪cached.toFinset}
        ((setHistory evaluate d chats).2++[]) := by
      rw [List.nil_append] at hset
      rw [List.append_nil]
      exact ⟨hset.1.cache _,hset.2.rest rfl (by funext kind id; cases kind <;> rfl)⟩
    refine @upserts_rule C evaluate [] (Marked n id) _ ?_ _ hcached
    rintro d' pending' ref - ⟨hsound,hcounts⟩
    refine ⟨(upsertChat_pending hsound).sound,?_⟩
    refine Counts.upsertChat hn hsound.tail (hsound.pendingBelow ref List.mem_cons_self)
      (List.nodup_cons.mp hsound.nodup).1 ?_ (hcounts.mono (by simp))
    intro kind name hslot
    exact ⟨hsound.pendingFree ref List.mem_cons_self kind name hslot,
      hsound.pendingNamed ref List.mem_cons_self⟩
  · rintro d' pending' ⟨hsound,hcounts⟩ chat hchat
    have hawait : Sound (UnreadCounts.alloc d' (chat.chat C)) (pending'++[d'.next]) := by
      refine (hsound.alloc (chat.chat C)).await (Nat.lt_succ_self d'.next) ?_ ?_ ?_
      · intro hpending
        have := hsound.pendingBelow _ hpending
        omega
      · simpa [UnreadCounts.alloc,HistoryChat.chat,Chat.name] using chat.named
      · intro kind name hslot
        rw [alloc_slot] at hslot
        exact absurd hslot (hsound.alloc_free kind name)
    refine ⟨(setHistoryChat_alloc hsound chat).2.1,?_⟩
    refine Counts.setHistoryChat hn hawait (Counts.alloc hsound hcounts ?_)
      (List.mem_append_right _ (List.mem_singleton_self _)) ?_
    · intro hname
      exact .inl (hfree chat hchat hname)
    · rw [alloc_slot]
      exact hsound.alloc_free

/-- Every event without a count for the chat leaves the mark. -/
theorem Marked.append (hn : n ≤ 0) (h : Marked n id d []) {event : Event C}
    (hfree : CountFree id event) : Marked n id (append evaluate d event) [] := by
  have hfresh {d' : Data C} (hsound : Sound d' []) (kind : Kind) (name : String) (chat : Chat C) :
      (UnreadCounts.alloc d' chat).slot kind name ≠ some d'.next := by
    rw [alloc_slot]
    exact hsound.alloc_free kind name
  cases event with
  | historySync chats cached => exact h.historySync hn cached hfree
  | chatsUpsert chats =>
    refine List.foldlRecOn (motive := fun d => Marked n id d []) chats _ h ?_
    rintro d' ⟨hsound,hcounts⟩ chat hchat
    have hcounts' := @Counts.alloc C n d' [] id hsound hcounts chat
      fun hname => .inl (hfree chat hchat hname)
    refine ⟨(upsertFresh_steps hsound chat).sound,?_⟩
    exact Counts.upsertChat hn (hsound.alloc chat) (Nat.lt_succ_self d'.next) (by simp)
      (fun kind name hslot => absurd hslot (hfresh hsound kind name chat)) hcounts'
  | chatsUpdate updates =>
    refine List.foldlRecOn (motive := fun d => Marked n id d []) updates _ h ?_
    rintro d' ⟨hsound,hcounts⟩ update hupdate
    have hcounts' := @Counts.alloc C n d' [] id hsound hcounts update
      fun hname => .inl (hfree update hupdate hname).1
    refine ⟨(updateFresh_steps hsound update).sound,?_⟩
    refine Counts.updateChat hn (hsound.alloc update) (Nat.lt_succ_self d'.next) (by simp)
      (fun kind name => hfresh hsound kind name update) ?_ hcounts'
    have hobject : (UnreadCounts.alloc d' update).heap d'.next = update := by
      simp [UnreadCounts.alloc]
    rw [hobject]
    exact fun hname => (hfree update hupdate hname).2
  | chatsDelete ids =>
    refine List.foldlRecOn (motive := fun d => Marked n id d []) ids _ h ?_
    rintro d' ⟨hsound,hcounts⟩ name hname
    have hne : id ≠ name := by
      rintro rfl
      exact hfree hname
    have hsteps := deleteChat_steps hsound name
    exact ⟨hsteps.sound,hcounts.keeps hsound (.of_touches hsteps.touches hne)⟩
  | messagesUpdate read =>
    refine List.foldlRecOn (motive := fun d => Marked n id d []) read _ h ?_
    rintro d' ⟨hsound,hcounts⟩ chatId -
    exact ⟨(readMessage_steps hsound chatId).sound,hcounts.readMessage hn hsound chatId⟩

/-- So does every run of them. -/
theorem Marked.appendAll (hn : n ≤ 0) (h : Marked n id d []) {events : List (Event C)}
    (hfree : ∀ event ∈ events,CountFree id event) : Marked n id (appendAll evaluate d events) [] := by
  refine List.foldlRecOn (motive := fun d => Marked n id d []) events _ h ?_
  intro d' h' event hevent
  exact h'.append hn (hfree event hevent)

/-- A marked chat is released with its mark. -/
theorem Marked.released (h : Marked n id d []) : ReleasedWith (flush d).1 id n := by
  obtain ⟨hsound,hcounts⟩ := h
  constructor
  · obtain ⟨kind,ref,hslot,hheld⟩ := hcounts.held
    refine ⟨d.heap ref,(mem_released_iff hsound _).mpr ⟨kind,id,ref,hslot,rfl,?_⟩,
      hsound.named _ _ _ hslot,hheld⟩
    rintro rfl
    simp [waits,hcounts.plain ref hslot]
  · intro chat hchat hname
    obtain ⟨kind,id',ref,hslot,rfl,-⟩ := (mem_released_iff hsound _).mp hchat
    have hid : id' = id := (hsound.named _ _ _ hslot).symm.trans hname
    rw [hid] at hslot
    exact hcounts.entries kind ref hslot

/-- The change of a mark. -/
def markUpdate (id : String) (read : Bool) : Chat C := ⟨some id,some (.number (markCount read)),none⟩

/-- A mark merged into an object is kept unless it is a read mark on a positive count. -/
theorem mergeObjects_mark (read : Bool) {heap : ℕ → Chat C} {left right : ℕ} (hmark : heap right = markUpdate id read) :
    ((mergeObjects heap left right left).unreadCount = some (.number (markCount read)) ↔
      (read = true → isPositive (heap left).unreadCount = false)) ∧
    (mergeObjects heap left right left).unreadCount ≠ none ∧
    (mergeObjects heap left right left).conditional = (heap left).conditional := by
  have hneutral : ¬((heap right).unreadCount = some .null ∧
      isNegative (heap left).unreadCount = true) := by
    rintro ⟨hnull,-⟩
    simp [hmark,markUpdate] at hnull
  unfold mergeObjects
  rw [if_neg hneutral,modify_self,hmark]
  cases hleft : (heap left).unreadCount with
  | none => simp [assign,summed,hleft,markUpdate,isPositive]
  | some count =>
    cases count with
    | number a =>
      cases read with
      | false => simp [assign,summed,hleft,markUpdate,markCount]
      | true => simp [assign,summed,hleft,markUpdate,markCount,isPositive,setUnread]
    | _ => simp [assign,summed,hleft,markUpdate,isPositive]

/-- The object of a mark. -/
theorem alloc_markUpdate (read : Bool) : (alloc d (markUpdate id read)).heap d.next = markUpdate id read := by
  simp [alloc]

theorem name_markUpdate (read : Bool) : ((alloc d (markUpdate id read)).heap d.next).name = id := by
  rw [alloc_markUpdate]
  rfl

theorem conditional_markUpdate (read : Bool) : ((alloc d (markUpdate id read)).heap d.next).conditional = none := by
  rw [alloc_markUpdate]
  rfl

/-- A mark is merged into the entry it meets. -/
theorem append_mark (read : Bool) {target : ℕ} (h : mergeTarget d id = some target) :
    (append evaluate d (markChatAsReadUpdate id read)).slot = d.slot ∧
      (append evaluate d (markChatAsReadUpdate id read)).heap =
        mergeObjects (alloc d (markUpdate id read)).heap target d.next := by
  have hname := @name_markUpdate C d id read
  have hplain := @conditional_markUpdate C d id read
  have happend : append evaluate d (markChatAsReadUpdate id read) =
      updateChat evaluate (alloc d (markUpdate id read)) d.next := rfl
  have hform : append evaluate d (markChatAsReadUpdate id read) =
      {concatChats (alloc d (markUpdate id read)) target d.next with
        deletes := d.deletes.delete id} := by
    rw [happend]
    unfold updateChat
    simp only [hname,matchesData,hplain,dropCondition_none hplain]
    have htarget : (((alloc d (markUpdate id read)).history.get id).or
        ((alloc d (markUpdate id read)).upserts.get id)).or
          ((alloc d (markUpdate id read)).updates.get id) = some target := h
    cases hfirst : ((alloc d (markUpdate id read)).history.get id).or
        ((alloc d (markUpdate id read)).upserts.get id) with
    | some existing =>
      rw [hfirst] at htarget
      have hsame : existing = target := Option.some.inj htarget
      rw [hsame]
      rfl
    | none =>
      rw [hfirst,Option.none_or] at htarget
      simp only [addUpdate,htarget]
      rfl
  rw [hform]
  refine ⟨?_,rfl⟩
  funext kind other
  cases kind <;> rfl

/-- A mark of a chat that is pending nowhere is pending as it is. -/
theorem append_mark_none (read : Bool) (h : mergeTarget d id = none) :
    ∃ ref,Only (append evaluate d (markChatAsReadUpdate id read)) id .update ref ∧
      (append evaluate d (markChatAsReadUpdate id read)).heap ref = markUpdate id read := by
  have hname := @name_markUpdate C d id read
  have hplain := @conditional_markUpdate C d id read
  have happend : append evaluate d (markChatAsReadUpdate id read) =
      updateChat evaluate (alloc d (markUpdate id read)) d.next := rfl
  obtain ⟨hfirst,hupdates⟩ := Option.or_eq_none_iff.mp h
  obtain ⟨hhistory,hupserts⟩ := Option.or_eq_none_iff.mp hfirst
  have hhistory' : (alloc d (markUpdate id read)).history.get id = none := hhistory
  have hupserts' : (alloc d (markUpdate id read)).upserts.get id = none := hupserts
  have hupdates' : (alloc d (markUpdate id read)).updates.get id = none := hupdates
  refine ⟨d.next+1,?_⟩
  rw [happend]
  unfold updateChat
  simp only [hname,matchesData,hplain,dropCondition_none hplain,hhistory',hupserts',Option.or_none,
    addUpdate,hupdates']
  have hcopy : concatChats (alloc (alloc d (markUpdate id read)) ⟨none,none,none⟩)
      (alloc d (markUpdate id read)).next d.next =
        alloc (alloc d (markUpdate id read)) (markUpdate id read) := by
    rw [concatChats_alloc (Nat.lt_succ_self d.next),alloc_markUpdate]
  rw [hcopy]
  refine ⟨⟨by simp [Data.slot,alloc],?_⟩,by simp [alloc]⟩
  intro kind hkind
  cases kind with
  | update => exact absurd rfl hkind
  | history => exact hhistory
  | upsert => exact hupserts

/-- The entry a mark meets is an entry of the chat. -/
theorem mergeTarget_slot {target : ℕ} (h : mergeTarget d id = some target) : ∃ kind,d.slot kind id = some target := by
  unfold mergeTarget at h
  cases hhistory : d.history.get id with
  | some found => exact ⟨.history,by simpa [hhistory,Data.slot] using h⟩
  | none =>
    cases hupsert : d.upserts.get id with
    | some found => exact ⟨.upsert,by simpa [hhistory,hupsert,Data.slot] using h⟩
    | none => exact ⟨.update,by simpa [hhistory,hupsert,Data.slot] using h⟩

/-- What a mark does to the objects: the entry it meets takes the mark, the others stay. -/
theorem append_mark_objects (hsound : Sound d []) (read : Bool) {target : ℕ}
    (h : mergeTarget d id = some target) : (append evaluate d (markChatAsReadUpdate id read)).slot = d.slot ∧
      ((((append evaluate d (markChatAsReadUpdate id read)).heap target).unreadCount =
          some (.number (markCount read)) ↔ (read = true → isPositive (d.heap target).unreadCount = false)) ∧
        ((append evaluate d (markChatAsReadUpdate id read)).heap target).unreadCount ≠ none ∧
        ((append evaluate d (markChatAsReadUpdate id read)).heap target).conditional =
          (d.heap target).conditional) ∧ ∀ x,x < d.next → x ≠ target →
        (append evaluate d (markChatAsReadUpdate id read)).heap x = d.heap x := by
  obtain ⟨hslots,hheap⟩ := @append_mark C evaluate d id read target h
  obtain ⟨kind,hslot⟩ := mergeTarget_slot h
  have hbelow : target < d.next := hsound.below kind id target hslot
  have hold (x : ℕ) (hx : x < d.next) : (alloc d (markUpdate id read)).heap x = d.heap x := by
    have hne : x ≠ d.next := by omega
    simp [alloc,hne]
  have hmerged := @mergeObjects_mark C id read (alloc d (markUpdate id read)).heap target d.next
    (alloc_markUpdate read)
  rw [hold target hbelow] at hmerged
  rw [hheap]
  refine ⟨hslots,hmerged,?_⟩
  intro x hx hne
  rw [mergeObjects_ne hne (by omega),hold x hx]

/-- A mark that is kept leaves the chat marked. -/
theorem MarkKept.marked {read : Bool} (h : MarkKept d id read) (hsound : Sound d [])
    (hplain : ∀ ref,d.updates.get id = some ref → (d.heap ref).conditional = none) :
    Marked (markCount read) id (append evaluate d (markChatAsReadUpdate id read)) [] := by
  refine ⟨(append_keeps hsound _).1,?_⟩
  cases htarget : mergeTarget d id with
  | none =>
    obtain ⟨ref,honly,hheap⟩ := @append_mark_none C evaluate d id read htarget
    have hsame {kind : Kind} {x : ℕ} (hslot : (append evaluate d
        (markChatAsReadUpdate id read)).slot kind id = some x) : x = ref := by
      by_cases hkind : kind = .update
      · rw [hkind,honly.slot] at hslot
        exact (Option.some.inj hslot).symm
      · rw [honly.others kind hkind] at hslot
        cases hslot
    constructor
    · intro kind x hslot
      rw [hsame hslot,hheap]
      exact .inr rfl
    · exact fun x hx => by cases hx
    · intro x hslot
      rw [hsame hslot,hheap]
      rfl
    · exact ⟨.update,ref,honly.slot,by rw [hheap]; rfl⟩
  | some target =>
    obtain ⟨hslots,htargetHeap,hrest⟩ := @append_mark_objects C evaluate d id hsound read target htarget
    obtain ⟨hcount,-,hcondition⟩ := htargetHeap
    have hheld := hcount.mpr fun hread => h.target hread target htarget
    constructor
    · intro kind x hslot
      rw [hslots] at hslot
      by_cases hx : x = target
      · rw [hx]
        exact .inr hheld
      · rw [hrest x (hsound.below _ _ _ hslot) hx]
        refine h.others kind x hslot ?_
        rw [htarget]
        exact fun hsame => hx (Option.some.inj hsame).symm
    · exact fun x hx => by cases hx
    · intro x hslot
      rw [hslots] at hslot
      by_cases hx : x = target
      · rw [hx,hcondition,← hx]
        exact hplain x hslot
      · rw [hrest x (hsound.below _ _ _ hslot) hx]
        exact hplain x hslot
    · obtain ⟨kind,hslot⟩ := mergeTarget_slot htarget
      exact ⟨kind,target,by rw [hslots,hslot],hheld⟩

end Marks

end Baileyrs.UnreadCounts
