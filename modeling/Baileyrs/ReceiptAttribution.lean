import Baileyrs.ReceiptBuffer

/-!
# Attribution of buffered receipts

What a window releases for a message and participant is compared with the
fold of the receipts emitted for them. Every receipt lies at one of two
places of its message: on the pending message, or among the receipts that
wait. An effect lemma says what one receipt of the bridge does to both places
and to the objects; each step then keeps the account of every message and
participant, as long as it avoids the branches that mix receipts up.
-/

namespace Baileyrs.ReceiptBuffer

open EventBuffer (MessageKey UpsertType stringifyMessageKey)
open LabelledRuns

/-- Fold a later receipt into an earlier one. -/
def merge : Option MessageUserReceipt → Option MessageUserReceipt → Option MessageUserReceipt
  | none,later => later
  | some earlier,none => some earlier
  | some earlier,some later => some (assign earlier later)

/-- Fold of the receipts of one message and participant. -/
def total (records : List Attributed) (key : WAMessageKey) : Option MessageUserReceipt :=
  records.foldl (fun found record =>
    if record.key = key then merge found (some record.receipt) else found) none

/-- What listeners have been handed for a message and participant if the
window is flushed now. -/
def released (s : State) (key : WAMessageKey) : Option MessageUserReceipt :=
  total (s.handed++consolidateEvents s) key

/-- Fold of the receipts emitted for a message and participant. -/
def expected (s : State) (key : WAMessageKey) : Option MessageUserReceipt := total s.received key

/-- Property name of a message. -/
def nameOf (key : WAMessageKey) : String := stringifyMessageKey key.toMessageKey

/-- Receipts an update of a message is folded into. -/
def target (data : Data) (name : String) : List ℕ :=
  match data.messageUpserts.get name with
  | some item => item.message.userReceipt
  | none => (data.messageReceipts.get name).elim [] MessageReceipts.userReceipt

/-- Receipts held by pending messages, with whose receipts they pass for. -/
def onMessages (s : State) : List (WAMessageKey × ℕ) :=
  s.data.messageUpserts.values.flatMap fun item => item.message.userReceipt.map fun address =>
    (⟨item.message.key,(s.objects address).userJid⟩,address)

/-- Receipts that wait, with whose receipts they pass for. -/
def inWaiting (s : State) : List (WAMessageKey × ℕ) :=
  s.data.messageReceipts.values.flatMap fun entry => entry.userReceipt.map fun address =>
    (entry.key,address)

/-- A receipt of the bridge meets only receipts of the same messages and the
same participant, and none that waits with a value it replaces. -/
structure Unmixed (s : State) (evt : CanonicalReceipt) : Prop where
  /-- A pending message it names is meant without participant. -/
  pending : ∀ key ∈ receiptKeys evt, ∀ item ∈ s.data.messageUpserts.get (nameOf key),
    (⟨item.message.key,none⟩ : WAMessageKey) = key
  /-- Receipts that wait for such a message do not contradict it. -/
  later : ∀ key ∈ receiptKeys evt, ∀ item ∈ s.data.messageUpserts.get (nameOf key),
    ∀ entry ∈ s.data.messageReceipts.get (nameOf key), ∀ address ∈ entry.userReceipt,
      assign (s.objects address) (receiptOf evt) = assign (receiptOf evt) (s.objects address)
  /-- Receipts it is folded into wait for the same message and participant. -/
  waiting : ∀ key ∈ receiptKeys evt, s.data.messageUpserts.get (nameOf key) = none →
    ∀ entry ∈ s.data.messageReceipts.get (nameOf key), entry.key = key
  /-- An object it is folded into says nothing new to whom it does not name. -/
  shared : ∀ holder ∈ onMessages s++inWaiting s, holder.1 ∉ receiptKeys evt →
    (∃ key ∈ receiptKeys evt, holder.2 ∈ target s.data (nameOf key)) →
      assign (s.objects holder.2) (receiptOf evt) = s.objects holder.2

/-- The pending message of a name if it holds receipts. -/
def heldAt (data : Data) (name : String) : Option Message :=
  (data.messageUpserts.get name).bind fun item =>
    if item.message.userReceipt = [] then none else some item.message

/-- A message of an upsert replaces none that holds receipts. -/
def Replaceable (data : Data) (key : MessageKey) : Prop :=
  stringifyMessageKey key ∉ data.historyMessages → heldAt data (stringifyMessageKey key) = none

/-- A change of a message that holds receipts assigns no other key. -/
def Unmoved (data : Data) (update : MessageKey × Option MessageKey) : Prop :=
  stringifyMessageKey update.1 ∉ data.historyMessages →
    ∀ message ∈ heldAt data (stringifyMessageKey update.1), ∀ key ∈ update.2, key = message.key

/-- Steps that mix no receipts up and drop none. -/
def Harmless (s : State) : Action → Prop
  | .receipt evt => Unmixed s evt
  | .messagesUpsert messages type =>
    changesType s type = false → ∀ key ∈ messages, Replaceable s.data key
  | .messagesUpdate updates => ∀ update ∈ updates, Unmoved s.data update
  | .messagesDelete keys => ∀ key ∈ keys, heldAt s.data (stringifyMessageKey key) = none
  | .historySet _ => True
  | .listenersReturn => ∀ holder ∈ onMessages s,
      merge (total s.handed holder.1) (some (s.objects holder.2)) = total s.handed holder.1
  | .listenersThrow => True

section Folding

@[simp] theorem merge_none (r : Option MessageUserReceipt) : merge r none = r := by
  cases r <;> rfl

@[simp] theorem none_merge (r : Option MessageUserReceipt) : merge none r = r := rfl

theorem assign_assoc (first second third : MessageUserReceipt) :
    assign (assign first second) third = assign first (assign second third) := by
  simp [assign,Option.or_assoc]

/-- A field keeps the value it is assigned. -/
theorem assign_self (r : MessageUserReceipt) : assign r r = r := by
  simp [assign]

theorem assign_twice (target source : MessageUserReceipt) :
    assign (assign target source) source = assign target source := by
  rw [assign_assoc,assign_self]

theorem merge_assoc (first second third : Option MessageUserReceipt) :
    merge (merge first second) third = merge first (merge second third) := by
  cases first <;> cases second <;> cases third <;> simp [merge,assign_assoc]

theorem merge_self (r : Option MessageUserReceipt) : merge r r = r := by
  cases r <;> simp [merge,assign_self]

@[simp] theorem total_nil (key : WAMessageKey) : total [] key = none := rfl

theorem total_from (records : List Attributed) (key : WAMessageKey) (found : Option MessageUserReceipt) :
    records.foldl (fun found record => if record.key = key then merge found (some record.receipt) else found) found =
      merge found (total records key) := by
  induction records generalizing found with
  | nil => simp
  | cons record rest ih =>
    rw [total,List.foldl_cons,List.foldl_cons,ih,ih]
    by_cases hk : record.key = key
    · rw [if_pos hk,if_pos hk,merge_assoc,none_merge]
    · rw [if_neg hk,if_neg hk,none_merge]

theorem total_cons (record : Attributed) (rest : List Attributed) (key : WAMessageKey) : total (record::rest) key =
      merge (if record.key = key then some record.receipt else none) (total rest key) := by
  rw [total,List.foldl_cons,total_from]
  by_cases hk : record.key = key <;> simp [hk]

/-- A concatenation folds to the fold of both parts. -/
theorem total_append (first second : List Attributed) (key : WAMessageKey) :
    total (first++second) key = merge (total first key) (total second key) := by
  rw [total,List.foldl_append,total_from]
  rfl

/-- Receipts of others do not count. -/
theorem total_of_others {records : List Attributed} {key : WAMessageKey}
    (h : ∀ record ∈ records, record.key ≠ key) : total records key = none := by
  induction records with
  | nil => rfl
  | cons record rest ih =>
    have hrest := ih fun other hmem => h other (List.mem_cons_of_mem _ hmem)
    have hhead : record.key ≠ key := h record List.mem_cons_self
    rw [total_cons,if_neg hhead,hrest,none_merge]

/-- The updates of one receipt fold to it for each of their keys. -/
theorem total_updates (keys : List WAMessageKey) (receipt : MessageUserReceipt)
    (key : WAMessageKey) : total (keys.map fun key => ⟨key,receipt⟩) key =
      if key ∈ keys then some receipt else none := by
  induction keys with
  | nil => rfl
  | cons first rest ih =>
    rw [List.map_cons,total_cons,ih]
    by_cases hf : first = key
    · by_cases hr : key ∈ rest <;> simp [hf,hr,merge,assign_self]
    · have hne : ¬key = first := fun h => hf h.symm
      simp [hf,hne]

/-- Of the records made from a map, those filed under one name count for a
key when all others are of other keys. -/
theorem total_values {β : Type} (m : InsertionMap String β) (f : β → List Attributed)
    (key : WAMessageKey) (name : String) (h : ∀ other value, m.get other = some value → other ≠ name →
      ∀ record ∈ f value, record.key ≠ key) :
    total (m.values.flatMap f) key = (m.get name).elim none fun value => total (f value) key := by
  have hentries : ∀ entries : List (String × β), (entries.map Prod.fst).Nodup →
      (∀ pair ∈ entries, pair.1 ≠ name → ∀ record ∈ f pair.2, record.key ≠ key) →
      total ((entries.map Prod.snd).flatMap f) key =
        (InsertionMap.find entries name).elim none fun value => total (f value) key := by
    intro entries
    induction entries with
    | nil =>
      intro hnodup hothers
      rfl
    | cons pair rest ih =>
      intro hnodup hothers
      obtain ⟨other,value⟩ := pair
      rw [List.map_cons,List.nodup_cons] at hnodup
      have hrest := ih hnodup.2 fun pair hmem => hothers pair (List.mem_cons_of_mem _ hmem)
      rw [List.map_cons,List.flatMap_cons,total_append,hrest,InsertionMap.find]
      by_cases hname : other = name
      · have habsent : InsertionMap.find rest name = none := by
          rw [InsertionMap.find_eq_none_iff,← hname]
          exact hnodup.1
        rw [if_pos hname,habsent]
        exact merge_none _
      · have hnone : total (f value) key = none :=
          total_of_others (hothers (other,value) List.mem_cons_self hname)
        rw [if_neg hname,hnone,none_merge]
  refine hentries m.entries m.nodup fun pair hmem hname => ?_
  exact h pair.1 pair.2 (InsertionMap.get_eq_some_iff.mpr hmem) hname

end Folding

section Places

/-- Receipt of a message and participant on the pending message. -/
def messageAddress (data : Data) (key : WAMessageKey) : Option ℕ :=
  (data.messageUpserts.get (nameOf key)).bind fun item =>
    if (⟨item.message.key,none⟩ : WAMessageKey) = key then item.message.userReceipt.head? else none

/-- Receipt of a message and participant that waits. -/
def waitingAddress (data : Data) (key : WAMessageKey) : Option ℕ :=
  (data.messageReceipts.get (nameOf key)).bind fun entry =>
    if entry.key = key then entry.userReceipt.head? else none

/-- Every place holds at most one receipt. -/
structure OnePerPlace (s : State) : Prop where
  /-- No receipt names its user. -/
  anonymous : ∀ address, (s.objects address).userJid = none
  /-- A pending message has at most one receipt. -/
  single : ∀ name item, s.data.messageUpserts.get name = some item →
    item.message.userReceipt.length ≤ 1
  /-- Where receipts wait there is one. -/
  filled : ∀ name entry, s.data.messageReceipts.get name = some entry →
    entry.userReceipt.length = 1

/-- Receipts are filed under the name of their message, one to a place. -/
structure Filed (s : State) : Prop extends OnePerPlace s where
  /-- A pending message with receipts has the key it is filed under. -/
  named : ∀ name item, s.data.messageUpserts.get name = some item →
    item.message.userReceipt ≠ [] → stringifyMessageKey item.message.key = name
  /-- Receipts wait under the name of their message. -/
  keyed : ∀ name entry, s.data.messageReceipts.get name = some entry → nameOf entry.key = name
  /-- Receipts of pending messages have been made. -/
  made : ∀ name item, s.data.messageUpserts.get name = some item →
    ∀ address ∈ item.message.userReceipt, address < s.fresh
  /-- Receipts that wait have been made. -/
  madeWaiting : ∀ name entry, s.data.messageReceipts.get name = some entry →
    ∀ address ∈ entry.userReceipt, address < s.fresh

variable {s : State}

theorem list_cases {l : List ℕ} (h : l.length ≤ 1) : l = [] ∨ ∃ address, l = [address] := by
  match l with
  | [] => exact Or.inl rfl
  | [address] => exact Or.inr ⟨address,rfl⟩
  | _::_::_ => simp at h

theorem OnePerPlace.held (ho : OnePerPlace s) {name : String} {item : Pending}
    (hi : s.data.messageUpserts.get name = some item) :
    item.message.userReceipt = [] ∨ ∃ address, item.message.userReceipt = [address] :=
  list_cases (ho.single name item hi)

theorem OnePerPlace.waits (hf : OnePerPlace s) {name : String} {entry : MessageReceipts}
    (he : s.data.messageReceipts.get name = some entry) : ∃ address, entry.userReceipt = [address] :=
  List.length_eq_one_iff.mp (hf.filled name entry he)

/-- Receipts released with pending messages, by place. -/
theorem total_releasedMessages (hf : Filed s) (key : WAMessageKey) :
    total (releasedMessages s) key = (messageAddress s.data key).map s.objects := by
  have hplace : total (releasedMessages s) key =
      (s.data.messageUpserts.get (nameOf key)).elim none fun item =>
        total (messageReceipts s.objects item) key := by
    refine total_values _ _ key (nameOf key) fun other item hitem hname record hrecord heq => ?_
    obtain ⟨address,haddress,hrec⟩ := List.mem_map.mp hrecord
    have hnonempty : item.message.userReceipt ≠ [] := List.ne_nil_of_mem haddress
    have hkey : key.toMessageKey = item.message.key := by rw [← heq,← hrec]
    refine hname ?_
    rw [nameOf,hkey]
    exact (hf.named other item hitem hnonempty).symm
  rw [hplace,messageAddress]
  cases hget : s.data.messageUpserts.get (nameOf key) with
  | none => rfl
  | some item =>
    rcases hf.held hget with hl | ⟨address,hl⟩
    · simp [messageReceipts,hl]
    · have huser := hf.anonymous address
      by_cases hk : (⟨item.message.key,none⟩ : WAMessageKey) = key <;>
        simp [messageReceipts,hl,huser,total_cons,hk]

/-- Receipts released as updates, by place. -/
theorem total_releasedUpdates (hf : Filed s) (key : WAMessageKey) :
    total (releasedUpdates s) key = (waitingAddress s.data key).map s.objects := by
  have hplace : total (releasedUpdates s) key =
      (s.data.messageReceipts.get (nameOf key)).elim none fun entry =>
        total (receiptUpdates s.objects entry) key := by
    refine total_values _ _ key (nameOf key) fun other entry hentry hname record hrecord heq => ?_
    obtain ⟨address,haddress,hrec⟩ := List.mem_map.mp hrecord
    have hkey : key = entry.key := by rw [← heq,← hrec]
    refine hname ?_
    rw [hkey]
    exact (hf.keyed other entry hentry).symm
  rw [hplace,waitingAddress]
  cases hget : s.data.messageReceipts.get (nameOf key) with
  | none => rfl
  | some entry =>
    obtain ⟨address,hl⟩ := hf.waits hget
    by_cases hk : entry.key = key <;> simp [receiptUpdates,hl,total_cons,hk]

/-- What is released is what was handed over, then what lies on the pending
message, then what waits. -/
theorem released_eq (hf : Filed s) (key : WAMessageKey) : released s key = merge (total s.handed key)
      (merge ((messageAddress s.data key).map s.objects) ((waitingAddress s.data key).map s.objects)) := by
  rw [released,consolidateEvents,total_append,total_append,total_releasedMessages hf,
    total_releasedUpdates hf]

theorem mem_onMessages (hf : Filed s) {key : WAMessageKey} {address : ℕ}
    (h : messageAddress s.data key = some address) : (key,address) ∈ onMessages s := by
  obtain ⟨item,hget,hitem⟩ := Option.bind_eq_some_iff.mp h
  by_cases hk : (⟨item.message.key,none⟩ : WAMessageKey) = key
  · rw [if_pos hk] at hitem
    have hvalue : item ∈ s.data.messageUpserts.values :=
      InsertionMap.mem_values_iff.mpr ⟨nameOf key,hget⟩
    have hmem : address ∈ item.message.userReceipt := List.mem_of_mem_head? hitem
    refine List.mem_flatMap.mpr ⟨item,hvalue,List.mem_map.mpr ⟨address,hmem,?_⟩⟩
    rw [hf.anonymous address,hk]
  · rw [if_neg hk] at hitem
    cases hitem

theorem mem_inWaiting {key : WAMessageKey} {address : ℕ}
    (h : waitingAddress s.data key = some address) : (key,address) ∈ inWaiting s := by
  obtain ⟨entry,hget,hentry⟩ := Option.bind_eq_some_iff.mp h
  by_cases hk : entry.key = key
  · rw [if_pos hk] at hentry
    have hvalue : entry ∈ s.data.messageReceipts.values :=
      InsertionMap.mem_values_iff.mpr ⟨nameOf key,hget⟩
    have hmem : address ∈ entry.userReceipt := List.mem_of_mem_head? hentry
    refine List.mem_flatMap.mpr ⟨entry,hvalue,List.mem_map.mpr ⟨address,hmem,?_⟩⟩
    rw [hk]
  · rw [if_neg hk] at hentry
    cases hentry

end Places

section Effects

variable {s mid next : State} {receipt : ℕ}

theorem updateMessageWithReceipt_nil (objects : Objects) :
    updateMessageWithReceipt objects [] receipt = (objects,[receipt]) := rfl

theorem updateMessageWithReceipt_singleton (receipt : ℕ) {objects : Objects}
    (h : ∀ address, (objects address).userJid = none) (address : ℕ) :
    updateMessageWithReceipt objects [address] receipt =
      (Function.update objects address (assign (objects address) (objects receipt)),[address]) := by
  simp [updateMessageWithReceipt,h]

/-- A pending message keeps its receipt and takes another only without one. -/
def taking (receipt : ℕ) (item : Pending) : Pending :=
  if item.message.userReceipt = [] then item.withReceipts [receipt] else item

/-- What the updates of one receipt do. -/
structure Effect (receipt : ℕ) (s next : State) (keys : List WAMessageKey) : Prop where
  /-- A pending message they name has the receipt if it had none. -/
  upserts : ∀ name, next.data.messageUpserts.get name =
    (s.data.messageUpserts.get name).map fun item =>
      if name ∈ keys.map nameOf then taking receipt item else item
  /-- For another message they name the receipt waits if none did. -/
  waiting : ∀ key ∈ keys, s.data.messageUpserts.get (nameOf key) = none →
    next.data.messageReceipts.get (nameOf key) =
      some ((s.data.messageReceipts.get (nameOf key)).getD ⟨key,[receipt]⟩)
  /-- Nothing else waits. -/
  others : ∀ name, (name ∈ keys.map nameOf → s.data.messageUpserts.get name ≠ none) →
    next.data.messageReceipts.get name = s.data.messageReceipts.get name
  /-- Objects found in their places take the receipt. -/
  objects : ∀ address, next.objects address =
    if ∃ key ∈ keys, address ∈ target s.data (nameOf key) then
      assign (s.objects address) (s.objects receipt)
    else s.objects address
  /-- All else stays. -/
  frame : next = {s with
    objects := next.objects
    data := {s.data with
      messageUpserts := next.data.messageUpserts
      messageReceipts := next.data.messageReceipts}}

theorem Effect.nil : Effect receipt s s [] where
  upserts name := by simp
  waiting key hkey := by cases hkey
  others name h := rfl
  objects address := by simp
  frame := rfl

/-- The receipt itself does not change. -/
theorem Effect.receipt_eq {keys : List WAMessageKey} (he : Effect receipt s next keys) :
    next.objects receipt = s.objects receipt := by
  rw [he.objects]
  split
  · exact assign_self _
  · rfl

theorem mem_target_singleton {key : WAMessageKey} {address : ℕ} :
    (∃ other ∈ [key], address ∈ target s.data (nameOf other)) ↔ address ∈ target s.data (nameOf key) := by
  simp

/-- Without a receipt in its place an update changes no object. -/
theorem objects_kept {key : WAMessageKey} (h : target s.data (nameOf key) = []) (address : ℕ) :
    s.objects address = if ∃ other ∈ [key], address ∈ target s.data (nameOf other) then
      assign (s.objects address) (s.objects receipt) else s.objects address := by
  have habsent : ¬∃ other ∈ [key], address ∈ target s.data (nameOf other) := by
    rw [mem_target_singleton,h]
    exact List.not_mem_nil
  rw [if_neg habsent]

/-- An update assigns to the receipt in its place. -/
theorem objects_assigned {key : WAMessageKey} {held : ℕ} (h : target s.data (nameOf key) = [held]) (address : ℕ) :
    Function.update s.objects held (assign (s.objects held) (s.objects receipt)) address =
      if ∃ other ∈ [key], address ∈ target s.data (nameOf other) then
        assign (s.objects address) (s.objects receipt) else s.objects address := by
  have hiff : (∃ other ∈ [key], address ∈ target s.data (nameOf other)) ↔ address = held := by
    rw [mem_target_singleton,h,List.mem_singleton]
  by_cases ha : address = held
  · rw [if_pos (hiff.mpr ha),ha,Function.update_self]
  · have hno : ¬∃ other ∈ [key], address ∈ target s.data (nameOf other) :=
      fun hmem => ha (hiff.mp hmem)
    rw [if_neg hno,Function.update_of_ne ha]

/-- One update of a pending message. -/
theorem appendReceipt_pending (ho : OnePerPlace s) {key : WAMessageKey} {item : Pending}
    (hget : s.data.messageUpserts.get (nameOf key) = some item) :
    Effect receipt s (appendReceipt receipt s key) [key] := by
  have hupserts : ∀ name,
      (s.data.messageUpserts.set (nameOf key) (taking receipt item)).get name =
        (s.data.messageUpserts.get name).map fun item =>
          if name ∈ [key].map nameOf then taking receipt item else item := by
    intro name
    by_cases hname : nameOf key = name
    · subst hname
      simp [hget]
    · have hne : ¬name = nameOf key := fun h => hname h.symm
      simp [InsertionMap.get_set_ne _ _ hname,hne]
  have hwaiting : ∀ other ∈ [key], s.data.messageUpserts.get (nameOf other) ≠ none := by
    intro other hother
    rw [List.mem_singleton.mp hother,hget]
    exact Option.some_ne_none item
  have hupdate := updateMessageWithReceipt_singleton receipt ho.anonymous
  rcases ho.held hget with hl | ⟨held,hl⟩
  · have happend : appendReceipt receipt s key = {s with
        data := {s.data with messageUpserts :=
          s.data.messageUpserts.set (nameOf key) (taking receipt item)}} := by
      rw [taking,if_pos hl]
      rw [nameOf] at hget
      simp only [appendReceipt,hget,hl,updateMessageWithReceipt_nil,nameOf]
    have hplace : target s.data (nameOf key) = [] := by simp [target,hget,hl]
    rw [happend]
    exact ⟨hupserts,fun other hother hnone => absurd hnone (hwaiting other hother),
      fun _ _ => rfl,objects_kept hplace,rfl⟩
  · have hsame : item.withReceipts [held] = item := by rw [← hl]; rfl
    have happend : appendReceipt receipt s key = {s with
        objects := Function.update s.objects held (assign (s.objects held) (s.objects receipt))
        data := {s.data with messageUpserts :=
          s.data.messageUpserts.set (nameOf key) (taking receipt item)}} := by
      rw [taking,if_neg (by simp [hl])]
      rw [nameOf] at hget
      simp only [appendReceipt,hget,hl,hupdate,nameOf,hsame]
    have hplace : target s.data (nameOf key) = [held] := by simp [target,hget,hl]
    rw [happend]
    exact ⟨hupserts,fun other hother hnone => absurd hnone (hwaiting other hother),
      fun _ _ => rfl,objects_assigned hplace,rfl⟩

/-- One update of another message. -/
theorem appendReceipt_waiting (ho : OnePerPlace s) {key : WAMessageKey}
    (hget : s.data.messageUpserts.get (nameOf key) = none) : Effect receipt s (appendReceipt receipt s key) [key] := by
  have hupserts : ∀ name, s.data.messageUpserts.get name =
      (s.data.messageUpserts.get name).map fun item =>
        if name ∈ [key].map nameOf then taking receipt item else item := by
    intro name
    cases hname : s.data.messageUpserts.get name with
    | none => rfl
    | some item =>
      have hne : ¬name = nameOf key := by
        intro h
        rw [h,hget] at hname
        cases hname
      simp [hne]
  have hothers : ∀ value name, (name ∈ [key].map nameOf → s.data.messageUpserts.get name ≠ none) →
      (s.data.messageReceipts.set (nameOf key) value).get name =
        s.data.messageReceipts.get name := by
    intro value name hnamed
    have hne : nameOf key ≠ name := by
      intro h
      exact hnamed (by simp [h]) (by rw [← h,hget])
    exact InsertionMap.get_set_ne _ _ hne
  have hupdate := updateMessageWithReceipt_singleton receipt ho.anonymous
  cases hwait : s.data.messageReceipts.get (nameOf key) with
  | none =>
    have happend : appendReceipt receipt s key = {s with
        data := {s.data with messageReceipts :=
          s.data.messageReceipts.set (nameOf key) ⟨key,[receipt]⟩}} := by
      rw [nameOf] at hget hwait
      simp only [appendReceipt,hget,hwait,Option.getD_none,updateMessageWithReceipt_nil,nameOf]
    have hplace : target s.data (nameOf key) = [] := by simp [target,hget,hwait]
    rw [happend]
    refine ⟨hupserts,fun other hother _ => ?_,hothers _,objects_kept hplace,rfl⟩
    rw [List.mem_singleton.mp hother,hwait]
    exact InsertionMap.get_set_self _ _ _
  | some entry =>
    obtain ⟨held,hl⟩ := ho.waits hwait
    have hsame : {entry with userReceipt := [held]} = entry := by rw [← hl]
    have happend : appendReceipt receipt s key = {s with
        objects := Function.update s.objects held (assign (s.objects held) (s.objects receipt))
        data := {s.data with messageReceipts :=
          s.data.messageReceipts.set (nameOf key) {entry with userReceipt := [held]}}} := by
      rw [nameOf] at hget hwait
      simp only [appendReceipt,hget,hwait,Option.getD_some,hl,hupdate,nameOf]
    have hplace : target s.data (nameOf key) = [held] := by simp [target,hget,hwait,hl]
    rw [happend,hsame]
    refine ⟨hupserts,fun other hother _ => ?_,hothers _,objects_assigned hplace,rfl⟩
    rw [List.mem_singleton.mp hother,hwait]
    exact InsertionMap.get_set_self _ _ _

/-- One update. -/
theorem appendReceipt_effect (ho : OnePerPlace s) (key : WAMessageKey) :
    Effect receipt s (appendReceipt receipt s key) [key] := by
  cases hget : s.data.messageUpserts.get (nameOf key) with
  | some item => exact appendReceipt_pending ho hget
  | none => exact appendReceipt_waiting ho hget

theorem taking_taking (item : Pending) : taking receipt (taking receipt item) = taking receipt item := by
  by_cases hl : item.message.userReceipt = []
  · simp [taking,hl,Pending.withReceipts]
  · simp [taking,hl]

theorem taking_length {item : Pending} (h : item.message.userReceipt.length ≤ 1) :
    (taking receipt item).message.userReceipt.length ≤ 1 := by
  unfold taking
  split
  · exact Nat.le_refl 1
  · exact h

variable {keys : List WAMessageKey}

/-- Updates leave messages pending that were. -/
theorem Effect.upserts_none (he : Effect receipt s next keys) (name : String) :
    next.data.messageUpserts.get name = none ↔ s.data.messageUpserts.get name = none := by
  rw [he.upserts,Option.map_eq_none_iff]

/-- What waits after the updates waited before or is the receipt. -/
theorem Effect.receipts_cases (he : Effect receipt s next keys) (name : String) :
    next.data.messageReceipts.get name = s.data.messageReceipts.get name ∨
      s.data.messageReceipts.get name = none ∧ ∃ key ∈ keys, nameOf key = name ∧
        next.data.messageReceipts.get name = some ⟨key,[receipt]⟩ := by
  by_cases hnamed : name ∈ keys.map nameOf ∧ s.data.messageUpserts.get name = none
  · obtain ⟨key,hkey,hname⟩ := List.mem_map.mp hnamed.1
    subst hname
    have hwaiting := he.waiting key hkey hnamed.2
    cases hget : s.data.messageReceipts.get (nameOf key) with
    | none =>
      rw [hget] at hwaiting
      exact Or.inr ⟨rfl,key,hkey,rfl,hwaiting⟩
    | some entry =>
      rw [hget] at hwaiting
      exact Or.inl hwaiting
  · refine Or.inl (he.others name fun hmem hnone => ?_)
    exact hnamed ⟨hmem,hnone⟩

theorem Effect.onePerPlace (he : Effect receipt s next keys) (ho : OnePerPlace s) :
    OnePerPlace next where
  anonymous address := by
    rw [he.objects]
    split
    · simp [assign,ho.anonymous]
    · exact ho.anonymous address
  single name item hitem := by
    rw [he.upserts] at hitem
    obtain ⟨old,hold,hitem⟩ := Option.map_eq_some_iff.mp hitem
    have hlength := ho.single name old hold
    rw [← hitem]
    split
    · exact taking_length hlength
    · exact hlength
  filled name entry hentry := by
    rcases he.receipts_cases name with hsame | ⟨_,key,_,_,hnew⟩
    · exact ho.filled name entry (hsame.symm.trans hentry)
    · rw [hnew] at hentry
      cases hentry
      rfl

/-- Updates put no other receipt in a place. -/
theorem Effect.mem_target (he : Effect receipt s next keys) (name : String) {address : ℕ}
    (hne : address ≠ receipt) : address ∈ target next.data name ↔ address ∈ target s.data name := by
  unfold target
  rw [he.upserts]
  cases hget : s.data.messageUpserts.get name with
  | some item =>
    rw [Option.map_some]
    by_cases hl : item.message.userReceipt = []
    · by_cases hname : name ∈ keys.map nameOf
      · rw [if_pos hname,taking,if_pos hl]
        simp [Pending.withReceipts,hl,hne]
      · rw [if_neg hname]
    · have hkeeps : taking receipt item = item := if_neg hl
      rw [hkeeps,ite_self]
  | none =>
    rw [Option.map_none]
    rcases he.receipts_cases name with hsame | ⟨hold,key,_,_,hnew⟩
    · rw [hsame]
    · rw [hnew,hold]
      simp [hne]

/-- One update and then others. -/
theorem Effect.cons {key : WAMessageKey} {rest : List WAMessageKey}
    (hfirst : Effect receipt s mid [key]) (hrest : Effect receipt mid next rest)
    (hinj : ∀ other ∈ rest, nameOf other = nameOf key → other = key) :
    Effect receipt s next (key::rest) where
  upserts name := by
    rw [hrest.upserts,hfirst.upserts,Option.map_map]
    congr 1
    funext item
    by_cases hk : name = nameOf key
    · by_cases hr : name ∈ rest.map nameOf <;> simp [hk,taking_taking]
    · by_cases hr : name ∈ rest.map nameOf <;> simp [hk]
  waiting other hother hnone := by
    have hmid : mid.data.messageUpserts.get (nameOf other) = none :=
      (hfirst.upserts_none _).mpr hnone
    by_cases hname : nameOf other = nameOf key
    · have heq : other = key := by
        rcases List.mem_cons.mp hother with heq | hmem
        · exact heq
        · exact hinj other hmem hname
      subst heq
      have hwaiting := hfirst.waiting other List.mem_cons_self hnone
      by_cases hmem : other ∈ rest
      · rw [hrest.waiting other hmem hmid,hwaiting,Option.getD_some]
      · have hlater : nameOf other ∉ rest.map nameOf := by
          intro hlater
          obtain ⟨again,hagain,hsame⟩ := List.mem_map.mp hlater
          exact hmem (hinj again hagain hsame ▸ hagain)
        rw [hrest.others _ fun hin => absurd hin hlater,hwaiting]
    · have hmem : other ∈ rest := by
        rcases List.mem_cons.mp hother with heq | hmem
        · exact absurd (congrArg nameOf heq) hname
        · exact hmem
      have hbefore : mid.data.messageReceipts.get (nameOf other) =
          s.data.messageReceipts.get (nameOf other) := by
        refine hfirst.others _ fun hin => ?_
        obtain ⟨single,hsingle,hsame⟩ := List.mem_map.mp hin
        rw [List.mem_singleton.mp hsingle] at hsame
        exact absurd hsame.symm hname
      rw [hrest.waiting other hmem hmid,hbefore]
  others name hnamed := by
    have hfirstNamed : name ∈ [key].map nameOf → s.data.messageUpserts.get name ≠ none := by
      intro hin
      exact hnamed (by simp_all)
    have hrestNamed : name ∈ rest.map nameOf → mid.data.messageUpserts.get name ≠ none := by
      intro hin hnone
      exact hnamed (List.mem_cons_of_mem _ hin) ((hfirst.upserts_none name).mp hnone)
    rw [hrest.others name hrestNamed,hfirst.others name hfirstNamed]
  objects address := by
    have hreceipt := hfirst.receipt_eq
    rw [hrest.objects,hreceipt,hfirst.objects]
    by_cases ha : address = receipt
    · subst ha
      simp [assign_self]
    · simp only [hfirst.mem_target _ ha,List.exists_mem_cons_iff]
      by_cases hk : address ∈ target s.data (nameOf key)
      · simp [hk,assign_twice]
      · simp [hk]
  frame := by
    calc next = {mid with
          objects := next.objects
          data := {mid.data with
            messageUpserts := next.data.messageUpserts
            messageReceipts := next.data.messageReceipts}} := hrest.frame
      _ = _ := by rw [hfirst.frame]

/-- The updates of one receipt, whose names are told apart. -/
theorem appendReceipts_effect (ho : OnePerPlace s)
    (hinj : ∀ first ∈ keys, ∀ second ∈ keys, nameOf first = nameOf second → first = second) :
    Effect receipt s (keys.foldl (appendReceipt receipt) s) keys := by
  induction keys generalizing s with
  | nil => exact Effect.nil
  | cons key rest ih =>
    have hfirst : Effect receipt s (appendReceipt receipt s key) [key] :=
      appendReceipt_effect ho key
    have hrest := ih (hfirst.onePerPlace ho) fun first hf second hs =>
      hinj first (List.mem_cons_of_mem _ hf) second (List.mem_cons_of_mem _ hs)
    exact hfirst.cons hrest fun other hother =>
      hinj other (List.mem_cons_of_mem _ hother) key List.mem_cons_self

end Effects

section Receipts

variable {s next : State} {receipt : ℕ} {keys : List WAMessageKey} {evt : CanonicalReceipt}

/-- The messages of one receipt have different names. -/
theorem receiptKeys_injective {first second : WAMessageKey} (hf : first ∈ receiptKeys evt)
    (hs : second ∈ receiptKeys evt) (h : nameOf first = nameOf second) : first = second := by
  obtain ⟨id,_,hid⟩ := List.mem_map.mp hf
  obtain ⟨other,_,hother⟩ := List.mem_map.mp hs
  subst hid hother
  have hlist := congrArg String.toList h
  have hsame : id = other := by
    simpa [nameOf,stringifyMessageKey,String.toList_append,String.toList_inj] using hlist
  rw [hsame]

theorem receiptOf_anonymous (evt : CanonicalReceipt) : (receiptOf evt).userJid = none := by
  unfold receiptOf
  split <;> rfl

/-- Pending messages that are named are meant by their own key. -/
def MeansPending (s : State) (keys : List WAMessageKey) : Prop :=
  ∀ key ∈ keys, ∀ item, s.data.messageUpserts.get (nameOf key) = some item →
    (⟨item.message.key,none⟩ : WAMessageKey) = key

theorem taking_key (item : Pending) : (taking receipt item).message.key = item.message.key := by
  unfold taking
  split <;> rfl

theorem taking_head (item : Pending) : (taking receipt item).message.userReceipt.head? =
    some (item.message.userReceipt.head?.getD receipt) := by
  unfold taking
  split
  · rename_i hl
    rw [hl]
    rfl
  · rename_i hl
    obtain ⟨address,rest,hcons⟩ := List.exists_cons_of_ne_nil hl
    rw [hcons]
    rfl

/-- A named pending message holds the receipt, or the one it had. -/
theorem Effect.messageAddress_named (he : Effect receipt s next keys) (hm : MeansPending s keys)
    {key : WAMessageKey} (hkey : key ∈ keys) {item : Pending}
    (hget : s.data.messageUpserts.get (nameOf key) = some item) :
    messageAddress next.data key = some ((messageAddress s.data key).getD receipt) := by
  have hmeant := hm key hkey item hget
  have hnamed : nameOf key ∈ keys.map nameOf := List.mem_map_of_mem hkey
  simp [messageAddress,he.upserts,hget,hnamed,taking_key,hmeant,taking_head]

/-- A message that is not pending holds no receipt. -/
theorem messageAddress_absent {data : Data} {key : WAMessageKey}
    (hget : data.messageUpserts.get (nameOf key) = none) : messageAddress data key = none := by
  rw [messageAddress,hget]
  rfl

/-- For another message the receipt waits, or the one that did. -/
theorem Effect.waitingAddress_named (he : Effect receipt s next keys) {key : WAMessageKey}
    (hkey : key ∈ keys) (hget : s.data.messageUpserts.get (nameOf key) = none)
    (ho : OnePerPlace s) (hw : ∀ entry ∈ s.data.messageReceipts.get (nameOf key), entry.key = key) :
    waitingAddress next.data key = some ((waitingAddress s.data key).getD receipt) := by
  have hwaiting := he.waiting key hkey hget
  cases hold : s.data.messageReceipts.get (nameOf key) with
  | none =>
    rw [hold] at hwaiting
    simp [waitingAddress,hwaiting,hold]
  | some entry =>
    obtain ⟨address,hl⟩ := ho.waits hold
    have hentry : entry.key = key := hw entry hold
    rw [hold] at hwaiting
    simp [waitingAddress,hwaiting,hold,hentry,hl]

/-- The updates leave the places of others. -/
theorem Effect.messageAddress_other (he : Effect receipt s next keys) (hm : MeansPending s keys)
    {key : WAMessageKey} (hkey : key ∉ keys) : messageAddress next.data key = messageAddress s.data key := by
  rw [messageAddress,messageAddress,he.upserts]
  cases hget : s.data.messageUpserts.get (nameOf key) with
  | none => rfl
  | some item =>
    by_cases hnamed : nameOf key ∈ keys.map nameOf
    · obtain ⟨other,hother,hname⟩ := List.mem_map.mp hnamed
      have hmeant := hm other hother item (by rw [hname,hget])
      have hne : ¬(⟨item.message.key,none⟩ : WAMessageKey) = key := by
        rw [hmeant]
        exact fun h => hkey (h ▸ hother)
      simp [taking_key,hne,apply_ite Pending.message,apply_ite Message.key]
    · simp [hnamed]

theorem Effect.waitingAddress_other (he : Effect receipt s next keys) {key : WAMessageKey}
    (hkey : key ∉ keys) : waitingAddress next.data key = waitingAddress s.data key := by
  rcases he.receipts_cases (nameOf key) with hsame | ⟨hold,other,hother,_,hnew⟩
  · rw [waitingAddress,waitingAddress,hsame]
  · have hne : ¬other = key := fun h => hkey (h ▸ hother)
    simp [waitingAddress,hnew,hold,hne]

/-- Where a pending message is named nothing starts to wait. -/
theorem Effect.waitingAddress_pending (he : Effect receipt s next keys) {key : WAMessageKey}
    (hget : s.data.messageUpserts.get (nameOf key) ≠ none) :
    waitingAddress next.data key = waitingAddress s.data key := by
  rw [waitingAddress,waitingAddress,he.others _ fun _ => hget]

theorem Filed.emitReceipt (hf : Filed s) (evt : CanonicalReceipt) :
    OnePerPlace (emitReceipt s evt) where
  anonymous address := by
    by_cases ha : address = s.fresh
    · subst ha
      simp [ReceiptBuffer.emitReceipt,receiptOf_anonymous]
    · simp [ReceiptBuffer.emitReceipt,Function.update_of_ne ha,hf.anonymous]
  single := hf.single
  filled := hf.filled

/-- What a receipt of the bridge does. -/
theorem dispatchReceipt_effect (hf : Filed s) (evt : CanonicalReceipt) :
    Effect s.fresh (emitReceipt s evt) (dispatchReceipt s evt) (receiptKeys evt) :=
  appendReceipts_effect (hf.emitReceipt evt) fun _ hfirst _ hsecond =>
    receiptKeys_injective hfirst hsecond

theorem Unmixed.meansPending (hu : Unmixed s evt) : MeansPending s (receiptKeys evt) :=
  fun key hkey item hget => hu.pending key hkey item hget

/-- A receipt of the bridge is filed under the names of its messages. -/
theorem Filed.dispatchReceipt (hf : Filed s) (hm : MeansPending s (receiptKeys evt)) :
    Filed (dispatchReceipt s evt) := by
  have he := dispatchReceipt_effect hf evt
  have hfresh : (ReceiptBuffer.dispatchReceipt s evt).fresh = s.fresh+1 :=
    congrArg State.fresh he.frame
  refine {he.onePerPlace (hf.emitReceipt evt) with
    named := fun name item hitem hl => ?_
    keyed := fun name entry hentry => ?_
    made := fun name item hitem address ha => ?_
    madeWaiting := fun name entry hentry address ha => ?_}
  · rw [he.upserts] at hitem
    obtain ⟨old,hold,hitem⟩ := Option.map_eq_some_iff.mp hitem
    by_cases hnamed : name ∈ (receiptKeys evt).map nameOf
    · obtain ⟨key,hkey,hname⟩ := List.mem_map.mp hnamed
      have hmeant := hm key hkey old (by rw [hname]; exact hold)
      rw [if_pos hnamed] at hitem
      rw [← hitem,taking_key,← hname,← hmeant]
      rfl
    · rw [if_neg hnamed] at hitem
      rw [← hitem] at hl ⊢
      exact hf.named name old hold hl
  · rcases he.receipts_cases name with hsame | ⟨_,key,_,hname,hnew⟩
    · exact hf.keyed name entry (hsame.symm.trans hentry)
    · rw [hnew] at hentry
      cases hentry
      exact hname
  · rw [he.upserts] at hitem
    obtain ⟨old,hold,hitem⟩ := Option.map_eq_some_iff.mp hitem
    have hbelow : ∀ address ∈ old.message.userReceipt, address < s.fresh+1 :=
      fun address hmem => Nat.lt_succ_of_lt (hf.made name old hold address hmem)
    rw [hfresh]
    rw [← hitem] at ha
    split at ha
    · unfold taking at ha
      split at ha
      · rw [List.mem_singleton.mp ha]
        exact Nat.lt_succ_self _
      · exact hbelow address ha
    · exact hbelow address ha
  · rw [hfresh]
    rcases he.receipts_cases name with hsame | ⟨_,key,_,_,hnew⟩
    · exact Nat.lt_succ_of_lt (hf.madeWaiting name entry (hsame.symm.trans hentry) address ha)
    · rw [hnew] at hentry
      cases hentry
      rw [List.mem_singleton.mp ha]
      exact Nat.lt_succ_self _

/-- Every message and participant has been released, or will be, exactly what
was emitted for them. -/
def Accounted (s : State) : Prop := ∀ key, released s key = expected s key

/-- A receipt folded before or after one it does not contradict. -/
theorem merge_early {earlier later later' : Option MessageUserReceipt} {r : MessageUserReceipt}
    (hlater : later' = later ∨ later' = merge later (some r)) (hagree : merge later (some r) = merge (some r) later) :
    merge (merge earlier (some r)) later' = merge (merge earlier later) (some r) := by
  rcases hlater with heq | heq
  · rw [heq,merge_assoc,merge_assoc,hagree]
  · rw [heq,← merge_assoc,merge_assoc earlier,← hagree,← merge_assoc,merge_assoc,merge_self]

/-- The receipt of one place after the updates. -/
theorem dispatchReceipt_value (hf : Filed s) {address : ℕ} (ha : address < s.fresh) :
    (dispatchReceipt s evt).objects address = if ∃ key ∈ receiptKeys evt, address ∈ target s.data (nameOf key) then
        assign (s.objects address) (receiptOf evt) else s.objects address := by
  have he := dispatchReceipt_effect hf evt
  have hbefore : (emitReceipt s evt).objects address = s.objects address :=
    Function.update_of_ne (Nat.ne_of_lt ha) _ _
  have hmade : (emitReceipt s evt).objects s.fresh = receiptOf evt := Function.update_self _ _ _
  rw [he.objects,hbefore,hmade]
  rfl

theorem dispatchReceipt_made (hf : Filed s) : (dispatchReceipt s evt).objects s.fresh = receiptOf evt := by
  rw [(dispatchReceipt_effect hf evt).receipt_eq]
  exact Function.update_self _ _ _

theorem Filed.messageAddress_lt (hf : Filed s) {key : WAMessageKey} {address : ℕ}
    (h : messageAddress s.data key = some address) : ∃ item, s.data.messageUpserts.get (nameOf key) = some item ∧
      address ∈ item.message.userReceipt ∧ address < s.fresh := by
  obtain ⟨item,hget,hitem⟩ := Option.bind_eq_some_iff.mp h
  split at hitem
  · have hmem : address ∈ item.message.userReceipt := List.mem_of_mem_head? hitem
    exact ⟨item,hget,hmem,hf.made _ item hget address hmem⟩
  · cases hitem

theorem Filed.waitingAddress_lt (hf : Filed s) {key : WAMessageKey} {address : ℕ}
    (h : waitingAddress s.data key = some address) : ∃ entry, s.data.messageReceipts.get (nameOf key) = some entry ∧
      address ∈ entry.userReceipt ∧ address < s.fresh := by
  obtain ⟨entry,hget,hentry⟩ := Option.bind_eq_some_iff.mp h
  split at hentry
  · have hmem : address ∈ entry.userReceipt := List.mem_of_mem_head? hentry
    exact ⟨entry,hget,hmem,hf.madeWaiting _ entry hget address hmem⟩
  · cases hentry

/-- A held receipt takes the new one where it is folded into. -/
theorem held_taken (hf : Filed s) (evt : CanonicalReceipt) {held : Option ℕ}
    (hheld : ∀ address, held = some address → address < s.fresh ∧
      ∃ key ∈ receiptKeys evt, address ∈ target s.data (nameOf key)) :
    some ((dispatchReceipt s evt).objects (held.getD s.fresh)) = merge (held.map s.objects) (some (receiptOf evt)) := by
  cases held with
  | none =>
    rw [Option.getD_none,dispatchReceipt_made hf]
    rfl
  | some address =>
    obtain ⟨hbelow,htaken⟩ := hheld address rfl
    rw [Option.getD_some,dispatchReceipt_value hf hbelow,if_pos htaken]
    rfl

/-- A receipt held for somebody else is what it was. -/
theorem held_kept (hf : Filed s) (hu : Unmixed s evt) {key : WAMessageKey} {held : Option ℕ}
    (hkey : key ∉ receiptKeys evt) (hheld : ∀ address, held = some address →
      address < s.fresh ∧ (key,address) ∈ onMessages s++inWaiting s) :
    held.map (dispatchReceipt s evt).objects = held.map s.objects := by
  cases held with
  | none => rfl
  | some address =>
    obtain ⟨hbelow,hholder⟩ := hheld address rfl
    rw [Option.map_some,Option.map_some,dispatchReceipt_value hf hbelow]
    split
    · rename_i htaken
      rw [hu.shared (key,address) hholder hkey htaken]
    · rfl

/-- The waiting receipt of a pending message takes the new one or stays, and
the order of both does not matter. -/
theorem waiting_agrees (hf : Filed s) (hu : Unmixed s evt) {key : WAMessageKey}
    (hkey : key ∈ receiptKeys evt) {item : Pending}
    (hget : s.data.messageUpserts.get (nameOf key) = some item) :
    let later := (waitingAddress s.data key).map s.objects
    let later' := (waitingAddress s.data key).map (dispatchReceipt s evt).objects
    (later' = later ∨ later' = merge later (some (receiptOf evt))) ∧
      merge later (some (receiptOf evt)) = merge (some (receiptOf evt)) later := by
  cases hheld : waitingAddress s.data key with
  | none => exact ⟨Or.inl rfl,rfl⟩
  | some address =>
    obtain ⟨entry,hentry,hmem,hbelow⟩ := hf.waitingAddress_lt hheld
    have hagree := hu.later key hkey item hget entry hentry address hmem
    refine ⟨?_,congrArg some hagree⟩
    rw [Option.map_some,Option.map_some,dispatchReceipt_value hf hbelow]
    split
    · exact Or.inr rfl
    · exact Or.inl rfl

/-- A receipt of the bridge is accounted for. -/
theorem Accounted.dispatchReceipt (ha : Accounted s) (hf : Filed s) (hu : Unmixed s evt) :
    Accounted (dispatchReceipt s evt) := by
  intro key
  have he := dispatchReceipt_effect hf evt
  have hhanded : (ReceiptBuffer.dispatchReceipt s evt).handed = s.handed :=
    (congrArg State.handed he.frame).trans rfl
  have hreceived : (ReceiptBuffer.dispatchReceipt s evt).received =
      s.received++(receiptKeys evt).map fun key => ⟨key,receiptOf evt⟩ :=
    (congrArg State.received he.frame).trans rfl
  have hbefore := ha key
  rw [released_eq hf,expected] at hbefore
  rw [released_eq (hf.dispatchReceipt hu.meansPending),expected,hhanded,hreceived,total_append,
    total_updates,← hbefore]
  by_cases hkey : key ∈ receiptKeys evt
  · rw [if_pos hkey]
    cases hget : s.data.messageUpserts.get (nameOf key) with
    | some item =>
      have hmessage := he.messageAddress_named hu.meansPending hkey hget
      have hwaiting : waitingAddress (ReceiptBuffer.dispatchReceipt s evt).data key =
          waitingAddress s.data key := by
        refine he.waitingAddress_pending fun hnone => ?_
        exact Option.some_ne_none item (hget.symm.trans hnone)
      have htaken := held_taken hf evt fun address haddress => by
        obtain ⟨found,hfound,hmem,hbelow⟩ := hf.messageAddress_lt haddress
        have htarget : address ∈ target s.data (nameOf key) := by
          rw [target,hfound]
          exact hmem
        exact ⟨hbelow,key,hkey,htarget⟩
      obtain ⟨hlater,hagree⟩ := waiting_agrees hf hu hkey hget
      rw [hmessage,hwaiting,Option.map_some]
      change merge _ (merge (some ((ReceiptBuffer.dispatchReceipt s evt).objects
        ((messageAddress s.data key).getD s.fresh))) _) = _
      rw [htaken,merge_early hlater hagree]
      exact (merge_assoc _ _ _).symm
    | none =>
      have hmessage := messageAddress_absent hget
      have hmessage' : messageAddress (ReceiptBuffer.dispatchReceipt s evt).data key = none :=
        messageAddress_absent ((he.upserts_none _).mpr hget)
      have hwaiting := he.waitingAddress_named hkey hget (hf.emitReceipt evt)
        (hu.waiting key hkey hget)
      have htaken := held_taken hf evt fun address haddress => by
        obtain ⟨entry,hentry,hmem,hbelow⟩ := hf.waitingAddress_lt haddress
        have htarget : address ∈ target s.data (nameOf key) := by
          rw [target,hget,hentry]
          exact hmem
        exact ⟨hbelow,key,hkey,htarget⟩
      rw [hmessage,hmessage',hwaiting,Option.map_some,Option.map_none,Option.map_none,none_merge,
        none_merge]
      change merge _ (some ((ReceiptBuffer.dispatchReceipt s evt).objects
        ((waitingAddress s.data key).getD s.fresh))) = _
      rw [htaken,merge_assoc]
  · have hmessage : messageAddress (ReceiptBuffer.dispatchReceipt s evt).data key =
        messageAddress s.data key := he.messageAddress_other hu.meansPending hkey
    have hwaiting : waitingAddress (ReceiptBuffer.dispatchReceipt s evt).data key =
        waitingAddress s.data key := he.waitingAddress_other hkey
    have hmessageKept := held_kept hf hu hkey fun address haddress => by
      obtain ⟨_,_,_,hbelow⟩ := hf.messageAddress_lt haddress
      exact ⟨hbelow,List.mem_append_left _ (mem_onMessages hf haddress)⟩
    have hwaitingKept := held_kept hf hu hkey fun address haddress => by
      obtain ⟨_,_,_,hbelow⟩ := hf.waitingAddress_lt haddress
      exact ⟨hbelow,List.mem_append_right _ (mem_inWaiting haddress)⟩
    rw [if_neg hkey,merge_none,hmessage,hwaiting,hmessageKept,hwaitingKept]

end Receipts

section Steps

variable {s next : State} {data data' : Data}

/-- The receipts are in the same places. -/
structure SamePlaces (data data' : Data) : Prop where
  /-- Receipts that wait stay. -/
  waiting : data'.messageReceipts = data.messageReceipts
  /-- Receipts on pending messages stay. -/
  held : ∀ name, heldAt data' name = heldAt data name

/-- What events of messages do to the receipts: nothing. -/
structure SameReceipts (data data' : Data) : Prop extends SamePlaces data data' where
  /-- The messages of history sets stay. -/
  history : data'.historyMessages = data.historyMessages

theorem SameReceipts.refl (data : Data) : SameReceipts data data := ⟨⟨rfl,fun _ => rfl⟩,rfl⟩

theorem SameReceipts.trans {first second third : Data} (h : SameReceipts first second)
    (h' : SameReceipts second third) : SameReceipts first third where
  history := h'.history.trans h.history
  waiting := h'.waiting.trans h.waiting
  held name := (h'.held name).trans (h.held name)

/-- Setting a pending message without receipts, where there were none. -/
theorem heldAt_set (data : Data) {name : String} {item : Pending} (hnone : heldAt data name = none)
    (hempty : item.message.userReceipt = []) (other : String) :
    heldAt {data with messageUpserts := data.messageUpserts.set name item} other =
      heldAt data other := by
  by_cases hname : name = other
  · subst hname
    rw [hnone]
    simp [heldAt,hempty]
  · simp [heldAt,InsertionMap.get_set_ne _ _ hname]

/-- A new message takes the place of one without receipts. -/
theorem appendMessage_same {key : MessageKey} (type : UpsertType) (h : Replaceable data key) :
    SameReceipts data (appendMessage type data key) := by
  by_cases hhistory : stringifyMessageKey key ∈ data.historyMessages
  · have hskip : appendMessage type data key = {data with
        messageUpdates := data.messageUpdates.delete (stringifyMessageKey key)} := if_pos hhistory
    rw [hskip]
    exact ⟨⟨rfl,fun _ => rfl⟩,rfl⟩
  · unfold appendMessage
    simp only [if_neg hhistory]
    refine ⟨⟨rfl,fun other => ?_⟩,rfl⟩
    exact heldAt_set data (h hhistory) rfl other

/-- A change of a message leaves its receipts under its key. -/
theorem appendUpdate_same {update : MessageKey × Option MessageKey} (h : Unmoved data update) :
    SameReceipts data (appendUpdate data update) := by
  by_cases hhistory : stringifyMessageKey update.1 ∈ data.historyMessages
  · have hskip : appendUpdate data update = data := if_pos hhistory
    rw [hskip]
    exact SameReceipts.refl data
  · unfold appendUpdate
    simp only [if_neg hhistory]
    cases hget : data.messageUpserts.get (stringifyMessageKey update.1) with
    | none => exact ⟨⟨rfl,fun _ => rfl⟩,rfl⟩
    | some item =>
      refine ⟨⟨rfl,fun other => ?_⟩,rfl⟩
      by_cases hname : stringifyMessageKey update.1 = other
      · subst hname
        by_cases hl : item.message.userReceipt = []
        · simp [heldAt,hget,hl]
        · have hheld : heldAt data (stringifyMessageKey update.1) = some item.message := by
            simp [heldAt,hget,hl]
          have hkey : update.2.getD item.message.key = item.message.key := by
            cases hassigned : update.2 with
            | none => rfl
            | some key => exact h hhistory item.message hheld key hassigned
          simp [heldAt,hget,hl,hkey]
      · simp [heldAt,InsertionMap.get_set_ne _ _ hname]

/-- A message without receipts is deleted. -/
theorem appendDelete_same {key : MessageKey} (h : heldAt data (stringifyMessageKey key) = none) :
    SameReceipts data (appendDelete data key) := by
  refine ⟨⟨rfl,fun other => ?_⟩,rfl⟩
  by_cases hname : stringifyMessageKey key = other
  · subst hname
    rw [h]
    simp [heldAt,appendDelete]
  · simp [heldAt,appendDelete,InsertionMap.get_delete_ne _ hname]

/-- Buffering the items of an event one after the other. -/
theorem foldl_same {ι : Type} {f : Data → ι → Data} {P : Data → ι → Prop}
    (hkeep : ∀ data data' item, SameReceipts data data' → P data item → P data' item)
    (hstep : ∀ data item, P data item → SameReceipts data (f data item)) (items : List ι)
    (h : ∀ item ∈ items, P data item) : SameReceipts data (items.foldl f data) := by
  induction items generalizing data with
  | nil => exact SameReceipts.refl data
  | cons item rest ih =>
    have hfirst := hstep data item (h item List.mem_cons_self)
    have hrest := ih fun other hmem =>
      hkeep data _ other hfirst (h other (List.mem_cons_of_mem _ hmem))
    exact hfirst.trans hrest

theorem appendMessages_same (messages : List MessageKey) (type : UpsertType)
    (h : ∀ key ∈ messages, Replaceable data key) : SameReceipts data (messages.foldl (appendMessage type) data) := by
  refine foldl_same (P := Replaceable) ?_ (fun _ _ => appendMessage_same type) messages h
  intro data data' key hsame hkey hhistory
  rw [hsame.history] at hhistory
  rw [hsame.held]
  exact hkey hhistory

theorem appendUpdates_same (updates : List (MessageKey × Option MessageKey))
    (h : ∀ update ∈ updates, Unmoved data update) : SameReceipts data (updates.foldl appendUpdate data) := by
  refine foldl_same (P := Unmoved) ?_ (fun _ _ => appendUpdate_same) updates h
  intro data data' update hsame hupdate hhistory
  rw [hsame.history] at hhistory
  rw [hsame.held]
  exact hupdate hhistory

theorem appendDeletes_same (keys : List MessageKey) (h : ∀ key ∈ keys, heldAt data (stringifyMessageKey key) = none) :
    SameReceipts data (keys.foldl appendDelete data) := by
  refine foldl_same (P := fun data key => heldAt data (stringifyMessageKey key) = none) ?_ ?_
    keys h
  · intro data data' key hsame hkey
    rw [hsame.held,hkey]
  · exact fun data key hkey => appendDelete_same hkey

/-- Receipts of a message and participant, by what its place holds. -/
theorem messageAddress_eq (data : Data) (key : WAMessageKey) : messageAddress data key =
    (heldAt data (nameOf key)).bind fun message =>
      if (⟨message.key,none⟩ : WAMessageKey) = key then message.userReceipt.head? else none := by
  rw [messageAddress,heldAt]
  cases hget : data.messageUpserts.get (nameOf key) with
  | none => rfl
  | some item =>
    by_cases hl : item.message.userReceipt = [] <;> simp [hl]

theorem heldAt_eq_some {name : String} {item : Pending}
    (hget : data.messageUpserts.get name = some item) (hl : item.message.userReceipt ≠ []) :
    heldAt data name = some item.message := by
  simp [heldAt,hget,hl]

theorem get_of_heldAt {name : String} {message : Message} (h : heldAt data name = some message) :
    ∃ item, data.messageUpserts.get name = some item ∧ item.message = message := by
  obtain ⟨item,hget,hitem⟩ := Option.bind_eq_some_iff.mp h
  split at hitem
  · cases hitem
  · exact ⟨item,hget,Option.some.inj hitem⟩

/-- Receipts in the same places are filed as before. -/
theorem Filed.of_same (hf : Filed s) (hsame : SamePlaces s.data next.data)
    (hobjects : next.objects = s.objects) (hfresh : next.fresh = s.fresh) : Filed next := by
  have hplace : ∀ name item, next.data.messageUpserts.get name = some item →
      item.message.userReceipt ≠ [] →
        ∃ old, s.data.messageUpserts.get name = some old ∧ old.message = item.message := by
    intro name item hitem hl
    exact get_of_heldAt ((hsame.held name).symm.trans (heldAt_eq_some hitem hl))
  refine {
    anonymous := fun address => by rw [hobjects]; exact hf.anonymous address
    single := fun name item hitem => ?_
    filled := fun name entry hentry => hf.filled name entry (by rw [← hsame.waiting]; exact hentry)
    named := fun name item hitem hl => ?_
    keyed := fun name entry hentry => hf.keyed name entry (by rw [← hsame.waiting]; exact hentry)
    made := fun name item hitem address ha => ?_
    madeWaiting := fun name entry hentry => by
      rw [hfresh]
      exact hf.madeWaiting name entry (by rw [← hsame.waiting]; exact hentry)}
  · by_cases hl : item.message.userReceipt = []
    · simp [hl]
    · obtain ⟨old,hold,hmessage⟩ := hplace name item hitem hl
      rw [← hmessage]
      exact hf.single name old hold
  · obtain ⟨old,hold,hmessage⟩ := hplace name item hitem hl
    rw [← hmessage] at hl ⊢
    exact hf.named name old hold hl
  · obtain ⟨old,hold,hmessage⟩ := hplace name item hitem (List.ne_nil_of_mem ha)
    rw [hfresh]
    exact hf.made name old hold address (by rw [hmessage]; exact ha)

/-- Receipts in the same places are accounted for as before. -/
theorem Accounted.of_same (ha : Accounted s) (hf : Filed s)
    (hsame : SamePlaces s.data next.data) (hobjects : next.objects = s.objects)
    (hfresh : next.fresh = s.fresh) (hhanded : next.handed = s.handed)
    (hreceived : next.received = s.received) : Accounted next := by
  intro key
  have hmessage : messageAddress next.data key = messageAddress s.data key := by
    rw [messageAddress_eq,messageAddress_eq,hsame.held]
  have hwaiting : waitingAddress next.data key = waitingAddress s.data key := by
    rw [waitingAddress,waitingAddress,hsame.waiting]
  rw [released_eq (hf.of_same hsame hobjects hfresh),hmessage,hwaiting,hobjects,hhanded,
    ← released_eq hf,ha key,expected,expected,hreceived]

/-- A state whose receipts are filed and accounted for. -/
structure Kept (s : State) : Prop where
  /-- Receipts are filed. -/
  filed : Filed s
  /-- Receipts are accounted for. -/
  accounted : Accounted s

theorem Kept.of_same (hk : Kept s) (hsame : SamePlaces s.data next.data)
    (hobjects : next.objects = s.objects) (hfresh : next.fresh = s.fresh)
    (hhanded : next.handed = s.handed) (hreceived : next.received = s.received) : Kept next where
  filed := hk.filed.of_same hsame hobjects hfresh
  accounted := hk.accounted.of_same hk.filed hsame hobjects hfresh hhanded hreceived

theorem Kept.acceptUpsert (hk : Kept s) (messages : List MessageKey) (type : UpsertType)
    (h : ∀ key ∈ messages, Replaceable s.data key) : Kept (acceptUpsert s messages type) :=
  hk.of_same (appendMessages_same messages type h).toSamePlaces rfl rfl rfl rfl

/-- Handing the pending messages over once more changes nothing. -/
theorem Kept.releaseMessages (hk : Kept s) (stack : List (List MessageKey × UpsertType)) :
    Kept {s with handed := s.handed++releasedMessages s, stack := stack} := by
  have hfiled : Filed {s with handed := s.handed++releasedMessages s, stack := stack} :=
    hk.filed.of_same ⟨rfl,fun _ => rfl⟩ rfl rfl
  refine ⟨hfiled,fun key => ?_⟩
  have hbefore := hk.accounted key
  rw [released_eq hk.filed] at hbefore
  rw [released_eq hfiled]
  change merge (total (s.handed++releasedMessages s) key) _ = expected s key
  rw [total_append,total_releasedMessages hk.filed,← hbefore,merge_assoc]
  congr 1
  rw [← merge_assoc,merge_self]

theorem Kept.emitUpsert (hk : Kept s) (messages : List MessageKey) (type : UpsertType)
    (h : changesType s type = false → ∀ key ∈ messages, Replaceable s.data key) :
    Kept (emitUpsert s messages type) := by
  unfold ReceiptBuffer.emitUpsert
  split
  · exact hk.releaseMessages _
  · rename_i hkeeps
    exact hk.acceptUpsert messages type (h ((Bool.not_eq_true _).mp hkeeps))

/-- Messages that were handed over may be dropped. -/
theorem Kept.dropMessages (hk : Kept s) (stack : List (List MessageKey × UpsertType)) (h : ∀ holder ∈ onMessages s,
      merge (total s.handed holder.1) (some (s.objects holder.2)) = total s.handed holder.1) :
    Kept {s with data := {s.data with messageUpserts := InsertionMap.empty}, stack := stack} := by
  have hfiled : Filed {s with
      data := {s.data with messageUpserts := InsertionMap.empty}, stack := stack} :=
    {hk.filed with
      single := fun _ _ hitem => by cases hitem
      named := fun _ _ hitem => by cases hitem
      made := fun _ _ hitem => by cases hitem}
  refine ⟨hfiled,fun key => ?_⟩
  have hbefore := hk.accounted key
  rw [released_eq hk.filed,← merge_assoc] at hbefore
  rw [released_eq hfiled]
  change merge (total s.handed key) (merge none _) = expected s key
  rw [none_merge,← hbefore]
  congr 1
  cases hheld : messageAddress s.data key with
  | none => exact (merge_none _).symm
  | some address => exact (h (key,address) (mem_onMessages hk.filed hheld)).symm

/-- Messages of a history set only add to the names seen. -/
theorem appendHistory_frame (messages : List MessageKey) (s : State) :
    ∃ names cache, messages.foldl appendHistory s = {s with
      historyCache := cache, data := {s.data with historyMessages := names}} := by
  induction messages generalizing s with
  | nil => exact ⟨s.data.historyMessages,s.historyCache,rfl⟩
  | cons key rest ih =>
    obtain ⟨names,cache,hrest⟩ := ih (appendHistory s key)
    refine ⟨names,cache,?_⟩
    rw [List.foldl_cons,hrest]
    unfold appendHistory
    simp only
    split <;> rfl

theorem Kept.historySet (hk : Kept s) (messages : List MessageKey) : Kept (messages.foldl appendHistory s) := by
  obtain ⟨names,cache,hframe⟩ := appendHistory_frame messages s
  rw [hframe]
  exact hk.of_same ⟨rfl,fun _ => rfl⟩ rfl rfl rfl rfl

/-- A harmless step keeps every receipt with its message and participant. -/
theorem step_kept {a : Action} (hk : Kept s) (hg : Harmless s a) (hs : step s a = some next) : Kept next := by
  cases a with
  | receipt evt =>
    cases hs
    have hunmixed : Unmixed s evt := hg
    exact ⟨hk.filed.dispatchReceipt hunmixed.meansPending,
      hk.accounted.dispatchReceipt hk.filed hunmixed⟩
  | messagesUpsert messages type =>
    cases hs
    exact hk.emitUpsert messages type hg
  | messagesUpdate updates =>
    cases hs
    exact hk.of_same (appendUpdates_same updates hg).toSamePlaces rfl rfl rfl rfl
  | messagesDelete keys =>
    cases hs
    exact hk.of_same (appendDeletes_same keys hg).toSamePlaces rfl rfl rfl rfl
  | historySet messages =>
    cases hs
    exact hk.historySet messages
  | listenersReturn =>
    cases hstack : s.stack with
    | nil => simp [step,hstack] at hs
    | cons frame rest =>
      simp only [step,hstack,Option.some.injEq] at hs
      rw [← hs]
      exact (hk.dropMessages rest hg).acceptUpsert frame.1 frame.2 fun _ _ _ => rfl
  | listenersThrow =>
    cases hstack : s.stack with
    | nil => simp [step,hstack] at hs
    | cons frame rest =>
      simp only [step,hstack,Option.some.injEq] at hs
      rw [← hs]
      exact hk.of_same ⟨rfl,fun _ => rfl⟩ rfl rfl rfl rfl

theorem makeWindow_kept (historyCache : List String) : Kept (makeWindow historyCache) where
  filed := by
    refine {
      anonymous := fun _ => rfl
      single := fun _ _ hitem => by cases hitem
      filled := fun _ _ hentry => by cases hentry
      named := fun _ _ hitem => by cases hitem
      keyed := fun _ _ hentry => by cases hentry
      made := fun _ _ hitem => by cases hitem
      madeWaiting := fun _ _ hentry => by cases hentry}
  accounted := fun _ => rfl

end Steps

section ReceiptsAlone

variable {s : State} {evt : CanonicalReceipt}

/-- A window in which no message was pending. -/
structure ReceiptsAlone (s : State) : Prop where
  /-- Receipts are filed. -/
  filed : Filed s
  /-- No message is pending. -/
  absent : ∀ name, s.data.messageUpserts.get name = none
  /-- No receipt was handed over on a message. -/
  unhanded : s.handed = []

/-- Only receipts that wait are released. -/
theorem ReceiptsAlone.shows (hr : ReceiptsAlone s) (key : WAMessageKey) :
    released s key = (waitingAddress s.data key).map s.objects := by
  rw [released_eq hr.filed,messageAddress_absent (hr.absent _),hr.unhanded]
  rfl

theorem ReceiptsAlone.dispatched (hr : ReceiptsAlone s) (evt : CanonicalReceipt) :
    ReceiptsAlone (dispatchReceipt s evt) := by
  have he := dispatchReceipt_effect hr.filed evt
  have hmeans : MeansPending s (receiptKeys evt) := by
    intro key hkey item hitem
    rw [hr.absent] at hitem
    cases hitem
  refine ⟨hr.filed.dispatchReceipt hmeans,fun name => ?_,?_⟩
  · exact (he.upserts_none name).mpr (hr.absent name)
  · exact (congrArg State.handed he.frame).trans hr.unhanded

theorem ReceiptsAlone.holder (hr : ReceiptsAlone s) {holder : WAMessageKey × ℕ}
    (hmem : holder ∈ onMessages s++inWaiting s) : waitingAddress s.data holder.1 = some holder.2 := by
  rcases List.mem_append.mp hmem with hmessage | hwaiting
  · obtain ⟨item,hitem,_⟩ := List.mem_flatMap.mp hmessage
    obtain ⟨name,hname⟩ := InsertionMap.mem_values_iff.mp hitem
    rw [hr.absent] at hname
    cases hname
  · obtain ⟨entry,hentry,haddress⟩ := List.mem_flatMap.mp hwaiting
    obtain ⟨name,hname⟩ := InsertionMap.mem_values_iff.mp hentry
    obtain ⟨address,hmem,hholder⟩ := List.mem_map.mp haddress
    obtain ⟨only,honly⟩ := hr.filed.waits hname
    have hkeyed := hr.filed.keyed name entry hname
    rw [honly,List.mem_singleton] at hmem
    rw [← hholder,waitingAddress,hkeyed,hname,hmem]
    simp [honly]

/-- Emitting a receipt adds it to what its messages expect. -/
theorem expected_dispatchReceipt (hf : Filed s) (evt : CanonicalReceipt) (key : WAMessageKey) :
    expected (dispatchReceipt s evt) key = merge (expected s key)
      (if key ∈ receiptKeys evt then some (receiptOf evt) else none) := by
  have hreceived : (dispatchReceipt s evt).received =
      s.received++(receiptKeys evt).map fun key => ⟨key,receiptOf evt⟩ :=
    (congrArg State.received (dispatchReceipt_effect hf evt).frame).trans rfl
  rw [expected,hreceived,total_append,total_updates]
  rfl

/-- Without pending messages a receipt that stays accounted for is unmixed. -/
theorem ReceiptsAlone.unmixed (hr : ReceiptsAlone s) (ha : Accounted s)
    (hnext : Accounted (dispatchReceipt s evt)) : Unmixed s evt := by
  have he := dispatchReceipt_effect hr.filed evt
  refine ⟨fun key hkey item hitem => ?_,fun key hkey item hitem => ?_,
    fun key hkey _ entry hentry => ?_,fun holder hmem hkey htaken => ?_⟩
  · rw [hr.absent] at hitem
    cases hitem
  · rw [hr.absent] at hitem
    cases hitem
  · by_contra hne
    have hkept : waitingAddress (dispatchReceipt s evt).data key = none := by
      rcases he.receipts_cases (nameOf key) with hsame | ⟨hold,_⟩
      · have hget := hsame.trans hentry
        simp [waitingAddress,hget,hne]
      · cases hold.symm.trans hentry
    have hlost := hnext key
    rw [(hr.dispatched evt).shows,hkept,expected_dispatchReceipt hr.filed,if_pos hkey]
      at hlost
    cases hbefore : expected s key with
    | none => simp [hbefore] at hlost
    | some before => simp [hbefore,merge] at hlost
  · have hheld := hr.holder hmem
    obtain ⟨_,_,_,hbelow⟩ := hr.filed.waitingAddress_lt hheld
    have hafter := hnext holder.1
    have hplace : waitingAddress (dispatchReceipt s evt).data holder.1 =
        some holder.2 := (he.waitingAddress_other hkey).trans hheld
    rw [(hr.dispatched evt).shows,hplace,expected_dispatchReceipt hr.filed,if_neg hkey,
      merge_none,← ha holder.1,hr.shows,hheld,Option.map_some,Option.map_some,
      dispatchReceipt_value hr.filed hbelow,if_pos htaken] at hafter
    exact Option.some.inj hafter

theorem makeWindow_receiptsAlone (historyCache : List String) :
    ReceiptsAlone (makeWindow historyCache) where
  filed := (makeWindow_kept historyCache).filed
  absent _ := rfl
  unhanded := rfl

theorem run_receipts (s : State) (evts : List CanonicalReceipt) :
    run (fun s evt => step s (.receipt evt)) s evts = some (evts.foldl dispatchReceipt s) := by
  induction evts generalizing s with
  | nil => rfl
  | cons evt rest ih =>
    rw [run_cons]
    exact ih (dispatchReceipt s evt)

/-- A window of receipts alone keeps them apart exactly when each of its
receipts is unmixed. -/
theorem receiptsAlone_iff (historyCache : List String) (evts : List CanonicalReceipt) :
    Throughout (fun s evt => step s (.receipt evt)) Accounted (makeWindow historyCache) evts ↔
      Guarded (fun s evt => step s (.receipt evt)) Unmixed (makeWindow historyCache) evts := by
  refine throughout_iff_guarded (I := ReceiptsAlone) ?_ ?_ (run_receipts _ evts)
    (makeWindow_receiptsAlone historyCache) (makeWindow_kept historyCache).accounted
  · intro s evt next hr hs
    cases hs
    exact hr.dispatched evt
  · intro s evt next hr ha hs
    cases hs
    exact ⟨hr.unmixed ha,ha.dispatchReceipt hr.filed⟩

end ReceiptsAlone

/-- In every window whose steps are harmless, the receipts released for each
message and participant fold to what was emitted for them: at every moment,
if the window were flushed then. Windows of receipts alone do so exactly when
each receipt is unmixed. -/
theorem receipts_attributed (historyCache : List String) :
    (∀ labels s, run step (makeWindow historyCache) labels = some s →
      Guarded step Harmless (makeWindow historyCache) labels →
        ∀ key, released s key = expected s key) ∧
    ∀ evts, Throughout (fun s evt => step s (.receipt evt)) Accounted (makeWindow historyCache) evts ↔
      Guarded (fun s evt => step s (.receipt evt)) Unmixed (makeWindow historyCache) evts := by
  refine ⟨fun labels s hr hg => ?_,receiptsAlone_iff historyCache⟩
  have hkept : Kept s := run_guarded_invariant (fun _ _ _ hk hsafe hs => step_kept hk hsafe hs)
    hg hr (makeWindow_kept historyCache)
  exact hkept.accounted

/-- A receipt of a direct chat that names messages of the own account. -/
def direct (ids : List String) (timestamp : ℕ) (type : ReceiptType) : CanonicalReceipt :=
  ⟨"1@s.whatsapp.net",none,false,true,ids,timestamp,some type⟩

/-- The fold is released for a message upserted in the window and for one
that is not, when both receipts name them together. -/
theorem receipts_attributed_together :
    released (after step (makeWindow []) [.messagesUpsert [⟨"1@s.whatsapp.net","A",true⟩] .notify,
      .receipt (direct ["A","B"] 1 .delivered),.receipt (direct ["A","B"] 2 .read)])
      ⟨⟨"1@s.whatsapp.net","B",true⟩,none⟩ = some ⟨none,some 1,some 2,none⟩ := by
  have hupsert : Harmless (makeWindow [])
      (.messagesUpsert [⟨"1@s.whatsapp.net","A",true⟩] .notify) := by
    intro _ key hkey _
    rfl
  have hfirst : Unmixed (emitUpsert (makeWindow []) [⟨"1@s.whatsapp.net","A",true⟩] .notify)
      (direct ["A","B"] 1 .delivered) :=
    ⟨by decide +kernel,by decide +kernel,by decide +kernel,by decide +kernel⟩
  have hsecond : Unmixed (dispatchReceipt
      (emitUpsert (makeWindow []) [⟨"1@s.whatsapp.net","A",true⟩] .notify)
      (direct ["A","B"] 1 .delivered)) (direct ["A","B"] 2 .read) :=
    ⟨by decide +kernel,by decide +kernel,by decide +kernel,by decide +kernel⟩
  have hguarded : Guarded step Harmless (makeWindow [])
      [.messagesUpsert [⟨"1@s.whatsapp.net","A",true⟩] .notify,
        .receipt (direct ["A","B"] 1 .delivered),.receipt (direct ["A","B"] 2 .read)] := by
    refine ⟨hupsert,fun next hnext => ?_⟩
    cases hnext
    refine ⟨hfirst,fun next hnext => ?_⟩
    cases hnext
    exact ⟨hsecond,fun _ _ => trivial⟩
  have hreleased := (receipts_attributed []).1 _ _ (run_after rfl) hguarded
    ⟨⟨"1@s.whatsapp.net","B",true⟩,none⟩
  rw [hreleased]
  decide +kernel

/-- A read receipt of one message shows on another that an earlier receipt
named together with it. -/
theorem receipts_misattributed :
    ¬∀ (historyCache : List String) (labels : List Action) (s : State),
      run step (makeWindow historyCache) labels = some s →
        ∀ key, released s key = expected s key := by
  intro h
  have hshared := h [] [.receipt (direct ["A","B"] 1 .delivered),.receipt (direct ["A"] 2 .read)] _
    rfl ⟨⟨"1@s.whatsapp.net","B",true⟩,none⟩
  revert hshared
  decide +kernel

end Baileyrs.ReceiptBuffer
