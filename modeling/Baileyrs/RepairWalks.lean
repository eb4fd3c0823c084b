import Baileyrs.ProtoAgreement
import Baileyrs.JsNumberSums

/-!
# Where a repair goes

The repair follows the message-typed fields of a message and leaves an object
alone that is among the ancestors of the place where it is met again. What it
meets on its way is a property of the graph of objects: a walk of objects that
are all different, and a field of the last of them. A larger heap has the same
walks, and so has one without ancestors that are no part of the graph.
-/

namespace Baileyrs.ProtoRuntime

open JsString AtomicStore

/-- A number that is no number at all. -/
def Item.isNaN : Item → Bool
  | .number x => x.isNaN
  | _ => false

/-- Elements of an array. -/
def Cell.elements : Cell → List Item
  | .array items => items
  | _ => []

/-- A value the repair knows: an empty text for 64 bits, a text with an unpaired surrogate, or
the name of an enum value. -/
def isRepairable (schemas : Schemas) (field : ProtoField) : Item → Bool
  | .string text =>
    match field.kind with
    | .signed64 => text = []
    | .unsigned64 => text = []
    | .string => !isWellFormed text
    | .enum => (schemas.enumValueFor field.reference text).isSome
    | _ => false
  | _ => false

/-- What a value of a field that is no message is replaced with. -/
def repairedItem (schemas : Schemas) (field : ProtoField) (item : Item) : Item :=
  match field.kind with
  | .enum => enumItem schemas field item
  | kind => repairScalar kind item

/-- Values a field holds. -/
def visitedItems (codecs : Codecs) (heap : Heap) (field : ProtoField) (current : Item) : List Item :=
  if field.isRepeated then
    match current with
    | .reference address => (cellAt heap address).elements
    | _ => []
  else if field.isMap then
    match current with
    | .reference address => (codecs.enumerable (cellAt heap address)).map Prod.snd
    | _ => []
  else [current]

/-- An object has an item for a field of its schema. -/
structure Holds (schemas : Schemas) (heap : Heap) (schemaId address : ℕ) (field : ProtoField) (current : Item) :
    Prop where
  /-- The field is one of the schema. -/
  listed : field ∈ schemas.fieldsOf schemaId
  /-- It has the item under one of its names. -/
  named : ∃ name, fieldKey (cellAt heap address) field (schemas.aliasFor schemaId) = some (name,current)
  /-- The item is not absent. -/
  present : current.isNullish = false

section Walks

variable (schemas : Schemas) (codecs : Codecs) (heap : Heap)

/-- From an item, below its ancestors, the repair comes to a field with a property. -/
inductive Meets (special : ProtoField → Item → Prop) : List ℕ → ℕ → Item → Prop where
  | here (seen : List ℕ) (schemaId address : ℕ) (field : ProtoField) (current : Item) (new : address ∉ seen)
    (holds : Holds schemas heap schemaId address field current) (found : special field current) :
    Meets special seen schemaId (.reference address)
  | under (seen : List ℕ) (schemaId address : ℕ) (field : ProtoField) (current item : Item) (new : address ∉ seen)
    (holds : Holds schemas heap schemaId address field current) (kind : field.kind = .message)
    (visited : item ∈ visitedItems codecs heap field current)
    (nested : Meets special (address::seen) field.reference item) : Meets special seen schemaId (.reference address)

/-- A field holds a value that the repair knows. -/
def HoldsRepairable (field : ProtoField) (current : Item) : Prop :=
  ∃ item ∈ visitedItems codecs heap field current, isRepairable schemas field item = true

/-- A field is or holds a number that differs from itself. -/
def HoldsNaN (field : ProtoField) (current : Item) : Prop :=
  ∃ item ∈ current::visitedItems codecs heap field current, item.isNaN = true

/-- The repair comes to a number that differs from itself. -/
abbrev MeetsNaN : List ℕ → ℕ → Item → Prop := Meets schemas codecs heap (HoldsNaN codecs heap)

/-- The repair comes to something it takes for changed. -/
abbrev Touches : List ℕ → ℕ → Item → Prop :=
  Meets schemas codecs heap fun field current => HoldsRepairable schemas codecs heap field current ∨
    HoldsNaN codecs heap field current

/-- The repair comes to an object that contains itself. -/
inductive Returns : List ℕ → ℕ → Item → Prop where
  | here (seen : List ℕ) (schemaId address : ℕ) (old : address ∈ seen) : Returns seen schemaId (.reference address)
  | under (seen : List ℕ) (schemaId address : ℕ) (field : ProtoField) (current item : Item) (new : address ∉ seen)
    (holds : Holds schemas heap schemaId address field current) (kind : field.kind = .message)
    (visited : item ∈ visitedItems codecs heap field current)
    (nested : Returns (address::seen) field.reference item) : Returns seen schemaId (.reference address)

/-- A message that is copied holds one that is left as it is below its ancestors, but would be
changed without them. -/
inductive Hides : List ℕ → ℕ → Item → Prop where
  | here (seen : List ℕ) (schemaId address : ℕ) (field : ProtoField) (current item : Item)
    (touches : Touches schemas codecs heap seen schemaId (.reference address)) (new : address ∉ seen)
    (holds : Holds schemas heap schemaId address field current) (kind : field.kind = .message)
    (visited : item ∈ visitedItems codecs heap field current)
    (below : ¬Touches schemas codecs heap (address::seen) field.reference item)
    (afresh : Touches schemas codecs heap [] field.reference item) : Hides seen schemaId (.reference address)
  | under (seen : List ℕ) (schemaId address : ℕ) (field : ProtoField) (current item : Item) (new : address ∉ seen)
    (holds : Holds schemas heap schemaId address field current) (kind : field.kind = .message)
    (visited : item ∈ visitedItems codecs heap field current)
    (nested : Hides (address::seen) field.reference item) : Hides seen schemaId (.reference address)

end Walks

/-- An item leads into the heap, if anywhere. -/
def Item.Inside (heap : Heap) (item : Item) : Prop := ∀ address, item = .reference address → address < heap.length

/-- Every reference of the heap leads to an object, and names of properties are distinct. -/
structure Linked (codecs : Codecs) (heap : Heap) : Prop where
  /-- Properties lead into the heap. -/
  members : ∀ cell ∈ heap, ∀ member ∈ cell.members, member.2.Inside heap
  /-- So do properties of prototypes. -/
  inherited : ∀ schemaId, ∀ member ∈ codecs.prototypeMembers schemaId, member.2.Inside heap
  /-- Own names are distinct. -/
  names : ∀ cell ∈ heap, (cell.members.map Prod.fst).Nodup
  /-- Names of a prototype are distinct. -/
  inheritedNames : ∀ schemaId, ((codecs.prototypeMembers schemaId).map Prod.fst).Nodup

section Values

variable {schemas : Schemas} {field : ProtoField} {item : Item}

/-- An item differs from itself when it is no number at all. -/
theorem differs_self_eq (item : Item) : item.differs item = item.isNaN := by
  cases item with
  | number x =>
    unfold Item.differs Item.isNaN
    simp
  | _ => exact differs_self fun x hno => nomatch hno

/-- A text without an unpaired surrogate stays. -/
theorem replaceUnpaired_wellFormed {text : JsString} (h : isWellFormed text = true) : replaceUnpaired text = text := by
  induction text using replaceUnpaired.induct with
  | case1 => rfl
  | case2 u =>
    have hplain : isSurrogate u = false := by simpa [isWellFormed] using h
    rw [replaceUnpaired,hplain]
    rfl
  | case3 u v rest hpair ih =>
    rw [isWellFormed,if_pos hpair] at h
    rw [replaceUnpaired,if_pos hpair,ih h]
  | case4 u v rest hpair ih =>
    rw [isWellFormed,if_neg hpair,Bool.and_eq_true] at h
    have hplain : isSurrogate u = false := by simpa using h.1
    rw [replaceUnpaired,if_neg hpair,ih h.2,hplain]
    rfl

/-- What is not known stays. -/
theorem repairedItem_same (h : isRepairable schemas field item = false) : repairedItem schemas field item = item := by
  cases item with
  | string text =>
    unfold isRepairable at h
    unfold repairedItem
    cases hkind : field.kind with
    | enum =>
      rw [hkind] at h
      dsimp only at h
      dsimp only [enumItem]
      rw [Option.isSome_eq_false_iff.mp h |> Option.isNone_iff_eq_none.mp]
      rfl
    | string =>
      rw [hkind] at h
      have hwell : isWellFormed text = true := by simpa using h
      exact congrArg Item.string (replaceUnpaired_wellFormed hwell)
    | signed64 =>
      rw [hkind] at h
      exact if_neg (of_decide_eq_false h)
    | unsigned64 =>
      rw [hkind] at h
      exact if_neg (of_decide_eq_false h)
    | _ => rfl
  | _ =>
    unfold repairedItem
    split <;> rfl

/-- What is known is replaced with a value that is not known any more, and that is a number
or another text. -/
theorem repairedItem_known (h : isRepairable schemas field item = true) :
    (repairedItem schemas field item).differs item = true ∧
      isRepairable schemas field (repairedItem schemas field item) = false ∧
      ((∃ i, repairedItem schemas field item = .number (.ofInt i)) ∨ repairedItem schemas field item = .number .zero ∨
        ∃ text, repairedItem schemas field item = .string text) := by
  cases item with
  | string text =>
    unfold isRepairable at h
    unfold repairedItem
    cases hkind : field.kind with
    | enum =>
      rw [hkind] at h
      obtain ⟨i,hi⟩ := Option.isSome_iff_exists.mp h
      have hnumber : enumItem schemas field (.string text) = .number (.ofInt i) := by
        dsimp only [enumItem]
        rw [hi]
        rfl
      dsimp only
      rw [hnumber]
      exact ⟨differs_number_string _ _,rfl,.inl ⟨i,rfl⟩⟩
    | string =>
      rw [hkind] at h
      have hbroken : isWellFormed text = false := by simpa using h
      have hfixed := isWellFormed_replaceUnpaired text
      have hother : replaceUnpaired text ≠ text := by
        intro hsame
        rw [hsame,hbroken] at hfixed
        cases hfixed
      refine ⟨?_,?_,.inr (.inr ⟨_,rfl⟩)⟩
      · rw [differs_eq (by intro x hno; cases hno)]
        exact decide_eq_true fun hsame => hother (Item.string.inj hsame)
      · dsimp only [repairScalar,isRepairable]
        rw [hkind,hfixed]
        rfl
    | signed64 =>
      rw [hkind] at h
      have hzero : repairScalar .signed64 (.string text) = .number .zero := if_pos (of_decide_eq_true h)
      dsimp only
      rw [hzero]
      exact ⟨differs_number_string _ _,rfl,.inr (.inl rfl)⟩
    | unsigned64 =>
      rw [hkind] at h
      have hzero : repairScalar .unsigned64 (.string text) = .number .zero := if_pos (of_decide_eq_true h)
      dsimp only
      rw [hzero]
      exact ⟨differs_number_string _ _,rfl,.inr (.inl rfl)⟩
    | _ =>
      rw [hkind] at h
      cases h
  | _ => cases h

/-- A replaced value is not known any more. -/
theorem isRepairable_repairedItem : isRepairable schemas field (repairedItem schemas field item) = false := by
  cases hknown : isRepairable schemas field item with
  | true => exact (repairedItem_known hknown).2.1
  | false =>
    rw [repairedItem_same hknown]
    exact hknown

/-- Integers are numbers. -/
theorem isNaN_ofInt (i : ℤ) : (JsNumber.ofInt i).isNaN = false := by
  by_cases hzero : i.natAbs = 0
  · have hi : i = 0 := Int.natAbs_eq_zero.mp hzero
    rw [hi]
    decide
  · rw [JsNumber.ofInt,JsNumber.ofRatio_magnitude hzero]
    have hcap := min_le_right (JsNumber.magnitude i.natAbs 1) 0x7ff0000000000000
    generalize min (JsNumber.magnitude i.natAbs 1) 0x7ff0000000000000 = capped at hcap ⊢
    have hbits : ((if decide (i < 0) = true then 2^63 else 0)+capped).toUInt64.toNat =
        (if decide (i < 0) = true then 2^63 else 0)+capped := by
      have hword : (if decide (i < 0) = true then 2^63 else 0)+capped < 2^64 := by
        split
        · omega
        · omega
      exact UInt64.toNat_ofNat_of_lt' hword
    generalize ((if decide (i < 0) = true then 2^63 else 0)+capped).toUInt64 = bits at hbits ⊢
    have hexponent : bits/0x10000000000000%0x800 = 0x7ff → bits%0x10000000000000 = 0 := by
      intro hall
      have hnat := congrArg UInt64.toNat hall
      refine UInt64.toNat_inj.mp ?_
      rw [UInt64.toNat_mod,UInt64.toNat_div,hbits] at hnat
      rw [UInt64.toNat_mod,hbits]
      simp only [UInt64.reduceToNat] at hnat ⊢
      split at hnat
      · rename_i hnegative
        rw [if_pos hnegative]
        omega
      · rename_i hnegative
        rw [if_neg hnegative]
        omega
    unfold JsNumber.isNaN JsNumber.isFinite
    by_cases hall : bits/0x10000000000000%0x800 = 0x7ff
    · rw [hexponent hall]
      simp
    · simp [hall]

/-- A replacement is a number, unless the value was none. -/
theorem isNaN_repairedItem (h : (repairedItem schemas field item).isNaN = true) : item.isNaN = true := by
  cases hknown : isRepairable schemas field item with
  | false =>
    rw [repairedItem_same hknown] at h
    exact h
  | true =>
    rcases (repairedItem_known hknown).2.2 with ⟨i,hi⟩ | hzero | ⟨text,htext⟩
    · rw [hi] at h
      exact absurd ((isNaN_ofInt i).symm.trans h) Bool.false_ne_true
    · rw [hzero] at h
      exact absurd h (by decide)
    · rw [htext] at h
      cases h

/-- Messages are not known values. -/
theorem isRepairable_message (hkind : field.kind = .message) (item : Item) : isRepairable schemas field item = false := by
  unfold isRepairable
  rw [hkind]
  cases item with
  | _ => rfl

end Values

section Graphs

variable {schemas : Schemas} {codecs : Codecs} {heap base later : Heap}

/-- The objects there were are the same in a larger heap. -/
theorem cellAt_grow (hgrow : base <+: later) {address : ℕ} (h : address < base.length) :
    cellAt later address = cellAt base address := by
  obtain ⟨added,rfl⟩ := hgrow
  unfold cellAt
  rw [List.getElem?_append_left h]

theorem cellAt_mem {address : ℕ} (h : address < heap.length) : cellAt heap address ∈ heap := by
  unfold cellAt
  rw [List.getElem?_eq_getElem h]
  exact List.getElem_mem h

/-- A scalar leads nowhere. -/
theorem Item.inside_scalar {item : Item} (h : ∀ address, item ≠ .reference address) : item.Inside heap :=
  fun address heq => absurd heq (h address)

/-- An own property of an object is the length of an array or one of its properties. -/
theorem own_cases {cell : Cell} {name : JsString} {item : Item} (h : cell.own name = some item) :
    (name = ofString "length" ∧ ∃ n, item = .number (.ofInt n)) ∨ InsertionMap.find cell.members name = some item := by
  cases cell with
  | array items =>
    unfold Cell.own at h
    dsimp only at h
    split at h
    · rename_i hname
      exact .inl ⟨hname,_,(Option.some.inj h).symm⟩
    · exact .inr h
  | _ => exact .inr h

/-- What an object holds for a field leads into the graph. -/
theorem Holds.inside (hlinked : Linked codecs heap) {schemaId address : ℕ} {field : ProtoField} {current : Item}
    (h : Holds schemas heap schemaId address field current) (hlt : address < heap.length) : current.Inside heap := by
  obtain ⟨name,hname⟩ := h.named
  have hown : ∃ name, (cellAt heap address).own name = some current := by
    unfold fieldKey at hname
    split at hname
    · rename_i item hitem
      cases hname
      exact ⟨_,hitem⟩
    · split at hname
      · split at hname
        · obtain ⟨item,hitem,heq⟩ := Option.map_eq_some_iff.mp hname
          cases heq
          exact ⟨_,hitem⟩
        · cases hname
      · cases hname
  obtain ⟨other,hother⟩ := hown
  rcases own_cases hother with ⟨_,n,rfl⟩ | hfind
  · exact Item.inside_scalar fun address hno => nomatch hno
  · exact hlinked.members _ (cellAt_mem hlt) _ (InsertionMap.mem_of_find hfind)

/-- So do the values in it. -/
theorem visited_inside (hlinked : Linked codecs heap) {field : ProtoField} {current : Item}
    (h : current.Inside heap) {item : Item} (hitem : item ∈ visitedItems codecs heap field current) :
    item.Inside heap := by
  unfold visitedItems at hitem
  split at hitem
  · cases current with
    | reference address =>
      have hcell := hlinked.members _ (cellAt_mem (h address rfl))
      dsimp only at hitem
      cases harray : cellAt heap address with
      | array items =>
        rw [harray] at hitem hcell
        obtain ⟨i,hi⟩ := List.mem_iff_getElem?.mp hitem
        have hmem : (item,i) ∈ items.zipIdx := List.mem_zipIdx_iff_getElem?.mpr hi
        exact hcell (natText i,item) (List.mem_map.mpr ⟨(item,i),hmem,rfl⟩)
      | _ =>
        rw [harray] at hitem
        cases hitem
    | _ => cases hitem
  · split at hitem
    · cases current with
      | reference address =>
        have hcell := hlinked.members _ (cellAt_mem (h address rfl))
        dsimp only at hitem
        obtain ⟨member,hmember,rfl⟩ := List.mem_map.mp hitem
        unfold Codecs.enumerable at hmember
        split at hmember
        · rename_i id members hmessage
          rcases List.mem_append.mp hmember with hown | hinherited
          · exact hcell member (hmessage ▸ hown)
          · exact hlinked.inherited id member (List.mem_of_mem_filter hinherited)
        · exact hcell member hmember
      | _ => cases hitem
    · rw [List.mem_singleton.mp hitem]
      exact h

/-- A larger heap has the same values in what leads into the graph. -/
theorem visitedItems_grow (hgrow : base <+: later) {current : Item} (h : current.Inside base) (field : ProtoField) :
    visitedItems codecs later field current = visitedItems codecs base field current := by
  unfold visitedItems
  cases current with
  | reference address =>
    have hcell := cellAt_grow hgrow (h address rfl)
    dsimp only
    rw [hcell]
  | _ => rfl

theorem holds_grow (hgrow : base <+: later) {schemaId address : ℕ} (h : address < base.length) {field : ProtoField}
    {current : Item} : Holds schemas later schemaId address field current ↔ Holds schemas base schemaId address field current := by
  have hcell := cellAt_grow hgrow h
  constructor
  · intro hholds
    exact ⟨hholds.listed,hcell ▸ hholds.named,hholds.present⟩
  · intro hholds
    exact ⟨hholds.listed,hcell.symm ▸ hholds.named,hholds.present⟩

/-- What a walk comes to first. -/
theorem meets_cases {special : ProtoField → Item → Prop} {seen : List ℕ} {schemaId : ℕ} {item : Item} :
    Meets schemas codecs heap special seen schemaId item ↔ ∃ address, item = .reference address ∧ address ∉ seen ∧
      ∃ field current, Holds schemas heap schemaId address field current ∧ (special field current ∨
        field.kind = .message ∧ ∃ inner ∈ visitedItems codecs heap field current,
          Meets schemas codecs heap special (address::seen) field.reference inner) := by
  constructor
  · intro h
    cases h with
    | here _ _ address field current new holds found => exact ⟨address,rfl,new,field,current,holds,.inl found⟩
    | under _ _ address field current inner new holds kind visited nested =>
      exact ⟨address,rfl,new,field,current,holds,.inr ⟨kind,inner,visited,nested⟩⟩
  · rintro ⟨address,rfl,new,field,current,holds,found | ⟨kind,inner,visited,nested⟩⟩
    · exact .here _ _ _ field current new holds found
    · exact .under _ _ _ field current inner new holds kind visited nested

/-- Walks of a larger heap that start in the graph are walks of the graph; ancestors outside of
it do not stop them. -/
theorem Meets.within {special wider : ProtoField → Item → Prop} (hlinked : Linked codecs base) (hgrow : base <+: later)
    (hspecial : ∀ field current, current.Inside base → wider field current → special field current)
    {seen : List ℕ} {schemaId : ℕ} {item : Item} (h : Meets schemas codecs later wider seen schemaId item)
    (hinside : item.Inside base) {inner : List ℕ} (hsub : ∀ address ∈ inner, address < base.length → address ∈ seen) :
    Meets schemas codecs base special inner schemaId item := by
  have hnext : ∀ {seen inner : List ℕ} {address : ℕ}, (∀ address ∈ inner, address < base.length → address ∈ seen) →
      ∀ other ∈ address::inner, other < base.length → other ∈ address::seen := by
    intro seen inner address hsub other hother hlt
    rcases List.mem_cons.mp hother with rfl | hin
    · exact List.mem_cons_self
    · exact List.mem_cons_of_mem _ (hsub other hin hlt)
  induction h generalizing inner with
  | here seen schemaId address field current new holds found =>
    have hlt := hinside address rfl
    have hbase := (holds_grow hgrow hlt).mp holds
    have hcurrent := hbase.inside hlinked hlt
    exact .here _ _ _ field current (fun hin => new (hsub address hin hlt)) hbase (hspecial field current hcurrent found)
  | under seen schemaId address field current item new holds kind visited _ ih =>
    have hlt := hinside address rfl
    have hbase := (holds_grow hgrow hlt).mp holds
    have hcurrent := hbase.inside hlinked hlt
    rw [visitedItems_grow hgrow hcurrent] at visited
    exact .under _ _ _ field current item (fun hin => new (hsub address hin hlt)) hbase kind visited
      (ih (visited_inside hlinked hcurrent visited) (hnext hsub))

/-- Where no object contains itself, ancestors stop no walk. -/
theorem Meets.anywhere {special : ProtoField → Item → Prop} {seen inner : List ℕ} {schemaId : ℕ} {item : Item}
    (h : Meets schemas codecs heap special inner schemaId item)
    (hreturns : ¬Returns schemas codecs heap seen schemaId item) : Meets schemas codecs heap special seen schemaId item := by
  induction h generalizing seen with
  | here _ schemaId address field current _ holds found =>
    exact .here _ _ _ field current (fun hin => hreturns (.here _ _ _ hin)) holds found
  | under _ schemaId address field current item _ holds kind visited _ ih =>
    have hnew : address ∉ seen := fun hin => hreturns (.here _ _ _ hin)
    exact .under _ _ _ field current item hnew holds kind visited
      (ih fun hnested => hreturns (.under _ _ _ field current item hnew holds kind visited hnested))

/-- Only an object that contains itself hides a change. -/
theorem Hides.returns {seen : List ℕ} {schemaId : ℕ} {item : Item} (h : Hides schemas codecs heap seen schemaId item) :
    Returns schemas codecs heap seen schemaId item := by
  induction h with
  | here seen schemaId address field current item touches new holds kind visited below afresh =>
    by_contra hreturns
    refine below (afresh.anywhere fun hnested => hreturns ?_)
    exact .under _ _ _ field current item new holds kind visited hnested
  | under seen schemaId address field current item new holds kind visited _ ih =>
    exact .under _ _ _ field current item new holds kind visited ih

end Graphs

end Baileyrs.ProtoRuntime
