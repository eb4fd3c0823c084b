import Baileyrs.ProtoTree

/-!
# The passes on the heap compute the passes on trees

An item of the heap denotes a tree to a depth. A pass leaves every object that
was there as it is, and what it returns denotes the tree the pass computes: the
copy a loop writes to is new, and nothing reachable from it leads back to it.
-/

namespace Baileyrs.ProtoRuntime

open JsString

/-- A computation that succeeds hands its result and the heap on. -/
theorem run_bind {α β : Type} {first : HeapM α} {next : α → HeapM β} {heap later : Heap} {result : α}
    (h : first heap = .ok (result,later)) : (first >>= next) heap = next result later := by
  change (first heap).bind (fun state => next state.1 state.2) = _
  rw [h]
  rfl

/-- Reading an object that is there. -/
theorem readCell_run {heap : Heap} {address : ℕ} {cell : Cell} (h : heap[address]? = some cell) :
    readCell address heap = .ok (cell,heap) := by
  unfold readCell cellAt
  rw [h]
  rfl

/-- An object denotes a tree, given what items denote. -/
def DenotesCell (denotes : Item → Value → Prop) : Cell → Value → Prop
  | .bytes data,.bytes other => data = other
  | .long value,.long other => value = other
  | .array items,.array values => List.Forall₂ denotes items values
  | .object prototype members,.object other values =>
    prototype = other ∧
      List.Forall₂ (fun member value => member.1 = value.1 ∧ denotes member.2 value.2) members values
  | _,_ => False

/-- An item denotes a tree of some depth, through allowed objects. -/
def Denotes (heap : Heap) (allowed : ℕ → Prop) : ℕ → Item → Value → Prop
  | 0,item,value => (∀ address, item ≠ .reference address) ∧ value = item.value
  | n+1,.reference address,value =>
    allowed address ∧ ∃ cell, heap[address]? = some cell ∧ DenotesCell (Denotes heap allowed n) cell value
  | _+1,item,value => value = item.value

/-- What items denote carries over to objects. -/
theorem DenotesCell.imp {first second : Item → Value → Prop} (h : ∀ item value, first item value → second item value)
    {cell : Cell} {value : Value} (hcell : DenotesCell first cell value) : DenotesCell second cell value := by
  cases cell with
  | bytes data => cases value with
    | bytes other => exact hcell
    | _ => exact hcell
  | long data => cases value with
    | long other => exact hcell
    | _ => exact hcell
  | array items => cases value with
    | array values => exact List.Forall₂.imp h hcell
    | _ => exact hcell
  | object prototype members => cases value with
    | object other values =>
      exact ⟨hcell.1,hcell.2.imp fun member value hboth => ⟨hboth.1,h _ _ hboth.2⟩⟩
    | _ => exact hcell

/-- Only the objects that are read matter. -/
theorem Denotes.mono {heap later : Heap} {allowed permitted : ℕ → Prop}
    (h : ∀ address cell, allowed address → heap[address]? = some cell → permitted address ∧ later[address]? = some cell)
    {n : ℕ} {item : Item} {value : Value} (hread : Denotes heap allowed n item value) :
    Denotes later permitted n item value := by
  induction n generalizing item value with
  | zero => exact hread
  | succ n ih =>
    cases item with
    | reference address =>
      obtain ⟨hallowed,cell,hcell,hdenotes⟩ := hread
      obtain ⟨hpermitted,hlater⟩ := h address cell hallowed hcell
      exact ⟨hpermitted,cell,hlater,hdenotes.imp fun item value => ih⟩
    | _ => exact hread

/-- A tree is read to any greater depth. -/
theorem Denotes.deeper {heap : Heap} {allowed : ℕ → Prop} {n m : ℕ} (h : n ≤ m) {item : Item} {value : Value}
    (hread : Denotes heap allowed n item value) : Denotes heap allowed m item value := by
  induction n generalizing m item value with
  | zero =>
    cases m with
    | zero => exact hread
    | succ m =>
      cases item with
      | reference address => exact absurd rfl (hread.1 address)
      | _ => exact hread.2
  | succ n ih =>
    cases m with
    | zero => omega
    | succ m =>
      cases item with
      | reference address =>
        obtain ⟨hallowed,cell,hcell,hdenotes⟩ := hread
        exact ⟨hallowed,cell,hcell,hdenotes.imp fun item value hitem => ih (by omega) hitem⟩
      | _ => exact hread

/-- An address that leads to an object is within the heap. -/
theorem address_lt {heap : Heap} {address : ℕ} {cell : Cell} (h : heap[address]? = some cell) :
    address < heap.length := (List.getElem?_eq_some_iff.mp h).1

/-- A larger heap has the objects there were. -/
theorem getElem?_grow {heap later : Heap} (hgrow : heap <+: later) {address : ℕ} {cell : Cell}
    (h : heap[address]? = some cell) : later[address]? = some cell := by
  obtain ⟨added,rfl⟩ := hgrow
  rw [List.getElem?_append_left (address_lt h)]
  exact h

/-- A larger heap denotes the same, also without its new objects. -/
theorem Denotes.grow {heap later : Heap} {allowed permitted : ℕ → Prop} (hgrow : heap <+: later)
    (h : ∀ address, allowed address → address < heap.length → permitted address) {n : ℕ} {item : Item}
    {value : Value} (hread : Denotes heap allowed n item value) : Denotes later permitted n item value :=
  hread.mono fun address _ hallowed hcell =>
    ⟨h address hallowed (address_lt hcell),getElem?_grow hgrow hcell⟩

/-- From a heap on, a pass over an item does what a pass over the tree says: it
keeps every object, and returns the same item or a different one that denotes
the changed tree. -/
def Changes (base : Heap) (convert : Item → HeapM Item) (change : Value → Option Value) (n : ℕ) (item : Item)
    (value : Value) : Prop :=
  ∀ heap allowed, base <+: heap → (∀ address, heap.length ≤ address → allowed address) →
    Denotes heap allowed n item value → ∃ converted later, convert item heap = .ok (converted,later) ∧ heap <+: later ∧
      ((change value = none ∧ converted = item ∧ item.differs item = false) ∨
        ∃ changed, change value = some changed ∧ converted.differs item = true ∧
          Denotes later allowed n converted changed)

/-- A pass that works from a heap on works from any larger heap on. -/
theorem Changes.later {base heap : Heap} {convert : Item → HeapM Item} {change : Value → Option Value}
    {n : ℕ} {item : Item} {value : Value} (h : Changes base convert change n item value)
    (hgrow : base <+: heap) : Changes heap convert change n item value :=
  fun later allowed hlater => h later allowed (hgrow.trans hlater)

/-- The copy a loop writes to, and the tree it denotes without being read itself. -/
inductive Written (base heap : Heap) (allowed : ℕ → Prop) (n : ℕ) : Option ℕ → Option Value → Prop where
  | unchanged (grows : base <+: heap) : Written base heap allowed n none none
  | copied (grows : base <+: heap) (address : ℕ) (fresh : base.length ≤ address) (cell : Cell)
    (held : heap[address]? = some cell) (value : Value)
    (denotes : DenotesCell (Denotes heap (fun other => allowed other ∧ other ≠ address) n) cell value) :
    Written base heap allowed n (some address) (some value)

/-- Objects a loop may read besides its copy. -/
def besides (allowed : ℕ → Prop) (output : Option ℕ) : ℕ → Prop :=
  fun address => allowed address ∧ output ≠ some address

section Written

variable {base heap later : Heap} {allowed : ℕ → Prop} {n : ℕ} {output : Option ℕ} {value : Option Value}

theorem Written.grows (h : Written base heap allowed n output value) : base <+: heap := by
  cases h with
  | unchanged grows => exact grows
  | copied grows => exact grows

/-- What was read at the start can be read besides the copy. -/
theorem Written.read (h : Written base heap allowed n output value) {m : ℕ} {item : Item} {tree : Value}
    (hread : Denotes base allowed m item tree) : Denotes heap (besides allowed output) m item tree := by
  refine hread.grow h.grows fun address hallowed hlt => ⟨hallowed,?_⟩
  cases h with
  | unchanged grows => exact fun hnone => nomatch hnone
  | copied grows copy fresh =>
    intro heq
    cases heq
    omega

/-- New objects can be read besides the copy. -/
theorem Written.fresh (h : Written base heap allowed n output value)
    (hfresh : ∀ address, base.length ≤ address → allowed address) (address : ℕ) (hlt : heap.length ≤ address) :
    besides allowed output address := by
  have hle := h.grows.length_le
  refine ⟨hfresh address (by omega),?_⟩
  cases h with
  | unchanged grows => exact fun hnone => nomatch hnone
  | copied grows copy _ cell held =>
    intro heq
    cases heq
    have hbound := address_lt held
    omega

/-- Growing the heap keeps the copy. -/
theorem Written.grow (h : Written base heap allowed n output value) (hgrow : heap <+: later) :
    Written base later allowed n output value := by
  cases h with
  | unchanged grows => exact .unchanged (grows.trans hgrow)
  | copied grows copy fresh cell held value denotes =>
    exact .copied (grows.trans hgrow) copy fresh cell (getElem?_grow hgrow held) value
      (denotes.imp fun item value hread => hread.grow hgrow fun address hallowed _ => hallowed)

/-- Writing to the copy keeps what was there before. -/
theorem prefix_set {address : ℕ} (h : base <+: heap) (hle : base.length ≤ address) (cell : Cell) :
    base <+: heap.set address cell := by
  obtain ⟨added,rfl⟩ := h
  rw [List.set_append_right _ _ hle]
  exact List.prefix_append ..

/-- Writes to the copy follow writes to its tree. -/
theorem Written.write {address : ℕ} {tree : Value} (h : Written base heap allowed n (some address) (some tree))
    {write : Cell → Cell} {treeWrite : Value → Value}
    (hwrite : ∀ cell value, DenotesCell (Denotes heap (fun other => allowed other ∧ other ≠ address) n) cell value →
      DenotesCell (Denotes heap (fun other => allowed other ∧ other ≠ address) n) (write cell) (treeWrite value)) :
    ∃ later, modifyCell address write heap = .ok ((),later) ∧
      Written base later allowed n (some address) (some (treeWrite tree)) := by
  cases h with
  | copied grows _ fresh cell held _ denotes =>
    have hcell : cellAt heap address = cell := by
      unfold cellAt
      rw [held]
      rfl
    have hset : (heap.set address (write cell))[address]? = some (write cell) := by
      rw [List.getElem?_set_self (address_lt held)]
    refine ⟨_,rfl,?_⟩
    rw [hcell]
    refine .copied (prefix_set grows fresh _) address fresh (write cell) hset _ ((hwrite cell _ denotes).imp ?_)
    intro item value hread
    refine hread.mono fun other inner hallowed hinner => ⟨hallowed,?_⟩
    rw [List.getElem?_set_ne (Ne.symm hallowed.2)]
    exact hinner

/-- The first write makes the copy. -/
theorem Written.copy (h : Written base heap allowed n output value) {start : Cell} {copy : Value}
    (hstart : DenotesCell (Denotes base allowed n) start copy) :
    ∃ address later, copyOnce (allocate start) output heap = .ok (address,later) ∧ heap <+: later ∧
      (∀ other, other < heap.length → output ≠ some other → other ≠ address) ∧
      Written base later allowed n (some address) (some (value.getD copy)) := by
  cases h with
  | unchanged grows =>
    refine ⟨heap.length,heap++[start],rfl,List.prefix_append ..,fun other hlt _ => by omega,?_⟩
    have hheld : (heap++[start])[heap.length]? = some start := List.getElem?_concat_length
    refine .copied (grows.trans (List.prefix_append ..)) heap.length grows.length_le start hheld copy
      (hstart.imp fun item value hread => ?_)
    refine hread.grow (grows.trans (List.prefix_append ..)) fun address hallowed hlt => ⟨hallowed,?_⟩
    have hle := grows.length_le
    omega
  | copied grows address fresh cell held tree denotes =>
    exact ⟨address,heap,rfl,List.prefix_rfl,fun other _ hne heq => hne (heq ▸ rfl),
      .copied grows address fresh cell held tree denotes⟩

/-- A converted value is written into the copy when it changed. -/
theorem Written.put (h : Written base heap allowed n output value)
    (hfresh : ∀ address, base.length ≤ address → allowed address) {start : Cell} {copy : Value}
    (hstart : DenotesCell (Denotes base allowed n) start copy) {convert : Item → HeapM Item}
    {change : Value → Option Value} {current : Item} {tree : Value}
    (hchanges : Changes base convert change n current tree) (hread : Denotes base allowed n current tree)
    {write : Item → Cell → Cell} {treeWrite : Value → Value → Value}
    (hwrite : ∀ denotes : Item → Value → Prop, ∀ cell value item changed, DenotesCell denotes cell value →
      denotes item changed → DenotesCell denotes (write item cell) (treeWrite changed value)) :
    ∃ written later, (do
        let converted ← convert current
        putConverted (allocate start) write output current converted : HeapM (Option ℕ)) heap =
          .ok (written,later) ∧
      Written base later allowed n written (putChanged copy treeWrite value (change tree)) := by
  obtain ⟨converted,next,hrun,hgrow,hcases⟩ := hchanges heap (besides allowed output) h.grows
    (h.fresh hfresh) (h.read hread)
  have hnext := h.grow hgrow
  rcases hcases with ⟨hnone,hsame,hdiffers⟩ | ⟨changed,hsome,hdiffers,hdenotes⟩
  · refine ⟨output,next,?_,?_⟩
    · rw [run_bind hrun]
      unfold putConverted
      rw [hsame,hdiffers]
      rfl
    · rw [hnone]
      exact hnext
  · obtain ⟨address,copied,hcopy,hgrown,hapart,hwritten⟩ := hnext.copy hstart
    have hitem : Denotes copied (fun other => allowed other ∧ other ≠ address) n converted changed :=
      hdenotes.grow hgrown fun other hallowed hlt => ⟨hallowed.1,hapart other hlt hallowed.2⟩
    obtain ⟨later,hmodify,hlater⟩ := hwritten.write fun cell value hcell =>
      hwrite _ cell value converted changed hcell hitem
    refine ⟨some address,later,?_,?_⟩
    · rw [run_bind hrun]
      unfold putConverted
      rw [hdiffers,if_pos rfl,run_bind hcopy,run_bind hmodify]
      rfl
    · rw [hsome]
      exact hlater

/-- What a loop returns is the copy, if there is one. -/
theorem Written.result (h : Written base heap allowed n output value)
    (hfresh : ∀ address, base.length ≤ address → allowed address) {address : ℕ} (hlt : address < base.length) :
    base <+: heap ∧ ((value = none ∧ output.elim (Item.reference address) Item.reference = .reference address ∧
          (Item.reference address).differs (.reference address) = false) ∨ ∃ tree, value = some tree ∧
          (output.elim (Item.reference address) Item.reference).differs (.reference address) = true ∧
          Denotes heap allowed (n+1) (output.elim (Item.reference address) Item.reference) tree) := by
  refine ⟨h.grows,?_⟩
  cases h with
  | unchanged grows => exact .inl ⟨rfl,rfl,decide_eq_false fun hne => hne rfl⟩
  | copied grows copy fresh cell held tree denotes =>
    refine .inr ⟨tree,rfl,decide_eq_true fun heq => ?_,hfresh copy fresh,cell,held,denotes.imp ?_⟩
    · cases heq
      omega
    · exact fun item value hread => hread.mono fun other inner hallowed hinner => ⟨hallowed.1,hinner⟩

/-- A loop over related elements follows the loop over the trees. -/
theorem Written.fold {α β : Type} {step : Option ℕ → α → HeapM (Option ℕ)}
    {treeStep : Option Value → β → Option Value} {items : List α} {trees : List β}
    (hsteps : List.Forall₂ (fun item tree => ∀ heap output value, Written base heap allowed n output value →
      ∃ written later, step output item heap = .ok (written,later) ∧
        Written base later allowed n written (treeStep value tree)) items trees)
    (h : Written base heap allowed n output value) :
    ∃ written later, items.foldlM step output heap = .ok (written,later) ∧
      Written base later allowed n written (trees.foldl treeStep value) := by
  induction hsteps generalizing heap output value with
  | nil => exact ⟨output,heap,rfl,h⟩
  | cons hstep _ ih =>
    obtain ⟨written,later,hrun,hlater⟩ := hstep heap output value h
    obtain ⟨final,last,hrest,hlast⟩ := ih hlater
    refine ⟨final,last,?_,hlast⟩
    rw [List.foldlM_cons,run_bind hrun]
    exact hrest

end Written

section Writes

variable {denotes : Item → Value → Prop} {cell : Cell} {value changed : Value} {item : Item}

theorem DenotesCell.setIndex (h : DenotesCell denotes cell value) (hitem : denotes item changed) (index : ℕ) :
    DenotesCell denotes (Cell.setIndex index item cell) (Value.setIndex index changed value) := by
  cases cell with
  | array items => cases value with
    | array values =>
      have hset : ∀ {items : List Item} {values : List Value} (index : ℕ),
          List.Forall₂ denotes items values →
          List.Forall₂ denotes (items.set index item) (values.set index changed) := by
        intro items values index hall
        induction hall generalizing index with
        | nil => exact .nil
        | cons hhead htail ih =>
          cases index with
          | zero => exact .cons hitem htail
          | succ index => exact .cons hhead (ih index)
      exact hset index h
    | _ => exact h
  | bytes data => cases value with
    | _ => exact h
  | long data => cases value with
    | _ => exact h
  | object prototype members => cases value with
    | _ => exact h

theorem DenotesCell.setMember (h : DenotesCell denotes cell value) (hitem : denotes item changed) (name : JsString) :
    DenotesCell denotes (Cell.setMember name item cell) (Value.setMember name changed value) := by
  cases cell with
  | object prototype members => cases value with
    | object other values =>
      have hput : ∀ {members : List (JsString × Item)} {values : Members},
          List.Forall₂ (fun member value => member.1 = value.1 ∧ denotes member.2 value.2) members values →
          List.Forall₂ (fun member value => member.1 = value.1 ∧ denotes member.2 value.2)
            (InsertionMap.put members name item) (InsertionMap.put values name changed) := by
        intro members values hall
        induction hall with
        | nil => exact .cons ⟨rfl,hitem⟩ .nil
        | @cons member value members values hhead htail ih =>
          unfold InsertionMap.put
          rw [hhead.1]
          split
          · exact .cons ⟨rfl,hitem⟩ htail
          · exact .cons ⟨rfl,hhead.2⟩ ih
      exact ⟨h.1,hput h.2⟩
    | _ => exact h
  | bytes data => cases value with
    | _ => exact h
  | long data => cases value with
    | _ => exact h
  | array items => cases value with
    | _ => exact h

theorem DenotesCell.deleteMember (h : DenotesCell denotes cell value) (name : JsString) :
    DenotesCell denotes (Cell.deleteMember name cell) (Value.deleteMember name value) := by
  cases cell with
  | object prototype members => cases value with
    | object other values =>
      have hfilter : ∀ {members : List (JsString × Item)} {values : Members},
          List.Forall₂ (fun member value => member.1 = value.1 ∧ denotes member.2 value.2) members values →
          List.Forall₂ (fun member value => member.1 = value.1 ∧ denotes member.2 value.2)
            (members.filter fun member => member.1 ≠ name) (values.filter fun value => value.1 ≠ name) := by
        intro members values hall
        induction hall with
        | nil => exact .nil
        | @cons member value members values hhead htail ih =>
          rw [List.filter_cons,List.filter_cons,hhead.1]
          split
          · exact .cons hhead ih
          · exact ih
      exact ⟨h.1,hfilter h.2⟩
    | _ => exact h
  | bytes data => cases value with
    | _ => exact h
  | long data => cases value with
    | _ => exact h
  | array items => cases value with
    | _ => exact h

/-- Properties of an object denote those of its tree. -/
theorem find_related {members : List (JsString × Item)} {values : Members}
    (h : List.Forall₂ (fun member value => member.1 = value.1 ∧ denotes member.2 value.2) members values)
    (name : JsString) : (InsertionMap.find members name = none ∧ InsertionMap.find values name = none) ∨
      ∃ item value, InsertionMap.find members name = some item ∧ InsertionMap.find values name = some value ∧
        denotes item value := by
  induction h with
  | nil => exact .inl ⟨rfl,rfl⟩
  | @cons member value members values hhead _ ih =>
    unfold InsertionMap.find
    rw [hhead.1]
    split
    · exact .inr ⟨_,_,rfl,rfl,hhead.2⟩
    · exact ih

end Writes

end Baileyrs.ProtoRuntime
