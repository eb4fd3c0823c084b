import Baileyrs.RepairWalks

/-!
# Loops that copy what they change

A loop converts elements one after the other and writes those that differ into
a copy, which the first of them makes. Whatever a conversion returns is told
by the objects it made and by those there were at first, so the writes to the
copy do not touch it. Fields, arrays and objects of values are such loops.
-/

namespace Baileyrs.ProtoRuntime

open JsString AtomicStore

/-- What a conversion of an item did: nothing, unless the item is one to change. What its result
is related to does not depend on objects others made. -/
structure Conversion (base heap : Heap) (item : Item) (changed : Prop) (related : Heap → Item → Prop) (out : Item)
    (later : Heap) : Prop where
  /-- Every object is as it was. -/
  grows : heap <+: later
  /-- Another item is returned as it is. -/
  same : ¬changed → out = item ∧ later = heap ∧ out.differs item = false
  /-- An item to change is. -/
  differs : changed → out.differs item = true
  /-- What the result is. -/
  result : ∀ last, base <+: last →
    (∀ address, heap.length ≤ address → address < later.length → last[address]? = later[address]?) → related last out

/-- From every larger heap on, a conversion of an item does so. -/
def Converts (base : Heap) (convert : HeapM Item) (item : Item) (changed : Prop) (related : Heap → Item → Prop) : Prop :=
  ∀ heap, base <+: heap → ∃ out later, convert heap = .ok (out,later) ∧
    Conversion base heap item changed related out later

section Loops

variable {α : Type} (cell : Cell) (write : α → Item → Cell → Cell) (convert : α → HeapM Item) (item : α → Item)

/-- Convert one element. -/
def loopStep (output : Option ℕ) (element : α) : HeapM (Option ℕ) := do
  let converted ← convert element
  putConverted (allocate cell) (write element) output (item element) converted

/-- The copy after results were written into it. -/
def written (results : List (α × Item)) : Cell :=
  results.foldl (fun copy result => if result.2.differs (item result.1) then write result.1 result.2 copy else copy) cell

theorem written_snoc (results : List (α × Item)) (element : α) (out : Item) :
    written cell write item (results++[(element,out)]) =
      if out.differs (item element) then write element out (written cell write item results)
      else written cell write item results := by
  unfold written
  rw [List.foldl_append]
  rfl

/-- A result of an element: something else exactly when the element is to change. -/
def ResultOf (changed : α → Prop) (element : α) (out : Item) : Prop :=
  (changed element → out.differs (item element) = true) ∧
    (¬changed element → out = item element ∧ out.differs (item element) = false)

/-- The loop after some elements. -/
structure Looping (base start : Heap) (changed : α → Prop) (related : α → Heap → Item → Prop) (elements : List α)
    (outs : List Item) (output : Option ℕ) (heap : Heap) : Prop where
  /-- Objects there were at the start are as they were. -/
  grows : start <+: heap
  /-- Every element has its result. -/
  results : List.Forall₂ (ResultOf item changed) elements outs
  /-- Without a copy nothing was to change. -/
  nothing : output = none → heap = start ∧ ∀ element ∈ elements, ¬changed element
  /-- The copy is new, and holds what was changed. -/
  copied : ∀ copy, output = some copy → start.length ≤ copy ∧ (∃ element ∈ elements, changed element) ∧
    heap[copy]? = some (written cell write item (elements.zip outs))
  /-- What the results are. -/
  related : ∀ last, base <+: last → (∀ address, start.length ≤ address → address < heap.length → output ≠ some address →
    last[address]? = heap[address]?) → List.Forall₂ (fun element out => related element last out) elements outs

section Steps

variable {cell write convert item} {base start heap : Heap} {changed : α → Prop} {related : α → Heap → Item → Prop}
  {elements : List α} {outs : List Item} {output : Option ℕ} {element : α}

/-- Where nothing is to change nothing is written. -/
theorem written_same (hresults : List.Forall₂ (ResultOf item changed) elements outs)
    (hsame : ∀ element ∈ elements, ¬changed element) : written cell write item (elements.zip outs) = cell := by
  induction hresults with
  | nil => rfl
  | @cons element out elements outs hhead _ ih =>
    have hout := (hhead.2 (hsame element List.mem_cons_self)).2
    have hrest := ih fun other hother => hsame other (List.mem_cons_of_mem _ hother)
    unfold written at hrest ⊢
    rw [List.zip_cons_cons,List.foldl_cons,if_neg (by rw [hout]; exact Bool.false_ne_true)]
    exact hrest

/-- A list and its last element. -/
theorem forall₂_snoc {β : Type} {related : α → β → Prop} {items : List α} {others : List β} {item : α} {other : β}
    (h : List.Forall₂ related items others) (hlast : related item other) :
    List.Forall₂ related (items++[item]) (others++[other]) := by
  induction h with
  | nil => exact .cons hlast .nil
  | cons hhead _ ih => exact .cons hhead ih

theorem zip_snoc {β : Type} {items : List α} {others : List β} (h : items.length = others.length) (item : α) (other : β) :
    (items++[item]).zip (others++[other]) = items.zip others++[(item,other)] := by
  rw [List.zip_append h]
  rfl

/-- An element that is not to change leaves the loop as it is. -/
theorem Looping.keep (h : Looping cell write item base start changed related elements outs output heap) {out : Item}
    {later : Heap} (hconversion : Conversion base heap (item element) (changed element) (related element) out later)
    (hsame : ¬changed element) :
    Looping cell write item base start changed related (elements++[element]) (outs++[out]) output later := by
  obtain ⟨hout,rfl,hdiffers⟩ := hconversion.same hsame
  constructor
  · exact h.grows
  · exact forall₂_snoc h.results ⟨fun hno => absurd hno hsame,fun _ => ⟨hout,hdiffers⟩⟩
  · intro hnone
    obtain ⟨hheap,hall⟩ := h.nothing hnone
    refine ⟨hheap,fun other hother => ?_⟩
    rcases List.mem_append.mp hother with hin | hlast
    · exact hall other hin
    · rw [List.mem_singleton.mp hlast]
      exact hsame
  · intro copy hcopy
    obtain ⟨hnew,⟨other,hother,hchanged⟩,hheld⟩ := h.copied copy hcopy
    refine ⟨hnew,⟨other,List.mem_append_left _ hother,hchanged⟩,?_⟩
    rw [zip_snoc h.results.length_eq,written_snoc,if_neg (by rw [hdiffers]; exact Bool.false_ne_true)]
    exact hheld
  · intro last hbase hagrees
    refine forall₂_snoc (h.related last hbase hagrees) (hconversion.result last hbase fun address hfrom hto => ?_)
    omega

/-- Writing to the copy leaves other objects alone. -/
theorem modifyCell_run {address : ℕ} {current : Cell} {f : Cell → Cell} (h : heap[address]? = some current) :
    modifyCell address f heap = .ok ((),heap.set address (f current)) := by
  unfold modifyCell cellAt
  rw [h]
  rfl

/-- An element to change is written into the copy. -/
theorem Looping.put (h : Looping cell write item base start changed related elements outs output heap) {out : Item}
    {later : Heap} (hconversion : Conversion base heap (item element) (changed element) (related element) out later)
    (hchanged : changed element) :
    ∃ copy last, (do
        let address ← copyOnce (allocate cell) output
        modifyCell address (write element out)
        return some address : HeapM (Option ℕ)) later = .ok (some copy,last) ∧
      Looping cell write item base start changed related (elements++[element]) (outs++[out]) (some copy) last := by
  have hdiffers := hconversion.differs hchanged
  have hgrows := hconversion.grows
  have hlength := hgrows.length_le
  have hstart := h.grows.length_le
  have hone := zip_snoc h.results.length_eq element out
  -- the copy, in the heap before the write, and where it is
  have hcopy : ∃ copy made, copyOnce (allocate cell) output later = .ok (copy,made) ∧ later <+: made ∧
      start.length ≤ copy ∧ made[copy]? = some (written cell write item (elements.zip outs)) ∧
      (∀ address, address < heap.length → output ≠ some address → address ≠ copy) ∧
      (∀ address, heap.length ≤ address → address < later.length → address ≠ copy) := by
    cases houtput : output with
    | none =>
      obtain ⟨_,hall⟩ := h.nothing houtput
      refine ⟨later.length,later++[cell],rfl,List.prefix_append _ _,by omega,?_,fun address hlt _ => by omega,
        fun address _ hlt => by omega⟩
      rw [written_same h.results hall]
      exact List.getElem?_concat_length
    | some copy =>
      obtain ⟨hnew,_,hheld⟩ := h.copied copy houtput
      have hlt := (List.getElem?_eq_some_iff.mp hheld).1
      refine ⟨copy,later,rfl,List.prefix_rfl,hnew,getElem?_grow hgrows hheld,fun address _ hne heq => hne (heq ▸ rfl),
        fun address hle _ => by omega⟩
  obtain ⟨copy,made,hrun,hmade,hnew,hheld,hapart,hbeside⟩ := hcopy
  have hin := (List.getElem?_eq_some_iff.mp hheld).1
  have hmadeLength := hmade.length_le
  refine ⟨copy,made.set copy (write element out (written cell write item (elements.zip outs))),?_,?_⟩
  · rw [run_bind hrun,run_bind (modifyCell_run hheld)]
    rfl
  have hset : ∀ address, address ≠ copy →
      (made.set copy (write element out (written cell write item (elements.zip outs))))[address]? = made[address]? :=
    fun address hne => List.getElem?_set_ne (Ne.symm hne)
  have hlater : ∀ address, address < later.length → made[address]? = later[address]? := by
    intro address hlt
    obtain ⟨added,rfl⟩ := hmade
    exact List.getElem?_append_left hlt
  have hheap : ∀ address, address < heap.length → later[address]? = heap[address]? := by
    intro address hlt
    obtain ⟨added,rfl⟩ := hgrows
    exact List.getElem?_append_left hlt
  constructor
  · exact prefix_set ((h.grows.trans hgrows).trans hmade) hnew _
  · exact forall₂_snoc h.results ⟨fun _ => hdiffers,fun hno => absurd hchanged hno⟩
  · exact fun hnone => nomatch hnone
  · intro other hother
    cases hother
    refine ⟨hnew,⟨element,List.mem_append_right _ List.mem_cons_self,hchanged⟩,?_⟩
    rw [hone,written_snoc,if_pos hdiffers,List.getElem?_set_self hin]
  · intro last hlast hagrees
    rw [List.length_set] at hagrees
    refine forall₂_snoc (h.related last hlast fun address hfrom hto hne => ?_)
      (hconversion.result last hlast fun address hfrom hto => ?_)
    · have hother := hapart address hto hne
      rw [hagrees address hfrom (by omega) (fun heq => hother (Option.some.inj heq).symm),hset address hother,
        hlater address (by omega),hheap address hto]
    · have hother := hbeside address hfrom hto
      rw [hagrees address (by omega) (by omega) (fun heq => hother (Option.some.inj heq).symm),hset address hother,
        hlater address hto]

/-- One more element. -/
theorem Looping.next (h : Looping cell write item base start changed related elements outs output heap)
    (hbase : base <+: start) (hconverts : Converts base (convert element) (item element) (changed element) (related element)) :
    ∃ out next last, loopStep cell write convert item output element heap = .ok (next,last) ∧
      Looping cell write item base start changed related (elements++[element]) (outs++[out]) next last := by
  obtain ⟨out,later,hrun,hconversion⟩ := hconverts heap (hbase.trans h.grows)
  unfold loopStep putConverted
  rw [run_bind hrun]
  by_cases hchanged : changed element
  · obtain ⟨copy,last,hwrite,hlooping⟩ := h.put hconversion hchanged
    rw [hconversion.differs hchanged,if_pos rfl]
    exact ⟨out,some copy,last,hwrite,hlooping⟩
  · rw [(hconversion.same hchanged).2.2,if_neg Bool.false_ne_true]
    exact ⟨out,output,later,rfl,h.keep hconversion hchanged⟩

end Steps

end Loops

/-- What a field holds after a conversion: values that come from values it held, and no number
that differs from itself unless it held one. -/
structure FieldResult (codecs : Codecs) (base : Heap) (field : ProtoField) (current : Item)
    (related : Item → Heap → Item → Prop) (last : Heap) (out : Item) : Prop where
  /-- Every value comes from one. -/
  values : ∀ item ∈ visitedItems codecs last field out, ∃ original ∈ visitedItems codecs base field current,
    related original last item
  /-- So does a number that differs from itself. -/
  number : out.isNaN = true → current.isNaN = true

section Fields

variable {codecs : Codecs} {base : Heap} {field : ProtoField} {current : Item} {convert : Item → HeapM Item}
  {changed : Item → Prop} {related : Item → Heap → Item → Prop}

/-- Nothing is done to an item. -/
theorem Converts.pure {related : Heap → Item → Prop} (item : Item) (hrelated : ∀ last, base <+: last → related last item) :
    Converts base (pure item) item (item.isNaN = true) related := by
  intro heap _
  refine ⟨item,heap,rfl,List.prefix_rfl,fun hno => ⟨rfl,rfl,?_⟩,fun hyes => ?_,fun last hbase _ => hrelated last hbase⟩
  · rw [differs_self_eq]
    exact Bool.eq_false_iff.mpr hno
  · rw [differs_self_eq]
    exact hyes

/-- Another way to say what is to change, and what the result is. -/
theorem Converts.congr {convert : HeapM Item} {item : Item} {changed changed' : Prop} {related related' : Heap → Item → Prop}
    (h : Converts base convert item changed related) (hchanged : changed ↔ changed')
    (hrelated : ∀ last out, base <+: last → related last out → related' last out) :
    Converts base convert item changed' related' := by
  intro heap hgrow
  obtain ⟨out,later,hrun,hconversion⟩ := h heap hgrow
  exact ⟨out,later,hrun,hconversion.grows,fun hno => hconversion.same fun hyes => hno (hchanged.mp hyes),
    fun hyes => hconversion.differs (hchanged.mpr hyes),fun last hbase hagrees => hrelated last out hbase (hconversion.result last hbase hagrees)⟩

/-- A field without values is returned as it is. -/
theorem Converts.kept (hnone : ∀ last, base <+: last → visitedItems codecs last field current = []) :
    Converts base (Pure.pure current) current
      (current.isNaN = true ∨ ∃ item ∈ visitedItems codecs base field current, changed item)
      (FieldResult codecs base field current related) := by
  refine (@Converts.pure base (FieldResult codecs base field current related) current fun last hbase => ?_).congr ?_
    fun _ _ _ h => h
  · refine ⟨fun item hitem => ?_,id⟩
    rw [hnone last hbase] at hitem
    cases hitem
  · rw [hnone base List.prefix_rfl]
    simp

/-- Reading an object of the graph. -/
theorem Converts.read {address : ℕ} (hin : address < base.length) {next : Cell → HeapM Item} {item : Item} {touched : Prop}
    {results : Heap → Item → Prop} (h : Converts base (next (cellAt base address)) item touched results) :
    Converts base (readCell address >>= next) item touched results := by
  intro heap hgrow
  obtain ⟨out,later,hrun,hconversion⟩ := h heap hgrow
  refine ⟨out,later,?_,hconversion⟩
  have hread : readCell address heap = .ok (cellAt base address,heap) := by
    unfold readCell
    rw [cellAt_grow hgrow hin]
  rw [run_bind hread]
  exact hrun

end Fields

end Baileyrs.ProtoRuntime
