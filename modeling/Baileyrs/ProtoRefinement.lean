import Baileyrs.ProtoFieldWalks
import Baileyrs.ProtoSimulation

/-!
# The encoder's passes refine the passes on trees

The loops over arrays, over objects of values and over the fields of a message
follow the tree's, so the projection and the repair do: by induction on the
call stack, for message trees. The repair's set of ancestors never stops it,
since a tree is not below itself.
-/

namespace Baileyrs.ProtoRuntime

open JsString

/-- Related elements with their members. -/
theorem forall₂_mem {α β : Type} {related : α → β → Prop} {items : List α} {trees : List β}
    (h : List.Forall₂ related items trees) :
    List.Forall₂ (fun item tree => related item tree ∧ tree ∈ trees) items trees := by
  induction h with
  | nil => exact .nil
  | cons hhead _ ih =>
    exact .cons ⟨hhead,List.mem_cons_self⟩ (ih.imp fun item tree hboth => ⟨hboth.1,List.mem_cons_of_mem _ hboth.2⟩)

/-- Elements with their indexes. -/
theorem forall₂_indexed {α β : Type} {related : α → β → Prop} {items : List α} {trees : List β}
    (h : List.Forall₂ related items trees) (start : ℕ) :
    List.Forall₂ (fun item tree => item.1 = tree.1 ∧ related item.2 tree.2)
      ((items.zipIdx start).map fun item => (item.2,item.1))
      ((trees.zipIdx start).map fun tree => (tree.2,tree.1)) := by
  induction h generalizing start with
  | nil => exact .nil
  | cons hhead _ ih =>
    rw [List.zipIdx_cons,List.zipIdx_cons,List.map_cons,List.map_cons]
    exact .cons ⟨rfl,hhead⟩ (ih (start+1))

section Fields

variable (codecs : Codecs) {convert : Item → HeapM Item} {change : Value → Option Value} {n : ℕ}

/-- A loop over elements follows the loop over the tree's. -/
theorem convertEach_written {κ : Type} {base : Heap} {allowed : ℕ → Prop} {start : Cell} {copy : Value}
    {write : κ → Item → Cell → Cell} {treeWrite : κ → Value → Value → Value} {elements : List (κ × Item)}
    {trees : List (κ × Value)} (hfresh : ∀ address, base.length ≤ address → allowed address)
    (hstart : DenotesCell (Denotes base allowed n) start copy)
    (hwrite : ∀ key, ∀ denotes : Item → Value → Prop, ∀ cell value item changed,
      DenotesCell denotes cell value → denotes item changed →
        DenotesCell denotes (write key item cell) (treeWrite key changed value))
    (h : List.Forall₂ (fun element tree => element.1 = tree.1 ∧ Denotes base allowed n element.2 tree.2 ∧
      Changes base convert change n element.2 tree.2) elements trees) :
    ∃ written later, convertEach (allocate start) write convert elements base = .ok (written,later) ∧
      Written base later allowed n written (changeEach copy treeWrite change trees) := by
  refine Written.fold (h.imp ?_) (.unchanged List.prefix_rfl)
  rintro ⟨key,item⟩ ⟨_,tree⟩ ⟨rfl,hread,hchanges⟩ heap output value hwritten
  exact hwritten.put hfresh hstart hchanges hread (hwrite key)

/-- Converting what a field holds follows the change of its tree. -/
theorem convertField_changes {base : Heap} {field : ProtoField} {item : Item} {value : Value}
    (hchanges : ∀ k ≤ n, ∀ item, ∀ tree ∈ fieldItems field value, Changes base convert change k item tree)
    (hshape : HasShape field value) (hpresent : value.isNullish = false) :
    Changes base (convertField codecs convert field) (changeField change field) n item value := by
  intro heap allowed hgrown hfresh hread
  have hshape := hshape.resolve_left (by rw [hpresent]; exact Bool.false_ne_true)
  unfold fieldItems at hchanges
  rw [hpresent] at hchanges
  unfold convertField changeField
  cases hrepeated : field.isRepeated with
  | true =>
    obtain ⟨trees,rfl⟩ := hshape.1 hrepeated
    rw [hrepeated] at hchanges
    cases n with
    | zero =>
      obtain ⟨_,hvalue⟩ := hread
      cases item with
      | _ => cases hvalue
    | succ n =>
      cases item with
      | reference address =>
        obtain ⟨hallowed,cell,hcell,hdenotes⟩ := hread
        cases cell with
        | array items =>
          have helements := (forall₂_indexed (forall₂_mem hdenotes) 0).imp
            fun element tree hboth => (⟨hboth.1,hboth.2.1,
              (hchanges n (Nat.le_succ n) element.2 tree.2 hboth.2.2).later hgrown⟩ : element.1 = tree.1 ∧
                Denotes heap allowed n element.2 tree.2 ∧ Changes heap convert change n element.2 tree.2)
          obtain ⟨written,later,hrun,hwritten⟩ := convertEach_written hfresh
            hdenotes
            (fun key denotes cell value item changed hcell hitem => hcell.setIndex hitem key) helements
          obtain ⟨hgrow,hresult⟩ := hwritten.result hfresh (address_lt hcell)
          refine ⟨_,later,?_,hgrow,hresult⟩
          rw [if_pos rfl]
          dsimp only
          rw [run_bind (readCell_run hcell)]
          dsimp only
          rw [run_bind hrun]
          rfl
        | _ => cases hdenotes
      | _ => cases hread
  | false =>
    rw [hrepeated] at hchanges
    cases hmap : field.isMap with
    | true =>
      obtain ⟨prototype,entries,rfl,hplain,_⟩ := hshape.2 hmap
      rw [hmap] at hchanges
      cases n with
      | zero =>
        obtain ⟨_,hvalue⟩ := hread
        cases item with
        | _ => cases hvalue
      | succ n =>
        cases item with
        | reference address =>
          obtain ⟨hallowed,cell,hcell,hdenotes⟩ := hread
          cases cell with
          | object other members =>
            obtain ⟨rfl,hmembers⟩ := hdenotes
            have henumerable : codecs.enumerable (.object other members) = members := by
              cases other with
              | message id => exact absurd rfl (hplain id)
              | _ => rfl
            have helements := (forall₂_mem hmembers).imp
              fun element tree hboth => (⟨hboth.1.1,hboth.1.2,
                (hchanges n (Nat.le_succ n) element.2 tree.2 (List.mem_map_of_mem hboth.2)).later hgrown⟩ :
                  element.1 = tree.1 ∧ Denotes heap allowed n element.2 tree.2 ∧
                    Changes heap convert change n element.2 tree.2)
            have hcopy : DenotesCell (Denotes heap allowed n) (.object .plain members)
                (.object .plain entries) := ⟨rfl,hmembers⟩
            obtain ⟨written,later,hrun,hwritten⟩ := convertEach_written hfresh hcopy
              (fun key denotes cell value item changed hcell hitem => hcell.setMember hitem key) helements
            obtain ⟨hgrow,hresult⟩ := hwritten.result hfresh (address_lt hcell)
            refine ⟨_,later,?_,hgrow,hresult⟩
            rw [if_neg Bool.false_ne_true,if_pos rfl]
            dsimp only
            rw [run_bind (readCell_run hcell),henumerable,copyObject,Cell.members,run_bind hrun]
            rfl
          | _ => cases hdenotes
        | _ => cases hread
    | false =>
      rw [hmap] at hchanges
      exact hchanges n le_rfl item value List.mem_cons_self heap allowed hgrown hfresh hread

end Fields

/-- An item is absent when its tree is. -/
theorem Denotes.isNullish {heap : Heap} {allowed : ℕ → Prop} {n : ℕ} {item : Item} {value : Value}
    (h : Denotes heap allowed n item value) : item.isNullish = value.isNullish := by
  have hscalar : (∀ address, item ≠ .reference address) → value = item.value →
      item.isNullish = value.isNullish := by
    intro hno hvalue
    rw [hvalue]
    cases item with
    | reference address => exact absurd rfl (hno address)
    | _ => rfl
  cases n with
  | zero => exact hscalar h.1 h.2
  | succ n =>
    cases item with
    | reference address =>
      obtain ⟨_,cell,_,hdenotes⟩ := h
      cases value with
      | undefined => cases cell with
        | _ => exact absurd hdenotes id
      | null => cases cell with
        | _ => exact absurd hdenotes id
      | _ => rfl
    | _ => exact hscalar (fun address hno => nomatch hno) h

/-- An object with properties is on the heap as one. -/
theorem Denotes.object {heap : Heap} {allowed : ℕ → Prop} {n : ℕ} {item : Item} {prototype : Prototype}
    {values : Members} (h : Denotes heap allowed n item (.object prototype values)) :
    ∃ m address members, n = m+1 ∧ item = .reference address ∧ heap[address]? = some (.object prototype members) ∧
      List.Forall₂ (fun member value => member.1 = value.1 ∧ Denotes heap allowed m member.2 value.2)
        members values := by
  cases n with
  | zero =>
    obtain ⟨_,hvalue⟩ := h
    cases item with
    | _ => cases hvalue
  | succ n =>
    cases item with
    | reference address =>
      obtain ⟨_,cell,hcell,hdenotes⟩ := h
      cases cell with
      | object other members =>
        obtain ⟨rfl,hmembers⟩ := hdenotes
        exact ⟨n,address,members,rfl,rfl,hcell,hmembers⟩
      | _ => cases hdenotes
    | _ => cases h

/-- Visiting every position is visiting every element. -/
theorem foldlM_stepAt {α β : Type} (step : β → α → HeapM β) (items : List α) (state : β) :
    (List.range items.length).foldlM (stepAt step items) state = items.foldlM step state := by
  induction items generalizing state with
  | nil => rfl
  | cons item rest ih =>
    rw [List.length_cons,List.range_succ_eq_map,List.foldlM_cons,List.foldlM_cons]
    congr 1
    funext next
    rw [List.foldlM_map]
    exact ih next

section Project

variable (schemas : Schemas) (codecs : Codecs)

/-- Copying and renaming follow the tree's. -/
theorem renameAlias_written {base : Heap} {allowed : ℕ → Prop} {n : ℕ} {prototype : Prototype}
    {members : List (JsString × Item)} {values : Members}
    (hmembers : List.Forall₂ (fun member value => member.1 = value.1 ∧ Denotes base allowed n member.2 value.2)
      members values) (names : Option (JsString × JsString)) :
    ∃ written later, (do
        let output ← copyInstance (.object prototype members)
        renameAlias (.object prototype members) names output : HeapM (Option ℕ)) base = .ok (written,later) ∧
      Written base later allowed n written (renameTree values names (copyInstanceTree prototype values)) := by
  have hcopy : DenotesCell (Denotes base allowed n) (.object .plain members) (.object .plain values) :=
    ⟨rfl,hmembers⟩
  have hstart : Written base base allowed n none none := .unchanged List.prefix_rfl
  have hinstance : ∃ output later, copyInstance (.object prototype members) base = .ok (output,later) ∧
      Written base later allowed n output (copyInstanceTree prototype values) := by
    cases prototype with
    | message id =>
      obtain ⟨address,later,hrun,_,_,hwritten⟩ := hstart.copy hcopy
      refine ⟨some address,later,?_,hwritten⟩
      have hallocate : copyObject (.object (.message id) members) base = .ok (address,later) := hrun
      unfold copyInstance
      rw [Cell.isInstance,if_pos rfl,map_eq_pure_bind,run_bind hallocate]
      rfl
    | _ => exact ⟨none,base,rfl,hstart⟩
  obtain ⟨output,later,hrun,hwritten⟩ := hinstance
  rw [run_bind hrun]
  unfold renameTree renameAlias
  cases names with
  | none => exact ⟨output,later,rfl,hwritten⟩
  | some names =>
    dsimp only
    have hown : Cell.own (.object prototype members) names.1 = InsertionMap.find members names.1 := rfl
    rw [hown]
    rcases find_related hmembers names.1 with ⟨hnone,hvalues⟩ | ⟨item,tree,hsome,hvalues,hread⟩
    · rw [hnone,hvalues]
      exact ⟨output,later,rfl,hwritten⟩
    · rw [hsome,hvalues]
      obtain ⟨address,copied,hcopied,hgrow,hapart,hnext⟩ := hwritten.copy hcopy
      have hitem : Denotes copied (fun other => allowed other ∧ other ≠ address) n item tree := by
        refine (hwritten.read hread).grow hgrow fun other hallowed hlt => ?_
        exact ⟨hallowed.1,hapart other hlt hallowed.2⟩
      obtain ⟨placed,hplace,hplaced⟩ := hnext.write fun cell value hcell => hcell.setMember hitem names.2
      obtain ⟨removed,hremove,hremoved⟩ := hplaced.write fun cell value hcell => hcell.deleteMember names.1
      refine ⟨some address,removed,?_,hremoved⟩
      have hmake : copyOnce (copyObject (.object prototype members)) output later = .ok (address,copied) :=
        hcopied
      dsimp only
      rw [run_bind hmake,run_bind hplace,run_bind hremove]
      rfl

/-- Converting a property into the copy follows the tree's. -/
theorem convertMember_written {base heap : Heap} {allowed : ℕ → Prop} {n : ℕ} {output : Option ℕ}
    {value : Option Value} {convert : Item → HeapM Item} {change : Value → Option Value}
    {prototype : Prototype} {members : List (JsString × Item)} {values : Members} {field : ProtoField}
    {item : Item} {tree : Value} (name : JsString) (hfresh : ∀ address, base.length ≤ address → allowed address)
    (hmembers : List.Forall₂ (fun member value => member.1 = value.1 ∧ Denotes base allowed n member.2 value.2)
      members values) (h : Written base heap allowed n output value)
    (hread : Denotes base allowed n item tree) (hshape : HasShape field tree) (hpresent : item.isNullish = false)
    (hchanges : ∀ k ≤ n, ∀ item, ∀ inner ∈ fieldItems field tree, Changes base convert change k item inner) :
    ∃ written later, convertMember codecs convert (.object prototype members) field name output item heap =
        .ok (written,later) ∧ Written base later allowed n written
        (changeMember change (.object .plain values) field name value tree) := by
  have hnullish : tree.isNullish = false := by
    rw [←hread.isNullish]
    exact hpresent
  have hcopy : DenotesCell (Denotes base allowed n) (.object .plain members) (.object .plain values) :=
    ⟨rfl,hmembers⟩
  have hfield : Changes base (convertField codecs convert field) (changeField change field) n item tree :=
    convertField_changes codecs hchanges hshape hnullish
  unfold changeMember
  rw [if_neg (by rw [hnullish]; exact Bool.false_ne_true)]
  exact h.put hfresh hcopy hfield hread fun denotes cell value item changed hcell hitem =>
    hcell.setMember hitem name

/-- The projection on the heap computes the projection of the tree. -/
theorem projectForEncode_changes {accepts : ProtoField → Value → Prop} (requireCodecs : Bool)
    (fuel : ℕ) {n schemaId : ℕ} {item : Item} {value : Value} (hn : n ≤ fuel)
    (htree : MessageTree schemas spellings accepts schemaId value)
    (hsourced : requireCodecs = true → Sourced schemas codecs schemaId value) (base : Heap) :
    Changes base (projectForEncode schemas codecs .everyField requireCodecs fuel schemaId)
      (projectTree schemas fuel schemaId) n item value := by
  induction fuel generalizing n schemaId item value with
  | zero =>
    intro heap allowed _ _ hread
    cases htree with
    | object _ prototype values =>
      obtain ⟨m,_,_,hm,_⟩ := hread.object
      omega
  | succ fuel ih =>
    intro heap allowed hgrown hfresh hread
    cases htree with
    | object _ prototype values _ hshapes _ hmessages =>
      obtain ⟨m,address,members,rfl,rfl,hcell,hmembers⟩ := hread.object
      obtain ⟨renamed,copied,hrename,hwritten⟩ := @renameAlias_written heap allowed m prototype members values
        hmembers (schemas.aliasFor schemaId)
      have hfields : List.Forall₂ (fun field tree => ∀ heap' output value,
          Written heap heap' allowed m output value → ∃ written later,
            projectMember schemas codecs requireCodecs
                (projectForEncode schemas codecs .everyField requireCodecs fuel)
                (.object prototype members) output field heap' = .ok (written,later) ∧
              Written heap later allowed m written (projectStep schemas fuel values value tree))
          (schemas.messageFields schemaId) (schemas.messageFields schemaId) := by
        refine List.forall₂_same.mpr fun field hfield heap' output value h => ?_
        have hmem := List.mem_filter.mp hfield
        have hkind : field.kind = .message := of_decide_eq_true hmem.2
        have hname : field.name ∈ spellings (schemas.aliasFor schemaId) field := List.mem_cons_self
        have hown : Cell.own (.object prototype members) field.name = InsertionMap.find members field.name := rfl
        unfold projectMember projectStep
        rw [hown]
        rcases find_related hmembers field.name with ⟨hnone,hvalues⟩ | ⟨item,tree,hsome,hvalues,hitem⟩
        · rw [hnone,hvalues]
          exact ⟨output,heap',rfl,h⟩
        · rw [hsome,hvalues]
          dsimp only
          cases hpresent : item.isNullish with
          | true =>
            unfold changeMember
            rw [if_pos rfl,if_pos (hitem.isNullish ▸ hpresent)]
            exact ⟨output,heap',rfl,h⟩
          | false =>
            have hsource : ¬(requireCodecs = true ∧ ¬codecs.hasSource field.reference = true) := by
              rintro ⟨hrequire,hno⟩
              cases hsourced hrequire with
              | object _ _ _ sources =>
                exact hno (sources field hfield tree hvalues (hitem.isNullish ▸ hpresent))
            rw [if_neg Bool.false_ne_true,if_neg hsource]
            refine convertMember_written codecs field.name hfresh hmembers h hitem
              (hshapes field hmem.1 field.name hname tree hvalues) hpresent fun k hk inner leaf hleaf => ?_
            have hnested := hmessages field hmem.1 hkind field.name hname tree hvalues leaf hleaf
            refine (ih (hk.trans (Nat.le_of_succ_le_succ hn)) hnested fun hrequire => ?_).later hgrown
            cases hsourced hrequire with
            | object _ _ _ _ messages => exact messages field hfield tree hvalues leaf hleaf
      obtain ⟨written,later,hfold,hdone⟩ := hwritten.fold hfields
      obtain ⟨hgrow,hresult⟩ := hdone.result hfresh (address_lt hcell)
      refine ⟨_,later,?_,hgrow,hresult⟩
      have hall : Walk.everyField.overCell (.object prototype members)
          (schemas.messageFieldPositionsOf schemaId) (schemas.messageFields schemaId).length =
          List.range (schemas.messageFields schemaId).length := rfl
      rw [projectForEncode,run_bind (readCell_run hcell),←bind_assoc,run_bind hrename]
      rw [hall,foldlM_stepAt,run_bind hfold]
      rfl

end Project

theorem differs_eq {first second : Item} (h : ∀ x, second ≠ .number x) :
    first.differs second = decide (first ≠ second) := by
  unfold Item.differs
  split
  · exact absurd rfl (h _)
  · rfl

theorem differs_self {item : Item} (h : ∀ x, item ≠ .number x) : item.differs item = false := by
  rw [differs_eq h]
  exact decide_eq_false fun hne => hne rfl

theorem differs_number_string (x : JsNumber) (text : JsString) : Item.differs (.number x) (.string text) = true := by
  have hno : ∀ y, Item.string text ≠ .number y := by
    intro y heq
    cases heq
  rw [differs_eq hno]
  refine decide_eq_true fun heq => ?_
  cases heq

theorem eq_of_differs {first second : Item} (h : ∀ x, second ≠ .number x)
    (hsame : first.differs second = false) : first = second := by
  rw [differs_eq h] at hsame
  exact Decidable.not_not.mp (of_decide_eq_false hsame)

/-- A repair of items that are not objects follows that of their values. -/
theorem scalar_changes {base : Heap} {repair : Item → Item} {change : Value → Option Value} {n : ℕ} {item : Item}
    {value : Value} (hreference : ∀ address, repair (.reference address) = .reference address)
    (hobject : ∀ value, value.isObject = true → change value = none)
    (hscalar : ∀ item, (∀ address, item ≠ .reference address) → change item.value = repairValue item (repair item))
    (hsame : ∀ item, (repair item).differs item = false → repair item = item)
    (hleaf : ∀ item, (∀ address, item ≠ .reference address) → ∀ address, repair item ≠ .reference address) :
    Changes base (fun item => pure (repair item)) change n item value := by
  intro heap allowed _ _ hread
  refine ⟨repair item,heap,rfl,List.prefix_rfl,?_⟩
  have hplain : (∀ address, item ≠ .reference address) → value = item.value →
      ((change value = none ∧ repair item = item ∧ item.differs item = false) ∨
        ∃ changed, change value = some changed ∧ (repair item).differs item = true ∧
          Denotes heap allowed n (repair item) changed) := by
    intro hno hvalue
    rw [hvalue,hscalar item hno]
    unfold repairValue
    cases hdiffers : (repair item).differs item with
    | true =>
      have hzero : Denotes heap allowed 0 (repair item) (repair item).value := ⟨hleaf item hno,rfl⟩
      exact .inr ⟨_,if_pos rfl,rfl,hzero.deeper (Nat.zero_le n)⟩
    | false =>
      have heq := hsame item hdiffers
      rw [heq] at hdiffers
      exact .inl ⟨if_neg Bool.false_ne_true,heq,hdiffers⟩
  cases n with
  | zero => exact hplain hread.1 hread.2
  | succ n =>
    cases item with
    | reference address =>
      obtain ⟨_,cell,_,hdenotes⟩ := hread
      have hisObject : value.isObject = true := by
        cases cell with
        | _ => cases value with
          | undefined => exact absurd hdenotes id
          | null => exact absurd hdenotes id
          | bool b => exact absurd hdenotes id
          | number x => exact absurd hdenotes id
          | bigint i => exact absurd hdenotes id
          | string text => exact absurd hdenotes id
          | symbol => exact absurd hdenotes id
          | function length => exact absurd hdenotes id
          | _ => rfl
      exact .inl ⟨hobject value hisObject,hreference address,decide_eq_false fun hne => hne rfl⟩
    | _ => exact hplain (fun address hno => nomatch hno) hread

/-- A value that is not below a message is not above one of its fields. -/
theorem sizeOf_fieldItems {field : ProtoField} {value item : Value} (h : item ∈ fieldItems field value) :
    sizeOf item ≤ sizeOf value := by
  unfold fieldItems at h
  split at h
  · cases h
  split at h
  · split at h
    · have hlt := List.sizeOf_lt_of_mem h
      simp only [Value.array.sizeOf_spec]
      omega
    · cases h
  split at h
  · split at h
    · obtain ⟨entry,hentry,rfl⟩ := List.mem_map.mp h
      have hlt := List.sizeOf_lt_of_mem hentry
      obtain ⟨key,inner⟩ := entry
      simp only [Prod.mk.sizeOf_spec] at hlt
      simp only [Value.object.sizeOf_spec]
      omega
    · cases h
  · rw [List.mem_singleton.mp h]

theorem sizeOf_find {prototype : Prototype} {members : Members} {name : JsString} {value : Value}
    (h : InsertionMap.find members name = some value) : sizeOf value < sizeOf (Value.object prototype members) := by
  have hlt := List.sizeOf_lt_of_mem (InsertionMap.mem_of_find h)
  simp only [Prod.mk.sizeOf_spec] at hlt
  simp only [Value.object.sizeOf_spec]
  omega

/-- An object denotes one tree when its items do. -/
theorem DenotesCell.unique {first second : Item → Value → Prop}
    (h : ∀ item a b, first item a → second item b → a = b) {cell : Cell} {left right : Value}
    (hleft : DenotesCell first cell left) (hright : DenotesCell second cell right) : left = right := by
  cases cell with
  | bytes data => cases left with
    | bytes _ => cases right with
      | bytes _ => rw [show _ = _ from hleft.symm,show _ = _ from hright.symm]
      | _ => cases hright
    | _ => cases hleft
  | long data => cases left with
    | long _ => cases right with
      | long _ => rw [show _ = _ from hleft.symm,show _ = _ from hright.symm]
      | _ => cases hright
    | _ => cases hleft
  | array items => cases left with
    | array lefts => cases right with
      | array rights =>
        have hlists : ∀ {items : List Item} {lefts rights : List Value}, List.Forall₂ first items lefts →
            List.Forall₂ second items rights → lefts = rights := by
          intro items lefts rights hlefts
          induction hlefts generalizing rights with
          | nil =>
            intro hrights
            cases hrights
            rfl
          | cons hhead _ ih =>
            intro hrights
            cases hrights with
            | cons hother hrest => rw [h _ _ _ hhead hother,ih hrest]
        rw [hlists hleft hright]
      | _ => cases hright
    | _ => cases hleft
  | object prototype members => cases left with
    | object _ lefts => cases right with
      | object _ rights =>
        obtain ⟨rfl,hlefts⟩ := hleft
        obtain ⟨rfl,hrights⟩ := hright
        have hlists : ∀ {members : List (JsString × Item)} {lefts rights : Members},
            List.Forall₂ (fun member value => member.1 = value.1 ∧ first member.2 value.2) members lefts →
            List.Forall₂ (fun member value => member.1 = value.1 ∧ second member.2 value.2) members rights →
            lefts = rights := by
          intro members lefts rights hlefts
          induction hlefts generalizing rights with
          | nil =>
            intro hrights
            cases hrights
            rfl
          | cons hhead _ ih =>
            intro hrights
            cases hrights with
            | cons hother hrest =>
              rw [ih hrest,Prod.ext (hhead.1.symm.trans hother.1) (h _ _ _ hhead.2 hother.2)]
        rw [hlists hlefts hrights]
      | _ => cases hright
    | _ => cases hleft

/-- An item denotes one tree. -/
theorem Denotes.unique {heap : Heap} {allowed permitted : ℕ → Prop} {n m : ℕ} {item : Item}
    {first second : Value} (hfirst : Denotes heap allowed n item first)
    (hsecond : Denotes heap permitted m item second) : first = second := by
  induction n generalizing m item first second with
  | zero =>
    rw [hfirst.2]
    cases m with
    | zero => exact hsecond.2.symm
    | succ m =>
      cases item with
      | reference address => exact absurd rfl (hfirst.1 address)
      | _ => exact hsecond.symm
  | succ n ih =>
    cases item with
    | reference address =>
      obtain ⟨_,cell,hcell,hone⟩ := hfirst
      cases m with
      | zero => exact absurd rfl (hsecond.1 address)
      | succ m =>
        obtain ⟨_,other,hother,htwo⟩ := hsecond
        rw [hcell] at hother
        cases hother
        have hitems : ∀ item a b, Denotes heap allowed n item a → Denotes heap permitted m item b → a = b :=
          fun item a b hleft hright => ih hleft hright
        exact DenotesCell.unique hitems hone htwo
    | _ =>
      have hvalue : first = _ := hfirst
      cases m with
      | zero => rw [hvalue,hsecond.2]
      | succ m =>
        have hother : second = _ := hsecond
        rw [hvalue,hother]

/-- A deeper bound holds too. -/
theorem Within.succ {n : ℕ} {value : Value} (h : Within n value) : Within (n+1) value := by
  induction n generalizing value with
  | zero =>
    cases value with
    | array items => cases h
    | object prototype members => cases h
    | _ => exact trivial
  | succ n ih =>
    cases value with
    | array items => exact fun item hitem => ih (h item hitem)
    | object prototype members => exact fun member hmember => ih (h member hmember)
    | _ => exact trivial

/-- The values of a field are no deeper than it. -/
theorem Within.fieldItems {n : ℕ} {field : ProtoField} {value item : Value} (h : Within n value)
    (hitem : item ∈ fieldItems field value) : Within n item := by
  unfold ProtoRuntime.fieldItems at hitem
  split at hitem
  · cases hitem
  split at hitem
  · cases value with
    | array items =>
      cases n with
      | zero => cases h
      | succ n => exact (h item hitem).succ
    | _ => cases hitem
  split at hitem
  · cases value with
    | object prototype entries =>
      obtain ⟨entry,hentry,rfl⟩ := List.mem_map.mp hitem
      cases n with
      | zero => cases h
      | succ n => exact (h entry hentry).succ
    | _ => cases hitem
  · rw [List.mem_singleton.mp hitem]
    exact h

/-- A tree is no deeper than it was read. -/
theorem Denotes.within {heap : Heap} {allowed : ℕ → Prop} {n : ℕ} {item : Item} {value : Value}
    (h : Denotes heap allowed n item value) : Within n value := by
  have hscalar : ∀ {n : ℕ} (item : Item), (∀ address, item ≠ .reference address) → Within n item.value := by
    intro n item hno
    have hzero : Within 0 item.value := by
      cases item with
      | reference address => exact absurd rfl (hno address)
      | _ => rfl
    induction n with
    | zero => exact hzero
    | succ n ih => exact ih.succ
  induction n generalizing item value with
  | zero =>
    rw [h.2]
    exact hscalar item h.1
  | succ n ih =>
    cases item with
    | reference address =>
      obtain ⟨_,cell,_,hdenotes⟩ := h
      cases value with
      | array values =>
        cases cell with
        | array items =>
          intro value hvalue
          have hall : ∀ {items : List Item} {values : List Value}, List.Forall₂ (Denotes heap allowed n) items values →
              ∀ value ∈ values, Within n value := by
            intro items values hlist
            induction hlist with
            | nil => exact fun value hno => nomatch hno
            | cons hhead _ ihlist =>
              intro value hmem
              rcases List.mem_cons.mp hmem with rfl | hmem
              · exact ih hhead
              · exact ihlist value hmem
          exact hall hdenotes value hvalue
        | _ => cases hdenotes
      | object prototype values =>
        cases cell with
        | object other members =>
          obtain ⟨_,hmembers⟩ := hdenotes
          have hall : ∀ {members : List (JsString × Item)} {values : Members},
              List.Forall₂ (fun member value => member.1 = value.1 ∧ Denotes heap allowed n member.2 value.2)
                members values → ∀ value ∈ values, Within n value.2 := by
            intro members values hlist
            induction hlist with
            | nil => exact fun value hno => nomatch hno
            | cons hhead _ ihlist =>
              intro value hmem
              rcases List.mem_cons.mp hmem with rfl | hmem
              · exact ih hhead.2
              · exact ihlist value hmem
          exact hall hmembers
        | _ => cases hdenotes
      | _ => exact trivial
    | _ =>
      have hvalue : value = _ := h
      rw [hvalue]
      exact hscalar _ fun address hno => nomatch hno

section Repair

variable (schemas : Schemas) (codecs : Codecs)

/-- The number of an enum name. -/
def enumItem (field : ProtoField) : Item → Item
  | .string name => ((schemas.enumValueFor field.reference name).map fun i => Item.number (.ofInt i)).getD (.string name)
  | item => item

theorem enumItem_cases (field : ProtoField) (item : Item) : enumItem schemas field item = item ∨
      ∃ name i, item = .string name ∧ schemas.enumValueFor field.reference name = some i ∧
        enumItem schemas field item = .number (.ofInt i) := by
  cases item with
  | string name =>
    cases hvalue : schemas.enumValueFor field.reference name with
    | none =>
      dsimp only [enumItem]
      rw [hvalue]
      exact .inl rfl
    | some i =>
      refine .inr ⟨name,i,rfl,hvalue,?_⟩
      dsimp only [enumItem]
      rw [hvalue]
      rfl
  | _ => exact .inl rfl

theorem repairScalar_cases (kind : FieldKind) (item : Item) :
    repairScalar kind item = item ∨ ∃ text, item = .string text ∧
      ((repairScalar kind item = .number .zero ∧ text = []) ∨ repairScalar kind item = .string (replaceUnpaired text)) := by
  cases item with
  | string text =>
    cases kind with
    | signed64 =>
      unfold repairScalar
      dsimp only
      split
      · rename_i hempty
        exact .inr ⟨text,rfl,.inl ⟨rfl,hempty⟩⟩
      · exact .inl rfl
    | unsigned64 =>
      unfold repairScalar
      dsimp only
      split
      · rename_i hempty
        exact .inr ⟨text,rfl,.inl ⟨rfl,hempty⟩⟩
      · exact .inl rfl
    | string => exact .inr ⟨text,rfl,.inr rfl⟩
    | _ => exact .inl rfl
  | _ => exact .inl rfl

/-- Repairing a value of a field that is not a message follows the tree's. -/
theorem repairItem_changes {base : Heap} {repair : ℕ → Item → HeapM Item} {repairValues : ℕ → Value → Option Value}
    {field : ProtoField} {n : ℕ} {item : Item} {value : Value}
    (h : field.kind = .message → Changes base (repair field.reference) (repairValues field.reference) n item value) :
    Changes base (repairItem schemas repair field) (repairTreeItem schemas repairValues field) n item value := by
  by_cases hmessage : field.kind = .message
  · have hsame : repairItem schemas repair field = repair field.reference := by
      funext item
      unfold repairItem
      rw [hmessage]
    have hvalues : repairTreeItem schemas repairValues field = repairValues field.reference := by
      funext value
      unfold repairTreeItem
      rw [hmessage]
    rw [hsame,hvalues]
    exact h hmessage
  by_cases henum : field.kind = .enum
  · have hsame : repairItem schemas repair field = fun item => pure (enumItem schemas field item) := by
      funext item
      unfold repairItem
      rw [henum]
      cases item with
      | _ => rfl
    rw [hsame]
    refine scalar_changes (fun address => rfl) (fun value hobject => ?_) (fun item hno => ?_) (fun item hsame => ?_)
      (fun item hno address heq => ?_)
    · unfold repairTreeItem
      rw [henum]
      cases value with
      | string text => cases hobject
      | number x => cases hobject
      | _ => rfl
    · unfold repairTreeItem
      rw [henum]
      cases item with
      | string name =>
        dsimp only [enumItem,repairValue,Item.value]
        cases hvalue : schemas.enumValueFor field.reference name with
        | none =>
          rw [Option.map_none,Option.map_none,Option.getD_none,differs_self (by intro x hno; cases hno)]
          rfl
        | some i =>
          rw [Option.map_some,Option.map_some,Option.getD_some,differs_number_string]
          rfl
      | reference address => exact absurd rfl (hno address)
      | number x => rfl
      | _ =>
        dsimp only [enumItem,repairValue]
        rw [differs_self (by intro x hno; cases hno)]
        rfl
    · rcases enumItem_cases schemas field item with heq | ⟨name,i,rfl,_,heq⟩
      · exact heq
      · rw [heq,differs_number_string] at hsame
        cases hsame
    · rcases enumItem_cases schemas field item with hsame | ⟨name,i,rfl,_,hsame⟩
      · exact hno address (hsame ▸ heq)
      · rw [hsame] at heq
        cases heq
  · have hsame : repairItem schemas repair field = fun item => pure (repairScalar field.kind item) := by
      funext item
      unfold repairItem
      cases hkind : field.kind with
      | message => exact absurd hkind hmessage
      | enum => exact absurd hkind henum
      | _ => rfl
    rw [hsame]
    refine scalar_changes (fun address => rfl) (fun value hobject => ?_) (fun item hno => ?_) (fun item hsame => ?_)
      (fun item hno address heq => ?_)
    · unfold repairTreeItem
      cases hkind : field.kind with
      | message => exact absurd hkind hmessage
      | enum => exact absurd hkind henum
      | _ => cases value with
        | string text => cases hobject
        | number x => cases hobject
        | _ => rfl
    · unfold repairTreeItem
      cases hkind : field.kind with
      | message => exact absurd hkind hmessage
      | enum => exact absurd hkind henum
      | _ => cases item with
        | string text => rfl
        | reference address => exact absurd rfl (hno address)
        | number x => rfl
        | _ =>
          dsimp only [repairScalar,repairValue]
          rw [differs_self (by intro x hno; cases hno)]
          rfl
    · rcases repairScalar_cases field.kind item with heq | ⟨text,rfl,⟨heq,_⟩ | heq⟩
      · exact heq
      · rw [heq,differs_number_string] at hsame
        cases hsame
      · rw [heq] at hsame ⊢
        exact eq_of_differs (fun x hno => nomatch hno) hsame
    · rcases repairScalar_cases field.kind item with hsame | ⟨text,rfl,⟨hsame,_⟩ | hsame⟩
      · exact hno address (hsame ▸ heq)
      · rw [hsame] at heq
        cases heq
      · rw [hsame] at heq
        cases heq

/-- The held name of a field is that of its tree. -/
theorem fieldKey_related {denotes : Item → Value → Prop} {prototype : Prototype}
    {members : List (JsString × Item)} {values : Members}
    (h : List.Forall₂ (fun member value => member.1 = value.1 ∧ denotes member.2 value.2) members values)
    (field : ProtoField) (names : Option (JsString × JsString)) :
    (fieldKey (.object prototype members) field names = none ∧ treeKey values field names = none) ∨
      ∃ name item value, fieldKey (.object prototype members) field names = some (name,item) ∧
        treeKey values field names = some (name,value) ∧ denotes item value ∧ name ∈ spellings names field ∧
        InsertionMap.find values name = some value := by
  have hown : ∀ name, Cell.own (.object prototype members) name = InsertionMap.find members name := fun _ => rfl
  unfold fieldKey treeKey
  simp only [hown]
  rcases find_related h field.name with ⟨hnone,hvalues⟩ | ⟨item,value,hsome,hvalues,hread⟩
  · rw [hnone,hvalues]
    cases names with
    | none => exact .inl ⟨rfl,rfl⟩
    | some names =>
      dsimp only
      by_cases halias : names.1 = field.name
      · rw [if_pos halias,if_pos halias]
        rcases find_related h names.2 with ⟨hnone,hvalues⟩ | ⟨item,value,hsome,hvalues,hread⟩
        · rw [hnone,hvalues]
          exact .inl ⟨rfl,rfl⟩
        · rw [hsome]
          refine .inr ⟨names.2,item,value,rfl,?_,hread,?_,hvalues⟩
          · rw [hvalues]
            rfl
          · unfold spellings
            dsimp only
            rw [if_pos halias]
            exact List.mem_cons_of_mem _ List.mem_cons_self
      · rw [if_neg halias,if_neg halias]
        exact .inl ⟨rfl,rfl⟩
  · rw [hsome,hvalues]
    exact .inr ⟨field.name,item,value,rfl,rfl,hread,List.mem_cons_self,hvalues⟩

/-- The repair on the heap computes the repair of the tree. -/
theorem repairMessage_changes {accepts : ProtoField → Value → Prop} (fuel : ℕ) {base : Heap} {seen : List ℕ}
    {n schemaId : ℕ} {item : Item} {value : Value} (hn : n ≤ fuel)
    (htree : MessageTree schemas spellings accepts schemaId value)
    (hseen : ∀ address ∈ seen, ∃ m tree, Denotes base (fun _ => True) m (.reference address) tree ∧
      sizeOf value < sizeOf tree) :
    Changes base (repairMessage schemas codecs fuel seen schemaId) (repairTree schemas fuel schemaId) n item value := by
  induction fuel generalizing base seen n schemaId item value with
  | zero =>
    intro heap allowed _ _ hread
    cases htree with
    | object _ prototype values =>
      obtain ⟨m,_,_,hm,_⟩ := hread.object
      omega
  | succ fuel ih =>
    intro heap allowed hgrown hfresh hread
    cases htree with
    | object _ prototype values _ hshapes _ hmessages =>
      obtain ⟨m,address,members,rfl,rfl,hcell,hmembers⟩ := hread.object
      have hread' : Denotes heap (fun _ => True) (m+1) (.reference address) (.object prototype values) :=
        hread.grow List.prefix_rfl fun _ _ _ => trivial
      have hnew : ¬seen.contains address = true := by
        intro hin
        obtain ⟨k,tree,hdenotes,hlt⟩ := hseen address (List.contains_iff_mem.mp hin)
        have hlater := hdenotes.grow hgrown fun _ _ _ => trivial
        rw [hread'.unique hlater] at hlt
        exact Nat.lt_irrefl _ hlt
      have hfields : List.Forall₂ (fun field tree => ∀ heap' output value,
          Written heap heap' allowed m output value → ∃ written later,
            repairMember schemas codecs (repairMessage schemas codecs fuel (address::seen))
                (schemas.aliasFor schemaId) (.object prototype members) output field heap' =
              .ok (written,later) ∧
              Written heap later allowed m written (repairStep schemas fuel schemaId values value tree))
          (schemas.fieldsOf schemaId) (schemas.fieldsOf schemaId) := by
        refine List.forall₂_same.mpr fun field hfield heap' output value h => ?_
        unfold repairMember repairStep
        rcases @fieldKey_related (Denotes heap allowed m) prototype members values hmembers field
          (schemas.aliasFor schemaId) with ⟨hnone,hvalues⟩ | ⟨name,item,tree,hsome,hvalues,hitem,hname,hfind⟩
        · rw [hnone,hvalues]
          exact ⟨output,heap',rfl,h⟩
        · rw [hsome,hvalues]
          dsimp only
          cases hpresent : item.isNullish with
          | true =>
            unfold changeMember
            rw [if_pos rfl,if_pos (hitem.isNullish ▸ hpresent)]
            exact ⟨output,heap',rfl,h⟩
          | false =>
            rw [if_neg Bool.false_ne_true]
            refine convertMember_written codecs name hfresh hmembers h hitem
              (hshapes field hfield name hname tree hfind) hpresent fun k hk inner leaf hleaf => ?_
            refine repairItem_changes schemas fun hkind => ?_
            have hbelow : sizeOf leaf < sizeOf (Value.object prototype values) :=
              (sizeOf_fieldItems hleaf).trans_lt (sizeOf_find hfind)
            refine ih (hk.trans (Nat.le_of_succ_le_succ hn))
              (hmessages field hfield hkind name hname tree hfind leaf hleaf) fun other hother => ?_
            rcases List.mem_cons.mp hother with rfl | hother
            · exact ⟨m+1,_,hread',hbelow⟩
            · obtain ⟨k,above,hdenotes,hlt⟩ := hseen other hother
              exact ⟨k,above,hdenotes.grow hgrown fun _ _ _ => trivial,hbelow.trans hlt⟩
      obtain ⟨written,later,hfold,hdone⟩ := (Written.unchanged List.prefix_rfl).fold hfields
      obtain ⟨hgrow,hresult⟩ := hdone.result hfresh (address_lt hcell)
      refine ⟨_,later,?_,hgrow,hresult⟩
      rw [repairMessage,if_neg hnew,run_bind (readCell_run hcell),run_bind hfold]
      rfl

end Repair

/-- An aliased message field holds one message, which has no aliased field and no
message-typed fields. -/
theorem alias_leaf {schemas : Schemas} {schemaId : ℕ} {field : ProtoField} {names : JsString × JsString}
    (hnames : schemas.aliasFor schemaId = some names) (hfield : field ∈ schemas.fieldsOf schemaId)
    (hkind : field.kind = .message) (hname : names.1 = field.name) :
    field.isRepeated = false ∧ field.isMap = false ∧ schemas.aliasFor field.reference = none ∧
      schemas.messageFields field.reference = [] := by
  unfold Schemas.aliasFor at hnames
  unfold Schemas.fieldsOf at hfield
  cases hschema : schemas.messages[schemaId]? with
  | none =>
    rw [hschema] at hnames
    cases hnames
  | some schema =>
    rw [hschema] at hnames hfield
    obtain ⟨hrepeated,hmap,hinner⟩ := schemas.leaf schema (List.mem_of_getElem? hschema) field hfield hkind
      ⟨names,hnames,hname⟩
    refine ⟨hrepeated,hmap,?_⟩
    unfold Schemas.aliasFor Schemas.messageFields Schemas.fieldsOf
    cases hreference : schemas.messages[field.reference]? with
    | none => exact ⟨rfl,rfl⟩
    | some inner =>
      obtain ⟨hnone,hkinds⟩ := hinner inner hreference
      refine ⟨hnone,List.filter_eq_nil_iff.mpr fun member hmember => ?_⟩
      rw [decide_eq_true_eq]
      exact hkinds member hmember

/-- A field of one message holds that message. -/
theorem fieldItems_single {field : ProtoField} {value : Value} (hrepeated : field.isRepeated = false)
    (hmap : field.isMap = false) (hpresent : value.isNullish = false) : fieldItems field value = [value] := by
  unfold fieldItems
  rw [hpresent,hrepeated,hmap]
  rfl

section Aliases

variable (schemas : Schemas) (codecs : Codecs)

/-- What an aliased field moves denotes what the tree's moves. -/
theorem aliasItem_denotes {base heap : Heap} {allowed : ℕ → Prop} {n : ℕ} {project : ℕ → Item → HeapM Item}
    {projectValues : ℕ → Value → Option Value} {fields : List ProtoField} {name : JsString} {moved : Item}
    {tree : Value} (hgrown : base <+: heap) (hfresh : ∀ address, heap.length ≤ address → allowed address)
    (hread : Denotes heap allowed n moved tree)
    (hproject : ∀ field, (fields.find? fun field => field.name = name) = some field → tree.isNullish = false →
      Changes base (project field.reference) (projectValues field.reference) n moved tree) :
    ∃ item later, aliasItem project fields name moved heap = .ok (item,later) ∧ heap <+: later ∧
      Denotes later allowed n item (aliasValue projectValues fields name tree) := by
  unfold aliasItem aliasValue
  cases hfind : fields.find? fun field => field.name = name with
  | none => exact ⟨moved,heap,rfl,List.prefix_rfl,hread⟩
  | some field =>
    dsimp only
    rw [hread.isNullish]
    cases hpresent : tree.isNullish with
    | true => exact ⟨moved,heap,rfl,List.prefix_rfl,hread⟩
    | false =>
      obtain ⟨item,later,hrun,hgrow,hcases⟩ := hproject field hfind hpresent heap allowed hgrown hfresh hread
      refine ⟨item,later,hrun,hgrow,?_⟩
      rw [if_neg Bool.false_ne_true]
      rcases hcases with ⟨hnone,rfl,_⟩ | ⟨changed,hsome,_,hdenotes⟩
      · rw [hnone]
        exact hread.grow hgrow fun _ hallowed _ => hallowed
      · rw [hsome]
        exact hdenotes

/-- Moving the aliased field follows the tree's. -/
theorem moveAlias_written {base : Heap} {allowed : ℕ → Prop} {n : ℕ} {prototype : Prototype}
    {members : List (JsString × Item)} {values : Members} {project : ℕ → Item → HeapM Item}
    {projectValues : ℕ → Value → Option Value} {fields : List ProtoField} {names : Option (JsString × JsString)}
    (hfresh : ∀ address, base.length ≤ address → allowed address)
    (hmembers : List.Forall₂ (fun member value => member.1 = value.1 ∧ Denotes base allowed n member.2 value.2)
      members values)
    (hproject : ∀ pair, names = some pair → ∀ field, (fields.find? fun field => field.name = pair.1) = some field →
      ∀ item tree, InsertionMap.find values pair.1 = some tree → tree.isNullish = false →
        Changes base (project field.reference) (projectValues field.reference) n item tree) :
    ∃ written later, moveAlias project fields (.object prototype members) names base = .ok (written,later) ∧
      Written base later allowed n written (moveAliasTree projectValues fields values names) := by
  have hcopy : DenotesCell (Denotes base allowed n) (.object .plain members) (.object .plain values) :=
    ⟨rfl,hmembers⟩
  have hstart : Written base base allowed n none none := .unchanged List.prefix_rfl
  unfold moveAlias moveAliasTree
  cases names with
  | none => exact ⟨none,base,rfl,hstart⟩
  | some names =>
    have hown : Cell.own (.object prototype members) names.1 = InsertionMap.find members names.1 := rfl
    dsimp only
    rw [hown]
    rcases find_related hmembers names.1 with ⟨hnone,hvalues⟩ | ⟨moved,tree,hsome,hvalues,hread⟩
    · rw [hnone,hvalues]
      exact ⟨none,base,rfl,hstart⟩
    · rw [hsome,hvalues]
      obtain ⟨address,copied,hcopied,hgrow,hapart,hwritten⟩ := hstart.copy hcopy
      obtain ⟨item,next,hitem,hnext,hdenotes⟩ := aliasItem_denotes hwritten.grows (hwritten.fresh hfresh)
        (hwritten.read hread) fun field hfind hpresent => hproject names rfl field hfind moved tree hvalues hpresent
      have hbesides : Denotes next (fun other => allowed other ∧ other ≠ address) n item
          (aliasValue projectValues fields names.1 tree) := by
        refine hdenotes.grow List.prefix_rfl fun other hallowed _ => ⟨hallowed.1,fun heq => hallowed.2 ?_⟩
        rw [heq]
      obtain ⟨placed,hplace,hplaced⟩ := (hwritten.grow hnext).write fun cell value hcell =>
        hcell.setMember hbesides names.2
      obtain ⟨removed,hremove,hremoved⟩ := hplaced.write fun cell value hcell => hcell.deleteMember names.1
      have hallocate : copyObject (.object prototype members) base = .ok (address,copied) := hcopied
      refine ⟨some address,removed,?_,hremoved⟩
      dsimp only
      rw [run_bind hallocate,run_bind hitem,run_bind hplace,run_bind hremove]
      rfl

/-- The aliases on the heap are rewritten as those of the tree. -/
theorem projectAliases_changes {accepts : ProtoField → Value → Prop} (fuel : ℕ) {n schemaId : ℕ} {item : Item}
    {value : Value} (hn : n ≤ fuel) (htree : MessageTree schemas spellings accepts schemaId value) (base : Heap) :
    Changes base (projectAliases schemas codecs fuel schemaId) (aliasTree schemas fuel schemaId) n item value := by
  induction fuel generalizing n schemaId item value with
  | zero =>
    intro heap allowed _ _ hread
    cases htree with
    | object _ prototype values =>
      obtain ⟨m,_,_,hm,_⟩ := hread.object
      omega
  | succ fuel ih =>
    intro heap allowed hgrown hfresh hread
    cases htree with
    | object _ prototype values hdistinct hshapes _ hmessages =>
      obtain ⟨m,address,members,rfl,rfl,hcell,hmembers⟩ := hread.object
      have hm : m ≤ fuel := Nat.le_of_succ_le_succ hn
      have hfound : ∀ {name : JsString} {field : ProtoField},
          ((schemas.messageFields schemaId).find? fun field => field.name = name) = some field →
          field ∈ schemas.fieldsOf schemaId ∧ field.kind = .message ∧ field.name = name := by
        intro name field hfind
        have hmem := List.mem_filter.mp (List.mem_of_find?_eq_some hfind)
        have hname := List.find?_some hfind
        exact ⟨hmem.1,of_decide_eq_true hmem.2,of_decide_eq_true hname⟩
      have hmoved : ∀ pair, schemas.aliasFor schemaId = some pair → ∀ field,
          ((schemas.messageFields schemaId).find? fun field => field.name = pair.1) = some field →
          ∀ item tree, InsertionMap.find values pair.1 = some tree → tree.isNullish = false →
            Changes heap (projectAliases schemas codecs fuel field.reference)
              (aliasTree schemas fuel field.reference) m item tree := by
        intro pair hpair field hfind item tree hvalue hpresent
        obtain ⟨hfield,hkind,hname⟩ := hfound hfind
        obtain ⟨hrepeated,hmap,_⟩ := alias_leaf hpair hfield hkind hname.symm
        have hitems := fieldItems_single hrepeated hmap hpresent
        have hnested := hmessages field hfield hkind field.name List.mem_cons_self tree (hname ▸ hvalue) tree
          (by rw [hitems]; exact List.mem_cons_self)
        exact (ih hm hnested).later hgrown
      obtain ⟨renamed,copied,hmove,hwritten⟩ := @moveAlias_written heap allowed m prototype members values
        (projectAliases schemas codecs fuel) (aliasTree schemas fuel) (schemas.messageFields schemaId)
        (schemas.aliasFor schemaId) hfresh hmembers hmoved
      have hsteps : List.Forall₂ (fun member tree => ∀ heap' output value,
          Written heap heap' allowed m output value → ∃ written later,
            aliasMember codecs (projectAliases schemas codecs fuel) (schemas.messageFields schemaId)
              (.object prototype members) (schemas.aliasFor schemaId) output member heap' = .ok (written,later) ∧
            Written heap later allowed m written (aliasStep schemas fuel schemaId values value tree)) members values := by
        refine (forall₂_mem hmembers).imp ?_
        rintro ⟨name,item⟩ ⟨_,tree⟩ ⟨⟨rfl,hitem⟩,hmem⟩ heap' output value h
        have hvalue : InsertionMap.find values name = some tree :=
          (InsertionMap.find_eq_some_iff hdistinct).mpr hmem
        unfold aliasMember aliasStep
        dsimp only
        split
        · exact ⟨output,heap',rfl,h⟩
        · cases hfind : (schemas.messageFields schemaId).find? fun field => field.name = name with
          | none => exact ⟨output,heap',rfl,h⟩
          | some field =>
            obtain ⟨hfield,hkind,rfl⟩ := hfound hfind
            dsimp only
            cases hpresent : item.isNullish with
            | true =>
              unfold changeMember
              rw [if_pos rfl,if_pos (hitem.isNullish ▸ hpresent)]
              exact ⟨output,heap',rfl,h⟩
            | false =>
              rw [if_neg Bool.false_ne_true]
              refine convertMember_written codecs field.name hfresh hmembers h hitem
                (hshapes field hfield field.name List.mem_cons_self tree hvalue) hpresent
                fun k hk inner leaf hleaf => ?_
              exact (ih (hk.trans hm) (hmessages field hfield hkind field.name List.mem_cons_self tree hvalue leaf
                hleaf)).later hgrown
      obtain ⟨written,later,hfold,hdone⟩ := hwritten.fold hsteps
      obtain ⟨hgrow,hresult⟩ := hdone.result hfresh (address_lt hcell)
      refine ⟨_,later,?_,hgrow,hresult⟩
      rw [projectAliases,run_bind (readCell_run hcell),run_bind hmove]
      dsimp only [Cell.members]
      rw [run_bind hfold]
      rfl

end Aliases

end Baileyrs.ProtoRuntime
