import Baileyrs.ProtoRefinement

/-!
# What the encoder's passes do to a tree

A pass visits some properties of an object, each name once, and changes what
they hold item by item. The form of a tree is what a codec sees of it: the own
fields of its objects under one name each. Passes are compared by their forms.
-/

namespace Baileyrs.ProtoRuntime

open JsString

/-- Apply a function to the values a field holds. -/
def mapItems (f : Value → Value) (field : ProtoField) (value : Value) : Value :=
  if value.isNullish then value
  else if field.isRepeated then
    match value with
    | .array items => .array (items.map f)
    | other => other
  else if field.isMap then
    match value with
    | .object _ entries => .object .plain (entries.map fun entry => (entry.1,f entry.2))
    | other => other
  else f value

/-- What a pass makes of the value of a field, if it changes it. -/
def newValue (change : ProtoField → Value → Option Value) (field : ProtoField) (value : Value) : Option Value :=
  if value.isNullish then none else changeField (change field) field value

/-- Visit properties of an object, and write what changes into a copy. -/
def changeVisits (change : ProtoField → Value → Option Value) (copy : Value)
    (visits : List (ProtoField × JsString × Value)) (output : Option Value) : Option Value :=
  visits.foldl (fun output visit => changeMember (change visit.1) copy visit.1 visit.2.1 output visit.2.2) output

/-- The elements of a changed array. -/
theorem changeEach_array (change : Value → Option Value) (items : List Value) :
    (changeEach (.array items) Value.setIndex change (items.zipIdx.map fun item => (item.2,item.1))).getD
      (.array items) = .array (items.map fun item => (change item).getD item) := by
  have hfold : ∀ (rest before : List Value) (output : Option Value),
      output.getD (.array items) = .array (before++rest) →
      (((rest.zipIdx before.length).map fun item => (item.2,item.1)).foldl (fun output element =>
        putChanged (.array items) (Value.setIndex element.1) output (change element.2)) output).getD (.array items) =
        .array (before++rest.map fun item => (change item).getD item) := by
    intro rest
    induction rest with
    | nil => exact fun before output h => h
    | cons item rest ih =>
      intro before output h
      rw [List.zipIdx_cons,List.map_cons,List.foldl_cons]
      have hstep : (putChanged (.array items) (Value.setIndex before.length) output (change item)).getD
          (.array items) = .array ((before++[(change item).getD item])++rest) := by
        unfold putChanged
        cases hchange : change item with
        | none =>
          rw [Option.getD_none,List.append_assoc]
          exact h
        | some changed =>
          dsimp only
          rw [h,Option.getD_some,Option.getD_some,Value.setIndex,List.set_append_right _ _ le_rfl,Nat.sub_self,
            List.append_assoc]
          rfl
      have hnext := ih (before++[(change item).getD item]) _ hstep
      rw [List.length_append,List.length_singleton] at hnext
      rw [hnext,List.append_assoc]
      rfl
  have hwhole := hfold items [] none rfl
  rw [List.nil_append] at hwhole
  exact hwhole

/-- Putting a value under a key that is listed further on. -/
theorem put_append {β : Type} (before rest : List (JsString × β)) {key : JsString} (value other : β)
    (h : key ∉ before.map Prod.fst) :
    InsertionMap.put (before++(key,other)::rest) key value = before++(key,value)::rest := by
  induction before with
  | nil =>
    rw [List.nil_append,List.nil_append,InsertionMap.put,if_pos rfl]
  | cons entry before ih =>
    rw [List.map_cons,List.mem_cons,not_or] at h
    have hne : entry.1 ≠ key := fun heq => h.1 heq.symm
    rw [List.cons_append,InsertionMap.put,if_neg hne,ih h.2]
    rfl

/-- The members of a changed object of values. -/
theorem changeEach_object (change : Value → Option Value) {prototype : Prototype} {entries : Members}
    (hnodup : (entries.map Prod.fst).Nodup) : ∃ other, (other = .plain ∨ other = prototype) ∧
      (changeEach (.object .plain entries) Value.setMember change entries).getD (.object prototype entries) =
        .object other (entries.map fun entry => (entry.1,(change entry.2).getD entry.2)) := by
  have hfold : ∀ (rest before : Members) (output : Option Value), ((before++rest).map Prod.fst).Nodup →
      (∀ start, (start = Prototype.plain ∨ start = prototype) →
        ∃ other, (other = .plain ∨ other = start) ∧
          output.getD (.object start entries) = .object other (before++rest)) →
      ∃ other, (other = .plain ∨ other = prototype) ∧ (rest.foldl (fun output element =>
        putChanged (.object .plain entries) (Value.setMember element.1) output (change element.2)) output).getD
          (.object prototype entries) = .object other (before++rest.map fun entry => (entry.1,(change entry.2).getD
            entry.2)) := by
    intro rest
    induction rest with
    | nil => exact fun before output _ h => h prototype (.inr rfl)
    | cons entry rest ih =>
      intro before output hdistinct h
      have hnew : entry.1 ∉ before.map Prod.fst := by
        rw [List.map_append,List.map_cons] at hdistinct
        exact fun hin => (List.nodup_append.mp hdistinct).2.2 _ hin _ List.mem_cons_self rfl
      rw [List.foldl_cons]
      have hstep : ∀ start, (start = Prototype.plain ∨ start = prototype) → ∃ other,
          (other = .plain ∨ other = start) ∧ (putChanged (.object .plain entries) (Value.setMember entry.1) output (change entry.2)).getD
            (.object start entries) = .object other ((before++[(entry.1,(change entry.2).getD entry.2)])++rest) := by
        intro start hstart
        unfold putChanged
        cases hchange : change entry.2 with
        | none =>
          obtain ⟨other,hother,heq⟩ := h start hstart
          refine ⟨other,hother,?_⟩
          rw [Option.getD_none,List.append_assoc]
          exact heq
        | some changed =>
          obtain ⟨other,hother,heq⟩ := h .plain (.inl rfl)
          refine ⟨other,.inl (hother.elim id id),?_⟩
          dsimp only
          rw [heq,Option.getD_some,Option.getD_some,Value.setMember,put_append before rest changed entry.2 hnew,
            List.append_assoc]
          rfl
      have hkeys : (((before++[(entry.1,(change entry.2).getD entry.2)])++rest).map Prod.fst).Nodup := by
        rw [List.append_assoc]
        simp only [List.map_append,List.map_cons] at hdistinct ⊢
        exact hdistinct
      obtain ⟨other,hother,heq⟩ := ih _ _ hkeys hstep
      refine ⟨other,hother,?_⟩
      rw [heq,List.append_assoc]
      rfl
  exact hfold entries [] none hnodup fun start _ => ⟨start,.inr rfl,rfl⟩

section Items

variable {field : ProtoField} {value : Value}

/-- Functions that agree on the values of a field do the same to it. -/
theorem mapItems_congr {f g : Value → Value} (h : ∀ item ∈ fieldItems field value, f item = g item) :
    mapItems f field value = mapItems g field value := by
  unfold fieldItems at h
  unfold mapItems
  split
  · rfl
  · rename_i hpresent
    rw [if_neg hpresent] at h
    split
    · rename_i hrepeated
      rw [if_pos hrepeated] at h
      cases value with
      | array items => exact congrArg Value.array (List.map_congr_left h)
      | _ => rfl
    · rename_i hsingle
      rw [if_neg hsingle] at h
      split
      · rename_i hmap
        rw [if_pos hmap] at h
        cases value with
        | object prototype entries =>
          refine congrArg (Value.object .plain) (List.map_congr_left fun entry hentry => ?_)
          rw [h entry.2 (List.mem_map_of_mem hentry)]
        | _ => rfl
      · rename_i hplain
        rw [if_neg hplain] at h
        exact h value List.mem_cons_self

/-- A pass changes the values of a field one by one. -/
theorem newValue_cases (change : ProtoField → Value → Option Value) (hshape : HasShape field value) :
    (value.isNullish = true ∧ (newValue change field value).getD value = value) ∨
    (field.isRepeated = true ∧ ∃ items, value = .array items ∧ (newValue change field value).getD value =
        .array (items.map fun item => (change field item).getD item)) ∨
    (field.isRepeated = false ∧ field.isMap = true ∧ ∃ prototype entries other,
      value = .object prototype entries ∧ (∀ id, prototype ≠ .message id) ∧ (entries.map Prod.fst).Nodup ∧
      (other = .plain ∨ other = prototype) ∧ (newValue change field value).getD value =
        .object other (entries.map fun entry => (entry.1,(change field entry.2).getD entry.2))) ∨
    (value.isNullish = false ∧ field.isRepeated = false ∧ field.isMap = false ∧
      newValue change field value = change field value) := by
  unfold newValue
  cases hpresent : value.isNullish with
  | true => exact .inl ⟨rfl,rfl⟩
  | false =>
    have hshape := hshape.resolve_left (by rw [hpresent]; exact Bool.false_ne_true)
    rw [if_neg Bool.false_ne_true]
    unfold changeField
    cases hrepeated : field.isRepeated with
    | true =>
      obtain ⟨items,rfl⟩ := hshape.1 hrepeated
      exact .inr (.inl ⟨rfl,items,rfl,changeEach_array _ items⟩)
    | false =>
      rw [if_neg Bool.false_ne_true]
      cases hmap : field.isMap with
      | true =>
        obtain ⟨prototype,entries,rfl,hplain,hnodup⟩ := hshape.2 hmap
        obtain ⟨other,hother,heq⟩ := @changeEach_object (change field) prototype entries hnodup
        exact .inr (.inr (.inl ⟨rfl,rfl,prototype,entries,other,rfl,hplain,hnodup,hother,heq⟩))
      | false => exact .inr (.inr (.inr ⟨rfl,rfl,rfl,rfl⟩))

variable {change : ProtoField → Value → Option Value}

/-- The shape of a field is kept. -/
theorem newValue_shape (hshape : HasShape field value) : HasShape field ((newValue change field value).getD value) := by
  rcases newValue_cases change hshape with ⟨_,heq⟩ | ⟨hrepeated,items,rfl,heq⟩ |
    ⟨hrepeated,hmap,prototype,entries,other,rfl,hplain,hnodup,hother,heq⟩ | ⟨_,hrepeated,hmap,_⟩
  · rw [heq]
    exact hshape
  · rw [heq]
    refine .inr ⟨fun _ => ⟨_,rfl⟩,fun hmap => ?_⟩
    rcases hshape with hnull | ⟨_,hobject⟩
    · cases hnull
    · obtain ⟨_,_,hno,_⟩ := hobject hmap
      cases hno
  · rw [heq]
    refine .inr ⟨fun hno => ?_,fun _ => ⟨other,_,rfl,?_,?_⟩⟩
    · rw [hrepeated] at hno
      cases hno
    · rcases hother with rfl | rfl
      · intro id hid
        cases hid
      · exact hplain
    · rw [List.map_map]
      exact hnodup
  · refine .inr ⟨fun hno => ?_,fun hno => ?_⟩
    · rw [hrepeated] at hno
      cases hno
    · rw [hmap] at hno
      cases hno

/-- The values of a changed field are the changed values. -/
theorem fieldItems_newValue (hshape : HasShape field value)
    (hchange : ∀ item changed, change field item = some changed → changed.isNullish = false) :
    fieldItems field ((newValue change field value).getD value) =
      (fieldItems field value).map fun item => (change field item).getD item := by
  rcases newValue_cases change hshape with ⟨hnull,heq⟩ | ⟨hrepeated,items,rfl,heq⟩ |
    ⟨hrepeated,hmap,prototype,entries,other,rfl,hplain,hnodup,hother,heq⟩ | ⟨hpresent,hrepeated,hmap,heq⟩
  · rw [heq]
    unfold fieldItems
    rw [if_pos hnull]
    rfl
  · rw [heq]
    unfold fieldItems
    rw [if_pos hrepeated,if_pos hrepeated]
    rfl
  · rw [heq]
    unfold fieldItems
    rw [hrepeated,if_pos hmap,if_pos hmap]
    have hpairs : (entries.map fun entry => (entry.1,(change field entry.2).getD entry.2)).map Prod.snd =
        (entries.map Prod.snd).map fun item => (change field item).getD item := by
      rw [List.map_map,List.map_map]
      rfl
    exact hpairs
  · rw [heq]
    have hnew : ((change field value).getD value).isNullish = false := by
      cases hvalue : change field value with
      | none => exact hpresent
      | some changed => exact hchange value changed hvalue
    rw [fieldItems_single hrepeated hmap hpresent,fieldItems_single hrepeated hmap hnew]
    rfl

/-- Applying a function after a change. -/
theorem mapItems_newValue (f : Value → Value) (hshape : HasShape field value)
    (hchange : ∀ item changed, change field item = some changed → changed.isNullish = false) :
    mapItems f field ((newValue change field value).getD value) =
      mapItems (fun item => f ((change field item).getD item)) field value := by
  rcases newValue_cases change hshape with ⟨hnull,heq⟩ | ⟨hrepeated,items,rfl,heq⟩ |
    ⟨hrepeated,hmap,prototype,entries,other,rfl,hplain,hnodup,hother,heq⟩ | ⟨hpresent,hrepeated,hmap,heq⟩
  · rw [heq]
    unfold mapItems
    rw [if_pos hnull,if_pos hnull]
  · rw [heq]
    unfold mapItems
    rw [if_pos hrepeated,if_pos hrepeated]
    have hmaps : (items.map fun item => (change field item).getD item).map f =
        items.map fun item => f ((change field item).getD item) := by
      rw [List.map_map]
      rfl
    exact congrArg Value.array hmaps
  · rw [heq]
    unfold mapItems
    rw [hrepeated,if_pos hmap,if_pos hmap]
    have hmaps : (entries.map fun entry => (entry.1,(change field entry.2).getD entry.2)).map
        (fun entry => (entry.1,f entry.2)) =
        entries.map fun entry => (entry.1,f ((change field entry.2).getD entry.2)) := by
      rw [List.map_map]
      rfl
    exact congrArg (Value.object .plain) hmaps
  · rw [heq]
    have hnew : ((change field value).getD value).isNullish = false := by
      cases hvalue : change field value with
      | none => exact hpresent
      | some changed => exact hchange value changed hvalue
    unfold mapItems
    rw [hpresent,hnew,hrepeated,hmap]
    rfl

end Items

/-- The members of an object after the visits: what was visited is changed, the
rest is as before. -/
theorem changeVisits_find (change : ProtoField → Value → Option Value) {copy : Value}
    {visits : List (ProtoField × JsString × Value)} {output : Option Value} {prototype : Prototype}
    {members : Members} (hnodup : (visits.map fun visit => visit.2.1).Nodup)
    (houtput : output.getD copy = .object prototype members) :
    ∃ last, (changeVisits change copy visits output).getD copy = .object prototype last ∧
      ((members.map Prod.fst).Nodup → (last.map Prod.fst).Nodup) ∧ (∀ visit ∈ visits, InsertionMap.find last visit.2.1 =
        (newValue change visit.1 visit.2.2).or (InsertionMap.find members visit.2.1)) ∧
      ∀ key, (∀ visit ∈ visits, visit.2.1 ≠ key) → InsertionMap.find last key = InsertionMap.find members key := by
  induction visits generalizing output members with
  | nil => exact ⟨members,houtput,id,(fun visit hvisit => nomatch hvisit),fun _ _ => rfl⟩
  | cons visit rest ih =>
    rw [List.map_cons,List.nodup_cons] at hnodup
    have hstep : ∃ next, (changeMember (change visit.1) copy visit.1 visit.2.1 output visit.2.2).getD copy =
          .object prototype next ∧ ((members.map Prod.fst).Nodup → (next.map Prod.fst).Nodup) ∧
        ∀ key, InsertionMap.find next key =
          if visit.2.1 = key then (newValue change visit.1 visit.2.2).or (InsertionMap.find members key)
          else InsertionMap.find members key := by
      unfold changeMember newValue
      split
      · refine ⟨members,houtput,id,fun key => ?_⟩
        rw [Option.none_or]
        split
        · rfl
        · rfl
      · unfold putChanged
        cases hchanged : changeField (change visit.1) visit.1 visit.2.2 with
        | none =>
          refine ⟨members,houtput,id,fun key => ?_⟩
          rw [Option.none_or]
          split
          · rfl
          · rfl
        | some changed =>
          refine ⟨InsertionMap.put members visit.2.1 changed,?_,fun hkeys => ?_,fun key => ?_⟩
          · dsimp only
            rw [houtput]
            rfl
          · have hset := (InsertionMap.set ⟨members,hkeys⟩ visit.2.1 changed).nodup
            exact hset
          · rw [InsertionMap.find_put,Option.some_or]
    obtain ⟨next,hnext,hkeys,hfind⟩ := hstep
    obtain ⟨last,hlast,hlastKeys,hvisited,hother⟩ := ih hnodup.2 hnext
    refine ⟨last,hlast,fun hdistinct => hlastKeys (hkeys hdistinct),fun other hmem => ?_,fun key hno => ?_⟩
    · rcases List.mem_cons.mp hmem with rfl | hmem
      · have hapart : ∀ later ∈ rest, later.2.1 ≠ other.2.1 := fun later hlater heq =>
          hnodup.1 (List.mem_map.mpr ⟨later,hlater,heq⟩)
        rw [hother _ hapart,hfind,if_pos rfl]
      · have hne : visit.2.1 ≠ other.2.1 := fun heq => hnodup.1 (List.mem_map.mpr ⟨other,hmem,heq.symm⟩)
        rw [hvisited other hmem,hfind,if_neg hne]
    · rw [hother key fun later hlater => hno later (List.mem_cons_of_mem _ hlater),hfind,
        if_neg (hno visit List.mem_cons_self)]

end Baileyrs.ProtoRuntime
