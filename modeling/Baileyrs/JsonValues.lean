import Baileyrs.JsNumberReading
import Baileyrs.LegacyCodecs

/-!
# Values are read back from their JSON texts

A value whose objects name each property once has a text that is read as its tree.
A record of strings, finite numbers, arrays and records, whose names are no array
indexes, is read back as it was.
-/

namespace Baileyrs.LegacyProjection

open JsString AtomicStore LegacyValues
open Json (Legible)

section Order

variable {β γ : Type}

/-- A name that starts with no digit is no array index. -/
theorem arrayIndex_eq_none {u : UInt16} (h : Json.isDigit u = false) (rest : JsString) :
    arrayIndex (u::rest) = none := by
  unfold arrayIndex
  dsimp only
  rw [if_neg]
  intro hindex
  have hdigits := isDigit_natText (ofDigits (u::rest))
  rw [hindex.1,List.all_cons,h] at hdigits
  cases hdigits

/-- Members without array indexes keep their order. -/
theorem propertyOrder_eq_self {members : List (JsString × β)} (h : ∀ m ∈ members, arrayIndex m.1 = none) :
    propertyOrder members = members := by
  have hindexed : (members.filterMap fun m => (arrayIndex m.1).map fun n => (n,m)) = [] := by
    refine List.filterMap_eq_nil_iff.mpr fun m hm => ?_
    rw [h m hm]
    rfl
  have hnamed : (members.filter fun m => (arrayIndex m.1).isNone) = members := by
    refine List.filter_eq_self.mpr fun m hm => ?_
    rw [h m hm]
    rfl
  unfold propertyOrder
  rw [hindexed,hnamed]
  rfl

/-- Names of which none starts with a digit. -/
def named (names : List JsString) : Bool :=
  names.all fun name => match name with
    | u::_ => !Json.isDigit u
    | [] => false

/-- Such members keep their order. -/
theorem propertyOrder_named {members : List (JsString × β)} (h : named (members.map Prod.fst) = true) :
    propertyOrder members = members := by
  refine propertyOrder_eq_self fun m hm => ?_
  have hname := List.all_eq_true.mp h m.1 (List.mem_map_of_mem hm)
  cases hcase : m.1 with
  | nil =>
    rw [hcase] at hname
    cases hname
  | cons u rest =>
    rw [hcase] at hname
    exact arrayIndex_eq_none ((Bool.not_eq_true' _).mp hname) rest

/-- Members with array indexes, and the others. -/
theorem indexed_append_named (members : List (JsString × β)) :
    ((members.filterMap fun m => (arrayIndex m.1).map fun n => (n,m)).map Prod.snd++
      members.filter fun m => (arrayIndex m.1).isNone).Perm members := by
  induction members with
  | nil => exact .nil
  | cons m rest ih =>
    cases hm : arrayIndex m.1 with
    | none =>
      rw [List.filterMap_cons_none (by rw [hm]; rfl),List.filter_cons_of_pos (by rw [hm]; rfl)]
      exact List.perm_middle.trans (ih.cons m)
    | some n =>
      rw [List.filterMap_cons_some (b := (n,m)) (by rw [hm]; rfl),List.filter_cons_of_neg (by rw [hm]; simp)]
      exact ih.cons m

/-- Ordering members only moves them. -/
theorem perm_propertyOrder (members : List (JsString × β)) : (propertyOrder members).Perm members := by
  have hsorted := List.perm_insertionSort (fun first second : ℕ × (JsString × β) => first.1 ≤ second.1)
    (members.filterMap fun m => (arrayIndex m.1).map fun n => (n,m))
  exact ((hsorted.map Prod.snd).append_right _).trans (indexed_append_named members)

/-- Ordering members does not look at their values. -/
theorem propertyOrder_map (f : JsString × β → JsString × γ) (hf : ∀ m, (f m).1 = m.1)
    (members : List (JsString × β)) : propertyOrder (members.map f) = (propertyOrder members).map f := by
  have hindexed : ((members.map f).filterMap fun m => (arrayIndex m.1).map fun n => (n,m)) =
      (members.filterMap fun m => (arrayIndex m.1).map fun n => (n,m)).map fun m => (m.1,f m.2) := by
    rw [List.filterMap_map,List.map_filterMap]
    congr 1
    funext m
    dsimp only [Function.comp]
    rw [hf,Option.map_map]
    rfl
  have hsorted := List.map_insertionSort (fun first second : ℕ × (JsString × β) => first.1 ≤ second.1)
    (fun first second : ℕ × (JsString × γ) => first.1 ≤ second.1) (fun m => (m.1,f m.2))
    (members.filterMap fun m => (arrayIndex m.1).map fun n => (n,m)) fun _ _ _ _ => Iff.rfl
  have hnamed : ((members.map f).filter fun m => (arrayIndex m.1).isNone) =
      (members.filter fun m => (arrayIndex m.1).isNone).map f := by
    rw [List.filter_map]
    congr 2
    funext m
    dsimp only [Function.comp]
    rw [hf]
  unfold propertyOrder
  dsimp only
  rw [hindexed,← hsorted,hnamed,List.map_append,List.map_map,List.map_map]
  rfl

/-- Ordering members twice is ordering them once. -/
theorem propertyOrder_idem (members : List (JsString × β)) :
    propertyOrder (propertyOrder members) = propertyOrder members := by
  have hindexed : ∀ m ∈ (members.filterMap fun m => (arrayIndex m.1).map fun n => (n,m)),
      arrayIndex m.2.1 = some m.1 := by
    intro m hm
    obtain ⟨found,_,hfound⟩ := List.mem_filterMap.mp hm
    cases hname : arrayIndex found.1 with
    | none =>
      rw [hname] at hfound
      cases hfound
    | some n =>
      rw [hname] at hfound
      cases hfound
      exact hname
  have hsorted : ∀ m ∈ (members.filterMap fun m => (arrayIndex m.1).map fun n => (n,m)).insertionSort
      (fun first second => first.1 ≤ second.1), arrayIndex m.2.1 = some m.1 :=
    fun m hm => hindexed m ((List.mem_insertionSort _).mp hm)
  have hpairwise := List.pairwise_insertionSort (fun first second : ℕ × (JsString × β) => first.1 ≤ second.1)
    (members.filterMap fun m => (arrayIndex m.1).map fun n => (n,m))
  have hnamed : ∀ m ∈ members.filter (fun m => (arrayIndex m.1).isNone), arrayIndex m.1 = none :=
    fun m hm => Option.isNone_iff_eq_none.mp (List.mem_filter.mp hm).2
  unfold propertyOrder
  dsimp only
  generalize (members.filterMap fun m => (arrayIndex m.1).map fun n => (n,m)).insertionSort
    (fun first second => first.1 ≤ second.1) = indexed at hsorted hpairwise ⊢
  generalize members.filter (fun m => (arrayIndex m.1).isNone) = named at hnamed ⊢
  have hfirst : ((indexed.map Prod.snd++named).filterMap fun m => (arrayIndex m.1).map fun n => (n,m)) = indexed := by
    rw [List.filterMap_append,List.filterMap_map]
    have hleft : indexed.filterMap ((fun m => (arrayIndex m.1).map fun n => (n,m)) ∘ Prod.snd) = indexed := by
      rw [List.filterMap_congr (g := some) fun m hm => by
        dsimp only [Function.comp]
        rw [hsorted m hm]
        rfl]
      exact List.filterMap_some
    have hright : (named.filterMap fun m => (arrayIndex m.1).map fun n => (n,m)) = [] := by
      refine List.filterMap_eq_nil_iff.mpr fun m hm => ?_
      rw [hnamed m hm]
      rfl
    rw [hleft,hright,List.append_nil]
  have hlast : (indexed.map Prod.snd++named).filter (fun m => (arrayIndex m.1).isNone) = named := by
    rw [List.filter_append]
    have hleft : (indexed.map Prod.snd).filter (fun m => (arrayIndex m.1).isNone) = [] := by
      refine List.filter_eq_nil_iff.mpr fun m hm => ?_
      obtain ⟨found,hfound,rfl⟩ := List.mem_map.mp hm
      rw [hsorted found hfound]
      exact Bool.false_ne_true
    have hright : named.filter (fun m => (arrayIndex m.1).isNone) = named :=
      List.filter_eq_self.mpr fun m hm => by rw [hnamed m hm]; rfl
    rw [hleft,hright,List.nil_append]
  rw [hfirst,hlast,List.Pairwise.insertionSort_eq hpairwise]

end Order

section Texts

/-- The bytes of a legible text are read as its tree. -/
theorem fromJsonBytes_legible {tree : Json} (h : Legible tree) :
    fromJsonBytes (encodeUtf8 tree.stringify) = .ok (ofJson tree) := by
  obtain ⟨u,rest,heq,hstarts⟩ := h.head
  have hpaired := Json.paired_legible h
  have hmark : u ≠ 65279 := by
    rintro rfl
    rcases hstarts with h | h | h | h | h | h | h | h
    all_goals exact absurd h (by decide)
  have hdecoded : decodeUtf8 (encodeUtf8 tree.stringify) = tree.stringify := by
    rw [heq] at hpaired ⊢
    exact decodeUtf8_encodeUtf8 hpaired hmark
  rw [fromJsonBytes,hdecoded,Json.parse_legible h]

/-- Objects name each property once. -/
inductive Distinct : Value → Prop
  | undefined : Distinct .undefined
  | null : Distinct .null
  | bool (b : Bool) : Distinct (.bool b)
  | number (x : JsNumber) : Distinct (.number x)
  | bigint (n : ℤ) : Distinct (.bigint n)
  | string (text : JsString) : Distinct (.string text)
  | bytes (data : Bytes) : Distinct (.bytes data)
  | date (iso : JsString) : Distinct (.date iso)
  | array (items : List Value) (hitems : ∀ item ∈ items, Distinct item) : Distinct (.array items)
  | object (members : List (JsString × Value)) (hmembers : ∀ m ∈ members, Distinct m.2)
    (hnodup : (members.map Prod.fst).Nodup) : Distinct (.object members)
  | message (members json : List (JsString × Value)) (hmembers : ∀ m ∈ members, Distinct m.2)
    (hjson : ∀ m ∈ json, Distinct m.2) (hnodup : (members.map Prod.fst).Nodup)
    (hnames : (json.map Prod.fst).Nodup) : Distinct (.message members json)
  | unsupported (kind : JsString) : Distinct (.unsupported kind)

theorem legible_byteLiteral (b : UInt8) : Legible (byteLiteral b) := by
  have h := literal_intText b.toNat
  exact .number _ h

/-- The text of a byte array is legible. -/
theorem legible_bufferTree (data : Bytes) :
    Legible (.object [(ofString "type",.string (ofString "Buffer")),(ofString "data",.array (data.map byteLiteral))]) := by
  have hnames : [ofString "type",ofString "data"].Nodup := by decide
  refine .object _ hnames fun member hmember => ?_
  rcases List.mem_cons.mp hmember with rfl | hlast
  · exact .string _
  · rw [List.mem_singleton.mp hlast]
    refine .array _ fun item hitem => ?_
    obtain ⟨b,_,rfl⟩ := List.mem_map.mp hitem
    exact legible_byteLiteral b

theorem legible_toJsonItems {items : List Value} {written : List Json}
    (h : ∀ item ∈ items, ∀ tree, toJson item = .ok (some tree) → Legible tree)
    (hwritten : toJsonItems items = .ok written) : ∀ tree ∈ written, Legible tree := by
  induction items generalizing written with
  | nil =>
    cases hwritten
    exact fun _ htree => nomatch htree
  | cons item rest ih =>
    rw [toJsonItems] at hwritten
    obtain ⟨first,hfirst,hwritten⟩ := bind_ok hwritten
    obtain ⟨others,hothers,hwritten⟩ := bind_ok hwritten
    cases hwritten
    have hrest := ih (fun other hother => h other (List.mem_cons_of_mem _ hother)) hothers
    have hone : Legible (first.getD .null) := by
      cases first with
      | none => exact .null
      | some tree => exact h item List.mem_cons_self tree hfirst
    exact fun tree htree => (List.mem_cons.mp htree).elim (fun heq => heq ▸ hone) (hrest tree)

theorem legible_toJsonMembers {members : List (JsString × Value)} {written : List (JsString × Json)}
    (h : ∀ m ∈ members, ∀ tree, toJson m.2 = .ok (some tree) → Legible tree)
    (hwritten : toJsonMembers members = .ok written) :
    (written.map Prod.fst).Sublist (members.map Prod.fst) ∧ ∀ member ∈ written, Legible member.2 := by
  induction members generalizing written with
  | nil =>
    cases hwritten
    exact ⟨.refl _,fun _ hmember => nomatch hmember⟩
  | cons m rest ih =>
    rw [toJsonMembers] at hwritten
    obtain ⟨first,hfirst,hwritten⟩ := bind_ok hwritten
    obtain ⟨others,hothers,hwritten⟩ := bind_ok hwritten
    have hrest := ih (fun other hother => h other (List.mem_cons_of_mem _ hother)) hothers
    cases first with
    | none =>
      cases hwritten
      exact ⟨hrest.1.cons _,hrest.2⟩
    | some tree =>
      cases hwritten
      have hone := h m List.mem_cons_self tree hfirst
      exact ⟨hrest.1.cons_cons _,fun member hmember =>
        (List.mem_cons.mp hmember).elim (fun heq => heq ▸ hone) (hrest.2 member)⟩

/-- The text of a value is legible where its objects name each property once. -/
theorem Distinct.legible {value : Value} (h : Distinct value) : ∀ tree, toJson value = .ok (some tree) → Legible tree := by
  induction h with
  | undefined => intro tree htree; cases htree
  | null => intro tree htree; cases htree; exact .null
  | bool b => intro tree htree; cases htree; exact .bool b
  | number x =>
    intro tree htree
    rw [toJson] at htree
    cases htree
    split
    · rename_i hfinite
      exact .number _ (JsNumber.literal_text hfinite)
    · exact .null
  | bigint n => intro tree htree; cases htree
  | string text => intro tree htree; cases htree; exact .string text
  | bytes data => intro tree htree; cases htree; exact legible_bufferTree data
  | date iso => intro tree htree; cases htree; exact .string iso
  | array items _ ih =>
    intro tree htree
    rw [toJson] at htree
    obtain ⟨written,hwritten,htree⟩ := bind_ok htree
    cases htree
    exact .array _ (legible_toJsonItems ih hwritten)
  | object members _ hnodup ih =>
    intro tree htree
    rw [toJson] at htree
    obtain ⟨written,hwritten,htree⟩ := bind_ok htree
    cases htree
    have hlegible := legible_toJsonMembers ih hwritten
    exact .object _ (hnodup.sublist hlegible.1) hlegible.2
  | message members json _ _ _ hnames _ ih =>
    intro tree htree
    rw [toJson] at htree
    obtain ⟨written,hwritten,htree⟩ := bind_ok htree
    cases htree
    have hlegible := legible_toJsonMembers ih hwritten
    exact .object _ (hnames.sublist hlegible.1) hlegible.2
  | unsupported kind => intro tree htree; cases htree

theorem distinct_find {members : List (JsString × Value)} (h : ∀ m ∈ members, Distinct m.2) (name : JsString) :
    Distinct ((InsertionMap.find members name).getD .undefined) := by
  cases hfind : InsertionMap.find members name with
  | none => exact .undefined
  | some value => exact h _ (InsertionMap.mem_of_find hfind)

/-- A property of a value whose objects name each property once. -/
theorem Distinct.member {value found : Value} (h : Distinct value) {name : String}
    (hfound : valueMember value name = .ok found) : Distinct found := by
  cases h with
  | undefined => cases hfound
  | null => cases hfound
  | object members hmembers _ =>
    cases hfound
    exact distinct_find hmembers _
  | message members json hmembers _ _ _ =>
    cases hfound
    exact distinct_find hmembers _
  | _ =>
    cases hfound
    exact .undefined

/-- What such a value is copied as. -/
theorem Distinct.items {value : Value} (h : Distinct value) {items : List Value} (hitems : arrayFrom value = .ok items) :
    ∀ item ∈ items, Distinct item := by
  cases h with
  | bytes data =>
    cases hitems
    intro item hitem
    obtain ⟨b,_,rfl⟩ := List.mem_map.mp hitem
    exact .number _
  | array found hfound =>
    cases hitems
    exact hfound
  | string text =>
    cases hitems
    intro item hitem
    obtain ⟨code,_,rfl⟩ := List.mem_map.mp hitem
    exact .string _
  | object members hmembers _ =>
    rw [arrayFrom] at hitems
    split at hitems
    · split at hitems
      · cases hitems
        intro item hitem
        obtain ⟨i,_,rfl⟩ := List.mem_map.mp hitem
        exact distinct_find hmembers _
      · cases hitems
        exact fun _ hitem => by cases hitem
    · cases hitems
      exact fun _ hitem => by cases hitem
  | undefined => cases hitems
  | null => cases hitems
  | _ =>
    cases hitems
    exact fun _ hitem => by cases hitem

/-- What such a value lists. -/
theorem Distinct.entries {value : Value} (h : Distinct value) : ∀ m ∈ objectEntries value, Distinct m.2 := by
  cases h with
  | bytes data =>
    intro m hm
    obtain ⟨found,_,rfl⟩ := List.mem_map.mp hm
    exact .number _
  | array items hitems =>
    intro m hm
    obtain ⟨found,hfound,rfl⟩ := List.mem_map.mp hm
    exact hitems found.1 (List.fst_mem_of_mem_zipIdx hfound)
  | string text =>
    intro m hm
    obtain ⟨found,_,rfl⟩ := List.mem_map.mp hm
    exact .string _
  | object members hmembers _ => exact hmembers
  | message members json hmembers _ _ _ => exact hmembers
  | _ => exact fun _ hm => nomatch hm

/-- A record of finite numbers, strings, arrays and records with distinct names. -/
inductive Clean : Value → Prop
  | null : Clean .null
  | bool (b : Bool) : Clean (.bool b)
  | number (x : JsNumber) (hfinite : x.isFinite = true) (hzero : x ≠ .negativeZero) : Clean (.number x)
  | string (text : JsString) : Clean (.string text)
  | array (items : List Value) (hitems : ∀ item ∈ items, Clean item) : Clean (.array items)
  | object (members : List (JsString × Value)) (hmembers : ∀ m ∈ members, Clean m.2)
    (hnodup : (members.map Prod.fst).Nodup) (horder : propertyOrder members = members) : Clean (.object members)

/-- A record by its names and its values. -/
theorem Clean.record {members : List (JsString × Value)} (h : ∀ value ∈ members.map Prod.snd, Clean value)
    (hnames : (members.map Prod.fst).Nodup ∧ named (members.map Prod.fst) = true) : Clean (.object members) :=
  .object members (fun _ hm => h _ (List.mem_map_of_mem hm)) hnames.1 (propertyOrder_named hnames.2)

/-- A value has a legible text that is read back as the value. -/
def Restored (value : Value) : Prop :=
  ∃ tree, toJson value = .ok (some tree) ∧ Legible tree ∧ ofJson tree = value

theorem restored_items {items : List Value} (h : ∀ item ∈ items, Restored item) :
    ∃ written, toJsonItems items = .ok written ∧ (∀ tree ∈ written, Legible tree) ∧ ofJsonItems written = items := by
  induction items with
  | nil => exact ⟨[],rfl,fun _ htree => (nomatch htree),rfl⟩
  | cons item rest ih =>
    obtain ⟨first,hfirst,hlegible,hread⟩ := h item List.mem_cons_self
    obtain ⟨others,hothers,hrest,hback⟩ := ih fun other hother => h other (List.mem_cons_of_mem _ hother)
    refine ⟨first::others,?_,?_,?_⟩
    · rw [toJsonItems,hfirst,hothers]
      rfl
    · exact fun tree htree => (List.mem_cons.mp htree).elim (fun heq => heq ▸ hlegible) (hrest tree)
    · rw [ofJsonItems,hread,hback]

theorem restored_members {members : List (JsString × Value)} (h : ∀ m ∈ members, Restored m.2) :
    ∃ written, toJsonMembers members = .ok written ∧ written.map Prod.fst = members.map Prod.fst ∧
      (∀ member ∈ written, Legible member.2) ∧ ofJsonMembers written = members := by
  induction members with
  | nil => exact ⟨[],rfl,rfl,fun _ hmember => (nomatch hmember),rfl⟩
  | cons m rest ih =>
    obtain ⟨first,hfirst,hlegible,hread⟩ := h m List.mem_cons_self
    obtain ⟨others,hothers,hnames,hrest,hback⟩ := ih fun other hother => h other (List.mem_cons_of_mem _ hother)
    refine ⟨(m.1,first)::others,?_,?_,?_,?_⟩
    · rw [toJsonMembers,hfirst,hothers]
      rfl
    · rw [List.map_cons,List.map_cons,hnames]
    · exact fun member hmember => (List.mem_cons.mp hmember).elim (fun heq => heq ▸ hlegible) (hrest member)
    · rw [ofJsonMembers,hread,hback]

/-- A record is read back as it was. -/
theorem Clean.restored {value : Value} (h : Clean value) : Restored value := by
  induction h with
  | null => exact ⟨.null,rfl,.null,rfl⟩
  | bool b => exact ⟨.bool b,rfl,.bool b,rfl⟩
  | number x hfinite hzero =>
    refine ⟨.number x.text,?_,.number _ (JsNumber.literal_text hfinite),?_⟩
    · rw [toJson,if_pos hfinite]
    · rw [ofJson,JsNumber.ofLiteral_text hfinite hzero]
  | string text => exact ⟨.string text,rfl,.string text,rfl⟩
  | array items _ ih =>
    obtain ⟨written,hwritten,hlegible,hback⟩ := restored_items ih
    refine ⟨.array written,?_,.array _ hlegible,?_⟩
    · rw [toJson,hwritten]
      rfl
    · rw [ofJson,hback]
  | object members _ hnodup horder ih =>
    obtain ⟨written,hwritten,hnames,hlegible,hback⟩ := restored_members ih
    refine ⟨.object written,?_,.object _ (hnames ▸ hnodup) hlegible,?_⟩
    · rw [toJson,hwritten]
      rfl
    · rw [ofJson,hback,horder]

/-- The bytes of a record are read back as the record. -/
theorem Clean.bytes {value : Value} (h : Clean value) :
    ∃ bytes, toJsonBytes value = .ok bytes ∧ fromJsonBytes bytes = .ok value := by
  obtain ⟨tree,htree,hlegible,hback⟩ := h.restored
  refine ⟨encodeUtf8 tree.stringify,?_,?_⟩
  · rw [toJsonBytes,htree]
    rfl
  · rw [fromJsonBytes_legible hlegible,hback]

end Texts

end Baileyrs.LegacyProjection
