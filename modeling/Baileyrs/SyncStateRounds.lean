import Baileyrs.ByteNumbers
import Baileyrs.RecordCodecs
import Baileyrs.LegacyOwnership

/-!
# Rounds of sync states

A sync state that is converted, projected and converted again. Its hash and its MACs
are copied by the first conversion as they are, and checked by the projection only.
Where they are bytes, the second conversion writes what the first one wrote.
-/

namespace Baileyrs.LegacyProjection

open JsString AtomicStore LegacyValues
open Json (Legible)

section Parts

/-- Items that every one is converted have a result for each. -/
theorem mapM_of_forall {α β ε : Type} {f : α → Except ε β} {g : α → β} {items : List α}
    (h : ∀ item ∈ items, f item = .ok (g item)) : items.mapM f = .ok (items.map g) := by
  induction items with
  | nil => rfl
  | cons item rest ih =>
    have hrest := ih fun other hother => h other (List.mem_cons_of_mem _ hother)
    rw [List.mapM_cons,h item List.mem_cons_self,hrest]
    rfl

theorem mapM_congr {α β ε : Type} {f g : α → Except ε β} {items : List α} (h : ∀ item ∈ items, f item = g item) :
    items.mapM f = items.mapM g := by
  induction items with
  | nil => rfl
  | cons item rest ih =>
    have hrest := ih fun other hother => h other (List.mem_cons_of_mem _ hother)
    rw [List.mapM_cons,List.mapM_cons,h item List.mem_cons_self,hrest]

/-- Where one item is refused, so are all. -/
theorem mapM_ne_ok {α β ε : Type} {f : α → Except ε β} {items : List α} {item : α} (hitem : item ∈ items)
    (h : ∀ result, f item ≠ .ok result) (results : List β) : items.mapM f ≠ .ok results := by
  intro hall
  have hforall := mapM_ok hall
  clear hall
  induction hforall with
  | nil => cases hitem
  | cons hfirst _ ih =>
    rcases List.mem_cons.mp hitem with rfl | hrest
    · exact h _ hfirst
    · exact ih hrest

/-- What a value is read back as. -/
def readBack (value : Value) : Value :=
  match toJson value with
  | .ok (some tree) => ofJson tree
  | _ => .null

/-- A member that is an array. -/
def IsArray (value : Value) : Prop := ∃ items, value = .array items

theorem toJson_array {items : List Value} {written : Option Json} (h : toJson (.array items) = .ok written) :
    ∃ trees, toJsonItems items = .ok trees ∧ written = some (.array trees) := by
  rw [toJson] at h
  obtain ⟨trees,htrees,h⟩ := bind_ok h
  cases h
  exact ⟨trees,htrees,rfl⟩

theorem ofJsonMembers_readBack {members : List (JsString × Value)} {written : List (JsString × Json)}
    (h : toJsonMembers members = .ok written) (harrays : ∀ m ∈ members, IsArray m.2) :
    ofJsonMembers written = members.map fun m => (m.1,readBack m.2) := by
  induction members generalizing written with
  | nil =>
    cases h
    rfl
  | cons m rest ih =>
    rw [toJsonMembers] at h
    obtain ⟨first,hfirst,h⟩ := bind_ok h
    obtain ⟨others,hothers,h⟩ := bind_ok h
    have hrest := ih hothers fun other hother => harrays other (List.mem_cons_of_mem _ hother)
    obtain ⟨items,hitems⟩ := harrays m List.mem_cons_self
    rw [hitems] at hfirst
    obtain ⟨trees,_,rfl⟩ := toJson_array hfirst
    cases h
    have hback : readBack m.2 = ofJson (.array trees) := by
      rw [hitems,readBack,hfirst]
    rw [ofJsonMembers,hrest,List.map_cons,hback]

theorem toJsonMembers_each {members : List (JsString × Value)} {written : List (JsString × Json)}
    (h : toJsonMembers members = .ok written) : ∀ m ∈ members, ∃ first, toJson m.2 = .ok first := by
  induction members generalizing written with
  | nil => exact fun _ hm => nomatch hm
  | cons m rest ih =>
    rw [toJsonMembers] at h
    obtain ⟨first,hfirst,h⟩ := bind_ok h
    obtain ⟨others,hothers,_⟩ := bind_ok h
    have hrest := ih hothers
    intro other hother
    rcases List.mem_cons.mp hother with rfl | hmem
    · exact ⟨first,hfirst⟩
    · exact hrest other hmem

/-- Reading an array back leaves whether it is one of bytes. -/
theorem requireByteArray_readBack {value : Value} (harray : IsArray value)
    (hwritten : ∃ first, toJson value = .ok first) (label : String) :
    requireByteArray (readBack value) label = requireByteArray value label := by
  obtain ⟨items,rfl⟩ := harray
  obtain ⟨first,hfirst⟩ := hwritten
  obtain ⟨trees,_,rfl⟩ := toJson_array hfirst
  have hback : readBack (.array items) = ofJson (.array trees) := by
    rw [readBack,hfirst]
  rw [hback,requireByteArray_ofJson hfirst]

/-- Members with the same texts are written alike. -/
theorem toJsonMembers_congr {f g : JsString × Value → JsString × Value} {members : List (JsString × Value)}
    (hnames : ∀ m ∈ members, (f m).1 = (g m).1) (htexts : ∀ m ∈ members, toJson (f m).2 = toJson (g m).2) :
    toJsonMembers (members.map f) = toJsonMembers (members.map g) := by
  induction members with
  | nil => rfl
  | cons m rest ih =>
    have hrest := ih (fun other hother => hnames other (List.mem_cons_of_mem _ hother))
      fun other hother => htexts other (List.mem_cons_of_mem _ hother)
    have hname := hnames m List.mem_cons_self
    have htext := htexts m List.mem_cons_self
    rw [List.map_cons,List.map_cons]
    cases hf : f m with
    | mk name value =>
      cases hg : g m with
      | mk other found =>
        rw [hf,hg] at hname htext
        dsimp only at hname htext
        rw [toJsonMembers,toJsonMembers,hname,htext,hrest]

/-- Names are told apart by an order. -/
structure Ordered (le : JsString → JsString → Bool) : Prop where
  /-- Any two compare. -/
  total : ∀ first second, le first second = true ∨ le second first = true
  /-- Comparisons chain. -/
  chain : ∀ first second third, le first second = true → le second third = true → le first third = true

/-- Names of which no two compare as equal. -/
def Separate (le : JsString → JsString → Bool) (names : List JsString) : Prop :=
  names.Pairwise fun first second => ¬(le first second = true ∧ le second first = true)

theorem Separate.nodup {le : JsString → JsString → Bool} (hle : Ordered le) {names : List JsString}
    (h : Separate le names) : names.Nodup := by
  refine h.imp fun {first second} hne heq => hne ?_
  rw [heq]
  have hself := hle.total second second
  exact ⟨hself.elim id id,hself.elim id id⟩

/-- Sorted members with separate names are the only sorted ones. -/
theorem insertionSort_perm {β : Type} {le : JsString → JsString → Bool} (hle : Ordered le)
    {members others : List (JsString × β)} (hperm : others.Perm members) (h : Separate le (members.map Prod.fst))
    (hsorted : members.Pairwise fun first second => le first.1 second.1 = true) :
    others.insertionSort (fun first second => le first.1 second.1 = true) = members := by
  have htotal : Std.Total fun first second : JsString × β => le first.1 second.1 = true :=
    ⟨fun first second => hle.total first.1 second.1⟩
  have htrans : IsTrans (JsString × β) fun first second => le first.1 second.1 = true :=
    ⟨fun first second third => hle.chain first.1 second.1 third.1⟩
  have hresult := List.pairwise_insertionSort (fun first second : JsString × β => le first.1 second.1 = true) others
  have hmoved := (List.perm_insertionSort (fun first second : JsString × β => le first.1 second.1 = true) others).trans
    hperm
  refine List.Perm.eq_of_pairwise (fun first second hfirst hsecond hforth hback => ?_) hresult hsorted hmoved
  have hmember := hmoved.mem_iff.mp hfirst
  by_contra hne
  have hpairs : members.Pairwise fun a b => ¬(le a.1 b.1 = true ∧ le b.1 a.1 = true) := List.pairwise_map.mp h
  have hsymm : Std.Symm fun a b : JsString × β => ¬(le a.1 b.1 = true ∧ le b.1 a.1 = true) :=
    ⟨fun _ _ hnot hboth => hnot hboth.symm⟩
  exact hpairs.forall hmember hsecond hne ⟨hforth,hback⟩

end Parts

namespace SyncVersion

/-- A record of a sync state, as it is written. -/
def nativeState (version : Value) (hash : List Value) (macs : List (JsString × Value)) : Value :=
  .object [(ofString "version",version),(ofString "hash",.array hash),(ofString "index_value_map",assigned macs)]

/-- A projected sync state. -/
def legacyState (version : Value) (hash : Bytes) (macs : List (JsString × Value)) : Value :=
  .object [(ofString "version",version),(ofString "hash",.bytes hash),(ofString "indexValueMap",assigned macs)]

/-- Items of a hash, or the default in place of one that is none. -/
def hashItems (hash : Value) : Except StoreError (List Value) :=
  if hash.isTruthy then arrayFrom hash else .ok (List.replicate 128 (.number .zero))

/-- What a sync state is converted from. -/
structure Made (le : JsString → JsString → Bool) (value map version hash : Value) (items : List Value)
    (macs : List (JsString × Value)) (bytes : Bytes) : Prop where
  /-- It is not binary. -/
  plain : value.toBytes = none
  /-- Its MACs. -/
  mapMember : valueMember value "indexValueMap" = .ok map
  /-- Its version. -/
  versionMember : valueMember value "version" = .ok version
  /-- Its hash. -/
  hashMember : valueMember value "hash" = .ok hash
  /-- What the hash is copied as. -/
  copied : hashItems hash = .ok items
  /-- What the MACs are copied as. -/
  converted : ((objectEntries (orElse map (.object []))).insertionSort fun first second =>
    le first.1 second.1 = true).mapM convertMac = .ok macs
  /-- The text of the record. -/
  written : toJsonBytes (nativeState (orElse version (.number .zero)) items macs) = .ok bytes

variable {le : JsString → JsString → Bool} {value map version hash : Value} {items : List Value}
  {macs : List (JsString × Value)} {bytes : Bytes}

/-- The steps of a conversion. -/
theorem fromLegacy_eq (h : value.toBytes = none) : fromLegacy le value = do
    let map ← valueMember value "indexValueMap"
    let macs ← ((objectEntries (orElse map (.object []))).insertionSort fun first second =>
      le first.1 second.1 = true).mapM convertMac
    let version ← valueMember value "version"
    let hash ← valueMember value "hash"
    let items ← hashItems hash
    let bytes ← toJsonBytes (nativeState (orElse version (.number .zero)) items macs)
    return some bytes := by
  unfold fromLegacy hashItems nativeState
  rw [h]
  dsimp only
  refine bind_congr fun map => bind_congr fun macs => bind_congr fun version => bind_congr fun hash => ?_
  split
  · rfl
  · rfl

/-- A state that is made so is converted. -/
theorem Made.fromLegacy (h : Made le value map version hash items macs bytes) :
    fromLegacy le value = .ok (some bytes) := by
  rw [fromLegacy_eq h.plain,h.mapMember]
  dsimp only [bind,Except.bind]
  rw [h.converted]
  dsimp only
  rw [h.versionMember]
  dsimp only
  rw [h.hashMember]
  dsimp only
  rw [h.copied]
  dsimp only
  rw [h.written]
  rfl

/-- The names of converted MACs are those of the state. -/
theorem convertMac_name {entry result : JsString × Value} (h : convertMac entry = .ok result) :
    result.1 = entry.1 ∧ IsArray result.2 := by
  unfold convertMac at h
  obtain ⟨mac,_,h⟩ := bind_ok h
  obtain ⟨numbers,_,h⟩ := bind_ok h
  cases h
  exact ⟨rfl,numbers,rfl⟩

theorem forall_converted {entries results : List (JsString × Value)} (h : entries.mapM convertMac = .ok results) :
    results.map Prod.fst = entries.map Prod.fst ∧ ∀ m ∈ results, IsArray m.2 := by
  have hforall := mapM_ok h
  clear h
  induction hforall with
  | nil => exact ⟨rfl,fun _ hm => nomatch hm⟩
  | cons hfirst _ ih =>
    obtain ⟨hname,harray⟩ := convertMac_name hfirst
    refine ⟨by rw [List.map_cons,List.map_cons,hname,ih.1],fun m hm => ?_⟩
    rcases List.mem_cons.mp hm with rfl | hrest
    · exact harray
    · exact ih.2 m hrest

/-- Names that are not the prototype's are all assigned. -/
theorem assigned_eq (h : ∀ m ∈ macs, m.1 ≠ ofString "__proto__") : assigned macs = .object (propertyOrder macs) := by
  have hall : (macs.filter fun m => m.1 ≠ ofString "__proto__") = macs :=
    List.filter_eq_self.mpr fun m hm => decide_eq_true (h m hm)
  rw [assigned,hall]

/-- The trees of a record's text. -/
theorem nativeState_tree {x : JsNumber} (hfinite : x.isFinite = true)
    (hproto : ∀ m ∈ macs, m.1 ≠ ofString "__proto__")
    (h : toJsonBytes (nativeState (.number x) items macs) = .ok bytes) :
    ∃ trees members, toJsonItems items = .ok trees ∧ toJsonMembers (propertyOrder macs) = .ok members ∧
      toJson (nativeState (.number x) items macs) = .ok (some (.object [(ofString "version",.number x.text),
        (ofString "hash",.array trees),(ofString "index_value_map",.object members)])) ∧
      bytes = encodeUtf8 (Json.object [(ofString "version",.number x.text),(ofString "hash",.array trees),
        (ofString "index_value_map",.object members)]).stringify := by
  unfold toJsonBytes at h
  obtain ⟨tree,htree,h⟩ := bind_ok h
  have hkept := htree
  unfold nativeState at htree
  rw [assigned_eq hproto] at htree
  rw [toJson,toJsonMembers,toJson,if_pos hfinite,toJsonMembers,toJsonMembers,toJsonMembers] at htree
  obtain ⟨all,hall,htree⟩ := bind_ok htree
  obtain ⟨version,hversion,hall⟩ := bind_ok hall
  cases hversion
  obtain ⟨others,hothers,hall⟩ := bind_ok hall
  obtain ⟨hash,hhash,hothers⟩ := bind_ok hothers
  obtain ⟨trees,htrees,rfl⟩ := toJson_array hhash
  obtain ⟨last,hlast,hothers⟩ := bind_ok hothers
  obtain ⟨written,hwritten,hlast⟩ := bind_ok hlast
  rw [toJson] at hwritten
  obtain ⟨members,hmembers,hwritten⟩ := bind_ok hwritten
  cases hwritten
  cases hlast
  cases hothers
  cases hall
  cases htree
  cases h
  exact ⟨trees,members,htrees,hmembers,hkept,rfl⟩

/-- The record is read back as what its trees stand for. -/
theorem propertyOrder_state {β : Type} (version hash map : β) :
    propertyOrder [(ofString "version",version),(ofString "hash",hash),(ofString "index_value_map",map)] =
      [(ofString "version",version),(ofString "hash",hash),(ofString "index_value_map",map)] := by
  refine propertyOrder_eq_self fun m hm => ?_
  rcases List.mem_cons.mp hm with rfl | hm
  · exact arrayIndex_eq_none (by decide) _
  · rcases List.mem_cons.mp hm with rfl | hm
    · exact arrayIndex_eq_none (by decide) _
    · rw [List.mem_singleton.mp hm]
      exact arrayIndex_eq_none (by decide) _

/-- The projection of a record of arrays. -/
theorem toLegacy_written {x : JsNumber} (hfinite : x.isFinite = true)
    (hproto : ∀ m ∈ macs, m.1 ≠ ofString "__proto__") (harrays : ∀ m ∈ macs, IsArray m.2)
    (hlegible : ∀ tree, toJson (nativeState (.number x) items macs) = .ok (some tree) → Legible tree)
    (h : toJsonBytes (nativeState (.number x) items macs) = .ok bytes) :
    toLegacy bytes = do
      let projected ← (propertyOrder macs).mapM projectMac
      let hash ← requireByteArray (.array items) "sync-version hash"
      return some (legacyState (.number (.ofLiteral x.text)) hash projected) := by
  obtain ⟨trees,members,htrees,hmembers,htree,rfl⟩ := nativeState_tree hfinite hproto h
  have hordered : ∀ m ∈ propertyOrder macs, IsArray m.2 :=
    fun m hm => harrays m ((perm_propertyOrder macs).mem_iff.mp hm)
  have hread : fromJsonBytes (encodeUtf8 (Json.object [(ofString "version",.number x.text),
      (ofString "hash",.array trees),(ofString "index_value_map",.object members)]).stringify) =
      .ok (.object [(ofString "version",.number (.ofLiteral x.text)),(ofString "hash",ofJson (.array trees)),
        (ofString "index_value_map",ofJson (.object members))]) := by
    rw [fromJsonBytes_legible (hlegible _ htree)]
    simp only [ofJson,ofJsonMembers]
    rw [propertyOrder_state]
  have hback : ofJson (.object members) = .object ((propertyOrder macs).map fun m => (m.1,readBack m.2)) := by
    rw [ofJson,ofJsonMembers_readBack hmembers hordered,propertyOrder_map (fun m => (m.1,readBack m.2)) fun _ => rfl,
      propertyOrder_idem]
  have hmacs : ((propertyOrder macs).map fun m => (m.1,readBack m.2)).mapM projectMac =
      (propertyOrder macs).mapM projectMac := by
    rw [List.mapM_map]
    refine mapM_congr fun m hm => ?_
    dsimp only [Function.comp]
    unfold projectMac
    rw [requireByteArray_readBack (hordered m hm) (toJsonMembers_each hmembers m hm)]
  have hhash : toJson (.array items) = .ok (some (.array trees)) := by
    rw [toJson,htrees]
    rfl
  unfold toLegacy
  rw [hread,hback]
  change (do
    let projected ← ((propertyOrder macs).map fun m : JsString × Value => (m.1,readBack m.2)).mapM projectMac
    let hash ← requireByteArray (ofJson (.array trees)) "sync-version hash"
    return some (legacyState (.number (.ofLiteral x.text)) hash projected)) = _
  rw [hmacs,requireByteArray_ofJson hhash]

/-- Bytes of a MAC. -/
def macBytes (mac : Value) : Bytes :=
  match requireByteArray mac "" with
  | .ok data => data
  | .error _ => []

/-- A value is an array of bytes. -/
def IsBytes (value : Value) : Prop := ∃ data, ∀ label, requireByteArray value label = .ok data

theorem isBytes_iff (value : Value) (label : String) : IsBytes value ↔ ∃ data, requireByteArray value label = .ok data := by
  constructor
  · rintro ⟨data,hdata⟩
    exact ⟨data,hdata label⟩
  · rintro ⟨data,hdata⟩
    refine ⟨data,fun other => ?_⟩
    cases value with
    | array items =>
      rw [requireByteArray_array] at hdata ⊢
      cases hitems : items.mapM itemByte with
      | none =>
        rw [hitems] at hdata
        cases hdata
      | some found =>
        rw [hitems] at hdata
        exact hdata
    | _ => cases hdata

theorem IsBytes.require (h : IsBytes value) (label : String) : requireByteArray value label = .ok (macBytes value) := by
  obtain ⟨data,hdata⟩ := h
  rw [macBytes,hdata,hdata]

theorem isBytes_items (items : List Value) : IsBytes (.array items) ↔ ∃ data, items.mapM itemByte = some data := by
  rw [isBytes_iff _ "",requireByteArray_array]
  cases items.mapM itemByte with
  | none =>
    constructor
    · rintro ⟨data,hdata⟩
      cases hdata
    · rintro ⟨data,hdata⟩
      cases hdata
  | some data => exact ⟨fun _ => ⟨data,rfl⟩,fun _ => ⟨data,rfl⟩⟩

/-- An array of bytes is written as their literals. -/
theorem IsBytes.toJson (harray : IsArray value) (h : IsBytes value) :
    toJson value = .ok (some (.array ((macBytes value).map byteLiteral))) := by
  obtain ⟨items,rfl⟩ := harray
  obtain ⟨data,hdata⟩ := (isBytes_items items).mp h
  have hbytes : macBytes (.array items) = data := by
    rw [macBytes,requireByteArray_array,hdata]
  rw [LegacyProjection.toJson,toJsonItems_bytes hdata,hbytes]
  rfl

/-- The projected MAC of a name. -/
def projectedMac (m : JsString × Value) : JsString × Value := (m.1,.object [(ofString "valueMac",.bytes (macBytes m.2))])

/-- The MAC of a name that is converted again. -/
def copiedMac (m : JsString × Value) : JsString × Value := (m.1,.array (byteNumbers (macBytes m.2)))

theorem projectMac_bytes {m : JsString × Value} (h : IsBytes m.2) : projectMac m = .ok (projectedMac m) := by
  unfold projectMac
  rw [h.require]
  rfl

theorem convertMac_projected (m : JsString × Value) : convertMac (projectedMac m) = .ok (copiedMac m) := rfl

/-- A number has the text it had before it was written. -/
theorem text_readBack {x : JsNumber} (h : x.isFinite = true) :
    (JsNumber.ofLiteral x.text).isFinite = true ∧ (JsNumber.ofLiteral x.text).text = x.text := by
  by_cases hzero : x = .negativeZero
  · rw [hzero]
    exact ⟨by decide,rfl⟩
  · rw [JsNumber.ofLiteral_text h hzero]
    exact ⟨h,rfl⟩

/-- A record of bytes is written as it was. -/
theorem toJson_copied {x y : JsNumber} (hx : x.isFinite = true) (hy : y.isFinite = true) (htext : y.text = x.text)
    {data : Bytes} (hitems : items.mapM itemByte = some data) (harrays : ∀ m ∈ macs, IsArray m.2)
    (hbytes : ∀ m ∈ macs, IsBytes m.2) (hproto : ∀ m ∈ macs, m.1 ≠ ofString "__proto__") :
    toJson (nativeState (.number y) (byteNumbers data) (macs.map copiedMac)) =
      toJson (nativeState (.number x) items macs) := by
  have hnames : ∀ m ∈ macs.map copiedMac, m.1 ≠ ofString "__proto__" := by
    intro m hm
    obtain ⟨found,hfound,rfl⟩ := List.mem_map.mp hm
    exact hproto found hfound
  have hmembers : toJsonMembers ((propertyOrder macs).map copiedMac) = toJsonMembers (propertyOrder macs) := by
    have hcongr := @toJsonMembers_congr copiedMac id (propertyOrder macs) (fun _ _ => rfl) fun m hm => by
      have hmem := (perm_propertyOrder macs).mem_iff.mp hm
      have hcopied : toJson (copiedMac m).2 = .ok (some (.array ((macBytes m.2).map byteLiteral))) := by
        rw [copiedMac,toJson,toJsonItems_bytes (mapM_byteNumbers _)]
        rfl
      rw [hcopied]
      exact ((hbytes m hmem).toJson (harrays m hmem)).symm
    rwa [List.map_id] at hcongr
  have hnumber : toJson (.number y) = toJson (.number x) := by
    rw [toJson,toJson,if_pos hx,if_pos hy,htext]
  have hhash : toJson (.array (byteNumbers data)) = toJson (.array items) := by
    rw [toJson,toJson,toJsonItems_bytes hitems,toJsonItems_bytes (mapM_byteNumbers data)]
  have hmap : toJson (assigned (macs.map copiedMac)) = toJson (assigned macs) := by
    rw [assigned_eq hnames,assigned_eq hproto,propertyOrder_map copiedMac fun _ => rfl,toJson,toJson,hmembers]
  unfold nativeState
  rw [toJson,toJson,toJsonMembers,toJsonMembers,toJsonMembers,toJsonMembers,toJsonMembers,toJsonMembers,
    toJsonMembers,toJsonMembers,hnumber,hhash,hmap]

/-- The MACs of a state, sorted and under their own names. -/
theorem Made.names (h : Made le value map version hash items macs bytes) :
    (macs.map Prod.fst).Perm ((objectEntries (orElse map (.object []))).map Prod.fst) ∧ ∀ m ∈ macs, IsArray m.2 := by
  obtain ⟨hnames,harrays⟩ := forall_converted h.converted
  rw [hnames]
  exact ⟨(List.perm_insertionSort _ _).map Prod.fst,harrays⟩

theorem Made.sorted (h : Made le value map version hash items macs bytes) (hle : Ordered le) :
    macs.Pairwise fun first second => le first.1 second.1 = true := by
  have htotal : Std.Total fun first second : JsString × Value => le first.1 second.1 = true :=
    ⟨fun first second => hle.total first.1 second.1⟩
  have htrans : IsTrans (JsString × Value) fun first second => le first.1 second.1 = true :=
    ⟨fun first second third => hle.chain first.1 second.1 third.1⟩
  have hentries := List.pairwise_insertionSort (fun first second : JsString × Value => le first.1 second.1 = true)
    (objectEntries (orElse map (.object [])))
  have hnames := (forall_converted h.converted).1
  have hpairs : (macs.map Prod.fst).Pairwise fun first second => le first second = true := by
    rw [hnames]
    exact List.pairwise_map.mpr hentries
  exact List.pairwise_map.mp hpairs

/-- A state whose hash and MACs were bytes is converted again to the same record. -/
theorem Made.again (h : Made le value map version hash items macs bytes) (hle : Ordered le) {x : JsNumber}
    (hversion : orElse version (.number .zero) = .number x) (hfinite : x.isFinite = true)
    (hseparate : Separate le (macs.map Prod.fst)) (hproto : ∀ m ∈ macs, m.1 ≠ ofString "__proto__") {data : Bytes}
    (hitems : items.mapM itemByte = some data) (hbytes : ∀ m ∈ macs, IsBytes m.2) :
    SyncVersion.fromLegacy le (legacyState (.number (.ofLiteral x.text)) data ((propertyOrder macs).map projectedMac)) =
      .ok (some bytes) := by
  have harrays := h.names.2
  have hordered : ∀ m ∈ (propertyOrder macs).map projectedMac, m.1 ≠ ofString "__proto__" := by
    intro m hm
    obtain ⟨found,hfound,rfl⟩ := List.mem_map.mp hm
    exact hproto found ((perm_propertyOrder macs).mem_iff.mp hfound)
  have hentries : assigned ((propertyOrder macs).map projectedMac) = .object ((propertyOrder macs).map projectedMac) := by
    rw [assigned_eq hordered,propertyOrder_map projectedMac fun _ => rfl,propertyOrder_idem]
  have hsort : ((propertyOrder macs).map projectedMac).insertionSort (fun first second => le first.1 second.1 = true) =
      macs.map projectedMac := by
    have hmoved := List.map_insertionSort (fun first second : JsString × Value => le first.1 second.1 = true)
      (fun first second : JsString × Value => le first.1 second.1 = true) projectedMac (propertyOrder macs)
      fun _ _ _ _ => Iff.rfl
    rw [← hmoved,insertionSort_perm hle (perm_propertyOrder macs) hseparate (h.sorted hle)]
  have hconverted : (macs.map projectedMac).mapM convertMac = .ok (macs.map copiedMac) := by
    rw [List.mapM_map]
    exact mapM_of_forall fun m _ => convertMac_projected m
  obtain ⟨hback,htext⟩ := text_readBack hfinite
  have hwritten := h.written
  rw [hversion,toJsonBytes,← toJson_copied hfinite hback htext hitems harrays hbytes hproto] at hwritten
  have hmade : Made le (legacyState (.number (.ofLiteral x.text)) data ((propertyOrder macs).map projectedMac))
      (.object ((propertyOrder macs).map projectedMac)) (.number (.ofLiteral x.text)) (.bytes data) (byteNumbers data)
      (macs.map copiedMac) bytes := by
    refine ⟨rfl,?_,rfl,rfl,rfl,?_,hwritten⟩
    · rw [← hentries]
      rfl
    · change (((propertyOrder macs).map projectedMac).insertionSort fun first second =>
        le first.1 second.1 = true).mapM convertMac = _
      rw [hsort,hconverted]
  exact hmade.fromLegacy

/-- A state is converted again to the same record just if its hash and its MACs were bytes. -/
theorem Made.round (h : Made le value map version hash items macs bytes) (hle : Ordered le) {x : JsNumber}
    (hversion : orElse version (.number .zero) = .number x) (hfinite : x.isFinite = true)
    (hseparate : Separate le (macs.map Prod.fst)) (hproto : ∀ m ∈ macs, m.1 ≠ ofString "__proto__")
    (hlegible : ∀ tree, toJson (nativeState (.number x) items macs) = .ok (some tree) → Legible tree) :
    (∃ projected, toLegacy bytes = .ok (some projected) ∧ SyncVersion.fromLegacy le projected = .ok (some bytes)) ↔
      IsBytes (.array items) ∧ ∀ m ∈ macs, IsBytes m.2 := by
  have harrays := h.names.2
  have hwritten := h.written
  rw [hversion] at hwritten
  have hprojection := toLegacy_written hfinite hproto harrays hlegible hwritten
  constructor
  · rintro ⟨projected,hprojected,_⟩
    rw [hprojection] at hprojected
    obtain ⟨found,hfound,hprojected⟩ := bind_ok hprojected
    obtain ⟨data,hdata,_⟩ := bind_ok hprojected
    refine ⟨(isBytes_iff _ _).mpr ⟨data,hdata⟩,fun m hm => ?_⟩
    by_contra hnot
    refine mapM_ne_ok ((perm_propertyOrder macs).mem_iff.mpr hm) (fun result hresult => hnot ?_) found hfound
    obtain ⟨mac,hmac,_⟩ := bind_ok hresult
    exact (isBytes_iff _ _).mpr ⟨mac,hmac⟩
  · rintro ⟨hhash,hbytes⟩
    obtain ⟨data,hitems⟩ := (isBytes_items items).mp hhash
    refine ⟨_,?_,h.again hle hversion hfinite hseparate hproto hitems hbytes⟩
    have hmacs : (propertyOrder macs).mapM projectMac = .ok ((propertyOrder macs).map projectedMac) :=
      mapM_of_forall fun m hm => projectMac_bytes (hbytes m ((perm_propertyOrder macs).mem_iff.mp hm))
    rw [hprojection,hmacs]
    dsimp only [bind,Except.bind]
    rw [requireByteArray_array,hitems]
    rfl

/-- The record of a state whose objects name each property once does so too. -/
theorem Made.distinct (h : Made le value map version hash items macs bytes) (hvalue : Distinct value) {x : JsNumber}
    (hnodup : (macs.map Prod.fst).Nodup) (hproto : ∀ m ∈ macs, m.1 ≠ ofString "__proto__") :
    Distinct (nativeState (.number x) items macs) := by
  have hitems : ∀ item ∈ items, Distinct item := by
    have hcopied := h.copied
    unfold hashItems at hcopied
    split at hcopied
    · exact (hvalue.member h.hashMember).items hcopied
    · cases hcopied
      intro item hitem
      rw [List.eq_of_mem_replicate hitem]
      exact .number _
  have hmap : Distinct (orElse map (.object [])) := by
    unfold orElse
    split
    · exact .object [] (fun _ hm => nomatch hm) List.nodup_nil
    · exact hvalue.member h.mapMember
  have hmacs : ∀ m ∈ macs, Distinct m.2 := by
    intro m hm
    obtain ⟨entry,hentry,hconverted⟩ := mapM_mem h.converted hm
    have hlisted := hmap.entries entry ((List.mem_insertionSort _).mp hentry)
    unfold convertMac at hconverted
    obtain ⟨mac,hmac,hconverted⟩ := bind_ok hconverted
    obtain ⟨numbers,hnumbers,hconverted⟩ := bind_ok hconverted
    cases hconverted
    exact .array _ ((hlisted.member hmac).items hnumbers)
  have hassigned : Distinct (assigned macs) := by
    rw [assigned_eq hproto]
    refine .object _ (fun m hm => hmacs m ((perm_propertyOrder macs).mem_iff.mp hm)) ?_
    exact ((perm_propertyOrder macs).map Prod.fst).nodup_iff.mpr hnodup
  have hnames : [ofString "version",ofString "hash",ofString "index_value_map"].Nodup := by decide
  refine .object _ (fun m hm => ?_) hnames
  rcases List.mem_cons.mp hm with rfl | hm
  · exact .number x
  · rcases List.mem_cons.mp hm with rfl | hm
    · exact .array _ hitems
    · rw [List.mem_singleton.mp hm]
      exact hassigned

end SyncVersion

end Baileyrs.LegacyProjection
