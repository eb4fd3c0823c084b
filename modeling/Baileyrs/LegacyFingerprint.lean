import Baileyrs.LegacyMirror

/-!
# What a fingerprint tells apart

A fingerprint is taken from a live value and compared with that of the value a
persistent store gives back. Canonical forms of two values agree exactly when
the values are the same after they were written and read back, where members
have no order, absent members are gone and absent items are null.
-/

namespace Baileyrs.LegacyFingerprint

open JsString AtomicStore LegacyValues LegacyMirror
open InsertionMap (find find_eq_some_iff)

/-- Members of an object under a name. -/
abbrev Members := List (JsString × Value)

/-- Names that tag a value in its canonical form. -/
def canonicalTags : List JsString :=
  ["$bigint","$bytes","$date","$number","$unsupported"].map ofString

/-- A value whose text tells all of it: no number without a text of its own, no
member named like a tag or the prototype, and no object that is read as bytes. -/
inductive Persistable : Value → Prop
  | undefined : Persistable .undefined
  | null : Persistable .null
  | bool (b : Bool) : Persistable (.bool b)
  | number (x : JsNumber) (hfinite : x.isFinite = true) (hzero : x ≠ .negativeZero) :
    Persistable (.number x)
  | string (text : JsString) : Persistable (.string text)
  | bytes (data : Bytes) : Persistable (.bytes data)
  | array (items : List Value) (hitems : ∀ item ∈ items, Persistable item) :
    Persistable (.array items)
  | object (members : Members) (hmembers : ∀ m ∈ members, Persistable m.2)
    (hnodup : (members.map Prod.fst).Nodup) (hproto : ofString "__proto__" ∉ members.map Prod.fst)
    (htags : ∀ tag ∈ canonicalTags, tag ∉ members.map Prod.fst)
    (hwritten : looksWritten members = false) : Persistable (.object members)

mutual

/-- Deep equality of values that were read back; members have no order. -/
def Same : Value → Value → Prop
  | .null,.null => True
  | .bool a,.bool b => a = b
  | .number x,.number y => x = y
  | .string a,.string b => a = b
  | .bytes a,.bytes b => a = b
  | .array items,.array others => SameItems items others
  | .object members,.object others => members.length = others.length ∧ SameMembers members others
  | _,_ => False

/-- Items are the same one by one. -/
def SameItems : List Value → List Value → Prop
  | [],[] => True
  | item::items,other::others => Same item other ∧ SameItems items others
  | _,_ => False

/-- Every member has one of its name that is the same. -/
def SameMembers : Members → Members → Prop
  | [],_ => True
  | (name,value)::members,others =>
    (∃ other, find others name = some other ∧ Same value other) ∧ SameMembers members others

end

/-- What a value is after it was written and read back; none when it has no text. -/
def reload (byteOf : Value → Option UInt8) (value : Value) : Except StoreError (Option Value) := do
  let written ← stringify byteOf value
  match written with
  | some tree => do
    let read ← revive byteOf tree
    return some read
  | none => return none

/-- Two values are the same after they were written and read back. -/
def SameReload (byteOf : Value → Option UInt8) (first second : Value) : Prop :=
  ∃ read other, reload byteOf first = .ok read ∧ reload byteOf second = .ok other ∧
    Option.Rel Same read other

mutual

/-- What is left of a value in its text. -/
def settled : Value → Option Value
  | .undefined => none
  | .array items => some (.array (settledItems items))
  | .object members => some (.object (settledMembers members))
  | value => some value

/-- Items that are left; an absent one is null. -/
def settledItems : List Value → List Value
  | [] => []
  | item::items => (settled item).getD .null::settledItems items

/-- Members that are left. -/
def settledMembers : Members → Members
  | [] => []
  | (name,value)::members =>
    match settled value with
    | some left => (name,left)::settledMembers members
    | none => settledMembers members

end

/-- A value that was read back. -/
inductive Settled : Value → Prop
  | null : Settled .null
  | bool (b : Bool) : Settled (.bool b)
  | number (x : JsNumber) (hfinite : x.isFinite = true) (hzero : x ≠ .negativeZero) :
    Settled (.number x)
  | string (text : JsString) : Settled (.string text)
  | bytes (data : Bytes) : Settled (.bytes data)
  | array (items : List Value) (hitems : ∀ item ∈ items, Settled item) : Settled (.array items)
  | object (members : Members) (hmembers : ∀ m ∈ members, Settled m.2)
    (hnodup : (members.map Prod.fst).Nodup) (hproto : ofString "__proto__" ∉ members.map Prod.fst)
    (htags : ∀ tag ∈ canonicalTags, tag ∉ members.map Prod.fst) : Settled (.object members)

theorem settledMembers_sublist (members : Members) :
    ((settledMembers members).map Prod.fst).Sublist (members.map Prod.fst) := by
  induction members with
  | nil => exact List.Sublist.refl _
  | cons m rest ih =>
    obtain ⟨name,value⟩ := m
    unfold settledMembers
    cases settled value with
    | none => exact ih.cons _
    | some left => exact ih.cons_cons _

theorem mem_settledItems {items : List Value} {left : Value} (h : left ∈ settledItems items) :
    left = .null ∨ ∃ item ∈ items, settled item = some left := by
  induction items with
  | nil => cases h
  | cons item rest ih =>
    rcases List.mem_cons.mp h with hhead | htail
    · cases hitem : settled item with
      | none =>
        rw [hitem] at hhead
        exact .inl hhead
      | some first =>
        rw [hitem] at hhead
        exact .inr ⟨item,List.mem_cons_self,hitem.trans (congrArg some hhead.symm)⟩
    · rcases ih htail with hnull | ⟨other,hother,hleft⟩
      · exact .inl hnull
      · exact .inr ⟨other,List.mem_cons_of_mem _ hother,hleft⟩

theorem mem_settledMembers {members : Members} {name : JsString} {left : Value}
    (h : (name,left) ∈ settledMembers members) : ∃ value, (name,value) ∈ members ∧ settled value = some left := by
  induction members with
  | nil => cases h
  | cons m rest ih =>
    obtain ⟨other,value⟩ := m
    unfold settledMembers at h
    cases hvalue : settled value with
    | none =>
      rw [hvalue] at h
      obtain ⟨found,hfound,hleft⟩ := ih h
      exact ⟨found,List.mem_cons_of_mem _ hfound,hleft⟩
    | some first =>
      rw [hvalue] at h
      rcases List.mem_cons.mp h with hhead | htail
      · cases hhead
        exact ⟨value,List.mem_cons_self,hvalue⟩
      · obtain ⟨found,hfound,hleft⟩ := ih htail
        exact ⟨found,List.mem_cons_of_mem _ hfound,hleft⟩

/-- What is left of a persistable value was read back. -/
theorem settled_persistable {value left : Value} (h : Persistable value)
    (hleft : settled value = some left) : Settled left := by
  induction h generalizing left with
  | undefined => cases hleft
  | null =>
    cases hleft
    exact .null
  | bool b =>
    cases hleft
    exact .bool b
  | number x hfinite hzero =>
    cases hleft
    exact .number x hfinite hzero
  | string text =>
    cases hleft
    exact .string text
  | bytes data =>
    cases hleft
    exact .bytes data
  | array items _ ih =>
    cases hleft
    refine .array _ ?_
    intro first hfirst
    rcases mem_settledItems hfirst with rfl | ⟨item,hitem,hsettled⟩
    · exact .null
    · exact ih item hitem hsettled
  | object members _ hnodup hproto htags _ ih =>
    cases hleft
    have hsub := settledMembers_sublist members
    refine .object _ ?_ (hnodup.sublist hsub) (fun h => hproto (hsub.subset h))
      fun tag htag h => htags tag htag (hsub.subset h)
    rintro ⟨name,first⟩ hfirst
    obtain ⟨value,hvalue,hsettled⟩ := mem_settledMembers hfirst
    exact ih (name,value) hvalue hsettled

theorem canonicalItems_settled {items : List Value}
    (h : ∀ item ∈ items, canonicalize item = (settled item).bind canonicalize) :
    canonicalItems items = canonicalItems (settledItems items) := by
  induction items with
  | nil => rfl
  | cons item rest ih =>
    have hhead := h item List.mem_cons_self
    have htail := ih fun other hother => h other (List.mem_cons_of_mem _ hother)
    rw [settledItems,canonicalItems,canonicalItems,htail,hhead]
    cases settled item with
    | none => rfl
    | some left => rfl

theorem canonicalMembers_settled {members : Members}
    (h : ∀ m ∈ members, canonicalize m.2 = (settled m.2).bind canonicalize) :
    canonicalMembers members = canonicalMembers (settledMembers members) := by
  induction members with
  | nil => rfl
  | cons m rest ih =>
    obtain ⟨name,value⟩ := m
    have hhead : canonicalize value = (settled value).bind canonicalize :=
      h (name,value) List.mem_cons_self
    have htail := ih fun other hother => h other (List.mem_cons_of_mem _ hother)
    rw [canonicalMembers,settledMembers,hhead,htail]
    cases settled value with
    | none => rfl
    | some left => rw [Option.bind_some,canonicalMembers]

/-- The canonical form is that of what is left. -/
theorem canonicalize_settled {value : Value} (h : Persistable value) :
    canonicalize value = (settled value).bind canonicalize := by
  induction h with
  | array items _ ih =>
    change some (Value.array (canonicalItems items)) = some (.array _)
    rw [canonicalItems_settled ih]
  | object members _ _ _ _ _ ih =>
    change some (Value.object (sortMembers (canonicalMembers members))) = some (.object _)
    rw [canonicalMembers_settled ih]
  | _ => rfl

/-- A member that is left has the value left of its own. -/
theorem find_settledMembers {members : Members} (hnodup : (members.map Prod.fst).Nodup)
    (name : JsString) : find (settledMembers members) name = (find members name).bind settled := by
  induction members with
  | nil => rfl
  | cons m rest ih =>
    obtain ⟨other,value⟩ := m
    rw [List.map_cons,List.nodup_cons] at hnodup
    have hrest := ih hnodup.2
    by_cases hname : other = name
    · subst hname
      have habsent : find (settledMembers rest) other = none := by
        rw [hrest,InsertionMap.find_eq_none_iff.mpr hnodup.1]
        rfl
      unfold settledMembers
      cases hvalue : settled value with
      | none => simp [find,habsent,hvalue]
      | some left => simp [find,hvalue]
    · unfold settledMembers
      cases hvalue : settled value with
      | none => simp [find,hname,hrest]
      | some left => simp [find,hname,hrest]

/-- A text is what is left of a text only. -/
theorem settled_string {value : Value} {text : JsString} (h : settled value = some (.string text)) :
    value = .string text := by
  cases value <;> simp [settled] at h
  rw [h]

theorem settled_bool {value : Value} {b : Bool} (h : settled value = some (.bool b)) : value = .bool b := by
  cases value <;> simp [settled] at h
  rw [h]

/-- An object that is not read as bytes is not after members were dropped. -/
theorem looksWritten_settled {members : Members} (hnodup : (members.map Prod.fst).Nodup)
    (h : looksWritten members = false) : looksWritten (settledMembers members) = false := by
  obtain ⟨htype,hbuffer⟩ := Bool.or_eq_false_iff.mp h
  refine Bool.or_eq_false_iff.mpr ⟨?_,?_⟩
  · unfold hasText property at htype ⊢
    rw [find_settledMembers hnodup]
    cases hfound : (find members (ofString "type")).bind settled with
    | none => rfl
    | some left =>
      obtain ⟨value,hvalue,hleft⟩ := Option.bind_eq_some_iff.mp hfound
      cases left with
      | string text =>
        rw [hvalue,settled_string hleft] at htype
        exact htype
      | _ => rfl
  · unfold property at hbuffer ⊢
    rw [find_settledMembers hnodup]
    cases hfound : (find members (ofString "buffer")).bind settled with
    | none => rfl
    | some left =>
      obtain ⟨value,hvalue,hleft⟩ := Option.bind_eq_some_iff.mp hfound
      cases left with
      | bool b =>
        rw [hvalue,settled_bool hleft] at hbuffer
        exact hbuffer
      | _ => rfl

section Reload

variable (byteOf : Value → Option UInt8)

/-- Reading the text of a value gives what is left of it. -/
def Reloads (value : Value) : Prop :=
  settled value = none ∧ stringify byteOf value = .ok none ∨
    ∃ left written, settled value = some left ∧ stringify byteOf value = .ok (some written) ∧
      revive byteOf written = .ok left

theorem reloads_items {items : List Value} (h : ∀ item ∈ items, Reloads byteOf item) :
    ∃ written, stringifyItems byteOf items = .ok written ∧ reviveItems byteOf written = .ok (settledItems items) := by
  induction items with
  | nil => exact ⟨[],rfl,rfl⟩
  | cons item rest ih =>
    obtain ⟨others,hothers,hreadOthers⟩ := ih fun other hother =>
      h other (List.mem_cons_of_mem _ hother)
    have hhead : ∃ first, stringify byteOf item = .ok first ∧
        revive byteOf (first.getD .null) = .ok ((settled item).getD .null) := by
      rcases h item List.mem_cons_self with ⟨hsettled,hwrite⟩ | ⟨left,written,hsettled,hwrite,hread⟩
      · rw [hsettled]
        exact ⟨none,hwrite,rfl⟩
      · rw [hsettled]
        exact ⟨some written,hwrite,hread⟩
    obtain ⟨first,hfirst,hreadFirst⟩ := hhead
    have hwrite : stringifyItems byteOf (item::rest) = .ok (first.getD .null::others) := by
      rw [stringifyItems,hfirst,hothers]
      rfl
    have hread : reviveItems byteOf (first.getD .null::others) =
        .ok (settledItems (item::rest)) := by
      rw [reviveItems,hreadFirst,hreadOthers]
      rfl
    exact ⟨_,hwrite,hread⟩

theorem reloads_members {members : Members} (h : ∀ m ∈ members, Reloads byteOf m.2) :
    ∃ written, stringifyMembers byteOf members = .ok written ∧
      reviveMembers byteOf written = .ok (settledMembers members) := by
  induction members with
  | nil => exact ⟨[],rfl,rfl⟩
  | cons m rest ih =>
    obtain ⟨name,value⟩ := m
    obtain ⟨others,hothers,hreadOthers⟩ := ih fun other hother =>
      h other (List.mem_cons_of_mem _ hother)
    rcases h (name,value) List.mem_cons_self with
      ⟨hsettled,hwrite⟩ | ⟨left,written,hsettled,hwrite,hread⟩
    · have hmembers : stringifyMembers byteOf ((name,value)::rest) = .ok others := by
        rw [stringifyMembers,hwrite,hothers]
        rfl
      have hback : settledMembers ((name,value)::rest) = settledMembers rest := by
        rw [settledMembers,hsettled]
      rw [hback]
      exact ⟨others,hmembers,hreadOthers⟩
    · have hmembers : stringifyMembers byteOf ((name,value)::rest) =
          .ok ((name,written)::others) := by
        rw [stringifyMembers,hwrite,hothers]
        rfl
      have hback : settledMembers ((name,value)::rest) = (name,left)::settledMembers rest := by
        rw [settledMembers,hsettled]
      have hrevive : reviveMembers byteOf ((name,written)::others) =
          .ok ((name,left)::settledMembers rest) := by
        rw [reviveMembers,hread,hreadOthers]
        rfl
      rw [hback]
      exact ⟨_,hmembers,hrevive⟩

/-- A persistable value is read back as what is left of it. -/
theorem Persistable.reloads {value : Value} (h : Persistable value) : Reloads byteOf value := by
  induction h with
  | undefined => exact .inl ⟨rfl,rfl⟩
  | null => exact .inr ⟨.null,.null,rfl,rfl,rfl⟩
  | bool b => exact .inr ⟨.bool b,.bool b,rfl,rfl,rfl⟩
  | number x hfinite hzero =>
    have hwrite : stringify byteOf (.number x) = .ok (some (.number x)) := by
      rw [stringify,if_pos hfinite,if_neg hzero]
    exact .inr ⟨.number x,.number x,rfl,hwrite,rfl⟩
  | string text => exact .inr ⟨.string text,.string text,rfl,rfl,rfl⟩
  | bytes data =>
    obtain ⟨written,hwrite,hread⟩ := carried_bytes byteOf data
    exact .inr ⟨.bytes data,written,rfl,hwrite,hread⟩
  | array items _ ih =>
    obtain ⟨written,hwrite,hread⟩ := reloads_items byteOf ih
    have hwhole : stringify byteOf (.array items) = .ok (some (.array written)) := by
      rw [stringify,hwrite]
      rfl
    have hback : revive byteOf (.array written) = .ok (.array (settledItems items)) := by
      rw [revive,hread]
      rfl
    exact .inr ⟨_,_,rfl,hwhole,hback⟩
  | object members _ hnodup _ _ hwritten ih =>
    obtain ⟨written,hwrite,hread⟩ := reloads_members byteOf ih
    have hwhole : stringify byteOf (.object members) = .ok (some (.object written)) := by
      rw [stringify,bufferData_eq_none byteOf hwritten,hwrite]
      rfl
    have hback : revive byteOf (.object written) = .ok (.object (settledMembers members)) := by
      rw [revive,hread]
      change (if looksWritten (settledMembers members) then _ else _) = _
      rw [looksWritten_settled hnodup hwritten]
      rfl
    exact .inr ⟨_,_,rfl,hwhole,hback⟩

theorem reload_persistable {value : Value} (h : Persistable value) : reload byteOf value = .ok (settled value) := by
  rcases h.reloads byteOf with ⟨hsettled,hwrite⟩ | ⟨left,written,hsettled,hwrite,hread⟩
  · rw [reload,hwrite,hsettled]
    rfl
  · rw [reload,hwrite,hsettled]
    change (do
      let read ← revive byteOf written
      return some read) = _
    rw [hread]
    rfl

end Reload

/-- A value that was read back has a canonical form. -/
theorem Settled.canonicalize_eq {value : Value} (h : Settled value) :
    canonicalize value = some ((canonicalize value).getD .null) := by
  cases h <;> rfl

theorem canonicalItems_eq (items : List Value) :
    canonicalItems items = items.map fun item => (canonicalize item).getD .null := by
  induction items with
  | nil => rfl
  | cons item rest ih => rw [canonicalItems,ih,List.map_cons]

/-- Members that were read back all stay in the canonical form. -/
theorem canonicalMembers_eq {members : Members} (h : ∀ m ∈ members, Settled m.2)
    (hproto : ofString "__proto__" ∉ members.map Prod.fst) :
    canonicalMembers members =
      members.map fun m => (m.1,(canonicalize m.2).getD .null) := by
  induction members with
  | nil => rfl
  | cons m rest ih =>
    obtain ⟨name,value⟩ := m
    rw [List.map_cons,List.mem_cons,not_or] at hproto
    have hvalue := (h (name,value) List.mem_cons_self).canonicalize_eq
    have hrest := ih (fun other hother => h other (List.mem_cons_of_mem _ hother)) hproto.2
    have hname : name ≠ ofString "__proto__" := fun heq => hproto.1 heq.symm
    rw [canonicalMembers,hvalue,hrest]
    dsimp only
    rw [if_neg hname]
    rfl

/-- Sorting forgets the order of members and nothing else. -/
theorem sortMembers_eq_iff {members others : Members} (hnodup : (members.map Prod.fst).Nodup) :
    sortMembers members = sortMembers others ↔ members.Perm others := by
  have htotal : Std.Total fun first second : JsString × Value => ¬second.1 < first.1 :=
    ⟨fun first second => List.le_total first.1 second.1⟩
  have htrans : IsTrans (JsString × Value) fun first second => ¬second.1 < first.1 :=
    ⟨fun _ _ _ hfirst hsecond => List.le_trans hfirst hsecond⟩
  have hperm : ∀ list : Members, (sortMembers list).Perm list :=
    fun list => List.perm_insertionSort _ list
  constructor
  · intro heq
    exact (hperm members).symm.trans (heq ▸ hperm others)
  · intro h
    have hsame : (sortMembers members).Perm (sortMembers others) :=
      (hperm members).trans (h.trans (hperm others).symm)
    refine hsame.eq_of_pairwise ?_ (List.pairwise_insertionSort _ members)
      (List.pairwise_insertionSort _ others)
    intro first second hfirst hsecond hle hge
    have hname : first.1 = second.1 := List.le_antisymm hle hge
    have hmem : second ∈ members := h.symm.subset ((hperm others).subset hsecond)
    have hfound := (find_eq_some_iff hnodup).mpr ((hperm members).subset hfirst)
    have hother := (find_eq_some_iff hnodup).mpr hmem
    rw [hname,hother] at hfound
    exact Prod.ext hname (Option.some.inj hfound).symm

/-- Members with each name once are permuted exactly when each is found among the others. -/
theorem perm_iff_find {members others : Members} (hnodup : (members.map Prod.fst).Nodup)
    (hothers : (others.map Prod.fst).Nodup) : members.Perm others ↔
      members.length = others.length ∧ ∀ m ∈ members, find others m.1 = some m.2 := by
  constructor
  · intro h
    exact ⟨h.length_eq,fun m hm => (find_eq_some_iff hothers).mpr (h.subset hm)⟩
  · rintro ⟨hlength,hfound⟩
    have hsubset : members ⊆ others := fun m hm => (find_eq_some_iff hothers).mp (hfound m hm)
    have hsubperm := List.subperm_of_subset (List.Nodup.of_map _ hnodup) hsubset
    exact hsubperm.perm_of_length_le (by omega)

theorem find_map {members : Members} (f : Value → Value) (name : JsString) :
    find (members.map fun m => (m.1,f m.2)) name = (find members name).map f := by
  induction members with
  | nil => rfl
  | cons m rest ih =>
    by_cases hname : m.1 = name
    · simp [find,hname]
    · simp [find,hname,ih]

/-- Items of two arrays have one canonical form exactly when they are the same. -/
theorem canonicalItems_eq_iff {items others : List Value} (h : ∀ item ∈ items, ∀ other ∈ others,
      ((canonicalize item).getD .null = (canonicalize other).getD .null ↔ Same item other)) :
    canonicalItems items = canonicalItems others ↔ SameItems items others := by
  induction items generalizing others with
  | nil =>
    cases others with
    | nil => simp [SameItems,canonicalItems]
    | cons other rest => simp [SameItems,canonicalItems]
  | cons item rest ih =>
    cases others with
    | nil => simp [SameItems,canonicalItems]
    | cons other others =>
      have hhead := h item List.mem_cons_self other List.mem_cons_self
      have htail := ih fun first hfirst second hsecond =>
        h first (List.mem_cons_of_mem _ hfirst) second (List.mem_cons_of_mem _ hsecond)
      rw [canonicalItems,canonicalItems,List.cons.injEq,SameItems,hhead,htail]

/-- Each member is found with the same canonical form exactly when it is the same. -/
theorem sameMembers_iff {members others : Members} (h : ∀ m ∈ members, ∀ other ∈ others,
      ((canonicalize m.2).getD .null = (canonicalize other.2).getD .null ↔ Same m.2 other.2))
    (hothers : (others.map Prod.fst).Nodup) : SameMembers members others ↔ ∀ m ∈ members,
      (find others m.1).map (fun value => (canonicalize value).getD .null) = some ((canonicalize m.2).getD .null) := by
  induction members with
  | nil => simp [SameMembers]
  | cons m rest ih =>
    obtain ⟨name,value⟩ := m
    have hrest := ih fun first hfirst => h first (List.mem_cons_of_mem _ hfirst)
    rw [SameMembers,hrest,List.forall_mem_cons]
    refine and_congr_left fun _ => ?_
    rw [Option.map_eq_some_iff]
    refine exists_congr fun other => and_congr_right fun hfound => ?_
    have hmem := (find_eq_some_iff hothers).mp hfound
    have hsame := h (name,value) List.mem_cons_self (name,other) hmem
    exact hsame.symm.trans eq_comm

/-- A number with a text of its own is its canonical form. -/
theorem canonicalNumber_finite {x : JsNumber} (hfinite : x.isFinite = true)
    (hzero : x ≠ .negativeZero) : canonicalNumber x = .number x := by
  have hnan : x.isNaN = false := by simp [JsNumber.isNaN,hfinite]
  have hinfinity : x ≠ .infinity := by
    rintro rfl
    revert hfinite
    decide
  have hnegative : x ≠ .negativeInfinity := by
    rintro rfl
    revert hfinite
    decide
  simp [canonicalNumber,hnan,hinfinity,hnegative,hzero]

/-- Written bytes are the bytes they were written from. -/
theorem encode_inj {data other : Bytes} : Base64.encode data = Base64.encode other ↔ data = other := by
  constructor
  · intro h
    have hdecoded := congrArg Base64.decode h
    rwa [Base64.decode_encode,Base64.decode_encode] at hdecoded
  · exact congrArg Base64.encode

/-- The canonical form of an object without tags is not that of bytes. -/
theorem sorted_ne_tagged {members : Members} (hmembers : ∀ m ∈ members, Settled m.2)
    (hproto : ofString "__proto__" ∉ members.map Prod.fst)
    (htags : ∀ tag ∈ canonicalTags, tag ∉ members.map Prod.fst) (text : JsString) :
    sortMembers (canonicalMembers members) ≠ [(ofString "$bytes",.string text)] := by
  intro h
  have hperm : (canonicalMembers members).Perm [(ofString "$bytes",.string text)] :=
    h ▸ (List.perm_insertionSort _ _).symm
  rw [canonicalMembers_eq hmembers hproto] at hperm
  have hmem := hperm.symm.subset List.mem_cons_self
  obtain ⟨m,hm,heq⟩ := List.mem_map.mp hmem
  have hname : m.1 = ofString "$bytes" := congrArg Prod.fst heq
  refine htags (ofString "$bytes") ?_ (hname ▸ List.mem_map_of_mem hm)
  simp [canonicalTags]

/-- Objects that were read back have one canonical form exactly when they are the same. -/
theorem sorted_eq_iff {members others : Members} (hmembers : ∀ m ∈ members, Settled m.2)
    (hproto : ofString "__proto__" ∉ members.map Prod.fst)
    (hnodup : (members.map Prod.fst).Nodup) (hothers : ∀ m ∈ others, Settled m.2)
    (hotherProto : ofString "__proto__" ∉ others.map Prod.fst)
    (hotherNodup : (others.map Prod.fst).Nodup)
    (h : ∀ m ∈ members, ∀ other ∈ others,
      ((canonicalize m.2).getD .null = (canonicalize other.2).getD .null ↔ Same m.2 other.2)) :
    sortMembers (canonicalMembers members) = sortMembers (canonicalMembers others) ↔
      members.length = others.length ∧ SameMembers members others := by
  have hnames : ∀ list : Members,
      (list.map fun m => (m.1,(canonicalize m.2).getD .null)).map Prod.fst = list.map Prod.fst := by
    intro list
    rw [List.map_map]
    rfl
  rw [canonicalMembers_eq hmembers hproto,canonicalMembers_eq hothers hotherProto,
    sortMembers_eq_iff (by rw [hnames]; exact hnodup),
    perm_iff_find (by rw [hnames]; exact hnodup) (by rw [hnames]; exact hotherNodup),
    List.length_map,List.length_map,sameMembers_iff h hotherNodup]
  refine and_congr_right fun _ => ?_
  rw [List.forall_mem_map]
  refine forall₂_congr fun m _ => ?_
  rw [find_map fun value => (canonicalize value).getD .null]

/-- Values that were read back have one canonical form exactly when they are the same. -/
theorem Settled.canonicalize_eq_iff {value other : Value} (h : Settled value) (hother : Settled other) :
    (canonicalize value).getD .null = (canonicalize other).getD .null ↔ Same value other := by
  induction h generalizing other with
  | null => cases hother <;> simp_all [canonicalize,Same,canonicalNumber_finite,tagged]
  | bool b => cases hother <;> simp_all [canonicalize,Same,canonicalNumber_finite,tagged]
  | number x hfinite hzero =>
    cases hother <;> simp_all [canonicalize,Same,canonicalNumber_finite,tagged]
  | string text => cases hother <;> simp_all [canonicalize,Same,canonicalNumber_finite,tagged]
  | bytes data =>
    cases hother with
    | bytes other => simp [canonicalize,Same,tagged,encode_inj]
    | object others hothers _ hproto htags =>
      have hne := (sorted_ne_tagged hothers hproto htags (Base64.encode data)).symm
      simp [canonicalize,Same,tagged,hne]
    | _ => simp_all [canonicalize,Same,canonicalNumber_finite,tagged]
  | array items _ ih =>
    cases hother with
    | array others hothers =>
      have hitems := canonicalItems_eq_iff fun item hitem other hmem =>
        ih item hitem (hothers other hmem)
      simpa [canonicalize,Same] using hitems
    | _ => simp_all [canonicalize,Same,canonicalNumber_finite,tagged]
  | object members hmembers hnodup hproto htags ih =>
    cases hother with
    | object others hothers hotherNodup hotherProto _ =>
      have hsorted := sorted_eq_iff hmembers hproto hnodup hothers hotherProto hotherNodup
        fun m hm other hmem => ih m hm (hothers other hmem)
      simpa [canonicalize,Same] using hsorted
    | bytes data =>
      have hne := sorted_ne_tagged hmembers hproto htags (Base64.encode data)
      simp [canonicalize,Same,tagged,hne]
    | _ => simp_all [canonicalize,Same,canonicalNumber_finite]

/-- Canonical forms of two values agree exactly when the values are the same after they were
written and read back. -/
theorem canonicalize_eq_iff_sameReload (byteOf : Value → Option UInt8) {first second : Value}
    (hfirst : Persistable first) (hsecond : Persistable second) :
    canonicalize first = canonicalize second ↔ SameReload byteOf first second := by
  have hreload : SameReload byteOf first second ↔
      Option.Rel Same (settled first) (settled second) := by
    unfold SameReload
    rw [reload_persistable byteOf hfirst,reload_persistable byteOf hsecond]
    constructor
    · rintro ⟨_,_,hread,hother,hsame⟩
      cases hread
      cases hother
      exact hsame
    · intro hsame
      exact ⟨_,_,rfl,rfl,hsame⟩
  rw [hreload,canonicalize_settled hfirst,canonicalize_settled hsecond]
  cases hleft : settled first with
  | none =>
    cases hright : settled second with
    | none => exact ⟨fun _ => .none,fun _ => rfl⟩
    | some right =>
      have hform := (settled_persistable hsecond hright).canonicalize_eq
      rw [Option.bind_none,Option.bind_some,hform]
      constructor <;> intro h <;> cases h
  | some left =>
    have hsettled := settled_persistable hfirst hleft
    rw [Option.bind_some,hsettled.canonicalize_eq]
    cases hright : settled second with
    | none => constructor <;> intro h <;> cases h
    | some right =>
      have hother := settled_persistable hsecond hright
      rw [Option.bind_some,hother.canonicalize_eq,Option.some.injEq,
        hsettled.canonicalize_eq_iff hother,Option.rel_some_some]

end Baileyrs.LegacyFingerprint
