import Baileyrs.Json
import Mathlib.Data.List.Basic

/-!
# Written JSON is read back

A value whose number literals end where the value does, and whose objects have
distinct names, is read back from its text exactly, whatever follows it there.
The text is well formed, so that it also survives its encoding.
-/

namespace Baileyrs.Json

open JsString

/-- A number is followed by the end of a value. -/
def Ends (tail : JsString) : Prop :=
  ∀ u, tail.head? = some u → u = unit ',' ∨ u = unit ']' ∨ u = closeBrace

/-- What ends a value continues no number. -/
theorem Ends.head {tail : JsString} (h : Ends tail) {u : UInt16} (hu : tail.head? = some u) :
    isDigit u = false ∧ u ≠ unit '.' ∧ u ≠ unit 'e' ∧ u ≠ unit 'E' := by
  rcases h u hu with rfl | rfl | rfl
  · decide
  · decide
  · decide

/-- A number literal: it starts like one, and is read up to the end of the value. -/
structure Literal (text : JsString) : Prop where
  /-- A sign or a digit comes first. -/
  head : ∃ u rest, text = u::rest ∧ (u = unit '-' ∨ isDigit u = true)
  /-- All of it is read. -/
  read : ∀ tail, Ends tail → readNumber (text++tail) = some (text,tail)
  /-- It is well formed. -/
  paired : Paired text

/-- Values that are read back from their text. -/
inductive Legible : Json → Prop where
  | null : Legible .null
  | bool (b : Bool) : Legible (.bool b)
  | number (literal : JsString) (h : Literal literal) : Legible (.number literal)
  | string (text : JsString) : Legible (.string text)
  | array (items : List Json) (h : ∀ item ∈ items, Legible item) : Legible (.array items)
  | object (members : List (JsString × Json)) (hnodup : (members.map Prod.fst).Nodup)
    (h : ∀ member ∈ members, Legible member.2) : Legible (.object members)

/-- Code units a value starts with. -/
def Starts (u : UInt16) : Prop :=
  u = unit 'n' ∨ u = unit 't' ∨ u = unit 'f' ∨ u = quotation ∨ u = unit '[' ∨ u = openBrace ∨
    u = unit '-' ∨ isDigit u = true

/-- What a value starts with. -/
theorem Legible.head {value : Json} (h : Legible value) : ∃ u rest, value.stringify = u::rest ∧ Starts u := by
  cases h with
  | null => exact ⟨unit 'n',_,rfl,.inl rfl⟩
  | bool b =>
    cases b with
    | true => exact ⟨unit 't',_,rfl,.inr (.inl rfl)⟩
    | false => exact ⟨unit 'f',_,rfl,.inr (.inr (.inl rfl))⟩
  | number literal h =>
    obtain ⟨u,rest,heq,hu⟩ := h.head
    exact ⟨u,rest,heq,.inr (.inr (.inr (.inr (.inr (.inr hu)))))⟩
  | string text => exact ⟨quotation,_,rfl,.inr (.inr (.inr (.inl rfl)))⟩
  | array items _ => exact ⟨unit '[',_,rfl,.inr (.inr (.inr (.inr (.inl rfl))))⟩
  | object members _ _ => exact ⟨openBrace,_,rfl,.inr (.inr (.inr (.inr (.inr (.inl rfl)))))⟩

theorem skipBlanks_head {u : UInt16} (h : u = quotation ∨ u = unit '[' ∨ u = unit ',' ∨ u = unit ']')
    (rest : JsString) : skipBlanks (u::rest) = u::rest := by
  have hblank : isBlank u = false := by
    rcases h with rfl | rfl | rfl | rfl <;> decide
  rw [skipBlanks,hblank]
  rfl

theorem readSeparator_comma (closing : UInt16) (tail : JsString) :
    readSeparator closing (unit ','::tail) = .comma tail := by
  rw [readSeparator,skipBlanks_head (.inr (.inr (.inl rfl)))]
  exact if_pos rfl

theorem readSeparator_closing (tail : JsString) : readSeparator (unit ']') (unit ']'::tail) = .closing tail := by
  have hcomma : unit ']' ≠ unit ',' := by decide
  rw [readSeparator,skipBlanks_head (.inr (.inr (.inr rfl)))]
  dsimp only
  rw [if_neg hcomma,if_pos rfl]

/-- An array is read as its end or its items. -/
theorem readValue_bracket (n : ℕ) (text : JsString) : readValue (n+1) (unit '['::text) =
    match skipBlanks text with
    | v::tail =>
      if v = unit ']' then some (.array [],tail)
      else (readItems n (v::tail)).map fun read => (.array read.1,read.2)
    | [] => none := by
  have hquote : unit '[' ≠ quotation := by decide
  rw [readValue,skipBlanks_head (.inr (.inl rfl))]
  dsimp only
  exact (if_neg hquote).trans (if_pos rfl)

theorem length_stringifyItems_cons (item next : Json) (rest : List Json) : (stringifyItems (item::next::rest)).length =
      (stringify item).length+1+(stringifyItems (next::rest)).length := by
  rw [stringifyItems,List.length_append,List.length_cons]
  omega

/-- A digit differs from what is none. -/
theorem isDigit_ne {u v : UInt16} (hu : isDigit u = true) (hv : isDigit v = false) : u ≠ v := by
  rintro rfl
  rw [hu] at hv
  cases hv

/-- A value starts with no blank and with nothing that closes one. -/
theorem Starts.plain {u : UInt16} (h : Starts u) : isBlank u = false ∧ u ≠ unit ']' ∧ u ≠ closeBrace := by
  rcases h with rfl | rfl | rfl | rfl | rfl | rfl | rfl | hdigit
  · decide
  · decide
  · decide
  · decide
  · decide
  · decide
  · decide
  · refine ⟨?_,isDigit_ne hdigit rfl,isDigit_ne hdigit rfl⟩
    unfold isBlank
    rw [Bool.eq_false_iff]
    intro hblank
    simp only [Bool.or_eq_true,decide_eq_true_eq] at hblank
    rcases hblank with ((hb | hb) | hb) | hb
    · exact isDigit_ne hdigit rfl hb
    · exact isDigit_ne hdigit rfl hb
    · exact isDigit_ne hdigit rfl hb
    · exact isDigit_ne hdigit rfl hb

theorem skipBlanks_plain {u : UInt16} (h : isBlank u = false) (rest : JsString) : skipBlanks (u::rest) = u::rest := by
  rw [skipBlanks,h]
  rfl

/-- A comma or the end follows. -/
theorem readSeparator_cases (closing : UInt16) (hclosing : closing = unit ']' ∨ closing = closeBrace)
    (tail : JsString) : readSeparator closing (unit ','::tail) = .comma tail ∧
      readSeparator closing (closing::tail) = .closing tail := by
  refine ⟨readSeparator_comma closing tail,?_⟩
  rcases hclosing with rfl | rfl
  · exact readSeparator_closing tail
  · have hcomma : closeBrace ≠ unit ',' := by decide
    rw [readSeparator,skipBlanks_plain (by decide)]
    dsimp only
    rw [if_neg hcomma,if_pos rfl]

/-- A new name is put last. -/
theorem setMember_append {members : List (JsString × Json)} {name : JsString} {value : Json}
    (h : name ∉ members.map Prod.fst) : setMember members name value = members++[(name,value)] := by
  induction members with
  | nil => rfl
  | cons first rest ih =>
    rw [List.map_cons,List.mem_cons,not_or] at h
    have hne : first.1 ≠ name := fun heq => h.1 heq.symm
    rw [setMember,if_neg hne,ih h.2]
    rfl

/-- A comma or the end of a list ends a value. -/
theorem ends_cons {u : UInt16} (h : u = unit ',' ∨ u = unit ']' ∨ u = closeBrace) (tail : JsString) :
    Ends (u::tail) := by
  intro v hv
  cases hv
  exact h

theorem length_stringifyMembers_cons (first next : JsString × Json) (rest : List (JsString × Json)) :
    (stringifyMembers (first::next::rest)).length = (quote first.1).length+2+first.2.stringify.length+
        (stringifyMembers (next::rest)).length := by
  rw [stringifyMembers,List.length_append,List.length_cons,List.length_append,List.length_cons]
  omega

/-- A name and a colon are read before the value of a member. -/
theorem readMembers_quote (n : ℕ) (members : List (JsString × Json)) (name tail : JsString) :
    readMembers (n+1) members (quote name++unit ':'::tail) =
      match readValue n tail with
      | none => none
      | some (value,tail) =>
        match readSeparator closeBrace tail with
        | .comma rest => readMembers n (setMember members name value) rest
        | .closing rest => some (setMember members name value,rest)
        | .none => none := by
  have hread : readString (escapeAll name++[quotation]++unit ':'::tail) =
      some (name,unit ':'::tail) := by
    rw [List.append_assoc]
    exact readString_escapeAll name (unit ':'::tail)
  rw [readMembers,quote,List.cons_append,skipBlanks_plain (by decide)]
  dsimp only
  rw [if_pos rfl,hread]
  dsimp only
  rw [skipBlanks_plain (by decide)]
  exact if_pos rfl

/-- An object is read when its members are, whatever follows it. -/
theorem readValue_object {n : ℕ} {members : List (JsString × Json)} (tail : JsString)
    (h : ∀ member rest, members = member::rest →
      readMembers n [] (stringifyMembers members++closeBrace::tail) = some (members,tail)) :
    readValue (n+1) ((Json.object members).stringify++tail) = some (.object members,tail) := by
  have hquote : openBrace ≠ quotation := by decide
  have hbracket : openBrace ≠ unit '[' := by decide
  rw [stringify,List.cons_append,List.append_assoc,readValue,skipBlanks_plain (by decide)]
  dsimp only
  rw [if_neg hquote,if_neg hbracket,if_pos rfl]
  cases members with
  | nil =>
    rw [stringifyMembers,List.nil_append,List.singleton_append,skipBlanks_plain (by decide)]
    exact if_pos rfl
  | cons member rest =>
    have hhead : ∃ more, stringifyMembers (member::rest)++closeBrace::tail = quotation::more := by
      cases rest with
      | nil => exact ⟨_,by rw [stringifyMembers,quote,List.cons_append,List.cons_append]⟩
      | cons next rest => exact ⟨_,by rw [stringifyMembers,quote,List.cons_append,List.cons_append]⟩
    obtain ⟨more,hmore⟩ := hhead
    have hclosing : quotation ≠ closeBrace := by decide
    rw [List.singleton_append,hmore,skipBlanks_plain (by decide)]
    dsimp only
    rw [if_neg hclosing,←hmore,h member rest rfl]
    rfl

/-- Values are read back up to their end, given enough fuel. -/
theorem readValue_legible (n : ℕ) : (∀ value tail, Legible value → Ends tail → value.stringify.length < n →
      readValue n (value.stringify++tail) = some (value,tail)) ∧
    (∀ item items tail, (∀ i ∈ item::items, Legible i) → (stringifyItems (item::items)).length+1 < n →
        readItems n (stringifyItems (item::items)++unit ']'::tail) = some (item::items,tail)) ∧
    ∀ before member members tail, (∀ m ∈ member::members, Legible m.2) →
      ((before++member::members).map Prod.fst).Nodup → (stringifyMembers (member::members)).length+1 < n →
        readMembers n before (stringifyMembers (member::members)++closeBrace::tail) =
          some (before++member::members,tail) := by
  induction n with
  | zero => exact ⟨fun _ _ _ _ h => (Nat.not_lt_zero _ h).elim,
      fun _ _ _ _ h => (Nat.not_lt_zero _ h).elim,fun _ _ _ _ _ _ h => (Nat.not_lt_zero _ h).elim⟩
  | succ n ih =>
    refine ⟨fun value tail hlegible hends hfuel => ?_,fun item items tail hlegible hfuel => ?_,
      fun before member members tail hlegible hnodup hfuel => ?_⟩
    · cases hlegible with
      | null => rfl
      | bool b =>
        cases b with
        | true => rfl
        | false => rfl
      | number literal h =>
        have hnumber := h.read tail hends
        obtain ⟨u,rest,heq,hhead⟩ := h.head
        have hblank := (Starts.plain (.inr (.inr (.inr (.inr (.inr (.inr hhead))))))).1
        rw [stringify,heq,List.cons_append]
        rw [heq,List.cons_append] at hnumber
        have hother : ∀ v, v ≠ unit '-' → isDigit v = false → u ≠ v := by
          intro v hminus hdigit
          rcases hhead with rfl | hd
          · exact fun h => hminus h.symm
          · exact isDigit_ne hd hdigit
        rw [readValue,skipBlanks_plain hblank]
        dsimp only
        rw [if_neg (hother _ (by decide) rfl),if_neg (hother _ (by decide) rfl),
          if_neg (hother _ (by decide) rfl),if_neg (hother _ (by decide) rfl),
          if_neg (hother _ (by decide) rfl),if_neg (hother _ (by decide) rfl),hnumber]
        rfl
      | string text =>
        have hread : readString (escapeAll text++[quotation]++tail) = some (text,tail) := by
          rw [List.append_assoc]
          exact readString_escapeAll text tail
        rw [stringify,quote,List.cons_append,readValue,skipBlanks_plain (by decide)]
        dsimp only
        rw [if_pos rfl,hread]
        rfl
      | array items hitems =>
        rw [stringify,List.cons_append,List.append_assoc,readValue_bracket]
        cases items with
        | nil =>
          rw [stringifyItems,List.nil_append,List.singleton_append,skipBlanks_plain (by decide)]
          exact if_pos rfl
        | cons item rest =>
          have hlength : (stringifyItems (item::rest)).length+1 < n := by
            simp only [stringify,List.length_cons,List.length_append,List.length_nil] at hfuel
            omega
          have hread := ih.2.1 item rest tail hitems hlength
          obtain ⟨u,first,heq,hu⟩ := (hitems item List.mem_cons_self).head
          have hhead : ∃ more, stringifyItems (item::rest)++unit ']'::tail = u::more := by
            cases rest with
            | nil => exact ⟨_,by rw [stringifyItems,heq,List.cons_append]⟩
            | cons next rest =>
              exact ⟨_,by rw [stringifyItems,heq,List.cons_append,List.cons_append]⟩
          obtain ⟨more,hmore⟩ := hhead
          rw [List.singleton_append,hmore,skipBlanks_plain hu.plain.1]
          dsimp only
          rw [if_neg hu.plain.2.1,←hmore,hread]
          rfl
      | object members hnodup hmembers =>
        refine readValue_object tail fun member rest heq => ?_
        subst heq
        refine ih.2.2 [] member rest tail hmembers hnodup ?_
        simp only [stringify,List.length_cons,List.length_append,List.length_nil] at hfuel
        omega
    · have hitem := hlegible item List.mem_cons_self
      cases items with
      | nil =>
        rw [stringifyItems] at hfuel ⊢
        have hread := ih.1 item (unit ']'::tail) hitem (ends_cons (.inr (.inl rfl)) tail) (by omega)
        rw [readItems,hread]
        dsimp only
        rw [(readSeparator_cases _ (.inl rfl) tail).2]
      | cons next rest =>
        rw [length_stringifyItems_cons] at hfuel
        have hread := ih.1 item (unit ','::(stringifyItems (next::rest)++unit ']'::tail)) hitem
          (ends_cons (.inl rfl) _) (by omega)
        have hrest := ih.2.1 next rest tail (fun i hi => hlegible i (List.mem_cons_of_mem _ hi))
          (by omega)
        rw [readItems,stringifyItems,List.append_assoc,List.cons_append,hread]
        dsimp only
        rw [(readSeparator_cases _ (.inl rfl) _).1]
        dsimp only
        rw [hrest]
        rfl
    · obtain ⟨name,value⟩ := member
      have hvalue := hlegible (name,value) List.mem_cons_self
      have hnew : name ∉ before.map Prod.fst := by
        rw [List.map_append,List.map_cons] at hnodup
        exact fun hin => (List.nodup_append.mp hnodup).2.2 name hin name List.mem_cons_self rfl
      cases members with
      | nil =>
        rw [stringifyMembers,List.length_append,List.length_cons] at hfuel
        rw [stringifyMembers,List.append_assoc,List.cons_append,readMembers_quote]
        have hread := ih.1 value (closeBrace::tail) hvalue (ends_cons (.inr (.inr rfl)) tail) (by omega)
        rw [hread]
        dsimp only
        rw [(readSeparator_cases _ (.inr rfl) tail).2]
        dsimp only
        rw [setMember_append hnew]
      | cons next rest =>
        rw [length_stringifyMembers_cons] at hfuel
        have hread := ih.1 value (unit ','::(stringifyMembers (next::rest)++closeBrace::tail))
          hvalue (ends_cons (.inl rfl) _) (by dsimp only at hfuel; omega)
        have hrest := ih.2.2 (before++[(name,value)]) next rest tail
          (fun m hm => hlegible m (List.mem_cons_of_mem _ hm))
          (by rw [List.append_assoc]; exact hnodup) (by omega)
        rw [stringifyMembers,List.append_assoc,List.cons_append,List.append_assoc,List.cons_append,
          readMembers_quote,hread]
        dsimp only
        rw [(readSeparator_cases _ (.inr rfl) _).1]
        dsimp only
        rw [setMember_append hnew,hrest,List.append_assoc]
        rfl

/-- A value is read back. -/
theorem parse_legible {value : Json} (h : Legible value) : parse value.stringify = some value := by
  have hends : Ends [] := fun u hu => by cases hu
  have hread := (readValue_legible (value.stringify.length+1)).1 value [] h hends (Nat.lt_succ_self _)
  rw [List.append_nil] at hread
  rw [parse,hread]
  rfl

/-- The text of a value is well formed. -/
theorem paired_legible {value : Json} (h : Legible value) : Paired value.stringify := by
  have hsingle : ∀ (u : UInt16) (rest : JsString), isSurrogate u = false → Paired rest →
      Paired (u::rest) := fun u rest hu hrest => .single u rest hu hrest
  have hquote : ∀ text, Paired (quote text) := fun text =>
    hsingle _ _ (by decide) ((paired_escapeAll text).append (hsingle _ _ (by decide) .nil))
  induction h with
  | null => exact paired_ofString "null"
  | bool b =>
    cases b with
    | true => exact paired_ofString "true"
    | false => exact paired_ofString "false"
  | number literal h => exact h.paired
  | string text => exact hquote text
  | array items _ ih =>
    have hitems : ∀ rest : List Json, (∀ i ∈ rest, Paired i.stringify) →
        Paired (stringifyItems rest) := by
      intro rest
      induction rest with
      | nil => exact fun _ => .nil
      | cons item rest ihrest =>
        intro hall
        have hrest := ihrest fun i hi => hall i (List.mem_cons_of_mem _ hi)
        have hitem := hall item List.mem_cons_self
        cases rest with
        | nil => exact hitem
        | cons next rest => exact hitem.append (hsingle _ _ (by decide) hrest)
    exact hsingle _ _ (by decide) ((hitems items ih).append (hsingle _ _ (by decide) .nil))
  | object members _ _ ih =>
    have hmembers : ∀ rest : List (JsString × Json), (∀ m ∈ rest, Paired m.2.stringify) →
        Paired (stringifyMembers rest) := by
      intro rest
      induction rest with
      | nil => exact fun _ => .nil
      | cons member rest ihrest =>
        intro hall
        have hrest := ihrest fun m hm => hall m (List.mem_cons_of_mem _ hm)
        have hvalue := hall member List.mem_cons_self
        obtain ⟨name,value⟩ := member
        cases rest with
        | nil => exact (hquote name).append (hsingle _ _ (by decide) hvalue)
        | cons next rest =>
          exact (hquote name).append (hsingle _ _ (by decide)
            (hvalue.append (hsingle _ _ (by decide) hrest)))
    exact hsingle _ _ (by decide) ((hmembers members ih).append (hsingle _ _ (by decide) .nil))

/-- Only strings and arrays of such values. -/
inductive Texts : Json → Prop where
  | string (text : JsString) : Texts (.string text)
  | array (items : List Json) (h : ∀ item ∈ items, Texts item) : Texts (.array items)

theorem Texts.legible {value : Json} (h : Texts value) : Legible value := by
  induction h with
  | string text => exact .string text
  | array items _ ih => exact .array items ih

/-- A written value of strings is read back. -/
theorem parse_stringify {value : Json} (h : Texts value) : parse (stringify value) = some value :=
  parse_legible h.legible

/-- A written value of strings is paired. -/
theorem paired_stringify {value : Json} (h : Texts value) : Paired (stringify value) :=
  paired_legible h.legible

end Baileyrs.Json
