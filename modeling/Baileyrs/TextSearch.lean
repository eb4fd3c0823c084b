import Mathlib.Data.List.Basic

/-!
# Searching in texts

The first and the last index of a unit, and the parts between separators. A
text is put together again from what a search found, and a search in a text
that was put together finds where.
-/

namespace Baileyrs.TextSearch

variable {α : Type} [DecidableEq α]

/-- First index of a unit. -/
def indexOf (x : α) : List α → Option ℕ
  | [] => none
  | y::rest => if y = x then some 0 else (indexOf x rest).map (·+1)

/-- Last index of a unit. -/
def lastIndexOf (x : α) : List α → Option ℕ
  | [] => none
  | y::rest =>
    match lastIndexOf x rest with
    | some i => some (i+1)
    | none => if y = x then some 0 else none

/-- Parts between separators, with the units of the part read so far and of the
separator still to be skipped. -/
def splitFrom (separator : List α) : ℕ → List α → List α → List (List α)
  | _,part,[] => [part]
  | skip+1,part,_::rest => splitFrom separator skip part rest
  | 0,part,x::rest =>
    if separator.isPrefixOf (x::rest) then part::splitFrom separator (separator.length-1) [] rest
    else splitFrom separator 0 (part++[x]) rest

/-- Parts between separators. -/
def splitOn (separator text : List α) : List (List α) := splitFrom separator 0 [] text

theorem indexOf_eq_none {x : α} {text : List α} : indexOf x text = none ↔ x ∉ text := by
  induction text with
  | nil => exact ⟨fun _ => List.not_mem_nil,fun _ => rfl⟩
  | cons y rest ih =>
    rw [indexOf,List.mem_cons,not_or]
    split
    · rename_i heq
      exact ⟨(fun h => nomatch h),fun h => absurd heq.symm h.1⟩
    · rename_i hne
      rw [Option.map_eq_none_iff,ih]
      exact ⟨fun h => ⟨fun heq => hne heq.symm,h⟩,fun h => h.2⟩

/-- The first index is behind units that are not the one. -/
theorem indexOf_append {x : α} {before : List α} (h : x ∉ before) (after : List α) :
    indexOf x (before++x::after) = some before.length := by
  induction before with
  | nil =>
    rw [List.nil_append,indexOf,if_pos rfl]
    rfl
  | cons y rest ih =>
    rw [List.mem_cons,not_or] at h
    have hne : y ≠ x := fun heq => h.1 heq.symm
    rw [List.cons_append,indexOf,if_neg hne,ih h.2]
    rfl

/-- What is before and behind the first index. -/
theorem indexOf_eq_some {x : α} {text : List α} {i : ℕ} (h : indexOf x text = some i) :
    text = text.take i++x::text.drop (i+1) ∧ x ∉ text.take i := by
  induction text generalizing i with
  | nil => cases h
  | cons y rest ih =>
    rw [indexOf] at h
    split at h
    · rename_i heq
      cases h
      rw [heq]
      exact ⟨rfl,List.not_mem_nil⟩
    · rename_i hne
      obtain ⟨j,hj,rfl⟩ := Option.map_eq_some_iff.mp h
      obtain ⟨hwhole,hnew⟩ := ih hj
      rw [List.take_succ_cons,List.drop_succ_cons,List.cons_append,←hwhole,List.mem_cons,not_or]
      exact ⟨rfl,fun heq => hne heq.symm,hnew⟩

theorem lastIndexOf_eq_none {x : α} {text : List α} : lastIndexOf x text = none ↔ x ∉ text := by
  induction text with
  | nil => exact ⟨fun _ => List.not_mem_nil,fun _ => rfl⟩
  | cons y rest ih =>
    rw [lastIndexOf,List.mem_cons,not_or]
    cases hrest : lastIndexOf x rest with
    | some i =>
      rw [hrest] at ih
      have hmem : ¬x ∉ rest := fun hno => nomatch ih.mpr hno
      exact ⟨(fun h => nomatch h),fun h => absurd h.2 hmem⟩
    | none =>
      have hnew := ih.mp hrest
      dsimp only
      split
      · rename_i heq
        exact ⟨(fun h => nomatch h),fun h => absurd heq.symm h.1⟩
      · rename_i hne
        exact ⟨fun _ => ⟨fun heq => hne heq.symm,hnew⟩,fun _ => rfl⟩

/-- The last index is before units that are not the one. -/
theorem lastIndexOf_append {x : α} (before : List α) {after : List α} (h : x ∉ after) :
    lastIndexOf x (before++x::after) = some before.length := by
  induction before with
  | nil =>
    rw [List.nil_append,lastIndexOf,lastIndexOf_eq_none.mpr h]
    exact if_pos rfl
  | cons y rest ih =>
    rw [List.cons_append,lastIndexOf,ih]
    rfl

/-- A text is split in one way at the last occurrence of a unit. -/
theorem append_cons_inj {x : α} {before after other behind : List α} (hafter : x ∉ after) (hbehind : x ∉ behind)
    (h : before++x::after = other++x::behind) : before = other ∧ after = behind := by
  have hindex : some before.length = some other.length := by
    rw [← lastIndexOf_append before hafter,h,lastIndexOf_append other hbehind]
  have hparts := List.append_inj h (Option.some_inj.mp hindex)
  exact ⟨hparts.1,List.tail_eq_of_cons_eq hparts.2⟩

/-- A part without the first unit of the separator is read on. -/
theorem splitFrom_part {x : α} {others part more : List α} (h : x ∉ more) (rest : List α) :
    splitFrom (x::others) 0 part (more++rest) = splitFrom (x::others) 0 (part++more) rest := by
  induction more generalizing part with
  | nil => rw [List.nil_append,List.append_nil]
  | cons y more ih =>
    rw [List.mem_cons,not_or] at h
    have hno : ¬(x::others).isPrefixOf (y::(more++rest)) = true := by
      rw [List.isPrefixOf_cons_cons,Bool.and_eq_true,beq_iff_eq]
      exact fun hboth => h.1 hboth.1
    rw [List.cons_append,splitFrom,if_neg hno,ih h.2,List.append_assoc]
    rfl

/-- The rest of a separator is skipped. -/
theorem splitFrom_skip (separator part skipped rest : List α) :
    splitFrom separator skipped.length part (skipped++rest) = splitFrom separator 0 part rest := by
  induction skipped with
  | nil => rfl
  | cons y skipped ih =>
    rw [List.length_cons,List.cons_append,splitFrom]
    exact ih

/-- A part ends at the first separator. -/
theorem splitOn_append {x : α} {others part : List α} (h : x ∉ part) (rest : List α) :
    splitOn (x::others) (part++((x::others)++rest)) = part::splitOn (x::others) rest := by
  have hstart : (x::others).isPrefixOf (x::(others++rest)) = true :=
    List.isPrefixOf_iff_prefix.mpr (List.prefix_append (x::others) rest)
  rw [splitOn,splitFrom_part h,List.nil_append,List.cons_append,splitFrom,if_pos hstart,List.length_cons,
    Nat.add_sub_cancel,splitFrom_skip]
  rfl

/-- A text without the separator is one part. -/
theorem splitOn_single {x : α} {others text : List α} (h : x ∉ text) : splitOn (x::others) text = [text] := by
  have hwhole := @splitFrom_part α _ x others [] text h []
  rw [List.append_nil,List.nil_append] at hwhole
  rw [splitOn,hwhole]
  rfl

/-- An index that is found is in the text. -/
theorem indexOf_lt {x : α} {text : List α} {i : ℕ} (h : indexOf x text = some i) : i < text.length := by
  have hwhole := congrArg List.length (indexOf_eq_some h).1
  rw [List.length_append,List.length_cons,List.length_take,List.length_drop] at hwhole
  omega

/-- Part of a text before the first separator. -/
def firstPart (x : α) (text : List α) : List α := text.take ((indexOf x text).getD text.length)

theorem firstPart_notMem {x : α} {text : List α} (h : x ∉ text) : firstPart x text = text := by
  rw [firstPart,indexOf_eq_none.mpr h,Option.getD_none,List.take_length]

theorem firstPart_append {x : α} {before : List α} (h : x ∉ before) (after : List α) :
    firstPart x (before++x::after) = before := by
  rw [firstPart,indexOf_append h,Option.getD_some,List.take_left]

/-- The separator is not in the part before it. -/
theorem notMem_firstPart (x : α) (text : List α) : x ∉ firstPart x text := by
  cases hindex : indexOf x text with
  | none =>
    have hno := indexOf_eq_none.mp hindex
    rw [firstPart_notMem hno]
    exact hno
  | some i =>
    rw [firstPart,hindex,Option.getD_some]
    exact (indexOf_eq_some hindex).2

/-- A text is cut by the first separator of it. -/
theorem cut_first (x : α) (text : List α) : x ∉ text ∨ ∃ before after, text = before++x::after ∧ x ∉ before := by
  cases hindex : indexOf x text with
  | none => exact .inl (indexOf_eq_none.mp hindex)
  | some i =>
    obtain ⟨hwhole,hno⟩ := indexOf_eq_some hindex
    exact .inr ⟨_,_,hwhole,hno⟩

/-- The first of the parts between separators. -/
theorem splitOn_first (x : α) (text : List α) : (splitOn [x] text)[0]? = some (firstPart x text) := by
  obtain hno | ⟨before,after,rfl,hno⟩ := cut_first x text
  · rw [splitOn_single hno,firstPart_notMem hno]
    rfl
  · have hsplit := @splitOn_append α _ x [] before hno after
    rw [List.singleton_append] at hsplit
    rw [hsplit,firstPart_append hno]
    rfl

omit [DecidableEq α] in
/-- What is behind a unit. -/
theorem drop_behind (before : List α) (x : α) (after : List α) : (before++x::after).drop (before.length+1) = after := by
  rw [List.drop_length_add_append]
  rfl

/-- The second of the parts between separators. -/
theorem splitOn_second (x : α) (text : List α) :
    (splitOn [x] text)[1]? = (indexOf x text).map fun i => firstPart x (text.drop (i+1)) := by
  obtain hno | ⟨before,after,rfl,hno⟩ := cut_first x text
  · rw [splitOn_single hno,indexOf_eq_none.mpr hno]
    rfl
  · have hsplit := @splitOn_append α _ x [] before hno after
    have hdrop : (before++x::after).drop (before.length+1) = after := drop_behind _ _ _
    rw [List.singleton_append] at hsplit
    rw [hsplit,indexOf_append hno,Option.map_some,hdrop]
    exact splitOn_first x after

/-- Searching the front of a text finds what is there of the whole. -/
theorem indexOf_take (x : α) (text : List α) (n : ℕ) : indexOf x (text.take n) = (indexOf x text).filter (· < n) := by
  induction text generalizing n with
  | nil =>
    rw [List.take_nil]
    rfl
  | cons y rest ih =>
    cases n with
    | zero =>
      cases indexOf x (y::rest) with
      | none => rfl
      | some i => rfl
    | succ n =>
      rw [List.take_succ_cons,indexOf,indexOf,ih]
      split
      · rfl
      · cases indexOf x rest with
        | none => rfl
        | some i =>
          have hsame : decide (i+1 < n+1) = decide (i < n) := by
            rw [decide_eq_decide]
            omega
          rw [Option.map_some,Option.filter_some,Option.filter_some,hsame]
          cases decide (i < n) with
          | true => rfl
          | false => rfl

section Joining

variable {β γ : Type}

/-- Parts with a separator between them. -/
def joined (x : β) : List (List β) → List β
  | [] => []
  | [part] => part
  | part::next::rest => part++x::joined x (next::rest)

/-- Splitting joined parts gives the parts. -/
theorem splitOn_joined {x : α} {parts : List (List α)} (h : ∀ part ∈ parts, x ∉ part) (hne : parts ≠ []) :
    splitOn [x] (joined x parts) = parts := by
  induction parts with
  | nil => exact absurd rfl hne
  | cons part rest ih =>
    have hpart := h part List.mem_cons_self
    cases rest with
    | nil => exact splitOn_single hpart
    | cons next rest =>
      have hsplit := @splitOn_append α _ x [] part hpart (joined x (next::rest))
      rw [List.singleton_append] at hsplit
      rw [joined,hsplit,ih (fun part hmem => h part (List.mem_cons_of_mem _ hmem)) (List.cons_ne_nil _ _)]

/-- What is in joined parts is the separator or in one of them. -/
theorem mem_joined {x y : β} {parts : List (List β)} (h : y ∈ joined x parts) : y = x ∨ ∃ part ∈ parts, y ∈ part := by
  induction parts with
  | nil => exact absurd h List.not_mem_nil
  | cons part rest ih =>
    cases rest with
    | nil => exact .inr ⟨part,List.mem_cons_self,h⟩
    | cons next rest =>
      rw [joined,List.mem_append,List.mem_cons] at h
      cases h with
      | inl hpart => exact .inr ⟨part,List.mem_cons_self,hpart⟩
      | inr h =>
        cases h with
        | inl hx => exact .inl hx
        | inr hrest =>
          cases ih hrest with
          | inl hx => exact .inl hx
          | inr hfound =>
            obtain ⟨found,hmem,hy⟩ := hfound
            exact .inr ⟨found,List.mem_cons_of_mem _ hmem,hy⟩

theorem map_joined (f : β → γ) (x : β) (parts : List (List β)) :
    (joined x parts).map f = joined (f x) (parts.map fun part => part.map f) := by
  induction parts with
  | nil => rfl
  | cons part rest ih =>
    cases rest with
    | nil => rfl
    | cons next rest =>
      rw [joined,List.map_append,List.map_cons,ih]
      rfl

/-- Every unit of this kind is followed by another one. -/
def Followed (x : β) (text : List β) : Prop := ∀ before after, text = before++x::after → ∃ y rest, after = y::rest ∧ y ≠ x

/-- Joined parts begin with the first one. -/
theorem joined_head {x : β} {part : List β} (hne : part ≠ []) (hx : x ∉ part) (rest : List (List β)) :
    ∃ y behind, joined x (part::rest) = y::behind ∧ y ≠ x := by
  cases part with
  | nil => exact absurd rfl hne
  | cons y part =>
    have hy : y ≠ x := fun heq => hx (heq ▸ List.mem_cons_self)
    cases rest with
    | nil => exact ⟨y,part,rfl,hy⟩
    | cons next rest => exact ⟨y,_,rfl,hy⟩

/-- The separators between parts that are not empty stand alone. -/
theorem followed_joined {x : β} {parts : List (List β)} (h : ∀ part ∈ parts, part ≠ [] ∧ x ∉ part) :
    Followed x (joined x parts) := by
  induction parts with
  | nil =>
    intro before after heq
    exact absurd heq.symm (List.append_ne_nil_of_right_ne_nil _ (List.cons_ne_nil _ _))
  | cons part rest ih =>
    have hpart := h part List.mem_cons_self
    have hrest := ih fun part hmem => h part (List.mem_cons_of_mem _ hmem)
    intro before after heq
    cases rest with
    | nil =>
      rw [joined] at heq
      exact absurd (heq ▸ List.mem_append_right before List.mem_cons_self) hpart.2
    | cons next rest =>
      have hnext := h next (List.mem_cons_of_mem _ List.mem_cons_self)
      obtain ⟨y,behind,hjoined,hy⟩ := joined_head hnext.1 hnext.2 rest
      rw [joined,List.append_eq_append_iff] at heq
      cases heq with
      | inl hlonger =>
        obtain ⟨more,rfl,hmore⟩ := hlonger
        cases more with
        | nil =>
          rw [List.nil_append,List.cons.injEq] at hmore
          exact ⟨y,behind,hmore.2.symm.trans hjoined,hy⟩
        | cons first more =>
          rw [List.cons_append,List.cons.injEq] at hmore
          exact hrest more after hmore.2
      | inr hshorter =>
        obtain ⟨more,rfl,hmore⟩ := hshorter
        cases more with
        | nil =>
          rw [List.nil_append,List.cons.injEq] at hmore
          exact ⟨y,behind,hmore.2.trans hjoined,hy⟩
        | cons first more =>
          rw [List.cons_append,List.cons.injEq] at hmore
          refine absurd ?_ hpart.2
          rw [← hmore.1]
          exact List.mem_append_right before List.mem_cons_self

end Joining

section Doubles

/-- What is not part of the separator is in one of the parts between separators. -/
theorem mem_splitFrom {x y : α} {others : List α} (hy : y ∉ x::others) {text part : List α} {skip : ℕ}
    (h : y ∈ part ∨ y ∈ text.drop skip) : ∃ found ∈ splitFrom (x::others) skip part text, y ∈ found := by
  induction text generalizing skip part with
  | nil =>
    rw [List.drop_nil] at h
    have hpart : splitFrom (x::others) skip part [] = [part] := by
      cases skip with
      | zero => rfl
      | succ skip => rfl
    rw [hpart]
    exact ⟨part,List.mem_singleton_self _,h.resolve_right List.not_mem_nil⟩
  | cons z rest ih =>
    cases skip with
    | succ skip =>
      rw [List.drop_succ_cons] at h
      exact ih h
    | zero =>
      rw [List.drop_zero,List.mem_cons] at h
      rw [splitFrom]
      split
      · rename_i hstart
        cases h with
        | inl hpart => exact ⟨part,List.mem_cons_self,hpart⟩
        | inr hrest =>
          obtain ⟨behind,hbehind⟩ := List.isPrefixOf_iff_prefix.mp hstart
          have hmem : y ∈ (x::others)++behind := hbehind ▸ List.mem_cons.mpr hrest
          have hbehindMem := (List.mem_append.mp hmem).resolve_left hy
          have hdrop : y ∈ rest.drop ((x::others).length-1) := by
            rw [List.cons_append,List.cons.injEq] at hbehind
            rw [List.length_cons,Nat.add_sub_cancel,← hbehind.2,List.drop_left]
            exact hbehindMem
          obtain ⟨found,hfound,hin⟩ := @ih [] ((x::others).length-1) (.inr hdrop)
          exact ⟨found,List.mem_cons_of_mem _ hfound,hin⟩
      · refine ih ?_
        rw [List.drop_zero,List.mem_append,List.mem_singleton]
        cases h with
        | inl hpart => exact .inl (.inl hpart)
        | inr hrest =>
          cases hrest with
          | inl heq => exact .inl (.inr heq)
          | inr hrest => exact .inr hrest

theorem mem_splitOn {x y : α} {others text : List α} (hy : y ∉ x::others) (h : y ∈ text) :
    ∃ found ∈ splitOn (x::others) text, y ∈ found := mem_splitFrom hy (.inr h)

/-- A text whose separators stand alone is read up to a double one. -/
theorem splitFrom_double {x : α} {text : List α} (h : Followed x text) (part rest : List α) :
    splitFrom [x,x] 0 part (text++rest) = splitFrom [x,x] 0 (part++text) rest := by
  induction text generalizing part with
  | nil => rw [List.nil_append,List.append_nil]
  | cons y more ih =>
    have hno : ¬[x,x].isPrefixOf (y::(more++rest)) = true := by
      rw [List.isPrefixOf_cons_cons,Bool.and_eq_true,beq_iff_eq]
      rintro ⟨rfl,hsecond⟩
      obtain ⟨z,behind,rfl,hz⟩ := h [] more rfl
      rw [List.cons_append,List.isPrefixOf_cons_cons,Bool.and_eq_true,beq_iff_eq] at hsecond
      exact hz hsecond.1.symm
    have hmore : Followed x more := fun before after heq => h (y::before) after (by rw [heq]; rfl)
    rw [List.cons_append,splitFrom,if_neg hno,ih hmore,List.append_assoc]
    rfl

theorem splitOn_undoubled {x : α} {text : List α} (h : Followed x text) : splitOn [x,x] text = [text] := by
  have hend := splitFrom_double h [] []
  rw [List.append_nil,List.nil_append] at hend
  rw [splitOn,hend]
  rfl

/-- Two texts whose separators stand alone are the parts around a double one. -/
theorem splitOn_double {x : α} {left right : List α} (hleft : Followed x left) (hright : Followed x right) :
    splitOn [x,x] (left++x::x::right) = [left,right] := by
  have hstart : [x,x].isPrefixOf (x::x::right) = true := List.isPrefixOf_iff_prefix.mpr (List.prefix_append [x,x] right)
  rw [splitOn,splitFrom_double hleft,List.nil_append,splitFrom,if_pos hstart]
  exact congrArg (left::·) (splitOn_undoubled hright)

end Doubles

end Baileyrs.TextSearch
