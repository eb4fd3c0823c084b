import Baileyrs.Base64
import Baileyrs.SignalRouting

/-!
# Strict base64

The runtime's own base64 refuses what is not in the alphabet and padding that does not
close a group of four, where the host's ignores both. It takes the two URL characters
for theirs, and a text without its padding.
-/

namespace Baileyrs.RuntimeBytes

open JsString AtomicStore TextSearch

/-- Write bytes in base64. -/
def base64Encode (bytes : Bytes) : JsString := Base64.encode bytes

/-- Value of a character; a padding mark counts as zero. -/
def base64Value (char : UInt16) : Except StoreError ℕ :=
  if char = Base64.padding then .ok 0
  else
    match (List.range 64).find? fun n => Base64.digit n = char with
    | some index => .ok index
    | none => .error (.rangeError ("invalid base64 character: "++shown [char]))

/-- The standard character for a URL one. -/
def standardCharacter (char : UInt16) : UInt16 :=
  if char = unit '-' then unit '+' else if char = unit '_' then unit '/' else char

/-- Bytes of groups of four values. -/
def quadBytes : List ℕ → Bytes
  | a::b::c::d::rest =>
    (a*4+b/16).toUInt8::(b%16*16+c/4).toUInt8::(c%4*64+d).toUInt8::quadBytes rest
  | _ => []

/-- Padding marks at the end of a text, two at most. -/
def paddingLength (clean : JsString) : ℕ :=
  if (clean.drop (clean.length-2)) = [Base64.padding,Base64.padding] then 2
  else if clean.getLast? = some Base64.padding then 1
  else 0

/-- Check the length of a text and the place of its padding. -/
def checkPadding (clean : JsString) : Except StoreError Unit :=
  match indexOf Base64.padding clean with
  | some firstPadding =>
    if 2 < clean.length-firstPadding ∨ (clean.drop firstPadding).any (· ≠ Base64.padding) then
      .error (.rangeError "invalid base64 padding")
    else if clean.length%4 ≠ 0 ∨ firstPadding%4 < 2 then .error (.rangeError "invalid base64 padding")
    else .ok ()
  | none => if clean.length%4 = 1 then .error (.rangeError "invalid base64 length") else .ok ()

/-- Read base64. -/
def base64Decode (text : JsString) : Except StoreError Bytes := do
  let clean := (text.filter fun u => !JsNumber.isSpace u).map standardCharacter
  checkPadding clean
  let clean := clean++List.replicate ((4-clean.length%4)%4) Base64.padding
  let values ← clean.mapM base64Value
  return (quadBytes values).take (clean.length/4*3-paddingLength clean)

theorem base64Value_digit {n : ℕ} (h : n < 64) : base64Value (Base64.digit n) = .ok n := by
  have hall : ∀ n, n < 64 → base64Value (Base64.digit n) = .ok n := by decide
  exact hall n h

/-- A written character is a plain one of the alphabet. -/
theorem digit_plain {n : ℕ} (h : n < 64) :
    JsNumber.isSpace (Base64.digit n) = false ∧ standardCharacter (Base64.digit n) = Base64.digit n := by
  have hall : ∀ n, n < 64 → JsNumber.isSpace (Base64.digit n) = false ∧
      standardCharacter (Base64.digit n) = Base64.digit n := by decide
  exact hall n h

/-- Written bytes are characters, and then padding to a group of four. -/
structure Written (bytes : Bytes) (body : JsString) (pad : ℕ) : Prop where
  /-- The whole text. -/
  text : Base64.encode bytes = body++List.replicate pad Base64.padding
  /-- What comes before the padding. -/
  characters : ∀ u ∈ body, ∃ n, n < 64 ∧ u = Base64.digit n
  /-- There is little padding. -/
  short : pad ≤ 2
  /-- Groups are complete. -/
  groups : body.length+pad = 4*((bytes.length+2)/3)
  /-- Each group stands for three bytes, but for its padding. -/
  length : bytes.length+pad = 3*((bytes.length+2)/3)

theorem written_encode (bytes : Bytes) : ∃ body pad, Written bytes body pad := by
  induction bytes using Base64.encode.induct with
  | case1 => exact ⟨[],0,rfl,fun _ hu => (by cases hu),by omega,rfl,rfl⟩
  | case2 a =>
    have ha := UInt8.toNat_lt a
    refine ⟨[Base64.digit (a.toNat/4),Base64.digit (a.toNat%4*16)],2,rfl,?_,by omega,by simp,by simp⟩
    simp only [List.forall_mem_cons,List.not_mem_nil,false_imp_iff,implies_true,and_true]
    exact ⟨⟨_,by omega,rfl⟩,⟨_,by omega,rfl⟩⟩
  | case3 a b =>
    have ha := UInt8.toNat_lt a
    have hb := UInt8.toNat_lt b
    refine ⟨[Base64.digit (a.toNat/4),Base64.digit (a.toNat%4*16+b.toNat/16),Base64.digit (b.toNat%16*4)],1,rfl,?_,
      by omega,by simp,by simp⟩
    simp only [List.forall_mem_cons,List.not_mem_nil,false_imp_iff,implies_true,and_true]
    exact ⟨⟨_,by omega,rfl⟩,⟨_,by omega,rfl⟩,⟨_,by omega,rfl⟩⟩
  | case4 a b c rest ih =>
    have ha := UInt8.toNat_lt a
    have hb := UInt8.toNat_lt b
    have hc := UInt8.toNat_lt c
    obtain ⟨body,pad,hrest⟩ := ih
    refine ⟨Base64.digit (a.toNat/4)::Base64.digit (a.toNat%4*16+b.toNat/16)::
      Base64.digit (b.toNat%16*4+c.toNat/64)::Base64.digit (c.toNat%64)::body,pad,?_,?_,hrest.short,?_,?_⟩
    · rw [Base64.encode,hrest.text]
      rfl
    · simp only [List.forall_mem_cons]
      exact ⟨⟨_,by omega,rfl⟩,⟨_,by omega,rfl⟩,⟨_,by omega,rfl⟩,⟨_,by omega,rfl⟩,hrest.characters⟩
    · have hgroups := hrest.groups
      simp only [List.length_cons]
      omega
    · have hlength := hrest.length
      simp only [List.length_cons]
      omega

variable {bytes : Bytes} {body : JsString} {pad : ℕ}

theorem Written.notMem (h : Written bytes body pad) : Base64.padding ∉ body := by
  intro hmem
  obtain ⟨n,hn,heq⟩ := h.characters _ hmem
  exact Base64.digit_ne_padding hn heq.symm

/-- Nothing is removed from a written text. -/
theorem Written.clean (h : Written bytes body pad) :
    ((Base64.encode bytes).filter fun u => !JsNumber.isSpace u).map standardCharacter = Base64.encode bytes := by
  have hplain : ∀ u ∈ Base64.encode bytes, JsNumber.isSpace u = false ∧ standardCharacter u = u := by
    intro u hu
    rw [h.text] at hu
    rcases List.mem_append.mp hu with hbody | hpad
    · obtain ⟨n,hn,rfl⟩ := h.characters u hbody
      exact digit_plain hn
    · rw [List.eq_of_mem_replicate hpad]
      decide
  have hfilter : (Base64.encode bytes).filter (fun u => !JsNumber.isSpace u) = Base64.encode bytes := by
    refine List.filter_eq_self.mpr fun u hu => ?_
    rw [(hplain u hu).1]
    rfl
  rw [hfilter]
  exact (List.map_congr_left fun u hu => (hplain u hu).2).trans (List.map_id _)

/-- The padding of a written text is in place. -/
theorem Written.checkPadding (h : Written bytes body pad) : checkPadding (Base64.encode bytes) = .ok () := by
  have hgroups := h.groups
  have hshort := h.short
  have hlength : (Base64.encode bytes).length = body.length+pad := by
    rw [h.text,List.length_append,List.length_replicate]
  unfold RuntimeBytes.checkPadding
  rw [hlength,h.text]
  by_cases hpad : pad = 0
  · rw [hpad,List.replicate_zero,List.append_nil,indexOf_eq_none.mpr h.notMem]
    exact if_neg (by omega)
  · have hpositive : pad-1+1 = pad := by omega
    have hsplit : List.replicate pad Base64.padding = Base64.padding::List.replicate (pad-1) Base64.padding := by
      rw [← List.replicate_succ,hpositive]
    have hdrop : (body++Base64.padding::List.replicate (pad-1) Base64.padding).drop body.length =
        Base64.padding::List.replicate (pad-1) Base64.padding := List.drop_left
    have hall : (Base64.padding::List.replicate (pad-1) Base64.padding).any (fun u => decide (u ≠ Base64.padding)) =
        false := by
      rw [List.any_eq_false]
      intro u hu
      rw [← hsplit] at hu
      rw [List.eq_of_mem_replicate hu]
      decide
    have hfew : ¬(2 < body.length+pad-body.length ∨ false = true) := by
      rintro (hmany | hother)
      · omega
      · cases hother
    rw [hsplit,indexOf_append h.notMem]
    dsimp only
    rw [hdrop,hall,if_neg hfew,if_neg (by omega)]

theorem Written.paddingLength (h : Written bytes body pad) : paddingLength (Base64.encode bytes) = pad := by
  have hgroups := h.groups
  have hshort := h.short
  have hnotMem := h.notMem
  unfold RuntimeBytes.paddingLength
  rw [h.text]
  match pad,hshort,hgroups with
  | 0,_,_ =>
    rw [List.replicate_zero,List.append_nil]
    have hdrop : body.drop (body.length-2) ≠ [Base64.padding,Base64.padding] := by
      intro hall
      have hmem : Base64.padding ∈ body.drop (body.length-2) := by
        rw [hall]
        exact List.mem_cons_self
      exact hnotMem (List.mem_of_mem_drop hmem)
    have hlast : body.getLast? ≠ some Base64.padding := fun hall => hnotMem (List.mem_of_getLast? hall)
    rw [if_neg hdrop,if_neg hlast]
  | 1,_,hgroups =>
    obtain ⟨front,last,rfl⟩ : ∃ front last, body = front++[last] := by
      rcases List.eq_nil_or_concat body with rfl | ⟨front,last,hbody⟩
      · simp at hgroups
        omega
      · exact ⟨front,last,by rw [hbody,List.concat_eq_append]⟩
    have hlast : last ≠ Base64.padding := by
      rintro rfl
      exact hnotMem (List.mem_append_right _ List.mem_cons_self)
    have hdrop : ((front++[last])++List.replicate 1 Base64.padding).drop
        (((front++[last])++List.replicate 1 Base64.padding).length-2) = [last,Base64.padding] := by
      have hlength : ((front++[last])++List.replicate 1 Base64.padding).length-2 = front.length := by
        simp only [List.length_append,List.length_cons,List.length_nil,List.length_replicate]
        omega
      rw [hlength,List.append_assoc,List.drop_left]
      rfl
    have hne : [last,Base64.padding] ≠ [Base64.padding,Base64.padding] := by
      intro hsame
      exact hlast (List.cons.inj hsame).1
    rw [hdrop,if_neg hne,if_pos]
    exact List.getLast?_concat
  | 2,_,_ =>
    have hdrop : (body++List.replicate 2 Base64.padding).drop ((body++List.replicate 2 Base64.padding).length-2) =
        [Base64.padding,Base64.padding] := by
      have hlength : (body++List.replicate 2 Base64.padding).length-2 = body.length := by
        simp only [List.length_append,List.length_replicate]
        omega
      rw [hlength,List.drop_left]
      rfl
    rw [hdrop,if_pos rfl]

/-- The values of a written text stand for its bytes. -/
theorem quadBytes_encode (bytes : Bytes) : ∃ values, (Base64.encode bytes).mapM base64Value = .ok values ∧
    (quadBytes values).take bytes.length = bytes := by
  have hpadding : base64Value Base64.padding = .ok 0 := rfl
  induction bytes using Base64.encode.induct with
  | case1 => exact ⟨[],rfl,rfl⟩
  | case2 a =>
    have ha := UInt8.toNat_lt a
    refine ⟨[a.toNat/4,a.toNat%4*16,0,0],?_,?_⟩
    · rw [Base64.encode,List.mapM_cons,List.mapM_cons,List.mapM_cons,List.mapM_cons,base64Value_digit (by omega),
        base64Value_digit (by omega),hpadding]
      rfl
    · have hbyte : (a.toNat/4*4+a.toNat%4*16/16).toUInt8 = a := Base64.toUInt8_eq (by omega)
      change [(a.toNat/4*4+a.toNat%4*16/16).toUInt8] = [a]
      rw [hbyte]
  | case3 a b =>
    have ha := UInt8.toNat_lt a
    have hb := UInt8.toNat_lt b
    refine ⟨[a.toNat/4,a.toNat%4*16+b.toNat/16,b.toNat%16*4,0],?_,?_⟩
    · rw [Base64.encode,List.mapM_cons,List.mapM_cons,List.mapM_cons,List.mapM_cons,base64Value_digit (by omega),
        base64Value_digit (by omega),base64Value_digit (by omega),hpadding]
      rfl
    · have hfirst : (a.toNat/4*4+(a.toNat%4*16+b.toNat/16)/16).toUInt8 = a := Base64.toUInt8_eq (by omega)
      have hsecond : ((a.toNat%4*16+b.toNat/16)%16*16+b.toNat%16*4/4).toUInt8 = b := Base64.toUInt8_eq (by omega)
      change [(a.toNat/4*4+(a.toNat%4*16+b.toNat/16)/16).toUInt8,
        ((a.toNat%4*16+b.toNat/16)%16*16+b.toNat%16*4/4).toUInt8] = [a,b]
      rw [hfirst,hsecond]
  | case4 a b c rest ih =>
    have ha := UInt8.toNat_lt a
    have hb := UInt8.toNat_lt b
    have hc := UInt8.toNat_lt c
    obtain ⟨values,hvalues,hrest⟩ := ih
    refine ⟨a.toNat/4::(a.toNat%4*16+b.toNat/16)::(b.toNat%16*4+c.toNat/64)::c.toNat%64::values,?_,?_⟩
    · rw [Base64.encode,List.mapM_cons,List.mapM_cons,List.mapM_cons,List.mapM_cons,base64Value_digit (by omega),
        base64Value_digit (by omega),base64Value_digit (by omega),base64Value_digit (by omega),hvalues]
      rfl
    · have hfirst : (a.toNat/4*4+(a.toNat%4*16+b.toNat/16)/16).toUInt8 = a := Base64.toUInt8_eq (by omega)
      have hsecond : ((a.toNat%4*16+b.toNat/16)%16*16+(b.toNat%16*4+c.toNat/64)/4).toUInt8 = b :=
        Base64.toUInt8_eq (by omega)
      have hthird : ((b.toNat%16*4+c.toNat/64)%4*64+c.toNat%64).toUInt8 = c := Base64.toUInt8_eq (by omega)
      rw [quadBytes,hfirst,hsecond,hthird,List.length_cons,List.length_cons,List.length_cons,List.take_succ_cons,
        List.take_succ_cons,List.take_succ_cons,hrest]

/-- Written bytes are read back. -/
theorem base64Decode_base64Encode (bytes : Bytes) : base64Decode (base64Encode bytes) = .ok bytes := by
  obtain ⟨body,pad,hwritten⟩ := written_encode bytes
  obtain ⟨values,hvalues,htake⟩ := quadBytes_encode bytes
  have hgroups := hwritten.groups
  have hlengths := hwritten.length
  have hlength : (Base64.encode bytes).length = body.length+pad := by
    rw [hwritten.text,List.length_append,List.length_replicate]
  have hnone : (4-(Base64.encode bytes).length%4)%4 = 0 := by omega
  have hcount : (Base64.encode bytes).length/4*3-pad = bytes.length := by omega
  unfold base64Decode base64Encode
  dsimp only
  rw [hwritten.clean,hwritten.checkPadding]
  dsimp only [bind,Except.bind]
  rw [hnone,List.replicate_zero,List.append_nil,hvalues]
  dsimp only
  rw [hwritten.paddingLength,hcount,htake]
  rfl

example : base64Decode (ofString "_-8") = .ok [255,239] := by decide

end Baileyrs.RuntimeBytes
