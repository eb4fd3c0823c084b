import Baileyrs.JsNumberRounding

/-!
# Texts of numbers are read back

The text of a finite number is a literal of digits with an optional fraction and an
optional exponent. A literal of that shape is read as a whole, and has the value of its
digits at their place, so every finite number is read back from its text.
-/

namespace Baileyrs.JsNumber

open JsString AtomicStore
open Json (Ends Literal)

section Shapes

/-- Digits, at least one. -/
structure Digits (text : JsString) : Prop where
  /-- At least one. -/
  nonempty : text ≠ []
  /-- All are digits. -/
  all : text.all Json.isDigit = true

/-- Text of an exponent. -/
def exponentText : Option (Bool × JsString) → JsString
  | none => []
  | some (negative,digits) => unit 'e'::(if negative then unit '-' else unit '+')::digits

/-- Text of a fraction, unless it is empty. -/
def fractionText (fraction : JsString) : JsString := if fraction = [] then [] else unit '.'::fraction

/-- Text of a sign. -/
def signText (negative : Bool) : JsString := if negative then [unit '-'] else []

/-- Text of a number in its parts. -/
def numberText (negative : Bool) (whole fraction : JsString) (exponent : Option (Bool × JsString)) : JsString :=
  signText negative++(whole++(fractionText fraction++exponentText exponent))

/-- Parts of a number. -/
structure Parts (whole fraction : JsString) (exponent : Option (Bool × JsString)) : Prop where
  /-- Digits come first. -/
  wholeDigits : Digits whole
  /-- A zero comes first only alone. -/
  leading : whole.head? = some (unit '0') → whole = [unit '0']
  /-- The fraction is of digits. -/
  fractionDigits : fraction.all Json.isDigit = true
  /-- So is the exponent. -/
  exponentDigits : ∀ part, exponent = some part → Digits part.2

/-- What does not continue digits. -/
def Stops (tail : JsString) : Prop := ∀ u, tail.head? = some u → Json.isDigit u = false

theorem span_stops {digits tail : JsString} (hdigits : digits.all Json.isDigit = true) (h : Stops tail) :
    (digits++tail).span Json.isDigit = (digits,tail) := by
  have htail : tail.takeWhile Json.isDigit = [] ∧ tail.dropWhile Json.isDigit = tail := by
    cases tail with
    | nil => exact ⟨rfl,rfl⟩
    | cons u rest =>
      have hu := h u rfl
      exact ⟨by rw [List.takeWhile_cons,hu]; rfl,by rw [List.dropWhile_cons,hu]; rfl⟩
  have hall : ∀ u ∈ digits, Json.isDigit u = true := List.all_eq_true.mp hdigits
  rw [List.span_eq_takeWhile_dropWhile,List.takeWhile_append_of_pos hall,List.dropWhile_append_of_pos hall,htail.1,
    htail.2,List.append_nil]

theorem Ends.stops {tail : JsString} (h : Ends tail) : Stops tail := fun _ hu => (h.head hu).1

/-- A fraction or an exponent stops digits. -/
theorem stops_cons {u : UInt16} (h : Json.isDigit u = false) (tail : JsString) : Stops (u::tail) := by
  intro other hother
  cases hother
  exact h

theorem stops_fraction (fraction : JsString) {tail : JsString} (h : Stops tail) : Stops (fractionText fraction++tail) := by
  unfold fractionText
  split
  · exact h
  · exact stops_cons (by decide) _

theorem Digits.read {digits tail : JsString} (h : Digits digits) (htail : Stops tail) :
    Json.readDigits (digits++tail) = some (digits,tail) := by
  unfold Json.readDigits
  rw [span_stops h.all htail]
  cases digits with
  | nil => exact absurd rfl h.nonempty
  | cons u rest => rfl

/-- A unit that is not accepted is left. -/
theorem readOptional_other {accepted : List UInt16} {text : JsString} (h : ∀ u, text.head? = some u → u ∉ accepted) :
    Json.readOptional accepted text = ([],text) := by
  cases text with
  | nil => rfl
  | cons u rest =>
    have hno : accepted.contains u = false := by
      rw [Bool.eq_false_iff]
      exact fun hin => h u rfl (List.contains_iff_mem.mp hin)
    rw [Json.readOptional,hno]
    rfl

/-- A unit that is accepted is split off. -/
theorem readOptional_accepted {accepted : List UInt16} {u : UInt16} (h : u ∈ accepted) (rest : JsString) :
    Json.readOptional accepted (u::rest) = ([u],rest) := by
  rw [Json.readOptional,List.contains_iff_mem.mpr h]
  rfl

/-- Nothing but a digit is read from digits. -/
theorem readOptional_digits_append {accepted : List UInt16} (haccepted : accepted.all (fun u => !Json.isDigit u) = true)
    {digits : JsString} (h : Digits digits) (tail : JsString) :
    Json.readOptional accepted (digits++tail) = ([],digits++tail) := by
  refine readOptional_other fun u hu hmem => ?_
  cases digits with
  | nil => exact absurd rfl h.nonempty
  | cons first rest =>
    cases hu
    have hdigit := h.all
    rw [List.all_cons,Bool.and_eq_true] at hdigit
    have hno := List.all_eq_true.mp haccepted u hmem
    rw [hdigit.1] at hno
    cases hno

/-- The sign is split off from digits. -/
theorem readOptional_signText (negative : Bool) {digits : JsString} (h : Digits digits) (tail : JsString) :
    Json.readOptional [unit '-'] (signText negative++(digits++tail)) = (signText negative,digits++tail) := by
  cases negative with
  | true => rfl
  | false => exact readOptional_digits_append (by decide) h tail

theorem Parts.readInteger {whole fraction : JsString} {exponent : Option (Bool × JsString)}
    (h : Parts whole fraction exponent) {tail : JsString} (htail : Stops tail) :
    Json.readInteger (whole++tail) = some (whole,tail) := by
  have hdigits := h.wholeDigits.read htail
  cases hwhole : whole with
  | nil => exact absurd hwhole h.wholeDigits.nonempty
  | cons u rest =>
    rw [hwhole] at hdigits
    rw [List.cons_append,Json.readInteger]
    split
    · rename_i hzero
      have hsingle := h.leading (by rw [hwhole,hzero]; rfl)
      rw [hwhole,List.cons_eq_cons] at hsingle
      rw [hsingle.2]
      rfl
    · exact hdigits

/-- A fraction is read as one. -/
theorem readPart_fraction {fraction tail : JsString} (h : fraction.all Json.isDigit = true)
    (htail : ∀ u, tail.head? = some u → Json.isDigit u = false ∧ u ≠ unit '.') :
    Json.readPart [unit '.'] [] (fractionText fraction++tail) = some (fractionText fraction,tail) := by
  unfold fractionText
  split
  · rw [List.nil_append,Json.readPart,readOptional_other fun u hu hmem => (htail u hu).2 (List.mem_singleton.mp hmem)]
  · rename_i hne
    have hread := Digits.read ⟨hne,h⟩ fun u hu => (htail u hu).1
    rw [List.cons_append,Json.readPart,readOptional_accepted List.mem_cons_self]
    dsimp only
    rw [readOptional_other fun _ _ => List.not_mem_nil]
    dsimp only [bind,Option.bind]
    rw [hread]
    rfl

/-- An exponent is read as one. -/
theorem readPart_exponent {exponent : Option (Bool × JsString)} (h : ∀ part, exponent = some part → Digits part.2)
    {tail : JsString} (htail : Ends tail) :
    Json.readPart [unit 'e',unit 'E'] [unit '+',unit '-'] (exponentText exponent++tail) =
      some (exponentText exponent,tail) := by
  cases exponent with
  | none => exact readPart_ends htail _ _ (by simp)
  | some part =>
    obtain ⟨negative,digits⟩ := part
    have hread := (h _ rfl).read (Ends.stops htail)
    have hsign : (if negative = true then unit '-' else unit '+') ∈ [unit '+',unit '-'] := by
      cases negative with
      | true => exact List.mem_cons_of_mem _ List.mem_cons_self
      | false => exact List.mem_cons_self
    rw [exponentText,List.cons_append,List.cons_append,Json.readPart,readOptional_accepted List.mem_cons_self]
    dsimp only
    rw [readOptional_accepted hsign]
    dsimp only [bind,Option.bind]
    rw [hread]
    rfl

/-- A number of such parts is read as a whole. -/
theorem Parts.readNumber {whole fraction : JsString} {exponent : Option (Bool × JsString)}
    (h : Parts whole fraction exponent) (negative : Bool) {tail : JsString} (htail : Ends tail) :
    Json.readNumber (numberText negative whole fraction exponent++tail) =
      some (numberText negative whole fraction exponent,tail) := by
  have hpoint : ∀ u, (exponentText exponent++tail).head? = some u → Json.isDigit u = false ∧ u ≠ unit '.' := by
    intro u hu
    cases exponent with
    | none => exact ⟨(htail.head hu).1,(htail.head hu).2.1⟩
    | some part =>
      cases hu
      decide
  have hstops : Stops (exponentText exponent++tail) := fun u hu => (hpoint u hu).1
  have hinteger := h.readInteger (stops_fraction fraction hstops)
  have hfraction := readPart_fraction h.fractionDigits hpoint
  have hexponent := readPart_exponent h.exponentDigits htail
  unfold numberText
  rw [List.append_assoc,List.append_assoc,List.append_assoc,Json.readNumber,readOptional_signText negative h.wholeDigits]
  dsimp only [bind,Option.bind]
  rw [hinteger]
  dsimp only
  rw [hfraction]
  dsimp only
  rw [hexponent]
  dsimp only
  rw [List.append_assoc,List.append_assoc]

end Shapes

section Values

/-- Value of an exponent. -/
def exponentValue : Option (Bool × JsString) → ℤ
  | none => 0
  | some (negative,digits) => if negative then -digitsValue digits else digitsValue digits

theorem literalExponent_exponentText (exponent : Option (Bool × JsString)) :
    literalExponent (exponentText exponent) = exponentValue exponent := by
  cases exponent with
  | none => rfl
  | some part =>
    obtain ⟨negative,digits⟩ := part
    cases negative with
    | true => rfl
    | false => rfl

/-- Double of digits with a scale. -/
def scaledDigits (negative : Bool) (digits : ℕ) (scale : ℤ) : JsNumber :=
  if digits = 0 then ofRatio negative 0 1 else ofRatio negative (digits*10^up scale) (10^down scale)

/-- A literal has the value of its digits. -/
theorem Parts.ofLiteral {whole fraction : JsString} {exponent : Option (Bool × JsString)}
    (h : Parts whole fraction exponent) (negative : Bool) : ofLiteral (numberText negative whole fraction exponent) =
      scaledDigits negative (digitsValue (whole++fraction)) (exponentValue exponent-fraction.length) := by
  have hexponent : ∀ u, (exponentText exponent).head? = some u → Json.isDigit u = false ∧ u ∉ [unit '.'] := by
    intro u hu
    cases exponent with
    | none => cases hu
    | some part =>
      cases hu
      decide
  have hstops : Stops (exponentText exponent) := fun u hu => (hexponent u hu).1
  have hsign : decide (signText negative ≠ []) = negative := by
    cases negative with
    | true => rfl
    | false => rfl
  unfold JsNumber.ofLiteral numberText
  rw [readOptional_signText negative h.wholeDigits]
  dsimp only
  rw [span_stops h.wholeDigits.all (stops_fraction fraction hstops),hsign]
  dsimp only
  by_cases hfraction : fraction = []
  · subst hfraction
    have hnone : fractionText [] = [] := rfl
    rw [hnone,List.nil_append,readOptional_other fun u hu => (hexponent u hu).2]
    dsimp only
    rw [if_pos rfl]
    dsimp only
    rw [literalExponent_exponentText]
    rfl
  · have hsome : fractionText fraction = unit '.'::fraction := if_neg hfraction
    rw [hsome,List.cons_append,readOptional_accepted List.mem_cons_self]
    dsimp only
    rw [if_neg (List.cons_ne_nil _ _),span_stops h.fractionDigits hstops]
    dsimp only
    rw [literalExponent_exponentText]
    rfl

theorem digits_natText (n : ℕ) : Digits (natText n) := by
  obtain ⟨u,rest,heq,_⟩ := natText_head n
  exact ⟨heq ▸ List.cons_ne_nil u rest,isDigit_natText n⟩

theorem digitsValue_natText (n : ℕ) : digitsValue (natText n) = n := ofDigits_natText n

/-- Only zero starts with a zero. -/
theorem natText_leading (n : ℕ) (h : (natText n).head? = some (unit '0')) : natText n = [unit '0'] := by
  obtain ⟨u,rest,heq,_,hzero⟩ := natText_head n
  rw [heq] at h ⊢
  cases h
  rw [hzero rfl]

/-- Zeros before digits do not count. -/
theorem digitsValue_zeros (zeros : ℕ) (digits : JsString) :
    digitsValue (List.replicate zeros (unit '0')++digits) = digitsValue digits := by
  induction zeros with
  | zero => rfl
  | succ zeros ih =>
    rw [List.replicate_succ,List.cons_append]
    exact ih

/-- A text that is laid out in parts with the value of its digits. -/
structure LaidOut (digits : ℕ) (scale : ℤ) (text : JsString) : Prop where
  /-- Its parts. -/
  parts : ∃ whole fraction exponent, text = whole++(fractionText fraction++exponentText exponent) ∧
    Parts whole fraction exponent ∧ ∀ negative,
      scaledDigits negative (digitsValue (whole++fraction)) (exponentValue exponent-fraction.length) =
        scaledDigits negative digits scale

/-- Digits before a point or an exponent, and digits between them. -/
theorem parts_split {digits whole fraction : JsString} (h : Digits digits) (hleading : digits.head? ≠ some (unit '0'))
    (hsplit : digits = whole++fraction) (hwhole : whole ≠ []) {exponent : Option (Bool × JsString)}
    (hexponent : ∀ part, exponent = some part → Digits part.2) : Parts whole fraction exponent := by
  have hall := h.all
  rw [hsplit,List.all_append,Bool.and_eq_true] at hall
  refine ⟨⟨hwhole,hall.1⟩,fun hzero => ?_,hall.2,hexponent⟩
  refine absurd ?_ hleading
  rw [hsplit,List.head?_append,hzero]
  rfl

theorem laidOut_layout {digits count : ℕ} (hcount : 1 ≤ count) (hlow : 10^(count-1) ≤ digits) (hhigh : digits < 10^count)
    (place : ℤ) : LaidOut digits (place-count) (layout (natText digits) place) := by
  have hpositive : digits ≠ 0 := by
    have hpos : 0 < 10^(count-1) := by positivity
    omega
  have hlength : (natText digits).length = count := by
    have hlast : count-1+1 = count := by omega
    have hplaces := @natText_length digits (count-1) hlow (by rw [hlast]; exact hhigh)
    omega
  have hdigits := digits_natText digits
  have hvalue := digitsValue_natText digits
  have hleading : (natText digits).head? ≠ some (unit '0') := by
    intro hhead
    rw [natText_leading digits hhead] at hvalue
    exact hpositive hvalue.symm
  unfold layout
  rw [hlength]
  split
  · rename_i hroom
    have hzeros := natText_mul_pow hpositive (place-count).toNat
    refine ⟨natText (digits*10^(place-count).toNat),[],none,?_,?_,fun negative => ?_⟩
    · rw [hzeros]
      exact (List.append_nil _).symm
    · exact ⟨digits_natText _,natText_leading _,rfl,fun _ hpart => nomatch hpart⟩
    · have hmore : digits*10^(place-count).toNat ≠ 0 := Nat.mul_ne_zero hpositive (by positivity)
      have hdown : down (place-count) = 0 := by
        unfold down
        omega
      rw [List.append_nil,digitsValue_natText]
      unfold scaledDigits
      rw [if_neg hmore,if_neg hpositive,hdown]
      exact congrArg (ofRatio negative · 1) (Nat.mul_one _)
  · split
    · rename_i hover hroom
      have hbefore : place.toNat < count := by omega
      have hwhole : (natText digits).take place.toNat ≠ [] := by
        refine List.ne_nil_of_length_pos ?_
        rw [List.length_take,hlength]
        omega
      have hfraction : (natText digits).drop place.toNat ≠ [] := by
        refine List.ne_nil_of_length_pos ?_
        rw [List.length_drop,hlength]
        omega
      refine ⟨(natText digits).take place.toNat,(natText digits).drop place.toNat,none,?_,
        parts_split hdigits hleading (List.take_append_drop _ _).symm hwhole (fun _ hpart => nomatch hpart),fun negative => ?_⟩
      · rw [fractionText,if_neg hfraction,exponentText,List.append_nil]
      · have hscale : exponentValue none-((natText digits).drop place.toNat).length = place-count := by
          rw [List.length_drop,hlength,exponentValue]
          omega
        rw [hscale,List.take_append_drop,hvalue]
    · split
      · rename_i hover hinside hsmall
        have hfraction : List.replicate (-place).toNat (unit '0')++natText digits ≠ [] :=
          List.append_ne_nil_of_right_ne_nil _ hdigits.nonempty
        refine ⟨[unit '0'],List.replicate (-place).toNat (unit '0')++natText digits,none,?_,?_,fun negative => ?_⟩
        · rw [fractionText,if_neg hfraction,exponentText,List.append_nil,List.append_assoc]
          rfl
        · refine ⟨⟨List.cons_ne_nil _ _,by decide⟩,fun _ => rfl,?_,fun _ hpart => nomatch hpart⟩
          rw [List.all_append,hdigits.all,Bool.and_true,List.all_replicate]
          split
          · rfl
          · decide
        · have hscale : exponentValue none-(List.replicate (-place).toNat (unit '0')++natText digits).length =
              place-count := by
            rw [List.length_append,List.length_replicate,hlength,exponentValue]
            omega
          have hzeros : digitsValue ([unit '0']++(List.replicate (-place).toNat (unit '0')++natText digits)) = digits :=
            (digitsValue_zeros (-place).toNat (natText digits)).trans hvalue
          rw [hscale,hzeros]
      · rename_i hover hinside hsmall
        have hwhole : (natText digits).take 1 ≠ [] := by
          refine List.ne_nil_of_length_pos ?_
          rw [List.length_take,hlength]
          omega
        have hfraction : (if (natText digits).length = 1 then [] else unit '.'::(natText digits).drop 1) =
            fractionText ((natText digits).drop 1) := by
          unfold fractionText
          by_cases hone : (natText digits).length = 1
          · rw [if_pos hone,if_pos (List.drop_eq_nil_of_le (by omega))]
          · have hmore : (natText digits).drop 1 ≠ [] := by
              refine List.ne_nil_of_length_pos ?_
              rw [List.length_drop]
              omega
            rw [if_neg hone,if_neg hmore]
        refine ⟨(natText digits).take 1,(natText digits).drop 1,some (!decide (0 < place),natText (place-1).natAbs),?_,
          parts_split hdigits hleading (List.take_append_drop _ _).symm hwhole fun part hpart => ?_,fun negative => ?_⟩
        · rw [← hfraction,hlength,List.append_assoc]
          by_cases hsign : 0 < place
          · rw [if_pos hsign,decide_eq_true hsign]
            rfl
          · rw [if_neg hsign,decide_eq_false hsign]
            rfl
        · cases hpart
          exact digits_natText _
        · have hscale : exponentValue (some (!decide (0 < place),natText (place-1).natAbs))-
              ((natText digits).drop 1).length = place-count := by
            rw [List.length_drop,hlength,exponentValue,digitsValue_natText]
            by_cases hsign : 0 < place
            · rw [decide_eq_true hsign]
              rw [Bool.not_true,if_neg Bool.false_ne_true]
              omega
            · rw [decide_eq_false hsign]
              rw [Bool.not_false,if_pos rfl]
              omega
          rw [hscale,List.take_append_drop,hvalue]

/-- Bits of the nearest double of a positive ratio, before infinity caps them. -/
def magnitude (num den : ℕ) : ℕ :=
  let scale := max (binaryExponent num den-52) (-1074)
  (scale+1075).toNat*2^52+roundHalfEven (num*2^down scale) (den*2^up scale)-2^52

/-- A positive ratio is its magnitude under its sign. -/
theorem ofRatio_magnitude {num : ℕ} (hnum : num ≠ 0) (den : ℕ) (negative : Bool) : ofRatio negative num den =
      ⟨((if negative then 2^63 else 0)+min (magnitude num den) 0x7ff0000000000000).toUInt64⟩ := by
  unfold ofRatio magnitude
  rw [if_neg hnum]

/-- Capped magnitudes are told apart by their bits. -/
theorem capped_injective {first second : ℕ}
    (h : (min first 0x7ff0000000000000).toUInt64 = (min second 0x7ff0000000000000).toUInt64) :
    min first 0x7ff0000000000000 = min second 0x7ff0000000000000 := by
  have hbits := congrArg UInt64.toNat h
  have hleft : (min first 0x7ff0000000000000).toUInt64.toNat = min first 0x7ff0000000000000 :=
    UInt64.toNat_ofNat_of_lt' (lt_of_le_of_lt (min_le_right _ _) (by decide))
  have hright : (min second 0x7ff0000000000000).toUInt64.toNat = min second 0x7ff0000000000000 :=
    UInt64.toNat_ofNat_of_lt' (lt_of_le_of_lt (min_le_right _ _) (by decide))
  rwa [hleft,hright] at hbits

/-- Digits that read back as a ratio do so with either sign. -/
theorem ofRatio_sign {num den other divisor : ℕ} (hnum : num ≠ 0) (hother : other ≠ 0)
    (h : ofRatio false num den = ofRatio false other divisor) (negative : Bool) :
    ofRatio negative num den = ofRatio negative other divisor := by
  rw [ofRatio_magnitude hnum,ofRatio_magnitude hother] at h ⊢
  rw [if_neg Bool.false_ne_true,Nat.zero_add,Nat.zero_add] at h
  have hcapped := capped_injective (congrArg bits h)
  rw [hcapped]

/-- Digits, signs, points and exponents are no surrogates. -/
theorem paired_units {text : JsString} (h : ∀ u ∈ text, isSurrogate u = false) : Paired text := by
  induction text with
  | nil => exact .nil
  | cons u rest ih =>
    have hrest := ih fun v hv => h v (List.mem_cons_of_mem _ hv)
    exact .single u rest (h u List.mem_cons_self) hrest

theorem isSurrogate_digit {u : UInt16} (h : Json.isDigit u = true) : isSurrogate u = false := by
  unfold Json.isDigit at h
  rw [Bool.and_eq_true,decide_eq_true_eq,decide_eq_true_eq] at h
  simp only [isSurrogate,isHigh,isLow,Bool.or_eq_false_iff,Bool.and_eq_false_iff,decide_eq_false_iff_not]
  omega

theorem paired_digits {digits : JsString} (h : digits.all Json.isDigit = true) : Paired digits :=
  paired_units fun u hu => isSurrogate_digit (List.all_eq_true.mp h u hu)

/-- The text of a number in its parts is well formed. -/
theorem Parts.paired {whole fraction : JsString} {exponent : Option (Bool × JsString)}
    (h : Parts whole fraction exponent) (negative : Bool) : Paired (numberText negative whole fraction exponent) := by
  have hsign : Paired (signText negative) := by
    cases negative with
    | true => exact .single _ _ (by decide) .nil
    | false => exact .nil
  have hfraction : Paired (fractionText fraction) := by
    unfold fractionText
    split
    · exact .nil
    · exact .single _ _ (by decide) (paired_digits h.fractionDigits)
  have hexponent : Paired (exponentText exponent) := by
    cases exponent with
    | none => exact .nil
    | some part =>
      obtain ⟨sign,digits⟩ := part
      have hdigits := paired_digits (h.exponentDigits _ rfl).all
      cases sign with
      | true => exact .single _ _ (by decide) (.single _ _ (by decide) hdigits)
      | false => exact .single _ _ (by decide) (.single _ _ (by decide) hdigits)
  exact hsign.append ((paired_digits h.wholeDigits.all).append (hfraction.append hexponent))

/-- A number in its parts is a literal. -/
theorem Parts.literal {whole fraction : JsString} {exponent : Option (Bool × JsString)}
    (h : Parts whole fraction exponent) (negative : Bool) : Literal (numberText negative whole fraction exponent) := by
  refine ⟨?_,fun _ htail => h.readNumber negative htail,h.paired negative⟩
  cases negative with
  | true => exact ⟨_,_,rfl,.inl rfl⟩
  | false =>
    have hall := h.wholeDigits.all
    cases hwhole : whole with
    | nil => exact absurd hwhole h.wholeDigits.nonempty
    | cons u rest =>
      rw [hwhole,List.all_cons,Bool.and_eq_true] at hall
      exact ⟨u,_,rfl,.inr hall.1⟩

theorem isNaN_finite {x : JsNumber} (h : x.isFinite = true) : x.isNaN = false := by
  unfold isNaN
  rw [h]
  rfl

/-- The text of a finite number other than the zeros is laid out from the digits that read back as it. -/
theorem text_parts {x : JsNumber} (hfinite : x.isFinite = true) (hzero : x ≠ zero) (hnegative : x ≠ negativeZero) :
    ∃ whole fraction exponent, x.text = numberText x.isNegative whole fraction exponent ∧
      Parts whole fraction exponent ∧
        scaledDigits x.isNegative (digitsValue (whole++fraction)) (exponentValue exponent-fraction.length) = x := by
  obtain ⟨m,s,hm,hratio,_⟩ := canonical_ratio hfinite hzero hnegative
  obtain ⟨⟨digits,place⟩,hfound⟩ := shortest_found hm
  obtain ⟨count,hcount,hlow,hhigh,hread⟩ := shortest_spec hfound
  obtain ⟨whole,fraction,exponent,hlayout,hparts,hvalue⟩ := (laidOut_layout hcount hlow hhigh place).parts
  have hback := ofRatio_ratio hfinite hzero hnegative
  rw [hratio] at hback
  have hpos := hm.pos
  have hdigits : digits ≠ 0 := by
    have hpower : 0 < 10^(count-1) := by positivity
    omega
  have hnum : digits*10^up (place-count) ≠ 0 := Nat.mul_ne_zero hdigits (by positivity)
  have hother : m*2^up s ≠ 0 := Nat.mul_ne_zero (by omega) (by positivity)
  refine ⟨whole,fraction,exponent,?_,hparts,?_⟩
  · unfold text
    rw [isNaN_finite hfinite,hfinite,hratio,hfound,if_neg Bool.false_ne_true]
    dsimp only
    rw [if_neg (by decide),if_neg (not_or.mpr ⟨hzero,hnegative⟩)]
    unfold numberText
    rw [← hlayout]
    cases hsign : x.isNegative with
    | true => rfl
    | false => rfl
  · rw [hvalue]
    unfold scaledDigits
    rw [if_neg hdigits,ofRatio_sign hnum hother hread]
    exact hback

/-- Zero is written alone. -/
theorem parts_zero : Parts [unit '0'] [] none :=
  ⟨⟨List.cons_ne_nil _ _,by decide⟩,fun _ => rfl,rfl,fun _ hpart => nomatch hpart⟩

/-- The text of a finite number is a number literal. -/
theorem literal_text {x : JsNumber} (h : x.isFinite = true) : Literal x.text := by
  by_cases hzero : x = zero
  · rw [hzero]
    exact parts_zero.literal false
  · by_cases hnegative : x = negativeZero
    · rw [hnegative]
      exact parts_zero.literal false
    · obtain ⟨whole,fraction,exponent,htext,hparts,_⟩ := text_parts h hzero hnegative
      rw [htext]
      exact hparts.literal x.isNegative

/-- A finite number is read back from its text; negative zero is read as zero. -/
theorem ofLiteral_text {x : JsNumber} (h : x.isFinite = true) (hnegative : x ≠ negativeZero) :
    ofLiteral x.text = x := by
  by_cases hzero : x = zero
  · rw [hzero]
    exact parts_zero.ofLiteral false
  · obtain ⟨whole,fraction,exponent,htext,hparts,hvalue⟩ := text_parts h hzero hnegative
    rw [htext,hparts.ofLiteral]
    exact hvalue

end Values

end Baileyrs.JsNumber
