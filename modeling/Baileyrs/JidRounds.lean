import Baileyrs.JidParts
import Baileyrs.JsNumberReading

/-!
# Round trips of JIDs

What is written as a JID is read back in the same parts. A number is read back from its
text, infinite or not, and its text has none of the marks between the parts. A device
moves from one JID to another like this.
-/

namespace Baileyrs

open JsString AtomicStore

namespace JsNumber

section Units

/-- A unit of the text of a finite number. -/
def isNumeric (u : UInt16) : Bool := Json.isDigit u || [unit '-',unit '+',unit '.',unit 'e'].contains u

theorem isNumeric_digit {u : UInt16} (h : Json.isDigit u = true) : isNumeric u = true := by
  rw [isNumeric,h,Bool.true_or]

/-- No blank is part of a number. -/
theorem isSpace_numeric {u : UInt16} (h : isNumeric u = true) : isSpace u = false := by
  unfold isNumeric at h
  rw [Bool.or_eq_true,List.contains_iff_mem] at h
  cases h with
  | inl hdigit => exact isSpace_digit hdigit
  | inr hmark =>
    have hall : [unit '-',unit '+',unit '.',unit 'e'].all (fun v => !isSpace v) = true := by decide
    have hspace := List.all_eq_true.mp hall u hmark
    rwa [Bool.not_eq_true'] at hspace

variable {text : JsString}

theorem dropWhile_numeric (h : text.all isNumeric = true) : text.dropWhile isSpace = text := by
  cases text with
  | nil => rfl
  | cons u rest =>
    rw [List.all_cons,Bool.and_eq_true] at h
    rw [List.dropWhile_cons,isSpace_numeric h.1]
    rfl

/-- Nothing is trimmed from the text of a number. -/
theorem trimmed_numeric (h : text.all isNumeric = true) :
    ((text.dropWhile isSpace).reverse.dropWhile isSpace).reverse = text := by
  have hreverse : text.reverse.all isNumeric = true := by rwa [List.all_reverse]
  rw [dropWhile_numeric h,dropWhile_numeric hreverse,List.reverse_reverse]

theorem notMem_numeric (h : text.all isNumeric = true) {u : UInt16} (hu : isNumeric u = false) : u ∉ text := by
  intro hmem
  have hnumeric := List.all_eq_true.mp h u hmem
  rw [hu] at hnumeric
  cases hnumeric

/-- All units of a number in its parts are numeric. -/
theorem Parts.numeric {whole fraction : JsString} {exponent : Option (Bool × JsString)}
    (h : Parts whole fraction exponent) (negative : Bool) :
    (numberText negative whole fraction exponent).all isNumeric = true := by
  have hdigits : ∀ {digits : JsString}, digits.all Json.isDigit = true → digits.all isNumeric = true := fun hall =>
    List.all_eq_true.mpr fun u hu => isNumeric_digit (List.all_eq_true.mp hall u hu)
  have hsign : (signText negative).all isNumeric = true := by
    cases negative with
    | true => decide
    | false => rfl
  have hfraction : (fractionText fraction).all isNumeric = true := by
    unfold fractionText
    split
    · rfl
    · rw [List.all_cons,hdigits h.fractionDigits]
      decide
  have hexponent : (exponentText exponent).all isNumeric = true := by
    cases exponent with
    | none => rfl
    | some part =>
      obtain ⟨negative,digits⟩ := part
      have hpart := hdigits (h.exponentDigits _ rfl).all
      cases negative with
      | true =>
        rw [exponentText,List.all_cons,if_pos rfl,List.all_cons,hpart]
        decide
      | false =>
        rw [exponentText,List.all_cons,if_neg Bool.false_ne_true,List.all_cons,hpart]
        decide
  rw [numberText,List.all_append,List.all_append,List.all_append,hsign,hdigits h.wholeDigits.all,hfraction,hexponent]
  rfl

/-- Either sign is split off from digits. -/
theorem readSign_signText (negative : Bool) {digits : JsString} (h : Digits digits) (tail : JsString) :
    Json.readOptional [unit '+',unit '-'] (signText negative++(digits++tail)) = (signText negative,digits++tail) := by
  cases negative with
  | true => rfl
  | false => exact readOptional_digits_append (by decide) h tail

/-- A number in its parts is decimal. -/
theorem Parts.isDecimal {whole fraction : JsString} {exponent : Option (Bool × JsString)}
    (h : Parts whole fraction exponent) : isDecimal (whole++(fractionText fraction++exponentText exponent)) = true := by
  have hstops : Stops (exponentText exponent) := by
    intro u hu
    cases exponent with
    | none => cases hu
    | some part =>
      cases hu
      decide
  have hnonempty : whole.isEmpty = false := by
    rw [List.isEmpty_eq_false_iff]
    exact h.wholeDigits.nonempty
  have hpoint : ∀ u, (exponentText exponent).head? = some u → u ∉ [unit '.'] := by
    intro u hu
    cases exponent with
    | none => cases hu
    | some part =>
      cases hu
      decide
  have hend : ∀ front : JsString, (!(whole.isEmpty && front.isEmpty) &&
      (if (Json.readOptional [unit 'e',unit 'E'] (exponentText exponent)).1 = [] then
        (Json.readOptional [unit 'e',unit 'E'] (exponentText exponent)).2.isEmpty
      else
        !(Json.readOptional [unit '+',unit '-'] (Json.readOptional [unit 'e',unit 'E'] (exponentText exponent)).2).2.isEmpty &&
          (Json.readOptional [unit '+',unit '-'] (Json.readOptional [unit 'e',unit 'E'] (exponentText exponent)).2).2.all
            Json.isDigit)) = true := by
    intro front
    rw [hnonempty,Bool.false_and,Bool.not_false,Bool.true_and]
    cases exponent with
    | none => rfl
    | some part =>
      obtain ⟨negative,digits⟩ := part
      have hdigits := h.exponentDigits _ rfl
      have hread : Json.readOptional [unit '+',unit '-'] ((if negative then unit '-' else unit '+')::digits) =
          ([if negative then unit '-' else unit '+'],digits) := by
        refine readOptional_accepted ?_ digits
        cases negative with
        | true => decide
        | false => decide
      rw [exponentText,readOptional_accepted List.mem_cons_self]
      dsimp only
      rw [if_neg (List.cons_ne_nil _ _),hread,hdigits.all,List.isEmpty_eq_false_iff.mpr hdigits.nonempty]
      rfl
  unfold JsNumber.isDecimal
  rw [span_stops h.wholeDigits.all (stops_fraction fraction hstops)]
  dsimp only
  by_cases hfraction : fraction = []
  · subst hfraction
    have hnone : fractionText [] = [] := rfl
    rw [hnone,List.nil_append,readOptional_other hpoint]
    dsimp only
    rw [if_pos rfl]
    exact hend []
  · have hsome : fractionText fraction = unit '.'::fraction := if_neg hfraction
    rw [hsome,List.cons_append,readOptional_accepted List.mem_cons_self]
    dsimp only
    rw [if_neg (List.cons_ne_nil _ _),span_stops h.fractionDigits hstops]
    exact hend fraction

/-- A number in its parts has no mark of another base behind its first unit. -/
theorem second_numeric {u v : UInt16} {rest : JsString} (hv : isNumeric v = false) :
    (u::v::rest).all isNumeric ≠ true := by
  rw [List.all_cons,List.all_cons,hv,Bool.false_and,Bool.and_false]
  exact Bool.false_ne_true

/-- A number in its parts is read like a literal. -/
theorem Parts.ofText {whole fraction : JsString} {exponent : Option (Bool × JsString)}
    (h : Parts whole fraction exponent) (negative : Bool) :
    ofText (numberText negative whole fraction exponent) = JsNumber.ofLiteral (numberText negative whole fraction exponent) := by
  have hall := h.numeric negative
  have htrimmed := trimmed_numeric hall
  have hsign := readSign_signText negative h.wholeDigits (fractionText fraction++exponentText exponent)
  have hmagnitude : whole++(fractionText fraction++exponentText exponent) ≠ ofString "Infinity" := by
    intro heq
    have hdigits := h.wholeDigits
    cases whole with
    | nil => exact hdigits.nonempty rfl
    | cons u rest =>
      have hdigit := hdigits.all
      have hu : u = unit 'I' := congrArg (fun l : JsString => l.headD 0) heq
      have hno : Json.isDigit (unit 'I') = false := by decide
      rw [List.all_cons,hu,hno,Bool.false_and] at hdigit
      cases hdigit
  have hnonempty : numberText negative whole fraction exponent ≠ [] := by
    intro heq
    have hlength := congrArg List.length heq
    have hwhole := List.length_pos_iff.mpr h.wholeDigits.nonempty
    rw [numberText,List.length_append,List.length_append,List.length_nil] at hlength
    omega
  have hsigned : (if signText negative = [unit '-'] then unit '-'::(whole++(fractionText fraction++exponentText exponent))
      else whole++(fractionText fraction++exponentText exponent)) = numberText negative whole fraction exponent := by
    cases negative with
    | true => rfl
    | false => rfl
  unfold JsNumber.ofText
  dsimp only
  rw [htrimmed]
  generalize htext : numberText negative whole fraction exponent = text at *
  have hread : Json.readOptional [unit '+',unit '-'] text =
      (signText negative,whole++(fractionText fraction++exponentText exponent)) := by
    rw [← htext]
    exact hsign
  rw [hread]
  dsimp only
  rw [if_neg hnonempty,if_neg hmagnitude]
  split
  · exact absurd hall (second_numeric (by decide))
  · exact absurd hall (second_numeric (by decide))
  · exact absurd hall (second_numeric (by decide))
  · exact absurd hall (second_numeric (by decide))
  · exact absurd hall (second_numeric (by decide))
  · exact absurd hall (second_numeric (by decide))
  · rw [h.isDecimal,if_pos rfl,hsigned]

end Units

section Readback

variable {x : JsNumber}

/-- Neither infinity is finite, and there are no others. -/
theorem infinite_cases (hfinite : x.isFinite = false) (hnan : x.isNaN = false) : x = infinity ∨ x = negativeInfinity := by
  obtain ⟨bits⟩ := x
  unfold isNaN at hnan
  rw [hfinite] at hnan
  unfold isFinite at hfinite
  simp only [Bool.not_false,Bool.true_and,bne_eq_false_iff_eq] at hfinite hnan
  have hhigh : bits.toNat/0x10000000000000%0x800 = 0x7ff := by simpa using congrArg UInt64.toNat hfinite
  have hlow : bits.toNat%0x10000000000000 = 0 := by simpa using congrArg UInt64.toNat hnan
  have hbound := bits.toNat_lt
  have hvalue : bits.toNat = 0x7ff0000000000000 ∨ bits.toNat = 0xfff0000000000000 := by omega
  cases hvalue with
  | inl hvalue => exact .inl (congrArg JsNumber.mk (UInt64.toNat_inj.mp hvalue))
  | inr hvalue => exact .inr (congrArg JsNumber.mk (UInt64.toNat_inj.mp hvalue))

/-- A number other than negative zero is read back from its text. -/
theorem ofText_text (hnan : x.isNaN = false) (hnegative : x ≠ negativeZero) : ofText x.text = x := by
  by_cases hfinite : x.isFinite = true
  · by_cases hzero : x = zero
    · rw [hzero]
      exact (parts_zero.ofText false).trans (parts_zero.ofLiteral false)
    · obtain ⟨whole,fraction,exponent,htext,hparts,hvalue⟩ := text_parts hfinite hzero hnegative
      rw [htext,hparts.ofText,hparts.ofLiteral]
      exact hvalue
  · rw [Bool.not_eq_true] at hfinite
    cases infinite_cases hfinite hnan with
    | inl h =>
      rw [h]
      decide
    | inr h =>
      rw [h]
      decide

/-- What is in no text of a number. -/
theorem notMem_text {u : UInt16} (hnumeric : isNumeric u = false) (hword : u ∉ ofString "-InfinityNaN") : u ∉ x.text := by
  by_cases hfinite : x.isFinite = true
  · by_cases hzero : x = zero
    · rw [hzero]
      exact notMem_numeric (parts_zero.numeric false) hnumeric
    · by_cases hnegative : x = negativeZero
      · rw [hnegative]
        exact notMem_numeric (parts_zero.numeric false) hnumeric
      · obtain ⟨whole,fraction,exponent,htext,hparts,_⟩ := text_parts hfinite hzero hnegative
        rw [htext]
        exact notMem_numeric (hparts.numeric x.isNegative) hnumeric
  · rw [Bool.not_eq_true] at hfinite
    refine fun hmem => hword ?_
    cases hnan : x.isNaN with
    | true =>
      rw [text,hnan,if_pos rfl] at hmem
      exact List.mem_append_right (ofString "-Infinity") hmem
    | false =>
      cases infinite_cases hfinite hnan with
      | inl h =>
        rw [h] at hmem
        exact List.mem_append_left (ofString "NaN") (List.mem_cons_of_mem (unit '-') hmem)
      | inr h =>
        rw [h] at hmem
        exact List.mem_append_left (ofString "NaN") hmem

theorem text_ne_nil (hnan : x.isNaN = false) (hzero : x ≠ zero) (hnegative : x ≠ negativeZero) : x.text ≠ [] := by
  intro heq
  have hback := ofText_text hnan hnegative
  rw [heq] at hback
  exact hzero hback.symm

/-- The digits of an integer are read as the integer. -/
theorem parseInt_natText (n : ℕ) : parseInt (natText n) = ofRatio false n 1 := by
  have hall := isDigit_natText n
  have hread := @readOptional_digits (natText n) [unit '+',unit '-'] hall (by decide)
  have hvalues : ((natText n).map (digitIn 10)) = (natText n).map fun u => some (u.toNat-48) := by
    refine List.map_congr_left fun u hu => ?_
    have hbounds := digit_bounds (List.all_eq_true.mp hall u hu)
    have hvalue : Json.hexValue u = some (u.toNat-48) := if_pos hbounds
    rw [digitIn,hvalue,Option.filter_some,if_pos]
    rw [decide_eq_true_eq]
    omega
  have htake : (((natText n).map fun u => some (u.toNat-48)).takeWhile Option.isSome).filterMap id =
      (natText n).map fun u => u.toNat-48 := by
    rw [List.takeWhile_eq_self_iff.mpr]
    · rw [List.filterMap_map]
      exact congrFun List.filterMap_eq_map _
    · intro value hvalue
      obtain ⟨u,_,rfl⟩ := List.mem_map.mp hvalue
      rfl
  have hnonempty : (natText n).map (fun u => u.toNat-48) ≠ [] := by
    rw [Ne,List.map_eq_nil_iff]
    exact (digits_natText n).nonempty
  have hvalue : ((natText n).map fun u => u.toNat-48).foldl (fun n d => n*10+d) 0 = n := by
    rw [List.foldl_map]
    exact ofDigits_natText n
  unfold parseInt
  rw [dropWhile_digits hall,hread]
  dsimp only
  split
  · rename_i rest hbase
    rw [hbase] at hall
    exact absurd hall (second_digit rfl)
  · rename_i rest hbase
    rw [hbase] at hall
    exact absurd hall (second_digit rfl)
  · dsimp only
    rw [hvalues,htake,if_neg hnonempty,hvalue]
    rfl

end Readback

end JsNumber

namespace SignalRouting

open JsNumber TextSearch

section Marks

/-- What is left of a number that is written where it counts as true: nothing of a zero. -/
def given (x : Option JsNumber) : Option JsNumber := x.filter fun y => isGiven (some y)

variable {x : Option JsNumber} {number : JsNumber}

theorem given_some (h : given x = some number) : x = some number ∧ isGiven (some number) = true := by
  rw [given,Option.filter_eq_some_iff] at h
  exact h

theorem markedNumber_given (mark : UInt16) (h : given x = some number) : markedNumber mark x = mark::number.text := by
  obtain ⟨rfl,hgiven⟩ := given_some h
  exact if_pos hgiven

theorem markedNumber_none (mark : UInt16) (h : given x = none) : markedNumber mark x = [] := by
  cases x with
  | none => rfl
  | some number =>
    rw [given,Option.filter_eq_none_iff] at h
    exact if_neg (h number rfl)

/-- What is in no number and is not the mark is in no marked number. -/
theorem notMem_markedNumber {u mark : UInt16} (hmark : u ≠ mark) (hnumeric : isNumeric u = false)
    (hword : u ∉ ofString "-InfinityNaN") : u ∉ markedNumber mark x := by
  cases h : given x with
  | none =>
    rw [markedNumber_none mark h]
    exact List.not_mem_nil
  | some number =>
    rw [markedNumber_given mark h,List.mem_cons,not_or]
    exact ⟨hmark,notMem_text hnumeric hword⟩

/-- A marked number is split off from what is before it. -/
theorem splitOn_marked {u : UInt16} {front : JsString} (hfront : u ∉ front) (hnumeric : isNumeric u = false)
    (hword : u ∉ ofString "-InfinityNaN") : (splitOn [u] (front++markedNumber u x))[0]? = some front ∧
      (splitOn [u] (front++markedNumber u x))[1]? = (given x).map text := by
  cases h : given x with
  | none =>
    rw [markedNumber_none u h,List.append_nil,splitOn_single hfront]
    exact ⟨rfl,rfl⟩
  | some number =>
    have hno : u ∉ number.text := notMem_text hnumeric hword
    have hsplit := @splitOn_append UInt16 _ u [] front hfront number.text
    rw [List.singleton_append,splitOn_single hno] at hsplit
    rw [markedNumber_given u h,hsplit]
    exact ⟨rfl,rfl⟩

/-- A number that counts is read back. -/
theorem given_read : (((given x).map text).filter (· ≠ [])).map ofText = given x := by
  cases h : given x with
  | none => rfl
  | some number =>
    have hgiven := (given_some h).2
    unfold isGiven at hgiven
    simp only [Bool.and_eq_true,Bool.not_eq_true',decide_eq_true_eq] at hgiven
    obtain ⟨hnan,hzero,hnegative⟩ := hgiven
    rw [Option.map_some,Option.filter_some,if_pos (decide_eq_true (text_ne_nil hnan hzero hnegative)),Option.map_some,
      ofText_text hnan hnegative]

/-- A positive integer counts. -/
theorem given_nat {n : ℕ} (hn : n ≠ 0) (hsafe : n < 2^53) : given (some (ofRatio false n 1)) = some (ofRatio false n 1) := by
  obtain ⟨hfinite,_,hzero,hnegative⟩ := isFinite_ofRatio hn hsafe
  have hgiven : isGiven (some (ofRatio false n 1)) = true := by
    unfold isGiven
    dsimp only
    rw [isNaN_finite hfinite,decide_eq_true hzero,decide_eq_true hnegative]
    rfl
  rw [given,Option.filter_some,if_pos hgiven]

end Marks

section Rounds

variable {user server : JsString} {agent : Option ℕ}

/-- What is written as a JID is read back in its parts. -/
theorem jidDecode_jidEncode (hat : unit '@' ∉ user) (hcolon : unit ':' ∉ user) (hscore : unit '_' ∉ user)
    (server : JsString) (device agent : Option JsNumber) : jidDecode (jidEncode user server device agent) =
      some ⟨server,user,jidDomainType server ((given agent).map text),given device⟩ := by
  have hleft : unit '@' ∉ user++(markedNumber (unit '_') agent++markedNumber (unit ':') device) := by
    rw [List.mem_append,List.mem_append,not_or,not_or]
    exact ⟨hat,notMem_markedNumber (by decide) (by decide) (by decide),
      notMem_markedNumber (by decide) (by decide) (by decide)⟩
  have hfront : unit ':' ∉ user++markedNumber (unit '_') agent := by
    rw [List.mem_append,not_or]
    exact ⟨hcolon,notMem_markedNumber (by decide) (by decide) (by decide)⟩
  obtain ⟨hhalf,hdevice⟩ := @splitOn_marked device (unit ':') _ hfront (by decide) (by decide)
  obtain ⟨huser,hagent⟩ := @splitOn_marked agent (unit '_') user hscore (by decide) (by decide)
  have hwritten : jidEncode user server device agent =
      (user++(markedNumber (unit '_') agent++markedNumber (unit ':') device))++unit '@'::server := by
    rw [jidEncode,List.append_assoc,List.append_assoc]
  have hdrop := @List.drop_left UInt16 (user++(markedNumber (unit '_') agent++markedNumber (unit ':') device))
    (unit '@'::server)
  rw [List.append_assoc] at hhalf hdevice
  have hsplit := jidDecode_eq (some (jidEncode user server device agent))
  rw [Option.bind_some] at hsplit
  rw [hsplit,hwritten]
  change (indexOf (unit '@') _).bind _ = _
  rw [indexOf_append hleft,Option.bind_some,List.take_left]
  change (splitOn [unit ':'] _)[0]?.bind _ = _
  rw [hhalf,Option.bind_some]
  change (splitOn [unit '_'] _)[0]?.bind _ = _
  rw [huser,Option.bind_some,hagent,hdevice,given_read,← List.drop_drop,hdrop]
  rfl

/-- Type of the domain of a server; the agent for the servers that have none. -/
def domainNumber (server : JsString) (agent : Option ℕ) : ℕ :=
  if server = ofString "lid" then 1
  else if server = ofString "hosted" then 128
  else if server = ofString "hosted.lid" then 129
  else agent.getD 0

/-- The agent of a JID is read where the server leaves it. -/
theorem jidDomainType_agent (server : JsString) (h : ∀ n, agent = some n → 0 < n ∧ n < 2^53) :
    jidDomainType server ((given (agent.map fun n => ofRatio false n 1)).map text) =
      ofRatio false (domainNumber server agent) 1 := by
  unfold jidDomainType domainNumber
  split
  · rfl
  · split
    · rfl
    · split
      · rfl
      · cases agent with
        | none => rfl
        | some n =>
          obtain ⟨hpos,hsafe⟩ := h n rfl
          have hnonempty : natText n ≠ [] := (digits_natText n).nonempty
          rw [Option.map_some,given_nat hpos.ne' hsafe,Option.map_some,text_ofRatio hsafe]
          dsimp only
          rw [if_neg hnonempty,parseInt_natText,Option.getD_some]

/-- A device that is transferred is the one that is left of the other JID's. -/
theorem transferDevice_eq (fromJid : JsString) {toJid : JsString} {decoded : FullJid} (h : jidDecode toJid = some decoded) :
    ∃ device, transferDevice fromJid toJid = .ok (jidEncode decoded.user decoded.server device none) ∧
      given device = given ((jidDecode fromJid).bind (·.device)) := by
  refine ⟨some ((given ((jidDecode fromJid).bind (·.device))).getD .zero),?_,?_⟩
  · unfold transferDevice
    rw [h]
    rfl
  · cases hgiven : given ((jidDecode fromJid).bind (·.device)) with
    | none => decide
    | some number => rw [Option.getD_some,given,Option.filter_some,if_pos (given_some hgiven).2]

/-- What is written as a JID is read back: the user, the server, the device unless it is zero, and
the type of the domain that the server fixes, or else the agent. The device of a JID moves to the
user and the server of another one. -/
theorem jid_round_trip (hat : unit '@' ∉ user) (hcolon : unit ':' ∉ user) (hscore : unit '_' ∉ user)
    (server : JsString) (device : Option JsNumber) (hagent : ∀ n, agent = some n → 0 < n ∧ n < 2^53) :
    jidDecode (jidEncode user server device (agent.map fun n => ofRatio false n 1)) =
      some ⟨server,user,ofRatio false (domainNumber server agent) 1,given device⟩ ∧
    ∀ fromJid toJid decoded, jidDecode toJid = some decoded → decoded.user = user → decoded.server = server →
      ∃ jid, transferDevice fromJid toJid = .ok jid ∧
        jidDecode jid = some ⟨server,user,ofRatio false (domainNumber server none) 1,
          given ((jidDecode fromJid).bind (·.device))⟩ := by
  refine ⟨?_,fun fromJid toJid decoded hdecoded huser hserver => ?_⟩
  · rw [jidDecode_jidEncode hat hcolon hscore,jidDomainType_agent server hagent]
  · obtain ⟨device,htransfer,hdevice⟩ := transferDevice_eq fromJid hdecoded
    have htype := @jidDomainType_agent none server fun n hn => nomatch hn
    rw [huser,hserver] at htransfer
    refine ⟨_,htransfer,?_⟩
    rw [jidDecode_jidEncode hat hcolon hscore,hdevice]
    exact congrArg (fun domainType => some (FullJid.mk server user domainType _)) htype

/-- A hosted user with an agent and a device, and the device of a JID whose device is written in
another base. -/
theorem jid_round_trip_hosted :
    jidDecode (ofString "15550001_7:4@hosted") =
      some ⟨ofString "hosted",ofString "15550001",ofRatio false 128 1,some (ofRatio false 4 1)⟩ ∧
    ∃ jid, transferDevice (ofString "9:0x63@lid") (ofString "15550001_2:5@hosted") = .ok jid ∧
      jidDecode jid = some ⟨ofString "hosted",ofString "15550001",ofRatio false 128 1,some (ofRatio false 99 1)⟩ := by
  have hround := @jid_round_trip (ofString "15550001") (some 7) (by decide) (by decide) (by decide) (ofString "hosted")
    (some (ofRatio false 4 1)) fun n hn => by cases hn; decide
  exact ⟨hround.1,hround.2 (ofString "9:0x63@lid") (ofString "15550001_2:5@hosted") _ rfl rfl rfl⟩

end Rounds

end SignalRouting

end Baileyrs
