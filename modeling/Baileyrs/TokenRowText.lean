import Baileyrs.QuotedNumbers

/-!
# Token rows are read back as written

A token row is a JSON text whose numbers are integers. Before it is parsed a
second time, its numbers are quoted, so that a timestamp keeps all its digits.
Texts of integers, strings and distinct names are parsed back exactly, and
quoting the numbers of such a text gives the text of the same value with its
numbers as strings.
-/

namespace Baileyrs.AtomicStore

open JsString
open Json (Ends Literal Legible parse_legible paired_legible isDigit_ne skipBlanks_plain ends_cons)

/-- Last digit of a number after the digits before it. -/
theorem natText_step (n : ℕ) : natText n = (if n < 10 then [] else natText (n/10))++[(48+n%10).toUInt16] := by
  have hdigit : ∀ d, d < 10 → ofCodePoint (Nat.digitChar d).toNat = [(48+d).toUInt16] := by decide
  have htext : ∀ m, natText m = (Nat.toDigits 10 m).flatMap fun c => ofCodePoint c.toNat := by
    intro m
    rw [natText,ofString,Nat.toString_eq_ofList_toDigits,String.toList_ofList]
  rw [htext,htext,Nat.toDigits_eq_if (by omega)]
  split
  · rename_i hsmall
    rw [List.flatMap_singleton,hdigit n hsmall,Nat.mod_eq_of_lt hsmall,List.nil_append]
  · rw [List.flatMap_append,List.flatMap_singleton,hdigit _ (Nat.mod_lt _ (by omega))]

theorem toNat_digit (n : ℕ) : (48+n%10).toUInt16.toNat = 48+n%10 := toNat_toUInt16 (by omega)

/-- The digits of a number have its value. -/
theorem ofDigits_natText (n : ℕ) : ofDigits (natText n) = n := by
  induction n using Nat.strongRecOn with
  | ind n ih =>
    rw [natText_step]
    unfold ofDigits at ih ⊢
    rw [List.foldl_append,List.foldl_cons,List.foldl_nil,toNat_digit]
    split
    · rename_i hsmall
      rw [List.foldl_nil]
      omega
    · rw [ih (n/10) (by omega)]
      omega

/-- They are digits. -/
theorem isDigit_natText (n : ℕ) : (natText n).all Json.isDigit = true := by
  induction n using Nat.strongRecOn with
  | ind n ih =>
    have hlast : Json.isDigit (48+n%10).toUInt16 = true := by
      unfold Json.isDigit
      rw [toNat_digit,Bool.and_eq_true,decide_eq_true_eq,decide_eq_true_eq]
      omega
    rw [natText_step,List.all_append,List.all_cons,List.all_nil,hlast]
    split
    · rfl
    · rw [ih (n/10) (by omega)]
      rfl

/-- The first of them is zero only for zero. -/
theorem natText_head (n : ℕ) : ∃ u rest, natText n = u::rest ∧ Json.isDigit u = true ∧ (u = unit '0' → rest = []) := by
  induction n using Nat.strongRecOn with
  | ind n ih =>
    by_cases hsmall : n < 10
    · have hdigit := isDigit_natText n
      rw [natText_step,if_pos hsmall,List.nil_append] at hdigit ⊢
      rw [List.all_cons,Bool.and_eq_true] at hdigit
      exact ⟨_,[],rfl,hdigit.1,fun _ => rfl⟩
    · obtain ⟨u,rest,heq,hu,hzero⟩ := ih (n/10) (by omega)
      have hvalue := ofDigits_natText (n/10)
      rw [natText_step,if_neg hsmall,heq]
      refine ⟨u,_,rfl,hu,fun hz => ?_⟩
      rw [heq,hzero hz,hz] at hvalue
      have hten : ofDigits [unit '0'] = 0 := by decide
      omega

/-- Digits are read up to the end of the value. -/
theorem readDigits_natText (n : ℕ) {tail : JsString} (h : Ends tail) :
    Json.readDigits (natText n++tail) = some (natText n,tail) := by
  have hspan : ∀ digits : JsString, digits.all Json.isDigit = true →
      (digits++tail).span Json.isDigit = (digits,tail) := by
    intro digits hdigits
    have htail : tail.takeWhile Json.isDigit = [] ∧ tail.dropWhile Json.isDigit = tail := by
      cases tail with
      | nil => exact ⟨rfl,rfl⟩
      | cons u rest =>
        have hu := (h.head rfl).1
        exact ⟨by rw [List.takeWhile_cons,hu]; rfl,by rw [List.dropWhile_cons,hu]; rfl⟩
    have hall : ∀ u ∈ digits, Json.isDigit u = true := List.all_eq_true.mp hdigits
    rw [List.span_eq_takeWhile_dropWhile,List.takeWhile_append_of_pos hall,
      List.dropWhile_append_of_pos hall,htail.1,htail.2,List.append_nil]
  obtain ⟨u,rest,heq,_⟩ := natText_head n
  unfold Json.readDigits
  rw [hspan _ (isDigit_natText n),heq]

/-- Nothing optional is left before the end of the value. -/
theorem readPart_ends {tail : JsString} (h : Ends tail) (starts signs : List UInt16)
    (hstarts : ∀ u ∈ starts, u = unit '.' ∨ u = unit 'e' ∨ u = unit 'E') :
    Json.readPart starts signs tail = some ([],tail) := by
  have hoptional : Json.readOptional starts tail = ([],tail) := by
    cases tail with
    | nil => rfl
    | cons u rest =>
      have hu := (h.head rfl).2
      have hno : starts.contains u = false := by
        rw [Bool.eq_false_iff]
        intro hin
        rcases hstarts u (List.contains_iff_mem.mp hin) with hd | he | hE
        · exact hu.1 hd
        · exact hu.2.1 he
        · exact hu.2.2 hE
      rw [Json.readOptional,hno]
      rfl
  rw [Json.readPart,hoptional]

/-- Sign and digits of an integer. -/
theorem intText_eq (i : ℤ) : ∃ sign, intText i = sign++natText i.natAbs ∧ (sign = [] ∨ sign = [unit '-']) ∧
      (sign = [] ↔ 0 ≤ i) := by
  cases i with
  | ofNat n =>
    have htext : intText (Int.ofNat n) = natText n := by rw [intText]
    exact ⟨[],htext.trans (List.nil_append _).symm,.inl rfl,⟨fun _ => Int.natCast_nonneg n,fun _ => rfl⟩⟩
  | negSucc n =>
    refine ⟨[unit '-'],rfl,.inr rfl,⟨fun h => ?_,fun h => ?_⟩⟩
    · cases h
    · omega

/-- An integer starts with its sign or a digit. -/
theorem intText_head (i : ℤ) : ∃ u rest, intText i = u::rest ∧ (u = unit '-' ∨ Json.isDigit u = true) := by
  obtain ⟨sign,heq,hsign,_⟩ := intText_eq i
  obtain ⟨u,rest,hnat,hu,_⟩ := natText_head i.natAbs
  rw [heq,hnat]
  rcases hsign with rfl | rfl
  · exact ⟨u,rest,rfl,.inr hu⟩
  · exact ⟨unit '-',u::rest,rfl,.inl rfl⟩

/-- The sign is split off. -/
theorem readOptional_sign {sign : JsString} (h : sign = [] ∨ sign = [unit '-']) (n : ℕ) (tail : JsString) :
    Json.readOptional [unit '-'] (sign++natText n++tail) = (sign,natText n++tail) := by
  rcases h with rfl | rfl
  · obtain ⟨u,rest,heq,hu,_⟩ := natText_head n
    have hminus : u ≠ unit '-' := by
      rintro rfl
      revert hu
      decide
    have hno : [unit '-'].contains u = false := by
      rw [Bool.eq_false_iff]
      exact fun hin => hminus (List.mem_singleton.mp (List.contains_iff_mem.mp hin))
    rw [List.nil_append,heq,List.cons_append,Json.readOptional,hno]
    rfl
  · rfl

/-- An integer is read up to the end of the value. -/
theorem readNumber_intText (i : ℤ) {tail : JsString} (h : Ends tail) :
    Json.readNumber (intText i++tail) = some (intText i,tail) := by
  obtain ⟨sign,heq,hsign,_⟩ := intText_eq i
  have hfraction := readPart_ends h [unit '.'] [] (by simp)
  have hexponent := readPart_ends h [unit 'e',unit 'E'] [unit '+',unit '-'] (by simp)
  have hinteger : Json.readInteger (natText i.natAbs++tail) = some (natText i.natAbs,tail) := by
    have hdigits := readDigits_natText i.natAbs h
    obtain ⟨u,rest,hnat,_,hzero⟩ := natText_head i.natAbs
    rw [hnat] at hdigits ⊢
    rw [List.cons_append] at hdigits ⊢
    rw [Json.readInteger]
    split
    · rename_i hu
      rw [hzero hu]
      rfl
    · exact hdigits
  rw [heq,Json.readNumber,readOptional_sign hsign]
  dsimp only [bind,Option.bind]
  rw [hinteger]
  dsimp only
  rw [hfraction]
  dsimp only
  rw [hexponent]
  simp

/-- No code unit of an integer is a surrogate. -/
theorem paired_intText (i : ℤ) : Paired (intText i) := by
  have hlist : ∀ digits : JsString, digits.all Json.isDigit = true → Paired digits := by
    intro digits
    induction digits with
    | nil => exact fun _ => .nil
    | cons u rest ih =>
      intro hall
      rw [List.all_cons,Bool.and_eq_true] at hall
      refine .single u rest ?_ (ih hall.2)
      have hrange := hall.1
      unfold Json.isDigit at hrange
      rw [Bool.and_eq_true,decide_eq_true_eq,decide_eq_true_eq] at hrange
      simp only [isSurrogate,isHigh,isLow,Bool.or_eq_false_iff,Bool.and_eq_false_iff,
        decide_eq_false_iff_not]
      omega
  obtain ⟨sign,heq,hsign,_⟩ := intText_eq i
  have hdigits := hlist _ (isDigit_natText i.natAbs)
  rw [heq]
  rcases hsign with rfl | rfl
  · rw [List.nil_append]
    exact hdigits
  · exact .single (unit '-') _ (by decide) hdigits

/-- The text of an integer is a number literal. -/
theorem literal_intText (i : ℤ) : Literal (intText i) :=
  ⟨intText_head i,fun _ h => readNumber_intText i h,paired_intText i⟩

/-- Integers, strings, and arrays and objects of such values; names are distinct. -/
inductive Written : Json → Prop where
  | null : Written .null
  | integer (i : ℤ) : Written (.number (intText i))
  | string (text : JsString) : Written (.string text)
  | array (items : List Json) (h : ∀ item ∈ items, Written item) : Written (.array items)
  | object (members : List (JsString × Json)) (hnodup : (members.map Prod.fst).Nodup)
    (h : ∀ member ∈ members, Written member.2) : Written (.object members)

theorem Written.legible {value : Json} (h : Written value) : Legible value := by
  induction h with
  | null => exact .null
  | integer i => exact .number _ (literal_intText i)
  | string text => exact .string text
  | array items _ ih => exact .array items ih
  | object members hnodup _ ih => exact .object members hnodup ih

/-- A written value is read back. -/
theorem parse_written {value : Json} (h : Written value) : Json.parse value.stringify = some value :=
  parse_legible h.legible

/-- A written value is paired. -/
theorem paired_written {value : Json} (h : Written value) : Paired value.stringify := paired_legible h.legible

/-- Paired texts without a byte order mark survive their encoding. -/
theorem decodeUtf8_encodeUtf8 {u : UInt16} {rest : JsString} (h : Paired (u::rest)) (hmark : u ≠ 65279) :
    decodeUtf8 (encodeUtf8 (u::rest)) = u::rest := by
  have hread := readUtf8_encodeUtf8 h []
  rw [List.append_nil] at hread
  unfold decodeUtf8
  rw [hread]
  have hempty : readUtf8 none [] = [] := rfl
  rw [hempty,List.append_nil]
  exact if_neg hmark

/-- An integer of 64 bits. -/
def InI64 (i : ℤ) : Prop := -(2^63) ≤ i ∧ i < 2^63

/-- The text of a timestamp is read as the timestamp. -/
theorem signedTimestamp_intText {i : ℤ} (h : InI64 i) : signedTimestamp (intText i) = .ok i := by
  obtain ⟨sign,heq,hsign,hnonneg⟩ := intText_eq i
  have hread := readOptional_sign hsign i.natAbs []
  rw [List.append_nil,List.append_nil] at hread
  obtain ⟨u,rest,hnat,hu,hzero⟩ := natText_head i.natAbs
  have hcanonical : (natText i.natAbs).all Json.isDigit = true ∧ natText i.natAbs ≠ [] ∧
      ((natText i.natAbs).head? = some (unit '0') → (natText i.natAbs).length = 1) := by
    refine ⟨isDigit_natText _,?_,fun hhead => ?_⟩
    · rw [hnat]
      exact List.cons_ne_nil _ _
    · rw [hnat] at hhead ⊢
      cases hhead
      rw [hzero rfl]
      rfl
  have hvalue : (if sign = [] then (ofDigits (natText i.natAbs) : ℤ)
      else -ofDigits (natText i.natAbs)) = i := by
    rw [ofDigits_natText]
    split
    · rename_i hempty
      have hi := hnonneg.mp hempty
      omega
    · rename_i hsome
      have hi : ¬0 ≤ i := fun hpos => hsome (hnonneg.mpr hpos)
      omega
  have hrange : ¬(i < -(2^63) ∨ 2^63 ≤ i) := by
    unfold InI64 at h
    omega
  unfold signedTimestamp
  rw [heq,hread]
  dsimp only
  rw [if_pos hcanonical,hvalue,if_neg hrange]

/-- What a timestamp was read from is in range. -/
theorem inI64_signedTimestamp {text : JsString} {i : ℤ} (h : signedTimestamp text = .ok i) : InI64 i := by
  unfold signedTimestamp at h
  dsimp only at h
  split at h
  · generalize (if (Json.readOptional [unit '-'] text).1 = [] then
      (ofDigits (Json.readOptional [unit '-'] text).2 : ℤ)
      else -(ofDigits (Json.readOptional [unit '-'] text).2 : ℤ)) = result at h
    split at h
    · cases h
    · rename_i hrange
      cases h
      unfold InI64
      omega
  · cases h

/-- A row whose members can be written and read back. -/
structure ValidRow (row : TokenRow) : Prop where
  /-- The token consists of bytes. -/
  token : ∀ b ∈ row.token, b ≤ 255
  /-- The time it was received has 64 bits. -/
  received : InI64 row.token_timestamp
  /-- So has the time it was sent. -/
  sent : ∀ timestamp, row.sender_timestamp = some timestamp → InI64 timestamp

/-- Tree of the text of a row. -/
def rowTree (row : TokenRow) : Json :=
  .object [(ofString "token",.array (row.token.map fun n => .number (natText n))),
    (ofString "token_timestamp",.number (intText row.token_timestamp)),
    (ofString "sender_timestamp",
      row.sender_timestamp.elim .null fun timestamp => .number (intText timestamp))]

theorem written_rowTree (row : TokenRow) : Written (rowTree row) := by
  have hnames : [ofString "token",ofString "token_timestamp",ofString "sender_timestamp"].Nodup := by
    decide
  refine .object _ hnames fun member hmember => ?_
  simp only [List.mem_cons,List.not_mem_nil,or_false] at hmember
  rcases hmember with rfl | rfl | rfl
  · refine .array _ fun item hitem => ?_
    obtain ⟨n,_,rfl⟩ := List.mem_map.mp hitem
    exact .integer (Int.ofNat n)
  · exact .integer _
  · cases row.sender_timestamp with
    | none => exact .null
    | some timestamp => exact .integer timestamp

/-- A row is written as the text of its tree. -/
theorem encodeTokenRow_eq (row : TokenRow) : encodeTokenRow row = encodeUtf8 (rowTree row).stringify := by
  have htoken : ofString "\x7b\"token\":" = Json.openBrace::Json.quote (ofString "token")++[unit ':'] := by
    decide
  have hreceived : ofString ",\"token_timestamp\":" =
      unit ','::Json.quote (ofString "token_timestamp")++[unit ':'] := by decide
  have hsent : ofString ",\"sender_timestamp\":" =
      unit ','::Json.quote (ofString "sender_timestamp")++[unit ':'] := by decide
  have hclose : ofString "\x7d" = [Json.closeBrace] := by decide
  unfold encodeTokenRow numbersText rowTree
  rw [htoken,hreceived,hsent,hclose]
  cases row.sender_timestamp with
  | none => simp [Json.stringify,Json.stringifyMembers]
  | some timestamp => simp [Json.stringify,Json.stringifyMembers]

/-- Quoted bytes are read back. -/
theorem mapM_tokenByte {token : List ℕ} (h : ∀ b ∈ token, b ≤ 255) :
    (token.map fun n => Json.string (natText n)).mapM tokenByte = some token := by
  induction token with
  | nil => rfl
  | cons n rest ih =>
    obtain ⟨u,more,hnat,_⟩ := natText_head n
    have hne : natText n ≠ [] := by
      rw [hnat]
      exact List.cons_ne_nil _ _
    have hbyte : tokenByte (.string (natText n)) = some n := by
      unfold tokenByte
      dsimp only
      rw [ofDigits_natText,if_pos ⟨hne,isDigit_natText n,h n List.mem_cons_self⟩]
    rw [List.map_cons,List.mapM_cons,hbyte,ih fun b hb => h b (List.mem_cons_of_mem _ hb)]
    rfl

/-- A number of a byte passes the first check. -/
theorem isByteLiteral_natText {n : ℕ} (h : n ≤ 255) : isByteLiteral (natText n) = true := by
  have hread := readOptional_sign (.inl rfl) n []
  rw [List.nil_append,List.append_nil] at hread
  have hall := List.all_eq_true.mp (isDigit_natText n)
  unfold isByteLiteral
  rw [hread]
  dsimp only
  rw [List.span_eq_takeWhile_dropWhile,List.takeWhile_eq_self_iff.mpr hall,
    List.dropWhile_eq_nil_iff.mpr hall]
  dsimp only
  rw [if_pos rfl,ofDigits_natText,decide_eq_true h]
  rfl

/-- The tree of a valid row passes the first check. -/
theorem checkTokenRow_rowTree {row : TokenRow} (h : ValidRow row) : checkTokenRow (rowTree row) = true := by
  have hbytes : (row.token.map fun n => Json.number (natText n)).all isByteNumber = true := by
    rw [List.all_map,List.all_eq_true]
    intro n hn
    have hbyte := isByteLiteral_natText (h.token n hn)
    rw [Function.comp_apply,isByteNumber]
    exact hbyte
  have htoken : ∀ value members, member "token" ((ofString "token",value)::members) = some value :=
    fun value members => if_pos rfl
  have hreceived : ∀ token value members, member "token_timestamp" ((ofString "token",token)::
      (ofString "token_timestamp",value)::members) = some value := by
    intro token value members
    rw [member,if_neg (by decide),member,if_pos rfl]
  have hsent : ∀ token received value, member "sender_timestamp" [(ofString "token",token),
      (ofString "token_timestamp",received),(ofString "sender_timestamp",value)] = some value := by
    intro token received value
    rw [member,if_neg (by decide),member,if_neg (by decide),member,if_pos rfl]
  unfold checkTokenRow rowTree
  dsimp only
  rw [htoken,hreceived,hsent]
  dsimp only
  rw [hbytes]
  cases row.sender_timestamp with
  | none => rfl
  | some timestamp => rfl

/-- The quoted tree of a valid row is read as the row. -/
theorem readTokenRow_quoted {row : TokenRow} (h : ValidRow row) : readTokenRow (quoted (rowTree row)) = .ok row := by
  have htree : quoted (rowTree row) = .object
      [(ofString "token",.array (row.token.map fun n => .string (natText n))),
        (ofString "token_timestamp",.string (intText row.token_timestamp)),
        (ofString "sender_timestamp",
          row.sender_timestamp.elim .null fun timestamp => .string (intText timestamp))] := by
    rw [rowTree,quoted,quotedMembers_eq]
    simp only [List.map_cons,List.map_nil,quoted,quotedItems_eq,List.map_map]
    cases row.sender_timestamp with
    | none => rfl
    | some timestamp => rfl
  have hreceived : quotedTimestamp (some (.string (intText row.token_timestamp))) = .ok row.token_timestamp :=
    signedTimestamp_intText h.received
  obtain ⟨token,received,sender⟩ := row
  rw [htree]
  unfold readTokenRow
  dsimp only
  rw [member,if_pos rfl]
  dsimp only
  rw [mapM_tokenByte h.token]
  dsimp only
  rw [member,if_neg (by decide),member,if_pos rfl,hreceived]
  rw [member,if_neg (by decide),member,if_neg (by decide),member,if_pos rfl]
  cases sender with
  | none => rfl
  | some timestamp =>
    have hsent : quotedTimestamp (some (.string (intText timestamp))) = .ok timestamp :=
      signedTimestamp_intText (h.sent timestamp rfl)
    dsimp only [Option.elim]
    rw [hsent]
    rfl

/-- A valid row is read back as it was written. -/
theorem decodeTokenRow_encodeTokenRow {row : TokenRow} (h : ValidRow row) :
    decodeTokenRow (encodeTokenRow row) = .ok row := by
  have hwritten := written_rowTree row
  have hhead : ∃ rest, (rowTree row).stringify = Json.openBrace::rest := ⟨_,rfl⟩
  obtain ⟨rest,heq⟩ := hhead
  have hpaired := paired_written hwritten
  have htext : decodeUtf8 (encodeUtf8 (rowTree row).stringify) = (rowTree row).stringify := by
    rw [heq] at hpaired ⊢
    exact decodeUtf8_encodeUtf8 hpaired (by decide)
  unfold decodeTokenRow
  rw [encodeTokenRow_eq,htext]
  dsimp only
  rw [parse_written hwritten]
  dsimp only
  rw [if_pos (checkTokenRow_rowTree h),parse_quoteNumbers (parse_written hwritten)]
  exact readTokenRow_quoted h

/-- Quoted bytes are bytes. -/
theorem le_of_mapM_tokenByte {items : List Json} {token : List ℕ} (h : items.mapM tokenByte = some token) :
    ∀ b ∈ token, b ≤ 255 := by
  induction items generalizing token with
  | nil =>
    cases h
    exact fun b hb => by cases hb
  | cons item rest ih =>
    rw [List.mapM_cons] at h
    obtain ⟨n,hn,hrest⟩ := Option.bind_eq_some_iff.mp h
    obtain ⟨more,hmore,hpure⟩ := Option.bind_eq_some_iff.mp hrest
    cases hpure
    have hbyte : n ≤ 255 := by
      unfold tokenByte at hn
      split at hn
      · split at hn
        · rename_i hrange
          cases hn
          exact hrange.2.2
        · cases hn
      · cases hn
    intro b hb
    rcases List.mem_cons.mp hb with rfl | hb
    · exact hbyte
    · exact ih hmore b hb

theorem inI64_quotedTimestamp {value : Option Json} {i : ℤ} (h : quotedTimestamp value = .ok i) : InI64 i := by
  unfold quotedTimestamp at h
  split at h
  · exact inI64_signedTimestamp h
  · cases h

/-- What is read as a row is valid. -/
theorem validRow_decodeTokenRow {bytes : Bytes} {row : TokenRow} (h : decodeTokenRow bytes = .ok row) :
    ValidRow row := by
  have hread : ∃ tree, readTokenRow tree = .ok row := by
    unfold decodeTokenRow at h
    dsimp only at h
    split at h
    · cases h
    · split at h
      · split at h
        · cases h
        · rename_i tree _
          exact ⟨tree,h⟩
      · cases h
  obtain ⟨tree,hread⟩ := hread
  unfold readTokenRow at hread
  split at hread
  · split at hread
    · split at hread
      · rename_i token htoken
        have hbytes := le_of_mapM_tokenByte htoken
        obtain ⟨received,hreceived,hread⟩ := bind_ok hread
        have hreceived := inI64_quotedTimestamp hreceived
        dsimp only at hread
        split at hread
        · cases hread
          exact ⟨hbytes,hreceived,fun timestamp htimestamp => by cases htimestamp⟩
        · cases hread
          exact ⟨hbytes,hreceived,fun timestamp htimestamp => by cases htimestamp⟩
        · obtain ⟨sent,hsent,hread⟩ := bind_ok hread
          cases hread
          refine ⟨hbytes,hreceived,fun timestamp htimestamp => ?_⟩
          dsimp only at htimestamp
          rw [htimestamp] at hsent
          cases hquoted : quotedTimestamp (member "sender_timestamp" _) with
          | error error =>
            rw [hquoted] at hsent
            cases hsent
          | ok found =>
            rw [hquoted] at hsent
            cases hsent
            exact inI64_quotedTimestamp hquoted
      · cases hread
    · cases hread
  · cases hread

/-- A literal that is an integer in decimal digits, whatever its size. -/
def IntegerText (literal : JsString) (i : ℤ) : Prop :=
  ∃ digits, digits ≠ [] ∧ digits.all Json.isDigit = true ∧
    (literal = digits ∧ i = ofDigits digits ∨ literal = unit '-'::digits ∧ i = -(ofDigits digits : ℤ))

/-- A text is read without a sign, or its first code unit is the sign. -/
theorem readOptional_minus (text : JsString) : Json.readOptional [unit '-'] text = ([],text) ∨
    ∃ rest, text = unit '-'::rest ∧ Json.readOptional [unit '-'] text = ([unit '-'],rest) := by
  cases text with
  | nil => exact .inl rfl
  | cons u rest =>
    by_cases hu : u = unit '-'
    · subst hu
      exact .inr ⟨rest,rfl,rfl⟩
    · have hno : [unit '-'].contains u = false := by
        rw [Bool.eq_false_iff]
        exact fun hin => hu (List.mem_singleton.mp (List.contains_iff_mem.mp hin))
      exact .inl (by rw [Json.readOptional,hno,if_neg Bool.false_ne_true])

/-- What is read as a timestamp is the integer of the text. -/
theorem integerText_signedTimestamp {text : JsString} {i : ℤ} (h : signedTimestamp text = .ok i) :
    IntegerText text i := by
  unfold signedTimestamp at h
  rcases readOptional_minus text with hread | ⟨rest,rfl,hread⟩
  · rw [hread] at h
    dsimp only at h
    split at h
    · rename_i hdigits
      rw [if_pos rfl] at h
      split at h
      · cases h
      · cases h
        exact ⟨text,hdigits.2.1,hdigits.1,.inl ⟨rfl,rfl⟩⟩
    · cases h
  · rw [hread] at h
    dsimp only at h
    split at h
    · rename_i hdigits
      rw [if_neg (List.cons_ne_nil _ _)] at h
      split at h
      · cases h
      · cases h
        exact ⟨rest,hdigits.2.1,hdigits.1,.inr ⟨rfl,rfl⟩⟩
    · cases h

/-- Members keep their names when their numbers are quoted. -/
theorem member_quotedMembers (name : String) (members : List (JsString × Json)) :
    member name (quotedMembers members) = (member name members).map quoted := by
  induction members with
  | nil => rfl
  | cons entry rest ih =>
    obtain ⟨other,value⟩ := entry
    rw [quotedMembers,member,member]
    split
    · rfl
    · exact ih

/-- The timestamp of a quoted member is the integer its number was written as. -/
theorem integerText_quotedTimestamp {value : Json} {i : ℤ} (hnumber : isNumber value = true)
    (h : quotedTimestamp (some (quoted value)) = .ok i) :
    ∃ literal, value = .number literal ∧ IntegerText literal i := by
  cases value with
  | number literal => exact ⟨literal,rfl,integerText_signedTimestamp h⟩
  | null => cases hnumber
  | bool b => cases hnumber
  | string text => cases hnumber
  | array items => cases hnumber
  | object members => cases hnumber

/-- Members that pass the first check. -/
theorem checkTokenRow_members {tree : Json} (h : checkTokenRow tree = true) :
    ∃ members received, tree = .object members ∧ member "token_timestamp" members = some received ∧
      isNumber received = true ∧ ∀ value, member "sender_timestamp" members = some value →
        value = .null ∨ isNumber value = true := by
  unfold checkTokenRow at h
  split at h
  · rename_i members
    rw [Bool.and_eq_true,Bool.and_eq_true] at h
    obtain ⟨received,hreceived,hnumber⟩ := (Option.any_eq_true _ _).mp h.1.2
    refine ⟨members,received,rfl,hreceived,hnumber,fun value hvalue => ?_⟩
    have hsent := h.2
    rw [hvalue] at hsent
    cases value with
    | null => exact .inl rfl
    | number literal => exact .inr rfl
    | bool b => cases hsent
    | string text => cases hsent
    | array items => cases hsent
    | object members => cases hsent
  · cases h

/-- Timestamps of a quoted tree that is read as a row. -/
theorem readTokenRow_timestamps {members : List (JsString × Json)} {row : TokenRow}
    (h : readTokenRow (.object members) = .ok row) :
    quotedTimestamp (member "token_timestamp" members) = .ok row.token_timestamp ∧
      match row.sender_timestamp with
      | some sent => quotedTimestamp (member "sender_timestamp" members) = .ok sent
      | none => member "sender_timestamp" members = none ∨ member "sender_timestamp" members = some .null := by
  unfold readTokenRow at h
  dsimp only at h
  split at h
  · split at h
    · obtain ⟨received,hreceived,h⟩ := bind_ok h
      split at h
      · rename_i hsent
        cases h
        exact ⟨hreceived,.inl hsent⟩
      · rename_i hsent
        cases h
        exact ⟨hreceived,.inr hsent⟩
      · obtain ⟨sent,hsent,h⟩ := bind_ok h
        cases h
        cases hquoted : quotedTimestamp (member "sender_timestamp" members) with
        | error error =>
          rw [hquoted] at hsent
          cases hsent
        | ok found =>
          rw [hquoted] at hsent
          cases hsent
          exact ⟨hreceived,rfl⟩
    · cases h
  · cases h

/-- The codec of token rows is exact: a valid row is read back as it was written,
and the timestamps of any bytes that are read as a row are the integers their text
was parsed with, whatever else the text holds. -/
theorem tokenRow_codec_exact :
    (∀ row, ValidRow row → decodeTokenRow (encodeTokenRow row) = .ok row) ∧
    ∀ bytes row, decodeTokenRow bytes = .ok row → ∃ members received,
      Json.parse (decodeUtf8 bytes) = some (.object members) ∧
      member "token_timestamp" members = some (.number received) ∧
      IntegerText received row.token_timestamp ∧
      match row.sender_timestamp with
      | some sent => ∃ literal, member "sender_timestamp" members = some (.number literal) ∧
          IntegerText literal sent
      | none => member "sender_timestamp" members = none ∨ member "sender_timestamp" members = some .null := by
  refine ⟨fun row => decodeTokenRow_encodeTokenRow,fun bytes row h => ?_⟩
  unfold decodeTokenRow at h
  dsimp only at h
  split at h
  · cases h
  · rename_i original hparse
    split at h
    · rename_i hcheck
      rw [parse_quoteNumbers hparse] at h
      obtain ⟨members,received,rfl,hreceived,hnumber,hsender⟩ := checkTokenRow_members hcheck
      rw [quoted] at h
      obtain ⟨hfirst,hsecond⟩ := readTokenRow_timestamps h
      rw [member_quotedMembers,hreceived] at hfirst
      obtain ⟨literal,rfl,hliteral⟩ := integerText_quotedTimestamp hnumber hfirst
      refine ⟨members,literal,hparse,hreceived,hliteral,?_⟩
      rw [member_quotedMembers] at hsecond
      cases hsent : row.sender_timestamp with
      | none =>
        rw [hsent] at hsecond
        dsimp only at hsecond ⊢
        cases hmember : member "sender_timestamp" members with
        | none => exact .inl rfl
        | some value =>
          rw [hmember] at hsecond
          rcases hsender value hmember with rfl | hvalue
          · exact .inr rfl
          · cases value with
            | number literal =>
              rcases hsecond with hnone | hnull
              · cases hnone
              · cases hnull
            | _ => cases hvalue
      | some sent =>
        rw [hsent] at hsecond
        dsimp only at hsecond ⊢
        cases hmember : member "sender_timestamp" members with
        | none =>
          rw [hmember] at hsecond
          cases hsecond
        | some value =>
          rw [hmember] at hsecond
          rcases hsender value hmember with rfl | hvalue
          · cases hsecond
          · obtain ⟨sender,rfl,hinteger⟩ := integerText_quotedTimestamp hvalue hsecond
            exact ⟨sender,rfl,hinteger⟩
    · cases h

/-- A row with the greatest timestamps is read back. -/
theorem tokenRow_codec_exact_greatest :
    decodeTokenRow (encodeTokenRow ⟨[0,255],9223372036854775807,some (-9223372036854775808)⟩) =
      .ok ⟨[0,255],9223372036854775807,some (-9223372036854775808)⟩ := by
  refine tokenRow_codec_exact.1 _ ⟨by decide,by unfold InI64; decide,fun timestamp h => ?_⟩
  cases h
  unfold InI64
  decide

end Baileyrs.AtomicStore
