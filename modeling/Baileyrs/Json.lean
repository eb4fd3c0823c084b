import Baileyrs.JsString

/-!
# JSON texts

Values are read from texts of code units and written back without blanks. A
number is kept as the literal it was written as. Strings may hold any code
units: a surrogate without its pair is written as an escape, so the written
text is always well formed, and it is read back exactly.
-/

namespace Baileyrs

open JsString

/-- A JSON value; a number is the literal it was written as. -/
inductive Json where
  | null
  | bool (b : Bool)
  | number (literal : JsString)
  | string (text : JsString)
  | array (items : List Json)
  | object (members : List (JsString × Json))

namespace Json

/-- The quotation mark. -/
def quotation : UInt16 := 34

/-- The backslash. -/
def backslash : UInt16 := 92

/-- The brace that opens an object. -/
def openBrace : UInt16 := 123

/-- The brace that closes an object. -/
def closeBrace : UInt16 := 125

/-- Hexadecimal digit of a value below sixteen. -/
def hexDigit (n : ℕ) : UInt16 := if n < 10 then (48+n).toUInt16 else (87+n).toUInt16

/-- Value of a hexadecimal digit. -/
def hexValue (u : UInt16) : Option ℕ :=
  if 48 ≤ u.toNat ∧ u.toNat ≤ 57 then some (u.toNat-48)
  else if 97 ≤ u.toNat ∧ u.toNat ≤ 102 then some (u.toNat-87)
  else if 65 ≤ u.toNat ∧ u.toNat ≤ 70 then some (u.toNat-55)
  else none

/-- Escape of a code unit by its four hexadecimal digits. -/
def hexEscape (u : UInt16) : JsString :=
  [backslash,unit 'u',hexDigit (u.toNat/4096),hexDigit (u.toNat/256%16),
    hexDigit (u.toNat/16%16),hexDigit (u.toNat%16)]

/-- One code unit that is not half of a pair, inside a string. -/
def escape (u : UInt16) : JsString :=
  if u = quotation then [backslash,quotation]
  else if u = backslash then [backslash,backslash]
  else if u.toNat = 8 then [backslash,unit 'b']
  else if u.toNat = 9 then [backslash,unit 't']
  else if u.toNat = 10 then [backslash,unit 'n']
  else if u.toNat = 12 then [backslash,unit 'f']
  else if u.toNat = 13 then [backslash,unit 'r']
  else if u.toNat < 32 ∨ isSurrogate u then hexEscape u
  else [u]

/-- Contents of a string between its quotation marks. -/
def escapeAll : JsString → JsString
  | [] => []
  | [u] => escape u
  | u::v::rest =>
    if isHigh u && isLow v then u::v::escapeAll rest else escape u++escapeAll (v::rest)

/-- A written string. -/
def quote (text : JsString) : JsString := quotation::(escapeAll text++[quotation])

/-- Code unit of a one-letter escape. -/
def unescape (u : UInt16) : Option UInt16 :=
  if u = quotation ∨ u = backslash ∨ u = unit '/' then some u
  else if u = unit 'b' then some 8
  else if u = unit 't' then some 9
  else if u = unit 'n' then some 10
  else if u = unit 'f' then some 12
  else if u = unit 'r' then some 13
  else none

/-- Code unit of four hexadecimal digits. -/
def hexUnit (a b c d : UInt16) : Option UInt16 :=
  match hexValue a,hexValue b,hexValue c,hexValue d with
  | some a,some b,some c,some d => some (a*4096+b*256+c*16+d).toUInt16
  | _,_,_,_ => none

/-- Put a code unit in front of what was read. -/
def prepend (u : UInt16) : Option (JsString × JsString) → Option (JsString × JsString)
  | some (text,tail) => some (u::text,tail)
  | none => none

/-- Read a string after its opening quotation mark. -/
def readString : JsString → Option (JsString × JsString)
  | [] => none
  | u::rest =>
    if u = quotation then some ([],rest)
    else if u = backslash then
      match rest with
      | [] => none
      | e::rest =>
        if e = unit 'u' then
          match rest with
          | a::b::c::d::rest =>
            match hexUnit a b c d with
            | some v => prepend v (readString rest)
            | none => none
          | _ => none
        else
          match unescape e with
          | some v => prepend v (readString rest)
          | none => none
    else if u.toNat < 32 then none
    else prepend u (readString rest)

/-- Blanks between tokens. -/
def isBlank (u : UInt16) : Bool := u = 32 || u = 9 || u = 10 || u = 13

/-- The text after its leading blanks. -/
def skipBlanks : JsString → JsString
  | [] => []
  | u::rest => if isBlank u then skipBlanks rest else u::rest

/-- A decimal digit. -/
def isDigit (u : UInt16) : Bool := 48 ≤ u.toNat && u.toNat ≤ 57

/-- Split off an optional leading code unit. -/
def readOptional (accepted : List UInt16) : JsString → JsString × JsString
  | [] => ([],[])
  | u::rest => if accepted.contains u then ([u],rest) else ([],u::rest)

/-- Read one or more digits. -/
def readDigits (text : JsString) : Option (JsString × JsString) :=
  match text.span isDigit with
  | ([],_) => none
  | (digits,tail) => some (digits,tail)

/-- Read the digits of an integer part, which has no leading zero. -/
def readInteger : JsString → Option (JsString × JsString)
  | [] => none
  | u::rest => if u = unit '0' then some ([u],rest) else readDigits (u::rest)

/-- Read an optional part that starts with one of some code units. -/
def readPart (starts signs : List UInt16) (text : JsString) : Option (JsString × JsString) :=
  match readOptional starts text with
  | ([],tail) => some ([],tail)
  | (start,tail) => do
    let (sign,tail) := readOptional signs tail
    let (digits,tail) ← readDigits tail
    some (start++sign++digits,tail)

/-- Read a number literal. -/
def readNumber (text : JsString) : Option (JsString × JsString) := do
  let (sign,tail) := readOptional [unit '-'] text
  let (integer,tail) ← readInteger tail
  let (fraction,tail) ← readPart [unit '.'] [] tail
  let (exponent,tail) ← readPart [unit 'e',unit 'E'] [unit '+',unit '-'] tail
  some (sign++integer++fraction++exponent,tail)

/-- Set a member; a repeated name keeps its place and takes the new value. -/
def setMember : List (JsString × Json) → JsString → Json → List (JsString × Json)
  | [],name,value => [(name,value)]
  | (other,old)::members,name,value =>
    if other = name then (other,value)::members else (other,old)::setMember members name value

/-- What follows a value in a list of items: another one or the end. -/
inductive Separator where
  | comma (rest : JsString)
  | closing (rest : JsString)
  | none

/-- Read a separator and the blanks before it. -/
def readSeparator (closing : UInt16) (text : JsString) : Separator :=
  match skipBlanks text with
  | u::rest =>
    if u = unit ',' then .comma rest else if u = closing then .closing rest else .none
  | [] => .none

/-- Read a word of the grammar. -/
def readWord (word : String) (value : Json) (text : JsString) : Option (Json × JsString) :=
  let word := ofString word
  if word.isPrefixOf text then some (value,text.drop word.length) else none

mutual

/-- Read a value and the blanks before it; the fuel bounds the nesting and
the number of items. -/
def readValue : ℕ → JsString → Option (Json × JsString)
  | 0,_ => none
  | n+1,text =>
    match skipBlanks text with
    | [] => none
    | u::rest =>
      if u = quotation then (readString rest).map fun read => (.string read.1,read.2)
      else if u = unit '[' then
        match skipBlanks rest with
        | v::tail =>
          if v = unit ']' then some (.array [],tail)
          else (readItems n (v::tail)).map fun read => (.array read.1,read.2)
        | [] => none
      else if u = openBrace then
        match skipBlanks rest with
        | v::tail =>
          if v = closeBrace then some (.object [],tail)
          else (readMembers n [] (v::tail)).map fun read => (.object read.1,read.2)
        | [] => none
      else if u = unit 'n' then readWord "null" .null (u::rest)
      else if u = unit 't' then readWord "true" (.bool true) (u::rest)
      else if u = unit 'f' then readWord "false" (.bool false) (u::rest)
      else (readNumber (u::rest)).map fun read => (.number read.1,read.2)

/-- Read the remaining items of an array. -/
def readItems : ℕ → JsString → Option (List Json × JsString)
  | 0,_ => none
  | n+1,text =>
    match readValue n text with
    | none => none
    | some (item,tail) =>
      match readSeparator (unit ']') tail with
      | .comma rest => (readItems n rest).map fun read => (item::read.1,read.2)
      | .closing rest => some ([item],rest)
      | .none => none

/-- Read the remaining members of an object. -/
def readMembers : ℕ → List (JsString × Json) → JsString →
    Option (List (JsString × Json) × JsString)
  | 0,_,_ => none
  | n+1,members,text =>
    match skipBlanks text with
    | [] => none
    | u::rest =>
      if u = quotation then
        match readString rest with
        | none => none
        | some (name,tail) =>
          match skipBlanks tail with
          | [] => none
          | v::rest =>
            if v = unit ':' then
              match readValue n rest with
              | none => none
              | some (value,tail) =>
                match readSeparator (closeBrace) tail with
                | .comma rest => readMembers n (setMember members name value) rest
                | .closing rest => some (setMember members name value,rest)
                | .none => none
            else none
      else none

end

/-- Read a whole text. -/
def parse (text : JsString) : Option Json :=
  match readValue (text.length+1) text with
  | some (value,tail) => if skipBlanks tail = [] then some value else none
  | none => none

mutual

/-- Write a value. -/
def stringify : Json → JsString
  | .null => ofString "null"
  | .bool true => ofString "true"
  | .bool false => ofString "false"
  | .number literal => literal
  | .string text => quote text
  | .array items => unit '['::(stringifyItems items++[unit ']'])
  | .object members => openBrace::(stringifyMembers members++[closeBrace])

/-- Write the items of an array. -/
def stringifyItems : List Json → JsString
  | [] => []
  | [item] => stringify item
  | item::next::rest => stringify item++unit ','::stringifyItems (next::rest)

/-- Write the members of an object. -/
def stringifyMembers : List (JsString × Json) → JsString
  | [] => []
  | [(name,value)] => quote name++unit ':'::stringify value
  | (name,value)::next::rest =>
    quote name++unit ':'::(stringify value++unit ','::stringifyMembers (next::rest))

end

theorem hexValue_hexDigit {n : ℕ} (h : n < 16) : hexValue (hexDigit n) = some n := by
  unfold hexDigit
  split
  · have hn : (48+n).toUInt16.toNat = 48+n := toNat_toUInt16 (by omega)
    have hr : 48 ≤ 48+n ∧ 48+n ≤ 57 := by omega
    have hs : 48+n-48 = n := by omega
    rw [hexValue,hn,if_pos hr,hs]
  · have hn : (87+n).toUInt16.toNat = 87+n := toNat_toUInt16 (by omega)
    have hf : ¬(48 ≤ 87+n ∧ 87+n ≤ 57) := by omega
    have hr : 97 ≤ 87+n ∧ 87+n ≤ 102 := by omega
    have hs : 87+n-87 = n := by omega
    rw [hexValue,hn,if_neg hf,if_pos hr,hs]

/-- The digits of an escape are read as the code unit. -/
theorem hexUnit_hexDigits (u : UInt16) :
    hexUnit (hexDigit (u.toNat/4096)) (hexDigit (u.toNat/256%16)) (hexDigit (u.toNat/16%16))
      (hexDigit (u.toNat%16)) = some u := by
  have hbound := UInt16.toNat_lt u
  have hcode : u.toNat/4096*4096+u.toNat/256%16*256+u.toNat/16%16*16+u.toNat%16 = u.toNat := by
    omega
  unfold hexUnit
  rw [hexValue_hexDigit (by omega),hexValue_hexDigit (by omega),hexValue_hexDigit (by omega),
    hexValue_hexDigit (by omega)]
  dsimp only
  rw [hcode,toUInt16_toNat]

/-- The closing quotation mark ends a string. -/
theorem readString_closing (rest : JsString) : readString (quotation::rest) = some ([],rest) := by
  rw [readString.eq_def]
  exact if_pos rfl

/-- A code unit without a meaning of its own is read as itself. -/
theorem readString_plain {u : UInt16} (hquote : u ≠ quotation) (hback : u ≠ backslash)
    (hplain : ¬u.toNat < 32) (rest : JsString) : readString (u::rest) = prepend u (readString rest) := by
  rw [readString.eq_def]
  dsimp only
  rw [if_neg hquote,if_neg hback,if_neg hplain]

/-- The escape of a code unit is read as the code unit. -/
theorem readString_escape (u : UInt16) (rest : JsString) :
    readString (escape u++rest) = prepend u (readString rest) := by
  have hescape : ∀ (e v : UInt16), e ≠ unit 'u' → unescape e = some v →
      readString (backslash::e::rest) = prepend v (readString rest) := by
    intro e v hu hv
    have hq : backslash ≠ quotation := by decide
    rw [readString.eq_def]
    dsimp only
    rw [if_neg hq,if_pos rfl,if_neg hu,hv]
  unfold escape
  split
  · rename_i h
    rw [h]
    exact hescape quotation quotation (by decide) (by decide)
  split
  · rename_i h
    rw [h]
    exact hescape backslash backslash (by decide) (by decide)
  split
  · rename_i h
    have hu : u = 8 := UInt16.toNat_inj.mp h
    rw [hu]
    exact hescape (unit 'b') 8 (by decide) (by decide)
  split
  · rename_i h
    have hu : u = 9 := UInt16.toNat_inj.mp h
    rw [hu]
    exact hescape (unit 't') 9 (by decide) (by decide)
  split
  · rename_i h
    have hu : u = 10 := UInt16.toNat_inj.mp h
    rw [hu]
    exact hescape (unit 'n') 10 (by decide) (by decide)
  split
  · rename_i h
    have hu : u = 12 := UInt16.toNat_inj.mp h
    rw [hu]
    exact hescape (unit 'f') 12 (by decide) (by decide)
  split
  · rename_i h
    have hu : u = 13 := UInt16.toNat_inj.mp h
    rw [hu]
    exact hescape (unit 'r') 13 (by decide) (by decide)
  split
  · have hq : backslash ≠ quotation := by decide
    unfold hexEscape
    simp only [List.cons_append,List.nil_append]
    rw [readString.eq_def]
    dsimp only
    rw [if_neg hq,if_pos rfl,if_pos rfl,hexUnit_hexDigits]
  · rename_i hquote hback h8 h9 h10 h12 h13 hcontrol
    have hplain : ¬u.toNat < 32 := fun h => hcontrol (.inl h)
    exact readString_plain hquote hback hplain rest

/-- A string is read back from its written contents. -/
theorem readString_escapeAll (text rest : JsString) :
    readString (escapeAll text++quotation::rest) = some (text,rest) := by
  induction text using escapeAll.induct with
  | case1 => exact readString_closing rest
  | case2 u =>
    rw [escapeAll,readString_escape,readString_closing]
    rfl
  | case3 u v tail hpair ih =>
    have hhigh : isHigh u = true := (Bool.and_eq_true_iff.mp hpair).1
    have hlow : isLow v = true := (Bool.and_eq_true_iff.mp hpair).2
    have hplain : ∀ w : UInt16, isSurrogate w = true → ∀ after,
        readString (w::after) = prepend w (readString after) := by
      intro w hw after
      have hlarge : 55296 ≤ w.toNat := by
        simp only [isSurrogate,isHigh,isLow,Bool.or_eq_true,Bool.and_eq_true,
          decide_eq_true_eq] at hw
        omega
      have hq : w ≠ quotation := by
        rintro rfl
        revert hlarge
        decide
      have hb : w ≠ backslash := by
        rintro rfl
        revert hlarge
        decide
      have hc : ¬w.toNat < 32 := by omega
      exact readString_plain hq hb hc after
    rw [escapeAll,if_pos hpair,List.cons_append,List.cons_append,hplain u (by simp [isSurrogate,hhigh]),
      hplain v (by simp [isSurrogate,hlow]),ih]
    rfl
  | case4 u v tail hpair ih =>
    rw [escapeAll,if_neg hpair,List.append_assoc,readString_escape,ih]
    rfl

/-- Written contents are paired. -/
theorem paired_escapeAll (text : JsString) : Paired (escapeAll text) := by
  have hdigit : ∀ n, n < 16 → isSurrogate (hexDigit n) = false := by decide
  have hescape : ∀ u, Paired (escape u) := by
    intro u
    have hlist : ∀ l : JsString, (∀ v ∈ l, isSurrogate v = false) → Paired l := by
      intro l
      induction l with
      | nil => exact fun _ => .nil
      | cons v l ih =>
        intro h
        exact .single v l (h v List.mem_cons_self) (ih fun w hw => h w (List.mem_cons_of_mem _ hw))
    have hpair : ∀ v w, isSurrogate v = false → isSurrogate w = false → Paired [v,w] :=
      fun v w hv hw => .single v [w] hv (.single w [] hw .nil)
    have hbound := UInt16.toNat_lt u
    unfold escape
    split
    · exact hpair _ _ (by decide) (by decide)
    split
    · exact hpair _ _ (by decide) (by decide)
    split
    · exact hpair _ _ (by decide) (by decide)
    split
    · exact hpair _ _ (by decide) (by decide)
    split
    · exact hpair _ _ (by decide) (by decide)
    split
    · exact hpair _ _ (by decide) (by decide)
    split
    · exact hpair _ _ (by decide) (by decide)
    split
    · refine hlist _ ?_
      intro v hv
      simp only [hexEscape,List.mem_cons,List.not_mem_nil,or_false] at hv
      rcases hv with rfl | rfl | rfl | rfl | rfl | rfl
      · decide
      · decide
      · exact hdigit _ (by omega)
      · exact hdigit _ (by omega)
      · exact hdigit _ (by omega)
      · exact hdigit _ (by omega)
    · rename_i hcontrol
      refine hlist _ ?_
      intro v hv
      rw [List.mem_singleton.mp hv]
      cases hs : isSurrogate u with
      | false => rfl
      | true => exact (hcontrol (.inr hs)).elim
  induction text using escapeAll.induct with
  | case1 => exact .nil
  | case2 u => exact hescape u
  | case3 u v tail hpair ih =>
    rw [escapeAll,if_pos hpair]
    exact .pair u v _ (Bool.and_eq_true_iff.mp hpair).1 (Bool.and_eq_true_iff.mp hpair).2 ih
  | case4 u v tail hpair ih =>
    rw [escapeAll,if_neg hpair]
    exact (hescape u).append ih

end Json

end Baileyrs
