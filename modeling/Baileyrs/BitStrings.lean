import Mathlib.Data.List.Basic
import Mathlib.Data.Nat.Bitwise
import Mathlib.Tactic.Ring

/-!
# Strings of bits

A number of a given width is written with its highest bit first. A string of bits is cut
into groups of one size, of which the last may be short and is filled up on its right.
-/

namespace Baileyrs.BitStrings

/-- Lowest bits of a number, the highest of them first. -/
def bitsOf : ℕ → ℕ → List Bool
  | 0,_ => []
  | width+1,n => n.testBit width::bitsOf width n

/-- Number that bits stand for. -/
def valueOf : List Bool → ℕ
  | [] => 0
  | bit::rest => bit.toNat*2^rest.length+valueOf rest

/-- Consecutive groups of one size; the last may be shorter. -/
def groups {α : Type} (size : ℕ) (items : List α) : List (List α) :=
  (List.range ((items.length+size-1)/size)).map fun i => (items.drop (size*i)).take size

/-- Bits of bytes. -/
def byteBits (bytes : List UInt8) : List Bool := bytes.flatMap fun b => bitsOf 8 b.toNat

/-- A group filled up with zeros on its right. -/
def padded (size : ℕ) (group : List Bool) : List Bool := group++List.replicate (size-group.length) false

@[simp] theorem length_bitsOf (width n : ℕ) : (bitsOf width n).length = width := by
  induction width with
  | zero => rfl
  | succ width ih => rw [bitsOf,List.length_cons,ih]

theorem valueOf_lt (bits : List Bool) : valueOf bits < 2^bits.length := by
  induction bits with
  | nil => simp [valueOf]
  | cons bit rest ih =>
    have hpower : 2^(rest.length+1) = 2*2^rest.length := by ring
    rw [valueOf,List.length_cons,hpower]
    cases bit <;> simp <;> omega

theorem valueOf_append (first rest : List Bool) : valueOf (first++rest) = valueOf first*2^rest.length+valueOf rest := by
  induction first with
  | nil => simp [valueOf]
  | cons bit first ih =>
    rw [List.cons_append,valueOf,valueOf,ih,List.length_append]
    ring

/-- The bits of a number stand for its remainder. -/
theorem valueOf_bitsOf (width n : ℕ) : valueOf (bitsOf width n) = n%2^width := by
  induction width with
  | zero => rw [bitsOf,valueOf,pow_zero,Nat.mod_one]
  | succ width ih =>
    rw [bitsOf,valueOf,length_bitsOf,ih,Nat.mod_pow_succ,Nat.toNat_testBit]
    ring

/-- Bits depend on the remainder only. -/
theorem bitsOf_congr {width n m : ℕ} (h : ∀ i < width, n.testBit i = m.testBit i) :
    bitsOf width n = bitsOf width m := by
  induction width with
  | zero => rfl
  | succ width ih =>
    rw [bitsOf,bitsOf,h width (by omega),ih fun i hi => h i (by omega)]

theorem bitsOf_mod {width size : ℕ} (h : width ≤ size) (n : ℕ) : bitsOf width (n%2^size) = bitsOf width n := by
  refine bitsOf_congr fun i hi => ?_
  have hless : i < size := by omega
  rw [Nat.testBit_mod_two_pow,decide_eq_true hless,Bool.true_and]

/-- Upper bits come before lower ones. -/
theorem bitsOf_add (upper lower n : ℕ) : bitsOf (upper+lower) n = bitsOf upper (n/2^lower)++bitsOf lower n := by
  induction upper with
  | zero => rw [Nat.zero_add,bitsOf,List.nil_append]
  | succ upper ih =>
    have hwidth : upper+1+lower = upper+lower+1 := by omega
    rw [hwidth,bitsOf,ih,bitsOf,Nat.testBit_div_two_pow,List.cons_append]

/-- Bits are those of the number they stand for. -/
theorem bitsOf_valueOf (bits : List Bool) : bitsOf bits.length (valueOf bits) = bits := by
  induction bits with
  | nil => rfl
  | cons bit rest ih =>
    have hlt := valueOf_lt rest
    have htop : (valueOf (bit::rest)).testBit rest.length = bit := by
      rw [valueOf,Nat.testBit_eq_decide_div_mod_eq,Nat.mul_comm,Nat.mul_add_div (Nat.two_pow_pos _),
        Nat.div_eq_of_lt hlt]
      cases bit <;> rfl
    have hrest : bitsOf rest.length (valueOf (bit::rest)) = rest := by
      rw [← bitsOf_mod (le_refl _),valueOf,Nat.mul_comm,Nat.mul_add_mod,Nat.mod_eq_of_lt hlt,ih]
    rw [List.length_cons,bitsOf,htop,hrest]

theorem valueOf_injective {first second : List Bool} (hlength : first.length = second.length)
    (h : valueOf first = valueOf second) : first = second := by
  rw [← bitsOf_valueOf first,← bitsOf_valueOf second,hlength,h]

section Groups

variable {α : Type} {size : ℕ}

theorem groups_nil (h : 0 < size) : groups size ([] : List α) = [] := by
  have hcount : (0+size-1)/size = 0 := Nat.div_eq_of_lt (by omega)
  rw [groups,List.length_nil,hcount]
  rfl

theorem length_groups (size : ℕ) (items : List α) : (groups size items).length = (items.length+size-1)/size := by
  rw [groups,List.length_map,List.length_range]

/-- Every group has at most its size. -/
theorem length_group_le {items group : List α} (h : group ∈ groups size items) : group.length ≤ size := by
  obtain ⟨i,_,rfl⟩ := List.mem_map.mp h
  exact List.length_take_le _ _

/-- Strings of one length have groups of the same lengths. -/
theorem lengths_groups {first second : List α} (h : first.length = second.length) :
    (groups size first).map List.length = (groups size second).map List.length := by
  rw [groups,groups,List.map_map,List.map_map,h]
  refine List.map_congr_left fun i _ => ?_
  simp only [Function.comp_apply,List.length_take,List.length_drop,h]

/-- A whole group stands before the others. -/
theorem groups_cons {group : List α} (hsize : 0 < size) (h : group.length = size) (rest : List α) :
    groups size (group++rest) = group::groups size rest := by
  have hcount : ((group++rest).length+size-1)/size = (rest.length+size-1)/size+1 := by
    have hsum : (group++rest).length+size-1 = (rest.length+size-1)+size := by
      rw [List.length_append,h]
      omega
    rw [hsum,Nat.add_div_right _ hsize]
  have hfirst : ((group++rest).drop (size*0)).take size = group := by
    rw [Nat.mul_zero,List.drop_zero,← h,List.take_left]
  rw [groups,hcount,List.range_succ_eq_map,List.map_cons,hfirst,List.map_map,groups]
  refine congrArg (List.cons group) (List.map_congr_left fun i _ => ?_)
  have hdrop : (group++rest).drop (size*(i+1)) = rest.drop (size*i) := by
    have hsum : size*(i+1) = group.length+size*i := by
      rw [h]
      ring
    rw [hsum,← List.drop_drop,List.drop_left]
  rw [Function.comp_apply,hdrop]

/-- A string that is no longer than a group is one. -/
theorem groups_short {group : List α} (hne : group ≠ []) (h : group.length ≤ size) : groups size group = [group] := by
  have hpositive : 0 < group.length := List.length_pos_of_ne_nil hne
  have hcount : (group.length+size-1)/size = 1 := Nat.div_eq_of_lt_le (by omega) (by omega)
  rw [groups,hcount,List.range_one,List.map_singleton,Nat.mul_zero,List.drop_zero,List.take_of_length_le h]

/-- Groups of one size each, then what is left. -/
theorem groups_flatten (hsize : 0 < size) {whole : List (List α)} (h : ∀ group ∈ whole, group.length = size)
    (rest : List α) : groups size (whole.flatten++rest) = whole++groups size rest := by
  induction whole with
  | nil => rfl
  | cons group whole ih =>
    rw [List.flatten_cons,List.append_assoc,groups_cons hsize (h group List.mem_cons_self),
      ih fun other hother => h other (List.mem_cons_of_mem _ hother),List.cons_append]

/-- Every group but the last is whole, so the groups tell the string. -/
theorem flatten_groups (hsize : 0 < size) (items : List α) : (groups size items).flatten = items := by
  induction hn : items.length using Nat.strong_induction_on generalizing items with
  | _ n ih =>
    by_cases hlong : size < items.length
    · have htake : (items.take size).length = size := by
        rw [List.length_take]
        omega
      have hdrop : (items.drop size).length < n := by
        rw [List.length_drop]
        omega
      have hrest := ih _ hdrop (items.drop size) rfl
      rw [← List.take_append_drop size items,groups_cons hsize htake,List.flatten_cons,hrest]
    · by_cases hnil : items = []
      · rw [hnil,groups_nil hsize,List.flatten_nil]
      · rw [groups_short hnil (by omega),List.flatten_singleton]

end Groups


section OfBytes

theorem length_byteBits (bytes : List UInt8) : (byteBits bytes).length = 8*bytes.length := by
  induction bytes with
  | nil => rfl
  | cons byte rest ih =>
    rw [byteBits,List.flatMap_cons,List.length_append,length_bitsOf]
    have hrest : (rest.flatMap fun b => bitsOf 8 b.toNat).length = 8*rest.length := ih
    rw [hrest,List.length_cons]
    omega

/-- Bits tell the bytes. -/
theorem byteBits_injective {first second : List UInt8} (h : byteBits first = byteBits second) : first = second := by
  induction first generalizing second with
  | nil =>
    have hlength := congrArg List.length h
    rw [length_byteBits,length_byteBits,List.length_nil] at hlength
    have hnil : second.length = 0 := by omega
    exact (List.length_eq_zero_iff.mp hnil).symm
  | cons byte rest ih =>
    cases second with
    | nil =>
      have hlength := congrArg List.length h
      rw [length_byteBits,length_byteBits,List.length_cons,List.length_nil] at hlength
      omega
    | cons other others =>
      have hparts : bitsOf 8 byte.toNat++byteBits rest = bitsOf 8 other.toNat++byteBits others := h
      have hsplit := List.append_inj hparts (by rw [length_bitsOf,length_bitsOf])
      have hvalue := congrArg valueOf hsplit.1
      have hbyte := UInt8.toNat_lt byte
      have hother := UInt8.toNat_lt other
      rw [valueOf_bitsOf,valueOf_bitsOf,Nat.mod_eq_of_lt hbyte,Nat.mod_eq_of_lt hother] at hvalue
      rw [UInt8.toNat_inj.mp hvalue,ih hsplit.2]

theorem byteBits_append (first rest : List UInt8) : byteBits (first++rest) = byteBits first++byteBits rest :=
  List.flatMap_append

/-- Groups of bytes are groups of their bits. -/
theorem groups_byteBits {size : ℕ} (hsize : 0 < size) (bytes : List UInt8) :
    groups (8*size) (byteBits bytes) = (groups size bytes).map byteBits := by
  induction hn : bytes.length using Nat.strong_induction_on generalizing bytes with
  | _ n ih =>
    by_cases hlong : size < bytes.length
    · have htake : (bytes.take size).length = size := by
        rw [List.length_take]
        omega
      have hdrop : (bytes.drop size).length < n := by
        rw [List.length_drop]
        omega
      have hbits : (byteBits (bytes.take size)).length = 8*size := by rw [length_byteBits,htake]
      have hrest := ih _ hdrop (bytes.drop size) rfl
      rw [← List.take_append_drop size bytes,byteBits_append,groups_cons (by omega) hbits,groups_cons hsize htake,hrest,
        List.map_cons]
    · by_cases hnil : bytes = []
      · rw [hnil,groups_nil hsize]
        exact groups_nil (by omega)
      · have hpositive := List.length_pos_of_ne_nil hnil
        have hlength := length_byteBits bytes
        have hne : byteBits bytes ≠ [] := List.ne_nil_of_length_pos (by omega)
        rw [groups_short hnil (by omega),groups_short hne (by omega),List.map_singleton]

end OfBytes

end Baileyrs.BitStrings
