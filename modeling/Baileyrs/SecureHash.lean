import Baileyrs.BitStrings
import Mathlib.Data.Nat.Prime.Basic
import Mathlib.Tactic.Linarith

/-!
# Secure hash

The hash of a string of bits, as the standard FIPS 180-4 defines it: the string is filled
up to whole blocks of 512 bits that end with its length, and each block in turn changes
eight words of 32 bits in 64 rounds. The constants are leading bits of fractions of roots
of the first primes.
-/

namespace Baileyrs.SecureHash

open BitStrings

/-- Words of the standard. -/
abbrev Word := BitVec 32

section Constants

/-- Extend a root by lower bits while its power stays below a number. -/
def rootBits (degree n : ℕ) : ℕ → ℕ → ℕ
  | 0,root => root
  | bit+1,root => rootBits degree n bit (if (root+2^bit)^degree ≤ n then root+2^bit else root)

/-- First 32 bits of the fraction of a root; its whole part has at most eight bits. -/
def rootFraction (degree n : ℕ) : Word := BitVec.ofNat 32 (rootBits degree (n*2^(32*degree)) 40 0)

/-- A number below 324 that no smaller one from two to seventeen divides. -/
def isSmallPrime (n : ℕ) : Bool := 2 ≤ n && (List.range' 2 16).all fun m => n ≤ m || n%m != 0

/-- The first 64 primes. -/
def primes : List ℕ := (List.range 312).filter isSmallPrime

/-- Constants of the rounds. -/
def roundConstants : List Word := primes.map (rootFraction 3)

end Constants

section Functions

/-- Rotation to the right. -/
def rotateRight (n : ℕ) (x : Word) : Word := (x >>> n) ||| (x <<< (32-n))

/-- Choice between the bits of two words. -/
def ch (x y z : Word) : Word := (x &&& y) ^^^ (~~~x &&& z)

/-- Majority of the bits of three words. -/
def maj (x y z : Word) : Word := (x &&& y) ^^^ (x &&& z) ^^^ (y &&& z)

/-- Mixing of the first register. -/
def largeSigma0 (x : Word) : Word := rotateRight 2 x ^^^ rotateRight 13 x ^^^ rotateRight 22 x

/-- Mixing of the fifth register. -/
def largeSigma1 (x : Word) : Word := rotateRight 6 x ^^^ rotateRight 11 x ^^^ rotateRight 25 x

/-- Mixing of a word fifteen back. -/
def smallSigma0 (x : Word) : Word := rotateRight 7 x ^^^ rotateRight 18 x ^^^ (x >>> 3)

/-- Mixing of a word two back. -/
def smallSigma1 (x : Word) : Word := rotateRight 17 x ^^^ rotateRight 19 x ^^^ (x >>> 10)

end Functions

section Hash

/-- Eight registers. -/
structure Registers (α : Type) where
  /-- First register. -/
  a : α
  /-- Second register. -/
  b : α
  /-- Third register. -/
  c : α
  /-- Fourth register. -/
  d : α
  /-- Fifth register. -/
  e : α
  /-- Sixth register. -/
  f : α
  /-- Seventh register. -/
  g : α
  /-- Eighth register. -/
  h : α
deriving DecidableEq

/-- The registers in order. -/
def Registers.toList {α : Type} (s : Registers α) : List α := [s.a,s.b,s.c,s.d,s.e,s.f,s.g,s.h]

/-- Combine registers one by one. -/
def Registers.zipWith {α : Type} (combine : α → α → α) (s t : Registers α) : Registers α :=
  ⟨combine s.a t.a,combine s.b t.b,combine s.c t.c,combine s.d t.d,combine s.e t.e,combine s.f t.f,combine s.g t.g,
    combine s.h t.h⟩

/-- Words before the first block. -/
def initialHash : Registers Word :=
  ⟨rootFraction 2 2,rootFraction 2 3,rootFraction 2 5,rootFraction 2 7,rootFraction 2 11,rootFraction 2 13,
    rootFraction 2 17,rootFraction 2 19⟩

/-- What goes behind a message of a length: a one, the fewest zeros and the length. -/
def padding (length : ℕ) : List Bool :=
  true::(List.replicate ((960-(length+1)%512)%512) false++bitsOf 64 length)

/-- Words of the blocks of a message. -/
def blocks (message : List Bool) : List (List Word) :=
  (groups 512 (message++padding message.length)).map fun block =>
    (groups 32 block).map fun word => BitVec.ofNat 32 (valueOf word)

/-- First words of the message schedule. -/
def schedule (block : List Word) : ℕ → List Word
  | 0 => []
  | t+1 =>
    let w := fun i => (schedule block t).getD i 0
    schedule block t++[
      if t < 16 then block.getD t 0 else smallSigma1 (w (t-2))+w (t-7)+smallSigma0 (w (t-15))+w (t-16)]

/-- One round. -/
def round (s : Registers Word) (k w : Word) : Registers Word :=
  let t1 := s.h+largeSigma1 s.e+ch s.e s.f s.g+k+w
  let t2 := largeSigma0 s.a+maj s.a s.b s.c
  ⟨t1+t2,s.a,s.b,s.c,s.d+t1,s.e,s.f,s.g⟩

/-- Change of the words by a block. -/
def compress (hash : Registers Word) (block : List Word) : Registers Word :=
  let w := schedule block 64
  let s := (List.range 64).foldl (fun s t => round s (roundConstants.getD t 0) (w.getD t 0)) hash
  Registers.zipWith (· + ·) s hash

/-- Hash of a message of fewer than 2^64 bits. -/
def sha256 (message : List Bool) : List Bool :=
  (((blocks message).foldl compress initialHash).toList).flatMap fun word => bitsOf 32 word.toNat

example : sha256 (byteBits [97,98,99]) = byteBits [0xba,0x78,0x16,0xbf,0x8f,0x01,0xcf,0xea,0x41,0x41,0x40,0xde,0x5d,0xae,
    0x22,0x23,0xb0,0x03,0x61,0xa3,0x96,0x17,0x7a,0x9c,0xb4,0x10,0xff,0x61,0xf2,0x00,0x15,0xad] := by decide +kernel

end Hash

end Baileyrs.SecureHash
