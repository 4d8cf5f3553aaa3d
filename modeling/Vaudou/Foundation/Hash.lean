/-
**The hash of `hash.h` and `vd_meta.h`.**

Both hash functions mix the bytes into a word of 64 bits, four at a time, and then the ones that are
left; they differ in the width of the length that starts the word.
-/

import Vaudou.Foundation.Memory

namespace Vaudou.Memory

/-- `m` of the hash functions. -/
def hashMul : Nat := 0x5bd1e995

/-- The loop over four bytes at a time, and the `switch` on the bytes that are left. -/
def hashLoop : List UInt8 → (h : Nat) → Nat
  | a :: b :: c :: d :: rest, h =>
    let k := leValue [a, b, c, d] * hashMul % 2 ^ 32
    let k := k ^^^ (k >>> 24)
    let k := k * hashMul % 2 ^ 32
    hashLoop rest ((h * hashMul % 2 ^ 64) ^^^ k)
  | [a, b, c], h =>
    ((h ^^^ (c.toNat <<< 16)) ^^^ (b.toNat <<< 8) ^^^ a.toNat) * hashMul % 2 ^ 64
  | [a, b], h => ((h ^^^ (b.toNat <<< 8)) ^^^ a.toNat) * hashMul % 2 ^ 64
  | [a], h => (h ^^^ a.toNat) * hashMul % 2 ^ 64
  | [], h => h

/-- The mixing at the end, behind the loop from the word `h`. -/
def hashFrom (key : List UInt8) (h : Nat) : Nat :=
  let h := hashLoop key h
  let h := h ^^^ (h >>> 13)
  let h := h * hashMul % 2 ^ 64
  h ^^^ (h >>> 15)

end Vaudou.Memory
