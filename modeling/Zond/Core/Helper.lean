import Mathlib.Data.Nat.Log
import Zond.Core.Transaction

/-!
# Helpers

The two loops of `misc/helper.go` that take byte strings apart or put them together.
`MerkleTXHash` fixes the number of rounds in advance and walks each layer with a cursor
`e`, which moves by two at a pair and stays where it is at an odd last element.

## Main definitions

* `merkleTXHash`: The Merkle root of a list of hashes.
* `convertBytesToLong`: The number behind four bytes.
-/

namespace Zond

variable (c : Crypto)

/-- `e.Value` of the element under the cursor, given as the rest of its list. -/
def elementValue : List (List UInt8) → Go (List UInt8)
  | [] => .error (.panic .nilDereference)
  | h :: _ => .ok h

/-- The inner loop of `MerkleTXHash` with so many turns to go, over a layer of `len`
    hashes. The cursor is the rest of the layer from its element on. -/
def merkleLayer (len : Nat) :
    Nat → List (List UInt8) → Nat → List (List UInt8) → Go (List (List UInt8))
  | 0, _, _, nextLayer => .ok nextLayer
  | k + 1, e, z, nextLayer =>
    if len = z + 1 then do
      let h ← elementValue e
      merkleLayer len k e (z + 2) (nextLayer ++ [h])
    else do
      let left ← elementValue e
      let right ← elementValue e.tail
      merkleLayer len k e.tail.tail (z + 2) (nextLayer ++ [(c.sha256 (left ++ right)).val])

/-- The outer loop of `MerkleTXHash`. -/
def merkleRounds : Nat → List (List UInt8) → Go (List (List UInt8))
  | 0, lArray => .ok lArray
  | x + 1, lArray => do
      merkleRounds x
        (← merkleLayer c lArray.length (lArray.length % 2 + lArray.length / 2) lArray 0 [])

/-- `misc.MerkleTXHash`. The rounding up of the logarithm is exact. -/
def merkleTXHash (hashes : List (List UInt8)) : Go (List UInt8) := do
  let lArray ← merkleRounds c (Nat.clog 2 hashes.length) hashes
  elementValue lArray.getLast?.toList

def convertBytesToLong (b0 b1 b2 b3 : UInt8) : UInt32 :=
  b0.toUInt32 <<< 24 ||| b1.toUInt32 <<< 16 ||| b2.toUInt32 <<< 8 ||| b3.toUInt32

end Zond
