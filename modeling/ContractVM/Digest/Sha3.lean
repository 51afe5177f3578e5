import ContractVM.Digest.Keccak
import ContractVM.Number.LittleEndian
import ContractVM.Text.Hex

/-! # SHA3-256

    The sponge over Keccak-f[1600] with blocks of 136 bytes, the domain bits of
    SHA-3 and a digest of 32 bytes. -/

namespace ContractVM.Sha3

open Keccak

/-- The bytes absorbed by one permutation. -/
def rate : Nat := 136

/-- A digest of 32 bytes. -/
structure Digest where
  bytes : List UInt8
  deriving DecidableEq, Repr

/-- The message followed by the domain bits and the padding, which fill the last
    block. -/
def pad (message : List UInt8) : List UInt8 :=
  let gap := rate - message.length % rate
  if gap = 1 then message ++ [0x86]
  else message ++ 0x06 :: List.replicate (gap - 2) 0 ++ [0x80]

/-- Cuts a row into pieces of `width` elements; `count` bounds their number. -/
def pieces (width : Nat) : Nat → List α → List (List α)
  | 0, _ => []
  | _ + 1, [] => []
  | count + 1, as => as.take width :: pieces width count (as.drop width)

/-- The 64-bit words of a block. -/
def laneWords (block : List UInt8) : Array UInt64 :=
  ((pieces 8 (rate / 8) block).map fun w => UInt64.ofNat (LittleEndian.value w)).toArray

/-- Mixes one block into the state. -/
def absorb (a : State) (block : List UInt8) : State :=
  let ws := laneWords block
  permute (Vector.ofFn fun i => a[i] ^^^ ws.getD i.val 0)

/-- The digest of a message. -/
def digest (message : List UInt8) : Digest :=
  let padded := pad message
  let final := (pieces rate (padded.length / rate) padded).foldl absorb (Vector.replicate 25 0)
  ⟨(final.toList.take 4).flatMap fun lane => LittleEndian.bytes 8 lane.toNat⟩

/-- A digest as 64 hexadecimal digits. -/
def Digest.text (d : Digest) : String :=
  Text.hexBytes d.bytes

end ContractVM.Sha3
