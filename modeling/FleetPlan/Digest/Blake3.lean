/-
The BLAKE3 digest.

The input is cut into chunks of 1024 octets, which are the leaves of a binary
tree whose left parts are complete.  A chunk runs its blocks of 64 octets through
the compression function one after another; a parent compresses the chaining
values of its two children.  The digest is the first 32 octets of what the root
puts out.
-/
import FleetPlan.Text.Octets

namespace FleetPlan.Blake3

abbrev Words (n : Nat) := Vector UInt32 n

/-- The chaining value that every chunk starts from. -/
def initial : Words 8 :=
  #v[0x6A09E667, 0xBB67AE85, 0x3C6EF372, 0xA54FF53A, 0x510E527F, 0x9B05688C, 0x1F83D9AB, 0x5BE0CD19]

/-- Where each word of a block stands in the next round. -/
def permutation : Vector (Fin 16) 16 :=
  #v[2, 6, 3, 10, 7, 0, 4, 13, 1, 11, 12, 5, 9, 14, 15, 8]

/-! ### Flags -/

def chunkStart : UInt32 := 1

def chunkEnd : UInt32 := 2

def parentNode : UInt32 := 4

def rootNode : UInt32 := 8

/-! ### Compression -/

def rotateRight (x : UInt32) (n : UInt32) : UInt32 := (x >>> n) ||| (x <<< (32 - n))

/-- Mixes two words of the block into four words of the state. -/
def mix (v : Words 16) (a b c d : Fin 16) (x y : UInt32) : Words 16 :=
  let va := v[a] + v[b] + x
  let vd := rotateRight (v[d] ^^^ va) 16
  let vc := v[c] + vd
  let vb := rotateRight (v[b] ^^^ vc) 12
  let va := va + vb + y
  let vd := rotateRight (vd ^^^ va) 8
  let vc := vc + vd
  let vb := rotateRight (vb ^^^ vc) 7
  (((v.set a va).set b vb).set c vc).set d vd

/-- Mixes a block into the state, by columns and then by diagonals. -/
def round (v m : Words 16) : Words 16 :=
  let v := mix v 0 4 8 12 m[0] m[1]
  let v := mix v 1 5 9 13 m[2] m[3]
  let v := mix v 2 6 10 14 m[4] m[5]
  let v := mix v 3 7 11 15 m[6] m[7]
  let v := mix v 0 5 10 15 m[8] m[9]
  let v := mix v 1 6 11 12 m[10] m[11]
  let v := mix v 2 7 8 13 m[12] m[13]
  mix v 3 4 9 14 m[14] m[15]

/-- Several rounds, the block being permuted between them. -/
def rounds : Nat → (v m : Words 16) → Words 16
  | 0, v, _ => v
  | n + 1, v, m => rounds n (round v m) (permutation.map fun i => m[i])

/-- What is left to compress at a node: all but the flag that the root gets. -/
structure Node where
  chaining : Words 8
  block : Words 16
  counter : UInt64
  blockLength : UInt32
  flags : UInt32

namespace Node

/-- All sixteen words that compression puts out. -/
def compress (n : Node) (extra : UInt32) : Words 16 :=
  let h := n.chaining
  let v : Words 16 :=
    #v[h[0], h[1], h[2], h[3], h[4], h[5], h[6], h[7],
       initial[0], initial[1], initial[2], initial[3],
       n.counter.toUInt32, (n.counter >>> 32).toUInt32, n.blockLength, n.flags ||| extra]
  let v := rounds 7 v n.block
  Vector.ofFn fun i =>
    if hi : i.val < 8 then v[i] ^^^ v[i.val + 8] else v[i] ^^^ h[i.val - 8]

/-- The value that a parent takes from this node. -/
def chainingValue (n : Node) : Words 8 :=
  let v := n.compress 0
  Vector.ofFn fun i => v[i.val]

end Node

/-! ### The tree -/

/-- Four octets as a word, the lowest first; octets that are not there count as zero. -/
def word (bytes : Octets) (i : Nat) : UInt32 :=
  let octet (k : Nat) : UInt32 := (bytes.getD (4 * i + k) 0).toUInt32
  octet 0 ||| (octet 1 <<< 8) ||| (octet 2 <<< 16) ||| (octet 3 <<< 24)

def blockSize : Nat := 64

def chunkSize : Nat := 1024

/-- A chunk from the block that is next on; `start` is the flag of a first block. -/
def chunkNode (counter : UInt64) (chaining : Words 8) (start : UInt32) (bytes : Octets) : Node :=
  let block := bytes.take blockSize
  let words : Words 16 := Vector.ofFn fun i => word block i
  let node : Node := ⟨chaining, words, counter, block.length.toUInt32, start⟩
  if blockSize < bytes.length then
    chunkNode counter node.chainingValue 0 (bytes.drop blockSize)
  else { node with flags := start ||| chunkEnd }
termination_by bytes.length
decreasing_by simp only [List.length_drop, blockSize] at *; omega

/-- How many octets the left part of a tree has: the most complete chunks that leave a rest. -/
def leftSize (size : Nat) : Nat := chunkSize * Nat.pow 2 (Nat.log2 ((size - 1) / chunkSize))

/-- The node over the octets, the first of which is in the chunk with this number. -/
def tree (counter : Nat) (bytes : Octets) : Node :=
  if h : bytes.length ≤ chunkSize then chunkNode counter.toUInt64 initial chunkStart bytes
  else
    let size := leftSize bytes.length
    have hpos : 0 < size := Nat.mul_pos (by decide) (Nat.two_pow_pos _)
    have hlt : size < bytes.length := by
      have hq : (bytes.length - 1) / chunkSize ≠ 0 := by
        simp only [chunkSize] at *; omega
      have := Nat.log2_self_le hq
      have := Nat.mul_le_mul_left chunkSize this
      have := Nat.mul_div_le (bytes.length - 1) chunkSize
      simp only [size, leftSize, Nat.pow_eq]
      omega
    let left := (tree counter (bytes.take size)).chainingValue
    let right := (tree (counter + size / chunkSize) (bytes.drop size)).chainingValue
    ⟨initial, (left ++ right : Words 16), 0, 64, parentNode⟩
termination_by bytes.length
decreasing_by all_goals (simp only [List.length_take, List.length_drop]; omega)

/-- The digest of the octets. -/
def digest (bytes : Octets) : Octets :=
  let v := (tree 0 bytes).compress rootNode
  (v.toList.take 8).flatMap fun (w : UInt32) =>
    [w.toUInt8, (w >>> 8).toUInt8, (w >>> 16).toUInt8, (w >>> 24).toUInt8]

/-- The digest as digits to base sixteen. -/
def hexDigest (bytes : Octets) : String :=
  String.ofList <| (digest bytes).flatMap fun b =>
    [Nat.digitChar (b.toNat / 16), Nat.digitChar (b.toNat % 16)]

end FleetPlan.Blake3
