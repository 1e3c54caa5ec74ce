/-
SidechainVerifier.Digest.Blake3 — the BLAKE3 digest in its plain mode.

A message is cut into chunks of 1024 bytes. Each chunk is a chain of
compressions over its 64-byte blocks, and the chunks are the leaves of a
binary tree whose left subtrees are complete. A `Node` is a compression
that has not been run yet: run as an inner node it gives a chaining value,
run as the root it gives the digest.
-/
import SidechainVerifier.Bytes

namespace SidechainVerifier

namespace Blake3

/-! ## Compression -/

/-- The eight words every chain starts from. -/
def initial : Vector UInt32 8 :=
  #v[0x6a09e667, 0xbb67ae85, 0x3c6ef372, 0xa54ff53a, 0x510e527f, 0x9b05688c, 0x1f83d9ab, 0x5be0cd19]

/-- Marks the first block of a chunk. -/
def chunkStart : UInt32 := 1

/-- Marks the last block of a chunk. -/
def chunkEnd : UInt32 := 2

/-- Marks a node over two chaining values. -/
def parentFlag : UInt32 := 4

/-- Marks the node the digest is read from. -/
def rootFlag : UInt32 := 8

/-- The word rotated to the right by `n` bits, for `n` between 1 and 31. -/
def rotateRight (x n : UInt32) : UInt32 := (x >>> n) ||| (x <<< (32 - n))

/-- The quarter round on four of the sixteen words, with two message words. -/
def mix (v : Vector UInt32 16) (ia ib ic id : Fin 16) (x y : UInt32) : Vector UInt32 16 :=
  let a := v[ia] + v[ib] + x
  let d := rotateRight (v[id] ^^^ a) 16
  let c := v[ic] + d
  let b := rotateRight (v[ib] ^^^ c) 12
  let a := a + b + y
  let d := rotateRight (d ^^^ a) 8
  let c := c + d
  let b := rotateRight (b ^^^ c) 7
  (((v.set ia a).set ib b).set ic c).set id d

/-- One round: the four columns, then the four diagonals. -/
def round (v m : Vector UInt32 16) : Vector UInt32 16 :=
  let v := mix v 0 4 8 12 m[0] m[1]
  let v := mix v 1 5 9 13 m[2] m[3]
  let v := mix v 2 6 10 14 m[4] m[5]
  let v := mix v 3 7 11 15 m[6] m[7]
  let v := mix v 0 5 10 15 m[8] m[9]
  let v := mix v 1 6 11 12 m[10] m[11]
  let v := mix v 2 7 8 13 m[12] m[13]
  mix v 3 4 9 14 m[14] m[15]

/-- The order of the message words in the next round. -/
def permute (m : Vector UInt32 16) : Vector UInt32 16 :=
  #v[m[2], m[6], m[3], m[10], m[7], m[0], m[4], m[13],
    m[1], m[11], m[12], m[5], m[9], m[14], m[15], m[8]]

/-- `count` rounds, the message words permuted after each. -/
def rounds : Nat → Vector UInt32 16 → Vector UInt32 16 → Vector UInt32 16
  | 0, v, _ => v
  | count + 1, v, m => rounds count (round v m) (permute m)

/-- A compression that has not been run. -/
structure Node where
  chain : Vector UInt32 8
  block : Vector UInt32 16
  counter : Nat
  blockLength : UInt32
  flags : UInt32

/-- Runs the compression with further flags. -/
def Node.run (node : Node) (counter : Nat) (flags : UInt32) : Vector UInt32 8 :=
  let h := node.chain
  let v : Vector UInt32 16 :=
    #v[h[0], h[1], h[2], h[3], h[4], h[5], h[6], h[7],
      initial[0], initial[1], initial[2], initial[3],
      UInt32.ofNat counter, UInt32.ofNat (counter / UInt32.size), node.blockLength, node.flags ||| flags]
  let v := rounds 7 v node.block
  #v[v[0] ^^^ v[8], v[1] ^^^ v[9], v[2] ^^^ v[10], v[3] ^^^ v[11],
    v[4] ^^^ v[12], v[5] ^^^ v[13], v[6] ^^^ v[14], v[7] ^^^ v[15]]

/-- The chaining value an inner node hands to its parent. -/
def Node.chainingValue (node : Node) : Vector UInt32 8 := node.run node.counter 0

/-- The words read from the root; the root's counter is always zero. -/
def Node.rootWords (node : Node) : Vector UInt32 8 := node.run 0 rootFlag

/-! ## Chunks -/

/-- The words of a byte string, four bytes each, least significant byte first; the last word is
filled up with zero bytes. -/
def words : Bytes → List UInt32
  | [] => []
  | [a] => [a.toUInt32]
  | [a, b] => [a.toUInt32 ||| (b.toUInt32 <<< 8)]
  | [a, b, c] => [a.toUInt32 ||| (b.toUInt32 <<< 8) ||| (c.toUInt32 <<< 16)]
  | a :: b :: c :: d :: rest =>
    (a.toUInt32 ||| (b.toUInt32 <<< 8) ||| (c.toUInt32 <<< 16) ||| (d.toUInt32 <<< 24)) ::
      words rest

/-- The sixteen words of a block, zeros after its end. -/
def blockWords (block : Bytes) : Vector UInt32 16 :=
  let ws := words block
  Vector.ofFn fun i => ws.getD i 0

/-- The node of a chunk's remaining blocks; `flags` is `chunkStart` before the first of them. -/
def chunkNode (counter : Nat) : Vector UInt32 8 → UInt32 → List Bytes → Node
  | chain, flags, [] => ⟨chain, blockWords [], counter, 0, flags ||| chunkEnd⟩
  | chain, flags, [last] =>
    ⟨chain, blockWords last, counter, UInt32.ofNat last.length, flags ||| chunkEnd⟩
  | chain, flags, block :: rest =>
    let node : Node := ⟨chain, blockWords block, counter, UInt32.ofNat block.length, flags⟩
    chunkNode counter node.chainingValue 0 rest

/-- The number of pieces of `size` bytes in `length` bytes, at least one. -/
def pieceCount (size length : Nat) : Nat := max 1 ((length + size - 1) / size)

/-- The leaf for the chunk with this number. -/
def leaf (counter : Nat) (chunk : Bytes) : Node :=
  chunkNode counter initial chunkStart (Bytes.blocks 64 (pieceCount 64 chunk.length) chunk)

/-! ## The tree -/

/-- The node over two subtrees. -/
def parent (left right : Node) : Node :=
  let l := left.chainingValue
  let r := right.chainingValue
  ⟨initial,
    #v[l[0], l[1], l[2], l[3], l[4], l[5], l[6], l[7], r[0], r[1], r[2], r[3], r[4], r[5], r[6], r[7]],
    0, 64, parentFlag⟩

/-- The tree over at most `2 ^ height` leaves: as long as there are more than half of that, the
left subtree is complete. -/
def tree : Nat → List Node → Node
  | 0, leaves => leaves.headD (leaf 0 [])
  | height + 1, leaves =>
    if leaves.length ≤ 2 ^ height then tree height leaves
    else parent (tree height (leaves.take (2 ^ height))) (tree height (leaves.drop (2 ^ height)))

/-- The root of a message's tree. -/
def root (message : Bytes) : Node :=
  let count := pieceCount 1024 message.length
  let leaves := (Bytes.blocks 1024 count message).zipIdx.map fun (chunk, i) => leaf i chunk
  tree (Nat.log2 count + 1) leaves

/-- The bytes of eight words, least significant byte first. -/
def wordBytes (words : Vector UInt32 8) : Bytes :=
  words.toList.flatMap fun w => Bytes.littleEndian 4 w.toNat

@[simp] theorem length_wordBytes (words : Vector UInt32 8) : (wordBytes words).length = 32 := by
  simp [wordBytes, List.length_flatMap, List.map_const']

end Blake3

/-- The BLAKE3 digest of a message. -/
def blake3 (message : Bytes) : FixedBytes 32 :=
  ⟨(Blake3.wordBytes (Blake3.root message).rootWords).toArray, by simp⟩

end SidechainVerifier
