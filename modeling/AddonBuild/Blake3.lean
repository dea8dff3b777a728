/-!
# BLAKE3

The 256-bit BLAKE3 hash. The input is cut into chunks and a chunk into blocks; the blocks of a
chunk are compressed one after the other, and the chunks are the leaves of a binary tree whose
left subtrees are full. Every node is kept as the input of its last compression, because only the
root is compressed with the root flag.
-/

namespace AddonBuild

namespace Blake3

/-- Eight words that a compression starts from. -/
abbrev Chain := Vector UInt32 8

/-- Sixteen words of message. -/
abbrev Block := Vector UInt32 16

/-- The chain that every chunk starts from. -/
def initial : Chain :=
  #v[0x6A09E667, 0xBB67AE85, 0x3C6EF372, 0xA54FF53A, 0x510E527F, 0x9B05688C, 0x1F83D9AB, 0x5BE0CD19]

/-- Where each word of the message comes from in the next round. -/
def permutation : Vector (Fin 16) 16 :=
  #v[2, 6, 3, 10, 7, 0, 4, 13, 1, 11, 12, 5, 9, 14, 15, 8]

/-- The flag of the first block of a chunk. -/
def chunkStart : UInt32 := 1

/-- The flag of the last block of a chunk. -/
def chunkEnd : UInt32 := 2

/-- The flag of a node with two children. -/
def parent : UInt32 := 4

/-- The flag of the last compression of all. -/
def root : UInt32 := 8

/-! ### Compression -/

/-- Rotate a word to the right. -/
def rotate (w n : UInt32) : UInt32 :=
  (w >>> n) ||| (w <<< (32 - n))

/-- Mix two words of message into four words of state. -/
def mix (v : Block) (a b c d : Fin 16) (x y : UInt32) : Block :=
  let v := v.set a (v[a] + v[b] + x)
  let v := v.set d (rotate (v[d] ^^^ v[a]) 16)
  let v := v.set c (v[c] + v[d])
  let v := v.set b (rotate (v[b] ^^^ v[c]) 12)
  let v := v.set a (v[a] + v[b] + y)
  let v := v.set d (rotate (v[d] ^^^ v[a]) 8)
  let v := v.set c (v[c] + v[d])
  v.set b (rotate (v[b] ^^^ v[c]) 7)

/-- Mix a whole message into the columns and then the diagonals of the state. -/
def round (v m : Block) : Block :=
  let v := mix v 0 4 8 12 m[0] m[1]
  let v := mix v 1 5 9 13 m[2] m[3]
  let v := mix v 2 6 10 14 m[4] m[5]
  let v := mix v 3 7 11 15 m[6] m[7]
  let v := mix v 0 5 10 15 m[8] m[9]
  let v := mix v 1 6 11 12 m[10] m[11]
  let v := mix v 2 7 8 13 m[12] m[13]
  mix v 3 4 9 14 m[14] m[15]

/-- Apply a number of rounds, permuting the message between them. -/
def rounds : Nat → Block → Block → Block
  | 0, v, _ => v
  | n + 1, v, m => rounds n (round v m) (Vector.ofFn fun i => m[permutation[i]])

/-- Compress a block into the next chain. -/
def compress (chain : Chain) (block : Block) (counter : UInt64) (length flags : UInt32) : Chain :=
  let start : Block := #v[
    chain[0], chain[1], chain[2], chain[3], chain[4], chain[5], chain[6], chain[7],
    initial[0], initial[1], initial[2], initial[3],
    counter.toUInt32, (counter >>> 32).toUInt32, length, flags]
  let v := rounds 7 start block
  Vector.ofFn fun i : Fin 8 => v[i.val] ^^^ v[i.val + 8]

/-! ### Chunks and the tree -/

/-- A node of the tree, as the input of its last compression. -/
structure Node where
  chain : Chain
  block : Block
  counter : UInt64
  length : UInt32
  flags : UInt32

/-- The chain that a node hands to its parent. -/
def Node.output (n : Node) : Chain :=
  compress n.chain n.block n.counter n.length n.flags

/-- The hash of a tree with the given root. -/
def Node.rootOutput (n : Node) : Chain :=
  compress n.chain n.block 0 n.length (n.flags ||| root)

/-- Cut a list into pieces of the given size, of which the last may be shorter. -/
def cut (size : Nat) (bytes : List UInt8) : List (List UInt8) :=
  if h : size = 0 ∨ bytes.length ≤ size then [bytes]
  else
    have : (bytes.drop size).length < bytes.length := by
      simp only [List.length_drop]
      omega
    bytes.take size :: cut size (bytes.drop size)
termination_by bytes.length
decreasing_by exact this

/-- The words of a block, low byte first, with zeros behind a short one. -/
def words (bytes : List UInt8) : Block :=
  let padded := bytes.toArray
  let byte (i : Nat) : UInt32 := (padded.getD i 0).toUInt32
  Vector.ofFn fun i : Fin 16 =>
    byte (4 * i) ||| byte (4 * i + 1) <<< 8 ||| byte (4 * i + 2) <<< 16 ||| byte (4 * i + 3) <<< 24

/-- Compress the blocks of a chunk up to the last one. -/
def chunkFrom (chain : Chain) (counter : UInt64) (flags : UInt32) : List (List UInt8) → Node
  | [] => ⟨chain, words [], counter, 0, flags ||| chunkEnd⟩
  | [bytes] => ⟨chain, words bytes, counter, bytes.length.toUInt32, flags ||| chunkEnd⟩
  | bytes :: rest =>
    chunkFrom (compress chain (words bytes) counter bytes.length.toUInt32 flags) counter 0 rest

/-- The leaf of the chunk with the given number. -/
def chunk (counter : Nat) (bytes : List UInt8) : Node :=
  chunkFrom initial counter.toUInt64 chunkStart (cut 64 bytes)

/-- The node above two others. -/
def join (left right : Node) : Node :=
  ⟨initial, left.output ++ right.output, 0, 64, parent⟩

/-- Join neighbours in pairs. A node without a neighbour stays as it is. -/
def joinPairs : List Node → List Node
  | left :: right :: rest => join left right :: joinPairs rest
  | rest => rest

theorem length_joinPairs_le : (nodes : List Node) →
    2 * (joinPairs nodes).length ≤ nodes.length + 1
  | [] => by simp [joinPairs]
  | [_] => by simp [joinPairs]
  | _ :: _ :: rest => by
    have := length_joinPairs_le rest
    simp only [joinPairs, List.length_cons]
    omega

/-- Join level by level until one node is left. -/
def top (first : Node) (rest : List Node) : Node :=
  match h : joinPairs (first :: rest) with
  | [] => first
  | [node] => node
  | first' :: next :: rest' =>
    have : (next :: rest').length < rest.length := by
      have := length_joinPairs_le (first :: rest)
      rw [h] at this
      simp only [List.length_cons] at this ⊢
      omega
    top first' (next :: rest')
termination_by rest.length

/-- The tree over the chunks of an input. -/
def tree (bytes : List UInt8) : Node :=
  match (cut 1024 bytes).mapIdx chunk with
  | [] => chunk 0 []
  | first :: rest => top first rest

/-! ### Text -/

/-- The two hexadecimal digits of a byte. -/
def hexByte (b : UInt8) : List Char :=
  [Nat.digitChar (b.toNat / 16), Nat.digitChar (b.toNat % 16)]

/-- The bytes of a word, low byte first. -/
def wordBytes (w : UInt32) : List UInt8 :=
  [w.toUInt8, (w >>> 8).toUInt8, (w >>> 16).toUInt8, (w >>> 24).toUInt8]

/-- The hash of an input as 64 hexadecimal digits. -/
def hash (bytes : List UInt8) : String :=
  String.ofList (((tree bytes).rootOutput.toList.flatMap wordBytes).flatMap hexByte)

end Blake3

end AddonBuild
