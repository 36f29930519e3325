import FeeDistribution.Account.Basic

/-!
# Accounts of public keys

The account of a public key is the 32-byte BLAKE3 digest of its bytes, of which there may be any
number.  The bytes are cut into chunks of 1024, the chunks into blocks of 64.  The blocks of a chunk
are compressed one after the other, the results of the chunks in a binary tree whose left subtrees
are full, and the root of the tree is marked as such.
-/

namespace FeeDistribution

namespace Digest.Blake3

/-- Eight words that carry a result from one compression to the next. -/
abbrev Chain := Vector UInt32 8

/-- Sixteen words: the state of a compression, or the message it takes in. -/
abbrev Block := Vector UInt32 16

/-- The words every chunk starts from: the fractional parts of the square roots of the first eight
primes. -/
def start : Chain :=
  #v[0x6A09E667, 0xBB67AE85, 0x3C6EF372, 0xA54FF53A, 0x510E527F, 0x9B05688C, 0x1F83D9AB,
    0x5BE0CD19]

/-- The number of bytes of a block. -/
def blockLength : Nat := 64

/-- The number of bytes of a chunk. -/
def chunkLength : Nat := 1024

/-! ## Flags -/

/-- Marks the first block of a chunk. -/
def chunkStart : UInt32 := 1

/-- Marks the last block of a chunk. -/
def chunkEnd : UInt32 := 2

/-- Marks a compression that joins two subtrees. -/
def parent : UInt32 := 4

/-- Marks the root of the tree. -/
def root : UInt32 := 8

/-! ## Compression -/

/-- The word turned right by a number of bits. -/
def rotate (word : UInt32) (bits : UInt32) : UInt32 :=
  (word >>> bits) ||| (word <<< (32 - bits))

/-- Mixes two words of the message into four words of the state. -/
def mix (state : Block) (a b c d : Fin 16) (x y : UInt32) : Block :=
  let state := state.set a (state[a] + state[b] + x)
  let state := state.set d (rotate (state[d] ^^^ state[a]) 16)
  let state := state.set c (state[c] + state[d])
  let state := state.set b (rotate (state[b] ^^^ state[c]) 12)
  let state := state.set a (state[a] + state[b] + y)
  let state := state.set d (rotate (state[d] ^^^ state[a]) 8)
  let state := state.set c (state[c] + state[d])
  state.set b (rotate (state[b] ^^^ state[c]) 7)

/-- The four words of the state that each of the eight mixings of a round touches: first the columns
of the state, then its diagonals. -/
def lanes : List (Fin 16 × Fin 16 × Fin 16 × Fin 16) :=
  [(0, 4, 8, 12), (1, 5, 9, 13), (2, 6, 10, 14), (3, 7, 11, 15),
    (0, 5, 10, 15), (1, 6, 11, 12), (2, 7, 8, 13), (3, 4, 9, 14)]

/-- The pairs of words of the message that the eight mixings take in. -/
def pairs : List (Fin 16 × Fin 16) :=
  [(0, 1), (2, 3), (4, 5), (6, 7), (8, 9), (10, 11), (12, 13), (14, 15)]

/-- One round: eight mixings. -/
def round (state message : Block) : Block :=
  (lanes.zip pairs).foldl
    (fun state ((a, b, c, d), (x, y)) => mix state a b c d message[x] message[y])
    state

/-- Where each word of the message comes from in the next round. -/
def order : Vector (Fin 16) 16 :=
  #v[2, 6, 3, 10, 7, 0, 4, 13, 1, 11, 12, 5, 9, 14, 15, 8]

/-- The message as the next round takes it in. -/
def reorder (message : Block) : Block :=
  order.map fun source => message[source]

/-- A number of rounds, the message being reordered between them. -/
def rounds : Nat → Block → Block → Block
  | 0, state, _ => state
  | n + 1, state, message => rounds n (round state message) (reorder message)

/-- One compression that is still to be made. -/
structure Node where
  /-- The words carried in. -/
  chain : Chain
  /-- The message. -/
  message : Block
  /-- The number of the chunk; zero above the chunks. -/
  counter : Nat
  /-- The number of bytes in the message. -/
  length : Nat
  /-- The flags. -/
  flags : UInt32

/-- Compresses a node with further flags into eight words. -/
def Node.compress (node : Node) (flags : UInt32) : Chain :=
  let state : Block :=
    (node.chain ++
      #v[start[0], start[1], start[2], start[3], UInt32.ofNat (node.counter % UInt32.size),
        UInt32.ofNat (node.counter / UInt32.size), UInt32.ofNat node.length,
        node.flags ||| flags])
  let mixed := rounds 7 state node.message
  Vector.ofFn fun i : Fin 8 => mixed[i.val] ^^^ mixed[i.val + 8]

/-- The words a node hands on. -/
def Node.output (node : Node) : Chain :=
  node.compress 0

/-! ## Chunks and trees -/

/-- The word of four bytes, the lowest first; missing bytes are zero. -/
def wordOf (bytes : List UInt8) : UInt32 :=
  (bytes.take 4).foldr (fun byte word => (word <<< 8) ||| byte.toUInt32) 0

/-- The message of up to 64 bytes. -/
def messageOf (bytes : List UInt8) : Block :=
  Vector.ofFn fun i : Fin 16 => wordOf (bytes.drop (4 * i.val))

/-- The last node of the rest of a chunk. -/
def chunkFrom (counter : Nat) (flags : UInt32) (chain : Chain) (bytes : List UInt8) : Node :=
  if bytes.length ≤ blockLength then
    { chain, message := messageOf bytes, counter, length := bytes.length,
      flags := flags ||| chunkEnd }
  else
    let node : Node :=
      { chain, message := messageOf (bytes.take blockLength), counter, length := blockLength
        flags }
    chunkFrom counter 0 node.output (bytes.drop blockLength)
  termination_by bytes.length
  decreasing_by simp_all [blockLength]; omega

/-- The last node of a chunk. -/
def chunk (counter : Nat) (bytes : List UInt8) : Node :=
  chunkFrom counter chunkStart start bytes

/-- The node that joins two subtrees. -/
def join (left right : Chain) : Node :=
  { chain := start, message := left ++ right, counter := 0, length := blockLength, flags := parent }

/-- How many of more than 1024 bytes belong to the left subtree: the largest power of two of chunks
that leaves something for the right one. -/
def leftLength (length : Nat) : Nat :=
  chunkLength * Nat.pow 2 (Nat.log2 ((length - 1) / chunkLength))

theorem leftLength_pos (length : Nat) : 0 < leftLength length :=
  Nat.mul_pos (by decide) (Nat.two_pow_pos _)

theorem leftLength_lt {length : Nat} (h : chunkLength < length) : leftLength length < length := by
  have hchunks : (length - 1) / chunkLength ≠ 0 := by
    simp only [chunkLength] at *
    omega
  have hpower := Nat.log2_self_le hchunks
  have hleft : leftLength length ≤ chunkLength * ((length - 1) / chunkLength) :=
    Nat.mul_le_mul_left _ hpower
  have hwhole := Nat.mul_div_le (length - 1) chunkLength
  omega

/-- The top node of the tree over some bytes, of which the first chunk has this number. -/
def tree (counter : Nat) (bytes : List UInt8) : Node :=
  if bytes.length ≤ chunkLength then chunk counter bytes
  else
    let left := leftLength bytes.length
    join (tree counter (bytes.take left)).output
      (tree (counter + left / chunkLength) (bytes.drop left)).output
  termination_by bytes.length
  decreasing_by
  · have hlong : chunkLength < bytes.length := by omega
    have := leftLength_lt hlong
    simp only [List.length_take]
    omega
  · have := leftLength_pos bytes.length
    simp only [List.length_drop]
    omega

/-- The four bytes of a word, the lowest first. -/
def bytesOf (word : UInt32) : List UInt8 :=
  [word.toUInt8, (word >>> 8).toUInt8, (word >>> 16).toUInt8, (word >>> 24).toUInt8]

/-- The digest of some bytes. -/
def digest (bytes : List UInt8) : List UInt8 :=
  ((tree 0 bytes).compress root).toList.flatMap bytesOf

/-- A digest has 32 bytes. -/
theorem length_digest (bytes : List UInt8) : (digest bytes).length = 32 := by
  simp [digest, bytesOf, List.length_flatMap, List.map_const']

end Digest.Blake3

/-! ## Accounts -/

namespace Account

/-- The account of a public key. -/
def ofPublicKey (key : List UInt8) : Account :=
  ⟨Digest.Blake3.digest key, Digest.Blake3.length_digest key⟩

end Account

end FeeDistribution
