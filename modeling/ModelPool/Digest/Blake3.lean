/-!
# Digest/Blake3 — the hash function BLAKE3

    bytes ──cut──▸ chunks of 1024 ──cut──▸ blocks of 64
    blocks of a chunk:  chained one into the next
    chunks:             the leaves of a binary tree, whose left side is as full as can be

Every node of the tree is one last compression that has not been done yet: done as it stands it gives
the value that the node above takes in, and done at the root it gives the hash.

* `leftCount_lt` — both sides of a node have fewer chunks than the node.
-/

namespace ModelPool.Blake3

/-! ## Compression -/

/-- The words that every chain begins with. -/
def initial : Vector UInt32 8 :=
  #v[0x6A09E667, 0xBB67AE85, 0x3C6EF372, 0xA54FF53A, 0x510E527F, 0x9B05688C, 0x1F83D9AB, 0x5BE0CD19]

/-- The order in which a round takes the words of the round before. -/
def permutation : Vector (Fin 16) 16 := #v[2, 6, 3, 10, 7, 0, 4, 13, 1, 11, 12, 5, 9, 14, 15, 8]

/-- The columns and diagonals that a round mixes, in order. -/
def quarters : List (Fin 16 × Fin 16 × Fin 16 × Fin 16) :=
  [(0, 4, 8, 12), (1, 5, 9, 13), (2, 6, 10, 14), (3, 7, 11, 15),
    (0, 5, 10, 15), (1, 6, 11, 12), (2, 7, 8, 13), (3, 4, 9, 14)]

/-- A word turned to the right. -/
def turned (w : UInt32) (n : UInt32) : UInt32 := (w >>> n) ||| (w <<< (32 - n))

/-- Half of the mixing of four words: adds one word in, and turns by two distances. -/
def halfMix (s : Vector UInt32 16) (q : Fin 16 × Fin 16 × Fin 16 × Fin 16) (x m n : UInt32) :
    Vector UInt32 16 :=
  let (a, b, c, d) := q
  let s := s.set a (s.get a + s.get b + x)
  let s := s.set d (turned (s.get d ^^^ s.get a) m)
  let s := s.set c (s.get c + s.get d)
  s.set b (turned (s.get b ^^^ s.get c) n)

/-- **One round**: mixes every column and diagonal with two words of the block. -/
def round (s block : Vector UInt32 16) : Vector UInt32 16 :=
  (quarters.zip (List.finRange 8)).foldl
    (fun s (q, i) =>
      let s := halfMix s q (block.get ⟨2 * i.val, by omega⟩) 16 12
      halfMix s q (block.get ⟨2 * i.val + 1, by omega⟩) 8 7) s

/-- Seven rounds, each taking the words of the block in a new order. -/
def rounds : Nat → Vector UInt32 16 → Vector UInt32 16 → Vector UInt32 16
  | 0, s, _ => s
  | n + 1, s, block => rounds n (round s block) (permutation.map block.get)

/-- **A compression that is still to be done.** -/
structure Node where
  chain : Vector UInt32 8
  block : Vector UInt32 16
  counter : UInt64
  length : UInt32
  flags : UInt32

/-- The chained value of a compression. -/
def Node.compress (n : Node) : Vector UInt32 8 :=
  let low : Vector UInt32 8 :=
    #v[initial[0], initial[1], initial[2], initial[3], n.counter.toUInt32,
      (n.counter >>> 32).toUInt32, n.length, n.flags]
  let s := rounds 7 (n.chain ++ low) n.block
  Vector.ofFn fun i => s.get ⟨i.val, by omega⟩ ^^^ s.get ⟨i.val + 8, by omega⟩

/-- The marks of a compression. -/
def chunkStart : UInt32 := 1
def chunkEnd : UInt32 := 2
def parentMark : UInt32 := 4
def rootMark : UInt32 := 8

/-! ## Cutting -/

/-- Parts of a given length, the last of which may be shorter. -/
def cut {α : Type} (n : Nat) (xs : List α) : List (List α) :=
  if _h : xs = [] ∨ n = 0 then []
  else xs.take n :: cut n (xs.drop n)
termination_by xs.length
decreasing_by
  rw [not_or] at _h
  have := List.length_pos_iff.2 _h.1
  simp only [List.length_drop]
  omega

/-- Four bytes as a word, the lowest first; missing bytes are zero. -/
def wordAt (bytes : List UInt8) (i : Nat) : UInt32 :=
  ((bytes.drop (4 * i)).take 4).foldr (fun b w => (w <<< 8) ||| b.toUInt32) 0

/-- The words of a block, filled up with zeros. -/
def blockWords (bytes : List UInt8) : Vector UInt32 16 := Vector.ofFn fun i => wordAt bytes i

/-! ## The tree -/

/-- The last node of a chunk, with what has been chained before its blocks. -/
def chunkFrom (counter : UInt64) (start : UInt32) (chain : Vector UInt32 8) :
    List (List UInt8) → Node
  | [] => ⟨chain, blockWords [], counter, 0, start ||| chunkEnd⟩
  | [b] => ⟨chain, blockWords b, counter, b.length.toUInt32, start ||| chunkEnd⟩
  | b :: r =>
    let node : Node := ⟨chain, blockWords b, counter, b.length.toUInt32, start⟩
    chunkFrom counter 0 node.compress r

/-- **A leaf**: the chunk with a number. -/
def leaf (counter : Nat) (bytes : List UInt8) : Node :=
  chunkFrom counter.toUInt64 chunkStart initial (cut 64 bytes)

/-- A node over two others. -/
def parent (left right : Node) : Node :=
  ⟨initial, left.compress ++ right.compress, 0, 64, parentMark⟩

/-- The number of chunks on the left: the largest power of two that leaves one for the right. -/
def leftCount (n : Nat) : Nat := 1 <<< (n - 1).log2

/-- **Both sides have fewer chunks than the node.** -/
theorem leftCount_lt {n : Nat} (h : 2 ≤ n) : 0 < leftCount n ∧ leftCount n < n := by
  have hle : Nat.pow 2 (n - 1).log2 ≤ n - 1 := Nat.log2_self_le (by omega)
  have hleft : leftCount n = Nat.pow 2 (n - 1).log2 := Nat.one_shiftLeft _
  rw [hleft]
  exact ⟨Nat.two_pow_pos _, by omega⟩

/-- **The tree over chunks**, the first of which has this number. -/
def tree (counter : Nat) (chunks : List (List UInt8)) : Node :=
  match _h : chunks with
  | [] => leaf counter []
  | [c] => leaf counter c
  | c :: d :: r =>
    let k := leftCount (c :: d :: r).length
    parent (tree counter ((c :: d :: r).take k)) (tree (counter + k) ((c :: d :: r).drop k))
termination_by chunks.length
decreasing_by
  all_goals
    have := leftCount_lt (n := (c :: d :: r).length) (by simp)
    simp only [List.length_take, List.length_drop]
    omega

/-! ## The hash -/

/-- A word as bytes, the lowest first. -/
def wordBytes (w : UInt32) : List UInt8 :=
  [w.toUInt8, (w >>> 8).toUInt8, (w >>> 16).toUInt8, (w >>> 24).toUInt8]

/-- **The hash of bytes.** -/
def hash (bytes : List UInt8) : List UInt8 :=
  let top := tree 0 (cut 1024 bytes)
  let root : Node := { top with counter := 0, flags := top.flags ||| rootMark }
  root.compress.toList.flatMap wordBytes

/-- A byte in two hexadecimal digits. -/
def hexByte (b : UInt8) : List Char :=
  [Nat.digitChar (b.toNat / 16), Nat.digitChar (b.toNat % 16)]

/-- **The hash as text.** -/
def hexHash (bytes : List UInt8) : String := String.ofList ((hash bytes).flatMap hexByte)

end ModelPool.Blake3
