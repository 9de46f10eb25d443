import KeyTransparency.Bytes

/-!
# BLAKE3

The hash function BLAKE3 with its 32-byte output (`blake3`). A message is cut
into chunks of 1024 bytes, a chunk into blocks of 64 bytes. The blocks of a
chunk are absorbed one after the other (`chunkValue`); the chunks are the leaves
of a binary tree in which neighbours are merged level by level, a node without
neighbour going up unchanged (`mergeLevel`). The last compression, of the only
chunk or of the two children of the root, is marked as such.
-/

namespace KeyTransparency.Blake3

/-- The eight words passed from one compression to the next. -/
abbrev ChainingValue := Vector UInt32 8

/-- The sixteen words of a block of 64 bytes. -/
abbrev MessageBlock := Vector UInt32 16

def initialValue : ChainingValue :=
  #v[0x6A09E667, 0xBB67AE85, 0x3C6EF372, 0xA54FF53A, 0x510E527F, 0x9B05688C, 0x1F83D9AB, 0x5BE0CD19]

/-- Where each word of a round's message is taken from in the round before. -/
def permutation : Vector (Fin 16) 16 := #v[2, 6, 3, 10, 7, 0, 4, 13, 1, 11, 12, 5, 9, 14, 15, 8]

/-! ## Domain flags -/

def chunkStart : UInt32 := 1
def chunkEnd : UInt32 := 2
def parent : UInt32 := 4
def root : UInt32 := 8

/-! ## Compression -/

/-- A column of the state, a square of four by four words. -/
structure Column where
  a : UInt32
  b : UInt32
  c : UInt32
  d : UInt32

structure State where
  p : Column
  q : Column
  r : Column
  s : Column

def rotateRight (x n : UInt32) : UInt32 := (x >>> n) ||| (x <<< (32 - n))

/-- The quarter round: mixes two words of the message into a column. -/
def Column.mix (v : Column) (x y : UInt32) : Column :=
  let a := v.a + v.b + x
  let d := rotateRight (v.d ^^^ a) 16
  let c := v.c + d
  let b := rotateRight (v.b ^^^ c) 12
  let a := a + b + y
  let d := rotateRight (d ^^^ a) 8
  let c := c + d
  ⟨a, rotateRight (b ^^^ c) 7, c, d⟩

/-- The diagonals of the square as columns. -/
def State.diagonals (v : State) : State :=
  ⟨⟨v.p.a, v.q.b, v.r.c, v.s.d⟩, ⟨v.q.a, v.r.b, v.s.c, v.p.d⟩,
   ⟨v.r.a, v.s.b, v.p.c, v.q.d⟩, ⟨v.s.a, v.p.b, v.q.c, v.r.d⟩⟩

/-- The square whose diagonals are the given columns. -/
def State.ofDiagonals (v : State) : State :=
  ⟨⟨v.p.a, v.s.b, v.r.c, v.q.d⟩, ⟨v.q.a, v.p.b, v.s.c, v.r.d⟩,
   ⟨v.r.a, v.q.b, v.p.c, v.s.d⟩, ⟨v.s.a, v.r.b, v.q.c, v.p.d⟩⟩

/-- Mixes the columns with one half of the message and the diagonals with the other. -/
def State.round (v : State) (m : MessageBlock) : State :=
  let v := State.diagonals
    ⟨v.p.mix m[0] m[1], v.q.mix m[2] m[3], v.r.mix m[4] m[5], v.s.mix m[6] m[7]⟩
  State.ofDiagonals
    ⟨v.p.mix m[8] m[9], v.q.mix m[10] m[11], v.r.mix m[12] m[13], v.s.mix m[14] m[15]⟩

def permute (m : MessageBlock) : MessageBlock := permutation.map fun i => m[i]

/-- The given number of rounds, the message permuted between them. -/
def rounds : Nat → State → MessageBlock → State
  | 0, v, _ => v
  | n + 1, v, m => rounds n (v.round m) (permute m)

/-- One compression: seven rounds, and the two halves of the square combined. -/
def compress (cv : ChainingValue) (m : MessageBlock) (counter : UInt64) (blockLength flags : UInt32) :
    ChainingValue :=
  let iv := initialValue
  let v := rounds 7
    ⟨⟨cv[0], cv[4], iv[0], counter.toUInt32⟩, ⟨cv[1], cv[5], iv[1], (counter >>> 32).toUInt32⟩,
     ⟨cv[2], cv[6], iv[2], blockLength⟩, ⟨cv[3], cv[7], iv[3], flags⟩⟩ m
  #v[v.p.a ^^^ v.p.c, v.q.a ^^^ v.q.c, v.r.a ^^^ v.r.c, v.s.a ^^^ v.s.c,
     v.p.b ^^^ v.p.d, v.q.b ^^^ v.q.d, v.r.b ^^^ v.r.d, v.s.b ^^^ v.s.d]

/-! ## Chunks -/

/-- The sixteen words of at most 64 bytes, filled up with zero bytes. -/
def messageBlock (bs : Bytes) : MessageBlock :=
  Vector.ofFn fun i => UInt32.ofNat (Bytes.toNatLE ((bs.drop (4 * i)).take 4))

/-- Absorbs the blocks of a chunk that are left. The last of them carries the
end flag and the flags in `final`. -/
def absorb (counter : UInt64) (final : UInt32) (cv : ChainingValue) (start : UInt32) (bs : Bytes) :
    ChainingValue :=
  if bs.length ≤ 64 then
    compress cv (messageBlock bs) counter (UInt32.ofNat bs.length) (start ||| chunkEnd ||| final)
  else
    absorb counter final (compress cv (messageBlock bs) counter 64 start) 0 (bs.drop 64)
termination_by bs.length
decreasing_by simp only [List.length_drop]; omega

/-- The value of the chunk with the given number. -/
def chunkValue (number : Nat) (final : UInt32) (bs : Bytes) : ChainingValue :=
  absorb (UInt64.ofNat number) final initialValue chunkStart bs

/-- The values of the chunks of a message longer than one chunk, numbered from the given number. -/
def chunkValues (number : Nat) (bs : Bytes) : List ChainingValue :=
  if bs.length ≤ 1024 then [chunkValue number 0 bs]
  else chunkValue number 0 (bs.take 1024) :: chunkValues (number + 1) (bs.drop 1024)
termination_by bs.length
decreasing_by simp only [List.length_drop]; omega

/-! ## The tree -/

/-- The value of the node above two neighbours. -/
def parentValue (final : UInt32) (left right : ChainingValue) : ChainingValue :=
  compress initialValue (left ++ right) 0 64 (parent ||| final)

/-- The next level of the tree. -/
def mergeLevel : List ChainingValue → List ChainingValue
  | left :: right :: rest => parentValue 0 left right :: mergeLevel rest
  | rest => rest

theorem length_mergeLevel_le : ∀ vs : List ChainingValue, (mergeLevel vs).length ≤ vs.length
  | _ :: _ :: rest => by
    have := length_mergeLevel_le rest
    simp only [mergeLevel, List.length_cons]
    omega
  | [] => Nat.le_refl _
  | [_] => Nat.le_refl _

/-- The root above the nodes of one level. -/
def rootValue : List ChainingValue → ChainingValue
  | [left, right] => parentValue root left right
  | left :: right :: next :: rest => rootValue (mergeLevel (left :: right :: next :: rest))
  | [only] => only
  | [] => initialValue
termination_by vs => vs.length
decreasing_by
  have := length_mergeLevel_le (next :: rest)
  simp only [mergeLevel, List.length_cons] at *
  omega

/-- The eight words as bytes, each least significant byte first. -/
def toBlock (v : ChainingValue) : Block32 :=
  ⟨v.toList.flatMap fun w => Bytes.ofNatLE 4 w.toNat, by
    simp [List.length_flatMap, List.map_const']⟩

end KeyTransparency.Blake3

namespace KeyTransparency

/-- The BLAKE3 hash of a message. -/
@[irreducible]
def blake3 (bs : Bytes) : Block32 :=
  Blake3.toBlock <|
    if bs.length ≤ 1024 then Blake3.chunkValue 0 Blake3.root bs
    else Blake3.rootValue (Blake3.chunkValues 0 bs)

end KeyTransparency
