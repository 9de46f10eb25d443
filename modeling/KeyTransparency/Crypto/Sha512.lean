import KeyTransparency.Bytes

/-!
# SHA-512

The hash function SHA-512 (`sha512`), with its 64-byte output. The padded
message is absorbed block by block (`absorb`). A block of 128 bytes is absorbed in
80 rounds, one for each round constant (`rounds`); the sixteen words of the
schedule that later rounds need move along with the rounds (`nextWords`).
-/

namespace KeyTransparency.Sha512

/-- The working variables, and the value passed from block to block. -/
structure Registers where
  a : UInt64
  b : UInt64
  c : UInt64
  d : UInt64
  e : UInt64
  f : UInt64
  g : UInt64
  h : UInt64

def initialValue : Registers :=
  ⟨0x6A09E667F3BCC908, 0xBB67AE8584CAA73B, 0x3C6EF372FE94F82B, 0xA54FF53A5F1D36F1,
   0x510E527FADE682D1, 0x9B05688C2B3E6C1F, 0x1F83D9ABFB41BD6B, 0x5BE0CD19137E2179⟩

def roundConstants : List UInt64 :=
  [0x428A2F98D728AE22, 0x7137449123EF65CD, 0xB5C0FBCFEC4D3B2F, 0xE9B5DBA58189DBBC,
   0x3956C25BF348B538, 0x59F111F1B605D019, 0x923F82A4AF194F9B, 0xAB1C5ED5DA6D8118,
   0xD807AA98A3030242, 0x12835B0145706FBE, 0x243185BE4EE4B28C, 0x550C7DC3D5FFB4E2,
   0x72BE5D74F27B896F, 0x80DEB1FE3B1696B1, 0x9BDC06A725C71235, 0xC19BF174CF692694,
   0xE49B69C19EF14AD2, 0xEFBE4786384F25E3, 0x0FC19DC68B8CD5B5, 0x240CA1CC77AC9C65,
   0x2DE92C6F592B0275, 0x4A7484AA6EA6E483, 0x5CB0A9DCBD41FBD4, 0x76F988DA831153B5,
   0x983E5152EE66DFAB, 0xA831C66D2DB43210, 0xB00327C898FB213F, 0xBF597FC7BEEF0EE4,
   0xC6E00BF33DA88FC2, 0xD5A79147930AA725, 0x06CA6351E003826F, 0x142929670A0E6E70,
   0x27B70A8546D22FFC, 0x2E1B21385C26C926, 0x4D2C6DFC5AC42AED, 0x53380D139D95B3DF,
   0x650A73548BAF63DE, 0x766A0ABB3C77B2A8, 0x81C2C92E47EDAEE6, 0x92722C851482353B,
   0xA2BFE8A14CF10364, 0xA81A664BBC423001, 0xC24B8B70D0F89791, 0xC76C51A30654BE30,
   0xD192E819D6EF5218, 0xD69906245565A910, 0xF40E35855771202A, 0x106AA07032BBD1B8,
   0x19A4C116B8D2D0C8, 0x1E376C085141AB53, 0x2748774CDF8EEB99, 0x34B0BCB5E19B48A8,
   0x391C0CB3C5C95A63, 0x4ED8AA4AE3418ACB, 0x5B9CCA4F7763E373, 0x682E6FF3D6B2B8A3,
   0x748F82EE5DEFB2FC, 0x78A5636F43172F60, 0x84C87814A1F0AB72, 0x8CC702081A6439EC,
   0x90BEFFFA23631E28, 0xA4506CEBDE82BDE9, 0xBEF9A3F7B2C67915, 0xC67178F2E372532B,
   0xCA273ECEEA26619C, 0xD186B8C721C0C207, 0xEADA7DD6CDE0EB1E, 0xF57D4F7FEE6ED178,
   0x06F067AA72176FBA, 0x0A637DC5A2C898A6, 0x113F9804BEF90DAE, 0x1B710B35131C471B,
   0x28DB77F523047D84, 0x32CAAB7B40C72493, 0x3C9EBE0A15C9BEBC, 0x431D67C49C100D4C,
   0x4CC5D4BECB3E42B6, 0x597F299CFC657E2A, 0x5FCB6FAB3AD6FAEC, 0x6C44198C4A475817]

def rotateRight (x n : UInt64) : UInt64 := (x >>> n) ||| (x <<< (64 - n))

def choose (e f g : UInt64) : UInt64 := (e &&& f) ^^^ (~~~e &&& g)

def majority (a b c : UInt64) : UInt64 := (a &&& b) ^^^ (a &&& c) ^^^ (b &&& c)

def bigSigma0 (x : UInt64) : UInt64 := rotateRight x 28 ^^^ rotateRight x 34 ^^^ rotateRight x 39

def bigSigma1 (x : UInt64) : UInt64 := rotateRight x 14 ^^^ rotateRight x 18 ^^^ rotateRight x 41

def smallSigma0 (x : UInt64) : UInt64 := rotateRight x 1 ^^^ rotateRight x 8 ^^^ (x >>> 7)

def smallSigma1 (x : UInt64) : UInt64 := rotateRight x 19 ^^^ rotateRight x 61 ^^^ (x >>> 6)

/-- The sixteen words of the schedule from the next one on, given those from the current one on. -/
def nextWords : List UInt64 → List UInt64
  | w :: ws => ws ++ [smallSigma1 (ws.getD 13 0) + ws.getD 8 0 + smallSigma0 (ws.getD 0 0) + w]
  | [] => []

/-- One round, with a round constant and a word of the schedule. -/
def Registers.round (v : Registers) (k w : UInt64) : Registers :=
  let t := v.h + bigSigma1 v.e + choose v.e v.f v.g + k + w
  ⟨t + bigSigma0 v.a + majority v.a v.b v.c, v.a, v.b, v.c, v.d + t, v.e, v.f, v.g⟩

def Registers.add (v w : Registers) : Registers :=
  ⟨v.a + w.a, v.b + w.b, v.c + w.c, v.d + w.d, v.e + w.e, v.f + w.f, v.g + w.g, v.h + w.h⟩

/-- A round for each of the round constants, with the words of the schedule from the current one on. -/
def rounds : List UInt64 → Registers → List UInt64 → Registers
  | k :: ks, v, w :: ws => rounds ks (v.round k w) (nextWords (w :: ws))
  | _, v, _ => v

/-- The given number of words, each most significant byte first. -/
def words : Nat → Bytes → List UInt64
  | 0, _ => []
  | n + 1, bs => UInt64.ofNat (Bytes.toNatLE (bs.take 8).reverse) :: words n (bs.drop 8)

def compress (v : Registers) (block : Bytes) : Registers :=
  v.add (rounds roundConstants v (words 16 block))

/-- The message, a one bit, zero bits up to a whole number of blocks, and the
length of the message in bits. -/
def pad (bs : Bytes) : Bytes :=
  bs ++ 0x80 :: List.replicate ((239 - bs.length % 128) % 128) 0 ++ Bytes.ofNatBE 16 (8 * bs.length)

/-- Absorbs the given number of blocks. -/
def absorb : Nat → Registers → Bytes → Registers
  | 0, v, _ => v
  | n + 1, v, bs => absorb n (compress v (bs.take 128)) (bs.drop 128)

def Registers.toBytes (v : Registers) : Bytes :=
  [v.a, v.b, v.c, v.d, v.e, v.f, v.g, v.h].flatMap fun w => Bytes.ofNatBE 8 w.toNat

end KeyTransparency.Sha512

namespace KeyTransparency

/-- The SHA-512 hash of a message, 64 bytes. -/
def sha512 (bs : Bytes) : Bytes :=
  let padded := Sha512.pad bs
  (Sha512.absorb (padded.length / 128) Sha512.initialValue padded).toBytes

end KeyTransparency
