import Std.Data.ExtTreeMap

/-!
# Byte strings

Byte strings are lists of bytes. They carry numbers little-endian
(`Bytes.ofNatLE`, `Bytes.toNatLE`) and big-endian (`Bytes.ofNatBE`), and the
32-byte strings (`Block32`) that digests, identities, keys and halves of
signatures are made of. Blocks are ordered byte by byte, first byte first.

* `Block32.ext`: a block is its bytes;
* `Block32.ofBytes?_eq_some_iff`: it is made of these bytes and no others.
-/

namespace KeyTransparency

abbrev Bytes := List UInt8

instance : LawfulBEq Bytes := inferInstanceAs (LawfulBEq (List UInt8))

namespace Bytes

/-- The number whose least significant byte comes first. -/
def toNatLE : Bytes → Nat
  | [] => 0
  | b :: bs => b.toNat + 256 * toNatLE bs

/-- The lowest `width` bytes of a number, least significant first. -/
def ofNatLE : Nat → Nat → Bytes
  | 0, _ => []
  | width + 1, n => UInt8.ofNat n :: ofNatLE width (n / 256)

/-- The lowest `width` bytes of a number, most significant first. -/
def ofNatBE (width n : Nat) : Bytes := (ofNatLE width n).reverse

@[simp] theorem length_ofNatLE (width n : Nat) : (ofNatLE width n).length = width := by
  induction width generalizing n with
  | zero => rfl
  | succ width ih => simp [ofNatLE, ih]

@[simp] theorem length_ofNatBE (width n : Nat) : (ofNatBE width n).length = width := by
  simp [ofNatBE]

/-- A byte more makes 256 times as many numbers. -/
theorem one_shiftLeft_succ (width : Nat) : 1 <<< (8 * (width + 1)) = 256 * (1 <<< (8 * width)) := by
  rw [Nat.mul_succ, Nat.shiftLeft_add, Nat.shiftLeft_eq _ 8, Nat.mul_comm]

end Bytes

/-- A byte string of 32 bytes. -/
structure Block32 where
  bytes : Bytes
  length_eq : bytes.length = 32
deriving DecidableEq

namespace Block32

@[ext] theorem ext {a b : Block32} (h : a.bytes = b.bytes) : a = b := by
  cases a; cases b; simp_all

/-- 32 copies of one byte. -/
def replicate (b : UInt8) : Block32 := ⟨List.replicate 32 b, by simp⟩

/-- The lowest 32 bytes of a number, least significant first. -/
def ofNatLE (n : Nat) : Block32 := ⟨Bytes.ofNatLE 32 n, by simp⟩

def toNatLE (a : Block32) : Nat := Bytes.toNatLE a.bytes

/-- The block with exactly the given bytes, if there are 32 of them. -/
def ofBytes? (bs : Bytes) : Option Block32 :=
  if h : bs.length = 32 then some ⟨bs, h⟩ else none

instance : Inhabited Block32 := ⟨replicate 0⟩

/-- Blocks are compared byte by byte, the first difference deciding. -/
instance : Ord Block32 := ⟨fun a b => compare a.bytes b.bytes⟩

instance : Std.TransOrd Block32 where
  eq_swap {a b} :=
    show compare a.bytes b.bytes = (compare b.bytes a.bytes).swap from Std.OrientedCmp.eq_swap
  isLE_trans {a b c} hab hbc :=
    have hab : (compare a.bytes b.bytes).isLE := hab
    have hbc : (compare b.bytes c.bytes).isLE := hbc
    show (compare a.bytes c.bytes).isLE from Std.TransCmp.isLE_trans hab hbc

instance : Std.LawfulEqOrd Block32 where
  eq_of_compare {a b} h :=
    ext (Std.compare_eq_iff_eq.mp (show compare a.bytes b.bytes = .eq from h))

theorem ofBytes?_eq_some_iff {bs : Bytes} {a : Block32} : ofBytes? bs = some a ↔ bs = a.bytes := by
  constructor
  · intro h
    simp only [ofBytes?] at h
    split at h
    · cases h; rfl
    · cases h
  · rintro rfl
    simp [ofBytes?, a.length_eq]

end Block32

end KeyTransparency
