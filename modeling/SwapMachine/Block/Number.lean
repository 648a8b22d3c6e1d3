import SwapMachine.Identity.Address

/-!
# SwapMachine.Block.Number — whole numbers in big-endian bytes

`ofBytes` reads a number and `toBytes` writes its lowest bytes; they are inverse on numbers that
fit.
-/

namespace SwapMachine.Block.Number

/-- The number that bytes stand for, the most significant first. -/
def ofBytes (bs : Bytes) : Nat := bs.foldl (fun n b => 256 * n + b.toNat) 0

/-- The lowest `width` bytes of `n`, the most significant first. -/
def toBytes : Nat → Nat → Bytes
  | 0, _ => []
  | width + 1, n => toBytes width (n / 256) ++ [UInt8.ofNat (n % 256)]

@[simp] theorem length_toBytes (width n : Nat) : (toBytes width n).length = width := by
  induction width generalizing n with
  | zero => rfl
  | succ w ih => simp [toBytes, ih]

theorem ofBytes_concat (bs : Bytes) (b : UInt8) :
    ofBytes (bs ++ [b]) = 256 * ofBytes bs + b.toNat := by
  simp [ofBytes]

theorem ofBytes_toBytes {width n : Nat} (h : n < Nat.pow 256 width) :
    ofBytes (toBytes width n) = n := by
  induction width generalizing n with
  | zero => simp at h; simp [toBytes, ofBytes, h]
  | succ w ih =>
    have hq : n / 256 < Nat.pow 256 w := by
      have : Nat.pow 256 (w + 1) = Nat.pow 256 w * 256 := rfl
      omega
    rw [toBytes, ofBytes_concat, ih hq, UInt8.toNat_ofNat']
    omega

end SwapMachine.Block.Number
