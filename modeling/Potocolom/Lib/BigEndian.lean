import Mathlib

/-! # Big-endian numbers

A number of a fixed width in bytes, the highest byte first. Writing a number that
fits and reading it back gives the number, and what is read always fits. -/

namespace BigEndian

/-- The number these bytes spell. -/
def fromBytes (bytes : List UInt8) : Nat := bytes.foldl (fun n b => 256 * n + b.toNat) 0

/-- The lowest `width` bytes of a number. -/
def toBytes : Nat → Nat → List UInt8
  | 0, _ => []
  | width + 1, n => toBytes width (n / 256) ++ [UInt8.ofNat n]

@[simp] theorem fromBytes_nil : fromBytes [] = 0 := rfl

theorem fromBytes_concat (bytes : List UInt8) (b : UInt8) :
    fromBytes (bytes ++ [b]) = 256 * fromBytes bytes + b.toNat := by
  simp [fromBytes]

@[simp] theorem length_toBytes (width n : Nat) : (toBytes width n).length = width := by
  induction width generalizing n with
  | zero => rfl
  | succ width ih => simp [toBytes, ih]

theorem fromBytes_toBytes {width n : Nat} (h : n < 256 ^ width) :
    fromBytes (toBytes width n) = n := by
  induction width generalizing n with
  | zero =>
    have hzero : n = 0 := by simpa using h
    rw [hzero]
    rfl
  | succ width ih =>
    have hdiv : n / 256 < 256 ^ width := by
      rw [Nat.div_lt_iff_lt_mul (by omega)]
      rw [Nat.pow_succ] at h
      exact h
    have hbyte : (UInt8.ofNat n).toNat = n % 256 := by simp
    rw [toBytes, fromBytes_concat, ih hdiv, hbyte]
    omega

theorem fromBytes_lt (bytes : List UInt8) : fromBytes bytes < 256 ^ bytes.length := by
  induction bytes using List.reverseRecOn with
  | nil => decide
  | append_singleton bytes b ih =>
    have hbyte : b.toNat < 256 := b.toNat_lt
    rw [fromBytes_concat, List.length_append, List.length_singleton, Nat.pow_succ]
    omega

/-- The bytes of the number that bytes spell are these bytes. -/
theorem toBytes_fromBytes (bytes : List UInt8) : toBytes bytes.length (fromBytes bytes) = bytes := by
  induction bytes using List.reverseRecOn with
  | nil => rfl
  | append_singleton bytes b ih =>
    have hbyte : b.toNat < 256 := b.toNat_lt
    have hdiv : (256 * fromBytes bytes + b.toNat) / 256 = fromBytes bytes := by omega
    have hlast : UInt8.ofNat (256 * fromBytes bytes + b.toNat) = b := by
      rw [← UInt8.toNat_inj]
      simp only [UInt8.toNat_ofNat']
      omega
    rw [List.length_append, List.length_singleton, toBytes, fromBytes_concat, hdiv, ih, hlast]

/-- Bytes spell a number exactly when they are its bytes. -/
theorem fromBytes_eq_iff {bytes : List UInt8} {width n : Nat} (hlength : bytes.length = width) :
    fromBytes bytes = n ↔ n < 256 ^ width ∧ bytes = toBytes width n := by
  constructor
  · rintro rfl
    rw [← hlength, toBytes_fromBytes]
    exact ⟨fromBytes_lt bytes, rfl⟩
  · rintro ⟨hn, rfl⟩
    exact fromBytes_toBytes hn

end BigEndian
