import Mathlib.Algebra.Order.Ring.Int
import Mathlib.Data.List.OfFn

/-! The C conversions between unsigned and signed integers: an unsigned value assigned to
an `int` keeps its low 32 bits, read in two's complement, and a signed value assigned to a
`uint64_t` is taken modulo `2^64`. And the bytes of an unsigned integer in memory, least
significant first, as `memcpy` copies them on a little-endian host. -/

namespace CInt

def narrow32 (n : ℕ) : ℤ := Int.bmod n (2 ^ 32)

def widen64 (z : ℤ) : ℕ := (z % 2 ^ 64).toNat

theorem widen64_lt (z : ℤ) : widen64 z < 2 ^ 64 := by
  have bound := Int.emod_lt_of_pos z (by decide : (0 : ℤ) < 2 ^ 64)
  have nonneg := Int.emod_nonneg z (by decide : (2 : ℤ) ^ 64 ≠ 0)
  simp only [widen64]
  omega

theorem widen64_narrow32_emod (n : ℕ) : (widen64 (narrow32 n) : ℤ) % 2 ^ 32 = n % 2 ^ 32 := by
  have nonneg := Int.emod_nonneg (narrow32 n) (by decide : (2 : ℤ) ^ 64 ≠ 0)
  have dvd : (2 : ℤ) ^ 32 ∣ 2 ^ 64 := pow_dvd_pow 2 (by omega)
  have cast : (widen64 (narrow32 n) : ℤ) = narrow32 n % 2 ^ 64 := Int.toNat_of_nonneg nonneg
  -- `bmod` changes a value by a multiple of `2^32`
  have low : narrow32 n % 2 ^ 32 = n % 2 ^ 32 := by
    have kept := Int.bmod_emod (x := (n : ℤ)) (m := 2 ^ 32)
    unfold narrow32
    exact_mod_cast kept
  calc (widen64 (narrow32 n) : ℤ) % 2 ^ 32
      = narrow32 n % 2 ^ 64 % 2 ^ 32 := congrArg (· % 2 ^ 32) cast
    _ = narrow32 n % 2 ^ 32 := Int.emod_emod_of_dvd _ dvd
    _ = n % 2 ^ 32 := low

theorem widen64_narrow32_mod (n : ℕ) {k : ℕ} (le : k ≤ 32) :
    widen64 (narrow32 n) % 2 ^ k = n % 2 ^ k := by
  have dvd : (2 : ℤ) ^ k ∣ 2 ^ 32 := pow_dvd_pow 2 le
  have low := congrArg (· % (2 : ℤ) ^ k) (widen64_narrow32_emod n)
  simp only [Int.emod_emod_of_dvd _ dvd] at low
  exact_mod_cast low

theorem widen64_narrow32_eq {n n' : ℕ} (same : n % 2 ^ 32 = n' % 2 ^ 32) :
    widen64 (narrow32 n) = widen64 (narrow32 n') := by
  have same' : (n : ℤ) % ((2 ^ 32 : ℕ) : ℤ) = (n' : ℤ) % ((2 ^ 32 : ℕ) : ℤ) := by
    rw [← Int.natCast_mod, ← Int.natCast_mod, same]
  have narrow : narrow32 n = narrow32 n' := by
    unfold narrow32
    rw [← Int.emod_bmod, same', Int.emod_bmod]
  exact congrArg widen64 narrow

def toInt32 (z : ℤ) : ℤ := Int.bmod z (2 ^ 32)

theorem toInt32_of_lt {z : ℤ} (le : -2 ^ 31 ≤ z) (lt : z < 2 ^ 31) : toInt32 z = z :=
  Int.bmod_eq_of_le (by simpa using le) (by simpa using lt)

def narrow16 (n : ℕ) : ℤ := Int.bmod n (2 ^ 16)

def widen32 (z : ℤ) : ℕ := (z % 2 ^ 32).toNat

theorem widen32_narrow16 {n : ℕ} (lt : n < 2 ^ 15) : widen32 (narrow16 n) = n := by
  have narrow : narrow16 n = n := Int.bmod_eq_of_le (by omega) (by omega)
  rw [widen32, narrow]
  omega

theorem narrow16_widen32 {z : ℤ} (le : -2 ^ 15 ≤ z) (lt : z < 2 ^ 15) :
    narrow16 (widen32 z) = z := by
  have nonneg := Int.emod_nonneg z (by decide : (2 : ℤ) ^ 32 ≠ 0)
  -- `bmod` by `2^16` reads only the residue, and `2^16` divides `2^32`
  have low : (widen32 z : ℤ) % (2 ^ 16 : ℕ) = z % (2 ^ 16 : ℕ) := by
    rw [widen32, Int.toNat_of_nonneg nonneg]
    exact Int.emod_emod_of_dvd z (by exact_mod_cast pow_dvd_pow 2 (by omega : 16 ≤ 32))
  unfold narrow16
  rw [← Int.emod_bmod, low, Int.emod_bmod]
  exact Int.bmod_eq_of_le (by omega) (by omega)

/-! ### Bytes in memory -/

def leBytes : ℕ → ℕ → List UInt8
  | 0, _ => []
  | k + 1, n => UInt8.ofNat n :: leBytes k (n / 256)

def decodeLe : List UInt8 → ℕ
  | [] => 0
  | b :: bs => b.toNat + 256 * decodeLe bs

@[simp] theorem length_leBytes (k n : ℕ) : (leBytes k n).length = k := by
  induction k generalizing n with
  | zero => rfl
  | succ k ih => simp [leBytes, ih]

theorem decodeLe_leBytes (k n : ℕ) : decodeLe (leBytes k n) = n % 256 ^ k := by
  induction k generalizing n with
  | zero => simp [leBytes, decodeLe, Nat.mod_one]
  | succ k ih =>
    have low : (UInt8.ofNat n).toNat = n % 256 := by simp
    rw [leBytes, decodeLe, ih, low, pow_succ', Nat.mod_mul]

theorem ofFn_eq_leBytes (k n : ℕ) :
    List.ofFn (fun i : Fin k => UInt8.ofNat (n / 256 ^ i.val)) = leBytes k n := by
  induction k generalizing n with
  | zero => rfl
  | succ k ih =>
    rw [List.ofFn_succ, leBytes, ← ih (n / 256)]
    simp only [Fin.val_zero, pow_zero, Nat.div_one, Fin.val_succ, pow_succ', Nat.div_div_eq_div_mul]

theorem leBytes_injective {k n n' : ℕ} (lt : n < 256 ^ k) (lt' : n' < 256 ^ k)
    (same : leBytes k n = leBytes k n') : n = n' := by
  have decoded := congrArg decodeLe same
  rwa [decodeLe_leBytes, decodeLe_leBytes, Nat.mod_eq_of_lt lt, Nat.mod_eq_of_lt lt'] at decoded

end CInt
