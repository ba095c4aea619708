import IndexFS.Giga.Index
import Mathlib.Data.Nat.Bitwise

/-! The bitmap as the finite set of partitions it holds. `Bitmap.WF` says only the low
`BITS_PER_MAP` bits of a byte are used, and every update of `giga_index.c` keeps it. -/
namespace Giga

open PrefixTree

def capacity : ℕ := bitsPerMap * maxBmapLen

theorem capacity_eq : capacity = 259 := by decide

theorem mask_ne_zero (a : UInt8) (s : ℕ) (hs : s < 8) :
    ((a &&& UInt8.ofNat (1 <<< s)) != 0) = a.toNat.testBit s := by
  have pow : 2 ^ s < 2 ^ 8 := Nat.pow_lt_pow_right (by decide) hs
  have key : (a &&& UInt8.ofNat (1 <<< s)).toNat = (a.toNat.testBit s).toNat * 2 ^ s := by
    rw [UInt8.toNat_and, UInt8.toNat_ofNat', Nat.one_shiftLeft, Nat.mod_eq_of_lt pow,
      Nat.and_two_pow]
  cases hb : a.toNat.testBit s with
  | false =>
    rw [hb] at key
    simp only [Bool.toNat_false, Nat.zero_mul] at key
    simp [← UInt8.toNat_inj, key]
  | true =>
    rw [hb] at key
    simp only [Bool.toNat_true, Nat.one_mul] at key
    have nz : (a &&& UInt8.ofNat (1 <<< s)) ≠ 0 := by
      intro h
      rw [h] at key
      exact absurd key.symm (Nat.two_pow_pos s).ne'
    simpa using nz

theorem getBitStatus_eq (b : Bitmap) (n : ℕ) :
    getBitStatus b n = (byteAt b (n / bitsPerMap)).toNat.testBit (n % bitsPerMap) :=
  mask_ne_zero _ _ (Nat.lt_of_lt_of_le (Nat.mod_lt n (by decide)) (by decide))

theorem getBitStatus_lt (b : Bitmap) (n : ℕ) (set : getBitStatus b n = true) :
    n < capacity := by
  rw [getBitStatus_eq] at set
  by_contra big
  have out : ¬ n / bitsPerMap < maxBmapLen := by
    rw [capacity] at big
    intro h
    exact big (by have := Nat.div_add_mod n bitsPerMap; rw [bitsPerMap] at *; omega)
  simp [byteAt, out] at set

/-! ## Well-formed bitmaps -/

def Bitmap.WF (b : Bitmap) : Prop := ∀ k, (b k).toNat < 2 ^ bitsPerMap

theorem byteAt_lt (b : Bitmap) (wf : b.WF) (i : ℕ) : (byteAt b i).toNat < 2 ^ bitsPerMap := by
  unfold byteAt
  split
  · exact wf _
  · simp

theorem exists_bit_of_byteAt_ne_zero (b : Bitmap) (wf : b.WF) (i : ℕ) (nz : byteAt b i ≠ 0) :
    ∃ j < bitsPerMap, getBitStatus b (i * bitsPerMap + j) = true := by
  have ne : (byteAt b i).toNat ≠ 0 := by
    intro h
    exact nz (UInt8.toNat_inj.mp (by simpa using h))
  obtain ⟨j, hj⟩ := Nat.exists_testBit_of_ne_zero ne
  have jlt : j < bitsPerMap := by
    by_contra big
    have := Nat.testBit_lt_two_pow (Nat.lt_of_lt_of_le (byteAt_lt b wf i)
      (Nat.pow_le_pow_right (by decide) (Nat.le_of_not_lt big)))
    rw [this] at hj
    cases hj
  refine ⟨j, jlt, ?_⟩
  have hdiv : (i * bitsPerMap + j) / bitsPerMap = i := by
    rw [bitsPerMap] at *; omega
  have hmod : (i * bitsPerMap + j) % bitsPerMap = j := by
    rw [bitsPerMap] at *; omega
  rw [getBitStatus_eq, hdiv, hmod, hj]

/-! ## The set of partitions -/

def partitions (b : Bitmap) : Finset ℕ :=
  (Finset.range capacity).filter (fun n => getBitStatus b n)

@[simp] theorem mem_partitions (b : Bitmap) (n : ℕ) :
    n ∈ partitions b ↔ getBitStatus b n = true := by
  unfold partitions
  rw [Finset.mem_filter, Finset.mem_range]
  exact ⟨fun h => h.2, fun h => ⟨getBitStatus_lt b n h, h⟩⟩

theorem getBitStatus_setBit (b : Bitmap) (c n : ℕ) (fits : c < capacity) :
    getBitStatus (setBit b c) n = (decide (n = c) || getBitStatus b n) := by
  have inb : c / bitsPerMap < maxBmapLen := by
    rw [capacity] at fits; rw [bitsPerMap] at *; omega
  rw [getBitStatus_eq, getBitStatus_eq]
  by_cases same : n / bitsPerMap = c / bitsPerMap
  · have pow : 2 ^ (c % bitsPerMap) < 2 ^ 8 :=
      Nat.pow_lt_pow_right (by decide) (Nat.lt_of_lt_of_le (Nat.mod_lt c (by decide)) (by decide))
    have byte : byteAt (setBit b c) (n / bitsPerMap) =
        byteAt b (n / bitsPerMap) ||| UInt8.ofNat (1 <<< (c % bitsPerMap)) := by
      simp [byteAt, setBit, same, inb]
    rw [byte, UInt8.toNat_or, Nat.testBit_or, UInt8.toNat_ofNat', Nat.one_shiftLeft,
      Nat.mod_eq_of_lt pow, Nat.testBit_two_pow]
    by_cases hn : n = c
    · subst hn; simp
    · have hm : ¬ c % bitsPerMap = n % bitsPerMap := by
        intro hm
        have e1 := Nat.div_add_mod n bitsPerMap
        have e2 := Nat.div_add_mod c bitsPerMap
        rw [same, ← hm] at e1
        exact hn (e1.symm.trans e2)
      rw [decide_eq_false hm, decide_eq_false hn, Bool.or_false, Bool.false_or]
  · have hn : n ≠ c := fun h => same (h ▸ rfl)
    have byte : byteAt (setBit b c) (n / bitsPerMap) = byteAt b (n / bitsPerMap) := by
      unfold byteAt
      split
      · simp only [setBit]
        rw [if_neg same]
      · rfl
    rw [byte, decide_eq_false hn, Bool.false_or]

theorem partitions_setBit (b : Bitmap) (c : ℕ) (fits : c < capacity) :
    partitions (setBit b c) = insert c (partitions b) := by
  ext n
  simp [getBitStatus_setBit b c n fits]

theorem getBitStatus_or (b₁ b₂ : Bitmap) (n : ℕ) :
    getBitStatus (fun k => b₁ k ||| b₂ k) n = (getBitStatus b₁ n || getBitStatus b₂ n) := by
  rw [getBitStatus_eq (fun k => b₁ k ||| b₂ k), getBitStatus_eq b₁, getBitStatus_eq b₂]
  have byte : byteAt (fun k => b₁ k ||| b₂ k) (n / bitsPerMap) =
      byteAt b₁ (n / bitsPerMap) ||| byteAt b₂ (n / bitsPerMap) := by
    unfold byteAt
    split <;> simp
  rw [byte, UInt8.toNat_or, Nat.testBit_or]

theorem partitions_or (b₁ b₂ : Bitmap) :
    partitions (fun k => b₁ k ||| b₂ k) = partitions b₁ ∪ partitions b₂ := by
  ext n
  rw [mem_partitions, getBitStatus_or, Finset.mem_union, mem_partitions, mem_partitions,
    Bool.or_eq_true]

theorem Bitmap.WF.setBit {b : Bitmap} (wf : b.WF) (c : ℕ) : (Giga.setBit b c).WF := by
  intro k
  unfold Giga.setBit
  split
  · rw [UInt8.toNat_or]
    apply Nat.or_lt_two_pow (wf k)
    rw [UInt8.toNat_ofNat', Nat.one_shiftLeft]
    have small : c % bitsPerMap < bitsPerMap := Nat.mod_lt c (by decide)
    calc 2 ^ (c % bitsPerMap) % 2 ^ 8 ≤ 2 ^ (c % bitsPerMap) := Nat.mod_le _ _
      _ < 2 ^ bitsPerMap := Nat.pow_lt_pow_right (by decide) small
  · exact wf k

theorem Bitmap.WF.or {b₁ b₂ : Bitmap} (wf₁ : b₁.WF) (wf₂ : b₂.WF) : Bitmap.WF (fun k => b₁ k ||| b₂ k) := by
  intro k
  rw [UInt8.toNat_or]
  exact Nat.or_lt_two_pow (wf₁ k) (wf₂ k)

theorem WF_initialBitmap : initialBitmap.WF := by
  intro k
  unfold initialBitmap
  split <;> decide

theorem byteAt_initialBitmap (i : ℕ) : byteAt initialBitmap i = if i = 0 then 1 else 0 := by
  unfold byteAt initialBitmap
  split
  · rfl
  · rename_i out
    have ne : i ≠ 0 := by rintro rfl; exact out (by decide)
    simp [ne]

theorem partitions_initialBitmap : partitions initialBitmap = {0} := by
  ext n
  rw [mem_partitions, getBitStatus_eq, byteAt_initialBitmap, Finset.mem_singleton]
  by_cases low : n < bitsPerMap
  · have hdiv : n / bitsPerMap = 0 := Nat.div_eq_of_lt low
    rw [if_pos hdiv, Nat.mod_eq_of_lt low]
    exact Nat.testBit_one_eq_true_iff_self_eq_zero
  · have hdiv : n / bitsPerMap ≠ 0 := by
      rw [bitsPerMap] at *
      omega
    rw [if_neg hdiv]
    simp only [UInt8.toNat_zero, Nat.zero_testBit, Bool.false_eq_true, false_iff]
    rintro rfl
    exact low (by decide)

theorem getBitStatus_initialBitmap (i : ℕ) : getBitStatus initialBitmap i = true ↔ i = 0 := by
  rw [← mem_partitions, partitions_initialBitmap, Finset.mem_singleton]

end Giga
