import IndexFS.Giga.Partitions

/-! `giga_get_index_for_file` refines `PrefixTree.lookup` on a well-formed bitmap holding
partition 0, and the split helpers are pinned down against the same tree. -/
namespace Giga

open PrefixTree

/-- The bits `compute_index` reads from a hash, low bit first, as a number. -/
def hashKey (hash : Hash) : ℕ := (reverseByte (hashByte hash 0)).toNat

/-- The tree-closure the split protocol keeps, in the words of `giga_index.c`. -/
def TreeClosed (bitmap : Bitmap) : Prop :=
  getBitStatus bitmap 0 = true ∧
    ∀ i, getBitStatus bitmap i = true → getBitStatus bitmap (getParentIndex i) = true

theorem getParentIndex_eq (index : ℕ) : getParentIndex index = parent index := by
  unfold getParentIndex
  split
  · rfl
  · rename_i zero
    rw [Nat.eq_zero_of_not_pos zero]
    rfl

theorem getRadixFromIndex_eq (index : ℕ) : getRadixFromIndex index = Nat.size index := by
  unfold getRadixFromIndex
  split
  · rename_i zero
    rw [zero, Nat.size_zero]
  · split
    · rename_i one
      rw [one, Nat.size_one]
    · rename_i zero _
      exact (size_eq_log2_succ index (Nat.pos_of_ne_zero zero)).symm

theorem treeClosed_iff (bitmap : Bitmap) : TreeClosed bitmap ↔ Closed (partitions bitmap) := by
  simp only [TreeClosed, Closed, mem_partitions, getParentIndex_eq]

theorem treeClosed_initialBitmap : TreeClosed initialBitmap := by
  rw [treeClosed_iff, partitions_initialBitmap]
  refine ⟨Finset.mem_singleton_self 0, ?_⟩
  intro n mem
  rw [Finset.mem_singleton.mp mem, parent_zero]
  exact Finset.mem_singleton_self 0

/-! ## The largest partition -/

theorem scanDown_byteAt_highest {b : Bitmap} (wf : b.WF) {M : ℕ}
    (setM : getBitStatus b M = true) (top : ∀ n, getBitStatus b n = true → n ≤ M) :
    scanDown (fun i => byteAt b i != 0) maxBmapLen = some (M / bitsPerMap) := by
  have fits : M < capacity := getBitStatus_lt b M setM
  rw [scanDown_eq_some]
  refine ⟨?_, ?_, ?_⟩
  · rw [capacity] at fits
    rw [bitsPerMap] at *
    omega
  · rw [getBitStatus_eq] at setM
    have nz : byteAt b (M / bitsPerMap) ≠ 0 := by
      intro zero
      rw [zero] at setM
      simp at setM
    simpa using nz
  · -- a later nonzero byte would hold a set bit above `M`
    intro j above _
    by_contra nz
    obtain ⟨k, hk, set⟩ := exists_bit_of_byteAt_ne_zero b wf j (by simpa using nz)
    have := top _ set
    rw [bitsPerMap] at *
    omega

theorem scanDown_bit_highest {b : Bitmap} {M : ℕ} (setM : getBitStatus b M = true)
    (top : ∀ n, getBitStatus b n = true → n ≤ M) :
    scanDown (fun j => (byteAt b (M / bitsPerMap) &&& UInt8.ofNat (1 <<< j)) != 0)
      bitsPerMap = some (M % bitsPerMap) := by
  have low : M % bitsPerMap < bitsPerMap := Nat.mod_lt M (by decide)
  have split : M / bitsPerMap * bitsPerMap + M % bitsPerMap = M := Nat.div_add_mod' M _
  rw [scanDown_eq_some]
  refine ⟨low, ?_, ?_⟩
  · rw [mask_ne_zero _ _ (Nat.lt_of_lt_of_le low (by decide)), ← getBitStatus_eq]
    exact setM
  · -- a higher set bit of the byte would lie above `M`
    intro j above small
    rw [mask_ne_zero _ _ (Nat.lt_of_lt_of_le small (by decide))]
    by_contra set
    have atJ : getBitStatus b (M / bitsPerMap * bitsPerMap + j) = true := by
      rw [getBitStatus_eq]
      have hdiv : (M / bitsPerMap * bitsPerMap + j) / bitsPerMap = M / bitsPerMap := by
        rw [bitsPerMap] at *
        omega
      have hmod : (M / bitsPerMap * bitsPerMap + j) % bitsPerMap = j := by
        rw [bitsPerMap] at *
        omega
      rw [hdiv, hmod]
      simpa using set
    have := top _ atJ
    omega

theorem sup_mem_partitions {b : Bitmap} (ne : (partitions b).Nonempty) :
    (partitions b).sup id ∈ partitions b := by
  obtain ⟨a, ha, eq⟩ := Finset.exists_mem_eq_sup _ ne id
  rw [eq]
  exact ha

theorem getHighestIndex_eq (b : Bitmap) (wf : b.WF) (ne : (partitions b).Nonempty) :
    getHighestIndex b = some ((partitions b).sup id) := by
  set M := (partitions b).sup id
  have hM : M ∈ partitions b := sup_mem_partitions ne
  have top : ∀ n, getBitStatus b n = true → n ≤ M :=
    fun n h => Finset.le_sup (f := id) ((mem_partitions b n).mpr h)
  have setM : getBitStatus b M = true := (mem_partitions b M).mp hM
  simp only [getHighestIndex, scanDown_byteAt_highest wf setM top, scanDown_bit_highest setM top,
    Nat.div_add_mod']

theorem getRadixFromBmap_eq (b : Bitmap) (wf : b.WF) (ne : (partitions b).Nonempty) :
    getRadixFromBmap b = some (Nat.size ((partitions b).sup id)) := by
  rw [getRadixFromBmap, getHighestIndex_eq b wf ne, Option.map_some,
    getRadixFromIndex_eq]

/-! ## The lookup -/

theorem climb_eq (b : Bitmap) (fuel index : ℕ) :
    climb b fuel index = walk (fun n => decide (n ∈ partitions b)) fuel index := by
  induction fuel generalizing index with
  | zero => rfl
  | succ fuel ih =>
    simp only [climb, walk, mem_partitions, Bool.decide_eq_true, getParentIndex_eq, ih]

theorem computeIndex_eq (hash : Hash) (radix : ℕ) (small : radix < maxRadix) :
    computeIndex hash radix = some (hashKey hash % 2 ^ radix) := by
  have r8 : radix < 8 := small
  have nb : radix / 8 = 0 := Nat.div_eq_of_lt r8
  have rb : radix % 8 = radix := Nat.mod_eq_of_lt r8
  simp only [computeIndex, if_pos small, nb, rb, List.range_zero, List.foldl_nil,
    Nat.zero_mul, Nat.shiftLeft_zero, Nat.zero_add, Nat.one_shiftLeft]
  split
  · rw [Nat.and_two_pow_sub_one_eq_mod]
    rfl
  · rename_i zero
    rw [Nat.eq_zero_of_not_pos zero, Nat.pow_zero, Nat.mod_one]

theorem gigaGetIndexForFile_eq (m : GigaMapping) (wf : m.bitmap.WF)
    (root : getBitStatus m.bitmap 0 = true)
    (below : ∀ n ∈ partitions m.bitmap, n < 2 ^ (maxRadix - 1)) (hash : Hash) :
    gigaGetIndexForFile m hash = some (lookup (partitions m.bitmap) (hashKey hash)) := by
  have root' : 0 ∈ partitions m.bitmap := (mem_partitions _ 0).mpr root
  have radix := getRadixFromBmap_eq m.bitmap wf ⟨0, root'⟩
  have small : Nat.size ((partitions m.bitmap).sup id) < maxRadix := by
    have h : (partitions m.bitmap).sup id < 2 ^ (maxRadix - 1) :=
      Finset.sup_lt_iff (Nat.two_pow_pos _) |>.mpr below
    have := Nat.size_le.mpr h
    rw [maxRadix] at *
    omega
  -- `rw`, not `simp`, for the radix: the kernel then checks no unfolded `Finset.sup`
  simp only [gigaGetIndexForFile, radix, Option.bind_eq_bind, Option.bind_some]
  rw [computeIndex_eq hash _ small, Option.bind_some, climb_eq,
    walk_mod_pow _ root' _ _ _ (Nat.lt_succ_self _)]
  rfl

/-! ## The split helpers -/

theorem splitSearch_spec (b : Bitmap) (index : ℕ) :
    ∀ remaining i c, splitSearch b index remaining i = some c →
      ∃ j, i ≤ j ∧ j < i + remaining ∧ c = getChildIndex index j ∧
        getBitStatus b c = false := by
  intro remaining
  induction remaining with
  | zero => intro i c h; cases h
  | succ remaining ih =>
    intro i c h
    simp only [splitSearch] at h
    split at h
    · obtain ⟨j, hij, hj, eq, clear⟩ := ih (i + 1) c h
      exact ⟨j, by omega, by omega, eq, clear⟩
    · rename_i clear
      cases h
      exact ⟨i, le_refl i, by omega, rfl, by simpa using clear⟩

theorem gigaIndexForSplitting_spec (m : GigaMapping) (index c : ℕ)
    (found : gigaIndexForSplitting m index = some c) :
    getBitStatus m.bitmap index = true ∧
      ∃ j, index < 2 ^ j ∧ j < maxRadix ∧ c = index + 2 ^ j ∧
        getBitStatus m.bitmap c = false := by
  unfold gigaIndexForSplitting at found
  split at found
  · rename_i set
    refine ⟨set, ?_⟩
    obtain ⟨j, hij, hj, eq, clear⟩ := splitSearch_spec _ _ _ _ c found
    rw [getRadixFromIndex_eq] at hij hj
    refine ⟨j, Nat.lt_of_lt_of_le (Nat.lt_size_self index) (Nat.pow_le_pow_right (by decide) hij),
      by omega, eq, clear⟩
  · cases found

theorem gigaUpdateMapping_eq (m : GigaMapping) (c : ℕ) (wf : m.bitmap.WF) (fits : c < capacity) :
    gigaUpdateMapping m c = some { m with
      bitmap := setBit m.bitmap c
      currRadix := Nat.size ((insert c (partitions m.bitmap)).sup id) } := by
  have ne : (partitions (setBit m.bitmap c)).Nonempty := by
    rw [partitions_setBit _ _ fits]
    exact Finset.insert_nonempty c _
  simp only [gigaUpdateMapping, getRadixFromBmap_eq _ (wf.setBit c) ne, Option.map_some,
    partitions_setBit _ _ fits]

theorem giga_file_migration_status_eq (hash : Hash) (c : ℕ) (small : c < 2 ^ (maxRadix - 1)) :
    gigaFileMigrationStatusWithHash hash c =
      some (if hashKey hash % 2 ^ Nat.size c = c then 1 else 0) := by
  have radix : Nat.size c < maxRadix := by
    have := Nat.size_le.mpr small
    rw [maxRadix] at *
    omega
  simp only [gigaFileMigrationStatusWithHash, getRadixFromIndex_eq,
    computeIndex_eq hash _ radix, Option.map_some]

end Giga
