import IndexFS.Giga.Split

/-! What `giga_get_index_for_file` finds, and how `giga_update_cache` moves it: the merge is the
union of the bitmaps, and a lookup on it finds a descendant of what either input finds. -/
namespace Giga

open PrefixTree

/-- The deepest set prefix: on a shaped bitmap, `get_highest_index` is the largest set index,
and the lookup returns `x mod 2^k` for the largest `k ≤ get_radix_from_bmap` whose bit is
set, `x` being the hash key. -/
theorem lookup_deepest_prefix (m : GigaMapping) (wf : m.bitmap.WF)
    (root : getBitStatus m.bitmap 0 = true)
    (below : ∀ i, getBitStatus m.bitmap i = true → i < 128) (hash : Hash) :
    (∀ r < maxRadix, computeIndex hash r = some (hashKey hash % 2 ^ r)) ∧
      ∃ M R k, getHighestIndex m.bitmap = some M ∧ getBitStatus m.bitmap M = true ∧
        (∀ i, getBitStatus m.bitmap i = true → i ≤ M) ∧ getRadixFromBmap m.bitmap = some R ∧
        R = Nat.size M ∧ k ≤ R ∧ getBitStatus m.bitmap (hashKey hash % 2 ^ k) = true ∧
        (∀ j ≤ R, getBitStatus m.bitmap (hashKey hash % 2 ^ j) = true → j ≤ k) ∧
        gigaGetIndexForFile m hash = some (hashKey hash % 2 ^ k) := by
  set S := partitions m.bitmap
  set x := hashKey hash
  have root' : 0 ∈ S := (mem_partitions _ 0).mpr root
  have below' : ∀ n ∈ S, n < 2 ^ (maxRadix - 1) := fun n mem => below n ((mem_partitions _ n).mp mem)
  -- the largest depth up to the radix whose prefix is set
  set K := Nat.findGreatest (fun k => x % 2 ^ k ∈ S) (Nat.size (S.sup id))
  have found : gigaGetIndexForFile m hash = some (x % 2 ^ K) := by
    rw [gigaGetIndexForFile_eq m wf root below' hash, lookup, deepest_eq_findGreatest root']
  refine ⟨fun r small => computeIndex_eq hash r small, _, _, K,
    getHighestIndex_eq m.bitmap wf ⟨0, root'⟩, (mem_partitions _ _).mp (sup_mem_partitions ⟨0, root'⟩),
    fun i set => Finset.le_sup (f := id) ((mem_partitions _ i).mpr set),
    getRadixFromBmap_eq m.bitmap wf ⟨0, root'⟩, rfl, Nat.findGreatest_le _, ?_, fun j le set => ?_,
    found⟩
  · exact (mem_partitions _ _).mp (Nat.findGreatest_spec (P := fun k => x % 2 ^ k ∈ S)
      (Nat.zero_le _) (by rw [Nat.pow_zero, Nat.mod_one]; exact root'))
  · exact Nat.le_findGreatest le ((mem_partitions _ _).mpr set)

theorem partitions_firstSplit : partitions (setBit initialBitmap 1) = {1, 0} := by
  rw [partitions_setBit _ _ (by decide), partitions_initialBitmap]

theorem lookup_deepest_prefix_splitRoot :
    (∀ r < maxRadix, computeIndex (fun _ => 0x80) r = some (hashKey (fun _ => 0x80) % 2 ^ r)) ∧
      ∃ M R k, getHighestIndex (setBit initialBitmap 1) = some M ∧
        getBitStatus (setBit initialBitmap 1) M = true ∧
        (∀ i, getBitStatus (setBit initialBitmap 1) i = true → i ≤ M) ∧
        getRadixFromBmap (setBit initialBitmap 1) = some R ∧
        R = Nat.size M ∧ k ≤ R ∧
        getBitStatus (setBit initialBitmap 1) (hashKey (fun _ => 0x80) % 2 ^ k) = true ∧
        (∀ j ≤ R, getBitStatus (setBit initialBitmap 1) (hashKey (fun _ => 0x80) % 2 ^ j) = true →
          j ≤ k) ∧
        gigaGetIndexForFile { gigaInitMapping 0 0 2 with bitmap := setBit initialBitmap 1 }
          (fun _ => 0x80) = some (hashKey (fun _ => 0x80) % 2 ^ k) :=
  lookup_deepest_prefix { gigaInitMapping 0 0 2 with bitmap := setBit initialBitmap 1 }
    (WF_initialBitmap.setBit 1) (by decide)
    (fun i set => by
      have mem := (mem_partitions _ i).mpr set
      rw [partitions_firstSplit, Finset.mem_insert, Finset.mem_singleton] at mem
      omega)
    (fun _ => 0x80)

/-! ### Mappings the lookup law takes -/

structure Bitmap.Shaped (b : Bitmap) : Prop where
  wf : b.WF
  closed : TreeClosed b
  below : ∀ i, getBitStatus b i = true → i < 128

section Shaped

variable {m m' : GigaMapping}

theorem Bitmap.Shaped.or {b₁ b₂ : Bitmap} (shaped₁ : b₁.Shaped) (shaped₂ : b₂.Shaped) :
    Bitmap.Shaped (fun k => b₁ k ||| b₂ k) where
  wf := shaped₁.wf.or shaped₂.wf
  closed := by
    rw [treeClosed_iff, partitions_or]
    exact Closed.union ((treeClosed_iff _).mp shaped₁.closed) ((treeClosed_iff _).mp shaped₂.closed)
  below i set := by
    rw [getBitStatus_or, Bool.or_eq_true] at set
    rcases set with set | set
    · exact shaped₁.below i set
    · exact shaped₂.below i set

theorem shaped_initialBitmap : initialBitmap.Shaped where
  wf := WF_initialBitmap
  closed := treeClosed_initialBitmap
  below i set := by
    rw [(getBitStatus_initialBitmap i).mp set]
    decide

theorem shaped_firstSplit : (setBit initialBitmap 1).Shaped where
  wf := WF_initialBitmap.setBit 1
  closed := by
    have grown := ((treeClosed_iff _).mp treeClosed_initialBitmap).insert_child 0 0
      (by rw [partitions_initialBitmap]; exact Finset.mem_singleton_self 0) (by decide)
    rw [treeClosed_iff, partitions_firstSplit]
    rwa [partitions_initialBitmap] at grown
  below i set := by
    have mem := (mem_partitions _ i).mpr set
    rw [partitions_firstSplit, Finset.mem_insert, Finset.mem_singleton] at mem
    omega

theorem Bitmap.Shaped.lookup (shaped : m.bitmap.Shaped) (hash : Hash) :
    gigaGetIndexForFile m hash = some (PrefixTree.lookup (partitions m.bitmap) (hashKey hash)) :=
  gigaGetIndexForFile_of_closed shaped.wf shaped.closed
    (fun n mem => shaped.below n ((mem_partitions _ n).mp mem)) hash

theorem iterate_getParentIndex (n : ℕ) : getParentIndex^[n] = parent^[n] := by
  rw [show getParentIndex = parent from funext getParentIndex_eq]

theorem gigaGetIndexForFile_ancestor (shaped : m.bitmap.Shaped) (shaped' : m'.bitmap.Shaped)
    (sub : ∀ i, getBitStatus m.bitmap i = true → getBitStatus m'.bitmap i = true) (hash : Hash) :
    ∃ i i', gigaGetIndexForFile m hash = some i ∧ gigaGetIndexForFile m' hash = some i' ∧
      ∃ n, getParentIndex^[n] i' = i := by
  have subset : partitions m.bitmap ⊆ partitions m'.bitmap := by
    intro i mem
    exact (mem_partitions _ i).mpr (sub i ((mem_partitions _ i).mp mem))
  obtain ⟨n, walked⟩ := lookup_ancestor_of_subset (x := hashKey hash)
    ((treeClosed_iff _).mp shaped.closed).1 subset
  exact ⟨_, _, shaped.lookup hash, shaped'.lookup hash, n, by rw [iterate_getParentIndex, walked]⟩

end Shaped

/-! ### The merge of `giga_update_cache` -/

section Merge

theorem bitmap_gigaUpdateCache (m₁ m₂ : GigaMapping) :
    (gigaUpdateCache m₁ m₂).map GigaMapping.bitmap =
      (getRadixFromBmap fun k => m₁.bitmap k ||| m₂.bitmap k).map
        fun _ => fun k => m₁.bitmap k ||| m₂.bitmap k := by
  rw [gigaUpdateCache, Option.map_map]
  rfl

theorem gigaUpdateCache_spec {m₁ m₂ : GigaMapping} (shaped₁ : m₁.bitmap.Shaped)
    (shaped₂ : m₂.bitmap.Shaped) :
    ∃ m, gigaUpdateCache m₁ m₂ = some m ∧ m.bitmap = (fun k => m₁.bitmap k ||| m₂.bitmap k) ∧
      getRadixFromBmap m.bitmap = some m.currRadix ∧
      m.serverCount = max m₁.serverCount m₂.serverCount := by
  have shaped := shaped₁.or shaped₂
  have radix := getRadixFromBmap_eq _ shaped.wf
    ⟨0, (mem_partitions _ 0).mpr shaped.closed.1⟩
  refine ⟨_, by rw [gigaUpdateCache, radix, Option.map_some], rfl, radix, ?_⟩
  -- `giga_update_cache` keeps the larger server count
  show (if m₂.serverCount > m₁.serverCount then m₂.serverCount else m₁.serverCount) = _
  split <;> omega

theorem gigaUpdateCache_comm (m₁ m₂ : GigaMapping) :
    (gigaUpdateCache m₁ m₂).map GigaMapping.bitmap =
      (gigaUpdateCache m₂ m₁).map GigaMapping.bitmap := by
  rw [bitmap_gigaUpdateCache, bitmap_gigaUpdateCache]
  simp only [UInt8.or_comm]

theorem gigaUpdateCache_self {m : GigaMapping} (shaped : m.bitmap.Shaped) :
    (gigaUpdateCache m m).map GigaMapping.bitmap = some m.bitmap := by
  obtain ⟨merged, update, bitmap, -⟩ := gigaUpdateCache_spec shaped shaped
  rw [update, Option.map_some, bitmap]
  simp only [UInt8.or_self]

theorem gigaUpdateCache_assoc {m₁ m₂ m₃ : GigaMapping} (shaped₁ : m₁.bitmap.Shaped)
    (shaped₂ : m₂.bitmap.Shaped) (shaped₃ : m₃.bitmap.Shaped) :
    ((gigaUpdateCache m₁ m₂).bind (gigaUpdateCache · m₃)).map GigaMapping.bitmap =
      ((gigaUpdateCache m₂ m₃).bind (gigaUpdateCache m₁ ·)).map GigaMapping.bitmap := by
  obtain ⟨m₁₂, update₁₂, bitmap₁₂, -⟩ := gigaUpdateCache_spec shaped₁ shaped₂
  obtain ⟨m₂₃, update₂₃, bitmap₂₃, -⟩ := gigaUpdateCache_spec shaped₂ shaped₃
  have shaped₁₂ : m₁₂.bitmap.Shaped := bitmap₁₂ ▸ shaped₁.or shaped₂
  have shaped₂₃ : m₂₃.bitmap.Shaped := bitmap₂₃ ▸ shaped₂.or shaped₃
  obtain ⟨left, updateLeft, bitmapLeft, -⟩ := gigaUpdateCache_spec shaped₁₂ shaped₃
  obtain ⟨right, updateRight, bitmapRight, -⟩ := gigaUpdateCache_spec shaped₁ shaped₂₃
  rw [update₁₂, update₂₃, Option.bind_some, Option.bind_some, updateLeft, updateRight,
    Option.map_some, Option.map_some, bitmapLeft, bitmapRight, bitmap₁₂, bitmap₂₃]
  simp only [UInt8.or_assoc]

/-- Stale bitmaps only point upward, and merging is a join: a lookup on a sub-bitmap finds an
ancestor of the lookup on the larger one, and `giga_update_cache` is the union, commutative,
associative and idempotent. -/
theorem stale_lookups_point_up (m₁ m₂ m₃ : GigaMapping) (shaped₁ : m₁.bitmap.Shaped)
    (shaped₂ : m₂.bitmap.Shaped) (shaped₃ : m₃.bitmap.Shaped) (hash : Hash) :
    ((∀ i, getBitStatus m₁.bitmap i = true → getBitStatus m₂.bitmap i = true) →
      ∃ i₁ i₂, gigaGetIndexForFile m₁ hash = some i₁ ∧ gigaGetIndexForFile m₂ hash = some i₂ ∧
        ∃ n, getParentIndex^[n] i₂ = i₁) ∧
    ∃ m, gigaUpdateCache m₁ m₂ = some m ∧ m.bitmap = (fun k => m₁.bitmap k ||| m₂.bitmap k) ∧
      TreeClosed m.bitmap ∧ getRadixFromBmap m.bitmap = some m.currRadix ∧
      m.serverCount = max m₁.serverCount m₂.serverCount ∧
      (gigaUpdateCache m₂ m₁).map GigaMapping.bitmap = some m.bitmap ∧
      (gigaUpdateCache m₁ m₁).map GigaMapping.bitmap = some m₁.bitmap ∧
      ((gigaUpdateCache m₁ m₂).bind (gigaUpdateCache · m₃)).map GigaMapping.bitmap =
        ((gigaUpdateCache m₂ m₃).bind (gigaUpdateCache m₁ ·)).map GigaMapping.bitmap ∧
      ∃ i i₁ i₂, gigaGetIndexForFile m hash = some i ∧ gigaGetIndexForFile m₁ hash = some i₁ ∧
        gigaGetIndexForFile m₂ hash = some i₂ ∧ (∃ n, getParentIndex^[n] i = i₁) ∧
        ∃ n, getParentIndex^[n] i = i₂ := by
  obtain ⟨m, update, bitmap, radix, count⟩ := gigaUpdateCache_spec shaped₁ shaped₂
  have shaped : m.bitmap.Shaped := bitmap ▸ shaped₁.or shaped₂
  -- each input holds no more than the union
  have inUnion : ∀ b : Bitmap, (b = m₁.bitmap ∨ b = m₂.bitmap) →
      ∀ i, getBitStatus b i = true → getBitStatus m.bitmap i = true := by
    rintro b (rfl | rfl) i set <;> simp [bitmap, getBitStatus_or, set]
  obtain ⟨i₁, i, found₁, found, up₁⟩ :=
    gigaGetIndexForFile_ancestor shaped₁ shaped (inUnion _ (.inl rfl)) hash
  obtain ⟨i₂, i', found₂, found', up₂⟩ :=
    gigaGetIndexForFile_ancestor shaped₂ shaped (inUnion _ (.inr rfl)) hash
  rw [found, Option.some_inj] at found'
  subst found'
  refine ⟨fun sub => gigaGetIndexForFile_ancestor shaped₁ shaped₂ sub hash, m, update, bitmap,
    shaped.closed, radix, count, ?_, gigaUpdateCache_self shaped₁,
    gigaUpdateCache_assoc shaped₁ shaped₂ shaped₃, i, i₁, i₂, found, found₁, found₂, up₁, up₂⟩
  rw [gigaUpdateCache_comm, update, Option.map_some]

theorem stale_lookups_point_up_first_split :
    ((∀ i, getBitStatus (gigaInitMapping 0 0 2).bitmap i = true →
        getBitStatus (setBit initialBitmap 1) i = true) →
      ∃ i₁ i₂, gigaGetIndexForFile (gigaInitMapping 0 0 2) (fun _ => 0x80) = some i₁ ∧
        gigaGetIndexForFile { gigaInitMapping 0 0 2 with bitmap := setBit initialBitmap 1 }
          (fun _ => 0x80) = some i₂ ∧
        ∃ n, getParentIndex^[n] i₂ = i₁) ∧
    ∃ m, gigaUpdateCache (gigaInitMapping 0 0 2)
        { gigaInitMapping 0 0 2 with bitmap := setBit initialBitmap 1 } = some m ∧
      m.bitmap = (fun k => (gigaInitMapping 0 0 2).bitmap k ||| setBit initialBitmap 1 k) ∧
      TreeClosed m.bitmap ∧ getRadixFromBmap m.bitmap = some m.currRadix ∧
      m.serverCount = max 2 2 ∧
      (gigaUpdateCache { gigaInitMapping 0 0 2 with bitmap := setBit initialBitmap 1 }
        (gigaInitMapping 0 0 2)).map GigaMapping.bitmap = some m.bitmap ∧
      (gigaUpdateCache (gigaInitMapping 0 0 2) (gigaInitMapping 0 0 2)).map GigaMapping.bitmap =
        some (gigaInitMapping 0 0 2).bitmap ∧
      ((gigaUpdateCache (gigaInitMapping 0 0 2)
          { gigaInitMapping 0 0 2 with bitmap := setBit initialBitmap 1 }).bind
          (gigaUpdateCache · { gigaInitMapping 0 0 2 with bitmap := setBit initialBitmap 1 })).map
          GigaMapping.bitmap =
        ((gigaUpdateCache { gigaInitMapping 0 0 2 with bitmap := setBit initialBitmap 1 }
          { gigaInitMapping 0 0 2 with bitmap := setBit initialBitmap 1 }).bind
          (gigaUpdateCache (gigaInitMapping 0 0 2) ·)).map GigaMapping.bitmap ∧
      ∃ i i₁ i₂, gigaGetIndexForFile m (fun _ => 0x80) = some i ∧
        gigaGetIndexForFile (gigaInitMapping 0 0 2) (fun _ => 0x80) = some i₁ ∧
        gigaGetIndexForFile { gigaInitMapping 0 0 2 with bitmap := setBit initialBitmap 1 }
          (fun _ => 0x80) = some i₂ ∧
        (∃ n, getParentIndex^[n] i = i₁) ∧ ∃ n, getParentIndex^[n] i = i₂ :=
  stale_lookups_point_up (gigaInitMapping 0 0 2)
    { gigaInitMapping 0 0 2 with bitmap := setBit initialBitmap 1 }
    { gigaInitMapping 0 0 2 with bitmap := setBit initialBitmap 1 }
    shaped_initialBitmap shaped_firstSplit shaped_firstSplit (fun _ => 0x80)

end Merge

end Giga
