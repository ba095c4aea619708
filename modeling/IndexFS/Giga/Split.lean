import IndexFS.Giga.Lookup

/-! One split as `MetadataServer::Split` runs it on the owner's mapping. Over a tree-closed
bitmap, the names `giga_file_migration_status_with_hash` moves are those whose lookup changes. -/
namespace Giga

open PrefixTree

section Split

variable {m : GigaMapping}

theorem split_child (p c : ℕ) (split : gigaIndexForSplitting m p = some c) :
    p ∈ partitions m.bitmap ∧ ∃ j, p < 2 ^ j ∧ c = p + 2 ^ j ∧ c ∉ partitions m.bitmap := by
  obtain ⟨set, j, below, _, eq, clear⟩ := gigaIndexForSplitting_spec m p c split
  refine ⟨(mem_partitions _ p).mpr set, j, below, eq, ?_⟩
  rw [mem_partitions, clear]
  exact Bool.false_ne_true

theorem gigaUpdateMapping_insert (wf : m.bitmap.WF) (c : ℕ) (fits : c < capacity) :
    ∃ m', gigaUpdateMapping m c = some m' ∧ m'.bitmap.WF ∧
      partitions m'.bitmap = insert c (partitions m.bitmap) :=
  ⟨_, gigaUpdateMapping_eq m c wf fits, wf.setBit c, partitions_setBit _ _ fits⟩

theorem partitions_gigaUpdateMapping {c : ℕ} {m' : GigaMapping} (fits : c < capacity)
    (update : gigaUpdateMapping m c = some m') :
    partitions m'.bitmap = insert c (partitions m.bitmap) := by
  obtain ⟨radix, -, rfl⟩ := Option.map_eq_some_iff.mp update
  exact partitions_setBit _ _ fits

theorem partitions_gigaUpdateCache {update m' : GigaMapping}
    (merged : gigaUpdateCache m update = some m') :
    partitions m'.bitmap = partitions m.bitmap ∪ partitions update.bitmap := by
  obtain ⟨radix, -, rfl⟩ := Option.map_eq_some_iff.mp merged
  exact partitions_or _ _

theorem gigaGetIndexForFile_of_closed (wf : m.bitmap.WF) (closed : TreeClosed m.bitmap)
    (below : ∀ n ∈ partitions m.bitmap, n < 2 ^ (maxRadix - 1)) (hash : Hash) :
    gigaGetIndexForFile m hash = some (lookup (partitions m.bitmap) (hashKey hash)) :=
  gigaGetIndexForFile_eq m wf closed.1 below hash

end Split

/-- The split law: recording the child `c` that `giga_index_for_splitting` gives for `p`
succeeds, a name migrates exactly when its new lookup is `c`, and the new bitmap is
tree-closed. -/
theorem giga_split_law (m : GigaMapping) (wf : m.bitmap.WF) (closed : TreeClosed m.bitmap)
    (below : ∀ i, getBitStatus m.bitmap i = true → i < 128)
    (p c : ℕ) (split : gigaIndexForSplitting m p = some c) (small : c < 128) (h : Hash) :
    ∃ m', gigaUpdateMapping m c = some m' ∧
      (gigaFileMigrationStatusWithHash h c = some 1 ↔
        gigaGetIndexForFile m' h = some c) ∧
      (gigaFileMigrationStatusWithHash h c = some 1 →
        gigaGetIndexForFile m h = some p) ∧
      (gigaFileMigrationStatusWithHash h c = some 0 →
        gigaGetIndexForFile m' h = gigaGetIndexForFile m h) ∧
      TreeClosed m'.bitmap := by
  obtain ⟨hp, j, hpj, rfl, hc⟩ := split_child p c split
  obtain ⟨m', update, wf', grown⟩ :=
    gigaUpdateMapping_insert wf (p + 2 ^ j) (Nat.lt_of_lt_of_le small (by decide))
  have closedS : Closed (partitions m.bitmap) := (treeClosed_iff _).mp closed
  have closed' : TreeClosed m'.bitmap := by
    rw [treeClosed_iff, grown]
    exact closedS.insert_child p j hp hpj
  have belowS : ∀ n ∈ partitions m.bitmap, n < 2 ^ (maxRadix - 1) :=
    fun n mem => below n ((mem_partitions _ n).mp mem)
  have below' : ∀ n ∈ partitions m'.bitmap, n < 2 ^ (maxRadix - 1) := by
    intro n mem
    rw [grown, Finset.mem_insert] at mem
    rcases mem with rfl | mem
    · exact small
    · exact belowS n mem
  have before := gigaGetIndexForFile_of_closed wf closed belowS h
  have after := gigaGetIndexForFile_of_closed wf' closed' below' h
  rw [grown] at after
  have status := giga_file_migration_status_eq h (p + 2 ^ j) small
  refine ⟨m', update, ?_, ?_, ?_, closed'⟩
  · -- a name migrates iff the child is on its path
    rw [status, after, Option.some_inj, Option.some_inj,
      lookup_insert_eq_iff closedS _ hc]
    split <;> simp_all
  · intro moves
    rw [status, Option.some_inj] at moves
    split at moves
    · rename_i on
      rw [size_add_pow p j hpj] at on
      rw [before, lookup_eq_of_child closedS p j hp hpj hc on]
    · cases moves
  · intro stays
    rw [status, Option.some_inj] at stays
    split at stays
    · cases stays
    · rename_i off
      rw [after, before, lookup_insert_of_mod_ne _ off]

theorem giga_split_law_first_split :
    ∃ m', gigaUpdateMapping (gigaInitMapping 0 0 1) 1 = some m' ∧
      (gigaFileMigrationStatusWithHash (fun _ => 0x80) 1 = some 1 ↔
        gigaGetIndexForFile m' (fun _ => 0x80) = some 1) ∧
      (gigaFileMigrationStatusWithHash (fun _ => 0x80) 1 = some 1 →
        gigaGetIndexForFile (gigaInitMapping 0 0 1) (fun _ => 0x80) = some 0) ∧
      (gigaFileMigrationStatusWithHash (fun _ => 0x80) 1 = some 0 →
        gigaGetIndexForFile m' (fun _ => 0x80) =
          gigaGetIndexForFile (gigaInitMapping 0 0 1) (fun _ => 0x80)) ∧
      TreeClosed m'.bitmap :=
  giga_split_law (gigaInitMapping 0 0 1) WF_initialBitmap treeClosed_initialBitmap
    (fun i set => by rw [(getBitStatus_initialBitmap i).mp set]; decide)
    0 1 (by decide) (by decide) (fun _ => 0x80)

end Giga
