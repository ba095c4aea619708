import IndexFS.Backend.Readdir

/-! The two halves of moving a partition to another server (`metadb_fs.c`):
`metadb_extract_do` scans the old partition, writes the names that migrate into SSTables
under the new partition and deletes them from the store; `metadb_bulkinsert` loads those
SSTables into the store of the new server. -/
namespace Metadb

open Giga

def deleteAll (mdb : MetaDB) (keys : List MetadbKey) : MetaDB := keys.foldl MetaDB.delete mdb

def putAll (mdb : MetaDB) (records : List (Σ _ : MetadbKey, MetadbVal)) : MetaDB :=
  records.foldl (fun mdb r => mdb.put r.1 r.2) mdb

theorem get_deleteAll (mdb : MetaDB) (keys : List MetadbKey) (key : MetadbKey) :
    (deleteAll mdb keys).get key = if key ∈ keys then none else mdb.get key := by
  induction keys generalizing mdb with
  | nil => simp [deleteAll]
  | cons k keys ih =>
    simp only [deleteAll, List.foldl_cons] at ih ⊢
    rw [ih, get_delete]
    by_cases same : key = k
    · simp [same]
    · simp [same]

@[simp] theorem deleteAll_inodeCount (mdb : MetaDB) (keys : List MetadbKey) :
    (deleteAll mdb keys).inodeCount = mdb.inodeCount := by
  induction keys generalizing mdb with
  | nil => rfl
  | cons k keys ih => exact (ih (mdb.delete k)).trans (delete_inodeCount mdb k)

theorem get_putAll_of_not_mem (mdb : MetaDB) (records : List (Σ _ : MetadbKey, MetadbVal))
    (key : MetadbKey) (absent : key ∉ records.map Sigma.fst) :
    (putAll mdb records).get key = mdb.get key := by
  induction records generalizing mdb with
  | nil => rfl
  | cons r records ih =>
    simp only [List.map_cons, List.mem_cons, not_or] at absent
    simp only [putAll, List.foldl_cons] at ih ⊢
    rw [ih _ absent.2, get_put, if_neg absent.1]

theorem get_putAll (mdb : MetaDB) (records : List (Σ _ : MetadbKey, MetadbVal)) {key : MetadbKey}
    {val : MetadbVal} (got : (putAll mdb records).get key = some val) :
    ⟨key, val⟩ ∈ records ∨ mdb.get key = some val := by
  induction records generalizing mdb with
  | nil => exact .inr got
  | cons r records ih =>
    rcases ih (mdb.put r.1 r.2) got with put | old
    · exact .inl (List.mem_cons_of_mem _ put)
    · rw [get_put] at old
      split at old
      · rename_i same
        subst same
        cases old
        exact .inl List.mem_cons_self
      · exact .inr old

theorem get_putAll_of_mem (mdb : MetaDB) {records : List (Σ _ : MetadbKey, MetadbVal)}
    (distinct : ∀ r ∈ records, ∀ r' ∈ records, r.1 = r'.1 → r = r')
    {r : Σ _ : MetadbKey, MetadbVal} (mem : r ∈ records) : (putAll mdb records).get r.1 = some r.2 := by
  induction records generalizing mdb with
  | nil => cases mem
  | cons r' records ih =>
    have rest : ∀ a ∈ records, ∀ b ∈ records, a.1 = b.1 → a = b := fun a inA b inB =>
      distinct a (List.mem_cons_of_mem _ inA) b (List.mem_cons_of_mem _ inB)
    show (putAll (mdb.put r'.1 r'.2) records).get r.1 = some r.2
    -- a later record of the same key is the same record, and it wins
    by_cases later : r.1 ∈ records.map Sigma.fst
    · obtain ⟨r'', inside, same⟩ := List.mem_map.mp later
      obtain rfl := distinct r'' (List.mem_cons_of_mem _ inside) r mem same
      exact ih _ rest inside
    · have first : r = r' := by
        rcases List.mem_cons.mp mem with first | inside
        · exact first
        · exact absurd (List.mem_map_of_mem inside) later
      subst first
      rw [get_putAll_of_not_mem _ _ _ later, get_put, if_pos rfl]

def initMetaObjSeekKey (dirId : ℕ) (partitionId : ℤ) : MetadbKey := ⟨dirId, partitionId, fun _ => 0⟩

def constructNewKey (key : MetadbKey) (newPartitionId : ℕ) : MetadbKey :=
  { key with partitionId := newPartitionId }

theorem constructNewKey_inj {key key' : MetadbKey} {newPartitionId : ℕ}
    (same : constructNewKey key newPartitionId = constructNewKey key' newPartitionId)
    (part : key.partitionId = key'.partitionId) : key = key' := by
  obtain ⟨parentId, partitionId, nameHash⟩ := key
  obtain ⟨parentId', partitionId', nameHash'⟩ := key'
  simp only [constructNewKey] at same part
  cases same
  cases part
  rfl

/-- The scan of `metadb_extract_do` from the seek key: it runs while the record is in the
old partition of the directory, and keeps those for which
`giga_file_migration_status_with_hash` holds. `none` where that function fails an
assertion. -/
def extractScan (dirId : ℕ) (oldPartitionId : ℤ) (newPartitionId : ℕ) :
    List (Σ _ : MetadbKey, MetadbVal) → Option (List (Σ _ : MetadbKey, MetadbVal))
  | [] => some []
  | ⟨key, mval⟩ :: rest =>
    if key.parentId = dirId ∧ key.partitionId = oldPartitionId then do
      let status ← gigaFileMigrationStatusWithHash key.nameHash newPartitionId
      let migrated ← extractScan dirId oldPartitionId newPartitionId rest
      pure (if status ≠ 0 then ⟨key, mval⟩ :: migrated else migrated)
    else some []

/-- `metadb_extract_do`: the store after the deletes, the number of migrated entries and the
records of the SSTables it built. `deleted` is how many of the migrated entries the batches of
deletes that reached the store cover. -/
def metadbExtractDo (mdb : MetaDB) (dirId : ℕ) (oldPartitionId : ℤ) (newPartitionId : ℕ)
    (deleted : ℕ) : Option (MetaDB × ℤ × List (Σ _ : MetadbKey, MetadbVal)) := do
  let migrated ← extractScan dirId oldPartitionId newPartitionId
    (seek mdb.db (initMetaObjSeekKey dirId oldPartitionId))
  pure (deleteAll mdb ((migrated.take deleted).map Sigma.fst), migrated.length,
    migrated.map fun r => ⟨constructNewKey r.1 newPartitionId, r.2⟩)

/-- `metadb_bulkinsert`, given whether `leveldb_bulkinsert` loaded the tables. When it
fails, `metadb_error` calls `abort()`, and there is no store to go on with. -/
def metadbBulkinsert (mdb : MetaDB) (records : List (Σ _ : MetadbKey, MetadbVal))
    (loaded : Bool) : Option (MetaDB × ℤ) :=
  if loaded then some (putAll mdb records, 0) else none

theorem extractScan_mem {dirId : ℕ} {oldPartitionId : ℤ} {newPartitionId : ℕ} :
    ∀ {records migrated : List (Σ _ : MetadbKey, MetadbVal)},
      extractScan dirId oldPartitionId newPartitionId records = some migrated →
      ∀ r ∈ migrated, r ∈ records ∧ r.1.parentId = dirId ∧ r.1.partitionId = oldPartitionId
  | [], migrated, scan => by
    cases scan
    simp
  | ⟨key, mval⟩ :: rest, migrated, scan => by
    unfold extractScan at scan
    split at scan
    · rename_i inside
      simp only [Option.bind_eq_bind, Option.bind_eq_some_iff, Option.pure_def,
        Option.some.injEq] at scan
      obtain ⟨status, -, moved, tail, rfl⟩ := scan
      have ih := extractScan_mem tail
      intro r mem
      split at mem
      · rcases List.mem_cons.mp mem with rfl | later
        · exact ⟨List.mem_cons_self .., inside⟩
        · exact (ih r later).imp_left (List.mem_cons_of_mem _)
      · exact (ih r mem).imp_left (List.mem_cons_of_mem _)
    · cases scan
      simp

theorem extractScan_moves {dirId : ℕ} {oldPartitionId : ℤ} {newPartitionId : ℕ} :
    ∀ {records migrated : List (Σ _ : MetadbKey, MetadbVal)},
      extractScan dirId oldPartitionId newPartitionId records = some migrated →
      ∀ r ∈ migrated, ∃ status, gigaFileMigrationStatusWithHash r.1.nameHash newPartitionId =
        some status ∧ status ≠ 0
  | [], migrated, scan => by
    cases scan
    simp
  | ⟨key, mval⟩ :: rest, migrated, scan => by
    unfold extractScan at scan
    split at scan
    · simp only [Option.bind_eq_bind, Option.bind_eq_some_iff, Option.pure_def,
        Option.some.injEq] at scan
      obtain ⟨status, found, moved, tail, rfl⟩ := scan
      have ih := extractScan_moves tail
      intro r mem
      split at mem
      · rename_i kept
        rcases List.mem_cons.mp mem with rfl | later
        · exact ⟨status, found, kept⟩
        · exact ih r later
      · exact ih r mem
    · cases scan
      simp

theorem mem_seek {db : Store} {key : MetadbKey} {r : Σ _ : MetadbKey, MetadbVal}
    (mem : r ∈ seek db key) : r ∈ db.entries :=
  (List.mem_filter.mp ((List.perm_insertionSort _ _).mem_iff.mp mem)).1

theorem extractScan_of_outside {dirId : ℕ} {oldPartitionId : ℤ} {newPartitionId : ℕ}
    {records : List (Σ _ : MetadbKey, MetadbVal)}
    (outside : ∀ r ∈ records, ¬(r.1.parentId = dirId ∧ r.1.partitionId = oldPartitionId)) :
    extractScan dirId oldPartitionId newPartitionId records = some [] := by
  cases records with
  | nil => rfl
  | cons r rest =>
    unfold extractScan
    rw [if_neg (outside r List.mem_cons_self)]

theorem metadbExtractDo_of_empty {mdb : MetaDB} {dirId : ℕ} {oldPartitionId : ℤ}
    (newPartitionId deleted : ℕ)
    (empty : ∀ r ∈ mdb.db.entries, ¬(r.1.parentId = dirId ∧ r.1.partitionId = oldPartitionId)) :
    metadbExtractDo mdb dirId oldPartitionId newPartitionId deleted = some (mdb, 0, []) := by
  rw [metadbExtractDo, extractScan_of_outside fun r mem => empty r (mem_seek mem)]
  simp [deleteAll]

theorem metadbExtractDo_frame {mdb mdb' : MetaDB} {dirId : ℕ} {oldPartitionId : ℤ}
    {newPartitionId deleted : ℕ} {ret : ℤ} {records : List (Σ _ : MetadbKey, MetadbVal)}
    (extracted : metadbExtractDo mdb dirId oldPartitionId newPartitionId deleted =
      some (mdb', ret, records)) (old : 0 ≤ oldPartitionId) :
    (∀ key : MetadbKey, key.partitionId < 0 → mdb'.get key = mdb.get key) ∧
      mdb'.inodeCount = mdb.inodeCount ∧
      ∀ r ∈ records, r.1.partitionId = newPartitionId := by
  simp only [metadbExtractDo, Option.bind_eq_bind, Option.bind_eq_some_iff, Option.pure_def,
    Option.some.injEq, Prod.mk.injEq] at extracted
  obtain ⟨migrated, scan, rfl, -, rfl⟩ := extracted
  refine ⟨fun key neg => ?_, ?_, ?_⟩
  · rw [get_deleteAll, if_neg]
    intro mem
    obtain ⟨r, taken, rfl⟩ := List.mem_map.mp mem
    have inOld := (extractScan_mem scan r (List.mem_of_mem_take taken)).2.2
    omega
  · exact deleteAll_inodeCount _ _
  · intro r mem
    obtain ⟨r, -, rfl⟩ := List.mem_map.mp mem
    rfl

theorem metadbExtractDo_moves {mdb mdb' : MetaDB} {dirId : ℕ} {oldPartitionId : ℤ}
    {newPartitionId deleted : ℕ} {ret : ℤ} {records : List (Σ _ : MetadbKey, MetadbVal)}
    (extracted : metadbExtractDo mdb dirId oldPartitionId newPartitionId deleted =
      some (mdb', ret, records)) :
    ∀ r ∈ records, r.1.parentId = dirId ∧ r.1.partitionId = newPartitionId ∧
      ∃ status, gigaFileMigrationStatusWithHash r.1.nameHash newPartitionId = some status ∧
        status ≠ 0 := by
  simp only [metadbExtractDo, Option.bind_eq_bind, Option.bind_eq_some_iff, Option.pure_def,
    Option.some.injEq, Prod.mk.injEq] at extracted
  obtain ⟨migrated, scan, -, -, rfl⟩ := extracted
  intro r mem
  obtain ⟨r, inside, rfl⟩ := List.mem_map.mp mem
  exact ⟨(extractScan_mem scan r inside).2.1, rfl, extractScan_moves scan r inside⟩

theorem metadbExtractDo_deletes {mdb mdb' : MetaDB} {dirId : ℕ} {oldPartitionId : ℤ}
    {newPartitionId deleted : ℕ} {ret : ℤ} {records : List (Σ _ : MetadbKey, MetadbVal)}
    (extracted : metadbExtractDo mdb dirId oldPartitionId newPartitionId deleted =
      some (mdb', ret, records)) :
    ∃ keys, mdb' = deleteAll mdb keys := by
  simp only [metadbExtractDo, Option.bind_eq_bind, Option.bind_eq_some_iff, Option.pure_def,
    Option.some.injEq, Prod.mk.injEq] at extracted
  obtain ⟨migrated, -, rfl, -, -⟩ := extracted
  exact ⟨_, rfl⟩

theorem metadbExtractDo_migrates {mdb mdb' : MetaDB} {dirId : ℕ} {oldPartitionId : ℤ}
    {newPartitionId deleted : ℕ} {ret : ℤ} {records : List (Σ _ : MetadbKey, MetadbVal)}
    (extracted : metadbExtractDo mdb dirId oldPartitionId newPartitionId deleted =
      some (mdb', ret, records)) :
    ∃ migrated : List (Σ _ : MetadbKey, MetadbVal),
      (∀ r ∈ migrated, r.1.parentId = dirId ∧ r.1.partitionId = oldPartitionId ∧
        mdb.get r.1 = some r.2) ∧
      records = migrated.map (fun r => ⟨constructNewKey r.1 newPartitionId, r.2⟩) ∧
      ret = migrated.length ∧ mdb' = deleteAll mdb ((migrated.take deleted).map Sigma.fst) := by
  simp only [metadbExtractDo, Option.bind_eq_bind, Option.bind_eq_some_iff, Option.pure_def,
    Option.some.injEq, Prod.mk.injEq] at extracted
  obtain ⟨migrated, scan, rfl, rfl, rfl⟩ := extracted
  refine ⟨migrated, fun r mem => ?_, rfl, rfl, rfl⟩
  obtain ⟨inside, parent, part⟩ := extractScan_mem scan r mem
  exact ⟨parent, part, AList.mem_lookup_iff.mpr (mem_seek inside)⟩

end Metadb
