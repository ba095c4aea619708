import IndexFS.Cluster.Step
import IndexFS.Client.Readdir

/-! What a split tells the child's server. `Split` calls `InsertSplitRemote` only when
`metadb_extract_do` moved an entry, and records the child on its own and the zeroth server's
mapping, never on the child's server. -/
namespace IndexFS

open Giga Metadb PrefixTree Transition

section Remap

variable (gigaHashName : List UInt8 → Hash)

/-- `srv'` is `srv` with `mapping` for `dirId`, and nothing else a handler reads changed:
its id, and every key of its store but the directory's bitmap record. -/
structure Remapped (srv srv' : MetadataServer) (dirId : ℕ) (mapping : GigaMapping) : Prop where
  srvId : srv'.srvId = srv.srvId
  view : view gigaHashName srv' dirId = some mapping
  entries : ∀ key, key ≠ recordKey dirId → srv'.mdb.get key = srv.mdb.get key

theorem Remapped.trans {srv₁ srv₂ srv₃ : MetadataServer} {dirId : ℕ} {m₂ m₃ : GigaMapping}
    (first : Remapped gigaHashName srv₁ srv₂ dirId m₂)
    (second : Remapped gigaHashName srv₂ srv₃ dirId m₃) :
    Remapped gigaHashName srv₁ srv₃ dirId m₃ where
  srvId := second.srvId.trans first.srvId
  view := second.view
  entries key other := (second.entries key other).trans (first.entries key other)

theorem updateBitmap_backend_some (mdb : MetaDB) (dirId : ℕ) (mapping : GigaMapping) :
    ∃ mdb' ret, MetadataBackend.updateBitmap gigaHashName mdb dirId mapping = some (mdb', ret) := by
  simp only [MetadataBackend.updateBitmap, metadbWriteBitmap, metadbUpdateInternal,
    initMetaObjKey_record]
  split <;> simp

theorem remapped_of_write {srv : MetadataServer} {dirId : ℕ} {mapping : GigaMapping}
    {mdb : MetaDB} {ret : ℤ}
    (written : MetadataBackend.updateBitmap gigaHashName srv.mdb dirId mapping = some (mdb, ret)) :
    Remapped gigaHashName srv
      { srv with mdb := mdb, dmap := Function.update srv.dmap dirId (some mapping) } dirId
      mapping where
  srvId := rfl
  view := by
    rw [view_eq]
    simp
  entries key other := by
    rw [get_updateBitmap gigaHashName written, if_neg other]

theorem recordChild_some (srv : MetadataServer) (dirId : ℕ) {mapping mapping' : GigaMapping}
    {child : ℕ} (update : gigaUpdateMapping mapping child = some mapping') :
    ∃ srv', recordChild gigaHashName srv dirId mapping child = some (srv', mapping') ∧
      Remapped gigaHashName srv srv' dirId mapping' := by
  obtain ⟨mdb, ret, written⟩ := updateBitmap_backend_some gigaHashName srv.mdb dirId mapping'
  refine ⟨_, ?_, remapped_of_write gigaHashName written⟩
  simp only [recordChild, update, written, Option.bind_eq_bind, Option.bind_some, Option.pure_def]

theorem updateBitmap_some {srv : MetadataServer} {dirId : ℕ} {current mapping merged : GigaMapping}
    (found : view gigaHashName srv dirId = some current)
    (merge : gigaUpdateCache current mapping = some merged) :
    ∃ srv', updateBitmap gigaHashName srv dirId mapping = some (srv', .ok ()) ∧
      Remapped gigaHashName srv srv' dirId merged := by
  obtain ⟨mdb, ret, written⟩ := updateBitmap_backend_some gigaHashName srv.mdb dirId merged
  refine ⟨_, ?_, remapped_of_write gigaHashName written⟩
  simp only [updateBitmap, fetchDir_of_view gigaHashName found, merge, written,
    Option.bind_eq_bind, Option.bind_some, Option.pure_def]

theorem insertSplit_loaded_some {srv : MetadataServer} {dirId child : ℕ}
    {current mapping' : GigaMapping} (records : List (Σ _ : MetadbKey, MetadbVal))
    (bitmap : GigaMapping) (now : ℕ)
    (found : view gigaHashName { srv with mdb := putAll srv.mdb records } dirId = some current)
    (update : gigaUpdateMapping current child = some mapping') :
    ∃ srv', insertSplit gigaHashName srv dirId child records bitmap true now = some srv' ∧
      Remapped gigaHashName { srv with mdb := putAll srv.mdb records } srv' dirId mapping' := by
  obtain ⟨mdb, ret, written⟩ := updateBitmap_backend_some gigaHashName (putAll srv.mdb records)
    dirId mapping'
  refine ⟨_, ?_, remapped_of_write gigaHashName written⟩
  simp only [insertSplit, metadbBulkinsert, if_true, fetchDir_of_view gigaHashName found, update,
    written, Option.bind_eq_bind, Option.bind_some, Option.pure_def]

theorem split_of_empty {c : Cluster} {s dirId parent deleted : ℕ} {run : InsertSplitRun}
    {zerothReached : Bool} {now : ℕ} {mapping : GigaMapping} {child : ℕ}
    (fetched : fetchDir gigaHashName (c.servers s) dirId = some (some mapping))
    (found : gigaIndexForSplitting mapping parent = some child)
    (remote : (c.servers s).srvId ≠ gigaGetServerForIndex mapping child)
    (empty : ∀ r ∈ (c.servers s).mdb.db.entries,
      ¬(r.1.parentId = dirId ∧ r.1.partitionId = parent)) :
    split gigaHashName c s dirId parent deleted run zerothReached now =
      (recordChild gigaHashName (c.servers s) dirId mapping child).bind fun recorded =>
        updateBitmapRemote gigaHashName (c.set s recorded.1) recorded.2.zerothServer dirId
          recorded.2 zerothReached := by
  simp only [split, fetched, found, remote, metadbExtractDo_of_empty child deleted empty,
    Option.bind_eq_bind, Option.bind_some, ne_eq, not_false_eq_true, if_true, gt_iff_lt,
    lt_self_iff_false, if_false, Option.pure_def, Cluster.set_self, Cluster.set_set]

theorem split_of_extract {c : Cluster} {s dirId parent deleted : ℕ} {run : InsertSplitRun}
    {zerothReached : Bool} {now : ℕ} {mapping : GigaMapping} {child : ℕ} {mdb : MetaDB}
    {ret : ℤ} {records : List (Σ _ : MetadbKey, MetadbVal)}
    (fetched : fetchDir gigaHashName (c.servers s) dirId = some (some mapping))
    (found : gigaIndexForSplitting mapping parent = some child)
    (remote : (c.servers s).srvId ≠ gigaGetServerForIndex mapping child)
    (extracted : metadbExtractDo (c.servers s).mdb dirId parent child deleted =
      some (mdb, ret, records))
    (moved : 0 < ret) :
    split gigaHashName c s dirId parent deleted run zerothReached now =
      (insertSplitRemote gigaHashName (c.set s { c.servers s with mdb })
        (gigaGetServerForIndex mapping child) dirId child records mapping run now).bind
        fun c' => (recordChild gigaHashName (c'.servers s) dirId mapping child).bind
          fun recorded => updateBitmapRemote gigaHashName (c'.set s recorded.1)
            recorded.2.zerothServer dirId recorded.2 zerothReached := by
  simp only [split, fetched, found, remote, extracted, Option.bind_eq_bind, Option.bind_some,
    ne_eq, not_false_eq_true, if_true, gt_iff_lt, moved]

theorem updateBitmapRemote_of_recorded {c : Cluster} {z dirId : ℕ} {srv : MetadataServer}
    {mapping : GigaMapping} (reached : Bool) (running : z ∉ c.stopped)
    (recorded : view gigaHashName srv dirId = some mapping)
    (merge : gigaUpdateCache mapping mapping = some mapping) :
    ∃ srv', updateBitmapRemote gigaHashName (c.set z srv) z dirId mapping reached =
        some ((c.set z srv).set z srv') ∧
      Remapped gigaHashName srv srv' dirId mapping := by
  cases reached with
  | false => exact ⟨srv, by simp [updateBitmapRemote], ⟨rfl, recorded, fun _ _ => rfl⟩⟩
  | true =>
    obtain ⟨srv', updated, remapped⟩ := updateBitmap_some gigaHashName recorded merge
    refine ⟨srv', ?_, remapped⟩
    simp [updateBitmapRemote, updated, Cluster.call, running]

end Remap

/-! ### The root's two mappings on two servers -/

section TwoServers

variable (gigaHashName : List UInt8 → Hash)

theorem gigaGetIndexForFile_of_initial {m : GigaMapping} (root : m.bitmap = initialBitmap)
    (hash : Hash) : gigaGetIndexForFile m hash = some 0 := by
  have radix : getRadixFromBmap initialBitmap = some 0 := by decide
  simp only [gigaGetIndexForFile, root, radix, Option.bind_eq_bind, Option.bind_some,
    computeIndex_eq hash 0 (by decide), Nat.pow_zero, Nat.mod_one]
  decide

theorem partitions_splitRoot : partitions splitRoot.bitmap = {1, 0} := by
  rw [show splitRoot.bitmap = setBit initialBitmap 1 from rfl,
    partitions_setBit _ _ (by decide), partitions_initialBitmap]

theorem gigaGetIndexForFile_of_split {m : GigaMapping} (split : m.bitmap = splitRoot.bitmap)
    (hash : Hash) : gigaGetIndexForFile m hash = some (hashKey hash % 2) := by
  have parts : partitions m.bitmap = {1, 0} := by rw [split, partitions_splitRoot]
  have wf : m.bitmap.WF := split ▸ WF_initialBitmap.setBit 1
  have root : getBitStatus m.bitmap 0 = true := by
    rw [← mem_partitions, parts]
    simp
  have below : ∀ n ∈ partitions m.bitmap, n < 2 ^ (maxRadix - 1) := by
    intro n mem
    rw [parts, Finset.mem_insert, Finset.mem_singleton] at mem
    rcases mem with rfl | rfl <;> decide
  rw [gigaGetIndexForFile_eq m wf root below hash, parts, Option.some_inj]
  set x := hashKey hash
  have low : x % 2 ∈ ({1, 0} : Finset ℕ) := by
    rcases Nat.mod_two_eq_zero_or_one x with h | h <;> simp [h]
  apply lookup_eq _ low (mod_size_of_mod x 1 _ (by rw [Nat.pow_one]))
  -- a prefix of the key that is a partition is 0, or 1 and then the low bit itself
  intro k mem
  rcases Finset.mem_insert.mp mem with one | zero
  · have := mod_size_of_mod x k 1 one
    rw [Nat.size_one, Nat.pow_one] at this
    omega
  · rw [Finset.mem_singleton.mp zero]
    exact Nat.zero_le _

theorem gigaUpdateMapping_initial : gigaUpdateMapping (gigaInitMapping rootDirId 0 2) 1 = some splitRoot :=
  rfl

theorem gigaUpdateCache_splitRoot_self : gigaUpdateCache splitRoot splitRoot = some splitRoot := by
  simp only [gigaUpdateCache, UInt8.or_self]
  rfl

theorem gigaUpdateCache_splitRoot_initial :
    gigaUpdateCache splitRoot (gigaInitMapping rootDirId 0 2) = some splitRoot := by
  have same : (fun k => splitRoot.bitmap k ||| (gigaInitMapping rootDirId 0 2).bitmap k) =
      splitRoot.bitmap := by decide
  simp only [gigaUpdateCache, same]
  rfl

theorem checkAddressing_initial (srv : MetadataServer) (name : List UInt8) :
    checkAddressing gigaHashName srv (gigaInitMapping rootDirId 0 2) name =
      some (if srv.srvId = 0 then 0 else -1) := by
  simp only [checkAddressing, gigaGetIndexForFile_of_initial (m := gigaInitMapping rootDirId 0 2) rfl,
    Option.bind_eq_bind, Option.bind_some, Option.pure_def, Option.some.injEq]
  by_cases zero : srv.srvId = 0
  · simp [zero, gigaGetServerForIndex, gigaInitMapping]
  · simp [zero, Ne.symm zero, gigaGetServerForIndex, gigaInitMapping]

theorem checkAddressing_splitRoot (srv : MetadataServer) (name : List UInt8) :
    checkAddressing gigaHashName srv splitRoot name =
      some (if srv.srvId = hashKey (gigaHashName name) % 2 then
        ((hashKey (gigaHashName name) % 2 : ℕ) : ℤ) else -1) := by
  simp only [checkAddressing, gigaGetIndexForFile_of_split (m := splitRoot) rfl,
    Option.bind_eq_bind, Option.bind_some, Option.pure_def, Option.some.injEq]
  have server : gigaGetServerForIndex splitRoot (hashKey (gigaHashName name) % 2) =
      hashKey (gigaHashName name) % 2 := by
    simp [gigaGetServerForIndex, splitRoot, gigaInitMapping]
  rw [server]
  by_cases same : srv.srvId = hashKey (gigaHashName name) % 2
  · rw [if_neg (fun other => other same.symm), if_pos same]
  · rw [if_pos (fun other => same other.symm), if_neg same]

theorem bootServer_entries (s size now : ℕ) (cwd : Stat) :
    ∀ r ∈ (bootServer gigaHashName s size now cwd).mdb.db.entries, r.1 = recordKey rootDirId := by
  intro r mem
  simp [bootServer, MetadataBackend.mkdir, metadbCreateDir, metadbInit, metadbSetInitInodeCount,
    putIfAbsent, MetaDB.get, MetaDB.put] at mem
  rw [mem]

theorem view_boot (size now : ℕ) (cwd : ℕ → Stat) (s : ℕ) :
    view gigaHashName ((boot gigaHashName size now cwd).servers s) rootDirId =
      some (gigaInitMapping rootDirId 0 size) := rfl

theorem boot_running (size now : ℕ) (cwd : ℕ → Stat) {s : ℕ} (inside : s < size) :
    s < (boot gigaHashName size now cwd).size ∧ s ∉ (boot gigaHashName size now cwd).stopped :=
  ⟨inside, Finset.notMem_empty s⟩

end TwoServers

/-! ### The first split of an empty root -/

section EmptyRoot

variable (gigaHashName : List UInt8 → Hash)

theorem empty_root_split_step (t : ℕ) (cwd : ℕ → Stat) (deleted now : ℕ) (run : InsertSplitRun)
    (zerothReached : Bool) :
    ∃ c, step gigaHashName (boot gigaHashName 2 t cwd)
        (.split 0 rootDirId 0 deleted run zerothReached now) = some c ∧
      Reach gigaHashName c ∧ c.size = 2 ∧
      view gigaHashName (c.servers 0) rootDirId = some splitRoot ∧ (c.servers 0).srvId = 0 ∧
      c.servers 1 = (boot gigaHashName 2 t cwd).servers 1 := by
  set c₀ := boot gigaHashName 2 t cwd
  have srvId₀ : (c₀.servers 0).srvId = 0 := rfl
  have found : gigaIndexForSplitting (gigaInitMapping rootDirId 0 2) 0 = some 1 := by decide
  have remote : (c₀.servers 0).srvId ≠ gigaGetServerForIndex (gigaInitMapping rootDirId 0 2) 1 := by
    rw [srvId₀]
    decide
  have split₀ : split gigaHashName c₀ 0 rootDirId 0 deleted run zerothReached now =
      (recordChild gigaHashName (c₀.servers 0) rootDirId (gigaInitMapping rootDirId 0 2) 1).bind
        fun recorded => updateBitmapRemote gigaHashName (c₀.set 0 recorded.1)
          recorded.2.zerothServer rootDirId recorded.2 zerothReached :=
    split_of_empty gigaHashName (fetchDir_of_view gigaHashName (view_boot gigaHashName 2 t cwd 0))
    found remote (fun r mem => by
      rw [bootServer_entries gigaHashName 0 2 t (cwd 0) r mem]
      simp [recordKey])
  obtain ⟨srv₀, recorded, remapped⟩ := recordChild_some gigaHashName (c₀.servers 0) rootDirId
    gigaUpdateMapping_initial
  -- the zeroth server is the parent itself; it merges the split mapping into itself
  obtain ⟨srv₁, after, remapped'⟩ := updateBitmapRemote_of_recorded gigaHashName (c := c₀) (z := 0)
    zerothReached (boot_running gigaHashName 2 t cwd (by decide)).2 remapped.view
    gigaUpdateCache_splitRoot_self
  have size₀ : c₀.size = 2 := rfl
  have stepped : step gigaHashName c₀ (.split 0 rootDirId 0 deleted run zerothReached now) =
      some ((c₀.set 0 srv₀).set 0 srv₁) := by
    rw [step, if_pos (boot_running gigaHashName 2 t cwd (by decide)), split₀, recorded,
      Option.bind_some]
    exact after
  refine ⟨_, stepped, .step (.init ⟨2, t, cwd, by decide, rfl⟩) ⟨_, stepped⟩, size₀, ?_, ?_, ?_⟩
  · rw [Cluster.set_set, Cluster.set_self]
    exact remapped'.view
  · rw [Cluster.set_set, Cluster.set_self, (remapped.trans gigaHashName remapped').srvId]
    exact srvId₀
  · rw [Cluster.set_set, Cluster.set_of_ne _ _ (by decide)]

/-- The same split reaches a state where the parent's mapping holds partition 1 and places
it on server 1, while server 1 still holds the mapping of partition 0 alone and accepts no
name of the root. -/
theorem empty_root_split_strands_child (t : ℕ) (cwd : ℕ → Stat) (deleted now : ℕ)
    (run : InsertSplitRun) (zerothReached : Bool) :
    ∃ c, step gigaHashName (boot gigaHashName 2 t cwd)
        (.split 0 rootDirId 0 deleted run zerothReached now) = some c ∧
      Reach gigaHashName c ∧
      view gigaHashName (c.servers 0) rootDirId = some splitRoot ∧
      1 ∈ knownPartitions gigaHashName c rootDirId ∧ gigaGetServerForIndex splitRoot 1 = 1 ∧
      view gigaHashName (c.servers 1) rootDirId = some (gigaInitMapping rootDirId 0 2) ∧
      ∀ name, checkAddressing gigaHashName (c.servers 1) (gigaInitMapping rootDirId 0 2) name =
        some (-1) := by
  obtain ⟨c, stepped, reach, size, view₀, -, server₁⟩ :=
    empty_root_split_step gigaHashName t cwd deleted now run zerothReached
  refine ⟨c, stepped, reach, view₀, ?_, by decide, ?_, fun name => ?_⟩
  · refine (mem_knownPartitions gigaHashName _ _ 1).mpr ⟨0, by omega, ?_⟩
    rw [viewPartitions_of_view gigaHashName view₀, partitions_splitRoot]
    decide
  · rw [server₁]
    rfl
  · rw [server₁, checkAddressing_initial]
    rfl

end EmptyRoot

end IndexFS
