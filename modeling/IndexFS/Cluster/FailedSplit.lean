import IndexFS.Cluster.RootSplit

/-! A split whose `InsertSplit` never loads what was extracted. `metadb_extract_do` deletes the
migrating entries before the RPC, and `Split` publishes the child whatever became of it. -/
namespace IndexFS

open Giga Metadb

/-! ### Where the seek of an extraction lands -/

section Order

theorem replicate_zero_le : ∀ l : List UInt8, List.replicate l.length 0 ≤ l
  | [] => List.le_refl []
  | a :: l => by
    rw [List.length_cons, List.replicate_succ, List.cons_le_cons_iff]
    by_cases zero : (0 : UInt8) = a
    · exact .inr ⟨zero, replicate_zero_le l⟩
    · exact .inl (by grind)

theorem keyBytes_partition_lt_record (dirId : ℕ) (hash : Hash) :
    keyBytes ⟨dirId, 0, hash⟩ < keyBytes (recordKey dirId) := by
  simp only [keyBytes, recordKey, List.append_assoc]
  apply List.append_left_lt
  have low : le64 ((0 : ℤ) % 2 ^ 64).toNat = 0 :: List.replicate 7 0 := by decide
  have high : le64 ((-1 : ℤ) % 2 ^ 64).toNat = 255 :: List.replicate 7 255 := by decide
  rw [low, high, List.cons_append, List.cons_append, List.cons_lt_cons_iff]
  exact .inl (by decide)

theorem seekKey_le (dirId : ℕ) (hash : Hash) :
    keyBytes (initMetaObjSeekKey dirId 0) ≤ keyBytes ⟨dirId, 0, hash⟩ := by
  simp only [keyBytes, initMetaObjSeekKey]
  apply List.append_left_le
  have zeros : List.ofFn (fun _ : Fin hashLen => (0 : UInt8)) =
      List.replicate (List.ofFn hash).length 0 := by
    rw [List.length_ofFn, List.ofFn_const]
  rw [zeros]
  exact replicate_zero_le _

theorem seek_insert_first {db : Store} {seekKey key : MetadbKey} {val : MetadbVal}
    (absent : key ∉ db) (after : keyBytes seekKey ≤ keyBytes key)
    (first : ∀ r ∈ db.entries, keyBytes key ≤ keyBytes r.1) :
    seek (db.insert key val) seekKey = ⟨key, val⟩ :: seek db seekKey := by
  unfold seek
  rw [AList.entries_insert_of_notMem absent, List.filter_cons_of_pos (by simpa using after)]
  apply List.insertionSort_cons_of_forall_rel
  intro r mem
  exact first r (List.mem_filter.mp mem).1

end Order

/-! ### The root of a fresh deployment with one name -/

section OneName

variable (gigaHashName : List UInt8 → Hash)

theorem bootServer_get_of_ne (s size now : ℕ) (cwd : Stat) {key : MetadbKey}
    (other : key ≠ recordKey rootDirId) :
    (bootServer gigaHashName s size now cwd).mdb.get key = none := by
  cases stored : (bootServer gigaHashName s size now cwd).mdb.get key with
  | none => rfl
  | some val =>
    exact absurd (bootServer_entries gigaHashName s size now cwd _
      (AList.mem_lookup_iff.mp stored)) other

theorem initMetaObjKey_root {index : ℤ} (name : List UInt8) (nonneg : 0 ≤ index) :
    initMetaObjKey gigaHashName rootDirId index (some name) =
      ⟨rootDirId, index, gigaHashName name⟩ := by
  simp [initMetaObjKey, Int.not_lt.mpr nonneg]

theorem entryKey_ne_record {index : ℤ} (hash : Hash) (nonneg : 0 ≤ index) :
    (⟨rootDirId, index, hash⟩ : MetadbKey) ≠ recordKey rootDirId := by
  intro same
  have := congrArg MetadbKey.partitionId same
  simp only [recordKey] at this
  omega

theorem metadbExtractDo_one (s size now : ℕ) (cwd : Stat) (deleted : ℕ) (hash : Hash)
    (val : MetadbVal) (odd : hashKey hash % 2 = 1) :
    metadbExtractDo ((bootServer gigaHashName s size now cwd).mdb.put ⟨rootDirId, 0, hash⟩ val)
        rootDirId ((0 : ℕ) : ℤ) 1 deleted =
      some (deleteAll ((bootServer gigaHashName s size now cwd).mdb.put ⟨rootDirId, 0, hash⟩ val)
          ((List.take deleted [(⟨⟨rootDirId, 0, hash⟩, val⟩ : Σ _ : MetadbKey, MetadbVal)]).map
            Sigma.fst),
        1, [⟨⟨rootDirId, 1, hash⟩, val⟩]) := by
  set mdb := (bootServer gigaHashName s size now cwd).mdb
  have records : ∀ r ∈ mdb.db.entries, r.1 = recordKey rootDirId :=
    bootServer_entries gigaHashName s size now cwd
  have absent : (⟨rootDirId, 0, hash⟩ : MetadbKey) ∉ mdb.db := by
    rw [← AList.lookup_eq_none]
    exact bootServer_get_of_ne gigaHashName s size now cwd (entryKey_ne_record hash le_rfl)
  have first := @seek_insert_first mdb.db _ _ val absent (seekKey_le rootDirId hash)
    fun r mem => by
      rw [records r mem]
      exact List.le_of_lt (keyBytes_partition_lt_record rootDirId hash)
  -- after the entry the scan meets the bitmap record, of partition -1, and stops
  have rest : extractScan rootDirId 0 1 (seek mdb.db (initMetaObjSeekKey rootDirId 0)) =
      some [] := by
    apply extractScan_of_outside
    intro r mem
    rw [records r (mem_seek mem)]
    simp [recordKey]
  have status : gigaFileMigrationStatusWithHash hash 1 = some 1 := by
    rw [giga_file_migration_status_eq hash 1 (by decide), Nat.size_one, Nat.pow_one, odd,
      if_pos rfl]
  rw [metadbExtractDo, show ((0 : ℕ) : ℤ) = 0 from rfl, MetaDB.put, first, extractScan,
    if_pos ⟨rfl, rfl⟩]
  simp only [status, rest, ne_eq, one_ne_zero, not_false_eq_true, if_true, Option.bind_eq_bind,
    Option.bind_some, Option.pure_def, List.length_singleton, List.map_cons, List.map_nil]
  rfl

end OneName

/-! ### The lost entry -/

section Lost

variable (gigaHashName : List UInt8 → Hash)

theorem getattr_of_redirect {srv : MetadataServer} {dirId : ℕ} {name : List UInt8}
    {mapping : GigaMapping} (found : view gigaHashName srv dirId = some mapping)
    (redirected : checkAddressing gigaHashName srv mapping name = some (-1)) :
    getattr gigaHashName srv dirId name =
      some (srv, .error (.serverRedirectionException mapping)) := by
  rw [getattr, addressed_of_redirect gigaHashName srv dirId name mapping
    (fetchDir_of_view gigaHashName found) redirected]

theorem getattr_of_missing {srv : MetadataServer} {dirId : ℕ} {name : List UInt8}
    {mapping : GigaMapping} {index : ℕ} (found : view gigaHashName srv dirId = some mapping)
    (accepted : checkAddressing gigaHashName srv mapping name = some index)
    (missing : srv.mdb.get (initMetaObjKey gigaHashName dirId index (some name)) = none) :
    getattr gigaHashName srv dirId name = some (srv, .error .fileNotFoundException) := by
  rw [getattr, addressed_of_accepted gigaHashName srv dirId name mapping index
    (fetchDir_of_view gigaHashName found) accepted (Int.natCast_nonneg index)]
  simp [MetadataBackend.getattr, metadbLookup, missing]

theorem checkAddressing_boot_zero (t : ℕ) (cwd : ℕ → Stat) (name : List UInt8) :
    checkAddressing gigaHashName ((boot gigaHashName 2 t cwd).servers 0)
      (gigaInitMapping rootDirId 0 2) name = some 0 := by
  rw [checkAddressing_initial]
  rfl

theorem mknod_boot (t : ℕ) (cwd : ℕ → Stat) (now : ℕ) (name : List UInt8) :
    step gigaHashName (boot gigaHashName 2 t cwd) (.request 0 (.mknod rootDirId name now)) =
      some ((boot gigaHashName 2 t cwd).set 0 { (boot gigaHashName 2 t cwd).servers 0 with
        mdb := ((boot gigaHashName 2 t cwd).servers 0).mdb.put ⟨rootDirId, 0, gigaHashName name⟩
          (initMetaVal (cwd 0) none (strlen name) name (strlen []) [] 0 [] now) }) := by
  set c₀ := boot gigaHashName 2 t cwd
  have absent : (c₀.servers 0).mdb.get ⟨rootDirId, 0, gigaHashName name⟩ = none :=
    bootServer_get_of_ne gigaHashName 0 2 t (cwd 0) (entryKey_ne_record _ le_rfl)
  have created : mknod gigaHashName (c₀.servers 0) rootDirId name now =
      some (({ c₀.servers 0 with
        mdb := (c₀.servers 0).mdb.put ⟨rootDirId, 0, gigaHashName name⟩
          (initMetaVal (cwd 0) none (strlen name) name (strlen []) [] 0 [] now) } : MetadataServer),
        .ok ()) := by
    rw [mknod, addressed_of_accepted gigaHashName _ _ _ _ _
      (fetchDir_of_view gigaHashName (view_boot gigaHashName 2 t cwd 0))
      (checkAddressing_boot_zero gigaHashName t cwd name) le_rfl]
    simp only [metadbCreate, initMetaObjKey_root gigaHashName name le_rfl, putIfAbsent, absent]
    rfl
  rw [step, if_pos (boot_running gigaHashName 2 t cwd (by decide)), serve, created]
  rfl

theorem insertSplitRemote_unloaded (c : Cluster) (running : 1 ∉ c.stopped)
    {run : InsertSplitRun} (failed : run ≠ .loaded) (records : List (Σ _ : MetadbKey, MetadbVal))
    (bitmap : GigaMapping) (now : ℕ) :
    ∃ c', insertSplitRemote gigaHashName c 1 rootDirId 1 records bitmap run now = some c' ∧
      c'.size = c.size ∧ c'.servers = c.servers ∧ c'.stopped ⊆ insert 1 c.stopped := by
  cases run with
  | loaded => exact absurd rfl failed
  | unreached => exact ⟨c, rfl, rfl, rfl, Finset.subset_insert _ _⟩
  | loadFailed =>
    refine ⟨c.stop 1, ?_, rfl, rfl, subset_rfl⟩
    simp only [insertSplitRemote]
    unfold Cluster.call
    rw [if_neg running]
    rfl

theorem split_after_mknod {t : ℕ} {cwd : ℕ → Stat} {now₁ : ℕ} {name : List UInt8}
    (odd : hashKey (gigaHashName name) % 2 = 1) (deleted : ℕ) (run : InsertSplitRun)
    (zerothReached : Bool) (now₂ : ℕ) :
    let c₁ := (boot gigaHashName 2 t cwd).set 0 { (boot gigaHashName 2 t cwd).servers 0 with
      mdb := ((boot gigaHashName 2 t cwd).servers 0).mdb.put ⟨rootDirId, 0, gigaHashName name⟩
        (initMetaVal (cwd 0) none (strlen name) name (strlen []) [] 0 [] now₁) }
    let val := initMetaVal (cwd 0) none (strlen name) name (strlen []) [] 0 [] now₁
    step gigaHashName c₁ (.split 0 rootDirId 0 deleted run zerothReached now₂) =
      (insertSplitRemote gigaHashName (c₁.set 0 { c₁.servers 0 with
          mdb := deleteAll (c₁.servers 0).mdb ((List.take deleted
            [(⟨⟨rootDirId, 0, gigaHashName name⟩, val⟩ : Σ _ : MetadbKey, MetadbVal)]).map
              Sigma.fst) }) 1 rootDirId 1
        [⟨⟨rootDirId, 1, gigaHashName name⟩, val⟩] (gigaInitMapping rootDirId 0 2) run now₂).bind
        fun c' => (recordChild gigaHashName (c'.servers 0) rootDirId
          (gigaInitMapping rootDirId 0 2) 1).bind fun recorded =>
            updateBitmapRemote gigaHashName (c'.set 0 recorded.1) recorded.2.zerothServer
              rootDirId recorded.2 zerothReached := by
  intro c₁ val
  have found : gigaIndexForSplitting (gigaInitMapping rootDirId 0 2) 0 = some 1 := by decide
  have remote : (c₁.servers 0).srvId ≠ gigaGetServerForIndex (gigaInitMapping rootDirId 0 2) 1 :=
    show 0 ≠ 1 by decide
  rw [step, if_pos (show 0 < c₁.size ∧ 0 ∉ c₁.stopped from boot_running gigaHashName 2 t cwd
    (by decide))]
  have view₁ : view gigaHashName (c₁.servers 0) rootDirId = some (gigaInitMapping rootDirId 0 2) :=
    view_boot gigaHashName 2 t cwd 0
  have extracted : metadbExtractDo (c₁.servers 0).mdb rootDirId ((0 : ℕ) : ℤ) 1 deleted =
      some (deleteAll (c₁.servers 0).mdb ((List.take deleted
            [(⟨⟨rootDirId, 0, gigaHashName name⟩, val⟩ : Σ _ : MetadbKey, MetadbVal)]).map
              Sigma.fst), 1, [⟨⟨rootDirId, 1, gigaHashName name⟩, val⟩]) :=
    metadbExtractDo_one gigaHashName 0 2 t (cwd 0) deleted _ val odd
  exact split_of_extract gigaHashName (fetchDir_of_view gigaHashName view₁) found remote extracted
    one_pos


/-- A name with an odd hash key, made by `Mknod` on server 0 of two, moves to partition 1 in
the root's first split. If `InsertSplit` never runs there, or its bulk insert fails, no
server's `Getattr` returns the entry afterwards. -/
theorem failed_split_loses_entry (t : ℕ) (cwd : ℕ → Stat) (now₁ deleted now₂ : ℕ)
    (run : InsertSplitRun) (failed : run ≠ .loaded) (zerothReached : Bool) (name : List UInt8)
    (odd : hashKey (gigaHashName name) % 2 = 1) :
    ∃ c₁ c₂, step gigaHashName (boot gigaHashName 2 t cwd)
        (.request 0 (.mknod rootDirId name now₁)) = some c₁ ∧
      (∃ info, (getattr gigaHashName (c₁.servers 0) rootDirId name).map Prod.snd =
        some (.ok info)) ∧
      step gigaHashName c₁ (.split 0 rootDirId 0 deleted run zerothReached now₂) = some c₂ ∧
      Reach gigaHashName c₂ ∧
      1 ∈ viewPartitions gigaHashName (c₂.servers 0) rootDirId ∧
      (c₂.servers 1).mdb.get ⟨rootDirId, 1, gigaHashName name⟩ = none ∧
      ∀ s < c₂.size, ∀ info,
        (getattr gigaHashName (c₂.servers s) rootDirId name).map Prod.snd ≠ some (.ok info) := by
  set c₀ := boot gigaHashName 2 t cwd
  set val := initMetaVal (cwd 0) none (strlen name) name (strlen []) [] 0 [] now₁
  -- `Mknod` on server 0: the initial mapping sends every name to partition 0 there
  set srv₁ : MetadataServer := { c₀.servers 0 with
    mdb := (c₀.servers 0).mdb.put ⟨rootDirId, 0, gigaHashName name⟩ val }
  have stepped₁ : step gigaHashName c₀ (.request 0 (.mknod rootDirId name now₁)) =
      some (c₀.set 0 srv₁) :=
    mknod_boot gigaHashName t cwd now₁ name
  set c₁ := c₀.set 0 srv₁
  have view₁ : view gigaHashName srv₁ rootDirId = some (gigaInitMapping rootDirId 0 2) :=
    view_boot gigaHashName 2 t cwd 0
  have found₁ : ∃ info, (getattr gigaHashName (c₁.servers 0) rootDirId name).map Prod.snd =
      some (.ok info) := by
    have stored : srv₁.mdb.get ⟨rootDirId, 0, gigaHashName name⟩ = some val := by
      simp [srv₁]
    rw [Cluster.set_self, getattr, addressed_of_accepted gigaHashName _ _ _ _ _
      (fetchDir_of_view gigaHashName view₁) (checkAddressing_boot_zero gigaHashName t cwd name)
      le_rfl]
    simp [MetadataBackend.getattr, metadbLookup, initMetaObjKey_root gigaHashName name le_rfl,
      stored]
  -- the split of partition 0 moves the entry, and `ret = 1` sends `InsertSplit`, which
  -- changes no server's state
  set srvE : MetadataServer := { srv₁ with
    mdb := (deleteAll srv₁.mdb ((List.take deleted
      [(⟨⟨rootDirId, 0, gigaHashName name⟩, val⟩ : Σ _ : MetadbKey, MetadbVal)]).map Sigma.fst)) }
  obtain ⟨c', inserted, size', servers', stopped'⟩ := insertSplitRemote_unloaded gigaHashName
    (c₁.set 0 srvE) (Finset.notMem_empty 1) failed [⟨⟨rootDirId, 1, gigaHashName name⟩, val⟩]
    (gigaInitMapping rootDirId 0 2) now₂
  have kept : c'.servers 0 = srvE := by rw [servers', Cluster.set_self]
  have running : 0 ∉ c'.stopped := fun stopped => by
    have := stopped' stopped
    simp [c₁, c₀, boot] at this
  -- the parent records the child, and as the zeroth server merges it into itself
  obtain ⟨srvR, recorded, remapped⟩ := recordChild_some gigaHashName srvE rootDirId
    gigaUpdateMapping_initial
  obtain ⟨srvZ, told, remapped'⟩ := updateBitmapRemote_of_recorded gigaHashName (c := c') (z := 0)
    zerothReached running remapped.view gigaUpdateCache_splitRoot_self
  have split₂ : step gigaHashName c₁ (.split 0 rootDirId 0 deleted run zerothReached now₂) =
      (insertSplitRemote gigaHashName (c₁.set 0 srvE) 1 rootDirId 1
        [⟨⟨rootDirId, 1, gigaHashName name⟩, val⟩] (gigaInitMapping rootDirId 0 2) run now₂).bind
        fun c' => (recordChild gigaHashName (c'.servers 0) rootDirId
          (gigaInitMapping rootDirId 0 2) 1).bind fun recorded =>
            updateBitmapRemote gigaHashName (c'.set 0 recorded.1) recorded.2.zerothServer
              rootDirId recorded.2 zerothReached :=
    split_after_mknod gigaHashName odd deleted run zerothReached now₂
  have stepped₂ : step gigaHashName c₁ (.split 0 rootDirId 0 deleted run zerothReached now₂) =
      some ((c'.set 0 srvR).set 0 srvZ) := by
    rw [split₂, inserted, Option.bind_some, kept, recorded, Option.bind_some]
    exact told
  have server₀ : ((c'.set 0 srvR).set 0 srvZ).servers 0 = srvZ := by rw [Cluster.set_self]
  -- server 1 is left as it booted
  have server₁ : ((c'.set 0 srvR).set 0 srvZ).servers 1 = c₀.servers 1 := by
    rw [Cluster.set_set, Cluster.set_of_ne _ _ (by decide), servers', Cluster.set_of_ne _ _
      (by decide), Cluster.set_of_ne _ _ (by decide)]
  -- server 0 now sends the name to partition 1 on server 1
  have redirected : checkAddressing gigaHashName srvZ splitRoot name = some (-1) := by
    rw [checkAddressing_splitRoot, (remapped.trans gigaHashName remapped').srvId, odd]
    rfl
  refine ⟨c₁, _, stepped₁, found₁, stepped₂,
    .step (.step (.init ⟨2, t, cwd, by decide, rfl⟩) ⟨_, stepped₁⟩) ⟨_, stepped₂⟩, ?_, ?_, ?_⟩
  · rw [server₀, viewPartitions_of_view gigaHashName remapped'.view, partitions_splitRoot]
    decide
  · rw [server₁]
    exact bootServer_get_of_ne gigaHashName 1 2 t (cwd 1) (entryKey_ne_record _ (by decide))
  · intro s inside info
    have two : s = 0 ∨ s = 1 := by
      rw [Cluster.set_size, Cluster.set_size, size'] at inside
      exact (show s < 2 from inside) |> fun lt => by omega
    rcases two with rfl | rfl
    · rw [server₀, getattr_of_redirect gigaHashName remapped'.view redirected]
      simp
    · rw [server₁, getattr_of_redirect gigaHashName (view_boot gigaHashName 2 t cwd 1)
        (by rw [checkAddressing_initial]; rfl)]
      simp

theorem loaded_split_moves_entry (t : ℕ) (cwd : ℕ → Stat) (now₁ deleted now₂ : ℕ)
    (zerothReached : Bool) {name : List UInt8} (odd : hashKey (gigaHashName name) % 2 = 1) :
    ∃ c₁ c₂, step gigaHashName (boot gigaHashName 2 t cwd)
        (.request 0 (.mknod rootDirId name now₁)) = some c₁ ∧
      view gigaHashName (c₁.servers 0) rootDirId = some (gigaInitMapping rootDirId 0 2) ∧
      (c₁.servers 0).srvId = 0 ∧
      step gigaHashName c₁ (.split 0 rootDirId 0 deleted .loaded zerothReached now₂) = some c₂ ∧
      c₂.size = 2 ∧ c₂.stopped = ∅ ∧
      view gigaHashName (c₂.servers 0) rootDirId = some splitRoot ∧ (c₂.servers 0).srvId = 0 ∧
      view gigaHashName (c₂.servers 1) rootDirId = some splitRoot ∧ (c₂.servers 1).srvId = 1 ∧
      ((c₂.servers 1).mdb.get ⟨rootDirId, 1, gigaHashName name⟩).isSome := by
  set c₀ := boot gigaHashName 2 t cwd
  set val := initMetaVal (cwd 0) none (strlen name) name (strlen []) [] 0 [] now₁
  set srv₁ : MetadataServer := { c₀.servers 0 with
    mdb := (c₀.servers 0).mdb.put ⟨rootDirId, 0, gigaHashName name⟩ val }
  set c₁ := c₀.set 0 srv₁
  set srvE : MetadataServer := { srv₁ with
    mdb := (deleteAll srv₁.mdb ((List.take deleted
      [(⟨⟨rootDirId, 0, gigaHashName name⟩, val⟩ : Σ _ : MetadbKey, MetadbVal)]).map Sigma.fst)) }
  set records : List (Σ _ : MetadbKey, MetadbVal) := [⟨⟨rootDirId, 1, gigaHashName name⟩, val⟩]
  have split₂ : step gigaHashName c₁ (.split 0 rootDirId 0 deleted .loaded zerothReached now₂) =
      (insertSplitRemote gigaHashName (c₁.set 0 srvE) 1 rootDirId 1 records
        (gigaInitMapping rootDirId 0 2) .loaded now₂).bind
        fun c' => (recordChild gigaHashName (c'.servers 0) rootDirId
          (gigaInitMapping rootDirId 0 2) 1).bind fun recorded =>
            updateBitmapRemote gigaHashName (c'.set 0 recorded.1) recorded.2.zerothServer
              rootDirId recorded.2 zerothReached :=
    split_after_mknod gigaHashName odd deleted .loaded zerothReached now₂
  -- server 1 loads the record and adds the child to the mapping it booted with
  have view₁ : view gigaHashName { c₀.servers 1 with mdb := putAll (c₀.servers 1).mdb records }
      rootDirId = some (gigaInitMapping rootDirId 0 2) := rfl
  obtain ⟨srvL, loaded, remappedL⟩ := insertSplit_loaded_some gigaHashName records
    (gigaInitMapping rootDirId 0 2) now₂ view₁ gigaUpdateMapping_initial
  have inserted : insertSplitRemote gigaHashName (c₁.set 0 srvE) 1 rootDirId 1 records
      (gigaInitMapping rootDirId 0 2) .loaded now₂ = some ((c₁.set 0 srvE).set 1 srvL) := by
    have loaded' : insertSplit gigaHashName ((c₁.set 0 srvE).servers 1) rootDirId 1 records
        (gigaInitMapping rootDirId 0 2) true now₂ = some srvL := loaded
    simp only [insertSplitRemote, loaded']
    unfold Cluster.call
    rw [if_neg (show 1 ∉ (c₁.set 0 srvE).stopped from Finset.notMem_empty 1)]
  -- the parent records the child, and as the zeroth server merges it into itself
  obtain ⟨srvR, recorded, remapped⟩ := recordChild_some gigaHashName srvE rootDirId
    gigaUpdateMapping_initial
  obtain ⟨srvZ, told, remapped'⟩ := updateBitmapRemote_of_recorded gigaHashName
    (c := (c₁.set 0 srvE).set 1 srvL) (z := 0) zerothReached (Finset.notMem_empty 0) remapped.view
    gigaUpdateCache_splitRoot_self
  have kept : ((c₁.set 0 srvE).set 1 srvL).servers 0 = srvE := by
    rw [Cluster.set_of_ne _ _ (by decide), Cluster.set_self]
  have stepped₂ : step gigaHashName c₁ (.split 0 rootDirId 0 deleted .loaded zerothReached now₂) =
      some ((((c₁.set 0 srvE).set 1 srvL).set 0 srvR).set 0 srvZ) := by
    rw [split₂, inserted, Option.bind_some, kept, recorded, Option.bind_some]
    exact told
  have server₁ : ((((c₁.set 0 srvE).set 1 srvL).set 0 srvR).set 0 srvZ).servers 1 = srvL := by
    rw [Cluster.set_set, Cluster.set_of_ne _ _ (by decide), Cluster.set_self]
  refine ⟨c₁, _, mknod_boot gigaHashName t cwd now₁ name, view_boot gigaHashName 2 t cwd 0, rfl,
    stepped₂, rfl, rfl, ?_, ?_, ?_, ?_, ?_⟩
  · rw [Cluster.set_self]
    exact remapped'.view
  · rw [Cluster.set_self, (remapped.trans gigaHashName remapped').srvId]
    rfl
  · rw [server₁]
    exact remappedL.view
  · rw [server₁, remappedL.srvId]
    rfl
  · -- the loaded entry is the one record under its key
    rw [server₁, remappedL.entries _ (entryKey_ne_record _ (by decide)),
      get_putAll_of_mem _ (by simp) (List.mem_singleton_self _)]
    rfl

theorem failed_split_loses_entry_unreached :
    ∃ c₁ c₂, step firstByteHash (boot firstByteHash 2 0 fun _ => default)
        (.request 0 (.mknod rootDirId [128] 0)) = some c₁ ∧
      (∃ info, (getattr firstByteHash (c₁.servers 0) rootDirId [128]).map Prod.snd =
        some (.ok info)) ∧
      step firstByteHash c₁ (.split 0 rootDirId 0 1 .unreached true 0) = some c₂ ∧
      Reach firstByteHash c₂ ∧
      1 ∈ viewPartitions firstByteHash (c₂.servers 0) rootDirId ∧
      (c₂.servers 1).mdb.get ⟨rootDirId, 1, firstByteHash [128]⟩ = none ∧
      ∀ s < c₂.size, ∀ info,
        (getattr firstByteHash (c₂.servers s) rootDirId [128]).map Prod.snd ≠ some (.ok info) :=
  failed_split_loses_entry firstByteHash 0 (fun _ => default) 0 1 0 .unreached (by simp) true
    [128] (by decide)

end Lost

end IndexFS
