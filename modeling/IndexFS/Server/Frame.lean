import IndexFS.Server.Split

/-! What the handlers of one server leave alone. A namespace handler adds at most the key of the
name it was sent, at a partition it accepted; a split handler changes only what the server
holds of the directory being split. -/
namespace IndexFS

open Giga Metadb

/-! ### The names a store gains -/

def NamesFrom (new : MetadbKey → Prop) (mdb mdb' : MetaDB) : Prop :=
  ∀ key : MetadbKey, 0 ≤ key.partitionId → (mdb'.get key).isSome →
    (mdb.get key).isSome ∨ new key

section Names

variable {new new' : MetadbKey → Prop} {mdb mdb' mdb₁ mdb₂ mdb₃ : MetaDB}

theorem NamesFrom.refl (new : MetadbKey → Prop) (mdb : MetaDB) : NamesFrom new mdb mdb :=
  fun _ _ held => .inl held

theorem NamesFrom.trans (first : NamesFrom new mdb₁ mdb₂) (second : NamesFrom new mdb₂ mdb₃) :
    NamesFrom new mdb₁ mdb₃ := by
  intro key nonneg held
  rcases second key nonneg held with held | fresh
  · exact first key nonneg held
  · exact .inr fresh

theorem NamesFrom.mono (names : NamesFrom new mdb mdb') (le : ∀ key, new key → new' key) :
    NamesFrom new' mdb mdb' :=
  fun key nonneg held => (names key nonneg held).imp_right (le key)

theorem NamesFrom.of_keep
    (keep : ∀ key : MetadbKey, 0 ≤ key.partitionId → mdb'.get key = mdb.get key) :
    NamesFrom new mdb mdb' :=
  fun key nonneg held => .inl (keep key nonneg ▸ held)

theorem NamesFrom.of_neg {key : MetadbKey} (names : NamesFrom (· = key) mdb mdb')
    (neg : key.partitionId < 0) : NamesFrom new mdb mdb' := by
  intro key' nonneg held
  rcases names key' nonneg held with held | rfl
  · exact .inl held
  · omega

theorem namesFrom_put (key : MetadbKey) (val : MetadbVal) :
    NamesFrom (· = key) mdb (mdb.put key val) := by
  intro key' _ held
  rw [get_put] at held
  split at held
  · rename_i same
    exact .inr same
  · exact .inl held

theorem namesFrom_putIfAbsent (key : MetadbKey) (val : MetadbVal) :
    NamesFrom (· = key) mdb (putIfAbsent mdb key val).1 := by
  unfold putIfAbsent
  split
  · exact NamesFrom.refl _ _
  · exact namesFrom_put key val

theorem namesFrom_delete (key : MetadbKey) : NamesFrom new mdb (mdb.delete key) := by
  intro key' _ held
  rw [get_delete] at held
  split at held
  · cases held
  · exact .inl held

theorem namesFrom_deleteAll (keys : List MetadbKey) : NamesFrom new mdb (deleteAll mdb keys) := by
  intro key _ held
  rw [get_deleteAll] at held
  split at held
  · cases held
  · exact .inl held

theorem namesFrom_putAll (records : List (Σ _ : MetadbKey, MetadbVal)) :
    NamesFrom (· ∈ records.map Sigma.fst) mdb (putAll mdb records) := by
  intro key _ held
  by_cases mem : key ∈ records.map Sigma.fst
  · exact .inr mem
  · rw [get_putAll_of_not_mem _ _ _ mem] at held
    exact .inl held

theorem namesFrom_updateInternal {key : MetadbKey} {f : MetadbVal → Option (ℤ × MetadbVal)}
    {ret : ℤ} (updated : metadbUpdateInternal mdb key f = some (mdb', ret)) :
    NamesFrom new mdb mdb' := by
  unfold metadbUpdateInternal at updated
  split at updated
  · cases updated
    exact NamesFrom.refl _ _
  · rename_i val stored
    obtain ⟨⟨ret', val'⟩, -, done⟩ := Option.map_eq_some_iff.mp updated
    dsimp only at done
    split at done
    · cases done
      intro key' _ held
      rw [get_put] at held
      split at held
      · rename_i same
        rw [same, stored]
        exact .inl rfl
      · exact .inl held
    · cases done
      exact NamesFrom.refl _ _

end Names

/-! ### Namespace handlers -/

section Requests

variable (gigaHashName : List UInt8 → Hash)

def AcceptedKey (srv : MetadataServer) (dirId : ℕ) (objname : List UInt8) (key : MetadbKey) :
    Prop :=
  ∃ mapping index, view gigaHashName srv dirId = some mapping ∧
    checkAddressing gigaHashName srv mapping objname = some index ∧ 0 ≤ index ∧
    key = initMetaObjKey gigaHashName dirId index (some objname)

variable {gigaHashName}

theorem namesFrom_accepted {srv : MetadataServer} {dirId : ℕ} {objname : List UInt8}
    {mapping : GigaMapping} {index : ℤ} {mdb mdb' : MetaDB}
    (fetched : fetchDir gigaHashName srv dirId = some (some mapping))
    (accepted : checkAddressing gigaHashName srv mapping objname = some index) (nonneg : 0 ≤ index)
    (names : NamesFrom (· = initMetaObjKey gigaHashName dirId index (some objname)) mdb mdb') :
    NamesFrom (AcceptedKey gigaHashName srv dirId objname) mdb mdb' :=
  names.mono fun _ same =>
    ⟨mapping, index, view_of_fetchDir gigaHashName fetched, accepted, nonneg, same⟩

variable (gigaHashName)

theorem namesFrom_mkdir (mdb : MetaDB) (dirId : ℕ) (index : ℤ) (objname : List UInt8)
    (objectId serverId numServers now : ℕ) :
    NamesFrom (· = initMetaObjKey gigaHashName dirId index (some objname)) mdb
      (MetadataBackend.mkdir gigaHashName mdb dirId index objname objectId serverId numServers
        now).1 := by
  unfold MetadataBackend.mkdir metadbCreateDir
  split
  · exact (namesFrom_putIfAbsent _ _).of_neg (by simp [recordKey])
  · exact namesFrom_putIfAbsent _ _

theorem createZeroth_eq (srv : MetadataServer) (dirId now : ℕ) :
    (createZeroth gigaHashName srv dirId now).1 = { srv with
      mdb := (MetadataBackend.mkdir gigaHashName srv.mdb dirId (-1) [] dirId srv.srvId srv.srvNum
        now).1 } := by
  unfold createZeroth
  split
  rename_i written
  rw [written]
  split <;> rfl

variable {gigaHashName}

section Handlers

variable {srv srv' : MetadataServer} {dirId : ℕ} {objname : List UInt8}
  {result : Except Exception Unit}

theorem mknod_frame {now : ℕ} (done : mknod gigaHashName srv dirId objname now = some (srv', result)) :
    ∃ mdb, srv' = { srv with mdb } ∧
      NamesFrom (AcceptedKey gigaHashName srv dirId objname) srv.mdb mdb := by
  rcases addressed_cases gigaHashName done with rfl | ⟨mapping, index, fetched, accepted, nonneg, body⟩
  · exact ⟨srv'.mdb, rfl, NamesFrom.refl _ _⟩
  · simp only [metadbCreate] at body
    exact ⟨_, server_of_ite body,
      namesFrom_accepted fetched accepted nonneg (namesFrom_putIfAbsent _ _)⟩

theorem createEntry_frame {info : StatInfo} {link data : List UInt8} {stack : Stat} {now : ℕ}
    {ret : ℤ}
    (done : createEntry gigaHashName srv dirId objname info link data stack now ret =
      some (srv', result)) :
    ∃ mdb, srv' = { srv with mdb } ∧
      NamesFrom (AcceptedKey gigaHashName srv dirId objname) srv.mdb mdb := by
  rcases addressed_cases gigaHashName done with rfl | ⟨mapping, index, fetched, accepted, nonneg, body⟩
  · exact ⟨srv'.mdb, rfl, NamesFrom.refl _ _⟩
  · simp only [MetadataBackend.createEntry, metadbCreateEntry] at body
    exact ⟨_, server_of_ite body,
      namesFrom_accepted fetched accepted nonneg (namesFrom_putIfAbsent _ _)⟩

theorem remove_frame (done : remove gigaHashName srv dirId objname = some (srv', result)) :
    ∃ mdb, srv' = { srv with mdb } ∧
      NamesFrom (AcceptedKey gigaHashName srv dirId objname) srv.mdb mdb := by
  rcases addressed_cases gigaHashName done with rfl | ⟨mapping, index, -, -, -, body⟩
  · exact ⟨srv'.mdb, rfl, NamesFrom.refl _ _⟩
  · simp only [metadbRemove] at body
    split at body
    · cases body
      exact ⟨srv.mdb, rfl, NamesFrom.refl _ _⟩
    · exact ⟨_, server_of_ite body, namesFrom_delete _⟩

theorem chmod_frame {permission : UInt32}
    (done : chmod gigaHashName srv dirId objname permission = some (srv', result)) :
    ∃ mdb, srv' = { srv with mdb } ∧
      NamesFrom (AcceptedKey gigaHashName srv dirId objname) srv.mdb mdb := by
  rcases addressed_cases gigaHashName done with rfl | ⟨mapping, index, -, -, -, body⟩
  · exact ⟨srv'.mdb, rfl, NamesFrom.refl _ _⟩
  · split at body
    · cases body
      exact ⟨srv.mdb, rfl, NamesFrom.refl _ _⟩
    · simp only [Option.bind_eq_bind, Option.bind_eq_some_iff] at body
      obtain ⟨⟨mdb, ret⟩, updated, body⟩ := body
      exact ⟨_, server_of_ite body, namesFrom_updateInternal updated⟩

theorem mkdir_frame {hintServer now : ℕ} {zerothRemote : Bool}
    (done : mkdir gigaHashName srv dirId objname hintServer now zerothRemote =
      some (srv', result)) :
    ∃ mdb, srv' = { srv with mdb } ∧
      NamesFrom (AcceptedKey gigaHashName srv dirId objname) srv.mdb mdb := by
  rcases addressed_cases gigaHashName done with rfl | ⟨mapping, index, fetched, accepted, nonneg, body⟩
  · exact ⟨srv'.mdb, rfl, NamesFrom.refl _ _⟩
  · -- the inode count moves first, and no name with it
    have counted : NamesFrom (AcceptedKey gigaHashName srv dirId objname) srv.mdb
        (MetadataBackend.newInodeNumber srv.mdb).1 :=
      NamesFrom.of_keep fun _ _ => by simp only [MetaDB.get, MetadataBackend.db_newInodeNumber]
    have made := counted.trans (namesFrom_accepted fetched accepted nonneg
      (namesFrom_mkdir gigaHashName (MetadataBackend.newInodeNumber srv.mdb).1 dirId index objname
        (MetadataBackend.newInodeNumber srv.mdb).2 hintServer srv.srvNum now))
    simp only [Option.pure_def] at body
    split at body
    · cases body
      exact ⟨_, rfl, made⟩
    · split at body
      · -- the zeroth server is this one: `CreateZeroth` writes only a bitmap record
        have same : _ = srv' := congrArg Prod.fst (Option.some.inj body)
        rw [← same, createZeroth_eq]
        exact ⟨_, rfl, made.trans ((namesFrom_mkdir gigaHashName _ _ _ _ _ _ _ _).of_neg (by simp))⟩
      · split at body <;> cases body <;> exact ⟨_, rfl, made⟩

end Handlers

end Requests

/-! ### The handlers of a split -/

section Split

variable (gigaHashName : List UInt8 → Hash)

/-- `srv'` is `srv` with `mapping` cached for `dirId` and at most the bitmap record of
`dirId` rewritten. -/
structure Recached (dirId : ℕ) (mapping : GigaMapping) (srv srv' : MetadataServer) : Prop where
  srvId : srv'.srvId = srv.srvId
  dmap : srv'.dmap = Function.update srv.dmap dirId (some mapping)
  keys : ∀ key, key ≠ recordKey dirId → srv'.mdb.get key = srv.mdb.get key

theorem view_of_dmap {srv : MetadataServer} {dirId : ℕ} {mapping : GigaMapping}
    (cached : srv.dmap dirId = some mapping) : view gigaHashName srv dirId = some mapping := by
  rw [view_eq, cached]
  rfl

variable {gigaHashName}

theorem Recached.names {dirId : ℕ} {mapping : GigaMapping} {srv srv' : MetadataServer}
    (recached : Recached dirId mapping srv srv') (new : MetadbKey → Prop) :
    NamesFrom new srv.mdb srv'.mdb :=
  NamesFrom.of_keep fun key nonneg => recached.keys key fun same => by
    rw [same] at nonneg
    exact absurd nonneg (by simp [recordKey])

theorem Recached.view_self {dirId : ℕ} {mapping : GigaMapping} {srv srv' : MetadataServer}
    (recached : Recached dirId mapping srv srv') : view gigaHashName srv' dirId = some mapping :=
  view_of_dmap gigaHashName (by rw [recached.dmap, Function.update_self])

theorem recached_of_updateBitmap {srv : MetadataServer} {dirId : ℕ} {mapping : GigaMapping}
    {mdb : MetaDB} {ret : ℤ}
    (written : MetadataBackend.updateBitmap gigaHashName srv.mdb dirId mapping = some (mdb, ret)) :
    Recached dirId mapping srv
      { srv with mdb, dmap := Function.update srv.dmap dirId (some mapping) } where
  srvId := rfl
  dmap := rfl
  keys key other := (get_updateBitmap gigaHashName written key).trans (if_neg other)

theorem updateBitmap_found {srv srv' : MetadataServer} {dirId : ℕ} {current mapping : GigaMapping}
    {result : Except Exception Unit} (found : view gigaHashName srv dirId = some current)
    (done : updateBitmap gigaHashName srv dirId mapping = some (srv', result)) :
    ∃ merged, gigaUpdateCache current mapping = some merged ∧ Recached dirId merged srv srv' := by
  simp only [updateBitmap, fetchDir_of_view gigaHashName found, Option.bind_eq_bind,
    Option.bind_some, Option.bind_eq_some_iff, Option.pure_def, Option.some.injEq] at done
  obtain ⟨merged, cache, ⟨mdb, ret⟩, written, done⟩ := done
  rw [← (Prod.mk.inj done).1]
  exact ⟨merged, cache, recached_of_updateBitmap written⟩

theorem insertSplit_found {srv srv' : MetadataServer} {dirId childIndex : ℕ}
    {records : List (Σ _ : MetadbKey, MetadbVal)} {bitmap current : GigaMapping} {loaded : Bool}
    {now : ℕ} (found : view gigaHashName { srv with mdb := putAll srv.mdb records } dirId = some current)
    (done : insertSplit gigaHashName srv dirId childIndex records bitmap loaded now = some srv') :
    ∃ mapping, gigaUpdateMapping current childIndex = some mapping ∧
      Recached dirId mapping { srv with mdb := putAll srv.mdb records } srv' := by
  cases loaded
  · cases done
  simp only [insertSplit, metadbBulkinsert, if_true, Option.bind_eq_bind, Option.bind_some,
    fetchDir_of_view gigaHashName found, Option.bind_eq_some_iff, Option.pure_def,
    Option.some.injEq] at done
  obtain ⟨mapping, update, ⟨mdb, ret⟩, written, rfl⟩ := done
  exact ⟨mapping, update, recached_of_updateBitmap written⟩

structure OnlyDir (dirId : ℕ) (srv srv' : MetadataServer) : Prop where
  srvId : srv'.srvId = srv.srvId
  dmap : ∀ d, d ≠ dirId → srv'.dmap d = srv.dmap d
  keys : ∀ key : MetadbKey, key.parentId ≠ dirId → srv'.mdb.get key = srv.mdb.get key

theorem OnlyDir.refl (dirId : ℕ) (srv : MetadataServer) : OnlyDir dirId srv srv :=
  ⟨rfl, fun _ _ => rfl, fun _ _ => rfl⟩

theorem OnlyDir.trans {dirId : ℕ} {srv₁ srv₂ srv₃ : MetadataServer}
    (first : OnlyDir dirId srv₁ srv₂) (second : OnlyDir dirId srv₂ srv₃) :
    OnlyDir dirId srv₁ srv₃ where
  srvId := second.srvId.trans first.srvId
  dmap d other := (second.dmap d other).trans (first.dmap d other)
  keys key other := (second.keys key other).trans (first.keys key other)

theorem Recached.onlyDir {dirId : ℕ} {mapping : GigaMapping} {srv srv' : MetadataServer}
    (recached : Recached dirId mapping srv srv') : OnlyDir dirId srv srv' where
  srvId := recached.srvId
  dmap d other := by rw [recached.dmap, Function.update_of_ne other]
  keys key other := recached.keys key fun same => other (by rw [same]; rfl)

theorem onlyDir_store {dirId : ℕ} {srv : MetadataServer} {mdb : MetaDB}
    (keep : ∀ key : MetadbKey, key.parentId ≠ dirId → mdb.get key = srv.mdb.get key) :
    OnlyDir dirId srv { srv with mdb } :=
  ⟨rfl, fun _ _ => rfl, keep⟩

theorem onlyDir_putAll {dirId : ℕ} (srv : MetadataServer)
    {records : List (Σ _ : MetadbKey, MetadbVal)} (under : ∀ r ∈ records, r.1.parentId = dirId) :
    OnlyDir dirId srv { srv with mdb := putAll srv.mdb records } := by
  refine onlyDir_store fun key other => get_putAll_of_not_mem _ _ _ fun mem => ?_
  obtain ⟨r, inside, rfl⟩ := List.mem_map.mp mem
  exact other (under r inside)

theorem updateBitmap_cases {srv srv' : MetadataServer} {dirId : ℕ} {mapping : GigaMapping}
    {result : Except Exception Unit}
    (done : updateBitmap gigaHashName srv dirId mapping = some (srv', result)) :
    srv' = srv ∨ ∃ merged, Recached dirId merged srv srv' := by
  unfold updateBitmap at done
  cases fetched : fetchDir gigaHashName srv dirId with
  | none => simp [fetched] at done
  | some found =>
    cases found with
    | none =>
      simp only [fetched, Option.bind_eq_bind, Option.bind_some, Option.pure_def,
        Option.some.injEq, Prod.mk.injEq] at done
      exact .inl done.1.symm
    | some current =>
      simp only [fetched, Option.bind_eq_bind, Option.bind_some, Option.bind_eq_some_iff,
        Option.pure_def, Option.some.injEq] at done
      obtain ⟨merged, -, ⟨mdb, ret⟩, written, done⟩ := done
      rw [← (Prod.mk.inj done).1]
      exact .inr ⟨merged, recached_of_updateBitmap written⟩

theorem updateBitmap_onlyDir {srv srv' : MetadataServer} {dirId : ℕ} {mapping : GigaMapping}
    {result : Except Exception Unit}
    (done : updateBitmap gigaHashName srv dirId mapping = some (srv', result)) :
    OnlyDir dirId srv srv' := by
  rcases updateBitmap_cases done with rfl | ⟨merged, recached⟩
  · exact OnlyDir.refl _ _
  · exact recached.onlyDir

theorem insertSplit_onlyDir {srv srv' : MetadataServer} {dirId childIndex : ℕ}
    {records : List (Σ _ : MetadbKey, MetadbVal)} {bitmap : GigaMapping} {loaded : Bool}
    {now : ℕ} (done : insertSplit gigaHashName srv dirId childIndex records bitmap loaded now =
      some srv') (under : ∀ r ∈ records, r.1.parentId = dirId) :
    OnlyDir dirId srv srv' := by
  cases loaded
  · cases done
  simp only [insertSplit, metadbBulkinsert, if_true, Option.bind_eq_bind, Option.bind_some] at done
  set srv₁ := { srv with mdb := putAll srv.mdb records }
  refine (onlyDir_putAll srv under).trans ?_
  cases fetched : fetchDir gigaHashName srv₁ dirId with
  | none => simp [fetched] at done
  | some found =>
    cases found with
    | none =>
      -- no mapping yet: `CreateBitmap` writes the record, and the cache only if it did
      simp only [fetched, Option.bind_some, Option.bind_eq_some_iff, Option.pure_def,
        Option.some.injEq] at done
      obtain ⟨mapping, -, rfl⟩ := done
      refine ⟨rfl, fun d other => ?_, fun key other => ?_⟩
      · dsimp only
        split
        · rw [Function.update_of_ne other]
        · rfl
      · simp only [MetadataBackend.createBitmap, metadbCreateDir, initMetaObjKey_record]
        exact get_putIfAbsent_of_ne _ _ _ _ fun same => other (by rw [same]; rfl)
    | some current =>
      simp only [fetched, Option.bind_some, Option.bind_eq_some_iff, Option.pure_def,
        Option.some.injEq] at done
      obtain ⟨mapping, -, ⟨mdb, ret⟩, written, rfl⟩ := done
      exact (recached_of_updateBitmap written).onlyDir

end Split

/-! ### The cache and the bitmap records -/

section Coherent

variable (gigaHashName : List UInt8 → Hash)

def recordMapping (srv : MetadataServer) (dirId : ℕ) : Option GigaMapping :=
  (srv.mdb.get (recordKey dirId)).bind MetadbVal.dir

def recordPartitions (srv : MetadataServer) (dirId : ℕ) : Finset ℕ :=
  match recordMapping srv dirId with
  | some mapping => partitions mapping.bitmap
  | none => ∅

/-- Every mapping the server caches has the bitmap of the directory's bitmap record, which
is what `FetchDir` reads once the cache has dropped it. -/
def Coherent (srv : MetadataServer) : Prop :=
  ∀ dirId mapping, srv.dmap dirId = some mapping →
    ∃ stored, recordMapping srv dirId = some stored ∧ stored.bitmap = mapping.bitmap

variable {gigaHashName} {srv srv' : MetadataServer}

theorem Coherent.viewPartitions_eq (coherent : Coherent srv) (dirId : ℕ) :
    viewPartitions gigaHashName srv dirId = recordPartitions srv dirId := by
  unfold viewPartitions recordPartitions
  rw [view_eq]
  cases cached : srv.dmap dirId with
  | some mapping =>
    obtain ⟨stored, recorded, same⟩ := coherent dirId mapping cached
    rw [recorded]
    show partitions mapping.bitmap = partitions stored.bitmap
    rw [same]
  | none => rfl

theorem Coherent.recorded (coherent : Coherent srv) {dirId : ℕ} {mapping : GigaMapping}
    (found : view gigaHashName srv dirId = some mapping) : (recordMapping srv dirId).isSome := by
  rw [view_eq] at found
  cases cached : srv.dmap dirId with
  | some cachedMapping =>
    obtain ⟨stored, recorded, -⟩ := coherent dirId cachedMapping cached
    rw [recorded]
    rfl
  | none =>
    rw [cached] at found
    exact Option.isSome_iff_exists.mpr ⟨mapping, found⟩

theorem Coherent.of_records (coherent : Coherent srv) (cached : srv'.dmap = srv.dmap)
    (records : ∀ dirId, recordMapping srv' dirId = recordMapping srv dirId) : Coherent srv' := by
  intro dirId mapping hit
  rw [records]
  exact coherent dirId mapping (cached ▸ hit)

theorem Coherent.of_freshRecords (coherent : Coherent srv) (cached : srv'.dmap = srv.dmap)
    (fresh : FreshRecords srv.mdb srv'.mdb) : Coherent srv' := by
  intro dirId mapping hit
  obtain ⟨stored, recorded, same⟩ := coherent dirId mapping (cached ▸ hit)
  refine ⟨stored, ?_, same⟩
  rcases fresh (recordKey dirId) (by simp [recordKey]) with kept | ⟨absent, -⟩
  · rw [recordMapping, kept]
    exact recorded
  · rw [recordMapping, absent] at recorded
    cases recorded

theorem Coherent.recached {dirId : ℕ} {mapping : GigaMapping} (coherent : Coherent srv)
    (recached : Recached dirId mapping srv srv') (recorded : recordMapping srv' dirId = some mapping) :
    Coherent srv' := by
  intro d m hit
  rw [recached.dmap] at hit
  by_cases here : d = dirId
  · subst here
    rw [Function.update_self, Option.some.injEq] at hit
    subst hit
    exact ⟨_, recorded, rfl⟩
  · rw [Function.update_of_ne here] at hit
    rw [recordMapping, recached.keys _ (recordKey_ne here)]
    exact coherent d m hit

theorem Coherent.write {dirId : ℕ} {mapping : GigaMapping} {mdb : MetaDB} {ret : ℤ}
    (coherent : Coherent srv) (present : (recordMapping srv dirId).isSome)
    (written : MetadataBackend.updateBitmap gigaHashName srv.mdb dirId mapping = some (mdb, ret)) :
    Coherent { srv with mdb, dmap := Function.update srv.dmap dirId (some mapping) } := by
  refine coherent.recached (recached_of_updateBitmap written) ?_
  obtain ⟨val, stored, -⟩ := Option.bind_eq_some_iff.mp (Option.isSome_iff_exists.mp present).choose_spec
  simp [recordMapping, get_updateBitmap gigaHashName written, stored]

theorem Coherent.updateBitmap {dirId : ℕ} {mapping : GigaMapping} {result : Except Exception Unit}
    (coherent : Coherent srv) (done : updateBitmap gigaHashName srv dirId mapping = some (srv', result)) :
    Coherent srv' := by
  unfold IndexFS.updateBitmap at done
  cases fetched : fetchDir gigaHashName srv dirId with
  | none => simp [fetched] at done
  | some found =>
    cases found with
    | none =>
      simp only [fetched, Option.bind_eq_bind, Option.bind_some, Option.pure_def,
        Option.some.injEq, Prod.mk.injEq] at done
      rw [← done.1]
      exact coherent
    | some current =>
      simp only [fetched, Option.bind_eq_bind, Option.bind_some, Option.bind_eq_some_iff,
        Option.pure_def, Option.some.injEq] at done
      obtain ⟨merged, -, ⟨mdb, ret⟩, written, done⟩ := done
      rw [← (Prod.mk.inj done).1]
      exact coherent.write (coherent.recorded (view_of_fetchDir gigaHashName fetched)) written

theorem Coherent.insertSplit {dirId childIndex : ℕ} {records : List (Σ _ : MetadbKey, MetadbVal)}
    {bitmap : GigaMapping} {loaded : Bool} {now : ℕ} (coherent : Coherent srv)
    (done : insertSplit gigaHashName srv dirId childIndex records bitmap loaded now = some srv')
    (moved : ∀ r ∈ records, 0 ≤ r.1.partitionId) : Coherent srv' := by
  cases loaded
  · cases done
  simp only [IndexFS.insertSplit, metadbBulkinsert, if_true, Option.bind_eq_bind,
    Option.bind_some] at done
  set srv₁ := { srv with mdb := putAll srv.mdb records }
  -- the loaded records sit at partitions `≥ 0`, away from every bitmap record
  have loadedCoherent : Coherent srv₁ := coherent.of_records rfl fun d => by
    rw [recordMapping, recordMapping, get_putAll_of_not_mem]
    intro mem
    obtain ⟨r, inside, same⟩ := List.mem_map.mp mem
    have := moved r inside
    rw [same] at this
    exact absurd this (by simp [recordKey])
  cases fetched : fetchDir gigaHashName srv₁ dirId with
  | none => simp [fetched] at done
  | some found =>
    cases found with
    | none =>
      simp only [fetched, Option.bind_some, Option.bind_eq_some_iff, Option.pure_def,
        Option.some.injEq] at done
      obtain ⟨mapping, -, rfl⟩ := done
      simp only [MetadataBackend.createBitmap, metadbCreateDir, initMetaObjKey_record]
      unfold putIfAbsent
      cases stored : srv₁.mdb.get (recordKey dirId) with
      | some val =>
        -- a record is there after all: `CreateBitmap` fails and nothing changes
        rw [if_neg (show (-1 : ℤ) ≠ 0 by decide)]
        exact loadedCoherent
      | none =>
        rw [if_pos rfl]
        refine loadedCoherent.recached ⟨rfl, rfl, fun key other => ?_⟩ ?_
        · exact (get_put _ _ _ _).trans (if_neg other)
        · simp [recordMapping, initDirVal]
    | some current =>
      simp only [fetched, Option.bind_some, Option.bind_eq_some_iff, Option.pure_def,
        Option.some.injEq] at done
      obtain ⟨mapping, -, ⟨mdb, ret⟩, written, rfl⟩ := done
      exact loadedCoherent.write (loadedCoherent.recorded (view_of_fetchDir gigaHashName fetched))
        written

theorem Coherent.evict (coherent : Coherent srv) (dirId : ℕ) : Coherent (evict srv dirId) := by
  intro d mapping hit
  by_cases here : d = dirId
  · subst here
    simp [IndexFS.evict] at hit
  · simp only [IndexFS.evict, Function.update_of_ne here] at hit
    exact coherent d mapping hit

theorem viewGrows_of_coherent (coherent : Coherent srv) (coherent' : Coherent srv')
    (fresh : FreshRecords srv.mdb srv'.mdb) (dirId : ℕ) :
    ViewGrows gigaHashName {0} srv srv' dirId := by
  suffices grows : recordPartitions srv dirId ⊆ recordPartitions srv' dirId ∧
      recordPartitions srv' dirId ⊆ recordPartitions srv dirId ∪ {0} by
    have before : viewPartitions gigaHashName srv dirId = recordPartitions srv dirId :=
      coherent.viewPartitions_eq dirId
    have after : viewPartitions gigaHashName srv' dirId = recordPartitions srv' dirId :=
      coherent'.viewPartitions_eq dirId
    rw [← before, ← after] at grows
    exact ⟨grows.1, grows.2⟩
  unfold recordPartitions recordMapping
  rcases fresh (recordKey dirId) (by simp [recordKey]) with same | ⟨absent, val, stored, init⟩
  · rw [same]
    exact ⟨subset_rfl, Finset.subset_union_left⟩
  · rw [absent, stored]
    refine ⟨Finset.empty_subset _, ?_⟩
    cases dir : val.dir with
    | none => simp [dir]
    | some m => simp [dir, init m dir]

theorem restartServer_fresh {cwd : Stat} {now : ℕ}
    (done : restartServer gigaHashName srv cwd now = some srv') :
    srv'.srvId = srv.srvId ∧ Coherent srv' ∧ FreshRecords srv.mdb srv'.mdb := by
  unfold restartServer at done
  dsimp only at done
  generalize reopen : (metadbInit (some (srv.mdb.db, none)) srv.srvId cwd).2 = mdb at done
  have reopened : ∀ key, mdb.get key = srv.mdb.get key := by
    rw [← reopen]
    exact fun _ => rfl
  -- the one mapping cached is the root's, and it has the root record's bitmap
  have rootOnly : ∀ (srv'' : MetadataServer) (mapping : GigaMapping),
      srv''.dmap = rootCache mapping → (∃ stored, recordMapping srv'' rootDirId = some stored ∧
        stored.bitmap = mapping.bitmap) → Coherent srv'' := by
    intro srv'' mapping cached recorded d m hit
    rw [cached, rootCache] at hit
    split at hit
    · rename_i root
      subst root
      cases hit
      exact recorded
    · cases hit
  split at done
  · cases done
  · rename_i mapping read
    cases done
    refine ⟨rfl, rootOnly _ mapping rfl ⟨mapping, ?_, rfl⟩, FreshRecords.of_keep fun key _ => reopened key⟩
    simp only [metadbReadBitmap, initMetaObjKey_record] at read
    unfold recordMapping
    cases stored : mdb.get (recordKey rootDirId) with
    | none => rw [stored] at read; cases read
    | some val =>
      rw [stored] at read
      simp only [Option.map_eq_some_iff, Except.ok.injEq] at read
      obtain ⟨m, dir, rfl⟩ := read
      simpa using dir
  · rename_i e read
    -- no root record: it is written as on a fresh database
    simp only [metadbReadBitmap, initMetaObjKey_record] at read
    have absent : mdb.get (recordKey rootDirId) = none := by
      cases stored : mdb.get (recordKey rootDirId) with
      | none => rfl
      | some val =>
        rw [stored] at read
        simp only [Option.map_eq_some_iff] at read
        obtain ⟨m, -, contra⟩ := read
        cases contra
    split at done
    · rename_i ret zero
      cases done
      have made := freshRecords_mkdir gigaHashName mdb rootDirId (-1) [] rootDirId srv.srvId
        srv.srvNum now fun named => (named rfl).elim
      refine ⟨rfl, rootOnly _ _ rfl ⟨gigaInitMapping rootDirId srv.srvId srv.srvNum, ?_, rfl⟩,
        (FreshRecords.of_keep fun key _ => reopened key).trans made⟩
      simp [recordMapping, MetadataBackend.mkdir, metadbCreateDir, get_putIfAbsent, absent,
        initDirVal]
    · cases done

theorem restartServer_grows {cwd : Stat} {now : ℕ} (coherent : Coherent srv)
    (done : restartServer gigaHashName srv cwd now = some srv') (dirId : ℕ) :
    ViewGrows gigaHashName {0} srv srv' dirId :=
  let ⟨_, coherent', fresh⟩ := restartServer_fresh done
  viewGrows_of_coherent coherent coherent' fresh dirId

theorem view_evict_self (srv : MetadataServer) (dirId : ℕ) :
    view gigaHashName (evict srv dirId) dirId = recordMapping srv dirId := by
  rw [view_eq]
  simp only [IndexFS.evict, Function.update_self]
  rfl

theorem view_evict_of_ne (srv : MetadataServer) {dirId d : ℕ} (other : d ≠ dirId) :
    view gigaHashName (evict srv dirId) d = view gigaHashName srv d := by
  rw [view_eq, view_eq]
  simp only [IndexFS.evict, Function.update_of_ne other]

theorem restartServer_of_recorded {mapping : GigaMapping} (cwd : Stat) (now : ℕ)
    (recorded : recordMapping srv rootDirId = some mapping) :
    restartServer gigaHashName srv cwd now =
      some { srv with
        mdb := (metadbInit (some (srv.mdb.db, none)) srv.srvId cwd).2
        dmap := rootCache mapping } := by
  obtain ⟨val, stored, dir⟩ := Option.bind_eq_some_iff.mp recorded
  -- reopening the database keeps every record, so `metadb_read_bitmap` reads this one
  have read : metadbReadBitmap gigaHashName (metadbInit (some (srv.mdb.db, none)) srv.srvId cwd).2
      rootDirId (-1) none = some (.ok mapping) := by
    simp only [metadbReadBitmap, initMetaObjKey_record]
    rw [show (metadbInit (some (srv.mdb.db, none)) srv.srvId cwd).2.get (recordKey rootDirId) =
      some val from stored]
    show val.dir.map Except.ok = _
    rw [show val.dir = some mapping from dir]
    rfl
  unfold restartServer
  dsimp only
  rw [read]

theorem restartServer_recorded {cwd : Stat} {now : ℕ} {mapping : GigaMapping}
    (done : restartServer gigaHashName srv cwd now = some srv')
    (recorded : recordMapping srv rootDirId = some mapping) :
    view gigaHashName srv' rootDirId = some mapping ∧ ∀ key, srv'.mdb.get key = srv.mdb.get key := by
  rw [restartServer_of_recorded cwd now recorded, Option.some.injEq] at done
  subst done
  exact ⟨view_of_dmap gigaHashName (by simp [rootCache]), fun _ => rfl⟩

end Coherent

end IndexFS
