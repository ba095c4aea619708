import IndexFS.Backend.Extract
import IndexFS.Giga.Split
import IndexFS.Server.Ops

/-! What a server knows of a directory's partitions, and the handlers of a split that change it
on the receiving side, `InsertSplit` and `UpdateBitmap`. -/
namespace IndexFS

open Giga Metadb

def recordKey (dirId : ℕ) : MetadbKey := ⟨dirId, -1, fun _ => 0⟩

@[simp] theorem initMetaObjKey_record (gigaHashName : List UInt8 → Hash) (dirId : ℕ) :
    initMetaObjKey gigaHashName dirId (-1) none = recordKey dirId := by
  simp [initMetaObjKey, recordKey]

theorem initMetaObjKey_nonneg (gigaHashName : List UInt8 → Hash) (dirId : ℕ) (index : ℤ)
    (path : Option (List UInt8)) (nonneg : 0 ≤ index) :
    0 ≤ (initMetaObjKey gigaHashName dirId index path).partitionId := by
  simp [if_neg (Int.not_lt.mpr nonneg), nonneg]

/-! ### Stores that keep the bitmap records -/

/-- Every key of a negative partition keeps its value, or gets one where it had none,
holding no mapping or one of partition 0 alone. -/
def FreshRecords (mdb mdb' : MetaDB) : Prop :=
  ∀ key : MetadbKey, key.partitionId < 0 →
    mdb'.get key = mdb.get key ∨
      mdb.get key = none ∧ ∃ val, mdb'.get key = some val ∧
        ∀ m, val.dir = some m → partitions m.bitmap = {0}

theorem FreshRecords.refl (mdb : MetaDB) : FreshRecords mdb mdb := fun _ _ => .inl rfl

theorem FreshRecords.trans {mdb₁ mdb₂ mdb₃ : MetaDB} (first : FreshRecords mdb₁ mdb₂)
    (second : FreshRecords mdb₂ mdb₃) : FreshRecords mdb₁ mdb₃ := by
  intro key neg
  rcases second key neg with same | ⟨absent, val, stored, init⟩
  · rw [same]
    exact first key neg
  · rcases first key neg with same' | ⟨_, _, stored', _⟩
    · exact .inr ⟨same' ▸ absent, val, stored, init⟩
    · rw [absent] at stored'
      cases stored'

theorem FreshRecords.of_keep {mdb mdb' : MetaDB}
    (keep : ∀ key : MetadbKey, key.partitionId < 0 → mdb'.get key = mdb.get key) :
    FreshRecords mdb mdb' := fun key neg => .inl (keep key neg)

theorem freshRecords_put {mdb : MetaDB} {key : MetadbKey} (val : MetadbVal)
    (nonneg : 0 ≤ key.partitionId) : FreshRecords mdb (mdb.put key val) :=
  FreshRecords.of_keep fun key' neg => by
    rw [get_put, if_neg]
    rintro rfl
    omega

theorem freshRecords_delete {mdb : MetaDB} {key : MetadbKey} (nonneg : 0 ≤ key.partitionId) :
    FreshRecords mdb (mdb.delete key) :=
  FreshRecords.of_keep fun key' neg => by
    rw [get_delete, if_neg]
    rintro rfl
    omega

theorem freshRecords_putIfAbsent {mdb : MetaDB} {key : MetadbKey} (val : MetadbVal)
    (nonneg : 0 ≤ key.partitionId) : FreshRecords mdb (putIfAbsent mdb key val).1 := by
  unfold putIfAbsent
  split
  · exact FreshRecords.refl mdb
  · exact freshRecords_put val nonneg

theorem freshRecords_createRecord {mdb : MetaDB} (key : MetadbKey) (val : MetadbVal)
    (init : ∀ m, val.dir = some m → partitions m.bitmap = {0}) :
    FreshRecords mdb (putIfAbsent mdb key val).1 := by
  intro key' _
  unfold putIfAbsent
  split
  · exact .inl rfl
  · rename_i absent
    by_cases same : key' = key
    · subst same
      exact .inr ⟨absent, val, by rw [get_put, if_pos rfl], init⟩
    · exact .inl (by rw [get_put, if_neg same])

theorem freshRecords_updateInternal {mdb mdb' : MetaDB} {key : MetadbKey}
    {f : MetadbVal → Option (ℤ × MetadbVal)} {ret : ℤ} (nonneg : 0 ≤ key.partitionId)
    (updated : metadbUpdateInternal mdb key f = some (mdb', ret)) : FreshRecords mdb mdb' := by
  unfold metadbUpdateInternal at updated
  split at updated
  · cases updated
    exact FreshRecords.refl mdb
  · obtain ⟨⟨ret', val⟩, -, done⟩ := Option.map_eq_some_iff.mp updated
    dsimp only at done
    by_cases pos : 0 ≤ ret'
    · rw [if_pos pos] at done
      rw [← (Prod.mk.inj done).1]
      exact freshRecords_put val nonneg
    · rw [if_neg pos] at done
      rw [← (Prod.mk.inj done).1]
      exact FreshRecords.refl mdb

/-! ### The mapping a server finds -/

section View

variable (gigaHashName : List UInt8 → Hash)

def view (srv : MetadataServer) (dirId : ℕ) : Option GigaMapping :=
  (fetchDir gigaHashName srv dirId).join

def viewPartitions (srv : MetadataServer) (dirId : ℕ) : Finset ℕ :=
  match view gigaHashName srv dirId with
  | some mapping => partitions mapping.bitmap
  | none => ∅

theorem view_eq (srv : MetadataServer) (dirId : ℕ) :
    view gigaHashName srv dirId =
      (srv.dmap dirId).or ((srv.mdb.get (recordKey dirId)).bind MetadbVal.dir) := by
  unfold view fetchDir metadbReadBitmap
  rw [initMetaObjKey_record]
  cases srv.dmap dirId with
  | some mapping => rfl
  | none =>
    cases srv.mdb.get (recordKey dirId) with
    | none => rfl
    | some val =>
      cases dir : val.dir <;> simp [dir]

theorem viewPartitions_of_view {srv : MetadataServer} {dirId : ℕ} {mapping : GigaMapping}
    (found : view gigaHashName srv dirId = some mapping) :
    viewPartitions gigaHashName srv dirId = partitions mapping.bitmap := by
  rw [viewPartitions, found]

theorem viewPartitions_of_none {srv : MetadataServer} {dirId : ℕ}
    (missing : view gigaHashName srv dirId = none) : viewPartitions gigaHashName srv dirId = ∅ := by
  rw [viewPartitions, missing]

theorem view_of_fetchDir {srv : MetadataServer} {dirId : ℕ} {found : Option GigaMapping}
    (fetched : fetchDir gigaHashName srv dirId = some found) : view gigaHashName srv dirId = found := by
  rw [view, fetched, Option.join_some]

theorem fetchDir_of_view {srv : MetadataServer} {dirId : ℕ} {mapping : GigaMapping}
    (found : view gigaHashName srv dirId = some mapping) :
    fetchDir gigaHashName srv dirId = some (some mapping) := by
  unfold view at found
  cases fetched : fetchDir gigaHashName srv dirId with
  | none => rw [fetched] at found; cases found
  | some found' =>
    rw [fetched, Option.join_some] at found
    rw [found]

structure ViewGrows (extra : Finset ℕ) (srv srv' : MetadataServer) (dirId : ℕ) : Prop where
  keep : viewPartitions gigaHashName srv dirId ⊆ viewPartitions gigaHashName srv' dirId
  bound : viewPartitions gigaHashName srv' dirId ⊆ viewPartitions gigaHashName srv dirId ∪ extra

theorem ViewGrows.of_eq {extra : Finset ℕ} {srv srv' : MetadataServer} {dirId : ℕ}
    (same : view gigaHashName srv' dirId = view gigaHashName srv dirId) :
    ViewGrows gigaHashName extra srv srv' dirId where
  keep := by rw [viewPartitions, viewPartitions, same]
  bound := by
    rw [viewPartitions, viewPartitions, same]
    exact Finset.subset_union_left

theorem ViewGrows.trans {extra : Finset ℕ} {srv₁ srv₂ srv₃ : MetadataServer} {dirId : ℕ}
    (first : ViewGrows gigaHashName extra srv₁ srv₂ dirId)
    (second : ViewGrows gigaHashName extra srv₂ srv₃ dirId) :
    ViewGrows gigaHashName extra srv₁ srv₃ dirId where
  keep := first.keep.trans second.keep
  bound := by
    intro i mem
    rcases Finset.mem_union.mp (second.bound mem) with old | new
    · exact first.bound old
    · exact Finset.mem_union_right _ new

theorem ViewGrows.mono {extra extra' : Finset ℕ} {srv srv' : MetadataServer} {dirId : ℕ}
    (grows : ViewGrows gigaHashName extra srv srv' dirId) (le : extra ⊆ extra') :
    ViewGrows gigaHashName extra' srv srv' dirId where
  keep := grows.keep
  bound := grows.bound.trans (Finset.union_subset_union (le_refl _) le)

theorem viewGrows_of_freshRecords {srv srv' : MetadataServer} (cached : srv'.dmap = srv.dmap)
    (fresh : FreshRecords srv.mdb srv'.mdb) (dirId : ℕ) :
    ViewGrows gigaHashName {0} srv srv' dirId := by
  rcases fresh (recordKey dirId) (by simp [recordKey]) with same | ⟨absent, val, stored, init⟩
  · exact ViewGrows.of_eq gigaHashName (by rw [view_eq, view_eq, cached, same])
  · cases hit : srv.dmap dirId with
    | some mapping =>
      exact ViewGrows.of_eq gigaHashName (by rw [view_eq, view_eq, cached, hit]; rfl)
    | none =>
      have before : view gigaHashName srv dirId = none := by
        rw [view_eq, hit, absent]
        rfl
      refine ⟨by rw [viewPartitions_of_none gigaHashName before]; exact Finset.empty_subset _, ?_⟩
      rw [viewPartitions_of_none gigaHashName before, Finset.empty_union, viewPartitions,
        view_eq, cached, hit, stored]
      cases dir : val.dir with
      | none => simp [dir]
      | some m => simp [dir, init m dir]

end View

/-! ### The namespace handlers keep every known mapping -/

section Requests

variable (gigaHashName : List UInt8 → Hash)

theorem addressed_cases {α : Type} {srv srv' : MetadataServer} {dirId : ℕ}
    {objname : List UInt8} {k : GigaMapping → ℤ → Option (Reply α)}
    {result : Except Exception α}
    (done : addressed gigaHashName srv dirId objname k = some (srv', result)) :
    srv' = srv ∨ ∃ mapping index, fetchDir gigaHashName srv dirId = some (some mapping) ∧
      checkAddressing gigaHashName srv mapping objname = some index ∧ 0 ≤ index ∧
      k mapping index = some (srv', result) := by
  unfold addressed at done
  cases fetched : fetchDir gigaHashName srv dirId with
  | none => simp [fetched] at done
  | some found =>
    cases found with
    | none =>
      simp only [fetched, Option.bind_eq_bind, Option.bind_some, Option.pure_def,
        Option.some.injEq, Prod.mk.injEq] at done
      exact .inl done.1.symm
    | some mapping =>
      cases accepted : checkAddressing gigaHashName srv mapping objname with
      | none => simp [fetched, accepted] at done
      | some index =>
        simp only [fetched, accepted, Option.bind_eq_bind, Option.bind_some] at done
        split at done
        · simp only [Option.pure_def, Option.some.injEq, Prod.mk.injEq] at done
          exact .inl done.1.symm
        · rename_i pos
          exact .inr ⟨mapping, index, rfl, accepted, Int.not_lt.mp pos, done⟩

theorem server_of_ite {α : Type} {c : Prop} [Decidable c] {srv srv' : MetadataServer}
    {a b result : Except Exception α}
    (done : (if c then pure (srv, a) else pure (srv, b) : Option (Reply α)) =
      some (srv', result)) : srv' = srv := by
  by_cases hc : c
  · rw [if_pos hc] at done
    cases done
    rfl
  · rw [if_neg hc] at done
    cases done
    rfl

theorem freshRecords_mkdir (mdb : MetaDB) (dirId : ℕ) (index : ℤ) (objname : List UInt8)
    (objectId serverId numServers now : ℕ) (nonneg : objname.length ≠ 0 → 0 ≤ index) :
    FreshRecords mdb
      (MetadataBackend.mkdir gigaHashName mdb dirId index objname objectId serverId numServers
        now).1 := by
  unfold MetadataBackend.mkdir metadbCreateDir
  split
  · refine freshRecords_createRecord _ _ fun m dir => ?_
    simp only [initDirVal, Option.some.injEq] at dir
    rw [← dir]
    exact partitions_initialBitmap
  · rename_i named
    exact freshRecords_putIfAbsent _ (initMetaObjKey_nonneg _ _ _ _ (nonneg named))

theorem createZeroth_dmap (srv : MetadataServer) (dirId now : ℕ) :
    (createZeroth gigaHashName srv dirId now).1.dmap = srv.dmap := by
  unfold createZeroth
  split
  split <;> rfl

theorem freshRecords_createZeroth (srv : MetadataServer) (dirId now : ℕ) :
    FreshRecords srv.mdb (createZeroth gigaHashName srv dirId now).1.mdb := by
  have made := freshRecords_mkdir gigaHashName srv.mdb dirId (-1) [] dirId srv.srvId srv.srvNum
    now fun named => (named rfl).elim
  unfold createZeroth
  split
  rename_i written
  rw [written] at made
  split <;> exact made

theorem freshRecords_mknod {srv srv' : MetadataServer} {dirId : ℕ} {objname : List UInt8}
    {now : ℕ} {result : Except Exception Unit}
    (done : mknod gigaHashName srv dirId objname now = some (srv', result)) :
    srv'.dmap = srv.dmap ∧ FreshRecords srv.mdb srv'.mdb := by
  rcases addressed_cases gigaHashName done with rfl | ⟨mapping, index, -, -, nonneg, body⟩
  · exact ⟨rfl, FreshRecords.refl _⟩
  · have fresh := @freshRecords_putIfAbsent srv.mdb _
      (initMetaVal srv.mdb.initStatbuf none (strlen objname) objname (strlen []) [] 0 [] now)
      (initMetaObjKey_nonneg gigaHashName dirId index (some objname) nonneg)
    simp only [metadbCreate] at body
    rw [server_of_ite body]
    exact ⟨rfl, fresh⟩

theorem freshRecords_createEntry {srv srv' : MetadataServer} {dirId : ℕ}
    {objname : List UInt8} {info : StatInfo} {link data : List UInt8} {stack : Stat}
    {now : ℕ} {ret : ℤ} {result : Except Exception Unit}
    (done : createEntry gigaHashName srv dirId objname info link data stack now ret =
      some (srv', result)) :
    srv'.dmap = srv.dmap ∧ FreshRecords srv.mdb srv'.mdb := by
  rcases addressed_cases gigaHashName done with rfl | ⟨mapping, index, -, -, nonneg, body⟩
  · exact ⟨rfl, FreshRecords.refl _⟩
  · simp only [MetadataBackend.createEntry, metadbCreateEntry] at body
    rw [server_of_ite body]
    exact ⟨rfl, freshRecords_putIfAbsent _
      (initMetaObjKey_nonneg gigaHashName dirId index (some objname) nonneg)⟩

theorem freshRecords_remove {srv srv' : MetadataServer} {dirId : ℕ} {objname : List UInt8}
    {result : Except Exception Unit}
    (done : remove gigaHashName srv dirId objname = some (srv', result)) :
    srv'.dmap = srv.dmap ∧ FreshRecords srv.mdb srv'.mdb := by
  rcases addressed_cases gigaHashName done with rfl | ⟨mapping, index, -, -, nonneg, body⟩
  · exact ⟨rfl, FreshRecords.refl _⟩
  · have fresh := @freshRecords_delete srv.mdb _
      (initMetaObjKey_nonneg gigaHashName dirId index (some objname) nonneg)
    simp only [metadbRemove] at body
    split at body
    · cases body
      exact ⟨rfl, FreshRecords.refl _⟩
    · rw [server_of_ite body]
      exact ⟨rfl, fresh⟩

theorem freshRecords_chmod {srv srv' : MetadataServer} {dirId : ℕ} {objname : List UInt8}
    {permission : UInt32} {result : Except Exception Unit}
    (done : chmod gigaHashName srv dirId objname permission = some (srv', result)) :
    srv'.dmap = srv.dmap ∧ FreshRecords srv.mdb srv'.mdb := by
  rcases addressed_cases gigaHashName done with rfl | ⟨mapping, index, -, -, nonneg, body⟩
  · exact ⟨rfl, FreshRecords.refl _⟩
  · split at body
    · cases body
      exact ⟨rfl, FreshRecords.refl _⟩
    · simp only [Option.bind_eq_bind, Option.bind_eq_some_iff] at body
      obtain ⟨⟨mdb, ret⟩, updated, body⟩ := body
      have fresh := freshRecords_updateInternal
        (initMetaObjKey_nonneg gigaHashName dirId index (some objname) nonneg) updated
      rw [server_of_ite body]
      exact ⟨rfl, fresh⟩

theorem freshRecords_mkdir_handler {srv srv' : MetadataServer} {dirId : ℕ}
    {objname : List UInt8} {hintServer now : ℕ} {zerothRemote : Bool}
    {result : Except Exception Unit}
    (done : mkdir gigaHashName srv dirId objname hintServer now zerothRemote =
      some (srv', result)) :
    srv'.dmap = srv.dmap ∧ FreshRecords srv.mdb srv'.mdb := by
  rcases addressed_cases gigaHashName done with rfl | ⟨mapping, index, -, -, nonneg, body⟩
  · exact ⟨rfl, FreshRecords.refl _⟩
  · -- the inode count moves first and no record with it
    have counted : FreshRecords srv.mdb (MetadataBackend.newInodeNumber srv.mdb).1 :=
      FreshRecords.of_keep fun _ _ => by
        simp only [MetaDB.get, MetadataBackend.db_newInodeNumber]
    have made := counted.trans (freshRecords_mkdir gigaHashName (MetadataBackend.newInodeNumber srv.mdb).1
      dirId index objname (MetadataBackend.newInodeNumber srv.mdb).2 hintServer srv.srvNum now
      fun _ => nonneg)
    simp only [Option.pure_def] at body
    split at body
    · cases body
      exact ⟨rfl, made⟩
    · split at body
      · -- the zeroth server is this one: `CreateZeroth` runs in place
        have same : _ = srv' := congrArg Prod.fst (Option.some.inj body)
        rw [← same]
        exact ⟨createZeroth_dmap gigaHashName _ _ _,
          made.trans (freshRecords_createZeroth gigaHashName _ _ _)⟩
      · split at body <;> cases body <;> exact ⟨rfl, made⟩

end Requests

/-! ### The receiving side of a split -/

section Handlers

variable (gigaHashName : List UInt8 → Hash)

namespace MetadataBackend

def createBitmap (mdb : MetaDB) (dirId : ℕ) (mapping : GigaMapping) (serverId now : ℕ) :
    MetaDB × ℤ :=
  metadbCreateDir gigaHashName mdb dirId (-1) none dirId serverId (some mapping) now

def updateBitmap (mdb : MetaDB) (dirId : ℕ) (mapping : GigaMapping) : Option (MetaDB × ℤ) :=
  metadbWriteBitmap gigaHashName mdb dirId (-1) none mapping

end MetadataBackend

/-- `MetadataServer::UpdateBitmap`: merge the mapping into the one the server has. -/
def updateBitmap (srv : MetadataServer) (dirId : ℕ) (mapping : GigaMapping) :
    Option (Reply Unit) := do
  match ← fetchDir gigaHashName srv dirId with
  | none => pure (srv, .error .fileNotFoundException)
  | some current =>
    let current ← gigaUpdateCache current mapping
    let (mdb, _) ← MetadataBackend.updateBitmap gigaHashName srv.mdb dirId current
    pure ({ srv with mdb, dmap := Function.update srv.dmap dirId (some current) }, .ok ())

/-- `MetadataServer::InsertSplit`, given the records of the split's SSTables and whether
`leveldb_bulkinsert` loaded them. The partition size it adds to is not modelled. -/
def insertSplit (srv : MetadataServer) (dirId childIndex : ℕ)
    (records : List (Σ _ : MetadbKey, MetadbVal)) (bitmap : GigaMapping) (loaded : Bool)
    (now : ℕ) : Option MetadataServer := do
  let (mdb, _) ← metadbBulkinsert srv.mdb records loaded
  let srv := { srv with mdb }
  match ← fetchDir gigaHashName srv dirId with
  | none =>
    let mapping ← gigaUpdateMapping bitmap childIndex
    let (mdb, ret) := MetadataBackend.createBitmap gigaHashName srv.mdb dirId mapping srv.srvId now
    pure { srv with mdb, dmap := if ret = 0 then Function.update srv.dmap dirId (some mapping)
                                 else srv.dmap }
  | some mapping =>
    let mapping ← gigaUpdateMapping mapping childIndex
    let (mdb, _) ← MetadataBackend.updateBitmap gigaHashName srv.mdb dirId mapping
    pure { srv with mdb, dmap := Function.update srv.dmap dirId (some mapping) }

theorem get_updateBitmap {mdb mdb' : MetaDB} {dirId : ℕ} {mapping : GigaMapping} {ret : ℤ}
    (written : MetadataBackend.updateBitmap gigaHashName mdb dirId mapping = some (mdb', ret))
    (key : MetadbKey) :
    mdb'.get key = if key = recordKey dirId then (mdb.get key).map fun val => { val with dir := some mapping }
      else mdb.get key := by
  simp only [MetadataBackend.updateBitmap, metadbWriteBitmap, initMetaObjKey_record,
    Option.map_eq_some_iff, Prod.exists] at written
  obtain ⟨mdb'', ret', updated, rfl, -⟩ := written
  unfold metadbUpdateInternal at updated
  split at updated
  · rename_i absent
    cases updated
    split
    · rename_i same
      rw [same, absent]
      rfl
    · rfl
  · rename_i val stored
    simp only [Option.map_some, Option.some.injEq, Prod.mk.injEq, le_refl, if_true] at updated
    obtain ⟨rfl, -⟩ := updated
    rw [get_put]
    split
    · rename_i same
      rw [same, stored]
      rfl
    · rfl

theorem recordKey_ne {d d' : ℕ} (other : d ≠ d') : recordKey d ≠ recordKey d' := by
  intro same
  exact other (congrArg MetadbKey.parentId same)

theorem viewGrows_of_cache_update {srv srv' : MetadataServer} {dirId : ℕ}
    {mapping : GigaMapping} {extra : Finset ℕ}
    (cached : srv'.dmap = Function.update srv.dmap dirId (some mapping))
    (records : ∀ d, d ≠ dirId → srv'.mdb.get (recordKey d) = srv.mdb.get (recordKey d))
    (keep : viewPartitions gigaHashName srv dirId ⊆ partitions mapping.bitmap)
    (bound : partitions mapping.bitmap ⊆ viewPartitions gigaHashName srv dirId ∪ extra)
    (d : ℕ) : ViewGrows gigaHashName (if d = dirId then extra else ∅) srv srv' d := by
  by_cases here : d = dirId
  · subst here
    have after : viewPartitions gigaHashName srv' d = partitions mapping.bitmap := by
      rw [viewPartitions, view_eq, cached, Function.update_self]
      rfl
    rw [if_pos rfl]
    exact ⟨after ▸ keep, after ▸ bound⟩
  · refine ViewGrows.of_eq gigaHashName ?_
    rw [view_eq, view_eq, cached, Function.update_of_ne here, records d here]

theorem updateBitmap_grows {srv srv' : MetadataServer} {dirId : ℕ} {mapping : GigaMapping}
    {result : Except Exception Unit}
    (done : updateBitmap gigaHashName srv dirId mapping = some (srv', result)) (d : ℕ) :
    ViewGrows gigaHashName (if d = dirId then partitions mapping.bitmap else ∅) srv srv' d := by
  unfold updateBitmap at done
  cases fetched : fetchDir gigaHashName srv dirId with
  | none => simp [fetched] at done
  | some found =>
    cases found with
    | none =>
      simp only [fetched, Option.bind_eq_bind, Option.bind_some, Option.pure_def,
        Option.some.injEq, Prod.mk.injEq] at done
      rw [← done.1]
      exact ViewGrows.of_eq gigaHashName rfl
    | some current =>
      simp only [fetched, Option.bind_eq_bind, Option.bind_some, Option.bind_eq_some_iff,
        Option.pure_def, Option.some.injEq] at done
      obtain ⟨merged, cache, ⟨mdb, ret⟩, written, done⟩ := done
      rw [← (Prod.mk.inj done).1]
      have before : viewPartitions gigaHashName srv dirId = partitions current.bitmap :=
        viewPartitions_of_view gigaHashName (view_of_fetchDir gigaHashName fetched)
      refine viewGrows_of_cache_update gigaHashName rfl (fun d' other =>
        (get_updateBitmap gigaHashName written _).trans (if_neg (recordKey_ne other))) ?_ ?_ d
      · rw [before, partitions_gigaUpdateCache cache]
        exact Finset.subset_union_left
      · rw [before, partitions_gigaUpdateCache cache]

theorem view_putAll (srv : MetadataServer) (records : List (Σ _ : MetadbKey, MetadbVal))
    (moved : ∀ r ∈ records, 0 ≤ r.1.partitionId) :
    view gigaHashName { srv with mdb := putAll srv.mdb records } = view gigaHashName srv := by
  funext d
  rw [view_eq, view_eq, get_putAll_of_not_mem]
  intro mem
  obtain ⟨r, mem, same⟩ := List.mem_map.mp mem
  have := moved r mem
  rw [same] at this
  exact absurd this (by simp [recordKey])

theorem insertSplit_grows {srv srv' : MetadataServer} {dirId childIndex : ℕ}
    {records : List (Σ _ : MetadbKey, MetadbVal)} {bitmap : GigaMapping} {loaded : Bool}
    {now : ℕ} (done : insertSplit gigaHashName srv dirId childIndex records bitmap loaded now =
      some srv') (fits : childIndex < capacity) (moved : ∀ r ∈ records, 0 ≤ r.1.partitionId)
    (d : ℕ) :
    ViewGrows gigaHashName
      (if d = dirId then insert childIndex (partitions bitmap.bitmap) else ∅) srv srv' d := by
  -- a failed bulk insert aborts; one that loads writes partition `childIndex` only, which
  -- no view reads
  cases loaded
  · cases done
  simp only [insertSplit, metadbBulkinsert, if_true, Option.bind_eq_bind, Option.bind_some] at done
  set srv₁ := { srv with mdb := putAll srv.mdb records }
  refine @ViewGrows.trans gigaHashName _ _ srv₁ _ _ (ViewGrows.of_eq gigaHashName
    (congrFun (view_putAll gigaHashName srv records moved) d)) ?_
  cases fetched : fetchDir gigaHashName srv₁ dirId with
  | none => simp [fetched] at done
  | some found =>
    cases found with
    | none =>
      simp only [fetched, Option.bind_some, Option.bind_eq_some_iff, Option.pure_def,
        Option.some.injEq] at done
      obtain ⟨mapping, update, rfl⟩ := done
      have before : viewPartitions gigaHashName srv₁ dirId = ∅ :=
        viewPartitions_of_none gigaHashName (view_of_fetchDir gigaHashName fetched)
      have created : MetadataBackend.createBitmap gigaHashName srv₁.mdb dirId mapping srv₁.srvId
          now = putIfAbsent srv₁.mdb (recordKey dirId)
            (initDirVal srv₁.mdb.initStatbuf dirId 0 [] srv₁.srvId (some mapping) now) := by
        simp [MetadataBackend.createBitmap, metadbCreateDir]
      rw [created]
      unfold putIfAbsent
      cases stored : srv₁.mdb.get (recordKey dirId) with
      | some val =>
        -- a record is there after all: `CreateBitmap` fails and nothing changes
        dsimp only
        rw [if_neg (show (-1 : ℤ) ≠ 0 by decide)]
        exact ViewGrows.of_eq gigaHashName rfl
      | none =>
        dsimp only
        rw [if_pos (show (0 : ℤ) = 0 from rfl)]
        refine viewGrows_of_cache_update gigaHashName rfl (fun d' other => by
          rw [get_put, if_neg (recordKey_ne other)]) ?_ ?_ d
        · rw [before]
          exact Finset.empty_subset _
        · rw [before, Finset.empty_union, partitions_gigaUpdateMapping fits update]
    | some current =>
      simp only [fetched, Option.bind_some, Option.bind_eq_some_iff, Option.pure_def,
        Option.some.injEq] at done
      obtain ⟨mapping, update, ⟨mdb, ret⟩, written, rfl⟩ := done
      have before : viewPartitions gigaHashName srv₁ dirId = partitions current.bitmap :=
        viewPartitions_of_view gigaHashName (view_of_fetchDir gigaHashName fetched)
      refine viewGrows_of_cache_update gigaHashName rfl (fun d' other =>
        (get_updateBitmap gigaHashName written _).trans (if_neg (recordKey_ne other))) ?_ ?_ d
      · rw [before, partitions_gigaUpdateMapping fits update]
        exact Finset.subset_insert _ _
      · rw [before, partitions_gigaUpdateMapping fits update]
        exact Finset.insert_subset_iff.mpr ⟨Finset.mem_union_right _ (Finset.mem_insert_self _ _),
          Finset.subset_union_left⟩

end Handlers

end IndexFS
