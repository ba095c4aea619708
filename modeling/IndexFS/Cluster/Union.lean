import IndexFS.Cluster.FailedSplit
import IndexFS.Cluster.Frame

/-! The union `G(d)` of the servers' mappings of a directory. A step only adds partition 0 of a
new directory or the child of a split under a partition its server held, so `G(d)` stays
tree-closed. -/
namespace IndexFS

open Giga Metadb PrefixTree Transition

/-! ### The union of the servers' mappings -/

section Union

variable (gigaHashName : List UInt8 → Hash)

def viewBitmap (srv : MetadataServer) (dirId : ℕ) : Bitmap :=
  match view gigaHashName srv dirId with
  | some mapping => mapping.bitmap
  | none => fun _ => 0

def unionBitmap (servers : ℕ → MetadataServer) (dirId : ℕ) : ℕ → Bitmap
  | 0 => fun _ => 0
  | n + 1 => fun k => unionBitmap servers dirId n k ||| viewBitmap gigaHashName (servers n) dirId k

theorem partitions_zero : partitions (fun _ => 0) = ∅ := by
  ext n
  simp [getBitStatus_eq, byteAt]

theorem partitions_viewBitmap (srv : MetadataServer) (dirId : ℕ) :
    partitions (viewBitmap gigaHashName srv dirId) = viewPartitions gigaHashName srv dirId := by
  unfold viewBitmap viewPartitions
  cases view gigaHashName srv dirId with
  | some mapping => rfl
  | none => exact partitions_zero

theorem partitions_unionBitmap (c : Cluster) (dirId : ℕ) :
    partitions (unionBitmap gigaHashName c.servers dirId c.size) =
      knownPartitions gigaHashName c dirId := by
  unfold knownPartitions
  induction c.size with
  | zero => exact partitions_zero
  | succ n ih =>
    rw [unionBitmap, partitions_or, ih, partitions_viewBitmap, Finset.range_add_one,
      Finset.biUnion_insert, Finset.union_comm]

/-- Every server's view of `dirId` grows, by partitions of `extra` only. -/
structure Grows (extra : Finset ℕ) (c c' : Cluster) (dirId : ℕ) : Prop where
  size : c'.size = c.size
  server : ∀ s, ViewGrows gigaHashName extra (c.servers s) (c'.servers s) dirId

theorem Grows.refl (extra : Finset ℕ) (c : Cluster) (dirId : ℕ) :
    Grows gigaHashName extra c c dirId :=
  ⟨rfl, fun _ => ViewGrows.of_eq gigaHashName rfl⟩

theorem Grows.trans {extra : Finset ℕ} {c₁ c₂ c₃ : Cluster} {dirId : ℕ}
    (first : Grows gigaHashName extra c₁ c₂ dirId) (second : Grows gigaHashName extra c₂ c₃ dirId) :
    Grows gigaHashName extra c₁ c₃ dirId :=
  ⟨second.size.trans first.size, fun s => (first.server s).trans gigaHashName (second.server s)⟩

theorem Grows.mono {extra extra' : Finset ℕ} {c c' : Cluster} {dirId : ℕ}
    (grows : Grows gigaHashName extra c c' dirId) (le : extra ⊆ extra') :
    Grows gigaHashName extra' c c' dirId :=
  ⟨grows.size, fun s => (grows.server s).mono gigaHashName le⟩

theorem grows_stop (extra : Finset ℕ) (c : Cluster) (s dirId : ℕ) :
    Grows gigaHashName extra c (c.stop s) dirId :=
  ⟨Cluster.stop_size c s, fun _ => ViewGrows.of_eq gigaHashName rfl⟩

theorem Grows.restart {extra : Finset ℕ} {c c' : Cluster} {dirId : ℕ}
    (grows : Grows gigaHashName extra c c' dirId) (stopped : Finset ℕ) :
    Grows gigaHashName extra c { c' with stopped } dirId :=
  ⟨grows.size, grows.server⟩

theorem grows_set {extra : Finset ℕ} {c : Cluster} {t : ℕ} {srv : MetadataServer} {dirId : ℕ}
    (grows : ViewGrows gigaHashName extra (c.servers t) srv dirId) :
    Grows gigaHashName extra c (c.set t srv) dirId := by
  refine ⟨rfl, fun s => ?_⟩
  by_cases here : s = t
  · subst here
    rw [Cluster.set_self]
    exact grows
  · rw [Cluster.set_of_ne c srv here]
    exact ViewGrows.of_eq gigaHashName rfl

theorem Grows.known_subset {extra : Finset ℕ} {c c' : Cluster} {dirId : ℕ}
    (grows : Grows gigaHashName extra c c' dirId) :
    knownPartitions gigaHashName c dirId ⊆ knownPartitions gigaHashName c' dirId := by
  intro i mem
  obtain ⟨s, inside, mem⟩ := (mem_knownPartitions gigaHashName c dirId i).mp mem
  exact (mem_knownPartitions gigaHashName c' dirId i).mpr
    ⟨s, grows.size ▸ inside, (grows.server s).keep mem⟩

theorem Grows.known_bound {extra : Finset ℕ} {c c' : Cluster} {dirId : ℕ}
    (grows : Grows gigaHashName extra c c' dirId) :
    knownPartitions gigaHashName c' dirId ⊆ knownPartitions gigaHashName c dirId ∪ extra := by
  intro i mem
  obtain ⟨s, inside, mem⟩ := (mem_knownPartitions gigaHashName c' dirId i).mp mem
  rcases Finset.mem_union.mp ((grows.server s).bound mem) with old | new
  · exact Finset.mem_union_left _
      (viewPartitions_subset_known gigaHashName (grows.size ▸ inside) dirId old)
  · exact Finset.mem_union_right _ new

end Union


/-! ### What one step does to the views -/

section Steps

variable (gigaHashName : List UInt8 → Hash)

theorem serve_fresh {srv srv' : MetadataServer} {req : Request}
    (served : serve gigaHashName srv req = some srv') :
    srv'.dmap = srv.dmap ∧ FreshRecords srv.mdb srv'.mdb := by
  cases req with
  | mknod d objname now =>
    obtain ⟨⟨srv'', result⟩, done, rfl⟩ := Option.map_eq_some_iff.mp served
    exact freshRecords_mknod gigaHashName done
  | mkdir d objname hintServer now zerothRemote =>
    obtain ⟨⟨srv'', result⟩, done, rfl⟩ := Option.map_eq_some_iff.mp served
    exact freshRecords_mkdir_handler gigaHashName done
  | createZeroth d now =>
    cases served
    exact ⟨createZeroth_dmap gigaHashName srv d now, freshRecords_createZeroth gigaHashName srv d now⟩
  | createEntry d objname info link data stack now ret =>
    obtain ⟨⟨srv'', result⟩, done, rfl⟩ := Option.map_eq_some_iff.mp served
    exact freshRecords_createEntry gigaHashName done
  | remove d objname =>
    obtain ⟨⟨srv'', result⟩, done, rfl⟩ := Option.map_eq_some_iff.mp served
    exact freshRecords_remove gigaHashName done
  | chmod d objname permission =>
    obtain ⟨⟨srv'', result⟩, done, rfl⟩ := Option.map_eq_some_iff.mp served
    exact freshRecords_chmod gigaHashName done

theorem serve_grows {srv srv' : MetadataServer} {req : Request}
    (served : serve gigaHashName srv req = some srv') (dirId : ℕ) :
    ViewGrows gigaHashName {0} srv srv' dirId :=
  let ⟨cached, fresh⟩ := serve_fresh gigaHashName served
  viewGrows_of_freshRecords gigaHashName cached fresh dirId

theorem view_of_freshRecords {srv srv' : MetadataServer} (cached : srv'.dmap = srv.dmap)
    (fresh : FreshRecords srv.mdb srv'.mdb) {dirId : ℕ} {mapping : GigaMapping}
    (found : view gigaHashName srv dirId = some mapping) :
    view gigaHashName srv' dirId = some mapping := by
  rw [view_eq] at found ⊢
  rw [cached]
  rcases fresh (recordKey dirId) (by simp [recordKey]) with same | ⟨absent, -⟩
  · rw [same]
    exact found
  · cases hit : srv.dmap dirId with
    | some m =>
      rw [hit] at found
      exact found
    | none =>
      rw [hit, absent] at found
      cases found

theorem view_of_records {srv : MetadataServer} {mdb : MetaDB}
    (keep : ∀ key : MetadbKey, key.partitionId < 0 → mdb.get key = srv.mdb.get key) :
    view gigaHashName { srv with mdb := mdb } = view gigaHashName srv := by
  funext d
  rw [view_eq, view_eq, keep (recordKey d) (by simp [recordKey])]

theorem insertSplitRemote_grows {c c' : Cluster} {childServer dirId childIndex : ℕ}
    {records : List (Σ _ : MetadbKey, MetadbVal)} {bitmap : GigaMapping} {run : InsertSplitRun}
    {now : ℕ}
    (done : insertSplitRemote gigaHashName c childServer dirId childIndex records bitmap run now =
      some c') (fits : childIndex < capacity) (moved : ∀ r ∈ records, 0 ≤ r.1.partitionId)
    (d : ℕ) :
    Grows gigaHashName (if d = dirId then insert childIndex (partitions bitmap.bitmap) else ∅)
      c c' d := by
  rcases insertSplitRemote_cases gigaHashName done with
    ⟨-, rfl⟩ | ⟨-, -, rfl⟩ | ⟨-, -, srv, inserted, rfl⟩
  · exact Grows.refl gigaHashName _ _ _
  · exact grows_stop gigaHashName _ _ _ _
  · exact grows_set gigaHashName (insertSplit_grows gigaHashName inserted fits moved d)

theorem updateBitmapRemote_grows {c c' : Cluster} {zerothServer dirId : ℕ}
    {mapping : GigaMapping} {reached : Bool}
    (done : updateBitmapRemote gigaHashName c zerothServer dirId mapping reached = some c')
    (d : ℕ) :
    Grows gigaHashName (if d = dirId then partitions mapping.bitmap else ∅) c c' d := by
  rcases updateBitmapRemote_cases gigaHashName done with
    ⟨-, rfl⟩ | ⟨-, -, -, rfl⟩ | ⟨-, -, srv, result, updated, rfl⟩
  · exact Grows.refl gigaHashName _ _ _
  · exact grows_stop gigaHashName _ _ _ _
  · exact grows_set gigaHashName (updateBitmap_grows gigaHashName updated d)

theorem recordChild_grows {srv srv' : MetadataServer} {dirId child : ℕ}
    {mapping mapping' : GigaMapping}
    (done : recordChild gigaHashName srv dirId mapping child = some (srv', mapping'))
    (fits : child < capacity)
    (below : viewPartitions gigaHashName srv dirId ⊆ insert child (partitions mapping.bitmap))
    (d : ℕ) :
    partitions mapping'.bitmap = insert child (partitions mapping.bitmap) ∧
      ViewGrows gigaHashName (if d = dirId then insert child (partitions mapping.bitmap) else ∅)
        srv srv' d := by
  simp only [recordChild, Option.bind_eq_bind, Option.bind_eq_some_iff, Option.pure_def,
    Option.some.injEq] at done
  obtain ⟨updated, update, ⟨mdb, ret⟩, written, done⟩ := done
  obtain ⟨rfl, rfl⟩ := Prod.mk.inj done
  have added := partitions_gigaUpdateMapping fits update
  refine ⟨added, viewGrows_of_cache_update gigaHashName rfl (fun d' other =>
    (get_updateBitmap gigaHashName written _).trans (if_neg (recordKey_ne other))) ?_ ?_ d⟩
  · rw [added]
    exact below
  · rw [added]
    exact Finset.subset_union_right

theorem recordChild_updateBitmapRemote_grows {c c₂ c' : Cluster} {s dirId child : ℕ}
    {mapping : GigaMapping} {zerothReached : Bool} (fits : child < capacity)
    (known : viewPartitions gigaHashName (c.servers s) dirId = partitions mapping.bitmap)
    (first : ∀ d, Grows gigaHashName (if d = dirId then
      insert child (partitions mapping.bitmap) else ∅) c c₂ d)
    (done : ((recordChild gigaHashName (c₂.servers s) dirId mapping child).bind
      fun recorded => updateBitmapRemote gigaHashName (c₂.set s recorded.1)
        recorded.2.zerothServer dirId recorded.2 zerothReached) = some c') (d : ℕ) :
    Grows gigaHashName (if d = dirId then insert child (partitions mapping.bitmap) else ∅)
      c c' d := by
  obtain ⟨⟨srv, mapping'⟩, recorded, done⟩ := Option.bind_eq_some_iff.mp done
  -- the parent's view before it records the child lies within the mapping and the child
  have below : viewPartitions gigaHashName (c₂.servers s) dirId ⊆
      insert child (partitions mapping.bitmap) := by
    have bound := ((first dirId).server s).bound
    rw [if_pos rfl, known, Finset.union_eq_right.mpr (Finset.subset_insert _ _)] at bound
    exact bound
  obtain ⟨added, own⟩ := recordChild_grows gigaHashName recorded fits below d
  refine ((first d).trans gigaHashName (grows_set gigaHashName own)).trans gigaHashName ?_
  have last := updateBitmapRemote_grows gigaHashName done d
  rwa [added] at last

theorem split_grows {c c' : Cluster} {s dirId parent deleted : ℕ} {run : InsertSplitRun}
    {zerothReached : Bool} {now : ℕ}
    (done : split gigaHashName c s dirId parent deleted run zerothReached now = some c') :
    ∃ child, (∃ mapping, view gigaHashName (c.servers s) dirId = some mapping ∧
        gigaIndexForSplitting mapping parent = some child) ∧
      parent ∈ viewPartitions gigaHashName (c.servers s) dirId ∧
      PrefixTree.parent child = parent ∧
      ∀ d, Grows gigaHashName (if d = dirId then
        insert child (viewPartitions gigaHashName (c.servers s) dirId) else ∅) c c' d := by
  unfold split at done
  cases fetched : fetchDir gigaHashName (c.servers s) dirId with
  | none => simp [fetched] at done
  | some found =>
    cases found with
    | none => simp [fetched] at done
    | some mapping =>
      simp only [fetched, Option.bind_eq_bind, Option.bind_some] at done
      obtain ⟨child, found, done⟩ := Option.bind_eq_some_iff.mp done
      obtain ⟨set, j, below, small, rfl, -⟩ := gigaIndexForSplitting_spec mapping parent _ found
      have fits : parent + 2 ^ j < capacity := by
        have : 2 ^ j ≤ 2 ^ 7 := Nat.pow_le_pow_right (by decide) (by rw [maxRadix] at small; omega)
        rw [capacity_eq]
        omega
      have known : viewPartitions gigaHashName (c.servers s) dirId = partitions mapping.bitmap :=
        viewPartitions_of_view gigaHashName (view_of_fetchDir gigaHashName fetched)
      refine ⟨parent + 2 ^ j, ⟨mapping, view_of_fetchDir gigaHashName fetched, found⟩,
        known ▸ (mem_partitions _ _).mpr set,
        parent_add_pow_of_lt parent j below, ?_⟩
      rw [known]
      split at done
      · -- another server gets the child: extract, `InsertSplit`, own record, `UpdateBitmap`
        obtain ⟨⟨mdb, ret, records⟩, extracted, done⟩ := Option.bind_eq_some_iff.mp done
        obtain ⟨keep, -, moved⟩ := metadbExtractDo_frame extracted (Int.natCast_nonneg parent)
        have movedNonneg : ∀ r ∈ records, 0 ≤ r.1.partitionId := fun r mem => by
          rw [moved r mem]
          exact Int.natCast_nonneg _
        set c₁ := c.set s { c.servers s with mdb := mdb }
        have extractedGrows : ∀ d, Grows gigaHashName (if d = dirId then
            insert (parent + 2 ^ j) (partitions mapping.bitmap) else ∅) c c₁ d := fun d =>
          grows_set gigaHashName (ViewGrows.of_eq gigaHashName
            (congrFun (view_of_records gigaHashName keep) d))
        dsimp only at done
        split at done
        · -- `InsertSplit` on the child's server, whichever way it went
          obtain ⟨c₂, inserted, done⟩ := Option.bind_eq_some_iff.mp done
          exact recordChild_updateBitmapRemote_grows gigaHashName fits known
            (fun d => (extractedGrows d).trans gigaHashName
              (insertSplitRemote_grows gigaHashName inserted fits movedNonneg d)) done
        · exact recordChild_updateBitmapRemote_grows gigaHashName fits known extractedGrows done
      · -- the child stays on this server: only the own record changes
        obtain ⟨⟨srv, mapping'⟩, recorded, done⟩ := Option.bind_eq_some_iff.mp done
        cases done
        intro d
        exact grows_set gigaHashName (recordChild_grows gigaHashName recorded fits
          (known ▸ Finset.subset_insert _ _) d).2

theorem split_grows_other {c c' : Cluster} {s dirId parent deleted : ℕ} {run : InsertSplitRun}
    {zerothReached : Bool} {now : ℕ}
    (done : split gigaHashName c s dirId parent deleted run zerothReached now = some c') {d : ℕ}
    (other : dirId ≠ d) : Grows gigaHashName ∅ c c' d := by
  obtain ⟨child, -, -, -, grows⟩ := split_grows gigaHashName done
  have unchanged := grows d
  rw [if_neg (Ne.symm other)] at unchanged
  exact unchanged

theorem step_size {c c' : Cluster} {a : Action} (stepped : step gigaHashName c a = some c') :
    c'.size = c.size := by
  cases a with
  | request s req =>
    obtain ⟨-, -, srv, -, rfl⟩ := step_request stepped
    rfl
  | split s dirId parent deleted run zerothReached now =>
    obtain ⟨child, -, -, -, grows⟩ := split_grows gigaHashName (step_split stepped).2.2
    exact (grows dirId).size
  | evict s dirId =>
    obtain ⟨-, -, rfl⟩ := step_evict stepped
    rfl
  | restart s cwd now =>
    obtain ⟨-, srv, -, rfl⟩ := step_restart stepped
    rfl

theorem step_grows {c c' : Cluster} {a : Action} (coherent : ∀ s, Coherent (c.servers s))
    (stepped : step gigaHashName c a = some c') (d : ℕ) :
    ∃ extra, Grows gigaHashName extra c c' d ∧ ∀ i ∈ extra,
      i ∈ knownPartitions gigaHashName c d ∨ i = 0 ∨
        ∃ s parent deleted run zerothReached now,
          a = .split s d parent deleted run zerothReached now ∧ s < c.size ∧
          parent ∈ viewPartitions gigaHashName (c.servers s) d ∧ PrefixTree.parent i = parent := by
  have zero : ∀ i ∈ ({0} : Finset ℕ), i ∈ knownPartitions gigaHashName c d ∨ i = 0 ∨
      ∃ s parent deleted run zerothReached now,
        a = .split s d parent deleted run zerothReached now ∧ s < c.size ∧
        parent ∈ viewPartitions gigaHashName (c.servers s) d ∧ PrefixTree.parent i = parent :=
    fun i mem => .inr (.inl (Finset.mem_singleton.mp mem))
  cases a with
  | request s req =>
    obtain ⟨-, -, srv, served, rfl⟩ := step_request stepped
    exact ⟨{0}, grows_set gigaHashName (serve_grows gigaHashName served d), zero⟩
  | split s dirId parent deleted run zerothReached now =>
    obtain ⟨inside, -, split⟩ := step_split stepped
    obtain ⟨child, -, held, up, grows⟩ := split_grows gigaHashName split
    refine ⟨_, grows d, fun i mem => ?_⟩
    -- only the split directory gains a partition, the child
    split at mem
    · rename_i here
      subst here
      rcases Finset.mem_insert.mp mem with rfl | old
      · exact .inr (.inr ⟨s, parent, deleted, run, zerothReached, now, rfl, inside, held, up⟩)
      · exact .inl (viewPartitions_subset_known gigaHashName inside _ old)
    · cases mem
  | evict s dirId =>
    obtain ⟨-, -, rfl⟩ := step_evict stepped
    exact ⟨{0}, grows_set gigaHashName (viewGrows_of_coherent (coherent s)
      ((coherent s).evict dirId) (FreshRecords.refl _) d), zero⟩
  | restart s cwd now =>
    obtain ⟨-, srv, restarted, rfl⟩ := step_restart stepped
    exact ⟨{0}, (grows_set gigaHashName (restartServer_grows (coherent s) restarted d)).restart
      gigaHashName _, zero⟩

theorem parentClosed_of_grows {extra : Finset ℕ} {c c' : Cluster} {d : ℕ}
    (closed : ∀ n ∈ knownPartitions gigaHashName c d,
      PrefixTree.parent n ∈ knownPartitions gigaHashName c d)
    (grows : Grows gigaHashName extra c c' d)
    (fresh : ∀ i ∈ extra, i ∈ knownPartitions gigaHashName c d ∨ i = 0 ∨
      PrefixTree.parent i ∈ knownPartitions gigaHashName c d) :
    ∀ n ∈ knownPartitions gigaHashName c' d,
      PrefixTree.parent n ∈ knownPartitions gigaHashName c' d := by
  intro n mem
  have old : n ∈ knownPartitions gigaHashName c d → PrefixTree.parent n ∈
      knownPartitions gigaHashName c' d := fun had => grows.known_subset gigaHashName (closed n had)
  rcases Finset.mem_union.mp (grows.known_bound gigaHashName mem) with had | new
  · exact old had
  · rcases fresh n new with had | rfl | up
    · exact old had
    · rw [parent_zero]
      exact mem
    · exact grows.known_subset gigaHashName up

theorem step_grows_closed {c c' : Cluster} {a : Action} (coherent : ∀ s, Coherent (c.servers s))
    (stepped : step gigaHashName c a = some c') (d : ℕ)
    (closed : ∀ n ∈ knownPartitions gigaHashName c d,
      PrefixTree.parent n ∈ knownPartitions gigaHashName c d) :
    ∀ n ∈ knownPartitions gigaHashName c' d,
      PrefixTree.parent n ∈ knownPartitions gigaHashName c' d := by
  obtain ⟨extra, grows, fresh⟩ := step_grows gigaHashName coherent stepped d
  refine parentClosed_of_grows gigaHashName closed grows fun i mem => ?_
  rcases fresh i mem with had | zero | ⟨s, parent, -, -, -, -, -, inside, held, up⟩
  · exact .inl had
  · exact .inr (.inl zero)
  · exact .inr (.inr (up ▸ viewPartitions_subset_known gigaHashName inside d held))

end Steps

/-! ### Caches that agree with the records -/

section Coherence

variable (gigaHashName : List UInt8 → Hash)

theorem Coherent.recordChild {srv srv' : MetadataServer} {dirId child : ℕ}
    {mapping mapping' : GigaMapping} (coherent : Coherent srv)
    (present : (recordMapping srv dirId).isSome)
    (done : recordChild gigaHashName srv dirId mapping child = some (srv', mapping')) :
    Coherent srv' := by
  simp only [IndexFS.recordChild, Option.bind_eq_bind, Option.bind_eq_some_iff, Option.pure_def,
    Option.some.injEq] at done
  obtain ⟨updated, -, ⟨mdb, ret⟩, written, done⟩ := done
  obtain ⟨rfl, rfl⟩ := Prod.mk.inj done
  exact coherent.write present written

structure ServersCoherent (c : Cluster) : Prop where
  srvId : ∀ s, (c.servers s).srvId = s
  coherent : ∀ s, Coherent (c.servers s)

variable {gigaHashName}

theorem ServersCoherent.set {c : Cluster} {s : ℕ} {srv : MetadataServer}
    (servers : ServersCoherent c) (srvId : srv.srvId = s) (coherent : Coherent srv) :
    ServersCoherent (c.set s srv) := by
  refine ⟨fun t => ?_, fun t => ?_⟩ <;> by_cases here : t = s
  · rw [here, Cluster.set_self, srvId]
  · rw [Cluster.set_of_ne c srv here]
    exact servers.srvId t
  · rw [here, Cluster.set_self]
    exact coherent
  · rw [Cluster.set_of_ne c srv here]
    exact servers.coherent t

variable (gigaHashName)

theorem recordMapping_bootServer (s size now : ℕ) (cwd : Stat) (dirId : ℕ) :
    recordMapping (bootServer gigaHashName s size now cwd) dirId =
      if dirId = rootDirId then some (gigaInitMapping rootDirId s size) else none := by
  by_cases root : dirId = rootDirId
  · subst root
    simp [recordMapping, bootServer, MetadataBackend.mkdir, metadbCreateDir, metadbInit,
      metadbSetInitInodeCount, putIfAbsent, MetaDB.get, MetaDB.put, initDirVal,
      AList.lookup, AList.singleton]
  · rw [if_neg root, recordMapping, bootServer_get_of_ne gigaHashName s size now cwd
      (recordKey_ne root)]
    rfl

theorem coherent_bootServer (s size now : ℕ) (cwd : Stat) :
    Coherent (bootServer gigaHashName s size now cwd) := by
  intro dirId mapping hit
  simp only [bootServer, rootCache] at hit
  split at hit
  · rename_i root
    cases hit
    exact ⟨gigaInitMapping rootDirId s size, by rw [recordMapping_bootServer, if_pos root], rfl⟩
  · cases hit

theorem viewPartitions_bootServer (s size now : ℕ) (cwd : Stat) (dirId : ℕ) :
    viewPartitions gigaHashName (bootServer gigaHashName s size now cwd) dirId ⊆ {0} := by
  rw [(coherent_bootServer gigaHashName s size now cwd).viewPartitions_eq, recordPartitions,
    recordMapping_bootServer]
  by_cases root : dirId = rootDirId
  · simp only [if_pos root]
    exact (partitions_initialBitmap).subset
  · simp only [if_neg root]
    exact Finset.empty_subset _

variable {gigaHashName}

theorem ServersCoherent.split {c c' : Cluster} {s dirId parent deleted : ℕ}
    {run : InsertSplitRun} {zerothReached : Bool} {now : ℕ} (servers : ServersCoherent c)
    (done : split gigaHashName c s dirId parent deleted run zerothReached now = some c') :
    ServersCoherent c' := by
  obtain ⟨mapping, child, fetched, -, moved | stayed⟩ := split_cases gigaHashName done
  · obtain ⟨elsewhere, mdb, ret, records, c₂, srv, mapping', extracted, inserted, recorded,
      done⟩ := moved
    obtain ⟨keep, -, movedTo⟩ := metadbExtractDo_frame extracted (Int.natCast_nonneg parent)
    -- the extraction keeps every record, so the parent's record is still there
    have records₁ : ∀ d, recordMapping { c.servers s with mdb } d = recordMapping (c.servers s) d :=
      fun d => by rw [recordMapping, recordMapping, keep _ (by simp [recordKey])]
    have extracted₁ : Coherent { c.servers s with mdb } :=
      (servers.coherent s).of_records rfl records₁
    have servers₁ := servers.set
      (show ({ c.servers s with mdb } : MetadataServer).srvId = s from servers.srvId s) extracted₁
    -- `InsertSplit` goes to another server
    have apart : gigaGetServerForIndex mapping child ≠ s := fun same =>
      elsewhere (by rw [servers.srvId s, same])
    have stage₂ : ServersCoherent c₂ ∧ c₂.servers s = { c.servers s with mdb } := by
      split at inserted
      · rcases insertSplitRemote_cases gigaHashName inserted with
          ⟨-, rfl⟩ | ⟨-, -, rfl⟩ | ⟨-, -, srv', loaded, rfl⟩
        · exact ⟨servers₁, Cluster.set_self _ _ _⟩
        · exact ⟨⟨servers₁.srvId, servers₁.coherent⟩, Cluster.set_self _ _ _⟩
        · have only := insertSplit_onlyDir loaded fun r _ => (metadbExtractDo_under extracted).2 r ‹_›
          refine ⟨servers₁.set (only.srvId.trans (servers₁.srvId _)) ((servers₁.coherent _).insertSplit
            loaded fun r mem => by rw [movedTo r mem]; exact Int.natCast_nonneg _), ?_⟩
          rw [Cluster.set_of_ne _ _ (Ne.symm apart), Cluster.set_self]
      · cases inserted
        exact ⟨servers₁, Cluster.set_self _ _ _⟩
    obtain ⟨servers₂, atParent⟩ := stage₂
    rw [atParent] at recorded
    have present : (recordMapping { c.servers s with mdb } dirId).isSome := by
      rw [records₁]
      exact (servers.coherent s).recorded (view_of_fetchDir gigaHashName fetched)
    have servers₃ := servers₂.set ((recordChild_recached gigaHashName recorded).2.srvId.trans
      (servers.srvId s)) (extracted₁.recordChild gigaHashName present recorded)
    rcases updateBitmapRemote_cases gigaHashName done with
      ⟨-, rfl⟩ | ⟨-, -, -, rfl⟩ | ⟨-, -, srv', result, updated, rfl⟩
    · exact servers₃
    · exact ⟨servers₃.srvId, servers₃.coherent⟩
    · exact servers₃.set ((updateBitmap_onlyDir updated).srvId.trans (servers₃.srvId _))
        ((servers₃.coherent _).updateBitmap updated)
  · obtain ⟨-, srv, mapping', recorded, rfl⟩ := stayed
    exact servers.set ((recordChild_recached gigaHashName recorded).2.srvId.trans (servers.srvId s))
      ((servers.coherent s).recordChild gigaHashName
        ((servers.coherent s).recorded (view_of_fetchDir gigaHashName fetched)) recorded)

theorem ServersCoherent.step {c c' : Cluster} {a : Action} (servers : ServersCoherent c)
    (stepped : step gigaHashName c a = some c') : ServersCoherent c' := by
  cases a with
  | request s req =>
    obtain ⟨-, -, srv, served, rfl⟩ := step_request stepped
    obtain ⟨mdb, rfl, -⟩ := serve_frame gigaHashName served
    obtain ⟨cached, fresh⟩ := serve_fresh gigaHashName served
    exact servers.set (servers.srvId s) ((servers.coherent s).of_freshRecords cached fresh)
  | split s dirId parent deleted run zerothReached now =>
    exact servers.split (step_split stepped).2.2
  | evict s dirId =>
    obtain ⟨-, -, rfl⟩ := step_evict stepped
    exact servers.set (servers.srvId s) ((servers.coherent s).evict dirId)
  | restart s cwd now =>
    obtain ⟨-, srv, restarted, rfl⟩ := step_restart stepped
    obtain ⟨srvId, coherent, -⟩ := restartServer_fresh restarted
    -- which servers run does not enter `ServersCoherent`
    have set := servers.set (srvId.trans (servers.srvId s)) coherent
    exact ⟨set.srvId, set.coherent⟩

variable (gigaHashName)

theorem servers_coherent_boot (size now : ℕ) (cwd : ℕ → Stat) :
    ServersCoherent (boot gigaHashName size now cwd) :=
  ⟨fun _ => rfl, fun s => coherent_bootServer gigaHashName s size now (cwd s)⟩

theorem servers_coherent_reach {c : Cluster} (reach : Reach gigaHashName c) : ServersCoherent c :=
  Reachable.invariant (fun _ ⟨size, now, cwd, _, boot⟩ => boot ▸ servers_coherent_boot gigaHashName size now cwd)
    (fun _ _ servers ⟨_, stepped⟩ => servers.step stepped) reach

end Coherence

/-! ### `G(d)` stays tree-closed -/

section Closed

variable (gigaHashName : List UInt8 → Hash)

theorem known_parent_mem {c : Cluster} (reach : Reach gigaHashName c) (d : ℕ) :
    ∀ n ∈ knownPartitions gigaHashName c d,
      PrefixTree.parent n ∈ knownPartitions gigaHashName c d := by
  refine @Reachable.invariant_reach _ _ _ (fun c => ∀ d, ∀ n ∈ knownPartitions gigaHashName c d,
    PrefixTree.parent n ∈ knownPartitions gigaHashName c d) ?_ ?_ _ reach d
  · -- a fresh deployment knows the root partition of the root directory and nothing else
    rintro _ ⟨size, now, cwd, -, rfl⟩ d n mem
    obtain ⟨s, -, onS⟩ := (mem_knownPartitions gigaHashName _ d n).mp mem
    rw [Finset.mem_singleton.mp (viewPartitions_bootServer gigaHashName s size now (cwd s) d onS)]
      at mem ⊢
    rw [parent_zero]
    exact mem
  · -- the caches agree with the records at the earlier state, an invariant of its own
    rintro c c' earlier closed ⟨a, stepped⟩ d
    exact step_grows_closed gigaHashName (servers_coherent_reach gigaHashName earlier).coherent
      stepped d (closed d)

/-- `G(d)` of every reachable deployment is empty or tree-closed (bit 0 is set, and so is
the parent of every set index), and a step only adds to it: partition 0 where `G(d)` was
empty, or a split's child under a partition the splitting server held. -/
theorem union_tree_closed {c c' : Cluster} {a : Action} (reach : Reach gigaHashName c)
    (stepped : step gigaHashName c a = some c') (dirId : ℕ) :
    (partitions (unionBitmap gigaHashName c.servers dirId c.size) = ∅ ∨
      TreeClosed (unionBitmap gigaHashName c.servers dirId c.size)) ∧
    partitions (unionBitmap gigaHashName c.servers dirId c.size) ⊆
      partitions (unionBitmap gigaHashName c'.servers dirId c'.size) ∧
    ∀ i ∈ partitions (unionBitmap gigaHashName c'.servers dirId c'.size),
      i ∉ partitions (unionBitmap gigaHashName c.servers dirId c.size) →
      (i = 0 ∧ partitions (unionBitmap gigaHashName c.servers dirId c.size) = ∅) ∨
      ∃ s parent deleted run zerothReached now,
        a = .split s dirId parent deleted run zerothReached now ∧
        parent ∈ viewPartitions gigaHashName (c.servers s) dirId ∧ PrefixTree.parent i = parent := by
  simp only [treeClosed_iff, partitions_unionBitmap]
  have closed := known_parent_mem gigaHashName reach dirId
  obtain ⟨extra, grows, fresh⟩ :=
    step_grows gigaHashName (servers_coherent_reach gigaHashName reach).coherent stepped dirId
  refine ⟨?_, grows.known_subset gigaHashName, fun i mem new => ?_⟩
  · rcases (knownPartitions gigaHashName c dirId).eq_empty_or_nonempty with empty | ne
    · exact .inl empty
    · exact .inr (closed_of_parent_mem ne closed)
  have added : i ∈ extra := by
    rcases Finset.mem_union.mp (grows.known_bound gigaHashName mem) with old | added
    · exact absurd old new
    · exact added
  rcases fresh i added with old | rfl | ⟨s, parent, deleted, run, zerothReached, now, rfl, -, held, up⟩
  · exact absurd old new
  · -- partition 0 is new only where nothing was known: a nonempty `G(d)` holds the root
    refine .inl ⟨rfl, Finset.not_nonempty_iff_eq_empty.mp fun ne => new ?_⟩
    exact (closed_of_parent_mem ne closed).1
  · exact .inr ⟨s, parent, deleted, run, zerothReached, now, rfl, held, up⟩

theorem union_tree_closed_after_split :
    ∃ c₁ c₂, Reach firstByteHash c₁ ∧
      step firstByteHash c₁ (.split 0 rootDirId 0 0 .loaded true 0) = some c₂ ∧
      1 ∈ partitions (unionBitmap firstByteHash c₂.servers rootDirId c₂.size) ∧
      ((partitions (unionBitmap firstByteHash c₁.servers rootDirId c₁.size) = ∅ ∨
        TreeClosed (unionBitmap firstByteHash c₁.servers rootDirId c₁.size)) ∧
      partitions (unionBitmap firstByteHash c₁.servers rootDirId c₁.size) ⊆
        partitions (unionBitmap firstByteHash c₂.servers rootDirId c₂.size) ∧
      ∀ i ∈ partitions (unionBitmap firstByteHash c₂.servers rootDirId c₂.size),
        i ∉ partitions (unionBitmap firstByteHash c₁.servers rootDirId c₁.size) →
        (i = 0 ∧ partitions (unionBitmap firstByteHash c₁.servers rootDirId c₁.size) = ∅) ∨
        ∃ s parent deleted run zerothReached now,
          (.split 0 rootDirId 0 0 .loaded true 0 : Action) =
            .split s rootDirId parent deleted run zerothReached now ∧
          parent ∈ viewPartitions firstByteHash (c₁.servers s) rootDirId ∧
          PrefixTree.parent i = parent) := by
  -- a name with an odd hash key, put on server 0 and moved to server 1 by the split
  obtain ⟨c₁, c₂, stepped₁, -, -, stepped₂, size, -, view₀, -⟩ :=
    loaded_split_moves_entry firstByteHash 0 (fun _ => default) 0 0 0 true
      (show hashKey (firstByteHash [128]) % 2 = 1 by decide)
  have reach : Reach firstByteHash c₁ := .step (.init ⟨2, 0, _, by decide, rfl⟩) ⟨_, stepped₁⟩
  have child : 1 ∈ partitions (unionBitmap firstByteHash c₂.servers rootDirId c₂.size) := by
    rw [partitions_unionBitmap, mem_knownPartitions]
    refine ⟨0, by rw [size]; decide, ?_⟩
    rw [viewPartitions_of_view firstByteHash view₀, partitions_splitRoot]
    decide
  exact ⟨c₁, c₂, reach, stepped₂, child, union_tree_closed firstByteHash reach stepped₂ rootDirId⟩

end Closed

end IndexFS
