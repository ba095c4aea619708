import IndexFS.Cluster.Union
import IndexFS.Giga.Growth
import IndexFS.Giga.Wire

/-! The root directory across a deployment of `n ≤ 128` servers: partition `i` lives on server
`i`, and a server accepts a name only at the partition the union of all mappings looks it up
at. Evictions and restarts keep this once a server has rewritten its root record; before
that, the boot record takes every name at partition 0. -/
namespace IndexFS

open Giga Metadb PrefixTree Transition

/-! ### Scheduled splits -/

section Scheduled

variable (gigaHashName : List UInt8 → Hash)

/-- What `ScheduleSplit` checks before it queues a split of `parent`, on the mapping the
server holds: the handler calling it has just accepted a name at `parent`, so
`CheckAddressing` gives `parent` to this server, and `CheckSplit` found
`giga_is_splittable` true. -/
def Schedulable (c : Cluster) : Action → Prop
  | .split s dirId parent _ _ _ _ =>
    ∃ mapping, view gigaHashName (c.servers s) dirId = some mapping ∧
      gigaGetServerForIndex mapping parent = (c.servers s).srvId ∧
      gigaIsSplittable mapping parent = some 1
  | _ => True

/-- A server drops the root's mapping from its cache, or restarts, only when its bitmap
record of the root holds the mapping it uses. -/
def KeepsRoot (c : Cluster) : Action → Prop
  | .evict s dirId =>
    dirId = rootDirId →
      recordMapping (c.servers s) rootDirId = view gigaHashName (c.servers s) rootDirId
  | .restart s _ _ =>
    recordMapping (c.servers s) rootDirId = view gigaHashName (c.servers s) rootDirId
  | _ => True

def ScheduledReach : Cluster → Prop :=
  Reachable (fun c => ∃ size now cwd, 0 < size ∧ c = boot gigaHashName size now cwd)
    fun c c' => ∃ a, Schedulable gigaHashName c a ∧ KeepsRoot gigaHashName c a ∧
      step gigaHashName c a = some c'

variable {gigaHashName} {c : Cluster}

theorem ScheduledReach.reach (reach : ScheduledReach gigaHashName c) : Reach gigaHashName c :=
  Reachable.mono (fun _ _ ⟨a, _, _, stepped⟩ => ⟨a, stepped⟩) reach

theorem ScheduledReach.size_pos (reach : ScheduledReach gigaHashName c) : 0 < c.size := by
  refine @Reachable.invariant _ _ _ (fun c => 0 < c.size) ?_ ?_ _ reach
  · rintro _ ⟨size, now, cwd, pos, rfl⟩
    exact pos
  · rintro c c' pos ⟨a, -, -, stepped⟩
    rw [step_size gigaHashName stepped]
    exact pos

end Scheduled

/-! ### The root's mapping on each server -/

/-- The root's mapping on a server of a deployment of `n` servers: the one
`server_main.cc` caches, with zeroth server 0, grown by children below `n`. -/
structure RootView (n : ℕ) (mapping : GigaMapping) : Prop where
  wf : mapping.bitmap.WF
  root : 0 ∈ partitions mapping.bitmap
  below : ∀ i ∈ partitions mapping.bitmap, i < n
  zeroth : mapping.zerothServer = 0
  count : mapping.serverCount = n
  radix : mapping.currRadix ≤ 9
  named : mapping.id = rootDirId

section RootView

variable {n : ℕ} {m m' m₁ m₂ : GigaMapping}

theorem rootView_init (pos : 0 < n) : RootView n (gigaInitMapping rootDirId 0 n) where
  wf := WF_initialBitmap
  root := by simp [gigaInitMapping, partitions_initialBitmap]
  below i mem := by
    simp only [gigaInitMapping, partitions_initialBitmap, Finset.mem_singleton] at mem
    rw [mem]
    exact pos
  zeroth := rfl
  count := if_pos pos
  radix := show 1 ≤ 9 by decide
  named := rfl

theorem RootView.server (view : RootView n m) {i : ℕ} (mem : i ∈ partitions m.bitmap) :
    gigaGetServerForIndex m i = i := by
  rw [gigaGetServerForIndex, view.zeroth, view.count, Nat.add_zero]
  exact Nat.mod_eq_of_lt (view.below i mem)

theorem RootView.lookup (small : n ≤ 128) (view : RootView n m) (hash : Hash) :
    gigaGetIndexForFile m hash = some (PrefixTree.lookup (partitions m.bitmap) (hashKey hash)) :=
  gigaGetIndexForFile_eq m view.wf ((mem_partitions _ 0).mp view.root)
    (fun i mem => Nat.lt_of_lt_of_le (view.below i mem) small) hash

theorem RootView.update (small : n ≤ 128) (view : RootView n m) {child : ℕ} (below : child < n)
    (update : gigaUpdateMapping m child = some m') : RootView n m' := by
  have fits : child < capacity := by
    rw [capacity_eq]
    omega
  have grown := partitions_gigaUpdateMapping fits update
  obtain ⟨radix, got, rfl⟩ := Option.map_eq_some_iff.mp update
  refine ⟨view.wf.setBit child, ?_, fun i mem => ?_, view.zeroth, view.count,
    getRadixFromBmap_le got, view.named⟩
  · rw [grown]
    exact Finset.mem_insert_of_mem view.root
  · rw [grown] at mem
    rcases Finset.mem_insert.mp mem with rfl | old
    · exact below
    · exact view.below i old

theorem RootView.update_exists (small : n ≤ 128) (view : RootView n m) {child : ℕ}
    (below : child < n) : ∃ m', gigaUpdateMapping m child = some m' ∧ RootView n m' := by
  have fits : child < capacity := by
    rw [capacity_eq]
    omega
  have nonempty : (partitions (setBit m.bitmap child)).Nonempty := by
    rw [partitions_setBit _ _ fits]
    exact Finset.insert_nonempty _ _
  obtain ⟨m', update⟩ : ∃ m', gigaUpdateMapping m child = some m' := by
    simp only [gigaUpdateMapping, getRadixFromBmap_eq _ (view.wf.setBit child) nonempty,
      Option.map_some, Option.some.injEq, exists_eq']
  exact ⟨m', update, view.update small below update⟩

theorem RootView.merge (view₁ : RootView n m₁) (view₂ : RootView n m₂)
    (merged : gigaUpdateCache m₁ m₂ = some m) : RootView n m := by
  have parts := partitions_gigaUpdateCache merged
  obtain ⟨radix, got, rfl⟩ := Option.map_eq_some_iff.mp merged
  refine ⟨view₁.wf.or view₂.wf, ?_, fun i mem => ?_, view₁.zeroth, ?_, getRadixFromBmap_le got,
    view₁.named⟩
  · rw [parts]
    exact Finset.mem_union_left _ view₁.root
  · rw [parts] at mem
    rcases Finset.mem_union.mp mem with old | new
    · exact view₁.below i old
    · exact view₂.below i new
  · -- `giga_update_cache` keeps the larger server count, `n` on both sides
    show (if m₂.serverCount > m₁.serverCount then m₂.serverCount else m₁.serverCount) = n
    split
    · exact view₂.count
    · exact view₁.count

theorem RootView.merge_exists (view₁ : RootView n m₁) (view₂ : RootView n m₂) :
    ∃ m, gigaUpdateCache m₁ m₂ = some m ∧ RootView n m ∧
      partitions m.bitmap = partitions m₁.bitmap ∪ partitions m₂.bitmap := by
  have nonempty : (partitions fun k => m₁.bitmap k ||| m₂.bitmap k).Nonempty := by
    rw [partitions_or]
    exact ⟨0, Finset.mem_union_left _ view₁.root⟩
  obtain ⟨m, merged⟩ : ∃ m, gigaUpdateCache m₁ m₂ = some m := by
    simp only [gigaUpdateCache, getRadixFromBmap_eq _ (view₁.wf.or view₂.wf) nonempty,
      Option.map_some, Option.some.injEq, exists_eq']
  exact ⟨m, merged, view₁.merge view₂ merged, partitions_gigaUpdateCache merged⟩

end RootView

/-! ### Each server -/

section Server

variable (gigaHashName : List UInt8 → Hash)

def RootNamesPlaced (t : ℕ) (srv : MetadataServer) : Prop :=
  ∀ key : MetadbKey, key.parentId = rootDirId → 0 ≤ key.partitionId →
    (srv.mdb.get key).isSome → key.partitionId = t ∧
      t ∈ viewPartitions gigaHashName srv rootDirId ∧ hashKey key.nameHash % 2 ^ Nat.size t = t

structure RootServer (n t : ℕ) (srv : MetadataServer) : Prop where
  srvId : srv.srvId = t
  viewed : ∃ mapping, view gigaHashName srv rootDirId = some mapping ∧ RootView n mapping
  placed : RootNamesPlaced gigaHashName t srv

def RootServers (n : ℕ) (c : Cluster) : Prop :=
  ∀ t < n, RootServer gigaHashName n t (c.servers t)

variable {gigaHashName} {n t : ℕ}

theorem RootServer.remap {srv srv' : MetadataServer} {m' : GigaMapping}
    {new : MetadbKey → Prop} (server : RootServer gigaHashName n t srv)
    (srvId : srv'.srvId = srv.srvId) (found : view gigaHashName srv' rootDirId = some m')
    (view : RootView n m') (keep : viewPartitions gigaHashName srv rootDirId ⊆ partitions m'.bitmap)
    (names : NamesFrom new srv.mdb srv'.mdb)
    (fresh : ∀ key, new key → key.parentId = rootDirId → 0 ≤ key.partitionId →
      key.partitionId = t ∧ t ∈ partitions m'.bitmap ∧ hashKey key.nameHash % 2 ^ Nat.size t = t) :
    RootServer gigaHashName n t srv' where
  srvId := srvId.trans server.srvId
  viewed := ⟨m', found, view⟩
  placed key root nonneg held := by
    rw [viewPartitions_of_view gigaHashName found]
    rcases names key nonneg held with old | added
    · obtain ⟨part, mem, on⟩ := server.placed key root nonneg old
      exact ⟨part, keep mem, on⟩
    · exact fresh key added root nonneg

theorem RootServer.same {srv srv' : MetadataServer} (server : RootServer gigaHashName n t srv)
    (same : view gigaHashName srv' rootDirId = view gigaHashName srv rootDirId)
    (srvId : srv'.srvId = srv.srvId)
    (names : NamesFrom (fun _ => False) srv.mdb srv'.mdb) : RootServer gigaHashName n t srv' := by
  obtain ⟨m, found, view⟩ := server.viewed
  exact server.remap srvId (same.trans found) view
    (viewPartitions_of_view gigaHashName found).subset names fun _ no => no.elim

theorem RootServer.recached {srv srv' : MetadataServer} {m m' : GigaMapping}
    (server : RootServer gigaHashName n t srv) (found : view gigaHashName srv rootDirId = some m)
    (recached : Recached rootDirId m' srv srv') (view : RootView n m')
    (grows : partitions m.bitmap ⊆ partitions m'.bitmap) : RootServer gigaHashName n t srv' :=
  server.remap recached.srvId recached.view_self view
    (by rw [viewPartitions_of_view gigaHashName found]; exact grows)
    (recached.names fun _ => False) fun _ (no : False) => no.elim

theorem RootServer.accepted (small : n ≤ 128) {srv : MetadataServer} {s : ℕ}
    (server : RootServer gigaHashName n s srv) {m : GigaMapping}
    (found : view gigaHashName srv rootDirId = some m) {name : List UInt8} {index : ℤ}
    (accepted : checkAddressing gigaHashName srv m name = some index) (nonneg : 0 ≤ index) :
    index = s ∧ PrefixTree.lookup (partitions m.bitmap) (hashKey (gigaHashName name)) = s := by
  obtain ⟨m', found', view⟩ := server.viewed
  obtain rfl : m = m' := Option.some.inj (found.symm.trans found')
  have mem := (lookup_spec (x := hashKey (gigaHashName name)) view.root).1
  simp only [checkAddressing, view.lookup small, view.server mem, server.srvId,
    Option.bind_eq_bind, Option.bind_some, Option.pure_def, Option.some.injEq] at accepted
  split at accepted
  · omega
  · rename_i same
    rw [not_not] at same
    exact ⟨by rw [← accepted, same], same⟩

theorem RootServer.serve (small : n ≤ 128) {srv srv' : MetadataServer} {req : Request} {s : ℕ}
    (server : RootServer gigaHashName n s srv) (served : serve gigaHashName srv req = some srv') :
    RootServer gigaHashName n s srv' := by
  obtain ⟨m, found, view⟩ := server.viewed
  obtain ⟨cached, fresh⟩ := serve_fresh gigaHashName served
  obtain ⟨mdb, rfl, names⟩ := serve_frame gigaHashName served
  refine server.remap rfl (view_of_freshRecords gigaHashName cached fresh found) view
    (viewPartitions_of_view gigaHashName found).subset names ?_
  rintro key ⟨dirId, objname, mapping, index, found', accepted, nonneg, rfl⟩ root -
  -- the name's directory is the root, whose mapping the server has
  simp only [initMetaObjKey_parentId] at root
  subst root
  obtain rfl : m = mapping := Option.some.inj (found.symm.trans found')
  obtain ⟨here, looked⟩ := server.accepted small found accepted nonneg
  refine ⟨by simp [here], ?_, ?_⟩
  · rw [← looked]
    exact (lookup_spec view.root).1
  · show hashKey (gigaHashName objname) % 2 ^ Nat.size s = s
    rw [← looked]
    exact mod_size_lookup view.root

theorem RootServer.onlyDir {srv srv' : MetadataServer} {dirId : ℕ} (other : dirId ≠ rootDirId)
    (server : RootServer gigaHashName n t srv) (only : OnlyDir dirId srv srv') :
    RootServer gigaHashName n t srv' := by
  -- the names it gains are not the root's
  have names : NamesFrom (fun key => key.parentId ≠ rootDirId) srv.mdb srv'.mdb := by
    intro key _ held
    by_cases root : key.parentId = rootDirId
    · rw [only.keys key fun under => other (under.symm.trans root)] at held
      exact .inl held
    · exact .inr root
  have same : view gigaHashName srv' rootDirId = view gigaHashName srv rootDirId := by
    rw [view_eq, view_eq, only.dmap rootDirId (Ne.symm other),
      only.keys (recordKey rootDirId) (Ne.symm other)]
  obtain ⟨m, found, view⟩ := server.viewed
  exact server.remap only.srvId (same.trans found) view
    (viewPartitions_of_view gigaHashName found).subset names fun _ notRoot root => absurd root notRoot

theorem RootServer.insertSplit (small : n ≤ 128) {srv srv' : MetadataServer}
    {records : List (Σ _ : MetadbKey, MetadbVal)} {bitmap : GigaMapping} {now : ℕ}
    (server : RootServer gigaHashName n t srv) (below : t < n)
    (done : insertSplit gigaHashName srv rootDirId t records bitmap true now = some srv')
    (moved : ∀ r ∈ records, r.1.partitionId = t ∧ hashKey r.1.nameHash % 2 ^ Nat.size t = t) :
    RootServer gigaHashName n t srv' := by
  obtain ⟨current, found, view⟩ := server.viewed
  have nonneg : ∀ r ∈ records, 0 ≤ r.1.partitionId := fun r mem => by
    rw [(moved r mem).1]
    exact Int.natCast_nonneg t
  obtain ⟨mapping, update, recached⟩ := insertSplit_found
    (by rw [view_putAll gigaHashName srv records nonneg]; exact found) done
  have fits : t < capacity := by
    rw [capacity_eq]
    omega
  have grown := partitions_gigaUpdateMapping fits update
  refine server.remap recached.srvId recached.view_self (view.update small below update)
    (by rw [viewPartitions_of_view gigaHashName found, grown]; exact Finset.subset_insert _ _)
    ((namesFrom_putAll records).trans (recached.names _)) ?_
  intro key mem _ _
  obtain ⟨r, inside, rfl⟩ := List.mem_map.mp mem
  obtain ⟨part, on⟩ := moved r inside
  exact ⟨part, grown ▸ Finset.mem_insert_self _ _, on⟩

theorem RootServer.insertSplit_some (small : n ≤ 128) {srv : MetadataServer}
    (server : RootServer gigaHashName n t srv) (below : t < n)
    {records : List (Σ _ : MetadbKey, MetadbVal)} (nonneg : ∀ r ∈ records, 0 ≤ r.1.partitionId)
    (bitmap : GigaMapping) (now : ℕ) :
    ∃ srv', IndexFS.insertSplit gigaHashName srv rootDirId t records bitmap true now = some srv' := by
  obtain ⟨current, found, view⟩ := server.viewed
  obtain ⟨m', update, -⟩ := view.update_exists small below
  obtain ⟨srv', inserted, -⟩ := insertSplit_loaded_some gigaHashName records bitmap now
    (by rw [view_putAll gigaHashName srv records nonneg]; exact found) update
  exact ⟨srv', inserted⟩

theorem RootServers.set {c : Cluster} {u : ℕ} {srv : MetadataServer}
    (servers : RootServers gigaHashName n c) (server : RootServer gigaHashName n u srv) :
    RootServers gigaHashName n (c.set u srv) := by
  intro t inside
  by_cases here : t = u
  · subst here
    rw [Cluster.set_self]
    exact server
  · rw [Cluster.set_of_ne c srv here]
    exact servers t inside

theorem RootServers.insertSplitRemote (small : n ≤ 128) {c c' : Cluster} {child : ℕ}
    {records : List (Σ _ : MetadbKey, MetadbVal)} {bitmap : GigaMapping} {run : InsertSplitRun}
    {now : ℕ} (servers : RootServers gigaHashName n c) (below : child < n)
    (done : insertSplitRemote gigaHashName c child rootDirId child records bitmap run now =
      some c')
    (moved : ∀ r ∈ records, r.1.partitionId = child ∧
      hashKey r.1.nameHash % 2 ^ Nat.size child = child) :
    RootServers gigaHashName n c' ∧ ∀ t, t ≠ child → c'.servers t = c.servers t := by
  rcases insertSplitRemote_cases gigaHashName done with
    ⟨-, rfl⟩ | ⟨-, -, rfl⟩ | ⟨-, -, srv, inserted, rfl⟩
  · exact ⟨servers, fun _ _ => rfl⟩
  · exact ⟨servers, fun _ _ => rfl⟩
  · exact ⟨servers.set ((servers child below).insertSplit small below inserted moved),
      fun t other => Cluster.set_of_ne c srv other⟩

theorem RootServers.insertSplitRemote_loaded (small : n ≤ 128) {c c' : Cluster} {child : ℕ}
    {records : List (Σ _ : MetadbKey, MetadbVal)} {bitmap : GigaMapping} {now : ℕ}
    (servers : RootServers gigaHashName n c) (below : child < n)
    (done : IndexFS.insertSplitRemote gigaHashName c child rootDirId child records bitmap .loaded
      now = some c') (nonneg : ∀ r ∈ records, 0 ≤ r.1.partitionId) :
    ∃ srv, insertSplit gigaHashName (c.servers child) rootDirId child records bitmap true now =
      some srv ∧ c' = c.set child srv := by
  rcases insertSplitRemote_cases gigaHashName done with
    ⟨unreached, -⟩ | ⟨-, failed, -⟩ | ⟨-, -, srv, inserted, rfl⟩
  · cases unreached
  · obtain ⟨srv, inserted⟩ := (servers child below).insertSplit_some small below nonneg bitmap now
    rcases failed with loadFailed | ⟨-, aborted⟩
    · cases loadFailed
    · rw [inserted] at aborted
      cases aborted
  · exact ⟨srv, inserted, rfl⟩

theorem RootServers.updateBitmapRemote {c c' : Cluster} {mapping : GigaMapping} {reached : Bool}
    (servers : RootServers gigaHashName n c) (pos : 0 < n) (view : RootView n mapping)
    (done : updateBitmapRemote gigaHashName c 0 rootDirId mapping reached = some c') :
    RootServers gigaHashName n c' ∧ (reached = true →
      partitions mapping.bitmap ⊆ viewPartitions gigaHashName (c'.servers 0) rootDirId) := by
  have server := servers 0 pos
  obtain ⟨current, found, currentView⟩ := server.viewed
  obtain ⟨merged, merge, mergedView, parts⟩ := currentView.merge_exists view
  rcases updateBitmapRemote_cases gigaHashName done with
    ⟨unsent, rfl⟩ | ⟨-, -, aborted, -⟩ | ⟨-, -, srv, result, updated, rfl⟩
  · refine ⟨servers, fun sent => ?_⟩
    rw [unsent] at sent
    cases sent
  · obtain ⟨srv', updated, -⟩ := updateBitmap_some gigaHashName found merge
    rw [updated] at aborted
    cases aborted
  · obtain ⟨merged', merge', recached⟩ := updateBitmap_found found updated
    obtain rfl : merged' = merged := Option.some.inj (merge'.symm.trans merge)
    refine ⟨servers.set (server.recached found recached mergedView
      (by rw [parts]; exact Finset.subset_union_left)), fun _ => ?_⟩
    rw [Cluster.set_self, viewPartitions_of_view gigaHashName recached.view_self, parts]
    exact Finset.subset_union_right

end Server

/-! ### The deployment -/

section Deployment

variable (gigaHashName : List UInt8 → Hash)

structure RootInv (c : Cluster) : Prop where
  small : c.size ≤ 128
  server : RootServers gigaHashName c.size c
  /-- The server of a partition knows every child split off it. -/
  children : ∀ t < c.size, ∀ i ∈ viewPartitions gigaHashName (c.servers t) rootDirId,
    i ∈ viewPartitions gigaHashName (c.servers (parent i)) rootDirId
  closed : ∀ i ∈ knownPartitions gigaHashName c rootDirId,
    parent i ∈ knownPartitions gigaHashName c rootDirId

variable {gigaHashName} {c c' : Cluster}

theorem RootInv.zero_known (inv : RootInv gigaHashName c) (pos : 0 < c.size) :
    0 ∈ knownPartitions gigaHashName c rootDirId := by
  obtain ⟨m, found, view⟩ := (inv.server 0 pos).viewed
  refine viewPartitions_subset_known gigaHashName pos rootDirId ?_
  rw [viewPartitions_of_view gigaHashName found]
  exact view.root

theorem RootInv.lookup_known (inv : RootInv gigaHashName c) {s : ℕ} (inside : s < c.size)
    {m : GigaMapping} (found : view gigaHashName (c.servers s) rootDirId = some m) {x : ℕ}
    (looked : PrefixTree.lookup (partitions m.bitmap) x = s) :
    PrefixTree.lookup (knownPartitions gigaHashName c rootDirId) x = s := by
  obtain ⟨m', found', view⟩ := (inv.server s inside).viewed
  obtain rfl : m = m' := Option.some.inj (found.symm.trans found')
  have own := viewPartitions_of_view gigaHashName found
  have closed : Closed (knownPartitions gigaHashName c rootDirId) :=
    ⟨inv.zero_known (Nat.zero_lt_of_lt inside), inv.closed⟩
  rw [← own] at looked
  have same := lookup_eq_of_children (x := x) (own ▸ view.root)
    (viewPartitions_subset_known gigaHashName inside rootDirId) closed fun i known up => by
      obtain ⟨t, tInside, onT⟩ := (mem_knownPartitions gigaHashName c rootDirId i).mp known
      have held := inv.children t tInside i onT
      rwa [up, looked] at held
  rw [← same, looked]

theorem RootInv.of_grows {extra : Finset ℕ} (inv : RootInv gigaHashName c)
    (grows : Grows gigaHashName extra c c' rootDirId) (servers : RootServers gigaHashName c.size c')
    (fresh : ∀ i ∈ extra, i ∈ knownPartitions gigaHashName c rootDirId ∨
      i ∈ viewPartitions gigaHashName (c'.servers (parent i)) rootDirId)
    (closed : ∀ i ∈ knownPartitions gigaHashName c' rootDirId,
      parent i ∈ knownPartitions gigaHashName c' rootDirId) : RootInv gigaHashName c' where
  small := grows.size ▸ inv.small
  server := by
    rw [grows.size]
    exact servers
  children t inside i mem := by
    -- a partition some server knew stays known to the server of its parent
    have known : i ∈ knownPartitions gigaHashName c rootDirId →
        i ∈ viewPartitions gigaHashName (c'.servers (parent i)) rootDirId := by
      intro had
      obtain ⟨u, uInside, onU⟩ := (mem_knownPartitions gigaHashName c rootDirId i).mp had
      exact (grows.server (parent i)).keep (inv.children u uInside i onU)
    rcases Finset.mem_union.mp ((grows.server t).bound mem) with old | new
    · exact known (viewPartitions_subset_known gigaHashName (grows.size ▸ inside) rootDirId old)
    · rcases fresh i new with had | direct
      · exact known had
      · exact direct
  closed := closed

variable (gigaHashName)

theorem viewPartitions_boot (size now : ℕ) (cwd : ℕ → Stat) (t : ℕ) :
    viewPartitions gigaHashName ((boot gigaHashName size now cwd).servers t) rootDirId = {0} := by
  rw [viewPartitions_of_view gigaHashName (view_boot gigaHashName size now cwd t)]
  exact partitions_initialBitmap

theorem knownPartitions_boot {size : ℕ} (pos : 0 < size) (now : ℕ) (cwd : ℕ → Stat) :
    knownPartitions gigaHashName (boot gigaHashName size now cwd) rootDirId = {0} := by
  ext i
  rw [mem_knownPartitions]
  constructor
  · rintro ⟨t, -, mem⟩
    rwa [viewPartitions_boot] at mem
  · intro mem
    exact ⟨0, pos, by rwa [viewPartitions_boot]⟩

theorem rootInv_boot {size : ℕ} (pos : 0 < size) (small : size ≤ 128) (now : ℕ)
    (cwd : ℕ → Stat) : RootInv gigaHashName (boot gigaHashName size now cwd) where
  small := small
  server t _ :=
    { srvId := rfl
      viewed := ⟨_, view_boot gigaHashName size now cwd t, rootView_init pos⟩
      placed := fun key _ nonneg held => by
        -- a fresh store holds the root's bitmap record and no name
        change ((bootServer gigaHashName t size now (cwd t)).mdb.get key).isSome at held
        rw [bootServer_get_of_ne gigaHashName t size now (cwd t) fun same => by
          rw [same] at nonneg
          exact absurd nonneg (by simp [recordKey])] at held
        cases held }
  children t _ i mem := by
    rw [viewPartitions_boot, Finset.mem_singleton] at mem
    subst mem
    rw [parent_zero, viewPartitions_boot]
    exact Finset.mem_singleton_self 0
  closed i mem := by
    rw [knownPartitions_boot gigaHashName pos, Finset.mem_singleton] at mem ⊢
    rw [mem, parent_zero]

/-- What `ScheduleSplit`'s checks give in a split of the root: the parent is the splitting
server's own partition, and the child `giga_index_for_splitting` picks is a partition below
`n` that no server knows yet, on a server of its own. -/
structure ScheduledChild (c : Cluster) (s parent child : ℕ) (m : GigaMapping) : Prop where
  parent_eq : parent = s
  up : PrefixTree.parent child = s
  below : child < c.size
  server : gigaGetServerForIndex m child = child
  apart : child ≠ s
  fresh : child ∉ knownPartitions gigaHashName c rootDirId

variable {gigaHashName}

theorem RootInv.scheduledChild (inv : RootInv gigaHashName c) {s parent child : ℕ}
    (inside : s < c.size) {m : GigaMapping}
    (found : view gigaHashName (c.servers s) rootDirId = some m)
    (owner : gigaGetServerForIndex m parent = (c.servers s).srvId)
    (allowed : gigaIsSplittable m parent = some 1)
    (splitChild : gigaIndexForSplitting m parent = some child) :
    ScheduledChild gigaHashName c s parent child m := by
  have server := inv.server s inside
  obtain ⟨mc, found', view⟩ := server.viewed
  obtain rfl : m = mc := Option.some.inj (found.symm.trans found')
  obtain ⟨set, j, below, -, rfl, clear⟩ := gigaIndexForSplitting_spec m parent _ splitChild
  rw [view.server ((mem_partitions _ _).mpr set), server.srvId] at owner
  subst owner
  have childBelow : parent + 2 ^ j < c.size :=
    view.count ▸ child_lt_of_splittable allowed splitChild
  refine ⟨rfl, parent_add_pow_of_lt parent j below, childBelow, ?_, ?_, fun known => ?_⟩
  · rw [gigaGetServerForIndex, view.zeroth, view.count, Nat.add_zero, Nat.mod_eq_of_lt childBelow]
  · have := Nat.two_pow_pos j
    omega
  · -- the server of the parent would hold the child, which its mapping does not
    obtain ⟨t, tInside, onT⟩ := (mem_knownPartitions gigaHashName c rootDirId _).mp known
    have held := inv.children t tInside _ onT
    rw [parent_add_pow_of_lt parent j below, viewPartitions_of_view gigaHashName found,
      mem_partitions, clear] at held
    cases held

variable (gigaHashName)

theorem rootServers_split (inv : RootInv gigaHashName c) {s parent deleted : ℕ}
    {run : InsertSplitRun} {zerothReached : Bool} {now : ℕ} (inside : s < c.size)
    (scheduled : Schedulable gigaHashName c (.split s rootDirId parent deleted run zerothReached now))
    (done : split gigaHashName c s rootDirId parent deleted run zerothReached now = some c') :
    ∃ child, Grows gigaHashName (insert child (viewPartitions gigaHashName (c.servers s) rootDirId))
        c c' rootDirId ∧ PrefixTree.parent child = s ∧
      RootServers gigaHashName c.size c' ∧
      child ∈ viewPartitions gigaHashName (c'.servers s) rootDirId ∧
      (zerothReached = true → child ∈ viewPartitions gigaHashName (c'.servers 0) rootDirId) := by
  obtain ⟨m, found, owner, allowed⟩ := scheduled
  obtain ⟨m₀, child, fetched, splitChild, branch⟩ := split_cases gigaHashName done
  obtain rfl : m = m₀ := Option.some.inj (found.symm.trans (view_of_fetchDir gigaHashName fetched))
  -- the views grow by the child `giga_index_for_splitting` picks on the server's mapping
  obtain ⟨child', ⟨m', found', split'⟩, -, -, grows⟩ := split_grows gigaHashName done
  obtain rfl : m = m' := Option.some.inj (found.symm.trans found')
  obtain rfl : child = child' := Option.some.inj (splitChild.symm.trans split')
  have grown := grows rootDirId
  rw [if_pos rfl] at grown
  have shape := inv.scheduledChild inside found owner allowed splitChild
  obtain rfl := shape.parent_eq
  have server := inv.server parent inside
  obtain ⟨mc, foundC, rootView⟩ := server.viewed
  obtain rfl : m = mc := Option.some.inj (found.symm.trans foundC)
  have small := inv.small
  have fits : child < capacity := by
    rw [capacity_eq]
    have := shape.below
    omega
  refine ⟨child, grown, shape.up, ?_⟩
  rcases branch with ⟨-, mdb, ret, records, c₂, srv, m', extracted, inserted, recorded, done⟩ |
    ⟨here, -⟩
  · -- the extraction only deletes names, and keeps every bitmap record
    obtain ⟨keys, rfl⟩ := metadbExtractDo_deletes extracted
    obtain ⟨keep, -, -⟩ := metadbExtractDo_frame extracted (Int.natCast_nonneg parent)
    set extractedSrv : MetadataServer :=
      { c.servers parent with mdb := deleteAll (c.servers parent).mdb keys }
    have extracted₁ : RootServer gigaHashName c.size parent extractedSrv :=
      server.same (congrFun (view_of_records gigaHashName keep) rootDirId) rfl
        (namesFrom_deleteAll keys)
    have found₁ : view gigaHashName extractedSrv rootDirId = some m := by
      rw [view_of_records gigaHashName keep]
      exact found
    -- the records it hands on are names that move to the child
    have moved : ∀ r ∈ records, r.1.partitionId = (child : ℤ) ∧
        hashKey r.1.nameHash % 2 ^ Nat.size child = child := by
      intro r mem
      obtain ⟨-, part, status, migration, moves⟩ := metadbExtractDo_moves extracted r mem
      rw [giga_file_migration_status_eq _ _ (Nat.lt_of_lt_of_le shape.below small),
        Option.some.injEq] at migration
      refine ⟨part, ?_⟩
      by_contra off
      rw [if_neg off] at migration
      exact moves migration.symm
    -- `InsertSplit`, if it is sent, changes the child's server only
    have stage₂ : RootServers gigaHashName c.size c₂ ∧ c₂.servers parent = extractedSrv := by
      rw [shape.server] at inserted
      split at inserted
      · obtain ⟨servers₂, others⟩ := (inv.server.set extracted₁).insertSplitRemote small
          shape.below inserted moved
        exact ⟨servers₂, by rw [others parent (Ne.symm shape.apart), Cluster.set_self]⟩
      · cases inserted
        exact ⟨inv.server.set extracted₁, Cluster.set_self _ _ _⟩
    obtain ⟨servers₂, atParent⟩ := stage₂
    -- the parent records the child over the mapping it split
    rw [atParent] at recorded
    obtain ⟨update, recached⟩ := recordChild_recached gigaHashName recorded
    have view' := rootView.update small shape.below update
    have servers₃ := servers₂.set (extracted₁.recached found₁ recached view'
      (by rw [partitions_gigaUpdateMapping fits update]; exact Finset.subset_insert _ _))
    have recorded' : child ∈ partitions m'.bitmap := by
      rw [partitions_gigaUpdateMapping fits update]
      exact Finset.mem_insert_self _ _
    -- and sends it to the zeroth server, server 0
    rw [view'.zeroth] at done
    obtain ⟨servers', atZero⟩ := servers₃.updateBitmapRemote (Nat.zero_lt_of_lt inside) view' done
    refine ⟨servers', ?_, fun reached => atZero reached recorded'⟩
    have recordedChild : child ∈
        viewPartitions gigaHashName ((c₂.set parent srv).servers parent) rootDirId := by
      rw [Cluster.set_self, viewPartitions_of_view gigaHashName recached.view_self]
      exact recorded'
    exact ((updateBitmapRemote_grows gigaHashName done rootDirId).server parent).keep
      recordedChild
  · rw [server.srvId, shape.server] at here
    exact absurd here.symm shape.apart

variable {gigaHashName}

theorem rootInv_split (inv : RootInv gigaHashName c) {s parent deleted : ℕ}
    {run : InsertSplitRun} {zerothReached : Bool} {now : ℕ} (inside : s < c.size)
    (scheduled : Schedulable gigaHashName c (.split s rootDirId parent deleted run zerothReached now))
    (done : split gigaHashName c s rootDirId parent deleted run zerothReached now = some c')
    (closed : ∀ i ∈ knownPartitions gigaHashName c' rootDirId,
      PrefixTree.parent i ∈ knownPartitions gigaHashName c' rootDirId) :
    RootInv gigaHashName c' := by
  obtain ⟨child, grown, up, servers, known, -⟩ :=
    rootServers_split gigaHashName inv inside scheduled done
  refine inv.of_grows grown servers (fun i mem => ?_) closed
  rcases Finset.mem_insert.mp mem with rfl | old
  · exact .inr (by rw [up]; exact known)
  · exact .inl (viewPartitions_subset_known gigaHashName inside rootDirId old)

theorem rootInv_other (inv : RootInv gigaHashName c) {s dirId parent deleted : ℕ}
    {run : InsertSplitRun} {zerothReached : Bool} {now : ℕ} (other : dirId ≠ rootDirId)
    (done : split gigaHashName c s dirId parent deleted run zerothReached now = some c')
    (closed : ∀ i ∈ knownPartitions gigaHashName c' rootDirId,
      PrefixTree.parent i ∈ knownPartitions gigaHashName c' rootDirId) :
    RootInv gigaHashName c' := by
  have only := split_onlyDir gigaHashName done
  exact inv.of_grows (split_grows_other gigaHashName done other)
    (fun t inside => (inv.server t inside).onlyDir other (only.server t))
    (fun i mem => by simp at mem) closed

variable (gigaHashName) in
structure SameRoot (c c' : Cluster) : Prop where
  size : c'.size = c.size
  srvId : ∀ t, (c'.servers t).srvId = (c.servers t).srvId
  view : ∀ t, view gigaHashName (c'.servers t) rootDirId = view gigaHashName (c.servers t) rootDirId
  names : ∀ t, NamesFrom (fun _ => False) (c.servers t).mdb (c'.servers t).mdb

theorem SameRoot.grows (same : SameRoot gigaHashName c c') (extra : Finset ℕ) :
    Grows gigaHashName extra c c' rootDirId :=
  ⟨same.size, fun t => ViewGrows.of_eq gigaHashName (same.view t)⟩

theorem RootInv.of_sameRoot (inv : RootInv gigaHashName c) (same : SameRoot gigaHashName c c')
    (closed : ∀ i ∈ knownPartitions gigaHashName c' rootDirId,
      PrefixTree.parent i ∈ knownPartitions gigaHashName c' rootDirId) :
    RootInv gigaHashName c' :=
  inv.of_grows (same.grows ∅)
    (fun t inside => (inv.server t inside).same (same.view t) (same.srvId t) (same.names t))
    (fun i mem => by simp at mem) closed

theorem sameRoot_set {s : ℕ} {srv : MetadataServer} (srvId : srv.srvId = (c.servers s).srvId)
    (same : view gigaHashName srv rootDirId = view gigaHashName (c.servers s) rootDirId)
    (names : NamesFrom (fun _ => False) (c.servers s).mdb srv.mdb) :
    SameRoot gigaHashName c (c.set s srv) := by
  refine ⟨rfl, fun t => ?_, fun t => ?_, fun t => ?_⟩ <;> by_cases here : t = s
  · subst here
    rw [Cluster.set_self]
    exact srvId
  · rw [Cluster.set_of_ne c srv here]
  · subst here
    rw [Cluster.set_self]
    exact same
  · rw [Cluster.set_of_ne c srv here]
  · subst here
    rw [Cluster.set_self]
    exact names
  · rw [Cluster.set_of_ne c srv here]
    exact NamesFrom.refl _ _

theorem sameRoot_evict {s dirId : ℕ} (keeps : KeepsRoot gigaHashName c (.evict s dirId))
    (stepped : step gigaHashName c (.evict s dirId) = some c') : SameRoot gigaHashName c c' := by
  obtain ⟨-, -, rfl⟩ := step_evict stepped
  refine sameRoot_set rfl ?_ (NamesFrom.refl _ _)
  by_cases root : dirId = rootDirId
  · subst root
    rw [view_evict_self]
    exact keeps rfl
  · exact view_evict_of_ne _ (Ne.symm root)

theorem sameRoot_restart (inv : RootInv gigaHashName c) {s : ℕ} {cwd : Stat} {now : ℕ}
    (keeps : KeepsRoot gigaHashName c (.restart s cwd now))
    (stepped : step gigaHashName c (.restart s cwd now) = some c') : SameRoot gigaHashName c c' := by
  obtain ⟨inside, srv, restarted, rfl⟩ := step_restart stepped
  obtain ⟨m, found, -⟩ := (inv.server s inside).viewed
  obtain ⟨found', keys⟩ := restartServer_recorded restarted (keeps.trans found)
  -- which servers run does not enter `SameRoot`
  have same := sameRoot_set (restartServer_fresh restarted).1 (found'.trans found.symm)
    (NamesFrom.of_keep fun key _ => keys key)
  exact ⟨same.size, same.srvId, same.view, same.names⟩

theorem rootInv_step (inv : RootInv gigaHashName c) (coherent : ∀ s, Coherent (c.servers s))
    {a : Action} (scheduled : Schedulable gigaHashName c a) (keeps : KeepsRoot gigaHashName c a)
    (stepped : step gigaHashName c a = some c') : RootInv gigaHashName c' := by
  have closed := step_grows_closed gigaHashName coherent stepped rootDirId inv.closed
  cases a with
  | request s req =>
    obtain ⟨inside, -, srv, served, rfl⟩ := step_request stepped
    refine inv.of_grows (grows_set gigaHashName (serve_grows gigaHashName served rootDirId))
      (inv.server.set ((inv.server s inside).serve inv.small served)) (fun i mem => ?_) closed
    rw [Finset.mem_singleton.mp mem]
    exact .inl (inv.zero_known (Nat.zero_lt_of_lt inside))
  | split s dirId parent deleted run zerothReached now =>
    obtain ⟨inside, -, split⟩ := step_split stepped
    by_cases root : dirId = rootDirId
    · subst root
      exact rootInv_split inv inside scheduled split closed
    · exact rootInv_other inv root split closed
  | evict s dirId => exact inv.of_sameRoot (sameRoot_evict keeps stepped) closed
  | restart s cwd now => exact inv.of_sameRoot (sameRoot_restart inv keeps stepped) closed

theorem rootInv_reach (reach : ScheduledReach gigaHashName c) (small : c.size ≤ 128) :
    RootInv gigaHashName c := by
  refine @Reachable.invariant_reach _ _ _ (fun c => c.size ≤ 128 → RootInv gigaHashName c) ?_ ?_
    _ reach small
  · rintro _ ⟨size, now, cwd, pos, rfl⟩ small
    exact rootInv_boot gigaHashName pos small now cwd
  · rintro c c' before invariant ⟨a, scheduled, keeps, stepped⟩ small'
    have coherent := (servers_coherent_reach gigaHashName (ScheduledReach.reach before)).coherent
    exact rootInv_step (invariant (step_size gigaHashName stepped ▸ small')) coherent scheduled
      keeps stepped

end Deployment

/-! ### One server for each name -/

section Owner

variable (gigaHashName : List UInt8 → Hash)

theorem loaded_split_scheduled (t : ℕ) (cwd : ℕ → Stat) (now₁ deleted now₂ : ℕ)
    (zerothReached : Bool) {name : List UInt8} (odd : hashKey (gigaHashName name) % 2 = 1) :
    ∃ c₁ c₂, step gigaHashName (boot gigaHashName 2 t cwd)
        (.request 0 (.mknod rootDirId name now₁)) = some c₁ ∧
      Schedulable gigaHashName c₁ (.split 0 rootDirId 0 deleted .loaded zerothReached now₂) ∧
      step gigaHashName c₁ (.split 0 rootDirId 0 deleted .loaded zerothReached now₂) = some c₂ ∧
      ScheduledReach gigaHashName c₂ ∧ c₂.size = 2 ∧ c₂.stopped = ∅ ∧
      view gigaHashName (c₂.servers 0) rootDirId = some splitRoot ∧
      view gigaHashName (c₂.servers 1) rootDirId = some splitRoot ∧
      ((c₂.servers 1).mdb.get ⟨rootDirId, 1, gigaHashName name⟩).isSome := by
  obtain ⟨c₁, c₂, stepped₁, view₁, srvId₁, stepped₂, size, stopped, view₀, -, view₂, -, held⟩ :=
    loaded_split_moves_entry gigaHashName t cwd now₁ deleted now₂ zerothReached odd
  have scheduled : Schedulable gigaHashName c₁
      (.split 0 rootDirId 0 deleted .loaded zerothReached now₂) :=
    ⟨_, view₁, by rw [srvId₁]; decide, by decide⟩
  refine ⟨c₁, c₂, stepped₁, scheduled, stepped₂, ?_, size, stopped, view₀, view₂, held⟩
  exact .step (.step (.init ⟨2, t, cwd, by decide, rfl⟩)
    ⟨.request 0 (.mknod rootDirId name now₁), trivial, trivial, stepped₁⟩)
    ⟨_, scheduled, trivial, stepped₂⟩

/-- In every deployment of `n ≤ 128` servers that scheduled splits reach, whatever became of
their RPCs and deletes, a server accepts a name of the root only at the partition the union
of all servers' mappings looks the name up at, and that partition is the server's own
number. So at most one server accepts any name. -/
theorem root_name_has_one_server {c : Cluster} (reach : ScheduledReach gigaHashName c)
    (small : c.size ≤ 128) {s : ℕ} (inside : s < c.size) {mapping : GigaMapping}
    (found : view gigaHashName (c.servers s) rootDirId = some mapping) (name : List UInt8)
    {index : ℤ} (accepted : checkAddressing gigaHashName (c.servers s) mapping name = some index)
    (nonneg : 0 ≤ index) :
    index = s ∧
      PrefixTree.lookup (knownPartitions gigaHashName c rootDirId) (hashKey (gigaHashName name)) = s := by
  have inv := rootInv_reach reach small
  obtain ⟨here, looked⟩ := (inv.server s inside).accepted inv.small found accepted nonneg
  exact ⟨here, inv.lookup_known inside found looked⟩

theorem root_name_has_one_server_after_split :
    ∃ c, ScheduledReach firstByteHash c ∧ view firstByteHash (c.servers 1) rootDirId = some splitRoot ∧
      checkAddressing firstByteHash (c.servers 1) splitRoot [129] = some 1 ∧
      ((1 : ℤ) = ((1 : ℕ) : ℤ) ∧
        PrefixTree.lookup (knownPartitions firstByteHash c rootDirId)
          (hashKey (firstByteHash [129])) = 1) := by
  obtain ⟨c₁, c, -, -, -, reach, size, -, -, view₁, -⟩ :=
    loaded_split_scheduled firstByteHash 0 (fun _ => default) 0 0 0 true
      (show hashKey (firstByteHash [128]) % 2 = 1 by decide)
  have srvId : (c.servers 1).srvId = 1 :=
    (servers_coherent_reach firstByteHash (ScheduledReach.reach reach)).srvId 1
  have accepted : checkAddressing firstByteHash (c.servers 1) splitRoot [129] = some 1 := by
    rw [checkAddressing_splitRoot, srvId]
    rfl
  exact ⟨c, reach, view₁, accepted, root_name_has_one_server firstByteHash reach (by omega)
    (by omega) view₁ [129] accepted (by decide)⟩

/-- In every such deployment, each name of the root a server stores sits at the server's
own partition, a partition some server knows, on the path from the root to the partition
the union of all mappings looks the name up at. -/
theorem root_names_stored_on_path {c : Cluster} (reach : ScheduledReach gigaHashName c)
    (small : c.size ≤ 128) {t : ℕ} (inside : t < c.size) (key : MetadbKey)
    (root : key.parentId = rootDirId) (nonneg : 0 ≤ key.partitionId)
    (held : ((c.servers t).mdb.get key).isSome) :
    key.partitionId = t ∧ t ∈ knownPartitions gigaHashName c rootDirId ∧
      Ancestor t (PrefixTree.lookup (knownPartitions gigaHashName c rootDirId)
        (hashKey key.nameHash)) := by
  have inv := rootInv_reach reach small
  obtain ⟨part, mem, on⟩ := (inv.server t inside).placed key root nonneg held
  have known := viewPartitions_subset_known gigaHashName inside rootDirId mem
  exact ⟨part, known, ancestor_lookup (inv.zero_known (Nat.zero_lt_of_lt inside)) known on⟩

theorem root_names_stored_on_path_after_split :
    ∃ c, ScheduledReach firstByteHash c ∧
      ((c.servers 1).mdb.get ⟨rootDirId, 1, firstByteHash [128]⟩).isSome ∧
      ((⟨rootDirId, 1, firstByteHash [128]⟩ : MetadbKey).partitionId = ((1 : ℕ) : ℤ) ∧
        1 ∈ knownPartitions firstByteHash c rootDirId ∧
        Ancestor 1 (PrefixTree.lookup (knownPartitions firstByteHash c rootDirId)
          (hashKey (firstByteHash [128])))) := by
  obtain ⟨c₁, c, -, -, -, reach, size, -, -, -, held⟩ :=
    loaded_split_scheduled firstByteHash 0 (fun _ => default) 0 0 0 true
      (show hashKey (firstByteHash [128]) % 2 = 1 by decide)
  exact ⟨c, reach, held, root_names_stored_on_path firstByteHash reach (by omega) (by omega)
    ⟨rootDirId, 1, firstByteHash [128]⟩ rfl (by decide) held⟩

end Owner

/-! ### A server that reads its boot record back -/

section StaleRecord

variable (gigaHashName : List UInt8 → Hash)

/-- In every state a deployment reaches, a running server `s` whose bitmap record of the
root is still the one `InitRootPartition` wrote, with `s` as zeroth server, reads that
record back once its cache drops the root's mapping or it restarts. It then takes every
name of the root at partition 0, which for `s ≠ 0` is not its own. -/
theorem stale_root_record_takes_every_name {c : Cluster} (reach : Reach gigaHashName c) {s : ℕ}
    (inside : s < c.size) (running : s ∉ c.stopped)
    (stale : recordMapping (c.servers s) rootDirId = some (gigaInitMapping rootDirId s c.size))
    (cwd : Stat) (now : ℕ) :
    (∃ c', step gigaHashName c (.evict s rootDirId) = some c' ∧
      view gigaHashName (c'.servers s) rootDirId = some (gigaInitMapping rootDirId s c.size) ∧
      ∀ name, checkAddressing gigaHashName (c'.servers s) (gigaInitMapping rootDirId s c.size)
        name = some 0) ∧
    ∃ c', step gigaHashName c (.restart s cwd now) = some c' ∧
      view gigaHashName (c'.servers s) rootDirId = some (gigaInitMapping rootDirId s c.size) ∧
      ∀ name, checkAddressing gigaHashName (c'.servers s) (gigaInitMapping rootDirId s c.size)
        name = some 0 := by
  have srvId := (servers_coherent_reach gigaHashName reach).srvId s
  -- the boot mapping sends every name to partition 0, which it places on server `s`
  have takes : ∀ srv : MetadataServer, srv.srvId = s → ∀ name,
      checkAddressing gigaHashName srv (gigaInitMapping rootDirId s c.size) name = some 0 := by
    intro srv own name
    have placed : gigaGetServerForIndex (gigaInitMapping rootDirId s c.size) 0 = s := by
      simp only [gigaGetServerForIndex, gigaInitMapping, if_pos (Nat.zero_lt_of_lt inside),
        Nat.zero_add]
      exact Nat.mod_eq_of_lt inside
    simp [checkAddressing, gigaGetIndexForFile_of_initial (m := gigaInitMapping rootDirId s c.size)
      rfl, placed, own]
  constructor
  · refine ⟨_, by rw [step, if_pos ⟨inside, running⟩], ?_, takes _ ?_⟩
    · rw [Cluster.set_self, view_evict_self]
      exact stale
    · rw [Cluster.set_self]
      exact srvId
  · obtain ⟨srv, restarted⟩ : ∃ srv, restartServer gigaHashName (c.servers s) cwd now = some srv :=
      ⟨_, restartServer_of_recorded cwd now stale⟩
    obtain ⟨found, -⟩ := restartServer_recorded restarted stale
    refine ⟨_, by rw [step, if_pos inside, restarted, Option.map_some], ?_, takes _ ?_⟩
    · show view gigaHashName ((c.set s srv).servers s) rootDirId = _
      rw [Cluster.set_self]
      exact found
    · show ((c.set s srv).servers s).srvId = s
      rw [Cluster.set_self, (restartServer_fresh restarted).1]
      exact srvId

theorem stale_root_record_takes_every_name_after_mknod :
    ∃ c, Reach firstByteHash c ∧ 1 ∉ c.stopped ∧
      recordMapping (c.servers 1) rootDirId = some (gigaInitMapping rootDirId 1 c.size) ∧
      ((∃ c', step firstByteHash c (.evict 1 rootDirId) = some c' ∧
        view firstByteHash (c'.servers 1) rootDirId = some (gigaInitMapping rootDirId 1 c.size) ∧
        ∀ name, checkAddressing firstByteHash (c'.servers 1)
          (gigaInitMapping rootDirId 1 c.size) name = some 0) ∧
      ∃ c', step firstByteHash c (.restart 1 default 0) = some c' ∧
        view firstByteHash (c'.servers 1) rootDirId = some (gigaInitMapping rootDirId 1 c.size) ∧
        ∀ name, checkAddressing firstByteHash (c'.servers 1)
          (gigaInitMapping rootDirId 1 c.size) name = some 0) := by
  have stepped := mknod_boot firstByteHash 0 (fun _ => default) 0 [128]
  set c := (boot firstByteHash 2 0 fun _ => default).set 0 _
  have reach : Reach firstByteHash c := .step (.init ⟨2, 0, _, by decide, rfl⟩) ⟨_, stepped⟩
  have stale : recordMapping (c.servers 1) rootDirId = some (gigaInitMapping rootDirId 1 c.size) := by
    rw [Cluster.set_of_ne _ _ (by decide)]
    exact (recordMapping_bootServer firstByteHash 1 2 0 default rootDirId).trans (if_pos rfl)
  exact ⟨c, reach, Finset.notMem_empty 1, stale, stale_root_record_takes_every_name firstByteHash
    reach (by decide) (Finset.notMem_empty 1) stale default 0⟩

end StaleRecord

end IndexFS
