import IndexFS.Cluster.Placement

/-! What a split of the root guarantees when its RPCs arrive. A split whose `InsertSplit`
loads its records neither loses nor invents an entry of the root; when every split's
`UpdateBitmap` reaches server 0, its mapping of the root is the union of all mappings. -/
namespace IndexFS

open Giga Metadb PrefixTree Transition

/-! ### The entries of a directory -/

def serverEntries (dirId : ℕ) (srv : MetadataServer) : Set (Hash × MetadbVal) :=
  {e | ∃ key : MetadbKey, key.parentId = dirId ∧ 0 ≤ key.partitionId ∧ key.nameHash = e.1 ∧
    srv.mdb.get key = some e.2}

def dirEntries (dirId : ℕ) (c : Cluster) : Set (Hash × MetadbVal) :=
  {e | ∃ t < c.size, e ∈ serverEntries dirId (c.servers t)}

section Entries

variable {dirId : ℕ}

theorem serverEntries_of_keys {srv srv' : MetadataServer}
    (same : ∀ key : MetadbKey, 0 ≤ key.partitionId → srv'.mdb.get key = srv.mdb.get key) :
    serverEntries dirId srv' = serverEntries dirId srv := by
  ext e
  constructor
  · rintro ⟨key, parent, nonneg, hash, held⟩
    exact ⟨key, parent, nonneg, hash, by rwa [same key nonneg] at held⟩
  · rintro ⟨key, parent, nonneg, hash, held⟩
    exact ⟨key, parent, nonneg, hash, by rwa [same key nonneg]⟩

theorem Recached.entries {d : ℕ} {mapping : GigaMapping} {srv srv' : MetadataServer}
    (recached : Recached d mapping srv srv') : serverEntries dirId srv' = serverEntries dirId srv :=
  serverEntries_of_keys fun key nonneg => recached.keys key fun same => by
    rw [same] at nonneg
    exact absurd nonneg (by simp [recordKey])

theorem dirEntries_set {c : Cluster} {t : ℕ} {srv : MetadataServer}
    (same : serverEntries dirId srv = serverEntries dirId (c.servers t)) :
    dirEntries dirId (c.set t srv) = dirEntries dirId c := by
  ext e
  simp only [dirEntries, Set.mem_ofPred_eq, Cluster.set_size]
  refine exists_congr fun u => and_congr_right fun _ => ?_
  by_cases here : u = t
  · subst here
    rw [Cluster.set_self, same]
  · rw [Cluster.set_of_ne c srv here]

theorem dirEntries_subset_of_pair {c c' : Cluster} {s u : ℕ} (size : c.size ≤ c'.size)
    (atS : s < c'.size) (atU : u < c'.size)
    (others : ∀ t, t ≠ s → t ≠ u → c.servers t = c'.servers t)
    (pair : serverEntries dirId (c.servers s) ∪ serverEntries dirId (c.servers u) ⊆
      serverEntries dirId (c'.servers s) ∪ serverEntries dirId (c'.servers u)) :
    dirEntries dirId c ⊆ dirEntries dirId c' := by
  rintro e ⟨t, inside, held⟩
  by_cases onPair : t = s ∨ t = u
  · have moved : e ∈ serverEntries dirId (c.servers s) ∪ serverEntries dirId (c.servers u) := by
      rcases onPair with rfl | rfl
      · exact .inl held
      · exact .inr held
    rcases pair moved with inS | inU
    · exact ⟨s, atS, inS⟩
    · exact ⟨u, atU, inU⟩
  · obtain ⟨offS, offU⟩ := not_or.mp onPair
    rw [others t offS offU] at held
    exact ⟨t, Nat.lt_of_lt_of_le inside size, held⟩

theorem dirEntries_of_pair {c c' : Cluster} {s u : ℕ} (size : c'.size = c.size)
    (atS : s < c.size) (atU : u < c.size)
    (others : ∀ t, t ≠ s → t ≠ u → c'.servers t = c.servers t)
    (pair : serverEntries dirId (c'.servers s) ∪ serverEntries dirId (c'.servers u) =
      serverEntries dirId (c.servers s) ∪ serverEntries dirId (c.servers u)) :
    dirEntries dirId c' = dirEntries dirId c :=
  Set.Subset.antisymm
    (dirEntries_subset_of_pair size.le atS atU others pair.subset)
    (dirEntries_subset_of_pair size.ge (size ▸ atS) (size ▸ atU)
      (fun t onS onU => (others t onS onU).symm) pair.symm.subset)

theorem migrate_entries {parentSrv childSrv : MetadataServer} {old new deleted : ℕ}
    {migrated : List (Σ _ : MetadbKey, MetadbVal)}
    (source : ∀ r ∈ migrated, r.1.parentId = dirId ∧ r.1.partitionId = old ∧
      parentSrv.mdb.get r.1 = some r.2)
    (fresh : ∀ key : MetadbKey, key.parentId = dirId → key.partitionId = new →
      childSrv.mdb.get key = none) :
    serverEntries dirId
        { parentSrv with mdb := deleteAll parentSrv.mdb ((migrated.take deleted).map Sigma.fst) } ∪
      serverEntries dirId { childSrv with
        mdb := putAll childSrv.mdb (migrated.map fun r => ⟨constructNewKey r.1 new, r.2⟩) } =
    serverEntries dirId parentSrv ∪ serverEntries dirId childSrv := by
  set records : List (Σ _ : MetadbKey, MetadbVal) :=
    migrated.map fun r => ⟨constructNewKey r.1 new, r.2⟩
  -- two records under one new key come from one entry of the old partition
  have distinct : ∀ a ∈ records, ∀ b ∈ records, a.1 = b.1 → a = b := by
    intro a inA b inB same
    obtain ⟨ra, fromA, rfl⟩ := List.mem_map.mp inA
    obtain ⟨rb, fromB, rfl⟩ := List.mem_map.mp inB
    obtain ⟨-, partA, getA⟩ := source ra fromA
    obtain ⟨-, partB, getB⟩ := source rb fromB
    have key : ra.1 = rb.1 := constructNewKey_inj same (partA.trans partB.symm)
    rw [key] at getA
    have value : ra.2 = rb.2 := Option.some.inj (getA.symm.trans getB)
    simp only [key, value]
  ext ⟨hash, val⟩
  constructor
  · rintro (⟨key, parent, nonneg, rfl, held⟩ | ⟨key, parent, nonneg, rfl, held⟩)
    · -- what the parent keeps it held before
      change (deleteAll parentSrv.mdb _).get key = some val at held
      rw [get_deleteAll] at held
      split at held
      · cases held
      · exact .inl ⟨key, parent, nonneg, rfl, held⟩
    · -- the child reads a record the parent handed on, or what it held
      rcases get_putAll _ _ held with put | old
      · obtain ⟨r, inside, same⟩ := List.mem_map.mp put
        cases same
        obtain ⟨under, part, got⟩ := source r inside
        exact .inl ⟨r.1, under, by rw [part]; omega, rfl, got⟩
      · exact .inr ⟨key, parent, nonneg, rfl, old⟩
  · rintro (⟨key, parent, nonneg, rfl, held⟩ | ⟨key, parent, nonneg, rfl, held⟩)
    · by_cases gone : key ∈ (migrated.take deleted).map Sigma.fst
      · -- a deleted entry was migrated, and the child holds it under the new partition
        obtain ⟨r, taken, rfl⟩ := List.mem_map.mp gone
        have inside := List.mem_of_mem_take taken
        obtain ⟨under, -, got⟩ := source r inside
        obtain rfl : r.2 = val := Option.some.inj (got.symm.trans held)
        exact .inr ⟨constructNewKey r.1 new, under, by simp [constructNewKey], rfl,
          get_putAll_of_mem _ distinct (List.mem_map_of_mem inside)⟩
      · refine .inl ⟨key, parent, nonneg, rfl, ?_⟩
        change (deleteAll parentSrv.mdb _).get key = some val
        rw [get_deleteAll, if_neg gone]
        exact held
    · -- what the child held stays, since none of it is under the new partition
      refine .inr ⟨key, parent, nonneg, rfl, ?_⟩
      change (putAll childSrv.mdb records).get key = some val
      rw [get_putAll_of_not_mem _ _ _ fun put => ?_]
      · exact held
      · simp only [records, List.map_map, List.mem_map] at put
        obtain ⟨r, inside, rfl⟩ := put
        cases held.symm.trans (fresh _ (source r inside).1 rfl)

end Entries

/-! ### Delivered splits of the root -/

section Delivery

variable (gigaHashName : List UInt8 → Hash) {c c' : Cluster}

theorem updateBitmapRemote_entries {zerothServer d : ℕ} {mapping : GigaMapping} {reached : Bool}
    (done : updateBitmapRemote gigaHashName c zerothServer d mapping reached = some c')
    (dirId : ℕ) : dirEntries dirId c' = dirEntries dirId c := by
  rcases updateBitmapRemote_cases gigaHashName done with
    ⟨-, rfl⟩ | ⟨-, -, -, rfl⟩ | ⟨-, -, srv, result, updated, rfl⟩
  · rfl
  · rfl
  · rcases updateBitmap_cases updated with rfl | ⟨merged, recached⟩
    · exact dirEntries_set rfl
    · exact dirEntries_set recached.entries

variable {gigaHashName}

theorem rootSplit_entries (inv : RootInv gigaHashName c) {s parent deleted : ℕ}
    {zerothReached : Bool} {now : ℕ} (inside : s < c.size)
    (scheduled : Schedulable gigaHashName c
      (.split s rootDirId parent deleted .loaded zerothReached now))
    (done : split gigaHashName c s rootDirId parent deleted .loaded zerothReached now = some c') :
    dirEntries rootDirId c' = dirEntries rootDirId c := by
  obtain ⟨m, found, owner, allowed⟩ := scheduled
  obtain ⟨m₀, child, fetched, splitChild, branch⟩ := split_cases gigaHashName done
  obtain rfl : m = m₀ := Option.some.inj (found.symm.trans (view_of_fetchDir gigaHashName fetched))
  have shape := inv.scheduledChild inside found owner allowed splitChild
  obtain rfl := shape.parent_eq
  rcases branch with ⟨-, mdb, ret, records, c₂, srv, m', extracted, inserted, recorded, done⟩ |
    ⟨here, -⟩
  · -- the parent's record of the child and the `UpdateBitmap` write bitmap records only
    rw [updateBitmapRemote_entries gigaHashName done,
      dirEntries_set (recordChild_recached gigaHashName recorded).2.entries]
    obtain ⟨keep, -, movedTo⟩ := metadbExtractDo_frame extracted (Int.natCast_nonneg parent)
    obtain ⟨migrated, source, rfl, rfl, rfl⟩ := metadbExtractDo_migrates extracted
    rw [shape.server] at inserted
    split at inserted
    · -- the extraction leaves the parent's view, so every server still holds its part
      have extracted₁ := (inv.server parent inside).same
        (congrFun (view_of_records gigaHashName keep) rootDirId) rfl (namesFrom_deleteAll _)
      have nonneg : ∀ r ∈ migrated.map (fun r => (⟨constructNewKey r.1 child, r.2⟩ :
          Σ _ : MetadbKey, MetadbVal)), 0 ≤ r.1.partitionId := fun r mem => by
        rw [movedTo r mem]
        exact Int.natCast_nonneg _
      obtain ⟨srvC, loaded, rfl⟩ := (inv.server.set extracted₁).insertSplitRemote_loaded inv.small
        shape.below inserted nonneg
      rw [Cluster.set_of_ne c _ shape.apart] at loaded
      obtain ⟨current, found', -⟩ := (inv.server child shape.below).viewed
      obtain ⟨mapping, -, recached⟩ := insertSplit_found
        (by rw [view_putAll gigaHashName _ _ nonneg]; exact found') loaded
      -- the child's server holds no entry of the root: its partition is not known yet
      have fresh : ∀ key : MetadbKey, key.parentId = rootDirId → key.partitionId = child →
          (c.servers child).mdb.get key = none := by
        intro key root part
        cases held : (c.servers child).mdb.get key with
        | none => rfl
        | some val =>
          obtain ⟨-, onView, -⟩ := (inv.server child shape.below).placed key root
            (by rw [part]; omega) (by rw [held]; rfl)
          exact absurd (viewPartitions_subset_known gigaHashName shape.below rootDirId onView)
            shape.fresh
      refine dirEntries_of_pair (s := parent) (u := child) rfl inside shape.below
        (fun t onS onU => by rw [Cluster.set_of_ne _ _ onU, Cluster.set_of_ne _ _ onS]) ?_
      rw [Cluster.set_of_ne _ _ (Ne.symm shape.apart), Cluster.set_self, Cluster.set_self,
        recached.entries, serverEntries_of_keys fun key _ => rfl]
      exact migrate_entries source fresh
    · -- nothing migrated, so nothing was deleted
      rename_i none
      obtain rfl : migrated = [] := List.length_eq_zero_iff.mp (by omega)
      cases inserted
      exact dirEntries_set (serverEntries_of_keys fun key _ => by simp [deleteAll])
  · rw [(inv.server parent inside).srvId, shape.server] at here
    exact absurd here.symm shape.apart

/-- In every deployment of at most 128 servers that scheduled splits reach, a split of the
root whose `InsertSplit` loads its records on the child's server neither loses nor invents
an entry of the root, whichever of its deletes were written and whether or not its
`UpdateBitmap` arrived. -/
theorem delivered_split_keeps_root_entries (reach : ScheduledReach gigaHashName c)
    (small : c.size ≤ 128) {s parent deleted : ℕ} {zerothReached : Bool} {now : ℕ}
    (scheduled : Schedulable gigaHashName c
      (.split s rootDirId parent deleted .loaded zerothReached now))
    (stepped : step gigaHashName c (.split s rootDirId parent deleted .loaded zerothReached now) =
      some c') :
    dirEntries rootDirId c' = dirEntries rootDirId c := by
  obtain ⟨inside, -, split⟩ := step_split stepped
  exact rootSplit_entries (rootInv_reach reach small) inside scheduled split

/-- The split of a root that holds a name with an odd hash key, which moves to server 1. -/
theorem delivered_split_keeps_root_entries_moving_name :
    ∃ c c', ScheduledReach firstByteHash c ∧
      Schedulable firstByteHash c (.split 0 rootDirId 0 0 .loaded true 0) ∧
      step firstByteHash c (.split 0 rootDirId 0 0 .loaded true 0) = some c' ∧
      ((c'.servers 1).mdb.get ⟨rootDirId, 1, firstByteHash [128]⟩).isSome ∧
      dirEntries rootDirId c' = dirEntries rootDirId c := by
  obtain ⟨c, c', stepped₁, scheduled, stepped₂, -, -, -, -, -, held⟩ :=
    loaded_split_scheduled firstByteHash 0 (fun _ => default) 0 0 0 true
      (show hashKey (firstByteHash [128]) % 2 = 1 by decide)
  have reach : ScheduledReach firstByteHash c := .step (.init ⟨2, 0, _, by decide, rfl⟩)
    ⟨.request 0 (.mknod rootDirId [128] 0), trivial, trivial, stepped₁⟩
  exact ⟨c, c', reach, scheduled, stepped₂, held, delivered_split_keeps_root_entries reach
    (by rw [step_size firstByteHash stepped₁]; decide) scheduled stepped₂⟩

end Delivery

/-! ### The zeroth server -/

section Zeroth

variable (gigaHashName : List UInt8 → Hash) {c c' : Cluster}

def ReachesZeroth : Action → Prop
  | .split _ dirId _ _ _ zerothReached _ => dirId = rootDirId → zerothReached = true
  | _ => True

/-- The deployments scheduled splits reach when no `UpdateBitmap` of the root fails. -/
def ZerothReach : Cluster → Prop :=
  Reachable (fun c => ∃ size now cwd, 0 < size ∧ c = boot gigaHashName size now cwd)
    fun c c' => ∃ a, Schedulable gigaHashName c a ∧ KeepsRoot gigaHashName c a ∧
      ReachesZeroth a ∧ step gigaHashName c a = some c'

theorem ZerothReach.scheduled (reach : ZerothReach gigaHashName c) :
    ScheduledReach gigaHashName c :=
  Reachable.mono (fun _ _ ⟨a, scheduled, keeps, _, stepped⟩ => ⟨a, scheduled, keeps, stepped⟩)
    reach

theorem zeroth_of_grows {extra : Finset ℕ} (pos : 0 < c.size)
    (zeroth : viewPartitions gigaHashName (c.servers 0) rootDirId =
      knownPartitions gigaHashName c rootDirId)
    (grows : Grows gigaHashName extra c c' rootDirId)
    (fresh : ∀ i ∈ extra, i ∈ knownPartitions gigaHashName c rootDirId ∨
      i ∈ viewPartitions gigaHashName (c'.servers 0) rootDirId) :
    viewPartitions gigaHashName (c'.servers 0) rootDirId =
      knownPartitions gigaHashName c' rootDirId := by
  refine Finset.Subset.antisymm
    (viewPartitions_subset_known gigaHashName (grows.size ▸ pos) rootDirId) fun i known => ?_
  have kept : i ∈ knownPartitions gigaHashName c rootDirId →
      i ∈ viewPartitions gigaHashName (c'.servers 0) rootDirId := fun had =>
    (grows.server 0).keep (by rw [zeroth]; exact had)
  rcases Finset.mem_union.mp (grows.known_bound gigaHashName known) with old | new
  · exact kept old
  · rcases fresh i new with had | direct
    · exact kept had
    · exact direct

theorem zeroth_step (inv : RootInv gigaHashName c) (pos : 0 < c.size)
    (zeroth : viewPartitions gigaHashName (c.servers 0) rootDirId =
      knownPartitions gigaHashName c rootDirId)
    {a : Action} (scheduled : Schedulable gigaHashName c a) (keeps : KeepsRoot gigaHashName c a)
    (reaches : ReachesZeroth a) (stepped : step gigaHashName c a = some c') :
    viewPartitions gigaHashName (c'.servers 0) rootDirId =
      knownPartitions gigaHashName c' rootDirId := by
  have none : ∀ i ∈ (∅ : Finset ℕ), i ∈ knownPartitions gigaHashName c rootDirId ∨
      i ∈ viewPartitions gigaHashName (c'.servers 0) rootDirId := fun i mem => by simp at mem
  cases a with
  | request s req =>
    obtain ⟨-, -, srv, served, rfl⟩ := step_request stepped
    refine zeroth_of_grows gigaHashName pos zeroth
      (grows_set gigaHashName (serve_grows gigaHashName served rootDirId)) fun i mem => ?_
    rw [Finset.mem_singleton.mp mem]
    exact .inl (inv.zero_known pos)
  | split s dirId parent deleted run zerothReached now =>
    obtain ⟨inside, -, split⟩ := step_split stepped
    by_cases root : dirId = rootDirId
    · -- the split sends the zeroth server a mapping that holds the child
      subst root
      obtain ⟨child, grown, -, -, -, atZero⟩ :=
        rootServers_split gigaHashName inv inside scheduled split
      refine zeroth_of_grows gigaHashName pos zeroth grown fun i mem => ?_
      rcases Finset.mem_insert.mp mem with rfl | old
      · exact .inr (atZero (reaches rfl))
      · exact .inl (viewPartitions_subset_known gigaHashName inside rootDirId old)
    · exact zeroth_of_grows gigaHashName pos zeroth (split_grows_other gigaHashName split root) none
  | evict s dirId =>
    exact zeroth_of_grows gigaHashName pos zeroth ((sameRoot_evict keeps stepped).grows ∅) none
  | restart s cwd now =>
    exact zeroth_of_grows gigaHashName pos zeroth ((sameRoot_restart inv keeps stepped).grows ∅)
      none

/-- In every deployment of at most 128 servers that scheduled splits reach when every
`UpdateBitmap` of the root reaches the zeroth server, whatever became of the `InsertSplit`s
and the deletes, server 0's mapping of the root holds exactly the partitions some server
knows. -/
theorem zeroth_server_knows_root (reach : ZerothReach gigaHashName c) (small : c.size ≤ 128) :
    viewPartitions gigaHashName (c.servers 0) rootDirId =
      knownPartitions gigaHashName c rootDirId := by
  induction reach with
  | init start =>
    obtain ⟨size, now, cwd, pos, rfl⟩ := start
    rw [viewPartitions_boot, knownPartitions_boot gigaHashName pos]
  | step before next ih =>
    obtain ⟨a, scheduled, keeps, reaches, stepped⟩ := next
    have small' := step_size gigaHashName stepped ▸ small
    have scheduledBefore := ZerothReach.scheduled gigaHashName before
    exact zeroth_step gigaHashName (rootInv_reach scheduledBefore small') scheduledBefore.size_pos
      (ih small') scheduled keeps reaches stepped

theorem zeroth_server_knows_root_after_split :
    ∃ c, ZerothReach firstByteHash c ∧
      view firstByteHash (c.servers 0) rootDirId = some splitRoot ∧
      viewPartitions firstByteHash (c.servers 0) rootDirId =
        knownPartitions firstByteHash c rootDirId := by
  obtain ⟨c₁, c, stepped₁, scheduled, stepped₂, -, size, -, view₀, -⟩ :=
    loaded_split_scheduled firstByteHash 0 (fun _ => default) 0 0 0 true
      (show hashKey (firstByteHash [128]) % 2 = 1 by decide)
  have reach : ZerothReach firstByteHash c := .step (.step (.init ⟨2, 0, _, by decide, rfl⟩)
    ⟨.request 0 (.mknod rootDirId [128] 0), trivial, trivial, trivial, stepped₁⟩)
    ⟨_, scheduled, trivial, fun _ => rfl, stepped₂⟩
  exact ⟨c, reach, view₀, zeroth_server_knows_root firstByteHash reach (by omega)⟩

end Zeroth

/-! ### The root's mapping on the wire -/

section Wire

variable (gigaHashName : List UInt8 → Hash) {c : Cluster}

theorem RootView.sendable {n : ℕ} {m : GigaMapping} (small : n < 2 ^ 15) (view : RootView n m) :
    m.Sendable where
  id := by
    rw [view.named]
    decide
  radix := by
    have := view.radix
    omega
  zeroth := by
    rw [view.zeroth]
    decide
  count := by
    rw [view.count]
    exact small

/-- In every deployment of at most 128 servers that scheduled splits reach, the root's
mapping on every server survives the wire: `CopyMapping` of its `CopyGigaMap` is the mapping
itself, so the `UpdateBitmap`s, `InsertSplit`s and redirections that carry it deliver it
unchanged. -/
theorem root_mapping_survives_the_wire (reach : ScheduledReach gigaHashName c)
    (small : c.size ≤ 128) {s : ℕ} (inside : s < c.size) {m : GigaMapping}
    (found : view gigaHashName (c.servers s) rootDirId = some m) :
    copyMapping (copyGigaMap m) = some m := by
  obtain ⟨m', found', root⟩ := ((rootInv_reach reach small).server s inside).viewed
  obtain rfl : m = m' := Option.some.inj (found.symm.trans found')
  exact copyMapping_copyGigaMap (root.sendable (by omega))

/-- On server 1, which has just loaded the root's first child. -/
theorem root_mapping_survives_the_wire_after_split :
    ∃ c, ScheduledReach firstByteHash c ∧ view firstByteHash (c.servers 1) rootDirId = some splitRoot ∧
      copyMapping (copyGigaMap splitRoot) = some splitRoot := by
  obtain ⟨c₁, c, -, -, -, reach, size, -, -, view₁, -⟩ :=
    loaded_split_scheduled firstByteHash 0 (fun _ => default) 0 0 0 true
      (show hashKey (firstByteHash [128]) % 2 = 1 by decide)
  exact ⟨c, reach, view₁, root_mapping_survives_the_wire firstByteHash reach (by omega) (by omega)
    view₁⟩

end Wire

end IndexFS
