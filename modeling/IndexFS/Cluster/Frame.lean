import IndexFS.Cluster.Step
import IndexFS.Server.Frame

/-! What one step of a deployment changes. A request changes only the store of the server
that handles it, and of the names only the one it was sent, at a partition that server
accepted. A split changes only what the servers hold of the directory it splits. Both
are read off one inversion lemma per kind of step. -/
namespace IndexFS

open Giga Metadb

section Frame

variable (gigaHashName : List UInt8 → Hash)

theorem serve_frame {srv srv' : MetadataServer} {req : Request}
    (served : serve gigaHashName srv req = some srv') :
    ∃ mdb, srv' = { srv with mdb } ∧
      NamesFrom (fun key => ∃ dirId objname, AcceptedKey gigaHashName srv dirId objname key)
        srv.mdb mdb := by
  -- each handler adds at most the key of its own name
  have widen : ∀ {dirId objname mdb}, NamesFrom (AcceptedKey gigaHashName srv dirId objname)
      srv.mdb mdb → NamesFrom (fun key => ∃ dirId objname,
        AcceptedKey gigaHashName srv dirId objname key) srv.mdb mdb :=
    fun names => names.mono fun key accepted => ⟨_, _, accepted⟩
  cases req with
  | mknod dirId objname now =>
    obtain ⟨⟨srv'', result⟩, done, rfl⟩ := Option.map_eq_some_iff.mp served
    obtain ⟨mdb, rfl, names⟩ := mknod_frame done
    exact ⟨mdb, rfl, widen names⟩
  | mkdir dirId objname hintServer now zerothRemote =>
    obtain ⟨⟨srv'', result⟩, done, rfl⟩ := Option.map_eq_some_iff.mp served
    obtain ⟨mdb, rfl, names⟩ := mkdir_frame done
    exact ⟨mdb, rfl, widen names⟩
  | createZeroth dirId now =>
    cases served
    exact ⟨_, createZeroth_eq gigaHashName srv dirId now,
      (namesFrom_mkdir gigaHashName _ _ _ _ _ _ _ _).of_neg (by simp)⟩
  | createEntry dirId objname info link data stack now ret =>
    obtain ⟨⟨srv'', result⟩, done, rfl⟩ := Option.map_eq_some_iff.mp served
    obtain ⟨mdb, rfl, names⟩ := createEntry_frame done
    exact ⟨mdb, rfl, widen names⟩
  | remove dirId objname =>
    obtain ⟨⟨srv'', result⟩, done, rfl⟩ := Option.map_eq_some_iff.mp served
    obtain ⟨mdb, rfl, names⟩ := remove_frame done
    exact ⟨mdb, rfl, widen names⟩
  | chmod dirId objname permission =>
    obtain ⟨⟨srv'', result⟩, done, rfl⟩ := Option.map_eq_some_iff.mp served
    obtain ⟨mdb, rfl, names⟩ := chmod_frame done
    exact ⟨mdb, rfl, widen names⟩

end Frame

/-! ### Splits change one directory -/

structure ClusterOnlyDir (dirId : ℕ) (c c' : Cluster) : Prop where
  size : c'.size = c.size
  server : ∀ t, OnlyDir dirId (c.servers t) (c'.servers t)

section OnlyDir

variable (gigaHashName : List UInt8 → Hash) {dirId : ℕ}

theorem ClusterOnlyDir.refl (dirId : ℕ) (c : Cluster) : ClusterOnlyDir dirId c c :=
  ⟨rfl, fun t => OnlyDir.refl dirId (c.servers t)⟩

theorem ClusterOnlyDir.trans {c₁ c₂ c₃ : Cluster} (first : ClusterOnlyDir dirId c₁ c₂)
    (second : ClusterOnlyDir dirId c₂ c₃) : ClusterOnlyDir dirId c₁ c₃ :=
  ⟨second.size.trans first.size, fun t => (first.server t).trans (second.server t)⟩

theorem clusterOnlyDir_set {c : Cluster} {u : ℕ} {srv : MetadataServer}
    (only : OnlyDir dirId (c.servers u) srv) : ClusterOnlyDir dirId c (c.set u srv) := by
  refine ⟨rfl, fun t => ?_⟩
  by_cases here : t = u
  · subst here
    rw [Cluster.set_self]
    exact only
  · rw [Cluster.set_of_ne c srv here]
    exact OnlyDir.refl _ _

theorem metadbExtractDo_under {mdb mdb' : MetaDB} {parent : ℤ} {child deleted : ℕ} {ret : ℤ}
    {records : List (Σ _ : MetadbKey, MetadbVal)}
    (extracted : metadbExtractDo mdb dirId parent child deleted = some (mdb', ret, records)) :
    (∀ key : MetadbKey, key.parentId ≠ dirId → mdb'.get key = mdb.get key) ∧
      ∀ r ∈ records, r.1.parentId = dirId := by
  simp only [metadbExtractDo, Option.bind_eq_bind, Option.bind_eq_some_iff, Option.pure_def,
    Option.some.injEq, Prod.mk.injEq] at extracted
  obtain ⟨migrated, scan, rfl, -, rfl⟩ := extracted
  refine ⟨fun key other => ?_, fun r mem => ?_⟩
  · rw [get_deleteAll, if_neg]
    intro mem
    obtain ⟨r, taken, rfl⟩ := List.mem_map.mp mem
    exact other (extractScan_mem scan r (List.mem_of_mem_take taken)).2.1
  · obtain ⟨r, inside, rfl⟩ := List.mem_map.mp mem
    exact (extractScan_mem scan r inside).2.1

theorem clusterOnlyDir_stop (c : Cluster) (s : ℕ) : ClusterOnlyDir dirId c (c.stop s) :=
  ⟨rfl, fun t => OnlyDir.refl dirId (c.servers t)⟩

theorem insertSplitRemote_onlyDir {c c' : Cluster} {childServer childIndex : ℕ}
    {records : List (Σ _ : MetadbKey, MetadbVal)} {bitmap : GigaMapping} {run : InsertSplitRun}
    {now : ℕ}
    (done : insertSplitRemote gigaHashName c childServer dirId childIndex records bitmap run now =
      some c') (under : ∀ r ∈ records, r.1.parentId = dirId) : ClusterOnlyDir dirId c c' := by
  rcases insertSplitRemote_cases gigaHashName done with
    ⟨-, rfl⟩ | ⟨-, -, rfl⟩ | ⟨-, -, srv, inserted, rfl⟩
  · exact ClusterOnlyDir.refl _ _
  · exact clusterOnlyDir_stop c childServer
  · exact clusterOnlyDir_set (insertSplit_onlyDir inserted under)

theorem updateBitmapRemote_onlyDir {c c' : Cluster} {zerothServer : ℕ} {mapping : GigaMapping}
    {reached : Bool}
    (done : updateBitmapRemote gigaHashName c zerothServer dirId mapping reached = some c') :
    ClusterOnlyDir dirId c c' := by
  rcases updateBitmapRemote_cases gigaHashName done with
    ⟨-, rfl⟩ | ⟨-, -, -, rfl⟩ | ⟨-, -, srv, result, updated, rfl⟩
  · exact ClusterOnlyDir.refl _ _
  · exact clusterOnlyDir_stop c zerothServer
  · exact clusterOnlyDir_set (updateBitmap_onlyDir updated)

theorem split_onlyDir {c c' : Cluster} {s parent deleted : ℕ} {run : InsertSplitRun}
    {zerothReached : Bool} {now : ℕ}
    (done : split gigaHashName c s dirId parent deleted run zerothReached now = some c') :
    ClusterOnlyDir dirId c c' := by
  obtain ⟨mapping, child, -, -, moved | stayed⟩ := split_cases gigaHashName done
  · obtain ⟨-, mdb, ret, records, c₂, srv, mapping', extracted, inserted, recorded, done⟩ := moved
    obtain ⟨keep, under⟩ := metadbExtractDo_under extracted
    have extractOnly : ClusterOnlyDir dirId c (c.set s { c.servers s with mdb }) :=
      clusterOnlyDir_set (onlyDir_store keep)
    have insertOnly : ClusterOnlyDir dirId c c₂ := by
      split at inserted
      · exact extractOnly.trans (insertSplitRemote_onlyDir gigaHashName inserted under)
      · cases inserted
        exact extractOnly
    exact (insertOnly.trans (clusterOnlyDir_set
      (recordChild_recached gigaHashName recorded).2.onlyDir)).trans
      (updateBitmapRemote_onlyDir gigaHashName done)
  · obtain ⟨-, srv, mapping', recorded, rfl⟩ := stayed
    exact clusterOnlyDir_set (recordChild_recached gigaHashName recorded).2.onlyDir

end OnlyDir

end IndexFS
