import IndexFS.Server.Frame
import IndexFS.Lib.Transition

/-! A deployment of metadata servers as one transition system: a request, a whole
`MetadataServer::Split`, a `DirMappingCache` eviction, or a restart. What each RPC of a split
did is a parameter of the step; a handler that aborts stops its server. -/
namespace IndexFS

open Giga Metadb Transition

structure Cluster where
  size : ℕ
  servers : ℕ → MetadataServer
  stopped : Finset ℕ

namespace Cluster

def set (c : Cluster) (s : ℕ) (srv : MetadataServer) : Cluster :=
  { c with servers := Function.update c.servers s srv }

def stop (c : Cluster) (s : ℕ) : Cluster := { c with stopped := insert s c.stopped }

/-- An RPC handled on server `s`, which a stopped server cannot have done: `s` as the
handler left it, or stopped when the handler aborted. -/
def call (c : Cluster) (s : ℕ) (handled : Option MetadataServer) : Option Cluster :=
  if s ∈ c.stopped then none
  else some (match handled with
    | some srv => c.set s srv
    | none => c.stop s)

variable (c : Cluster) (s : ℕ) (srv : MetadataServer)

@[simp] theorem set_size : (c.set s srv).size = c.size := rfl

@[simp] theorem set_stopped : (c.set s srv).stopped = c.stopped := rfl

@[simp] theorem set_self : (c.set s srv).servers s = srv := Function.update_self _ _ _

@[simp] theorem set_of_ne (c : Cluster) {s t : ℕ} (srv : MetadataServer) (other : t ≠ s) :
    (c.set s srv).servers t = c.servers t :=
  Function.update_of_ne other _ _


@[simp] theorem set_set (srv' : MetadataServer) : (c.set s srv).set s srv' = c.set s srv' := by
  simp [set]

@[simp] theorem set_servers : c.set s (c.servers s) = c := by
  simp [set]

@[simp] theorem stop_size : (c.stop s).size = c.size := rfl

@[simp] theorem stop_servers : (c.stop s).servers = c.servers := rfl

variable {c s srv}

theorem call_some {c' : Cluster} (called : c.call s (some srv) = some c') :
    s ∉ c.stopped ∧ c' = c.set s srv := by
  unfold call at called
  split at called
  · cases called
  · rename_i running
    exact ⟨running, (Option.some.inj called).symm⟩

theorem call_none {c' : Cluster} (called : c.call s none = some c') :
    s ∉ c.stopped ∧ c' = c.stop s := by
  unfold call at called
  split at called
  · cases called
  · rename_i running
    exact ⟨running, (Option.some.inj called).symm⟩

end Cluster

inductive Request where
  | mknod (dirId : ℕ) (objname : List UInt8) (now : ℕ)
  | mkdir (dirId : ℕ) (objname : List UInt8) (hintServer now : ℕ) (zerothRemote : Bool)
  | createZeroth (dirId now : ℕ)
  | createEntry (dirId : ℕ) (objname : List UInt8) (info : StatInfo) (link data : List UInt8)
      (stack : Stat) (now : ℕ) (ret : ℤ)
  | remove (dirId : ℕ) (objname : List UInt8)
  | chmod (dirId : ℕ) (objname : List UInt8) (permission : UInt32)

/-- How the `InsertSplit` RPC went: it never ran (`InsertSplitRemote` caught a
`TException`), it ran and `leveldb_bulkinsert` failed, or it ran and loaded the tables. -/
inductive InsertSplitRun where
  | unreached
  | loadFailed
  | loaded

/-- One step of the deployment. `evict` is the `DirMappingCache` of server `s`, an LRU cache
of `GetDirMappingCacheSize()` entries, dropping the mapping of `dirId`; `restart` starts
server `s` again on its database, after it stopped or crashed. -/
inductive Action where
  | request (s : ℕ) (req : Request)
  | split (s dirId parent deleted : ℕ) (run : InsertSplitRun) (zerothReached : Bool) (now : ℕ)
  | evict (s dirId : ℕ)
  | restart (s : ℕ) (cwd : Stat) (now : ℕ)

section Model

variable (gigaHashName : List UInt8 → Hash)

/-- `server_main.cc` on every server of a fresh deployment; `cwd s` is what `lstat("./")`
returns on server `s`. -/
def boot (size now : ℕ) (cwd : ℕ → Stat) : Cluster :=
  ⟨size, fun s => bootServer gigaHashName s size now (cwd s), ∅⟩

def serve (srv : MetadataServer) : Request → Option MetadataServer
  | .mknod dirId objname now => (mknod gigaHashName srv dirId objname now).map Prod.fst
  | .mkdir dirId objname hintServer now zerothRemote =>
    (mkdir gigaHashName srv dirId objname hintServer now zerothRemote).map Prod.fst
  | .createZeroth dirId now => some (createZeroth gigaHashName srv dirId now).1
  | .createEntry dirId objname info link data stack now ret =>
    (createEntry gigaHashName srv dirId objname info link data stack now ret).map Prod.fst
  | .remove dirId objname => (remove gigaHashName srv dirId objname).map Prod.fst
  | .chmod dirId objname permission =>
    (chmod gigaHashName srv dirId objname permission).map Prod.fst

def insertSplitRemote (c : Cluster) (childServer dirId childIndex : ℕ)
    (records : List (Σ _ : MetadbKey, MetadbVal)) (bitmap : GigaMapping) (run : InsertSplitRun)
    (now : ℕ) : Option Cluster :=
  match run with
  | .unreached => some c
  | .loadFailed =>
    c.call childServer
      (insertSplit gigaHashName (c.servers childServer) dirId childIndex records bitmap false now)
  | .loaded =>
    c.call childServer
      (insertSplit gigaHashName (c.servers childServer) dirId childIndex records bitmap true now)

/-- `MetadataServer::UpdateBitmapRemote`; `reached` is false when the RPC throws. -/
def updateBitmapRemote (c : Cluster) (zerothServer dirId : ℕ) (mapping : GigaMapping)
    (reached : Bool) : Option Cluster :=
  if reached then
    c.call zerothServer
      ((updateBitmap gigaHashName (c.servers zerothServer) dirId mapping).map Prod.fst)
  else some c

def recordChild (srv : MetadataServer) (dirId : ℕ) (mapping : GigaMapping) (child : ℕ) :
    Option (MetadataServer × GigaMapping) := do
  let mapping ← gigaUpdateMapping mapping child
  let (mdb, _) ← MetadataBackend.updateBitmap gigaHashName srv.mdb dirId mapping
  pure ({ srv with mdb, dmap := Function.update srv.dmap dirId (some mapping) }, mapping)

/-- `MetadataServer::Split` on server `s`, after the split thread's `FetchDir`. A directory
it cannot find leaves `giga_index_for_splitting` a null mapping. `ExtractClean` removes the
table files, which the model only passes along. -/
def split (c : Cluster) (s dirId parent deleted : ℕ) (run : InsertSplitRun) (zerothReached : Bool)
    (now : ℕ) : Option Cluster := do
  let srv := c.servers s
  match ← fetchDir gigaHashName srv dirId with
  | none => none
  | some mapping =>
    let child ← gigaIndexForSplitting mapping parent
    let childSrv := gigaGetServerForIndex mapping child
    if srv.srvId ≠ childSrv then
      let (mdb, ret, records) ← metadbExtractDo srv.mdb dirId parent child deleted
      let c := c.set s { srv with mdb }
      let c ← if ret > 0 then
          insertSplitRemote gigaHashName c childSrv dirId child records mapping run now
        else pure c
      let (srv, mapping) ← recordChild gigaHashName (c.servers s) dirId mapping child
      updateBitmapRemote gigaHashName (c.set s srv) mapping.zerothServer dirId mapping
        zerothReached
    else
      let (srv, _) ← recordChild gigaHashName srv dirId mapping child
      pure (c.set s srv)

def step (c : Cluster) : Action → Option Cluster
  | .request s req =>
    if s < c.size ∧ s ∉ c.stopped then (serve gigaHashName (c.servers s) req).map (c.set s)
    else none
  | .split s dirId parent deleted run zerothReached now =>
    if s < c.size ∧ s ∉ c.stopped then
      split gigaHashName c s dirId parent deleted run zerothReached now
    else none
  | .evict s dirId =>
    if s < c.size ∧ s ∉ c.stopped then some (c.set s (evict (c.servers s) dirId)) else none
  | .restart s cwd now =>
    if s < c.size then
      (restartServer gigaHashName (c.servers s) cwd now).map fun srv =>
        { c.set s srv with stopped := c.stopped.erase s }
    else none

def Reach : Cluster → Prop :=
  Reachable (fun c => ∃ size now cwd, 0 < size ∧ c = boot gigaHashName size now cwd)
    (StepOf (step gigaHashName))

end Model

/-! ### One step, action by action -/

section Inversion

variable {gigaHashName : List UInt8 → Hash} {c c' : Cluster}

theorem step_request {s : ℕ} {req : Request}
    (stepped : step gigaHashName c (.request s req) = some c') :
    s < c.size ∧ s ∉ c.stopped ∧
      ∃ srv, serve gigaHashName (c.servers s) req = some srv ∧ c' = c.set s srv := by
  simp only [step] at stepped
  split at stepped
  · rename_i running
    obtain ⟨srv, served, rfl⟩ := Option.map_eq_some_iff.mp stepped
    exact ⟨running.1, running.2, srv, served, rfl⟩
  · cases stepped

theorem step_split {s dirId parent deleted : ℕ} {run : InsertSplitRun} {zerothReached : Bool}
    {now : ℕ} (stepped : step gigaHashName c (.split s dirId parent deleted run zerothReached now) =
      some c') :
    s < c.size ∧ s ∉ c.stopped ∧
      split gigaHashName c s dirId parent deleted run zerothReached now = some c' := by
  simp only [step] at stepped
  split at stepped
  · rename_i running
    exact ⟨running.1, running.2, stepped⟩
  · cases stepped

theorem step_evict {s dirId : ℕ} (stepped : step gigaHashName c (.evict s dirId) = some c') :
    s < c.size ∧ s ∉ c.stopped ∧ c' = c.set s (evict (c.servers s) dirId) := by
  simp only [step] at stepped
  split at stepped
  · rename_i running
    exact ⟨running.1, running.2, (Option.some.inj stepped).symm⟩
  · cases stepped

theorem step_restart {s : ℕ} {cwd : Stat} {now : ℕ}
    (stepped : step gigaHashName c (.restart s cwd now) = some c') :
    s < c.size ∧ ∃ srv, restartServer gigaHashName (c.servers s) cwd now = some srv ∧
      c' = { c.set s srv with stopped := c.stopped.erase s } := by
  simp only [step] at stepped
  split at stepped
  · rename_i inside
    obtain ⟨srv, restarted, rfl⟩ := Option.map_eq_some_iff.mp stepped
    exact ⟨inside, srv, restarted, rfl⟩
  · cases stepped

end Inversion

/-! ### What the servers know of a directory -/

section Known

variable (gigaHashName : List UInt8 → Hash)

def knownPartitions (c : Cluster) (dirId : ℕ) : Finset ℕ :=
  (Finset.range c.size).biUnion fun s => viewPartitions gigaHashName (c.servers s) dirId

theorem mem_knownPartitions (c : Cluster) (dirId i : ℕ) :
    i ∈ knownPartitions gigaHashName c dirId ↔
      ∃ s < c.size, i ∈ viewPartitions gigaHashName (c.servers s) dirId := by
  simp [knownPartitions]

theorem viewPartitions_subset_known {c : Cluster} {s : ℕ} (inside : s < c.size) (dirId : ℕ) :
    viewPartitions gigaHashName (c.servers s) dirId ⊆ knownPartitions gigaHashName c dirId :=
  fun _ mem => (mem_knownPartitions gigaHashName c dirId _).mpr ⟨s, inside, mem⟩

end Known

/-! ### The stages of a split -/

section Stages

variable (gigaHashName : List UInt8 → Hash)

theorem split_cases {c c' : Cluster} {s dirId parent deleted : ℕ} {run : InsertSplitRun}
    {zerothReached : Bool} {now : ℕ}
    (done : split gigaHashName c s dirId parent deleted run zerothReached now = some c') :
    ∃ mapping child, fetchDir gigaHashName (c.servers s) dirId = some (some mapping) ∧
      gigaIndexForSplitting mapping parent = some child ∧
      (((c.servers s).srvId ≠ gigaGetServerForIndex mapping child ∧
        ∃ mdb ret records c₂ srv mapping',
          metadbExtractDo (c.servers s).mdb dirId parent child deleted = some (mdb, ret, records) ∧
          (if ret > 0 then insertSplitRemote gigaHashName (c.set s { c.servers s with mdb })
              (gigaGetServerForIndex mapping child) dirId child records mapping run now
            else some (c.set s { c.servers s with mdb })) = some c₂ ∧
          recordChild gigaHashName (c₂.servers s) dirId mapping child = some (srv, mapping') ∧
          updateBitmapRemote gigaHashName (c₂.set s srv) mapping'.zerothServer dirId mapping'
            zerothReached = some c') ∨
       ((c.servers s).srvId = gigaGetServerForIndex mapping child ∧
        ∃ srv mapping', recordChild gigaHashName (c.servers s) dirId mapping child =
          some (srv, mapping') ∧ c' = c.set s srv)) := by
  unfold split at done
  cases fetched : fetchDir gigaHashName (c.servers s) dirId with
  | none => simp [fetched] at done
  | some found =>
    cases found with
    | none => simp [fetched] at done
    | some mapping =>
      simp only [fetched, Option.bind_eq_bind, Option.bind_some] at done
      obtain ⟨child, found, done⟩ := Option.bind_eq_some_iff.mp done
      refine ⟨mapping, child, rfl, found, ?_⟩
      split at done
      · rename_i elsewhere
        obtain ⟨⟨mdb, ret, records⟩, extracted, done⟩ := Option.bind_eq_some_iff.mp done
        dsimp only at done
        -- `InsertSplitRemote` is sent only when entries moved
        have sent : ∃ c₂, (if ret > 0 then insertSplitRemote gigaHashName
              (c.set s { c.servers s with mdb }) (gigaGetServerForIndex mapping child) dirId child
              records mapping run now
            else some (c.set s { c.servers s with mdb })) = some c₂ ∧
            ((recordChild gigaHashName (c₂.servers s) dirId mapping child).bind fun recorded =>
              updateBitmapRemote gigaHashName (c₂.set s recorded.1) recorded.2.zerothServer dirId
                recorded.2 zerothReached) = some c' := by
          split at done
          · rename_i moved
            obtain ⟨c₂, inserted, done⟩ := Option.bind_eq_some_iff.mp done
            exact ⟨c₂, by rw [if_pos moved]; exact inserted, done⟩
          · rename_i none
            exact ⟨_, if_neg none, done⟩
        obtain ⟨c₂, inserted, done⟩ := sent
        obtain ⟨⟨srv, mapping'⟩, recorded, done⟩ := Option.bind_eq_some_iff.mp done
        exact .inl ⟨elsewhere, mdb, ret, records, c₂, srv, mapping', extracted, inserted, recorded,
          done⟩
      · rename_i here
        obtain ⟨⟨srv, mapping'⟩, recorded, done⟩ := Option.bind_eq_some_iff.mp done
        cases done
        exact .inr ⟨not_not.mp here, srv, mapping', recorded, rfl⟩

theorem recordChild_recached {srv srv' : MetadataServer} {dirId child : ℕ}
    {mapping mapping' : GigaMapping}
    (done : recordChild gigaHashName srv dirId mapping child = some (srv', mapping')) :
    gigaUpdateMapping mapping child = some mapping' ∧ Recached dirId mapping' srv srv' := by
  simp only [recordChild, Option.bind_eq_bind, Option.bind_eq_some_iff, Option.pure_def,
    Option.some.injEq] at done
  obtain ⟨updated, update, ⟨mdb, ret⟩, written, done⟩ := done
  obtain ⟨rfl, rfl⟩ := Prod.mk.inj done
  exact ⟨update, recached_of_updateBitmap written⟩

theorem insertSplitRemote_cases {c c' : Cluster} {childServer dirId childIndex : ℕ}
    {records : List (Σ _ : MetadbKey, MetadbVal)} {bitmap : GigaMapping} {run : InsertSplitRun}
    {now : ℕ}
    (done : insertSplitRemote gigaHashName c childServer dirId childIndex records bitmap run now =
      some c') :
    run = .unreached ∧ c' = c ∨
    childServer ∉ c.stopped ∧ (run = .loadFailed ∨ run = .loaded ∧
      insertSplit gigaHashName (c.servers childServer) dirId childIndex records bitmap true now =
        none) ∧ c' = c.stop childServer ∨
    childServer ∉ c.stopped ∧ run = .loaded ∧ ∃ srv,
      insertSplit gigaHashName (c.servers childServer) dirId childIndex records bitmap true now =
        some srv ∧ c' = c.set childServer srv := by
  cases run with
  | unreached =>
    cases done
    exact .inl ⟨rfl, rfl⟩
  | loadFailed =>
    obtain ⟨running, rfl⟩ := Cluster.call_none done
    exact .inr (.inl ⟨running, .inl rfl, rfl⟩)
  | loaded =>
    unfold insertSplitRemote at done
    cases inserted : insertSplit gigaHashName (c.servers childServer) dirId childIndex records
      bitmap true now with
    | none =>
      rw [inserted] at done
      obtain ⟨running, rfl⟩ := Cluster.call_none done
      exact .inr (.inl ⟨running, .inr ⟨rfl, rfl⟩, rfl⟩)
    | some srv =>
      rw [inserted] at done
      obtain ⟨running, rfl⟩ := Cluster.call_some done
      exact .inr (.inr ⟨running, rfl, srv, rfl, rfl⟩)

theorem updateBitmapRemote_cases {c c' : Cluster} {zerothServer dirId : ℕ}
    {mapping : GigaMapping} {reached : Bool}
    (done : updateBitmapRemote gigaHashName c zerothServer dirId mapping reached = some c') :
    reached = false ∧ c' = c ∨
    zerothServer ∉ c.stopped ∧ reached = true ∧
      updateBitmap gigaHashName (c.servers zerothServer) dirId mapping = none ∧
      c' = c.stop zerothServer ∨
    zerothServer ∉ c.stopped ∧ reached = true ∧ ∃ srv result,
      updateBitmap gigaHashName (c.servers zerothServer) dirId mapping = some (srv, result) ∧
        c' = c.set zerothServer srv := by
  unfold updateBitmapRemote at done
  split at done
  · rename_i sent
    cases updated : updateBitmap gigaHashName (c.servers zerothServer) dirId mapping with
    | none =>
      rw [updated] at done
      obtain ⟨running, rfl⟩ := Cluster.call_none done
      exact .inr (.inl ⟨running, sent, rfl, rfl⟩)
    | some reply =>
      rw [updated, Option.map_some] at done
      obtain ⟨running, rfl⟩ := Cluster.call_some done
      exact .inr (.inr ⟨running, sent, reply.1, reply.2, rfl, rfl⟩)
  · rename_i unsent
    cases done
    exact .inl ⟨by simpa using unsent, rfl⟩

end Stages

end IndexFS
