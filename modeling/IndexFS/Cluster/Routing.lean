import IndexFS.Cluster.Delivery
import IndexFS.Client.Redirect

/-! How a client reaches the server of a name of the root. Let `t` be the partition the
union of all servers' mappings looks the name up at. Every server but `t` redirects, and
each merge of a redirecting server's mapping moves the client's lookup one level down the
path to `t`, so `kNumRedirect` tries are enough on 128 servers. -/
namespace IndexFS

open Giga Metadb PrefixTree Transition

/-! ### A client's cached root mapping -/

section Client

variable {n : ℕ} {m : GigaMapping}

variable (gigaHashName : List UInt8 → Hash)

theorem selectServer_of_rootView (small : n ≤ 128) (view : RootView n m) (name : List UInt8) :
    selectServer gigaHashName m name =
      some (PrefixTree.lookup (partitions m.bitmap) (hashKey (gigaHashName name))) := by
  rw [selectServer, view.lookup small, Option.map_some,
    view.server (lookup_spec (x := hashKey (gigaHashName name)) view.root).1]

end Client

/-! ### What each server answers -/

section Servers

variable {gigaHashName : List UInt8 → Hash} {c : Cluster} {name : List UInt8} {t : ℕ}

theorem RootServer.checkAddressing_eq {n s : ℕ} {srv : MetadataServer} (small : n ≤ 128)
    (server : RootServer gigaHashName n s srv) {m : GigaMapping}
    (found : view gigaHashName srv rootDirId = some m) (name : List UInt8) :
    checkAddressing gigaHashName srv m name =
      some (if PrefixTree.lookup (partitions m.bitmap) (hashKey (gigaHashName name)) = s
        then (s : ℤ) else -1) := by
  obtain ⟨m', found', view⟩ := server.viewed
  obtain rfl : m = m' := Option.some.inj (found.symm.trans found')
  have mem := (lookup_spec (x := hashKey (gigaHashName name)) view.root).1
  simp only [checkAddressing, view.lookup small, view.server mem, server.srvId,
    Option.bind_eq_bind, Option.bind_some, Option.pure_def, Option.some.injEq]
  by_cases here : PrefixTree.lookup (partitions m.bitmap) (hashKey (gigaHashName name)) = s
  · simp [here]
  · simp [here]

theorem RootInv.known_lt (inv : RootInv gigaHashName c) {i : ℕ}
    (known : i ∈ knownPartitions gigaHashName c rootDirId) : i < c.size := by
  obtain ⟨u, inside, onU⟩ := (mem_knownPartitions gigaHashName c rootDirId i).mp known
  obtain ⟨m, found, view⟩ := (inv.server u inside).viewed
  rw [viewPartitions_of_view gigaHashName found] at onU
  exact view.below i onU

theorem RootInv.redirects (inv : RootInv gigaHashName c)
    (looked : PrefixTree.lookup (knownPartitions gigaHashName c rootDirId)
      (hashKey (gigaHashName name)) = t) {s : ℕ} (inside : s < c.size) (other : s ≠ t) :
    ∃ m, view gigaHashName (c.servers s) rootDirId = some m ∧ RootView c.size m ∧
      checkAddressing gigaHashName (c.servers s) m name = some (-1) := by
  obtain ⟨m, found, view⟩ := (inv.server s inside).viewed
  refine ⟨m, found, view, ?_⟩
  rw [(inv.server s inside).checkAddressing_eq inv.small found, if_neg]
  -- had server `s` taken the name, the union would look it up at `s` too
  intro here
  exact other ((inv.lookup_known inside found here).symm.trans looked)

theorem RootInv.owner_accepts (inv : RootInv gigaHashName c) (pos : 0 < c.size)
    (looked : PrefixTree.lookup (knownPartitions gigaHashName c rootDirId)
      (hashKey (gigaHashName name)) = t)
    (owned : t ∈ viewPartitions gigaHashName (c.servers t) rootDirId) :
    t < c.size ∧ ∃ m, view gigaHashName (c.servers t) rootDirId = some m ∧
      checkAddressing gigaHashName (c.servers t) m name = some (t : ℤ) := by
  have inside : t < c.size :=
    inv.known_lt (looked ▸ (lookup_spec (inv.zero_known pos)).1)
  obtain ⟨m, found, view⟩ := (inv.server t inside).viewed
  have own := viewPartitions_of_view gigaHashName found
  have sub : partitions m.bitmap ⊆ knownPartitions gigaHashName c rootDirId :=
    own ▸ viewPartitions_subset_known gigaHashName inside rootDirId
  -- the server's lookup cannot stop above `t`, which it holds, nor pass it
  have same := lookup_eq_of_mem (x := hashKey (gigaHashName name)) view.root sub
    (looked ▸ own ▸ owned)
  refine ⟨inside, m, found, ?_⟩
  rw [(inv.server t inside).checkAddressing_eq inv.small found, same, looked, if_pos rfl]

theorem RootInv.deeper (inv : RootInv gigaHashName c) (pos : 0 < c.size)
    (looked : PrefixTree.lookup (knownPartitions gigaHashName c rootDirId)
      (hashKey (gigaHashName name)) = t)
    {handle : GigaMapping} (client : RootView c.size handle)
    (sub : partitions handle.bitmap ⊆ knownPartitions gigaHashName c rootDirId)
    (other : PrefixTree.lookup (partitions handle.bitmap) (hashKey (gigaHashName name)) ≠ t)
    {m : GigaMapping} (found : view gigaHashName (c.servers
      (PrefixTree.lookup (partitions handle.bitmap) (hashKey (gigaHashName name)))) rootDirId =
        some m)
    {merged : GigaMapping}
    (parts : partitions merged.bitmap = partitions handle.bitmap ∪ partitions m.bitmap) :
    Nat.size (PrefixTree.lookup (partitions handle.bitmap) (hashKey (gigaHashName name))) <
        Nat.size (PrefixTree.lookup (partitions merged.bitmap) (hashKey (gigaHashName name))) ∧
      Nat.size (PrefixTree.lookup (partitions handle.bitmap) (hashKey (gigaHashName name))) <
        Nat.size t := by
  set x := hashKey (gigaHashName name)
  set p := PrefixTree.lookup (partitions handle.bitmap) x
  have closed : Closed (knownPartitions gigaHashName c rootDirId) :=
    ⟨inv.zero_known pos, inv.closed⟩
  have up : Ancestor p t := looked ▸ lookup_ancestor_of_subset client.root sub
  obtain ⟨child, parentEq, ne, below⟩ := up.child other
  -- the child is known, so the server of its parent `p` knows it
  have known : child ∈ knownPartitions gigaHashName c rootDirId :=
    closed.ancestor_mem below (looked ▸ (lookup_spec closed.1).1)
  obtain ⟨u, uInside, onU⟩ := (mem_knownPartitions gigaHashName c rootDirId child).mp known
  have atP : child ∈ partitions m.bitmap := by
    have held := inv.children u uInside child onU
    rwa [parentEq, viewPartitions_of_view gigaHashName found] at held
  have onPath : x % 2 ^ Nat.size child = child :=
    below.mod_size (looked ▸ mod_size_lookup closed.1)
  have reached : child ≤ PrefixTree.lookup (partitions merged.bitmap) x :=
    le_lookup (parts ▸ Finset.mem_union_right _ atP) onPath
  have step : Nat.size p < Nat.size child := by
    have childPos : 0 < child := Nat.pos_of_ne_zero fun zero => ne (by
      rw [← parentEq, zero, parent_zero])
    rw [← parentEq]
    exact size_parent_lt childPos
  exact ⟨step.trans_le (Nat.size_le_size reached), step.trans_le (Nat.size_le_size below.le)⟩

end Servers

/-! ### The client's loop -/

section Loop

variable {gigaHashName : List UInt8 → Hash} {c : Cluster} {name : List UInt8} {t : ℕ}
  {α : Type} {call : ℕ → Option (Except Exception α)} {caught : Exception → Option Status}
  {outcome : Outcome α}

theorem RootInv.retrySelect_owner (inv : RootInv gigaHashName c) (pos : 0 < c.size)
    (looked : PrefixTree.lookup (knownPartitions gigaHashName c rootDirId)
      (hashKey (gigaHashName name)) = t)
    (redirects : ∀ s < c.size, s ≠ t → ∀ m, view gigaHashName (c.servers s) rootDirId = some m →
      call s = some (.error (.serverRedirectionException m)))
    (answers : ∀ handle, attempt call caught t handle = some (.done outcome)) :
    ∀ turns handle, RootView c.size handle →
      partitions handle.bitmap ⊆ knownPartitions gigaHashName c rootDirId →
      Nat.size t - Nat.size (PrefixTree.lookup (partitions handle.bitmap)
        (hashKey (gigaHashName name))) < turns →
      retrySelect gigaHashName call caught name turns handle = some (some outcome) := by
  intro turns
  -- each turn that does not reach `t` moves the client's lookup one level down at least
  induction turns with
  | zero =>
    intro handle _ _ enough
    omega
  | succ turns ih =>
    intro handle client sub enough
    have selected := selectServer_of_rootView gigaHashName inv.small client name
    by_cases here : PrefixTree.lookup (partitions handle.bitmap) (hashKey (gigaHashName name)) = t
    · rw [here] at selected
      simp only [retrySelect, selected, answers, Option.bind_eq_bind, Option.bind_some]
      rfl
    · have inside := client.below _ (lookup_spec (x := hashKey (gigaHashName name)) client.root).1
      obtain ⟨m, found, view, -⟩ := inv.redirects looked inside here
      obtain ⟨merged, merge, mergedView, parts⟩ := client.merge_exists view
      have retried : attempt call caught _ handle = some (.retry merged) :=
        attempt_of_redirect (redirects _ inside here m found) merge
      obtain ⟨deeper, shallower⟩ := inv.deeper pos looked client sub here found parts
      simp only [retrySelect, selected, retried, Option.bind_eq_bind, Option.bind_some]
      apply ih merged mergedView
      · rw [parts]
        exact Finset.union_subset sub ((viewPartitions_of_view gigaHashName found) ▸
          viewPartitions_subset_known gigaHashName inside rootDirId)
      · omega

theorem RootInv.cappedLoop_owner (inv : RootInv gigaHashName c) (pos : 0 < c.size)
    (looked : PrefixTree.lookup (knownPartitions gigaHashName c rootDirId)
      (hashKey (gigaHashName name)) = t) (inside : t < c.size)
    (redirects : ∀ s < c.size, s ≠ t → ∀ m, view gigaHashName (c.servers s) rootDirId = some m →
      call s = some (.error (.serverRedirectionException m)))
    (answers : ∀ handle, attempt call caught t handle = some (.done outcome))
    {handle : GigaMapping} (client : RootView c.size handle)
    (sub : partitions handle.bitmap ⊆ knownPartitions gigaHashName c rootDirId) :
    cappedLoop gigaHashName call caught name handle = some outcome := by
  have deep : Nat.size t ≤ 7 := Nat.size_le.mpr (by have := inv.small; omega)
  rw [cappedLoop, inv.retrySelect_owner pos looked redirects answers kNumRedirect handle client
    sub (by rw [kNumRedirect]; omega), Option.map_some, Option.getD_some]

variable {β : Type} {k : GigaMapping → ℤ → Option (Reply β)}

theorem RootInv.addressed_redirects (inv : RootInv gigaHashName c)
    (looked : PrefixTree.lookup (knownPartitions gigaHashName c rootDirId)
      (hashKey (gigaHashName name)) = t) {s : ℕ} (inside : s < c.size) (other : s ≠ t)
    {m : GigaMapping} (found : view gigaHashName (c.servers s) rootDirId = some m) :
    addressed gigaHashName (c.servers s) rootDirId name k =
      some (c.servers s, .error (.serverRedirectionException m)) := by
  obtain ⟨m', found', -, redirected⟩ := inv.redirects looked inside other
  obtain rfl : m = m' := Option.some.inj (found.symm.trans found')
  exact addressed_of_redirect gigaHashName _ _ _ _ (fetchDir_of_view gigaHashName found)
    redirected _

end Loop

/-! ### Getattr and Mknod from a client -/

section Answers

variable {gigaHashName : List UInt8 → Hash} {c : Cluster} {name : List UInt8} {t : ℕ}

variable (c) in
/-- A client's RPC to server `s`: the handler's reply on the server's state, and nothing
when the server's process has stopped. -/
def serverCall {α : Type} (handler : MetadataServer → Option (Reply α)) (s : ℕ) :
    Option (Except Exception α) :=
  if s ∈ c.stopped then none else (handler (c.servers s)).map Prod.snd

theorem serverCall_of_running {α : Type} {handler : MetadataServer → Option (Reply α)} {s : ℕ}
    (running : s ∉ c.stopped) :
    serverCall c handler s = (handler (c.servers s)).map Prod.snd := if_neg running

theorem RootInv.rpcs_reach_owner (inv : RootInv gigaHashName c) (pos : 0 < c.size)
    (running : ∀ s < c.size, s ∉ c.stopped)
    (looked : PrefixTree.lookup (knownPartitions gigaHashName c rootDirId)
      (hashKey (gigaHashName name)) = t)
    (owned : t ∈ viewPartitions gigaHashName (c.servers t) rootDirId) {handle : GigaMapping}
    (cached : RootView c.size handle)
    (sub : partitions handle.bitmap ⊆ knownPartitions gigaHashName c rootDirId) (now : ℕ) :
    rpcGetattr gigaHashName (serverCall c fun srv => getattr gigaHashName srv rootDirId name)
        name handle =
      some (match MetadataBackend.getattr gigaHashName (c.servers t).mdb rootDirId t name with
        | none => .ok (.notFound "No Such Entry", none)
        | some info => .ok (.ok, some info)) ∧
    rpcMknod gigaHashName (serverCall c fun srv => mknod gigaHashName srv rootDirId name now)
        name handle =
      some (if ((c.servers t).mdb.get ⟨rootDirId, t, gigaHashName name⟩).isSome
        then .ok (.ioError "File Already Exists", none) else .ok (.ok, some ())) := by
  obtain ⟨inside, m, found, accepted⟩ := inv.owner_accepts pos looked owned
  have atOwner : ∀ {β : Type} (k : GigaMapping → ℤ → Option (Reply β)),
      addressed gigaHashName (c.servers t) rootDirId name k = k m t := fun k =>
    addressed_of_accepted gigaHashName (c.servers t) rootDirId name m t
      (fetchDir_of_view gigaHashName found) accepted (Int.natCast_nonneg t) k
  constructor
  · apply inv.cappedLoop_owner pos looked inside
      (fun s inside other m found => by
        rw [serverCall_of_running (running s inside), getattr,
          inv.addressed_redirects looked inside other found, Option.map_some])
      _ cached sub
    intro handle
    rw [attempt, serverCall_of_running (running t inside)]
    cases got : MetadataBackend.getattr gigaHashName (c.servers t).mdb rootDirId t name with
    | none => simp [getattr, atOwner, got, getattrCaught]
    | some info => simp [getattr, atOwner, got]
  · apply inv.cappedLoop_owner pos looked inside
      (fun s inside other m found => by
        rw [serverCall_of_running (running s inside), mknod,
          inv.addressed_redirects looked inside other found, Option.map_some])
      _ cached sub
    intro handle
    rw [attempt, serverCall_of_running (running t inside)]
    have created := putIfAbsent_snd (c.servers t).mdb ⟨rootDirId, t, gigaHashName name⟩
      (initMetaVal (c.servers t).mdb.initStatbuf none (strlen name) name (strlen []) [] 0 [] now)
    by_cases held : ((c.servers t).mdb.get ⟨rootDirId, t, gigaHashName name⟩).isSome
    · simp [mknod, atOwner, metadbCreate, initMetaObjKey_root, created, held, mknodCaught]
    · simp [mknod, atOwner, metadbCreate, initMetaObjKey_root, created, held]

end Answers

/-! ### Splits whose `InsertSplit` arrives -/

section Delivered

variable (gigaHashName : List UInt8 → Hash)

/-- A split whose `InsertSplit` loads its records on the server of the child:
`metadb_extract_do` moved at least one entry, so `Split` sends it, the RPC got through and
`leveldb_bulkinsert` loaded the tables. -/
def Delivers (c : Cluster) : Action → Prop
  | .split s dirId parent deleted run _ _ =>
    run = .loaded ∧ ∀ mapping child, view gigaHashName (c.servers s) dirId = some mapping →
      gigaIndexForSplitting mapping parent = some child → ∀ mdb ret records,
      metadbExtractDo (c.servers s).mdb dirId parent child deleted = some (mdb, ret, records) →
      0 < ret
  | _ => True

def DeliveredReach : Cluster → Prop :=
  Reachable (fun c => ∃ size now cwd, 0 < size ∧ c = boot gigaHashName size now cwd)
    fun c c' => ∃ a, Schedulable gigaHashName c a ∧ KeepsRoot gigaHashName c a ∧
      Delivers gigaHashName c a ∧ step gigaHashName c a = some c'

def OwnersKnown (c : Cluster) : Prop :=
  ∀ i ∈ knownPartitions gigaHashName c rootDirId, i ∈ viewPartitions gigaHashName (c.servers i) rootDirId

variable {gigaHashName} {c c' : Cluster}

theorem DeliveredReach.scheduled (reach : DeliveredReach gigaHashName c) :
    ScheduledReach gigaHashName c :=
  Reachable.mono (fun _ _ ⟨a, scheduled, keeps, _, stepped⟩ => ⟨a, scheduled, keeps, stepped⟩)
    reach

theorem RootInv.split_reaches_child (inv : RootInv gigaHashName c) {s parent deleted : ℕ}
    {run : InsertSplitRun} {zerothReached : Bool} {now : ℕ} (inside : s < c.size)
    (scheduled : Schedulable gigaHashName c (.split s rootDirId parent deleted run zerothReached now))
    (delivers : Delivers gigaHashName c (.split s rootDirId parent deleted run zerothReached now))
    (done : split gigaHashName c s rootDirId parent deleted run zerothReached now = some c') :
    ∃ child, Grows gigaHashName (insert child (viewPartitions gigaHashName (c.servers s) rootDirId))
        c c' rootDirId ∧ child ∈ viewPartitions gigaHashName (c'.servers child) rootDirId := by
  obtain ⟨m, found, owner, allowed⟩ := scheduled
  obtain ⟨rfl, moved⟩ := delivers
  obtain ⟨m₀, child, fetched, splitChild, branch⟩ := split_cases gigaHashName done
  obtain rfl : m = m₀ := Option.some.inj (found.symm.trans (view_of_fetchDir gigaHashName fetched))
  obtain ⟨child', ⟨m', found', split'⟩, -, -, grows⟩ := split_grows gigaHashName done
  obtain rfl : m = m' := Option.some.inj (found.symm.trans found')
  obtain rfl : child = child' := Option.some.inj (splitChild.symm.trans split')
  have grown := grows rootDirId
  rw [if_pos rfl] at grown
  have shape := inv.scheduledChild inside found owner allowed splitChild
  obtain rfl := shape.parent_eq
  refine ⟨child, grown, ?_⟩
  rcases branch with ⟨-, mdb, ret, records, c₂, srv, m', extracted, inserted, recorded, done⟩ |
    ⟨here, -⟩
  · -- the extraction moved an entry, so `InsertSplit` goes to server `child` and loads there
    rw [if_pos (moved m child found splitChild mdb ret records extracted), shape.server] at inserted
    obtain ⟨keep, -, movedTo⟩ := metadbExtractDo_frame extracted (Int.natCast_nonneg parent)
    have nonneg : ∀ r ∈ records, 0 ≤ r.1.partitionId := fun r mem => by
      rw [movedTo r mem]
      exact Int.natCast_nonneg _
    obtain ⟨keys, rfl⟩ := metadbExtractDo_deletes extracted
    have extracted₁ := (inv.server parent inside).same
      (congrFun (view_of_records gigaHashName keep) rootDirId) rfl (namesFrom_deleteAll keys)
    obtain ⟨srvC, loaded, rfl⟩ := (inv.server.set extracted₁).insertSplitRemote_loaded inv.small
      shape.below inserted nonneg
    rw [Cluster.set_of_ne c _ shape.apart] at loaded
    obtain ⟨current, foundC, -⟩ := (inv.server child shape.below).viewed
    obtain ⟨mapping, update, recached⟩ := insertSplit_found
      (by rw [view_putAll gigaHashName _ _ nonneg]; exact foundC) loaded
    have fits : child < capacity := by
      rw [capacity_eq]
      have := inv.small
      have := shape.below
      omega
    have atChild : child ∈ viewPartitions gigaHashName srvC rootDirId := by
      rw [viewPartitions_of_view gigaHashName recached.view_self,
        partitions_gigaUpdateMapping fits update]
      exact Finset.mem_insert_self _ _
    -- the parent's record of the split and the `UpdateBitmap` only add to the views
    have kept := ((updateBitmapRemote_grows gigaHashName done rootDirId).server child).keep
    rw [Cluster.set_of_ne _ srv shape.apart, Cluster.set_self] at kept
    exact kept atChild
  · rw [(inv.server parent inside).srvId, shape.server] at here
    exact absurd here.symm shape.apart

variable (gigaHashName) in
theorem loaded_split_delivered (t : ℕ) (cwd : ℕ → Stat) (now₁ deleted now₂ : ℕ)
    (zerothReached : Bool) {name : List UInt8} (odd : hashKey (gigaHashName name) % 2 = 1) :
    ∃ c₁ c₂, step gigaHashName (boot gigaHashName 2 t cwd)
        (.request 0 (.mknod rootDirId name now₁)) = some c₁ ∧
      Schedulable gigaHashName c₁ (.split 0 rootDirId 0 deleted .loaded zerothReached now₂) ∧
      Delivers gigaHashName c₁ (.split 0 rootDirId 0 deleted .loaded zerothReached now₂) ∧
      step gigaHashName c₁ (.split 0 rootDirId 0 deleted .loaded zerothReached now₂) = some c₂ ∧
      c₂.size = 2 ∧ c₂.stopped = ∅ ∧
      view gigaHashName (c₂.servers 0) rootDirId = some splitRoot ∧
      view gigaHashName (c₂.servers 1) rootDirId = some splitRoot := by
  obtain ⟨c₁, c₂, stepped₁, scheduled, stepped₂, -, size, stopped, view₀, view₁, -⟩ :=
    loaded_split_scheduled gigaHashName t cwd now₁ deleted now₂ zerothReached odd
  refine ⟨c₁, c₂, stepped₁, scheduled, ⟨rfl, ?_⟩, stepped₂, size, stopped, view₀, view₁⟩
  intro mapping child found splitChild mdb ret records extracted
  obtain rfl := Option.some.inj ((mknod_boot gigaHashName t cwd now₁ name).symm.trans stepped₁)
  -- the parent splits the mapping it booted with, into partition 1, and moves the name
  obtain rfl : gigaInitMapping rootDirId 0 2 = mapping :=
    Option.some.inj ((view_boot gigaHashName 2 t cwd 0).symm.trans found)
  obtain rfl : 1 = child := Option.some.inj
    ((show gigaIndexForSplitting (gigaInitMapping rootDirId 0 2) 0 = some 1 by decide).symm.trans
      splitChild)
  have moved := extracted.symm.trans
    (metadbExtractDo_one gigaHashName 0 2 t (cwd 0) deleted (gigaHashName name) _ odd)
  have counted : ret = 1 := (Prod.mk.inj (Prod.mk.inj (Option.some.inj moved)).2).1
  rw [counted]
  exact one_pos

theorem ownersKnown_boot {size : ℕ} (pos : 0 < size) (now : ℕ) (cwd : ℕ → Stat) :
    OwnersKnown gigaHashName (boot gigaHashName size now cwd) := by
  intro i known
  rw [knownPartitions_boot gigaHashName pos now, Finset.mem_singleton] at known
  subst known
  rw [viewPartitions_boot]
  exact Finset.mem_singleton_self 0

theorem OwnersKnown.of_grows {extra : Finset ℕ} (owned : OwnersKnown gigaHashName c)
    (grows : Grows gigaHashName extra c c' rootDirId)
    (fresh : ∀ i ∈ extra, i ∈ knownPartitions gigaHashName c rootDirId ∨
      i ∈ viewPartitions gigaHashName (c'.servers i) rootDirId) :
    OwnersKnown gigaHashName c' := by
  have kept : ∀ i ∈ knownPartitions gigaHashName c rootDirId,
      i ∈ viewPartitions gigaHashName (c'.servers i) rootDirId :=
    fun i known => (grows.server i).keep (owned i known)
  intro i known
  obtain ⟨u, inside, onU⟩ := (mem_knownPartitions gigaHashName c' rootDirId i).mp known
  rcases Finset.mem_union.mp ((grows.server u).bound onU) with old | new
  · exact kept i (viewPartitions_subset_known gigaHashName (grows.size ▸ inside) rootDirId old)
  · rcases fresh i new with had | direct
    · exact kept i had
    · exact direct

theorem ownersKnown_step (inv : RootInv gigaHashName c) (inv' : RootInv gigaHashName c')
    (owned : OwnersKnown gigaHashName c) {a : Action} (scheduled : Schedulable gigaHashName c a)
    (keeps : KeepsRoot gigaHashName c a) (delivers : Delivers gigaHashName c a)
    (stepped : step gigaHashName c a = some c') : OwnersKnown gigaHashName c' := by
  have none : ∀ i ∈ (∅ : Finset ℕ), i ∈ knownPartitions gigaHashName c rootDirId ∨
      i ∈ viewPartitions gigaHashName (c'.servers i) rootDirId := fun i mem => by simp at mem
  cases a with
  | request s req =>
    obtain ⟨inside, -, srv, served, rfl⟩ := step_request stepped
    -- a request can only add partition 0, which server 0 always holds
    refine owned.of_grows (grows_set gigaHashName (serve_grows gigaHashName served rootDirId))
      fun i mem => .inr ?_
    rw [Finset.mem_singleton.mp mem]
    obtain ⟨m, found, view⟩ := (inv'.server 0 (Nat.zero_lt_of_lt inside)).viewed
    rw [viewPartitions_of_view gigaHashName found]
    exact view.root
  | split s dirId parent deleted run zerothReached now =>
    obtain ⟨inside, -, split⟩ := step_split stepped
    by_cases root : dirId = rootDirId
    · subst root
      obtain ⟨child, grown, atChild⟩ := inv.split_reaches_child inside scheduled delivers split
      refine owned.of_grows grown fun i mem => ?_
      rcases Finset.mem_insert.mp mem with rfl | old
      · exact .inr atChild
      · exact .inl (viewPartitions_subset_known gigaHashName inside rootDirId old)
    · exact owned.of_grows (split_grows_other gigaHashName split root) none
  | evict s dirId => exact owned.of_grows ((sameRoot_evict keeps stepped).grows ∅) none
  | restart s cwd now => exact owned.of_grows ((sameRoot_restart inv keeps stepped).grows ∅) none

theorem ownersKnown_reach (reach : DeliveredReach gigaHashName c) (small : c.size ≤ 128) :
    OwnersKnown gigaHashName c := by
  refine @Reachable.invariant_reach _ _ _ (fun c => c.size ≤ 128 → OwnersKnown gigaHashName c)
    ?_ ?_ _ reach small
  · rintro _ ⟨size, now, cwd, pos, rfl⟩ -
    exact ownersKnown_boot pos now cwd
  · -- a step keeps the number of servers, and both ends keep the root's invariant
    rintro c c' before owned ⟨a, scheduled, keeps, delivers, stepped⟩ small'
    have small := step_size gigaHashName stepped ▸ small'
    have inv := rootInv_reach (DeliveredReach.scheduled before) small
    have coherent := (servers_coherent_reach gigaHashName
      (DeliveredReach.scheduled before).reach).coherent
    exact ownersKnown_step inv (rootInv_step inv coherent scheduled keeps stepped) (owned small)
      scheduled keeps delivers stepped

end Delivered

section Owner

variable (gigaHashName : List UInt8 → Hash)

/-- In every deployment of at most 128 running servers that scheduled splits reach, when the
owner `t` of a root name holds `t`, `RPC_Getattr` and `RPC_Mknod` reach `t` without giving up
with "Too Many Redirection". -/
theorem client_reaches_owner {c : Cluster} (reach : ScheduledReach gigaHashName c)
    (small : c.size ≤ 128) (running : ∀ s < c.size, s ∉ c.stopped) (name : List UInt8) {t : ℕ}
    (looked : PrefixTree.lookup (knownPartitions gigaHashName c rootDirId)
      (hashKey (gigaHashName name)) = t)
    (owned : t ∈ viewPartitions gigaHashName (c.servers t) rootDirId) {handle : GigaMapping}
    (cached : RootView c.size handle)
    (sub : partitions handle.bitmap ⊆ knownPartitions gigaHashName c rootDirId) (now : ℕ) :
    rpcGetattr gigaHashName (serverCall c fun srv => getattr gigaHashName srv rootDirId name)
        name handle =
      some (match MetadataBackend.getattr gigaHashName (c.servers t).mdb rootDirId t name with
        | none => .ok (.notFound "No Such Entry", none)
        | some info => .ok (.ok, some info)) ∧
    rpcMknod gigaHashName (serverCall c fun srv => mknod gigaHashName srv rootDirId name now)
        name handle =
      some (if ((c.servers t).mdb.get ⟨rootDirId, t, gigaHashName name⟩).isSome
        then .ok (.ioError "File Already Exists", none) else .ok (.ok, some ())) :=
  (rootInv_reach reach small).rpcs_reach_owner reach.size_pos running looked owned cached sub now

theorem knownPartitions_of_splitRoot {c : Cluster} (size : c.size = 2)
    (view₀ : view gigaHashName (c.servers 0) rootDirId = some splitRoot)
    (view₁ : view gigaHashName (c.servers 1) rootDirId = some splitRoot) :
    knownPartitions gigaHashName c rootDirId = partitions splitRoot.bitmap := by
  ext i
  rw [mem_knownPartitions, size]
  constructor
  · rintro ⟨s, inside, mem⟩
    obtain rfl | rfl : s = 0 ∨ s = 1 := by omega
    · rwa [viewPartitions_of_view gigaHashName view₀] at mem
    · rwa [viewPartitions_of_view gigaHashName view₁] at mem
  · intro mem
    exact ⟨0, by decide, by rwa [viewPartitions_of_view gigaHashName view₀]⟩

theorem initial_client_of_splitRoot {c : Cluster} (size : c.size = 2)
    (view₀ : view gigaHashName (c.servers 0) rootDirId = some splitRoot)
    (view₁ : view gigaHashName (c.servers 1) rootDirId = some splitRoot) :
    RootView c.size (gigaInitMapping rootDirId 0 2) ∧
      partitions (gigaInitMapping rootDirId 0 2).bitmap ⊆
        knownPartitions gigaHashName c rootDirId := by
  refine ⟨by rw [size]; exact rootView_init (by decide), ?_⟩
  rw [knownPartitions_of_splitRoot gigaHashName size view₀ view₁, partitions_splitRoot]
  simp [gigaInitMapping, partitions_initialBitmap]

theorem client_reaches_owner_after_split :
    ∃ c, ScheduledReach firstByteHash c ∧ c.size = 2 ∧ c.stopped = ∅ ∧
      let t := PrefixTree.lookup (knownPartitions firstByteHash c rootDirId)
        (hashKey (firstByteHash [128]))
      rpcGetattr firstByteHash
          (serverCall c fun srv => getattr firstByteHash srv rootDirId [128]) [128]
          (gigaInitMapping rootDirId 0 2) =
        some (match MetadataBackend.getattr firstByteHash (c.servers t).mdb rootDirId t [128] with
          | none => .ok (.notFound "No Such Entry", none)
          | some info => .ok (.ok, some info)) ∧
      rpcMknod firstByteHash
          (serverCall c fun srv => mknod firstByteHash srv rootDirId [128] 0) [128]
          (gigaInitMapping rootDirId 0 2) =
        some (if ((c.servers t).mdb.get ⟨rootDirId, t, firstByteHash [128]⟩).isSome
          then .ok (.ioError "File Already Exists", none) else .ok (.ok, some ())) := by
  obtain ⟨c₁, c, -, -, -, reach, size, stopped, view₀, view₁, -⟩ :=
    loaded_split_scheduled firstByteHash 0 (fun _ => default) 0 0 0 true
      (show hashKey (firstByteHash [128]) % 2 = 1 by decide)
  have known := knownPartitions_of_splitRoot firstByteHash size view₀ view₁
  set t := PrefixTree.lookup (knownPartitions firstByteHash c rootDirId)
    (hashKey (firstByteHash [128]))
  -- `t` is a partition of `splitRoot`, which both servers hold
  have mem : t ∈ partitions splitRoot.bitmap := by
    rw [← known]
    exact (lookup_spec (by rw [known, partitions_splitRoot]; decide)).1
  have owned : t ∈ viewPartitions firstByteHash (c.servers t) rootDirId := by
    rw [partitions_splitRoot] at mem
    rcases Finset.mem_insert.mp mem with here | zero
    · rw [here, viewPartitions_of_view firstByteHash view₁, partitions_splitRoot]
      decide
    · rw [Finset.mem_singleton.mp zero, viewPartitions_of_view firstByteHash view₀,
        partitions_splitRoot]
      decide
  obtain ⟨cached, sub⟩ := initial_client_of_splitRoot firstByteHash size view₀ view₁
  refine ⟨c, reach, size, stopped, client_reaches_owner firstByteHash reach (by omega)
    (fun s _ => by rw [stopped]; exact Finset.notMem_empty s) [128] rfl owned cached sub 0⟩

/-- When every split's `InsertSplit` loads a nonempty batch, `RPC_Getattr` and `RPC_Mknod`
reach the owner of every root name on at most 128 running servers, without giving up with
"Too Many Redirection". -/
theorem delivered_splits_settle_redirections {c : Cluster} (reach : DeliveredReach gigaHashName c)
    (small : c.size ≤ 128) (running : ∀ s < c.size, s ∉ c.stopped) (name : List UInt8)
    {handle : GigaMapping} (cached : RootView c.size handle)
    (sub : partitions handle.bitmap ⊆ knownPartitions gigaHashName c rootDirId) (now : ℕ) :
    let t := PrefixTree.lookup (knownPartitions gigaHashName c rootDirId)
      (hashKey (gigaHashName name))
    rpcGetattr gigaHashName (serverCall c fun srv => getattr gigaHashName srv rootDirId name)
        name handle =
      some (match MetadataBackend.getattr gigaHashName (c.servers t).mdb rootDirId t name with
        | none => .ok (.notFound "No Such Entry", none)
        | some info => .ok (.ok, some info)) ∧
    rpcMknod gigaHashName (serverCall c fun srv => mknod gigaHashName srv rootDirId name now)
        name handle =
      some (if ((c.servers t).mdb.get ⟨rootDirId, t, gigaHashName name⟩).isSome
        then .ok (.ioError "File Already Exists", none) else .ok (.ok, some ())) := by
  intro t
  have scheduled := DeliveredReach.scheduled reach
  have inv := rootInv_reach scheduled small
  have pos := scheduled.size_pos
  -- the partition the union finds is known, so its own server holds it
  have owned := ownersKnown_reach reach small t (lookup_spec (inv.zero_known pos)).1
  exact inv.rpcs_reach_owner pos running rfl owned cached sub now

theorem delivered_splits_settle_redirections_after_split :
    ∃ c, DeliveredReach firstByteHash c ∧ c.size = 2 ∧ c.stopped = ∅ ∧
      let t := PrefixTree.lookup (knownPartitions firstByteHash c rootDirId)
        (hashKey (firstByteHash [128]))
      rpcGetattr firstByteHash
          (serverCall c fun srv => getattr firstByteHash srv rootDirId [128]) [128]
          (gigaInitMapping rootDirId 0 2) =
        some (match MetadataBackend.getattr firstByteHash (c.servers t).mdb rootDirId t [128] with
          | none => .ok (.notFound "No Such Entry", none)
          | some info => .ok (.ok, some info)) ∧
      rpcMknod firstByteHash
          (serverCall c fun srv => mknod firstByteHash srv rootDirId [128] 0) [128]
          (gigaInitMapping rootDirId 0 2) =
        some (if ((c.servers t).mdb.get ⟨rootDirId, t, firstByteHash [128]⟩).isSome
          then .ok (.ioError "File Already Exists", none) else .ok (.ok, some ())) := by
  obtain ⟨c₁, c, stepped₁, scheduled, delivers, stepped₂, size, stopped, view₀, view₁⟩ :=
    loaded_split_delivered firstByteHash 0 (fun _ => default) 0 0 0 true
      (show hashKey (firstByteHash [128]) % 2 = 1 by decide)
  have reach : DeliveredReach firstByteHash c := .step (.step (.init ⟨2, 0, _, by decide, rfl⟩)
    ⟨.request 0 (.mknod rootDirId [128] 0), trivial, trivial, trivial, stepped₁⟩)
    ⟨_, scheduled, trivial, delivers, stepped₂⟩
  obtain ⟨cached, sub⟩ := initial_client_of_splitRoot firstByteHash size view₀ view₁
  refine ⟨c, reach, size, stopped, delivered_splits_settle_redirections firstByteHash reach
    (by omega) (fun s _ => by rw [stopped]; exact Finset.notMem_empty s) [128] cached sub 0⟩

end Owner

end IndexFS
