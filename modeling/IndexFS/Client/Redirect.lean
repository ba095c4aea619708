import IndexFS.Cluster.RootSplit

/-! The redirection loops of `MetadataClient`: each try calls the server `SelectServer` picks, and
a `ServerRedirectionException` merges the server's mapping into the cache and tries again.
After the first split of an empty root, server 1 keeps redirecting and the loops never settle. -/
namespace IndexFS

open Giga Metadb

inductive Status where
  | ok
  | notFound (msg : String)
  | ioError (msg : String)
  | corruption (msg : String)
  | invalidArgument (msg : String) (msg2 : List UInt8)
  deriving DecidableEq

def kNumRedirect : ℕ := 10

/-- What a client loop ends with: its status and, from `Getattr`, the reply; or an exception
that none of its `catch` clauses takes, which leaves the client. -/
abbrev Outcome (α : Type) : Type := Except Exception (Status × Option α)

inductive Attempt (α : Type) where
  | done (outcome : Outcome α)
  | retry (mapping : GigaMapping)

section Loops

variable (gigaHashName : List UInt8 → Hash) {α : Type}

def selectServer (mapping : GigaMapping) (entry : List UInt8) : Option ℕ :=
  (gigaGetIndexForFile mapping (gigaHashName entry)).map (gigaGetServerForIndex mapping)

/-- The `try` of every loop against `server`; `caught` holds the loop's own `catch` clauses
besides the one for `ServerRedirectionException`. -/
def attempt (call : ℕ → Option (Except Exception α)) (caught : Exception → Option Status)
    (server : ℕ) (handle : GigaMapping) : Option (Attempt α) := do
  match ← call server with
  | .ok reply => pure (.done (.ok (.ok, some reply)))
  | .error (.serverRedirectionException redirect) =>
    (gigaUpdateCache handle redirect).map .retry
  | .error e =>
    pure (.done (match caught e with
      | some status => .ok (status, none)
      | none => .error e))

/-- `turns` tries, each at the server `SelectServer` picks; `some none` when the loop is
still going after them. -/
def retrySelect (call : ℕ → Option (Except Exception α)) (caught : Exception → Option Status)
    (entry : List UInt8) : ℕ → GigaMapping → Option (Option (Outcome α))
  | 0, _ => some none
  | turns + 1, handle => do
    let server ← selectServer gigaHashName handle entry
    match ← attempt call caught server handle with
    | .done outcome => pure (some outcome)
    | .retry handle => retrySelect call caught entry turns handle

/-- The `while (srvs.size() < kNumRedirect)` loop of `RPC_Getattr`, `RPC_Mknod` and
`RPC_Mkdir`. -/
def cappedLoop (call : ℕ → Option (Except Exception α)) (caught : Exception → Option Status)
    (entry : List UInt8) (handle : GigaMapping) : Option (Outcome α) :=
  (retrySelect gigaHashName call caught entry kNumRedirect handle).map fun outcome =>
    outcome.getD (.ok (.corruption "Too Many Redirection", none))

def getattrCaught : Exception → Option Status
  | .fileNotFoundException => some (.notFound "No Such Entry")
  | _ => none

def mknodCaught : Exception → Option Status
  | .fileNotFoundException => some (.notFound "No Such Entry")
  | .fileAlreadyExistException => some (.ioError "File Already Exists")
  | _ => none

def mkdirCaught : Exception → Option Status
  | .fileNotFoundException => some (.notFound "No Such Entry")
  | .fileAlreadyExistException => some (.ioError "Dir Already Exists")
  | _ => none

def chmodCaught : Exception → Option Status
  | .fileNotFoundException => some (.notFound "Cannot find the entry")
  | _ => none

def createCaught : Exception → Option Status
  | .fileNotFoundException => some (.notFound "No Such Entry")
  | .fileAlreadyExistException => some (.ioError "Entry Already Exists")
  | _ => none

def rpcGetattr (call : ℕ → Option (Except Exception StatInfo)) (entry : List UInt8)
    (handle : GigaMapping) : Option (Outcome StatInfo) :=
  cappedLoop gigaHashName call getattrCaught entry handle

def rpcMknod (call : ℕ → Option (Except Exception Unit)) (entry : List UInt8)
    (handle : GigaMapping) : Option (Outcome Unit) :=
  cappedLoop gigaHashName call mknodCaught entry handle

def rpcMkdir (call : ℕ → Option (Except Exception Unit)) (entry : List UInt8)
    (handle : GigaMapping) : Option (Outcome Unit) :=
  cappedLoop gigaHashName call mkdirCaught entry handle

def rpcChmod (call : ℕ → Option (Except Exception Unit)) (entry : List UInt8)
    (handle : GigaMapping) (depth : ℕ) : Option (Option (Outcome Unit)) :=
  retrySelect gigaHashName call chmodCaught entry depth handle

def rpcRemove (call : ℕ → Option (Except Exception Unit)) (entry : List UInt8)
    (handle : GigaMapping) (depth : ℕ) : Option (Option (Outcome Unit)) :=
  retrySelect gigaHashName call chmodCaught entry depth handle

/-- `RPC_Create`: the first try goes to the server its caller passes, then `turns` more
turns of the `while (true)` loop, each after `SelectServer`. -/
def rpcCreate (call : ℕ → Option (Except Exception Unit)) (entry : List UInt8) (server : ℕ)
    (handle : GigaMapping) (turns : ℕ) : Option (Option (Outcome Unit)) := do
  match ← attempt call createCaught server handle with
  | .done outcome => pure (some outcome)
  | .retry handle => retrySelect gigaHashName call createCaught entry turns handle

/-! ### A try that changes nothing -/

variable {call : ℕ → Option (Except Exception α)} {caught : Exception → Option Status}
  {entry : List UInt8}

theorem attempt_of_redirect {server : ℕ} {handle redirect merged : GigaMapping}
    (redirected : call server = some (.error (.serverRedirectionException redirect)))
    (merge : gigaUpdateCache handle redirect = some merged) :
    attempt call caught server handle = some (.retry merged) := by
  simp only [attempt, redirected, merge, Option.bind_eq_bind, Option.bind_some, Option.map_some]

theorem retrySelect_of_stuck {server : ℕ} {handle : GigaMapping}
    (selected : selectServer gigaHashName handle entry = some server)
    (stuck : attempt call caught server handle = some (.retry handle)) :
    ∀ turns, retrySelect gigaHashName call caught entry turns handle = some none
  | 0 => rfl
  | turns + 1 => by
    simp only [retrySelect, selected, stuck, Option.bind_eq_bind, Option.bind_some]
    exact retrySelect_of_stuck selected stuck turns

theorem cappedLoop_of_stuck {server : ℕ} {handle : GigaMapping}
    (selected : selectServer gigaHashName handle entry = some server)
    (stuck : attempt call caught server handle = some (.retry handle)) :
    cappedLoop gigaHashName call caught entry handle =
      some (.ok (.corruption "Too Many Redirection", none)) := by
  rw [cappedLoop, retrySelect_of_stuck gigaHashName selected stuck, Option.map_some,
    Option.getD_none]

end Loops

/-! ### The split root on two servers -/

section SplitRoot

variable (gigaHashName : List UInt8 → Hash)

theorem selectServer_splitRoot {name : List UInt8}
    (odd : hashKey (gigaHashName name) % 2 = 1) :
    selectServer gigaHashName splitRoot name = some 1 := by
  rw [selectServer, gigaGetIndexForFile_of_split (m := splitRoot) rfl, odd, Option.map_some]
  rfl

theorem addressed_bootServer_one {α : Type} (t : ℕ) (cwd : ℕ → Stat) (name : List UInt8)
    (k : GigaMapping → ℤ → Option (Reply α)) :
    addressed gigaHashName ((boot gigaHashName 2 t cwd).servers 1) rootDirId name k =
      some ((boot gigaHashName 2 t cwd).servers 1,
        .error (.serverRedirectionException (gigaInitMapping rootDirId 0 2))) :=
  addressed_of_redirect gigaHashName _ _ _ _
    (fetchDir_of_view gigaHashName (view_boot gigaHashName 2 t cwd 1))
    (by rw [checkAddressing_initial]; rfl) k

/-- After the first split of an empty root, a name with an odd hash key goes to server 1,
which redirects it with partition 0 alone, and the merge gives the split mapping back: the
capped loops report "Too Many Redirection", and the others run as long as they are let. -/
theorem redirections_never_settle (t deleted now : ℕ) (run : InsertSplitRun) (zerothReached : Bool)
    (name : List UInt8) (odd : hashKey (gigaHashName name) % 2 = 1) (now' hintServer : ℕ)
    (zerothRemote : Bool) (permission : UInt32) (info : StatInfo) (link data : List UInt8)
    (stack : Stat) (ret : ℤ) :
    ∃ c, Reach gigaHashName c ∧ TreeClosed splitRoot.bitmap ∧
      partitions splitRoot.bitmap ⊆ knownPartitions gigaHashName c rootDirId ∧
      rpcGetattr gigaHashName
          (fun s => (getattr gigaHashName (c.servers s) rootDirId name).map Prod.snd) name
          splitRoot = some (.ok (.corruption "Too Many Redirection", none)) ∧
      rpcMknod gigaHashName
          (fun s => (mknod gigaHashName (c.servers s) rootDirId name now').map Prod.snd) name
          splitRoot = some (.ok (.corruption "Too Many Redirection", none)) ∧
      rpcMkdir gigaHashName
          (fun s => (mkdir gigaHashName (c.servers s) rootDirId name hintServer now'
            zerothRemote).map Prod.snd) name
          splitRoot = some (.ok (.corruption "Too Many Redirection", none)) ∧
      (∀ depth, rpcChmod gigaHashName
          (fun s => (chmod gigaHashName (c.servers s) rootDirId name permission).map Prod.snd)
          name splitRoot depth = some none) ∧
      (∀ depth, rpcRemove gigaHashName
          (fun s => (remove gigaHashName (c.servers s) rootDirId name).map Prod.snd)
          name splitRoot depth = some none) ∧
      ∀ turns, rpcCreate gigaHashName
          (fun s => (createEntry gigaHashName (c.servers s) rootDirId name info link data stack
            now' ret).map Prod.snd) name 1 splitRoot turns = some none := by
  obtain ⟨c, -, reach, size, view₀, -, server₁⟩ :=
    empty_root_split_step gigaHashName t (fun _ => default) deleted now run zerothReached
  have selected := selectServer_splitRoot gigaHashName odd
  -- every handler on server 1 redirects, and the merge returns the client's own mapping
  have stuck : ∀ {α : Type} (handler : MetadataServer → Option (Reply α))
      (addressedBy : ∀ srv, ∃ k, handler srv = addressed gigaHashName srv rootDirId name k)
      (caught : Exception → Option Status),
      attempt (fun s => (handler (c.servers s)).map Prod.snd) caught 1 splitRoot =
        some (.retry splitRoot) := by
    intro α handler addressedBy caught
    obtain ⟨k, eq⟩ := addressedBy (c.servers 1)
    apply attempt_of_redirect _ gigaUpdateCache_splitRoot_initial
    rw [eq, server₁, addressed_bootServer_one, Option.map_some]
  refine ⟨c, reach, ?_, ?_, ?_, ?_, ?_, ?_, ?_, ?_⟩
  · rw [treeClosed_iff, partitions_splitRoot]
    refine ⟨by simp, fun n mem => ?_⟩
    rcases Finset.mem_insert.mp mem with rfl | zero
    · decide
    · rw [Finset.mem_singleton.mp zero]
      decide
  · rw [← viewPartitions_of_view gigaHashName view₀]
    exact viewPartitions_subset_known gigaHashName (by omega) rootDirId
  · exact cappedLoop_of_stuck gigaHashName selected
      (stuck (fun srv => getattr gigaHashName srv rootDirId name) (fun _ => ⟨_, rfl⟩) _)
  · exact cappedLoop_of_stuck gigaHashName selected
      (stuck (fun srv => mknod gigaHashName srv rootDirId name now') (fun _ => ⟨_, rfl⟩) _)
  · exact cappedLoop_of_stuck gigaHashName selected
      (stuck (fun srv => mkdir gigaHashName srv rootDirId name hintServer now' zerothRemote)
        (fun _ => ⟨_, rfl⟩) _)
  · exact retrySelect_of_stuck gigaHashName selected
      (stuck (fun srv => chmod gigaHashName srv rootDirId name permission) (fun _ => ⟨_, rfl⟩) _)
  · exact retrySelect_of_stuck gigaHashName selected
      (stuck (fun srv => remove gigaHashName srv rootDirId name) (fun _ => ⟨_, rfl⟩) _)
  · intro turns
    have create := stuck (fun srv => createEntry gigaHashName srv rootDirId name info link data
      stack now' ret) (fun _ => ⟨_, rfl⟩) createCaught
    simp only [rpcCreate, create, Option.bind_eq_bind, Option.bind_some]
    exact retrySelect_of_stuck gigaHashName selected create turns

theorem redirections_never_settle_on_boot :
    ∃ c, Reach firstByteHash c ∧ TreeClosed splitRoot.bitmap ∧
      partitions splitRoot.bitmap ⊆ knownPartitions firstByteHash c rootDirId ∧
      rpcGetattr firstByteHash
          (fun s => (getattr firstByteHash (c.servers s) rootDirId [128]).map Prod.snd) [128]
          splitRoot = some (.ok (.corruption "Too Many Redirection", none)) ∧
      rpcMknod firstByteHash
          (fun s => (mknod firstByteHash (c.servers s) rootDirId [128] 0).map Prod.snd) [128]
          splitRoot = some (.ok (.corruption "Too Many Redirection", none)) ∧
      rpcMkdir firstByteHash
          (fun s => (mkdir firstByteHash (c.servers s) rootDirId [128] 1 0 true).map Prod.snd)
          [128] splitRoot = some (.ok (.corruption "Too Many Redirection", none)) ∧
      (∀ depth, rpcChmod firstByteHash
          (fun s => (chmod firstByteHash (c.servers s) rootDirId [128] 0o644).map Prod.snd)
          [128] splitRoot depth = some none) ∧
      (∀ depth, rpcRemove firstByteHash
          (fun s => (remove firstByteHash (c.servers s) rootDirId [128]).map Prod.snd)
          [128] splitRoot depth = some none) ∧
      ∀ turns, rpcCreate firstByteHash
          (fun s => (createEntry firstByteHash (c.servers s) rootDirId [128]
            ⟨0, 0, 0o100644, 0, 0, 0, 0, 0, true⟩ [] [] default 0 0).map Prod.snd)
          [128] 1 splitRoot turns = some none :=
  redirections_never_settle firstByteHash 0 0 0 .unreached true [128] (by decide) 0 1 true 0o644
    ⟨0, 0, 0o100644, 0, 0, 0, 0, 0, true⟩ [] [] default 0

end SplitRoot

end IndexFS
