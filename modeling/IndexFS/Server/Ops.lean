import IndexFS.Backend.Store

/-! The request handlers of `MetadataServer` (`metadata_server.cc`) on one server, over its
metadb store and its cache of directory mappings. A handler returns the server state it
leaves together with its outcome: a C++ exception does not undo the writes made before
it was thrown. `none` is an assertion failure on the way. -/
namespace IndexFS

open Giga Metadb

inductive Exception where
  | fileNotFoundException
  | fileAlreadyExistException
  | serverRedirectionException (redirect : GigaMapping)
  | fileNotInSameServer

structure StatInfo where
  id : ℕ
  zerothServer : ℕ
  mode : UInt32
  uid : ℕ
  gid : ℕ
  size : ℕ
  mtime : ℕ
  ctime : ℕ
  isEmbedded : Bool

structure MetadataServer where
  mdb : MetaDB
  dmap : ℕ → Option GigaMapping
  /-- `options_->GetSrvID()` -/
  srvId : ℕ
  /-- `options_->GetSrvNum()` -/
  srvNum : ℕ

abbrev Reply (α : Type) : Type := MetadataServer × Except Exception α

section Handlers

variable (gigaHashName : List UInt8 → Hash)

namespace MetadataBackend

def mkdir (mdb : MetaDB) (dirId : ℕ) (partitionId : ℤ) (objname : List UInt8)
    (objectId serverId numServers now : ℕ) : MetaDB × ℤ :=
  if objname.length = 0 then
    metadbCreateDir gigaHashName mdb dirId (-1) none objectId serverId
      (some (gigaInitMapping objectId serverId numServers)) now
  else
    metadbCreateDir gigaHashName mdb dirId partitionId (some objname) objectId serverId none now

/-- `MetadataBackend::CreateEntry`. The fields of `stbuf` it does not set keep what was on
the stack, `stack`; it has no `return` statement, so it hands its caller no result. -/
def createEntry (mdb : MetaDB) (dirId : ℕ) (partitionId : ℤ) (objname : List UInt8)
    (info : StatInfo) (realpath data : List UInt8) (stack : Stat) (now : ℕ) : MetaDB :=
  let stbuf : Stat := { stack with
    stMode := info.mode
    stUid := info.uid
    stGid := info.gid
    stSize := info.size
    stMtime := info.mtime
    stCtime := info.ctime
    stIno := info.id }
  (metadbCreateEntry gigaHashName mdb dirId partitionId objname stbuf realpath data.length data
    now).1

def getattr (mdb : MetaDB) (dirId : ℕ) (partitionId : ℤ) (objname : List UInt8) :
    Option StatInfo :=
  (metadbLookup gigaHashName mdb dirId partitionId objname).map fun (stbuf, state) =>
    { mode := stbuf.stMode
      uid := stbuf.stUid
      gid := stbuf.stGid
      size := stbuf.stSize
      mtime := stbuf.stMtime
      ctime := stbuf.stCtime
      id := stbuf.stIno
      zerothServer := stbuf.stDev
      isEmbedded := state = some rpcLeveldbFileInDb }

/-- `MetadataBackend::NewInodeNumber`: the `int` of `metadb_get_next_inode_count`, read as a
`TINumber`. -/
def newInodeNumber (mdb : MetaDB) : MetaDB × ℕ :=
  let (mdb, count) := metadbGetNextInodeCount mdb
  (mdb, CInt.widen64 count)

@[simp] theorem db_newInodeNumber (mdb : MetaDB) : (newInodeNumber mdb).1.db = mdb.db :=
  db_metadbGetNextInodeCount mdb

theorem newInodeNumber_eq (mdb : MetaDB) :
    newInodeNumber mdb = ({ mdb with inodeCount := (mdb.inodeCount + 2 ^ 9) % 2 ^ 64 },
      CInt.widen64 (CInt.narrow32 ((mdb.inodeCount + 2 ^ 9) % 2 ^ 64))) := by
  unfold newInodeNumber metadbGetNextInodeCount
  rfl

def newInodeBatch (mdb : MetaDB) (bulkSize : ℤ) : MetaDB × ℕ :=
  let (mdb, next) := metadbGetNextInodeBatch mdb bulkSize
  (mdb, CInt.widen64 next)

theorem newInodeBatch_eq (mdb : MetaDB) (bulkSize : ℤ) :
    newInodeBatch mdb bulkSize =
      ({ mdb with inodeCount := (mdb.inodeCount + 2 ^ 9 * CInt.widen64 bulkSize) % 2 ^ 64 },
        CInt.widen64 (CInt.narrow32 ((mdb.inodeCount + 2 ^ 9) % 2 ^ 64))) := by
  unfold newInodeBatch metadbGetNextInodeBatch
  rfl

end MetadataBackend

def rootDirId : ℕ := 0

def rootCache (mapping : GigaMapping) (dirId : ℕ) : Option GigaMapping :=
  if dirId = rootDirId then some mapping else none

/-- `InitRootPartition` on a fresh database (`mdb.Init` returns 1): `metadb_init` sets the
inode count to the server's id, the root's mapping goes into the cache with server 0 as
its zeroth server, and the root's bitmap record is written with this server as zeroth
server. `cwd` is what `lstat("./")` returns. -/
def bootServer (srvId srvNum now : ℕ) (cwd : Stat) : MetadataServer where
  mdb := (MetadataBackend.mkdir gigaHashName (metadbInit none srvId cwd).2 rootDirId (-1) []
    rootDirId srvId srvNum now).1
  dmap := rootCache (gigaInitMapping rootDirId 0 srvNum)
  srvId := srvId
  srvNum := srvNum

/-- `InitRootPartition` when the server starts again on its database (`mdb.Init` returns
0). `metadb_init` reopens the store; the count record it looks for is never written. The
cache starts with the root's mapping as its bitmap record holds it, or, without a record,
as on a fresh database, where `CHECK` aborts if the record cannot be written. -/
def restartServer (srv : MetadataServer) (cwd : Stat) (now : ℕ) : Option MetadataServer :=
  let mdb := (metadbInit (some (srv.mdb.db, none)) srv.srvId cwd).2
  match metadbReadBitmap gigaHashName mdb rootDirId (-1) none with
  | none => none
  | some (.ok mapping) => some { srv with mdb, dmap := rootCache mapping }
  | some (.error _) =>
    let (mdb, ret) := MetadataBackend.mkdir gigaHashName mdb rootDirId (-1) [] rootDirId
      srv.srvId srv.srvNum now
    if ret = 0 then some { srv with mdb, dmap := rootCache (gigaInitMapping rootDirId 0 srv.srvNum) }
    else none

/-- The `DirMappingCache`, an LRU cache of `GetDirMappingCacheSize()` entries, drops the
mapping of `dirId`. -/
def evict (srv : MetadataServer) (dirId : ℕ) : MetadataServer :=
  { srv with dmap := Function.update srv.dmap dirId none }

/-- `FetchDir`: the cached mapping, else the one of the directory's bitmap record;
`some none` when there is neither. -/
def fetchDir (srv : MetadataServer) (dirId : ℕ) : Option (Option GigaMapping) :=
  match srv.dmap dirId with
  | some mapping => some (some mapping)
  | none =>
    match metadbReadBitmap gigaHashName srv.mdb dirId (-1) none with
    | none => none
    | some (.error _) => some none
    | some (.ok mapping) => some (some mapping)

def checkAddressing (srv : MetadataServer) (mapping : GigaMapping) (path : List UInt8) :
    Option ℤ := do
  let index ← gigaGetIndexForFile mapping (gigaHashName path)
  let server := gigaGetServerForIndex mapping index
  pure (if server ≠ srv.srvId then -1 else index)

/-- The prologue every handler shares: fetch the directory, then check the name's
address; `k` runs with the mapping and the partition. -/
def addressed {α : Type} (srv : MetadataServer) (dirId : ℕ) (objname : List UInt8)
    (k : GigaMapping → ℤ → Option (Reply α)) : Option (Reply α) := do
  match ← fetchDir gigaHashName srv dirId with
  | none => pure (srv, .error .fileNotFoundException)
  | some mapping =>
    let index ← checkAddressing gigaHashName srv mapping objname
    if index < 0 then pure (srv, .error (.serverRedirectionException mapping))
    else k mapping index

theorem addressed_of_accepted {α : Type} (srv : MetadataServer) (dirId : ℕ) (objname : List UInt8)
    (mapping : GigaMapping) (index : ℤ) (fetched : fetchDir gigaHashName srv dirId = some (some mapping))
    (accepted : checkAddressing gigaHashName srv mapping objname = some index) (pos : 0 ≤ index)
    (k : GigaMapping → ℤ → Option (Reply α)) :
    addressed gigaHashName srv dirId objname k = k mapping index := by
  simp only [addressed, fetched, accepted, Option.bind_eq_bind, Option.bind_some,
    if_neg (Int.not_lt.mpr pos)]

theorem addressed_of_redirect {α : Type} (srv : MetadataServer) (dirId : ℕ) (objname : List UInt8)
    (mapping : GigaMapping) (fetched : fetchDir gigaHashName srv dirId = some (some mapping))
    (redirected : checkAddressing gigaHashName srv mapping objname = some (-1))
    (k : GigaMapping → ℤ → Option (Reply α)) :
    addressed gigaHashName srv dirId objname k =
      some (srv, .error (.serverRedirectionException mapping)) := by
  simp only [addressed, fetched, redirected, Option.bind_eq_bind, Option.bind_some,
    if_pos (show (-1 : ℤ) < 0 by decide), Option.pure_def]

theorem addressed_ok_inv {α : Type} {srv srv' : MetadataServer} {dirId : ℕ} {objname : List UInt8}
    {k : GigaMapping → ℤ → Option (Reply α)} {a : α}
    (done : addressed gigaHashName srv dirId objname k = some (srv', .ok a)) :
    ∃ mapping index, fetchDir gigaHashName srv dirId = some (some mapping) ∧
      checkAddressing gigaHashName srv mapping objname = some index ∧ 0 ≤ index ∧
      k mapping index = some (srv', .ok a) := by
  unfold addressed at done
  cases fetched : fetchDir gigaHashName srv dirId with
  | none => simp [fetched] at done
  | some found =>
    cases found with
    | none => simp [fetched] at done
    | some mapping =>
      cases accepted : checkAddressing gigaHashName srv mapping objname with
      | none => simp [fetched, accepted] at done
      | some index =>
        simp only [fetched, accepted, Option.bind_eq_bind, Option.bind_some] at done
        split at done
        · simp at done
        · rename_i pos
          exact ⟨mapping, index, rfl, accepted, Int.not_lt.mp pos, done⟩

def mknod (srv : MetadataServer) (dirId : ℕ) (objname : List UInt8) (now : ℕ) : Option (Reply Unit) :=
  addressed gigaHashName srv dirId objname fun _ index =>
    let (mdb, ret) := metadbCreate gigaHashName srv.mdb dirId index objname [] now
    if ret ≠ 0 then pure ({ srv with mdb }, .error .fileAlreadyExistException)
    else pure ({ srv with mdb }, .ok ())

def createZeroth (srv : MetadataServer) (dirId now : ℕ) : Reply Unit :=
  let (mdb, ret) := MetadataBackend.mkdir gigaHashName srv.mdb dirId (-1) [] dirId srv.srvId
    srv.srvNum now
  if ret ≠ 0 then ({ srv with mdb }, .error .fileAlreadyExistException)
  else ({ srv with mdb }, .ok ())

/-- `Mkdir`; `zerothRemote` is whether `CreateZerothRemote` reached the zeroth server and
created the bitmap record there. -/
def mkdir (srv : MetadataServer) (dirId : ℕ) (objname : List UInt8) (hintServer now : ℕ)
    (zerothRemote : Bool) : Option (Reply Unit) :=
  addressed gigaHashName srv dirId objname fun _ index =>
    let (mdb, objectId) := MetadataBackend.newInodeNumber srv.mdb
    let zerothServer := hintServer
    let (mdb, ret) := MetadataBackend.mkdir gigaHashName mdb dirId index objname objectId
      zerothServer srv.srvNum now
    let srv := { srv with mdb }
    if ret ≠ 0 then pure (srv, .error .fileAlreadyExistException)
    else if zerothServer = srv.srvId then pure (createZeroth gigaHashName srv objectId now)
    else if !zerothRemote then pure (srv, .error .fileAlreadyExistException)
    else pure (srv, .ok ())

/-- When the zeroth server named for a new directory cannot be reached, `Mkdir` raises
`FileAlreadyExistException` for a name that did not exist, after writing its entry. -/
theorem mkdir_raises_after_writing (srv : MetadataServer) (dirId : ℕ) (objname : List UInt8)
    (hintServer now : ℕ) (mapping : GigaMapping) (index : ℤ)
    (fetched : fetchDir gigaHashName srv dirId = some (some mapping))
    (accepted : checkAddressing gigaHashName srv mapping objname = some index) (pos : 0 ≤ index)
    (named : objname ≠ []) (fresh : metadbLookup gigaHashName srv.mdb dirId index objname = none)
    (remote : hintServer ≠ srv.srvId) :
    ∃ srv', mkdir gigaHashName srv dirId objname hintServer now false =
        some (srv', .error .fileAlreadyExistException) ∧
      (metadbLookup gigaHashName srv'.mdb dirId index objname).isSome := by
  have nonempty : objname.length ≠ 0 := fun zero => named (List.eq_nil_of_length_eq_zero zero)
  -- the inode number is taken first; it changes nothing `Mkdir` looks up afterwards
  have absent : (MetadataBackend.newInodeNumber srv.mdb).1.get
      (initMetaObjKey gigaHashName dirId index (some objname)) = none := by
    simp only [metadbLookup, Option.map_eq_none_iff] at fresh
    simpa only [MetaDB.get, MetadataBackend.db_newInodeNumber] using fresh
  have created : MetadataBackend.mkdir gigaHashName (MetadataBackend.newInodeNumber srv.mdb).1 dirId index
      objname (MetadataBackend.newInodeNumber srv.mdb).2 hintServer srv.srvNum now =
      ((MetadataBackend.newInodeNumber srv.mdb).1.put (initMetaObjKey gigaHashName dirId index (some objname))
        (initDirVal (MetadataBackend.newInodeNumber srv.mdb).1.initStatbuf
          (MetadataBackend.newInodeNumber srv.mdb).2 (strlen objname) objname hintServer none now),
        0) := by
    simp only [MetadataBackend.mkdir, if_neg nonempty, metadbCreateDir, putIfAbsent]
    rw [absent]
  refine ⟨{ srv with
    mdb := (MetadataBackend.newInodeNumber srv.mdb).1.put (initMetaObjKey gigaHashName dirId index
      (some objname)) (initDirVal (MetadataBackend.newInodeNumber srv.mdb).1.initStatbuf
        (MetadataBackend.newInodeNumber srv.mdb).2 (strlen objname) objname hintServer none now) },
    ?_, ?_⟩
  · rw [mkdir, addressed_of_accepted gigaHashName srv dirId objname mapping index fetched accepted pos]
    simp only [created, ne_eq, not_true_eq_false, if_false, if_neg remote, Bool.not_false,
      if_true]
    rfl
  · simp [metadbLookup]

theorem mkdir_raises_after_writing_on_boot :
    ∃ srv', mkdir (fun _ _ => 0) (bootServer (fun _ _ => 0) 0 2 0 default) rootDirId [97] 1 0 false =
        some (srv', .error .fileAlreadyExistException) ∧
      (metadbLookup (fun _ _ => 0) srv'.mdb rootDirId 0 [97]).isSome :=
  mkdir_raises_after_writing (fun _ _ => 0) (bootServer (fun _ _ => 0) 0 2 0 default) rootDirId [97] 1 0
    (gigaInitMapping rootDirId 0 2) 0 rfl (by decide) le_rfl (List.cons_ne_nil _ _) (by decide)
    (by decide)

/-- `CreateEntry`; `ret` is what the caller reads as the result of
`MetadataBackend::CreateEntry`, which returns none. -/
def createEntry (srv : MetadataServer) (dirId : ℕ) (objname : List UInt8) (info : StatInfo)
    (link data : List UInt8) (stack : Stat) (now : ℕ) (ret : ℤ) : Option (Reply Unit) :=
  addressed gigaHashName srv dirId objname fun _ index =>
    let mdb := MetadataBackend.createEntry gigaHashName srv.mdb dirId index objname info link data
      stack now
    if ret ≠ 0 then pure ({ srv with mdb }, .error .fileAlreadyExistException)
    else pure ({ srv with mdb }, .ok ())

def getattr (srv : MetadataServer) (dirId : ℕ) (objname : List UInt8) : Option (Reply StatInfo) :=
  addressed gigaHashName srv dirId objname fun _ index =>
    match MetadataBackend.getattr gigaHashName srv.mdb dirId index objname with
    | none => pure (srv, .error .fileNotFoundException)
    | some info => pure (srv, .ok info)

/-- `Remove`; a directory is first write-locked, which changes no stored state. -/
def remove (srv : MetadataServer) (dirId : ℕ) (objname : List UInt8) : Option (Reply Unit) :=
  addressed gigaHashName srv dirId objname fun _ index =>
    match MetadataBackend.getattr gigaHashName srv.mdb dirId index objname with
    | none => pure (srv, .error .fileNotFoundException)
    | some _ =>
      let (mdb, ret) := metadbRemove gigaHashName srv.mdb dirId index objname
      if ret ≠ 0 then pure ({ srv with mdb }, .error .fileNotFoundException)
      else pure ({ srv with mdb }, .ok ())

def chmod (srv : MetadataServer) (dirId : ℕ) (objname : List UInt8) (permission : UInt32) :
    Option (Reply Unit) :=
  addressed gigaHashName srv dirId objname fun _ index =>
    match MetadataBackend.getattr gigaHashName srv.mdb dirId index objname with
    | none => pure (srv, .error .fileNotFoundException)
    | some _ => do
      let (mdb, ret) ← metadbChmod gigaHashName srv.mdb dirId index objname permission
      if ret ≠ 0 then pure ({ srv with mdb }, .error .fileNotFoundException)
      else pure ({ srv with mdb }, .ok ())

/-- `Rename`. `stack` is the garbage `MetadataBackend::CreateEntry` leaves in the stat it
builds and `ret` what the caller reads as its result. Both branches on the source's
mode differ only in a lock. -/
def rename (srv : MetadataServer) (srcId : ℕ) (srcPath : List UInt8) (dstId : ℕ)
    (dstPath : List UInt8) (stack : Stat) (now : ℕ) (ret : ℤ) : Option (Reply Unit) :=
  if dstId = srcId then pure (srv, .error .fileNotInSameServer)
  else
    addressed gigaHashName srv srcId srcPath fun mapping index =>
      match MetadataBackend.getattr gigaHashName srv.mdb srcId index srcPath with
      | none => pure (srv, .error .fileNotFoundException)
      | some info => do
        let dstIndex ← checkAddressing gigaHashName srv mapping dstPath
        if dstIndex ≥ 0 then pure (srv, .error .fileNotInSameServer)
        else
          let mdb := MetadataBackend.createEntry gigaHashName srv.mdb dstId dstIndex dstPath info
            [] [] stack now
          if ret ≠ 0 then pure ({ srv with mdb }, .error .fileAlreadyExistException)
          else
            let (mdb, removed) := metadbRemove gigaHashName mdb srcId index srcPath
            if removed ≠ 0 then pure ({ srv with mdb }, .error .fileNotFoundException)
            else pure ({ srv with mdb }, .ok ())

/-- Whatever `Rename` does, it never leaves the destination at a partition its directory
can address: a rename in one directory is refused, and one across directories either
is refused or writes the new name under partition -1. -/
theorem rename_never_moves (srv : MetadataServer) (srcId : ℕ) (srcPath : List UInt8) (dstId : ℕ)
    (dstPath : List UInt8) (stack : Stat) (now : ℕ) (ret p : ℤ) (pos : 0 ≤ p)
    (absent : metadbLookup gigaHashName srv.mdb dstId p dstPath = none) :
    ¬ ∃ srv', rename gigaHashName srv srcId srcPath dstId dstPath stack now ret = some (srv', .ok ()) ∧
      (metadbLookup gigaHashName srv'.mdb dstId p dstPath).isSome := by
  rintro ⟨srv', done, found⟩
  unfold rename at done
  split at done
  · simp at done
  · rename_i apart
    obtain ⟨mapping, index, _, _, _, moved⟩ := addressed_ok_inv gigaHashName done
    split at moved
    · simp at moved
    · cases dst : checkAddressing gigaHashName srv mapping dstPath with
      | none => simp [dst] at moved
      | some dstIndex =>
        simp only [dst, Option.bind_eq_bind, Option.bind_some] at moved
        split at moved
        · simp at moved
        · rename_i elsewhere
          split at moved
          · simp at moved
          · simp only [metadbRemove, ne_eq, not_true_eq_false, if_false, Option.pure_def,
              Option.some.injEq, Prod.mk.injEq] at moved
            rw [← moved.1] at found
            -- the new name went to partition -1 and the removed one is in the other directory
            have keyDst : initMetaObjKey gigaHashName dstId p (some dstPath) ≠
                initMetaObjKey gigaHashName dstId dstIndex (some dstPath) := by
              intro same
              have := congrArg MetadbKey.partitionId same
              simp only [initMetaObjKey_partitionId] at this
              split at this <;> split at this <;> omega
            have keySrc : initMetaObjKey gigaHashName dstId p (some dstPath) ≠
                initMetaObjKey gigaHashName srcId index (some srcPath) := by
              intro same
              exact apart (congrArg MetadbKey.parentId same)
            simp only [metadbLookup, get_delete, if_neg keySrc, MetadataBackend.createEntry,
              metadbCreateEntry, get_putIfAbsent_of_ne _ _ _ _ keyDst] at found
            simp [metadbLookup] at absent
            simp [absent] at found

theorem rename_never_moves_on_boot :
    ¬ ∃ srv', rename (fun _ _ => 0) (bootServer (fun _ _ => 0) 0 2 0 default) rootDirId [97] rootDirId
        [98] default 0 0 = some (srv', .ok ()) ∧
      (metadbLookup (fun _ _ => 0) srv'.mdb rootDirId 0 [98]).isSome :=
  rename_never_moves (fun _ _ => 0) (bootServer (fun _ _ => 0) 0 2 0 default) rootDirId [97]
    rootDirId [98] default 0 0 0 le_rfl (by decide)

end Handlers

end IndexFS
