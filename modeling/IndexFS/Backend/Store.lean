import IndexFS.Backend.Value
import IndexFS.Lib.CInt
import Mathlib.Data.List.AList
import Mathlib.Data.Fintype.Pi

/-! The metadb store of one server (`metadb_fs.c`): the leveldb instance as a finite map
from `metadb_key_t` to values, and the functions that read or write one key. Every
leveldb call is taken to succeed. `giga_hash_name` is any function of the name. -/
namespace Metadb

open Giga

def enoent : ℤ := 2

structure MetadbKey where
  parentId : ℕ
  partitionId : ℤ
  nameHash : Hash
  deriving DecidableEq

abbrev Store := AList fun _ : MetadbKey => MetadbVal

/-- The part of `struct MetaDB` the modelled functions use, and the process's
`INIT_STATBUF`, which `metadb_init` fills with `lstat("./")`. -/
structure MetaDB where
  db : Store
  serverId : ℕ
  inodeCount : ℕ
  initStatbuf : Stat

def MetaDB.get (mdb : MetaDB) (key : MetadbKey) : Option MetadbVal := mdb.db.lookup key

def MetaDB.put (mdb : MetaDB) (key : MetadbKey) (val : MetadbVal) : MetaDB :=
  { mdb with db := mdb.db.insert key val }

def MetaDB.delete (mdb : MetaDB) (key : MetadbKey) : MetaDB :=
  { mdb with db := mdb.db.erase key }

@[simp] theorem get_put (mdb : MetaDB) (key key' : MetadbKey) (val : MetadbVal) :
    (mdb.put key val).get key' = if key' = key then some val else mdb.get key' := by
  unfold MetaDB.get MetaDB.put
  split
  · rename_i same
    rw [same, AList.lookup_insert]
  · rename_i other
    exact AList.lookup_insert_ne other

@[simp] theorem get_delete (mdb : MetaDB) (key key' : MetadbKey) :
    (mdb.delete key).get key' = if key' = key then none else mdb.get key' := by
  unfold MetaDB.get MetaDB.delete
  split
  · rename_i same
    rw [same, AList.lookup_erase]
  · rename_i other
    exact AList.lookup_erase_ne other

@[simp] theorem put_inodeCount (mdb : MetaDB) (key : MetadbKey) (val : MetadbVal) :
    (mdb.put key val).inodeCount = mdb.inodeCount := rfl

@[simp] theorem delete_inodeCount (mdb : MetaDB) (key : MetadbKey) :
    (mdb.delete key).inodeCount = mdb.inodeCount := rfl

section Store

variable (gigaHashName : List UInt8 → Hash)

def initMetaObjKey (dirId : ℕ) (partitionId : ℤ) (path : Option (List UInt8)) :
    MetadbKey where
  parentId := dirId
  partitionId := if partitionId < 0 then -1 else partitionId
  nameHash := match path with
    | none => fun _ => 0
    | some path => gigaHashName path

@[simp] theorem initMetaObjKey_parentId (dirId : ℕ) (partitionId : ℤ)
    (path : Option (List UInt8)) :
    (initMetaObjKey gigaHashName dirId partitionId path).parentId = dirId := rfl

@[simp] theorem initMetaObjKey_partitionId (dirId : ℕ) (partitionId : ℤ)
    (path : Option (List UInt8)) :
    (initMetaObjKey gigaHashName dirId partitionId path).partitionId =
      if partitionId < 0 then -1 else partitionId := rfl

/-! ### Creation: an existence check, then a put -/

/-- The existence check and put that `metadb_create`, `metadb_create_dir` and
`metadb_create_entry` share: -1, and nothing written, when the key is taken. -/
def putIfAbsent (mdb : MetaDB) (mobjKey : MetadbKey) (mobjVal : MetadbVal) : MetaDB × ℤ :=
  match mdb.get mobjKey with
  | some _ => (mdb, -1)
  | none => (mdb.put mobjKey mobjVal, 0)

theorem putIfAbsent_snd (mdb : MetaDB) (mobjKey : MetadbKey) (mobjVal : MetadbVal) :
    (putIfAbsent mdb mobjKey mobjVal).2 = if (mdb.get mobjKey).isSome then -1 else 0 := by
  unfold putIfAbsent
  cases mdb.get mobjKey <;> rfl

theorem get_putIfAbsent (mdb : MetaDB) (mobjKey key : MetadbKey) (mobjVal : MetadbVal) :
    (putIfAbsent mdb mobjKey mobjVal).1.get key =
      if key = mobjKey ∧ mdb.get mobjKey = none then some mobjVal else mdb.get key := by
  unfold putIfAbsent
  cases stored : mdb.get mobjKey with
  | some _ => simp
  | none => simp only [get_put, and_true]

theorem get_putIfAbsent_of_ne (mdb : MetaDB) (mobjKey key : MetadbKey) (mobjVal : MetadbVal)
    (other : key ≠ mobjKey) : (putIfAbsent mdb mobjKey mobjVal).1.get key = mdb.get key := by
  rw [get_putIfAbsent, if_neg (fun both => other both.1)]

def metadbCreate (mdb : MetaDB) (dirId : ℕ) (partitionId : ℤ) (path realpath : List UInt8)
    (now : ℕ) : MetaDB × ℤ :=
  putIfAbsent mdb (initMetaObjKey gigaHashName dirId partitionId (some path))
    (initMetaVal mdb.initStatbuf none (strlen path) path (strlen realpath) realpath 0 [] now)

def metadbCreateDir (mdb : MetaDB) (dirId : ℕ) (partitionId : ℤ)
    (path : Option (List UInt8)) (inodeId serverId : ℕ) (dirMapping : Option GigaMapping)
    (now : ℕ) : MetaDB × ℤ :=
  putIfAbsent mdb (initMetaObjKey gigaHashName dirId partitionId path)
    (match path with
      | some path => initDirVal mdb.initStatbuf inodeId (strlen path) path serverId none now
      | none => initDirVal mdb.initStatbuf inodeId 0 [] serverId dirMapping now)

def metadbCreateEntry (mdb : MetaDB) (dirId : ℕ) (partitionId : ℤ) (path : List UInt8)
    (statbuf : Stat) (realpath : List UInt8) (dataLen : ℕ) (data : List UInt8) (now : ℕ) :
    MetaDB × ℤ :=
  putIfAbsent mdb (initMetaObjKey gigaHashName dirId partitionId (some path))
    (initMetaVal mdb.initStatbuf (some statbuf) (strlen path) path (strlen realpath) realpath
      dataLen data now)

def metadbRemove (mdb : MetaDB) (dirId : ℕ) (partitionId : ℤ) (path : List UInt8) :
    MetaDB × ℤ :=
  (mdb.delete (initMetaObjKey gigaHashName dirId partitionId (some path)), 0)

/-! ### Readers -/

def metadbLookup (mdb : MetaDB) (dirId : ℕ) (partitionId : ℤ) (path : List UInt8) :
    Option (Stat × Option ℕ) :=
  (mdb.get (initMetaObjKey gigaHashName dirId partitionId (some path))).map
    fun mobj => (mobj.statbuf, mobj.state)

/-- `metadb_get_file`: `some (.error ENOENT)` when the entry is missing, `none` when the
copy out of the value runs past its end. -/
def metadbGetFile (mdb : MetaDB) (dirId : ℕ) (partitionId : ℤ) (path : List UInt8) :
    Option (Except ℤ (ℕ × List (Option UInt8))) :=
  match mdb.get (initMetaObjKey gigaHashName dirId partitionId (some path)) with
  | none => some (.error enoent)
  | some mobjVal => (fileContents mobjVal).map .ok

/-- `metadb_read_bitmap`: the mapping stored after the header of the directory's bitmap
record; `none` when the record carries no mapping to copy. -/
def metadbReadBitmap (mdb : MetaDB) (dirId : ℕ) (partitionId : ℤ)
    (path : Option (List UInt8)) : Option (Except ℤ GigaMapping) :=
  match mdb.get (initMetaObjKey gigaHashName dirId partitionId path) with
  | none => some (.error (-1))
  | some mobjVal => mobjVal.dir.map .ok

/-! ### Updates through `metadb_update_internal` -/

def metadbUpdateInternal (mdb : MetaDB) (mobjKey : MetadbKey)
    (updateFunc : MetadbVal → Option (ℤ × MetadbVal)) : Option (MetaDB × ℤ) :=
  match mdb.get mobjKey with
  | none => some (mdb, enoent)
  | some mobjVal =>
    (updateFunc mobjVal).map fun (ret, mobjVal) =>
      if 0 ≤ ret then (mdb.put mobjKey mobjVal, ret) else (mdb, ret)

def metadbWriteFile (mdb : MetaDB) (dirId : ℕ) (partitionId : ℤ) (objname : List UInt8)
    (buf : List UInt8) (offset : ℕ) : Option (MetaDB × ℤ) :=
  metadbUpdateInternal mdb (initMetaObjKey gigaHashName dirId partitionId (some objname))
    fun mobjVal => (metadbWriteFileHandler mobjVal buf offset).map fun v => (buf.length, v)

def metadbWriteLink (mdb : MetaDB) (dirId : ℕ) (partitionId : ℤ) (objname pathname : List UInt8) :
    Option (MetaDB × ℤ) :=
  metadbUpdateInternal mdb (initMetaObjKey gigaHashName dirId partitionId (some objname))
    fun mobjVal => (metadbWriteLinkHandler mobjVal pathname).map fun v => (0, v)

def metadbSetattr (mdb : MetaDB) (dirId : ℕ) (partitionId : ℤ) (objname : List UInt8)
    (statbuf : Stat) : Option (MetaDB × ℤ) :=
  metadbUpdateInternal mdb (initMetaObjKey gigaHashName dirId partitionId (some objname))
    fun mobjVal => some (0, metadbSetattrHandler mobjVal statbuf)

def metadbChmod (mdb : MetaDB) (dirId : ℕ) (partitionId : ℤ) (path : List UInt8)
    (newMode : UInt32) : Option (MetaDB × ℤ) :=
  metadbUpdateInternal mdb (initMetaObjKey gigaHashName dirId partitionId (some path))
    fun mobjVal => some (0, metadbChmodHandler mobjVal newMode)

/-- `metadb_write_bitmap` returns 0 whatever `metadb_update_internal` returned. -/
def metadbWriteBitmap (mdb : MetaDB) (dirId : ℕ) (partitionId : ℤ)
    (path : Option (List UInt8)) (mapping : GigaMapping) : Option (MetaDB × ℤ) :=
  (metadbUpdateInternal mdb (initMetaObjKey gigaHashName dirId partitionId path)
    fun mobjVal => some (0, metadbWriteBitmapHandler mobjVal mapping)).map
    fun (mdb, _) => (mdb, 0)

end Store

section InodeCount

open CInt

/-- `metadb_get_next_inode_count`: the `uint64_t` count moves on by `2^9` and is returned as
an `int`. -/
def metadbGetNextInodeCount (mdb : MetaDB) : MetaDB × ℤ :=
  let mdb := { mdb with inodeCount := (mdb.inodeCount + 2 ^ 9) % 2 ^ 64 }
  (mdb, narrow32 mdb.inodeCount)

@[simp] theorem db_metadbGetNextInodeCount (mdb : MetaDB) :
    (metadbGetNextInodeCount mdb).1.db = mdb.db := by
  unfold metadbGetNextInodeCount
  rfl

def metadbGetNextInodeBatch (mdb : MetaDB) (bulkSize : ℤ) : MetaDB × ℤ :=
  let step := 2 ^ 9
  let next := (mdb.inodeCount + step) % 2 ^ 64
  let mdb := { mdb with inodeCount := (mdb.inodeCount + step * widen64 bulkSize) % 2 ^ 64 }
  (mdb, narrow32 next)

/-- `metadb_save_inode_count`: it formats the count, but its `leveldb_put` is commented out,
so the record under `INODE_COUNT_KEY` stays as it was. -/
def metadbSaveInodeCount (record : Option ℕ) (_mdb : MetaDB) : Option ℕ := record

def metadbSetInitInodeCount (mdb : MetaDB) (serverId : ℕ) : MetaDB :=
  { mdb with inodeCount := serverId }

/-- `metadb_init` on a database `disk` (`none` when it does not exist yet): a new one starts
the count at the server id, an existing one without a count record `10000` steps of `2^9`
past it. `cwd` is what `lstat("./")` fills `INIT_STATBUF` with. -/
def metadbInit (disk : Option (Store × Option ℕ)) (serverId : ℕ) (cwd : Stat) :
    (Store × Option ℕ) × MetaDB :=
  match disk with
  | none =>
    let mdb := metadbSetInitInodeCount ⟨∅, serverId, 0, cwd⟩ serverId
    ((∅, metadbSaveInodeCount none mdb), mdb)
  | some (db, some count) => ((db, some count), ⟨db, serverId, count, cwd⟩)
  | some (db, none) => ((db, none), ⟨db, serverId, serverId + (10000 <<< 9), cwd⟩)

end InodeCount

end Metadb
