import IndexFS.Giga.Index
import IndexFS.Lib.Buffer

/-! The value of a metadb record: a `metadb_val_header_t`, the object name, a NUL, the real path,
a NUL, and for a file kept in the database its data. A byte `none` was never written; a
handler that would write past the allocation fails with `none`. -/
namespace Metadb

open Buffer

def rpcLeveldbFileInDb : ℕ := 1
def rpcLeveldbFileInFs : ℕ := 2

def sIfmt : UInt32 := 0o170000
def sIfreg : UInt32 := 0o100000
def sIfdir : UInt32 := 0o040000
def allperms : UInt32 := 0o7777

structure Stat where
  stMode : UInt32
  stIno : ℕ
  stDev : ℕ
  stNlink : ℕ
  stUid : ℕ
  stGid : ℕ
  stSize : ℕ
  stAtime : ℕ
  stMtime : ℕ
  stCtime : ℕ
  deriving DecidableEq, Repr, Inhabited

structure MetadbVal where
  statbuf : Stat
  /-- `none` where the header's `state` was never written (`init_dir_val`). -/
  state : Option ℕ
  objnameLen : ℕ
  realpathLen : ℕ
  /-- The bytes after `metadb_val_header_t`. -/
  body : List (Option UInt8)
  /-- The `metadb_val_dir_t` that a directory's bitmap record carries after its header. -/
  dir : Option Giga.GigaMapping

def strlen (s : List UInt8) : ℕ := (s.takeWhile (· != 0)).length

def strncpy (src : List UInt8) (n : ℕ) : List UInt8 :=
  (src.takeWhile (· != 0) ++ List.replicate n 0).take n

/-- `strncpy (dst, src, n)` out of cells: up to the first NUL, padded with NULs to `n`
cells. It fails where it reads past the end of `src`. An unwritten cell is copied as it
is. -/
def strncpyCells : List (Option UInt8) → ℕ → Option (List (Option UInt8))
  | _, 0 => some []
  | [], _ + 1 => none
  | some 0 :: _, n + 1 => some (List.replicate (n + 1) (some 0))
  | c :: src, n + 1 => (c :: ·) <$> strncpyCells src n

def cString (cells : List (Option UInt8)) : Option (List (Option UInt8)) :=
  if some 0 ∈ cells then some (cells.takeWhile (· != some 0)) else none

def metadbHeaderSize (mobjVal : MetadbVal) : ℕ :=
  mobjVal.objnameLen + mobjVal.realpathLen + 2

def dataOffset (mobjVal : MetadbVal) : ℕ := mobjVal.objnameLen + mobjVal.realpathLen + 2

/-- `init_meta_val`; `initStatbuf` is the process's `INIT_STATBUF`. -/
def initMetaVal (initStatbuf : Stat) (statbuf : Option Stat) (objnameLen : ℕ)
    (objname : List UInt8) (realpathLen : ℕ) (realpath : List UInt8) (dataLen : ℕ)
    (data : List UInt8) (now : ℕ) : MetadbVal where
  statbuf := match statbuf with
    | none =>
      { initStatbuf with
        stIno := 0
        stMode := (initStatbuf.stMode &&& ~~~sIfmt) ||| sIfreg
        stNlink := 1
        stSize := dataLen
        stAtime := now
        stMtime := now
        stCtime := now }
    | some statbuf => statbuf
  state := some (if realpathLen = 0 then rpcLeveldbFileInDb else rpcLeveldbFileInFs)
  objnameLen := objnameLen
  realpathLen := realpathLen
  -- every byte of the allocation is written: the `if (data_len > 0)` copy writes the
  -- last `data_len` of them
  body := ((strncpy objname objnameLen).map some ++ [some 0]) ++
    ((strncpy realpath realpathLen).map some ++ [some 0]) ++
    (strncpy data dataLen).map some
  dir := none

/-- `init_dir_val`. The header's `state` and the NUL after the empty real path are never
written. -/
def initDirVal (initStatbuf : Stat) (inodeId objnameLen : ℕ) (objname : List UInt8)
    (serverId : ℕ) (dirVal : Option Giga.GigaMapping) (now : ℕ) : MetadbVal where
  statbuf :=
    { initStatbuf with
      stIno := inodeId
      stMode := (initStatbuf.stMode &&& ~~~sIfmt) ||| sIfdir
      stSize := 4096
      stNlink := 2
      stAtime := now
      stMtime := now
      stCtime := now
      stDev := serverId }
  state := none
  objnameLen := objnameLen
  realpathLen := 0
  body := (strncpy objname objnameLen).map some ++ [some 0] ++ fresh 1
  dir := dirVal

/-! ## Readers -/

def fileContents (mobjVal : MetadbVal) : Option (ℕ × List (Option UInt8)) :=
  if mobjVal.state = some rpcLeveldbFileInFs then
    (read mobjVal.body (mobjVal.objnameLen + 1) mobjVal.realpathLen).map
      fun buf => (rpcLeveldbFileInFs, buf)
  else
    (read mobjVal.body (dataOffset mobjVal) mobjVal.statbuf.stSize).map
      fun buf => (rpcLeveldbFileInDb, buf)

/-! ## Update handlers, as `metadb_update_internal` applies them -/

def metadbWriteFileHandler (mobjVal : MetadbVal) (buf : List UInt8) (offset : ℕ) :
    Option MetadbVal :=
  let mobjData := dataOffset mobjVal
  if offset + buf.length ≤ mobjVal.statbuf.stSize then
    (write mobjVal.body (mobjData + offset) buf).map fun body => { mobjVal with body }
  else
    let newFileSize := offset + buf.length
    -- `new_size - mobj_val->size` fresh bytes after a copy of the old value
    let grown := mobjVal.body ++ fresh (newFileSize - mobjVal.statbuf.stSize)
    (write grown (mobjData + offset) buf).map fun body =>
      { mobjVal with statbuf := { mobjVal.statbuf with stSize := newFileSize }, body }

/-- `metadb_write_link_handler`: the new value keeps the header and the first
`objname_len + 2` bytes after it, then the new real path; its last byte is written only
when the path is empty. -/
def metadbWriteLinkHandler (mobjVal : MetadbVal) (path : List UInt8) : Option MetadbVal := do
  let realpathLen := strlen path
  let kept ← read mobjVal.body 0 (mobjVal.objnameLen + 2)
  let body ← write (kept ++ fresh realpathLen) (mobjVal.objnameLen + 1)
    (strncpy path realpathLen)
  some { mobjVal with
    realpathLen
    state := some rpcLeveldbFileInFs
    body
    dir := none }

def metadbSetattrHandler (mobjVal : MetadbVal) (statbuf : Stat) : MetadbVal :=
  { mobjVal with statbuf }

def metadbChmodHandler (mobjVal : MetadbVal) (newMode : UInt32) : MetadbVal :=
  { mobjVal with
    statbuf := { mobjVal.statbuf with
      stMode := (mobjVal.statbuf.stMode &&& ~~~allperms) ||| newMode } }

def metadbWriteBitmapHandler (mobjVal : MetadbVal) (mapping : Giga.GigaMapping) :
    MetadbVal :=
  { mobjVal with dir := some mapping }

end Metadb
