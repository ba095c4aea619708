import IndexFS.ColumnDb.Encoding
import IndexFS.Lib.Buffer
import Mathlib.Data.List.AList

/-! `ColumnDB` (`column_db.cc`): values in append-only data files, the index DB mapping each key
to the location word of its record, and the current file's records also in a `MemBuffer`.
`NewDataFile` has no `return` on its success path; `unreturned` is what its caller reads then. -/
namespace ColumnDb

open Buffer

inductive Status where
  | ok
  | notFound
  | ioError (msg msg2 : String)
  | bufferFull (msg : String)
  deriving DecidableEq, Repr

abbrev Env := AList fun _ : String => List UInt8

abbrev IndexDb := AList fun _ : List UInt8 => List UInt8

/-! ## The memory buffer (`membuf.h`) -/

structure MemBuffer where
  /-- `buffer`, `buffer_size` bytes from `new char[]` -/
  buffer : List (Option UInt8)
  freeBufferSize : ℕ
  free_le : freeBufferSize ≤ buffer.length

namespace MemBuffer

def bufferSize (m : MemBuffer) : ℕ := m.buffer.length

def init (writeBufferSize : ℕ) : MemBuffer :=
  ⟨fresh writeBufferSize, writeBufferSize, by rw [length_fresh]⟩

def hasEnough (m : MemBuffer) (bytes : ℕ) : Bool := decide (bytes ≤ m.freeBufferSize)

def append (m : MemBuffer) (data : List UInt8) : Option (Except Status (ℕ × MemBuffer)) :=
  if data.length > m.freeBufferSize then
    some (.error (.bufferFull "Appending data to a nearly full buffer"))
  else
    let location := m.bufferSize - m.freeBufferSize
    match wrote : write m.buffer location data with
    | none => none
    | some buffer =>
      some (.ok (location, ⟨buffer, m.freeBufferSize - data.length, by
        rw [length_write wrote]
        exact Nat.le_trans (Nat.sub_le _ _) m.free_le⟩))

def get (m : MemBuffer) (offset size : ℕ) : Option (Except Status (List (Option UInt8))) :=
  if offset ≥ m.bufferSize then some (.error (.ioError "Exceeding memory buffer size" ""))
  else
    let size := if size + offset > m.bufferSize then m.bufferSize - offset else size
    (read m.buffer offset size).map .ok

def truncate (m : MemBuffer) : MemBuffer := ⟨m.buffer, m.buffer.length, le_rfl⟩

end MemBuffer

/-! ## Files -/

def pad6 (s : String) : String := String.ofList (List.replicate (6 - s.length) '0') ++ s

def dataFileName (dbname : String) (number : UInt64) : String :=
  dbname ++ "/l" ++ toString (number >>> 14).toNat ++ "/db" ++ pad6 (toString number.toNat) ++
    ".dat"

def getChildren (env : Env) (dir : String) : List String :=
  env.keys.filterMap fun name =>
    let pre := (dir ++ "/").toList
    if pre.isPrefixOf name.toList then
      some (String.ofList ((name.toList.drop pre.length).takeWhile (· != '/')))
    else none

def stringEndsWith (src suffix : String) : Bool := suffix.toList.isSuffixOf src.toList

def atoi (s : String) : ℕ :=
  (s.toList.takeWhile Char.isDigit).foldl (fun n c => 10 * n + (c.toNat - '0'.toNat)) 0

def dataCacheGet (env : Env) (dbname : String) (fileNumber offset size : UInt64) :
    Except Status (List (Option UInt8)) :=
  let fname := dataFileName dbname fileNumber
  match env.lookup fname with
  | none => .error (.ioError fname "No such file or directory")
  | some contents => .ok (((contents.drop offset.toNat).take size.toNat).map some)

/-! ## The database -/

structure ColumnDB where
  env : Env
  dbname : String
  dbnamePrefix : String
  indexdb : IndexDb
  datafile : Option String
  membuf : MemBuffer
  serverId : ℕ
  logNumber : UInt64
  currentLogNumber : UInt64

/-- `ColumnDB::RecoverDB`: the largest number `atoi` reads from a `.dat` entry of
`dbname_`, or `server_id_ << 14`. The directory exists: `DB::Open` of the index DB has
just made it. -/
def recoverDb (env : Env) (dbname : String) (serverId : ℕ) : UInt64 :=
  (getChildren env dbname).foldl
    (fun logNumber child =>
      if stringEndsWith child ".dat" then
        let number := (atoi (String.ofList ((child.toList.drop 2).take 6))).toUInt64
        if number > logNumber then number else logNumber
      else logNumber)
    (serverId <<< 14).toUInt64

/-- `ColumnDB::NewDataFile`. `NewWritableFile` creates the file, or empties it. -/
def newDataFile (unreturned : Status) (db : ColumnDB) : ColumnDB × Status :=
  -- `NewLogNumber` returns `log_number_++`
  let newLogNumber := db.logNumber
  let fname := dataFileName db.dbnamePrefix newLogNumber
  ({ db with
      logNumber := db.logNumber + 1
      env := db.env.insert fname []
      currentLogNumber := newLogNumber
      datafile := some fname }, unreturned)

/-- The `ColumnDB` constructor and `ColumnDBOpen`, on the index DB `DB::Open` found.
`dbname_prefix_` is `dbname` up to its last `/`. -/
def columnDbOpen (unreturned : Status) (env : Env) (dbname : String) (serverId : ℕ)
    (indexdb : IndexDb) : ColumnDB × Status :=
  let chars := dbname.toList
  let pos := chars.length - 1 - (chars.reverse.idxOf '/')
  let dbnamePrefix := if '/' ∈ chars then String.ofList (chars.take pos) else dbname
  let db : ColumnDB :=
    { env, dbname, dbnamePrefix, indexdb
      datafile := none
      membuf := MemBuffer.init (63 <<< 20)
      serverId
      logNumber := recoverDb env dbname serverId
      currentLogNumber := 0 }
  newDataFile unreturned db

def appendData (db : ColumnDB) (data : List UInt8) : Option ColumnDB := do
  let fname ← db.datafile
  let contents := (db.env.lookup fname).getD []
  pure { db with env := db.env.insert fname (contents ++ data) }

/-- The `MemBuffer` appends whose status `Put` ignores. -/
def appendIgnored (m : MemBuffer) (data : List UInt8) : Option MemBuffer := do
  match ← m.append data with
  | .ok (_, m) => pure m
  | .error _ => pure m

/-- `ColumnDB::Put`. A failed `NewDataFile` returns with the mutex still held. -/
def put (unreturned : Status) (db : ColumnDB) (key value : List UInt8) :
    Option (ColumnDB × Status) := do
  let totalSize := 8 + key.length + value.length
  let (db, s) :=
    if db.membuf.hasEnough totalSize then (db, Status.ok)
    else
      let (db, s) := newDataFile unreturned db
      (if s = .ok then { db with membuf := db.membuf.truncate } else db, s)
  if s ≠ .ok then return (db, s)
  let header := encodeFixed64 (recordHeader key.length.toUInt64 value.length.toUInt64)
  -- a failed append would leave `location` uninitialised
  let (location, membuf) ← match ← db.membuf.append header with
    | .ok appended => some appended
    | .error _ => none
  let db ← appendData { db with membuf } header
  let membuf ← appendIgnored db.membuf key
  let membuf ← appendIgnored membuf value
  let db ← appendData { db with membuf } key
  let db ← appendData db value
  let loc := fileLoc db.currentLogNumber location.toUInt64 totalSize.toUInt64
  pure ({ db with indexdb := db.indexdb.insert key (encodeFixed64 loc) }, .ok)

def readFixed64 (result : List (Option UInt8)) : Option UInt64 := do
  let bytes ← (result.take 8).mapM id
  if bytes.length = 8 then some (decodeFixed64 bytes) else none

/-- `ColumnDB::InternalGet`: the value of the record at `offset` of data file
`fileNumber`, read with `bufSize` bytes. -/
def internalGet (db : ColumnDB) (fileNumber offset bufSize : UInt64) :
    Option (Except Status (List (Option UInt8))) := do
  let read ←
    if fileNumber = db.currentLogNumber then db.membuf.get offset.toNat bufSize.toNat
    else some (dataCacheGet db.env db.dbnamePrefix fileNumber offset bufSize)
  match read with
  | .error s => pure (.error s)
  | .ok result =>
    let header ← readFixed64 result
    let (magicNumber, keySize, valSize) := decodeHeader header
    if magicNumber ≠ kColumnMagicNumber then pure (.error (.ioError "Magic Number Not Match" ""))
    else if keySize.toNat + valSize.toNat + 8 > result.length then
      pure (.error (.ioError "Failed to read a full key value pair." ""))
    else pure (.ok ((result.drop (8 + keySize.toNat)).take valSize.toNat))

def get (db : ColumnDB) (key : List UInt8) : Option (Except Status (List (Option UInt8))) := do
  match db.indexdb.lookup key with
  | none => pure (.error .notFound)
  | some locationVal =>
    if locationVal.length < 8 then none
    else
      let (fileNumber, offset, bufSize) := decodeFileLoc (decodeFixed64 locationVal)
      internalGet db fileNumber offset bufSize

/-- `ColumnDB::Delete`: the key leaves the index DB; its record stays in its data file. -/
def delete (db : ColumnDB) (key : List UInt8) : ColumnDB × Status :=
  ({ db with indexdb := db.indexdb.erase key }, .ok)

def close (db : ColumnDB) : Env × IndexDb := (db.env, db.indexdb)

/-! ## What one `Put` writes -/

namespace MemBuffer

theorem append_of_le (m : MemBuffer) (data : List UInt8) (fits : data.length ≤ m.freeBufferSize) :
    ∃ m', m.append data = some (.ok (m.bufferSize - m.freeBufferSize, m')) ∧
      write m.buffer (m.bufferSize - m.freeBufferSize) data = some m'.buffer ∧
      m'.freeBufferSize = m.freeBufferSize - data.length := by
  have inside : m.bufferSize - m.freeBufferSize + data.length ≤ m.buffer.length := by
    have := m.free_le
    unfold bufferSize
    omega
  unfold append
  rw [if_neg (Nat.not_lt.mpr fits)]
  dsimp only
  split
  · rename_i wrote
    rw [write_of_le inside] at wrote
    cases wrote
  · rename_i buffer wrote
    exact ⟨_, rfl, wrote, rfl⟩

theorem bufferSize_of_append {m m' : MemBuffer} {data : List UInt8} {location : ℕ}
    (appended : m.append data = some (.ok (location, m'))) : m'.bufferSize = m.bufferSize := by
  unfold append at appended
  split at appended
  · cases appended
  · dsimp only at appended
    split at appended
    · cases appended
    · rename_i wrote
      cases appended
      exact length_write wrote

end MemBuffer

section Put

variable (unreturned : Status) (db : ColumnDB) (key value : List UInt8)

theorem put_of_room (room : 8 + key.length + value.length ≤ db.membuf.freeBufferSize)
    (opened : db.datafile.isSome) :
    ∃ db' header buf₁ buf₂,
      put unreturned db key value = some (db', .ok) ∧
      header = encodeFixed64 (recordHeader key.length.toUInt64 value.length.toUInt64) ∧
      write db.membuf.buffer (db.membuf.bufferSize - db.membuf.freeBufferSize) header = some buf₁ ∧
      write buf₁ (db.membuf.bufferSize - db.membuf.freeBufferSize + 8) key = some buf₂ ∧
      write buf₂ (db.membuf.bufferSize - db.membuf.freeBufferSize + 8 + key.length) value =
        some db'.membuf.buffer ∧
      db'.membuf.bufferSize = db.membuf.bufferSize ∧
      db'.currentLogNumber = db.currentLogNumber ∧
      db'.indexdb = db.indexdb.insert key (encodeFixed64
        (fileLoc db.currentLogNumber (db.membuf.bufferSize - db.membuf.freeBufferSize).toUInt64
          (8 + key.length + value.length).toUInt64)) := by
  obtain ⟨fname, datafile⟩ := Option.isSome_iff_exists.mp opened
  have enough : db.membuf.hasEnough (8 + key.length + value.length) = true := decide_eq_true room
  obtain ⟨m₁, appended₁, wrote₁, free₁⟩ := db.membuf.append_of_le
    (encodeFixed64 (recordHeader key.length.toUInt64 value.length.toUInt64)) (by
      rw [length_encodeFixed64]; omega)
  rw [length_encodeFixed64] at free₁
  have size₁ := MemBuffer.bufferSize_of_append appended₁
  obtain ⟨m₂, appended₂, wrote₂, free₂⟩ := m₁.append_of_le key (by omega)
  have size₂ := MemBuffer.bufferSize_of_append appended₂
  obtain ⟨m₃, appended₃, wrote₃, free₃⟩ := m₂.append_of_le value (by omega)
  have size₃ := MemBuffer.bufferSize_of_append appended₃
  simp only [put, enough, if_true, ne_eq, not_true_eq_false, if_false, appended₁, Option.bind_eq_bind,
    Option.bind_some, appendData, datafile, appendIgnored, appended₂, appended₃, Option.pure_def]
  have within := db.membuf.free_le
  have loc₂ : m₁.bufferSize - m₁.freeBufferSize =
      db.membuf.bufferSize - db.membuf.freeBufferSize + 8 := by
    rw [size₁, free₁]
    unfold MemBuffer.bufferSize
    omega
  have loc₃ : m₂.bufferSize - m₂.freeBufferSize =
      db.membuf.bufferSize - db.membuf.freeBufferSize + 8 + key.length := by
    rw [size₂, free₂, size₁, free₁]
    unfold MemBuffer.bufferSize
    omega
  rw [loc₂] at wrote₂
  rw [loc₃] at wrote₃
  exact ⟨_, _, _, _, rfl, rfl, wrote₁, wrote₂, wrote₃, by rw [size₃, size₂, size₁], rfl, rfl⟩

end Put

/-! ## What one `Get` reads -/

theorem get_of_lookup {db : ColumnDB} {key : List UInt8} {loc : UInt64}
    (found : db.indexdb.lookup key = some (encodeFixed64 loc)) :
    get db key = internalGet db (decodeFileLoc loc).1 (decodeFileLoc loc).2.1 (decodeFileLoc loc).2.2 := by
  have decoded : decodeFixed64 (encodeFixed64 loc) = loc := by
    simpa using decodeFixed64_encodeFixed64 loc []
  simp only [get, found, length_encodeFixed64, Nat.lt_irrefl, if_false, decoded]

theorem MemBuffer.get_of_le (m : MemBuffer) {offset size : ℕ} (inside : offset + size ≤ m.bufferSize)
    (pos : 0 < size) : m.get offset size = (read m.buffer offset size).map .ok := by
  unfold get
  rw [if_neg (by omega), if_neg (by omega)]

theorem internalGet_magic_mismatch {db : ColumnDB} {fileNumber offset bufSize : UInt64}
    {cells : List (Option UInt8)} {header : UInt64} (current : fileNumber = db.currentLogNumber)
    (got : db.membuf.get offset.toNat bufSize.toNat = some (.ok cells))
    (head : readFixed64 cells = some header) (other : (decodeHeader header).1 ≠ kColumnMagicNumber) :
    internalGet db fileNumber offset bufSize = some (.error (.ioError "Magic Number Not Match" "")) := by
  simp only [internalGet, if_pos current, got, Option.bind_eq_bind, Option.bind_some, head]
  rw [if_pos other]
  rfl

theorem read_shifted_header {buf buf₁ buf₂ buf₃ : List (Option UInt8)} {location : ℕ}
    {header key value : List UInt8} {first : UInt8} {rest : List UInt8} (eight : header.length = 8)
    (keyed : key = first :: rest)
    (wrote₁ : write buf location header = some buf₁)
    (wrote₂ : write buf₁ (location + 8) key = some buf₂)
    (wrote₃ : write buf₂ (location + 8 + key.length) value = some buf₃) :
    read buf₃ (location + 1) 8 = some ((header.drop 1 ++ [first]).map some) := by
  have keyLength : 1 ≤ key.length := by rw [keyed]; simp
  have upper : read buf₃ (location + 1) 7 = some ((header.drop 1).map some) := by
    rw [read_write_of_disjoint wrote₃ _ _ (.inl (by omega)),
      read_write_of_disjoint wrote₂ _ _ (.inl (by omega)),
      read_write_within wrote₁ (by omega) (by omega), Nat.add_sub_cancel_left,
      List.take_of_length_le (by simp [eight])]
  have next : read buf₃ (location + 1 + 7) 1 = some [some first] := by
    rw [show location + 1 + 7 = location + 8 by omega,
      read_write_of_disjoint wrote₃ _ _ (.inl (by omega)),
      read_write_within wrote₂ le_rfl (by omega), Nat.sub_self, keyed]
    rfl
  rw [read_add upper next, List.map_append]
  rfl

theorem readFixed64_encodeFixed64 (value : UInt64) (rest : List (Option UInt8)) :
    readFixed64 ((encodeFixed64 value).map some ++ rest) = some value := by
  have written : ((encodeFixed64 value).map some).mapM id = some (encodeFixed64 value) := rfl
  have decoded : decodeFixed64 (encodeFixed64 value) = value := by
    simpa using decodeFixed64_encodeFixed64 value []
  simp only [readFixed64, List.take_left' (by simp : ((encodeFixed64 value).map some).length = 8),
    written, Option.bind_eq_bind, Option.bind_some, length_encodeFixed64, if_true, decoded]

theorem internalGet_of_record {db : ColumnDB} {fileNumber offset bufSize : UInt64}
    {cells : List (Option UInt8)} {header keySize valSize : UInt64}
    (current : fileNumber = db.currentLogNumber)
    (got : db.membuf.get offset.toNat bufSize.toNat = some (.ok cells))
    (head : readFixed64 cells = some header)
    (decoded : decodeHeader header = (kColumnMagicNumber, keySize, valSize))
    (whole : keySize.toNat + valSize.toNat + 8 ≤ cells.length) :
    internalGet db fileNumber offset bufSize =
      some (.ok ((cells.drop (8 + keySize.toNat)).take valSize.toNat)) := by
  simp only [internalGet, if_pos current, got, Option.bind_eq_bind, Option.bind_some, head, decoded]
  rw [if_neg (fun other => other rfl), if_neg (Nat.not_lt.mpr whole)]
  rfl

theorem read_record {buf buf₁ buf₂ buf₃ : List (Option UInt8)} {location : ℕ}
    {header key value : List UInt8} (eight : header.length = 8)
    (wrote₁ : write buf location header = some buf₁)
    (wrote₂ : write buf₁ (location + 8) key = some buf₂)
    (wrote₃ : write buf₂ (location + 8 + key.length) value = some buf₃) :
    read buf₃ location (8 + key.length + value.length) = some ((header ++ key ++ value).map some) := by
  have headerPart : read buf₃ location 8 = some (header.map some) := by
    rw [read_write_of_disjoint wrote₃ _ _ (.inl (by omega)),
      read_write_of_disjoint wrote₂ _ _ (.inl (by omega)),
      read_write_within wrote₁ le_rfl (by omega), Nat.sub_self, List.drop_zero,
      List.take_of_length_le (by omega)]
  have keyPart : read buf₃ (location + 8) key.length = some (key.map some) := by
    rw [read_write_of_disjoint wrote₃ _ _ (.inl le_rfl), read_write_within wrote₂ le_rfl le_rfl,
      Nat.sub_self, List.drop_zero, List.take_length]
  have valuePart : read buf₃ (location + 8 + key.length) value.length = some (value.map some) := by
    rw [read_write_within wrote₃ le_rfl le_rfl, Nat.sub_self, List.drop_zero, List.take_length]
  rw [Nat.add_assoc] at valuePart
  rw [read_add (read_add headerPart keyPart) valuePart, List.map_append, List.map_append]

theorem toNat_toUInt64_of_lt {n : ℕ} (lt : n < 2 ^ 64) : n.toUInt64.toNat = n :=
  UInt64.toNat_ofNat_of_lt' lt

/-- Within the widths of its fields, `Get` returns the value of the `Put` before it, read
back from the memory buffer. -/
theorem get_after_put (unreturned : Status) (db : ColumnDB) (key value : List UInt8)
    (room : 8 + key.length + value.length ≤ db.membuf.freeBufferSize)
    (opened : db.datafile.isSome) (small : db.membuf.bufferSize < 2 ^ 32)
    (numbered : db.currentLogNumber.toNat < 2 ^ 22) (keyFits : key.length < 2 ^ 28)
    (valueFits : value.length < 2 ^ 20) (kib : 8 + key.length + value.length + 1023 < 2 ^ 10 * 1024) :
    ∃ db', put unreturned db key value = some (db', .ok) ∧ get db' key = some (.ok (value.map some)) := by
  obtain ⟨db', header, buf₁, buf₂, putOk, rfl, wrote₁, wrote₂, wrote₃, size', current, index⟩ :=
    put_of_room unreturned db key value room opened
  refine ⟨db', putOk, ?_⟩
  have within := db.membuf.free_le
  set location := db.membuf.bufferSize - db.membuf.freeBufferSize with hloc
  set total := 8 + key.length + value.length with htotal
  have fits : location + total ≤ db.membuf.bufferSize := by
    unfold MemBuffer.bufferSize at *
    omega
  -- the location word decodes back
  have decodedLoc := (decodeFileLoc_fileLoc_iff db.currentLogNumber location.toUInt64
    total.toUInt64 (by rw [toNat_toUInt64_of_lt (by omega)]; omega)).mpr
    ⟨numbered, by rw [toNat_toUInt64_of_lt (by omega)]; omega, by rw [toNat_toUInt64_of_lt (by omega)]; omega⟩
  have found : db'.indexdb.lookup key = some (encodeFixed64 (fileLoc db.currentLogNumber
      location.toUInt64 total.toUInt64)) := by
    rw [index, AList.lookup_insert]
  rw [get_of_lookup found, decodedLoc]
  set readSize := (total.toUInt64 + 1023) / 1024 * 1024 with hread
  have readNat : total ≤ readSize.toNat := by
    have : readSize.toNat = (total + 1023) / 1024 * 1024 := by
      simp only [hread, UInt64.toNat_mul, UInt64.toNat_div, UInt64.toNat_add, toNat_toUInt64_of_lt (by omega : total < 2 ^ 64),
        UInt64.toNat_ofNat, Nat.reduceMod, Nat.reducePow]
      omega
    omega
  -- the memory buffer serves the read, clamped to its end, and it covers the record
  set clamped := if readSize.toNat + location > db'.membuf.bufferSize then
    db'.membuf.bufferSize - location else readSize.toNat with hclamped
  have covers : total ≤ clamped ∧ location + clamped ≤ db'.membuf.bufferSize := by
    rw [hclamped, size']
    split <;> omega
  obtain ⟨cells, got⟩ : ∃ cells, read db'.membuf.buffer location clamped = some cells :=
    ⟨_, if_pos (by rw [← MemBuffer.bufferSize]; exact covers.2)⟩
  have served : db'.membuf.get location.toUInt64.toNat readSize.toNat = some (.ok cells) := by
    rw [toNat_toUInt64_of_lt (by omega)]
    unfold MemBuffer.get
    rw [if_neg (by rw [size']; omega)]
    dsimp only
    rw [← hclamped, got]
    rfl
  have record := read_record (length_encodeFixed64 _) wrote₁ wrote₂ wrote₃
  rw [read_of_le got covers.1, Option.some_inj] at record
  have long : total ≤ cells.length := by
    have := congrArg List.length record
    simp only [List.length_take, List.length_map, List.length_append, length_encodeFixed64] at this
    omega
  have head : readFixed64 cells = some (recordHeader key.length.toUInt64 value.length.toUInt64) := by
    have first : cells.take 8 = (encodeFixed64 (recordHeader key.length.toUInt64
        value.length.toUInt64)).map some := by
      rw [show cells.take 8 = (cells.take total).take 8 by
          rw [List.take_take, Nat.min_eq_left (by omega)],
        record, List.map_append, List.map_append, List.append_assoc, List.take_left' (by simp)]
    rw [← List.take_append_drop 8 cells, first, readFixed64_encodeFixed64]
  have header := (decodeHeader_recordHeader_iff key.length.toUInt64 value.length.toUInt64).mpr
    ⟨by rw [toNat_toUInt64_of_lt (by omega)]; exact keyFits, by rw [toNat_toUInt64_of_lt (by omega)]; exact valueFits⟩
  dsimp only
  rw [internalGet_of_record current.symm served head header
    (by rw [toNat_toUInt64_of_lt (by omega), toNat_toUInt64_of_lt (by omega)]; omega), toNat_toUInt64_of_lt (by omega), toNat_toUInt64_of_lt (by omega)]
  -- the value is what follows the header and the key
  have valueCells : (cells.drop (8 + key.length)).take value.length = value.map some := by
    rw [show value.length = total - (8 + key.length) by omega, ← List.drop_take, record,
      List.map_append, List.drop_left' (by simp)]
  rw [valueCells]

theorem get_after_put_on_open :
    ∃ db', put .ok (columnDbOpen .ok ∅ "/indexfs/l0" 0 ∅).1 [1] [2] = some (db', .ok) ∧
      get db' [1] = some (.ok [some 2]) :=
  get_after_put .ok _ [1] [2] (by decide) (by decide)
    (show (fresh (63 <<< 20) : List (Option UInt8)).length < 2 ^ 32 by rw [length_fresh]; decide)
    (by decide) (by decide) (by decide) (by decide)

/-- `Put` of a value of 1 MiB, then `Get` of its key: the read-length field of the location
word (`ceil(total / 1024) = 1025`) carries into the offset, and `Get` reads the record one
byte late. The magic number it finds is `0x18 + 256 * key[0]`, never `0x18ca`. -/
theorem get_after_megabyte_put (unreturned : Status) (db : ColumnDB) (key value : List UInt8)
    (keyed : key ≠ []) (shortKey : key.length ≤ 1016) (megabyte : value.length = 2 ^ 20)
    (room : 8 + key.length + value.length ≤ db.membuf.freeBufferSize)
    (opened : db.datafile.isSome) (small : db.membuf.bufferSize < 2 ^ 32)
    (numbered : db.currentLogNumber.toNat < 2 ^ 22) :
    ∃ db', put unreturned db key value = some (db', .ok) ∧
      get db' key = some (.error (.ioError "Magic Number Not Match" "")) := by
  obtain ⟨first, rest, rfl⟩ := List.exists_cons_of_ne_nil keyed
  obtain ⟨db', header, buf₁, buf₂, putOk, rfl, wrote₁, wrote₂, wrote₃, size', current, index⟩ :=
    put_of_room unreturned db (first :: rest) value room opened
  refine ⟨db', putOk, ?_⟩
  have within := db.membuf.free_le
  set location := db.membuf.bufferSize - db.membuf.freeBufferSize with hloc
  have fits : location + 8 + (first :: rest).length + value.length ≤ db.membuf.bufferSize := by
    unfold MemBuffer.bufferSize at *
    omega
  -- the location word, as a number
  set loc := fileLoc db.currentLogNumber location.toUInt64
    (8 + (first :: rest).length + value.length).toUInt64 with hw
  have locNat : loc.toNat = db.currentLogNumber.toNat * 2 ^ 42 + (location + 1) * 2 ^ 10 + 1 := by
    have lo : location.toUInt64.toNat = location := toNat_toUInt64_of_lt (by omega)
    have total : (8 + (first :: rest).length + value.length).toUInt64.toNat =
        8 + (first :: rest).length + 2 ^ 20 := by
      rw [toNat_toUInt64_of_lt (by omega), megabyte]
    rw [hw, toNat_fileLoc, lo, total]
    omega
  obtain ⟨number, offset, length⟩ := toNat_decodeFileLoc loc
  rw [locNat] at number offset length
  have found : db'.indexdb.lookup (first :: rest) = some (encodeFixed64 loc) := by
    rw [index, AList.lookup_insert]
  rw [get_of_lookup found]
  -- the memory buffer serves the read, 1024 bytes from one past the record's start
  obtain ⟨cells, got⟩ : ∃ cells, read db'.membuf.buffer (location + 1) 1024 = some cells :=
    ⟨_, if_pos (by rw [← MemBuffer.bufferSize, size']; omega)⟩
  have served : db'.membuf.get (decodeFileLoc loc).2.1.toNat (decodeFileLoc loc).2.2.toNat =
      some (.ok cells) := by
    rw [show (decodeFileLoc loc).2.1.toNat = location + 1 by omega,
      show (decodeFileLoc loc).2.2.toNat = 1024 by omega,
      MemBuffer.get_of_le _ (by rw [size']; omega) (by decide), got]
    rfl
  have shifted := read_shifted_header (length_encodeFixed64 _) rfl wrote₁ wrote₂ wrote₃
  rw [read_of_le got (by decide : 8 ≤ 1024), Option.some_inj] at shifted
  have head : readFixed64 cells = some (decodeFixed64
      ((encodeFixed64 (recordHeader (first :: rest).length.toUInt64 value.length.toUInt64)).drop 1 ++
        [first])) := by
    -- the eight cells are all written, and `mapM` over them computes
    simp only [readFixed64, shifted]
    rfl
  -- the magic number read one byte late
  have magic := (toNat_decodeHeader (decodeFixed64
      ((encodeFixed64 (recordHeader (first :: rest).length.toUInt64 value.length.toUInt64)).drop 1 ++
        [first]))).1
  rw [toNat_decodeFixed64_shifted, toNat_recordHeader] at magic
  have keyLen : (first :: rest).length.toUInt64.toNat = (first :: rest).length :=
    toNat_toUInt64_of_lt (by omega)
  have valueLen : value.length.toUInt64.toNat = 2 ^ 20 := by
    rw [toNat_toUInt64_of_lt (by omega), megabyte]
  rw [keyLen, valueLen] at magic
  have byte := UInt8.toNat_lt first
  refine internalGet_magic_mismatch (UInt64.toNat_inj.mp (by rw [number, current]; omega)) served head ?_
  intro same
  rw [same, show kColumnMagicNumber.toNat = 6346 from rfl] at magic
  omega

/-- On a database just opened as server 0's `l0`, the run where `NewDataFile`'s missing
result reads as OK. -/
theorem get_after_megabyte_put_on_open :
    ∃ db', put .ok (columnDbOpen .ok ∅ "/indexfs/l0" 0 ∅).1 [1] (List.replicate (2 ^ 20) 0) =
        some (db', .ok) ∧
      get db' [1] = some (.error (.ioError "Magic Number Not Match" "")) :=
  get_after_megabyte_put .ok _ [1] _ (by decide) (by decide) List.length_replicate
    (by rw [List.length_replicate]; decide) (by decide)
    (show (fresh (63 <<< 20) : List (Option UInt8)).length < 2 ^ 32 by rw [length_fresh]; decide)
    (by decide)

end ColumnDb
