import IndexFS.ColumnDb.Db

/-! `ColumnDB` as a map from keys to values: on an empty index DB, `Get` after any run of `Put`s
and `Delete`s reads the value of the key's last `Put`, while every record fits the location
word. `Holds` is the invariant that carries it. -/
namespace ColumnDb

open Buffer

/-! ## Data file names -/

theorem toList_pad6 (s : String) :
    (pad6 s).toList = List.replicate (6 - s.length) '0' ++ s.toList := by
  simp [pad6, String.toList_append]

theorem ofDigitChars_pad6 (n : ℕ) : Nat.ofDigitChars 10 (pad6 (toString n)).toList 0 = n := by
  simp [toList_pad6, Nat.ofDigitChars_append, Nat.toString_eq_repr, Nat.toList_repr]

theorem toList_dataFileName (dbname : String) (number : UInt64) :
    (dataFileName dbname number).toList = dbname.toList ++ '/' :: 'l' ::
      ((toString (number >>> 14).toNat).toList ++ '/' :: 'd' :: 'b' ::
        ((pad6 (toString number.toNat)).toList ++ ['.', 'd', 'a', 't'])) := by
  simp [dataFileName, String.toList_append]

theorem dataFileName_injective (dbname : String) : Function.Injective (dataFileName dbname) := by
  intro a b same
  have chars := congrArg String.toList same
  rw [toList_dataFileName, toList_dataFileName, List.append_cancel_left_eq] at chars
  simp only [List.cons.injEq, true_and, Nat.toString_eq_repr, Nat.toList_repr] at chars
  -- the directory number is all digits, so the `/` after it is the same `/` on both sides
  have noSlash : ∀ n : ℕ, '/' ∉ Nat.toDigits 10 n := fun n mem =>
    absurd (Nat.isDigit_of_mem_toDigits (by decide) (by decide) mem) (by decide)
  have noSlashAfter : '/' ∉ 'd' :: 'b' :: ((pad6 (Nat.repr a.toNat)).toList ++ ['.', 'd', 'a', 't']) := by
    simp [toList_pad6, Nat.toList_repr, List.mem_replicate, noSlash]
  obtain ⟨-, -, rest⟩ := (List.append_cons_inj_of_notMem (noSlash _) noSlashAfter).mp chars
  simp only [List.cons.injEq, true_and, List.append_cancel_right_eq] at rest
  apply UInt64.toNat_inj.mp
  rw [← ofDigitChars_pad6 a.toNat, ← ofDigitChars_pad6 b.toNat, Nat.toString_eq_repr,
    Nat.toString_eq_repr, rest]

/-! ## Records -/

def putRecord (key value : List UInt8) : List UInt8 :=
  encodeFixed64 (recordHeader key.length.toUInt64 value.length.toUInt64) ++ key ++ value

@[simp] theorem length_putRecord (key value : List UInt8) :
    (putRecord key value).length = 8 + key.length + value.length := by
  simp only [putRecord, List.length_append, length_encodeFixed64]

/-- A record the location word can point at: its length, rounded up to KiB, fits the ten
bits the word has for it. -/
def Fits (key value : List UInt8) : Prop := 8 + key.length + value.length + 1023 < 2 ^ 20

instance (key value : List UInt8) : Decidable (Fits key value) :=
  inferInstanceAs (Decidable (_ < _))

theorem Fits.total {key value : List UInt8} (fits : Fits key value) :
    (putRecord key value).length + 1023 < 2 ^ 20 := by
  unfold Fits at fits
  rw [length_putRecord]
  omega

theorem internalGet_of_cells {db : ColumnDB} {fileNumber offset bufSize : UInt64}
    {key value : List UInt8} {cells : List (Option UInt8)} (fits : Fits key value)
    (got : (if fileNumber = db.currentLogNumber then db.membuf.get offset.toNat bufSize.toNat
      else some (dataCacheGet db.env db.dbnamePrefix fileNumber offset bufSize)) =
        some (.ok cells))
    (start : (putRecord key value).map some <+: cells) :
    internalGet db fileNumber offset bufSize = some (.ok (value.map some)) := by
  unfold Fits at fits
  obtain ⟨rest, rfl⟩ := start
  have keyLength : key.length.toUInt64.toNat = key.length := toNat_toUInt64_of_lt (by omega)
  have valueLength : value.length.toUInt64.toNat = value.length := toNat_toUInt64_of_lt (by omega)
  have header := (decodeHeader_recordHeader_iff key.length.toUInt64 value.length.toUInt64).mpr
    ⟨by rw [keyLength]; omega, by rw [valueLength]; omega⟩
  have head : readFixed64 ((putRecord key value).map some ++ rest) =
      some (recordHeader key.length.toUInt64 value.length.toUInt64) := by
    rw [putRecord, List.map_append, List.map_append, List.append_assoc, List.append_assoc,
      readFixed64_encodeFixed64]
  unfold internalGet
  dsimp only
  -- the read from the buffer and the read from the file go on the same way
  split <;> rename_i current <;> simp only [current, ↓reduceIte] at got <;>
    simp only [got, Option.bind_eq_bind, Option.bind_some, head, header] <;>
    rw [if_neg (fun other => other rfl), if_neg (by simp; omega), keyLength, valueLength] <;>
    simp [putRecord, List.drop_append, List.take_append]

theorem le_readSize {total : ℕ} (lt : total < 2 ^ 20) :
    total ≤ ((total.toUInt64 + 1023) / 1024 * 1024 : UInt64).toNat := by
  have exact : ((total.toUInt64 + 1023) / 1024 * 1024 : UInt64).toNat =
      (total + 1023) / 1024 * 1024 := by
    simp only [UInt64.toNat_mul, UInt64.toNat_div, UInt64.toNat_add,
      toNat_toUInt64_of_lt (by omega : total < 2 ^ 64), UInt64.toNat_ofNat, Nat.reduceMod,
      Nat.reducePow]
    omega
  omega

theorem decodeFileLoc_record {fileNumber : UInt64} {offset total : ℕ}
    (numbered : fileNumber.toNat < 2 ^ 22) (small : offset < 2 ^ 32) (fits : total + 1023 < 2 ^ 20) :
    decodeFileLoc (fileLoc fileNumber offset.toUInt64 total.toUInt64) =
      (fileNumber, offset.toUInt64, (total.toUInt64 + 1023) / 1024 * 1024) := by
  have totalNat : total.toUInt64.toNat = total := toNat_toUInt64_of_lt (by omega)
  have offsetNat : offset.toUInt64.toNat = offset := toNat_toUInt64_of_lt (by omega)
  exact (decodeFileLoc_fileLoc_iff fileNumber offset.toUInt64 total.toUInt64 (by omega)).mpr
    ⟨numbered, by rw [offsetNat]; exact small, by rw [totalNat]; omega⟩

theorem get_of_fileLoc {db : ColumnDB} {key : List UInt8} {fileNumber : UInt64} {offset total : ℕ}
    (found : db.indexdb.lookup key =
      some (encodeFixed64 (fileLoc fileNumber offset.toUInt64 total.toUInt64)))
    (numbered : fileNumber.toNat < 2 ^ 22) (small : offset < 2 ^ 32) (fits : total + 1023 < 2 ^ 20) :
    get db key = internalGet db fileNumber offset.toUInt64 ((total.toUInt64 + 1023) / 1024 * 1024) := by
  rw [get_of_lookup found, decodeFileLoc_record numbered small fits]

theorem MemBuffer.get_of_read {m : MemBuffer} {offset size : ℕ} {bytes : List UInt8}
    (got : read m.buffer offset bytes.length = some (bytes.map some)) (enough : bytes.length ≤ size)
    (pos : 0 < bytes.length) :
    ∃ cells, m.get offset size = some (.ok cells) ∧ bytes.map some <+: cells := by
  have inside := ((read_eq_some_iff _ _ _ _).mp got).1
  unfold MemBuffer.get MemBuffer.bufferSize
  rw [if_neg (by omega)]
  dsimp only
  -- the read is clamped to the end of the buffer, which the bytes do not pass
  set clamped := if size + offset > m.buffer.length then m.buffer.length - offset else size
  have covers : bytes.length ≤ clamped ∧ offset + clamped ≤ m.buffer.length := by
    simp only [clamped]
    split <;> omega
  obtain ⟨cells, cellsGot⟩ : ∃ cells, read m.buffer offset clamped = some cells :=
    ⟨_, if_pos covers.2⟩
  refine ⟨cells, by rw [cellsGot]; rfl, ?_⟩
  have first := read_of_le cellsGot covers.1
  rw [got, Option.some_inj] at first
  rw [first]
  exact List.take_prefix _ _

theorem dataCacheGet_of_stored {env : Env} {dbname : String} {fileNumber size : UInt64}
    {offset : ℕ} {contents bytes : List UInt8}
    (file : env.lookup (dataFileName dbname fileNumber) = some contents)
    (start : bytes <+: contents.drop offset) (small : offset < 2 ^ 64)
    (enough : bytes.length ≤ size.toNat) :
    ∃ cells, dataCacheGet env dbname fileNumber offset.toUInt64 size = .ok cells ∧
      bytes.map some <+: cells := by
  refine ⟨_, by rw [dataCacheGet, file, toNat_toUInt64_of_lt small], ?_⟩
  apply List.IsPrefix.map
  rw [List.prefix_iff_eq_take] at start ⊢
  rw [List.take_take, Nat.min_eq_left enough]
  exact start

/-! ## What one `Put` does -/

theorem put_eq_of_room (unreturned : Status) {db : ColumnDB} {key value : List UInt8}
    {fname : String} (room : (putRecord key value).length ≤ db.membuf.freeBufferSize)
    (opened : db.datafile = some fname) :
    ∃ buf₁ buf₂ membuf,
      write db.membuf.buffer (db.membuf.bufferSize - db.membuf.freeBufferSize)
        (encodeFixed64 (recordHeader key.length.toUInt64 value.length.toUInt64)) = some buf₁ ∧
      write buf₁ (db.membuf.bufferSize - db.membuf.freeBufferSize + 8) key = some buf₂ ∧
      write buf₂ (db.membuf.bufferSize - db.membuf.freeBufferSize + 8 + key.length) value =
        some membuf.buffer ∧
      membuf.freeBufferSize = db.membuf.freeBufferSize - (putRecord key value).length ∧
      put unreturned db key value = some ({ db with
        membuf
        env := db.env.insert fname ((db.env.lookup fname).getD [] ++ putRecord key value)
        indexdb := db.indexdb.insert key (encodeFixed64 (fileLoc db.currentLogNumber
          (db.membuf.bufferSize - db.membuf.freeBufferSize).toUInt64
          (putRecord key value).length.toUInt64)) }, .ok) := by
  rw [length_putRecord] at room ⊢
  have enough : db.membuf.hasEnough (8 + key.length + value.length) = true := decide_eq_true room
  obtain ⟨m₁, appended₁, wrote₁, free₁⟩ := db.membuf.append_of_le
    (encodeFixed64 (recordHeader key.length.toUInt64 value.length.toUInt64)) (by
      rw [length_encodeFixed64]; omega)
  rw [length_encodeFixed64] at free₁
  have size₁ := MemBuffer.bufferSize_of_append appended₁
  obtain ⟨m₂, appended₂, wrote₂, free₂⟩ := m₁.append_of_le key (by omega)
  have size₂ := MemBuffer.bufferSize_of_append appended₂
  obtain ⟨m₃, appended₃, wrote₃, free₃⟩ := m₂.append_of_le value (by omega)
  have within := db.membuf.free_le
  -- the key and the value follow the header in the buffer
  have loc₂ : m₁.bufferSize - m₁.freeBufferSize =
      db.membuf.bufferSize - db.membuf.freeBufferSize + 8 := by
    rw [size₁, free₁]
    unfold MemBuffer.bufferSize
    omega
  have loc₃ : m₂.bufferSize - m₂.freeBufferSize =
      db.membuf.bufferSize - db.membuf.freeBufferSize + 8 + key.length := by
    rw [size₂, free₂, size₁, free₁]
    unfold MemBuffer.bufferSize
    omega
  rw [loc₂] at wrote₂
  rw [loc₃] at wrote₃
  refine ⟨_, _, m₃, wrote₁, wrote₂, wrote₃, by omega, ?_⟩
  simp only [put, enough, if_true, ne_eq, not_true_eq_false, if_false, appended₁,
    Option.bind_eq_bind, Option.bind_some, appendData, opened, appendIgnored, appended₂, appended₃,
    Option.pure_def, AList.lookup_insert, Option.getD_some, AList.insert_insert, putRecord,
    List.append_assoc]

theorem put_of_full {db : ColumnDB} {key value : List UInt8}
    (full : ¬ (putRecord key value).length ≤ db.membuf.freeBufferSize)
    (fits : (putRecord key value).length ≤ db.membuf.bufferSize) :
    put .ok db key value =
      put .ok { (newDataFile .ok db).1 with membuf := db.membuf.truncate } key value := by
  rw [length_putRecord] at full fits
  have short : db.membuf.hasEnough (8 + key.length + value.length) = false := decide_eq_false full
  have emptied : db.membuf.truncate.hasEnough (8 + key.length + value.length) = true :=
    decide_eq_true fits
  simp only [put, short, emptied, Bool.false_eq_true, if_false, if_true, newDataFile]

/-! ## What a database holds -/

def Stored (db : ColumnDB) (fileNumber : UInt64) (offset : ℕ) (bytes : List UInt8) : Prop :=
  ∃ contents, db.env.lookup (dataFileName db.dbnamePrefix fileNumber) = some contents ∧
    bytes <+: contents.drop offset

/-- What the index DB holds for `key`, against the value the map gives it: nothing, or the
location word of the key's record, in a data file no newer than the current one. -/
def Indexed (db : ColumnDB) (key : List UInt8) : Option (List UInt8) → Prop
  | none => db.indexdb.lookup key = none
  | some value => Fits key value ∧ ∃ fileNumber offset, fileNumber ≤ db.currentLogNumber ∧
      offset < 2 ^ 32 ∧
      db.indexdb.lookup key = some (encodeFixed64 (fileLoc fileNumber offset.toUInt64
        (putRecord key value).length.toUInt64)) ∧
      Stored db fileNumber offset (putRecord key value)

/-- An open `ColumnDB` that holds the map `m`. -/
structure Holds (db : ColumnDB) (m : List UInt8 → Option (List UInt8)) : Prop where
  datafile : db.datafile = some (dataFileName db.dbnamePrefix db.currentLogNumber)
  next : db.logNumber = db.currentLogNumber + 1
  numbered : db.currentLogNumber.toNat < 2 ^ 22
  bufferSize : db.membuf.bufferSize = 63 <<< 20
  /-- The current data file holds what the memory buffer holds below its first free byte. -/
  mirror : ∃ contents, db.env.lookup (dataFileName db.dbnamePrefix db.currentLogNumber) =
      some contents ∧ contents.length + db.membuf.freeBufferSize = db.membuf.bufferSize ∧
      read db.membuf.buffer 0 contents.length = some (contents.map some)
  indexed : ∀ key, Indexed db key (m key)

section Holds

variable {db : ColumnDB} {m : List UInt8 → Option (List UInt8)}

theorem Holds.read_current (holds : Holds db m) {offset : ℕ} {bytes : List UInt8}
    (stored : Stored db db.currentLogNumber offset bytes) (pos : 0 < bytes.length) :
    read db.membuf.buffer offset bytes.length = some (bytes.map some) := by
  obtain ⟨contents, file, start⟩ := stored
  obtain ⟨mirrored, mirrorFile, -, mirrorRead⟩ := holds.mirror
  obtain rfl : contents = mirrored := Option.some.inj (file.symm.trans mirrorFile)
  have taken := List.prefix_iff_eq_take.mp start
  have inside : offset + bytes.length ≤ contents.length := by
    have := start.length_le
    rw [List.length_drop] at this
    omega
  rw [← Nat.zero_add offset, read_within mirrorRead (by omega), ← List.map_drop, ← List.map_take,
    ← taken]

theorem Holds.get (holds : Holds db m) (key : List UInt8) :
    get db key = some (match m key with
      | none => .error .notFound
      | some value => .ok (value.map some)) := by
  have indexed := holds.indexed key
  cases held : m key with
  | none =>
    rw [held] at indexed
    have absent : db.indexdb.lookup key = none := indexed
    simp only [ColumnDb.get, absent, Option.pure_def]
  | some value =>
    rw [held] at indexed
    obtain ⟨fits, fileNumber, offset, older, small, found, stored⟩ := indexed
    have total := fits.total
    have totalNat : (putRecord key value).length.toUInt64.toNat = (putRecord key value).length :=
      toNat_toUInt64_of_lt (by omega)
    have offsetNat : offset.toUInt64.toNat = offset := toNat_toUInt64_of_lt (by omega)
    rw [get_of_fileLoc found (Nat.lt_of_le_of_lt (UInt64.le_iff_toNat_le.mp older) holds.numbered)
      small total]
    have enough := le_readSize (Nat.lt_of_le_of_lt (Nat.le_add_right _ 1023) total)
    rw [← totalNat] at enough
    -- the read finds the record, from the buffer or from the data file
    by_cases current : fileNumber = db.currentLogNumber
    · subst current
      obtain ⟨cells, got, start⟩ := MemBuffer.get_of_read
        (holds.read_current stored (by rw [length_putRecord]; omega)) (totalNat ▸ enough)
        (by rw [length_putRecord]; omega)
      exact internalGet_of_cells fits (by rw [if_pos rfl, offsetNat]; exact got) start
    · obtain ⟨contents, file, start⟩ := stored
      obtain ⟨cells, got, prefixed⟩ := dataCacheGet_of_stored file start (by omega)
        (totalNat ▸ enough)
      exact internalGet_of_cells fits (by rw [if_neg current, got]) prefixed

theorem Indexed.of_frame {db' : ColumnDB} {key : List UInt8} {v : Option (List UInt8)}
    (indexed : Indexed db key v) (same : db'.indexdb.lookup key = db.indexdb.lookup key)
    (later : db.currentLogNumber ≤ db'.currentLogNumber)
    (stored : ∀ fileNumber offset bytes, fileNumber ≤ db.currentLogNumber →
      Stored db fileNumber offset bytes → Stored db' fileNumber offset bytes) :
    Indexed db' key v := by
  cases v with
  | none =>
    show db'.indexdb.lookup key = none
    rw [same]
    exact indexed
  | some value =>
    obtain ⟨fits, fileNumber, offset, older, small, found, held⟩ := indexed
    exact ⟨fits, fileNumber, offset, UInt64.le_trans older later, small, same.trans found,
      stored _ _ _ older held⟩

theorem Holds.delete (holds : Holds db m) (key : List UInt8) :
    Holds (delete db key).1 (Function.update m key none) where
  datafile := holds.datafile
  next := holds.next
  numbered := holds.numbered
  bufferSize := holds.bufferSize
  mirror := holds.mirror
  indexed k := by
    by_cases same : k = key
    · subst same
      rw [Function.update_self]
      exact AList.lookup_erase k db.indexdb
    · rw [Function.update_of_ne same]
      exact (holds.indexed k).of_frame (AList.lookup_erase_ne same) (UInt64.le_refl _)
        fun _ _ _ _ held => held

theorem Holds.put_of_room (holds : Holds db m) {key value : List UInt8} (fits : Fits key value)
    (room : (putRecord key value).length ≤ db.membuf.freeBufferSize) :
    ∃ db', put .ok db key value = some (db', .ok) ∧
      Holds db' (Function.update m key (some value)) ∧
      db'.currentLogNumber = db.currentLogNumber := by
  obtain ⟨contents, file, length, mirrored⟩ := holds.mirror
  obtain ⟨buf₁, buf₂, membuf, wrote₁, wrote₂, wrote₃, free, done⟩ :=
    put_eq_of_room .ok room holds.datafile
  refine ⟨_, done, ?_, rfl⟩
  have location : db.membuf.bufferSize - db.membuf.freeBufferSize = contents.length := by omega
  rw [location] at wrote₁ wrote₂ wrote₃
  set name := dataFileName db.dbnamePrefix db.currentLogNumber
  -- the current data file grows by the record, every other one stays
  have grown : (db.env.insert name ((db.env.lookup name).getD [] ++ putRecord key value)).lookup
      name = some (contents ++ putRecord key value) := by
    rw [AList.lookup_insert, file]
    rfl
  have kept : ∀ fileNumber offset bytes, Stored db fileNumber offset bytes →
      Stored { db with membuf, env := db.env.insert name ((db.env.lookup name).getD [] ++
        putRecord key value) } fileNumber offset bytes := by
    rintro fileNumber offset bytes ⟨old, oldFile, start⟩
    by_cases current : fileNumber = db.currentLogNumber
    · subst current
      obtain rfl : old = contents := Option.some.inj (oldFile.symm.trans file)
      refine ⟨_, grown, start.trans ?_⟩
      rw [List.drop_append]
      exact List.prefix_append _ _
    · refine ⟨old, ?_, start⟩
      rw [AList.lookup_insert_ne (fun same => current (dataFileName_injective _ same)), oldFile]
  have sizeKept : membuf.buffer.length = db.membuf.buffer.length := by
    rw [length_write wrote₃, length_write wrote₂, length_write wrote₁]
  refine
    { datafile := holds.datafile
      next := holds.next
      numbered := holds.numbered
      bufferSize := by
        rw [← holds.bufferSize]
        exact sizeKept
      mirror := ⟨contents ++ putRecord key value, grown, ?_, ?_⟩
      indexed := fun k => ?_ }
  · unfold MemBuffer.bufferSize at length ⊢
    rw [sizeKept, free, List.length_append]
    omega
  · -- below the record the buffer is as it was, and the record follows
    have below : read membuf.buffer 0 contents.length = some (contents.map some) := by
      rw [read_write_of_disjoint wrote₃ _ _ (.inl (by omega)),
        read_write_of_disjoint wrote₂ _ _ (.inl (by omega)),
        read_write_of_disjoint wrote₁ _ _ (.inl (by omega)), mirrored]
    have record := read_record (length_encodeFixed64 _) wrote₁ wrote₂ wrote₃
    rw [← Nat.zero_add contents.length] at record
    rw [List.length_append, length_putRecord, List.map_append]
    exact read_add below record
  · by_cases same : k = key
    · subst same
      rw [Function.update_self]
      refine ⟨fits, db.currentLogNumber, contents.length, UInt64.le_refl _, ?_, ?_,
        _, grown, ?_⟩
      · have := holds.bufferSize
        unfold MemBuffer.bufferSize at this length
        rw [this] at length
        omega
      · rw [location]
        exact AList.lookup_insert _
      · simpa only [List.drop_left] using List.prefix_refl (putRecord k value)
    · rw [Function.update_of_ne same]
      exact (holds.indexed k).of_frame (AList.lookup_insert_ne same) (UInt64.le_refl _)
        fun fileNumber offset bytes _ held => kept fileNumber offset bytes held

theorem Holds.newDataFile (holds : Holds db m) (numbered : db.currentLogNumber.toNat + 1 < 2 ^ 22) :
    Holds { (newDataFile .ok db).1 with membuf := db.membuf.truncate } m := by
  have nextNat : db.logNumber.toNat = db.currentLogNumber.toNat + 1 := by
    rw [holds.next, UInt64.toNat_add, UInt64.toNat_one]
    omega
  -- the new file's name is no older file's name
  have fresh : ∀ fileNumber, fileNumber ≤ db.currentLogNumber →
      dataFileName db.dbnamePrefix db.logNumber ≠ dataFileName db.dbnamePrefix fileNumber := by
    intro fileNumber older same
    have := UInt64.le_iff_toNat_le.mp older
    rw [dataFileName_injective _ same] at nextNat
    omega
  refine
    { datafile := rfl
      next := rfl
      numbered := by
        show db.logNumber.toNat < 2 ^ 22
        omega
      bufferSize := holds.bufferSize
      mirror := ⟨[], AList.lookup_insert _, ?_, ?_⟩
      indexed := fun key => (holds.indexed key).of_frame rfl ?_ ?_ }
  · show 0 + db.membuf.buffer.length = db.membuf.buffer.length
    rw [Nat.zero_add]
  · exact (read_eq_some_iff _ _ _ _).mpr ⟨Nat.zero_le _, rfl⟩
  · show db.currentLogNumber ≤ db.logNumber
    exact UInt64.le_iff_toNat_le.mpr (by omega)
  · rintro fileNumber offset bytes older ⟨contents, file, start⟩
    exact ⟨contents, by rw [← file]; exact AList.lookup_insert_ne (fresh fileNumber older).symm,
      start⟩

theorem Holds.put (holds : Holds db m) {key value : List UInt8} (fits : Fits key value)
    (numbered : db.currentLogNumber.toNat + 1 < 2 ^ 22) :
    ∃ db', put .ok db key value = some (db', .ok) ∧
      Holds db' (Function.update m key (some value)) ∧
      db'.currentLogNumber.toNat ≤ db.currentLogNumber.toNat + 1 := by
  by_cases room : (putRecord key value).length ≤ db.membuf.freeBufferSize
  · obtain ⟨db', done, holds', same⟩ := holds.put_of_room fits room
    exact ⟨db', done, holds', by rw [same]; omega⟩
  · have small : (putRecord key value).length ≤ db.membuf.bufferSize := by
      unfold Fits at fits
      rw [length_putRecord, holds.bufferSize]
      omega
    have rolled := holds.newDataFile numbered
    obtain ⟨db', done, holds', same⟩ := rolled.put_of_room fits (by
      show (putRecord key value).length ≤ db.membuf.buffer.length
      exact small)
    refine ⟨db', (put_of_full room small).trans done, holds', ?_⟩
    rw [same]
    show db.logNumber.toNat ≤ _
    rw [holds.next, UInt64.toNat_add, UInt64.toNat_one]
    omega

end Holds

theorem holds_columnDbOpen (env : Env) (dbname : String) (serverId : ℕ)
    (numbered : (recoverDb env dbname serverId).toNat < 2 ^ 22) :
    Holds (columnDbOpen .ok env dbname serverId ∅).1 fun _ => none where
  datafile := rfl
  next := rfl
  numbered := numbered
  bufferSize := length_fresh _
  mirror := ⟨[], AList.lookup_insert _, by
    show 0 + 63 <<< 20 = (fresh (63 <<< 20) : List (Option UInt8)).length
    rw [length_fresh, Nat.zero_add], (read_eq_some_iff _ _ _ _).mpr ⟨Nat.zero_le _, rfl⟩⟩
  indexed _ := rfl

/-! ## Runs of calls -/

inductive Op where
  | put (key value : List UInt8)
  | delete (key : List UInt8)

def Op.update (m : List UInt8 → Option (List UInt8)) : Op → List UInt8 → Option (List UInt8)
  | .put key value => Function.update m key (some value)
  | .delete key => Function.update m key none

def Op.Fits : Op → Prop
  | .put key value => ColumnDb.Fits key value
  | .delete _ => True

instance : DecidablePred Op.Fits
  | .put key value => inferInstanceAs (Decidable (Fits key value))
  | .delete _ => isTrue trivial

/-- The calls in turn, each of which must return OK; `NewDataFile`'s missing result reads
as OK. -/
def runOps (db : ColumnDB) : List Op → Option ColumnDB
  | [] => some db
  | .put key value :: ops => do
    let (db, s) ← put .ok db key value
    if s = .ok then runOps db ops else none
  | .delete key :: ops =>
    let (db, s) := delete db key
    if s = .ok then runOps db ops else none

theorem Holds.runOps_keeps {P : ColumnDB → Prop} {bound : ℕ}
    (keepsPut : ∀ {db db' : ColumnDB} {m : List UInt8 → Option (List UInt8)}
      {key value : List UInt8}, Holds db m → P db → Fits key value →
      db.currentLogNumber.toNat + 1 < bound → ColumnDb.put .ok db key value = some (db', .ok) →
      P db')
    (keepsDelete : ∀ {db : ColumnDB} (key : List UInt8), P db → P (ColumnDb.delete db key).1)
    (le : bound ≤ 2 ^ 22) {db : ColumnDB} {m : List UInt8 → Option (List UInt8)}
    (holds : Holds db m) (kept : P db) (ops : List Op) (fits : ∀ op ∈ ops, op.Fits)
    (numbered : db.currentLogNumber.toNat + ops.length < bound) :
    ∃ db', runOps db ops = some db' ∧ Holds db' (ops.foldl Op.update m) ∧ P db' := by
  -- each call moves to the next data file at most once
  induction ops generalizing db m with
  | nil => exact ⟨db, rfl, holds, kept⟩
  | cons op ops ih =>
    rw [List.length_cons] at numbered
    have fitsRest : ∀ op ∈ ops, op.Fits := fun op mem => fits op (List.mem_cons_of_mem _ mem)
    cases op with
    | put key value =>
      have fit : Fits key value := fits _ List.mem_cons_self
      obtain ⟨db', done, holds', later⟩ := holds.put fit (by omega)
      obtain ⟨db'', rest, holds'', kept''⟩ :=
        ih holds' (keepsPut holds kept fit (by omega) done) fitsRest (by omega)
      refine ⟨db'', ?_, holds'', kept''⟩
      simp only [ColumnDb.runOps, done, Option.bind_eq_bind, Option.bind_some, if_true, rest]
    | delete key =>
      obtain ⟨db', rest, holds', kept'⟩ := ih (holds.delete key) (keepsDelete key kept) fitsRest (by
        show db.currentLogNumber.toNat + ops.length < bound
        omega)
      exact ⟨db', by simp only [ColumnDb.runOps, ColumnDb.delete, if_true]; exact rest, holds', kept'⟩

theorem Holds.runOps {db : ColumnDB} {m : List UInt8 → Option (List UInt8)} (holds : Holds db m)
    (ops : List Op) (fits : ∀ op ∈ ops, op.Fits)
    (numbered : db.currentLogNumber.toNat + ops.length < 2 ^ 22) :
    ∃ db', runOps db ops = some db' ∧ Holds db' (ops.foldl Op.update m) := by
  obtain ⟨db', run, holds', -⟩ := holds.runOps_keeps (P := fun _ => True)
    (fun _ _ _ _ _ => trivial) (fun _ _ => trivial) le_rfl trivial ops fits numbered
  exact ⟨db', run, holds'⟩

/-- On a `ColumnDB` opened on an empty index DB, take a run of `Put`s and `Delete`s whose
records fit the location word and whose data file numbers fit their 22 bits. Every call
returns OK. Afterwards, `Get` of every key returns the value of its last `Put`, or
`NotFound` when it has none or a `Delete` came after it. -/
theorem get_returns_last_put (env : Env) (dbname : String) (serverId : ℕ) (ops : List Op)
    (fits : ∀ op ∈ ops, op.Fits)
    (numbered : (recoverDb env dbname serverId).toNat + ops.length < 2 ^ 22) :
    ∃ db, runOps (columnDbOpen .ok env dbname serverId ∅).1 ops = some db ∧
      ∀ key, get db key = some (match ops.foldl Op.update (fun _ => none) key with
        | none => .error .notFound
        | some value => .ok (value.map some)) := by
  have opened := holds_columnDbOpen env dbname serverId (by omega)
  obtain ⟨db, run, holds⟩ := opened.runOps ops fits numbered
  exact ⟨db, run, holds.get⟩

theorem get_returns_last_put_on_open :
    ∃ db, runOps (columnDbOpen .ok ∅ "/indexfs/l0" 0 ∅).1
        [.put [1] [2], .put [3] [4], .delete [1]] = some db ∧
      ∀ key, get db key = some (match [Op.put [1] [2], .put [3] [4], .delete [1]].foldl
          Op.update (fun _ => none) key with
        | none => .error .notFound
        | some value => .ok (value.map some)) :=
  get_returns_last_put ∅ "/indexfs/l0" 0 _ (by decide) (by decide)

end ColumnDb
