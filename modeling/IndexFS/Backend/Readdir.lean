import IndexFS.Backend.Store
import Mathlib.Data.List.Sort
import Mathlib.Data.List.TakeWhile

/-! `metadb_readdir` and `MetadataBackend::Readdir`. The iterator visits keys in the order of
`CmpCompare`, `memcmp` over the little-endian bytes of `metadb_key_t`, and the scan runs while
the parent id is the directory's, past the end of the partition it was asked for. -/
namespace Metadb

open Giga Buffer CInt

def maxLen : ℕ := 512

def recLenSize : ℕ := 4

def le64 (n : ℕ) : List UInt8 := List.ofFn fun i : Fin 8 => UInt8.ofNat (n / 256 ^ i.val)

def le32 (n : ℕ) : List UInt8 := List.ofFn fun i : Fin 4 => UInt8.ofNat (n / 256 ^ i.val)

def keyBytes (key : MetadbKey) : List UInt8 :=
  le64 key.parentId ++ le64 (key.partitionId % 2 ^ 64).toNat ++ List.ofFn key.nameHash

/-- The records a leveldb iterator visits after `leveldb_iter_seek` to `key`: those at or
after it, in the comparator's order. -/
def seek (db : Store) (key : MetadbKey) : List (Σ _ : MetadbKey, MetadbVal) :=
  (db.entries.filter fun r => decide (keyBytes key ≤ keyBytes r.1)).insertionSort
    fun r r' => keyBytes r.1 ≤ keyBytes r'.1

/-- `readdir_filler`: the bytes it copies to `buf + *buf_offset`, the name's length as a
`readdir_rec_len_t` and then the name, and the offset after them; `some none` when they
would run past `buf_len` (it returns 1). `none` where the name runs past the end of the
value. -/
def readdirFiller (bufLen bufOffset : ℕ) (mval : MetadbVal) :
    Option (Option (List (Option UInt8) × ℕ)) :=
  let recLen := mval.objnameLen % 2 ^ 32
  if bufOffset + recLen + recLenSize ≤ bufLen then do
    let name ← read mval.body 0 recLen
    pure (some ((le32 recLen).map some ++ name, bufOffset + recLen + recLenSize))
  else pure none

/-- The loop of `metadb_readdir` from buffer offset `bufOffset`: the bytes it writes from
there on, the records it counts, and the hash and partition of the first record that does
not fit (`more_entries_flag` set), the partition narrowed to the caller's `int`. `none`
where `readdir_filler` copies past the end of a value. -/
def readdirScan (dirId bufLen : ℕ) :
    ℕ → List (Σ _ : MetadbKey, MetadbVal) → Option (List (Option UInt8) × ℕ × Option (Hash × ℤ))
  | _, [] => some ([], 0, none)
  | bufOffset, ⟨key, mval⟩ :: rest =>
    if key.parentId = dirId then
      if 0 ≤ key.partitionId then
        match readdirFiller bufLen bufOffset mval with
        | none => none
        | some none => some ([], 0, some (key.nameHash, toInt32 key.partitionId))
        | some (some (written, bufOffset)) => do
          let (bytes, count, stop) ← readdirScan dirId bufLen bufOffset rest
          pure (written ++ bytes, count + 1, stop)
      else readdirScan dirId bufLen bufOffset rest
    else some ([], 0, none)

def readdirSeekKey (dirId : ℕ) (partitionId : ℤ) (startKey : Option Hash) : MetadbKey :=
  if partitionId < 0 then ⟨dirId, 0, fun _ => 0⟩
  else ⟨dirId, partitionId, startKey.getD fun _ => 0⟩

/-- `metadb_readdir`: its return code, the bytes it writes at the start of `buf`,
`num_entries`, and where the scan stopped when the buffer filled up
(`more_entries_flag` set). `ENOENT` when the iterator is not valid at the seek key. -/
def metadbReaddir (mdb : MetaDB) (dirId : ℕ) (partitionId : ℤ) (startKey : Option Hash)
    (bufLen : ℕ) : Option (ℤ × List (Option UInt8) × ℕ × Option (Hash × ℤ)) :=
  match seek mdb.db (readdirSeekKey dirId partitionId startKey) with
  | [] => some (enoent, [], 0, none)
  | records => (readdirScan dirId bufLen 0 records).map fun (bytes, count, stop) =>
    (0, bytes, count, stop)

/-- `readdirplus_filler`: the name it copies into `rec_len + 1` fresh bytes, and the `stat`
it copies out of the value; `some none` for an empty name (it returns 1). `none` where
`strncpy` reads past the end of the value. -/
def readdirplusFiller (mval : MetadbVal) : Option (Option (List (Option UInt8) × Stat)) :=
  let recLen := mval.objnameLen
  if recLen > 0 then do
    let name ← strncpyCells mval.body (recLen + 1)
    pure (some (name, mval.statbuf))
  else pure none

/-- The loop of `metadb_readdirplus`: it stores the name and the `stat` of each record at
index `entry_count` of the caller's arrays `names` and `entries`. `none` where a store
lands past their end, or `strncpy` reads past the end of a value. -/
def readdirplusScan (dirId : ℕ) :
    ℕ → List (Option (List (Option UInt8))) → List (Option Stat) →
      List (Σ _ : MetadbKey, MetadbVal) →
      Option (List (Option (List (Option UInt8))) × List (Option Stat) × ℕ × Option (Hash × ℤ))
  | entryCount, names, entries, [] => some (names, entries, entryCount, none)
  | entryCount, names, entries, ⟨key, mval⟩ :: rest =>
    if key.parentId = dirId then
      if 0 ≤ key.partitionId then
        match readdirplusFiller mval with
        | none => none
        | some none =>
          some (names, entries, entryCount, some (key.nameHash, toInt32 key.partitionId))
        | some (some (name, statbuf)) => do
          let names ← write names entryCount [name]
          let entries ← write entries entryCount [statbuf]
          readdirplusScan dirId (entryCount + 1) names entries rest
      else readdirplusScan dirId entryCount names entries rest
    else some (names, entries, entryCount, none)

/-- `metadb_readdirplus`: its return code, the caller's arrays as it leaves them,
`num_entries`, and where the scan stopped (`more_entries_flag` set). It never reads
`entry_limit`. -/
def metadbReaddirplus (mdb : MetaDB) (dirId : ℕ) (partitionId : ℤ) (startKey : Option Hash)
    (_entryLimit : ℕ) (names : List (Option (List (Option UInt8)))) (entries : List (Option Stat)) :
    Option (ℤ × List (Option (List (Option UInt8))) × List (Option Stat) × ℕ ×
      Option (Hash × ℤ)) :=
  match seek mdb.db (readdirSeekKey dirId partitionId startKey) with
  | [] => some (enoent, names, entries, 0, none)
  | records => (readdirplusScan dirId 0 names entries records).map
    fun (names, entries, count, stop) => (0, names, entries, count, stop)

theorem metadbReaddirplus_of_ne_nil {mdb : MetaDB} {dirId : ℕ} {partitionId : ℤ}
    {startKey : Option Hash} (found : seek mdb.db (readdirSeekKey dirId partitionId startKey) ≠ [])
    (entryLimit : ℕ) (names : List (Option (List (Option UInt8)))) (entries : List (Option Stat)) :
    metadbReaddirplus mdb dirId partitionId startKey entryLimit names entries =
      (readdirplusScan dirId 0 names entries
        (seek mdb.db (readdirSeekKey dirId partitionId startKey))).map
        fun (names, entries, count, stop) => (0, names, entries, count, stop) := by
  unfold metadbReaddirplus
  split
  · contradiction
  · rfl

namespace MetadataBackend

def recLenAt (buf : List (Option UInt8)) : Option ℕ := do
  let cells ← read buf 0 recLenSize
  let bytes ← cells.mapM id
  pure (decodeLe bytes)

def readdirDecode : ℕ → List (Option UInt8) → Option (List (List (Option UInt8)))
  | 0, _ => some []
  | numEntries + 1, buf => do
    let recLen ← recLenAt buf
    let entry ← read buf recLenSize recLen
    let entries ← readdirDecode numEntries (buf.drop (recLenSize + recLen))
    pure (entry :: entries)

/-- `MetadataBackend::Readdir`: the names, the end key and the more-entries flag. `buf`
holds what `metadb_readdir` wrote and, after it, cells never written. The end key is
copied out of `end_key_cstr` whether or not `metadb_readdir` wrote it; `stack` is what that
uninitialised array held. -/
def readdir (mdb : MetaDB) (dirId : ℕ) (partitionId : ℤ) (startKey : Option Hash)
    (entriesLimit : ℕ) (stack : Hash) :
    Option (Except ℤ (List (List (Option UInt8)) × Hash × Bool)) := do
  let bufLen := entriesLimit * maxLen
  let (ret, bytes, numEntries, stop) ← metadbReaddir mdb dirId partitionId startKey bufLen
  if ret ≠ 0 then pure (.error ret)
  else
    let entries ← readdirDecode numEntries (bytes ++ fresh (bufLen - bytes.length))
    pure (.ok (entries, (stop.map Prod.fst).getD stack, stop.isSome))

end MetadataBackend

/-! ## What a page holds -/

section Frames

def frame (name : List (Option UInt8)) : List (Option UInt8) :=
  (le32 name.length).map some ++ name

@[simp] theorem length_le32 (n : ℕ) : (le32 n).length = recLenSize := by
  simp [le32, recLenSize]

theorem decodeLe_le32 (n : ℕ) : decodeLe (le32 n) = n % 2 ^ 32 := by
  rw [le32, ofFn_eq_leBytes, decodeLe_leBytes]
  rfl

@[simp] theorem length_frame (name : List (Option UInt8)) :
    (frame name).length = recLenSize + name.length := by
  simp [frame]

theorem recLenAt_frame {name : List (Option UInt8)} (short : name.length < 2 ^ 32)
    (rest : List (Option UInt8)) :
    MetadataBackend.recLenAt (frame name ++ rest) = some name.length := by
  have cells : read (frame name ++ rest) 0 recLenSize = some ((le32 name.length).map some) :=
    (read_eq_some_iff _ _ _ _).mpr ⟨by simp; omega, by
      rw [List.drop_zero, frame, List.append_assoc, List.take_left' (by simp)]⟩
  have bytes : ((le32 name.length).map some).mapM id = some (le32 name.length) := by
    simpa using (List.mapM_pure : (le32 name.length).mapM (fun b => (pure (id b) : Option UInt8)) = _)
  simp only [MetadataBackend.recLenAt, cells, bytes, Option.bind_eq_bind, Option.bind_some,
    decodeLe_le32, Nat.mod_eq_of_lt short]
  rfl

theorem readdirDecode_frames (names : List (List (Option UInt8))) (rest : List (Option UInt8))
    (short : ∀ name ∈ names, name.length < 2 ^ 32) :
    MetadataBackend.readdirDecode names.length (names.flatMap frame ++ rest) = some names := by
  induction names with
  | nil => rfl
  | cons name names ih =>
    have length := recLenAt_frame (short name List.mem_cons_self) (names.flatMap frame ++ rest)
    have entry : read (frame name ++ (names.flatMap frame ++ rest)) recLenSize name.length =
        some name :=
      (read_eq_some_iff _ _ _ _).mpr ⟨by simp, by
        rw [frame, List.append_assoc, List.drop_left' (by simp), List.take_left' rfl]⟩
    have after : (frame name ++ (names.flatMap frame ++ rest)).drop (recLenSize + name.length) =
        names.flatMap frame ++ rest :=
      List.drop_left' (by simp)
    have later := ih fun name' mem => short name' (List.mem_cons_of_mem _ mem)
    rw [List.flatMap_cons, List.append_assoc, List.length_cons, MetadataBackend.readdirDecode,
      length]
    simp only [Option.bind_eq_bind, Option.bind_some, entry, after, later]
    rfl

theorem readdir_of_frames {mdb : MetaDB} {dirId : ℕ} {partitionId : ℤ}
    {startKey : Option Hash} {entriesLimit : ℕ} {names : List (List (Option UInt8))}
    {stop : Option (Hash × ℤ)}
    (call : metadbReaddir mdb dirId partitionId startKey (entriesLimit * maxLen) =
      some (0, names.flatMap frame, names.length, stop))
    (short : ∀ name ∈ names, name.length < 2 ^ 32) (stack : Hash) :
    MetadataBackend.readdir mdb dirId partitionId startKey entriesLimit stack =
      some (.ok (names, (stop.map Prod.fst).getD stack, stop.isSome)) := by
  have decoded := readdirDecode_frames names
    (fresh (entriesLimit * maxLen - (names.flatMap frame).length)) short
  simp only [MetadataBackend.readdir, call, Option.bind_eq_bind, Option.bind_some, ne_eq,
    not_true_eq_false, ↓reduceIte, decoded]
  rfl

end Frames

section Scan

def entryName (mval : MetadbVal) : List (Option UInt8) := mval.body.take mval.objnameLen

/-- A value whose name `readdir_filler` copies whole: the name lies within the value, and
its length fits a `readdir_rec_len_t`. -/
def Readable (mval : MetadbVal) : Prop :=
  mval.objnameLen ≤ mval.body.length ∧ mval.objnameLen < 2 ^ 32

instance : DecidablePred Readable := fun _ => inferInstanceAs (Decidable (_ ∧ _))

def listing (dirId : ℕ) (records : List (Σ _ : MetadbKey, MetadbVal)) :
    List (Σ _ : MetadbKey, MetadbVal) :=
  (records.takeWhile fun r => r.1.parentId = dirId).filter fun r => 0 ≤ r.1.partitionId

def stopKey (r : Σ _ : MetadbKey, MetadbVal) : Hash × ℤ := (r.1.nameHash, toInt32 r.1.partitionId)

theorem length_entryName {mval : MetadbVal} (readable : Readable mval) :
    (entryName mval).length = mval.objnameLen := by
  simp [entryName, readable.1]

theorem readdirFiller_of_readable {mval : MetadbVal} (readable : Readable mval)
    (bufLen bufOffset : ℕ) :
    readdirFiller bufLen bufOffset mval =
      if bufOffset + (frame (entryName mval)).length ≤ bufLen then
        some (some (frame (entryName mval), bufOffset + (frame (entryName mval)).length))
      else some none := by
  have short : mval.objnameLen % 2 ^ 32 = mval.objnameLen := Nat.mod_eq_of_lt readable.2
  have name : read mval.body 0 mval.objnameLen = some (entryName mval) :=
    (read_eq_some_iff _ _ _ _).mpr ⟨by simpa using readable.1, by rw [List.drop_zero, entryName]⟩
  simp only [readdirFiller, short, length_frame, length_entryName readable]
  by_cases fits : bufOffset + (recLenSize + mval.objnameLen) ≤ bufLen
  · rw [if_pos (by omega), if_pos fits, name]
    simp only [Option.bind_eq_bind, Option.bind_some, frame, length_entryName readable]
    congr 3
    omega
  · rw [if_neg (by omega), if_neg fits]
    rfl

theorem mem_listing {dirId : ℕ} {records : List (Σ _ : MetadbKey, MetadbVal)}
    {r : Σ _ : MetadbKey, MetadbVal} (mem : r ∈ listing dirId records) :
    r ∈ records ∧ r.1.parentId = dirId ∧ 0 ≤ r.1.partitionId := by
  obtain ⟨taken, nonneg⟩ := List.mem_filter.mp mem
  have parent := List.mem_takeWhile_imp
    (p := fun r : Σ _ : MetadbKey, MetadbVal => r.1.parentId = dirId) taken
  exact ⟨List.takeWhile_subset _ taken, of_decide_eq_true parent, of_decide_eq_true nonneg⟩

theorem listing_cons_of_ne {dirId : ℕ} {r : Σ _ : MetadbKey, MetadbVal}
    (other : r.1.parentId ≠ dirId) (records : List (Σ _ : MetadbKey, MetadbVal)) :
    listing dirId (r :: records) = [] := by
  simp [listing, other]

theorem listing_cons_of_neg {dirId : ℕ} {r : Σ _ : MetadbKey, MetadbVal}
    (parent : r.1.parentId = dirId) (neg : r.1.partitionId < 0)
    (records : List (Σ _ : MetadbKey, MetadbVal)) :
    listing dirId (r :: records) = listing dirId records := by
  simp [listing, parent, Int.not_le.mpr neg]

theorem listing_cons {dirId : ℕ} {r : Σ _ : MetadbKey, MetadbVal}
    (parent : r.1.parentId = dirId) (nonneg : 0 ≤ r.1.partitionId)
    (records : List (Σ _ : MetadbKey, MetadbVal)) :
    listing dirId (r :: records) = r :: listing dirId records := by
  simp [listing, parent, nonneg]

theorem readdirScan_page (dirId bufLen : ℕ) (records : List (Σ _ : MetadbKey, MetadbVal))
    (readable : ∀ r ∈ listing dirId records, Readable r.2) (bufOffset : ℕ) :
    ∃ n ≤ (listing dirId records).length,
      readdirScan dirId bufLen bufOffset records =
        some ((((listing dirId records).take n).map (entryName ·.2)).flatMap frame, n,
          ((listing dirId records).drop n).head?.map stopKey) ∧
      ∀ r ∈ (listing dirId records).head?,
        bufOffset + (frame (entryName r.2)).length ≤ bufLen → 0 < n := by
  induction records generalizing bufOffset with
  | nil => exact ⟨0, le_rfl, rfl, by simp [listing]⟩
  | cons r records ih =>
    obtain ⟨key, mval⟩ := r
    by_cases parent : key.parentId = dirId
    · by_cases nonneg : 0 ≤ key.partitionId
      · -- the record is listed: it is written if its frame fits
        rw [listing_cons parent nonneg] at readable ⊢
        have here : Readable mval := readable _ List.mem_cons_self
        by_cases fits : bufOffset + (frame (entryName mval)).length ≤ bufLen
        · obtain ⟨n, le, scan, -⟩ := ih (fun r mem => readable r (List.mem_cons_of_mem _ mem))
            (bufOffset + (frame (entryName mval)).length)
          refine ⟨n + 1, by simpa using le, ?_, fun _ _ _ => Nat.succ_pos n⟩
          simp only [readdirScan, parent, nonneg, if_true, readdirFiller_of_readable here, fits,
            scan, Option.bind_eq_bind, Option.bind_some]
          simp
        · refine ⟨0, Nat.zero_le _, ?_, fun r mem fits' => ?_⟩
          · simp only [readdirScan, parent, nonneg, if_true, readdirFiller_of_readable here,
              fits, if_false]
            simp [stopKey]
          · simp only [List.head?_cons, Option.mem_def, Option.some.injEq] at mem
            subst mem
            exact absurd fits' fits
      · -- a negative partition is passed over
        have neg : key.partitionId < 0 := Int.not_le.mp nonneg
        rw [listing_cons_of_neg parent neg] at readable ⊢
        obtain ⟨n, le, scan, progress⟩ := ih readable bufOffset
        refine ⟨n, le, ?_, progress⟩
        simp only [readdirScan, parent, nonneg, if_true, if_false]
        exact scan
    · -- the directory's records end here
      rw [listing_cons_of_ne parent]
      refine ⟨0, le_rfl, ?_, by simp⟩
      simp only [readdirScan, parent, if_false]
      rfl

end Scan

end Metadb
