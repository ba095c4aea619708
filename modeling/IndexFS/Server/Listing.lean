import IndexFS.Backend.Readdir
import IndexFS.Lib.Seek
import IndexFS.Server.Ops

/-! Listing a directory page by page with `metadb_readdir`, each call seeking where the last
stopped: the pages list the directory's records each once, in key order.
`metadb_readdirplus` never reads `entry_limit`. -/

namespace Metadb

open Giga Buffer CInt Seek

/-! ## The order of the store's keys -/

section Keys

def MetadbKey.Valid (key : MetadbKey) : Prop :=
  key.parentId < 2 ^ 64 ∧ -2 ^ 63 ≤ key.partitionId ∧ key.partitionId < 2 ^ 63

instance : DecidablePred MetadbKey.Valid := fun _ => inferInstanceAs (Decidable (_ ∧ _ ∧ _))

def Store.Valid (db : Store) : Prop := ∀ r ∈ db.entries, r.1.Valid

instance : DecidablePred Store.Valid := fun db => inferInstanceAs (Decidable (∀ r ∈ db.entries, _))

@[simp] theorem length_le64 (n : ℕ) : (le64 n).length = 8 := by
  simp [le64]

theorem le64_injective {n n' : ℕ} (lt : n < 2 ^ 64) (lt' : n' < 2 ^ 64)
    (same : le64 n = le64 n') : n = n' := by
  rw [le64, le64, ofFn_eq_leBytes, ofFn_eq_leBytes] at same
  exact leBytes_injective lt lt' same

theorem keyBytes_injective {key key' : MetadbKey} (valid : key.Valid) (valid' : key'.Valid)
    (same : keyBytes key = keyBytes key') : key = key' := by
  obtain ⟨parentId, partitionId, nameHash⟩ := key
  obtain ⟨parentId', partitionId', nameHash'⟩ := key'
  obtain ⟨ids, hashes⟩ := List.append_inj same (by simp)
  obtain ⟨parents, partitions⟩ := List.append_inj ids (by simp)
  have parent := le64_injective valid.1 valid'.1 parents
  -- a `long` in the key is its residue modulo `2^64`, which it determines in range
  have residue := le64_injective (by omega) (by omega) partitions
  have partition : partitionId = partitionId' := by
    obtain ⟨-, low, high⟩ := valid
    obtain ⟨-, low', high'⟩ := valid'
    simp only at low high low' high' residue
    omega
  have hash := List.ofFn_injective hashes
  subst parent partition hash
  rfl

theorem seek_resume {db : Store} (valid : db.Valid) {key : MetadbKey}
    {before after : List (Σ _ : MetadbKey, MetadbVal)} {r : Σ _ : MetadbKey, MetadbVal}
    (split : seek db key = before ++ r :: after) : seek db r.1 = r :: after :=
  seekBy_resume _ db.nodupKeys.nodup
    (fun a mem a' mem' same =>
      db.nodupKeys.eq_of_fst_eq mem mem' (keyBytes_injective (valid a mem) (valid a' mem') same))
    split

theorem listing_seek {db : Store} (valid : db.Valid) (dirId : ℕ) (partitionId : ℤ)
    (hash : Hash) :
    listing dirId (seek db ⟨dirId, partitionId, hash⟩) =
      (seek db ⟨dirId, partitionId, hash⟩).filter
        fun r => r.1.parentId = dirId ∧ 0 ≤ r.1.partitionId := by
  have contiguous : (seek db ⟨dirId, partitionId, hash⟩).Pairwise fun r r' =>
      decide (r.1.parentId = dirId) = false → decide (r'.1.parentId = dirId) = false := by
    refine (pairwise_seekBy _ _ _).imp_of_mem fun {r r'} mem mem' le => ?_
    simp only [decide_eq_false_iff_not]
    intro other parent'
    apply other
    have above := ((mem_seekBy _).mp mem).2
    have r_valid := valid r ((mem_seekBy _).mp mem).1
    have r'_valid := valid r' ((mem_seekBy _).mp mem').1
    have dir_lt : dirId < 2 ^ 64 := parent' ▸ r'_valid.1
    simp only [keyBytes, List.append_assoc] at above le
    rw [parent'] at le
    exact le64_injective r_valid.1 dir_lt (prefix_eq_of_le_of_le (by simp) above le)
  rw [listing, takeWhile_eq_filter contiguous, List.filter_filter]
  refine List.filter_congr fun r _ => ?_
  simp [Bool.and_comm]

theorem listing_drop {dirId : ℕ} {records : List (Σ _ : MetadbKey, MetadbVal)} {n : ℕ}
    {r : Σ _ : MetadbKey, MetadbVal} {rest : List (Σ _ : MetadbKey, MetadbVal)}
    (at_n : (listing dirId records).drop n = r :: rest) :
    ∃ before after, records = before ++ r :: after ∧ listing dirId (r :: after) = r :: rest := by
  induction records generalizing n with
  | nil => simp [listing] at at_n
  | cons x records ih =>
    by_cases parent : x.1.parentId = dirId
    · by_cases nonneg : 0 ≤ x.1.partitionId
      · rw [listing_cons parent nonneg] at at_n
        cases n with
        | zero =>
          obtain ⟨rfl, rfl⟩ := List.cons.inj at_n
          exact ⟨[], records, rfl, listing_cons parent nonneg records⟩
        | succ n =>
          obtain ⟨before, after, rfl, listed⟩ := ih at_n
          exact ⟨x :: before, after, rfl, listed⟩
      · rw [listing_cons_of_neg parent (Int.not_le.mp nonneg)] at at_n
        obtain ⟨before, after, rfl, listed⟩ := ih at_n
        exact ⟨x :: before, after, rfl, listed⟩
    · simp [listing_cons_of_ne parent] at at_n

end Keys

/-! ## Pages -/

section Pages

/-- A directory listed page by page with `metadb_readdir`. Each page is read back out of the
buffer as `MetadataBackend::Readdir` reads it, and the next call starts from the partition
and end key that the previous one returned, while it set `more_entries_flag`. `fuel` bounds
the number of calls. -/
def readdirPaged (mdb : MetaDB) (dirId bufLen : ℕ) :
    ℕ → ℤ → Option Hash → Option (List (List (Option UInt8)))
  | 0, _, _ => none
  | fuel + 1, partitionId, startKey => do
    let (_, bytes, numEntries, stop) ← metadbReaddir mdb dirId partitionId startKey bufLen
    let entries ← MetadataBackend.readdirDecode numEntries (bytes ++ fresh (bufLen - bytes.length))
    match stop with
    | none => pure entries
    | some (endKey, partitionId) =>
      (entries ++ ·) <$> readdirPaged mdb dirId bufLen fuel partitionId (some endKey)

/-- A record that a page of `bufLen` bytes lists whole: its name can be copied, its frame
fits an empty buffer, and its partition fits the caller's `int`. -/
def Listable (bufLen : ℕ) (r : Σ _ : MetadbKey, MetadbVal) : Prop :=
  Readable r.2 ∧ recLenSize + r.2.objnameLen ≤ bufLen ∧ r.1.partitionId < 2 ^ 31

instance (bufLen : ℕ) : DecidablePred (Listable bufLen) := fun _ =>
  inferInstanceAs (Decidable (_ ∧ _ ∧ _))

theorem metadbReaddir_eq (mdb : MetaDB) (dirId : ℕ) (partitionId : ℤ) (startKey : Option Hash)
    (bufLen : ℕ) :
    ∃ ret, metadbReaddir mdb dirId partitionId startKey bufLen =
      (readdirScan dirId bufLen 0 (seek mdb.db (readdirSeekKey dirId partitionId startKey))).map
        fun (bytes, count, stop) => (ret, bytes, count, stop) := by
  unfold metadbReaddir
  split
  · rename_i empty
    exact ⟨enoent, by rw [empty]; rfl⟩
  · exact ⟨0, rfl⟩

theorem readdirSeekKey_stopKey {dirId bufLen : ℕ} {r : Σ _ : MetadbKey, MetadbVal}
    (parent : r.1.parentId = dirId) (nonneg : 0 ≤ r.1.partitionId) (listable : Listable bufLen r) :
    readdirSeekKey dirId (stopKey r).2 (some (stopKey r).1) = r.1 := by
  have narrow : toInt32 r.1.partitionId = r.1.partitionId :=
    toInt32_of_lt (by omega) listable.2.2
  obtain ⟨⟨parentId, partitionId, nameHash⟩, mval⟩ := r
  simp only at parent nonneg narrow
  subst parent
  simp [readdirSeekKey, stopKey, narrow, Int.not_lt.mpr nonneg]

theorem readdirPaged_succ (mdb : MetaDB) (dirId bufLen fuel : ℕ) (partitionId : ℤ)
    (startKey : Option Hash) {records : List (Σ _ : MetadbKey, MetadbVal)}
    (found : seek mdb.db (readdirSeekKey dirId partitionId startKey) = records)
    (listable : ∀ r ∈ listing dirId records, Listable bufLen r) :
    ∃ n ≤ (listing dirId records).length, (listing dirId records ≠ [] → 0 < n) ∧
      ((listing dirId records).drop n = [] →
        readdirPaged mdb dirId bufLen (fuel + 1) partitionId startKey =
          some (((listing dirId records).take n).map (entryName ·.2))) ∧
      ∀ r rest, (listing dirId records).drop n = r :: rest →
        readdirPaged mdb dirId bufLen (fuel + 1) partitionId startKey =
          ((((listing dirId records).take n).map (entryName ·.2)) ++ ·) <$>
            readdirPaged mdb dirId bufLen fuel (stopKey r).2 (some (stopKey r).1) := by
  obtain ⟨ret, call⟩ := metadbReaddir_eq mdb dirId partitionId startKey bufLen
  rw [found] at call
  obtain ⟨n, le, scan, progress⟩ :=
    readdirScan_page dirId bufLen records (fun r mem => (listable r mem).1) 0
  -- the page reads back as the names of the first `n` records
  have page := readdirDecode_frames (((listing dirId records).take n).map (entryName ·.2))
    (fresh (bufLen - ((((listing dirId records).take n).map (entryName ·.2)).flatMap
      frame).length))
    (by
      simp only [List.mem_map]
      rintro _ ⟨r, mem, rfl⟩
      have listed := listable r (List.mem_of_mem_take mem)
      rw [length_entryName listed.1]
      exact listed.1.2)
  rw [List.length_map, List.length_take, Nat.min_eq_left le] at page
  -- the first record fits an empty buffer, so a page is never empty
  have moved : listing dirId records ≠ [] → 0 < n := by
    intro nonempty
    obtain ⟨first, more, listed⟩ := List.exists_cons_of_ne_nil nonempty
    have first_listable := listable first (by simp [listed])
    refine progress first (by simp [listed]) ?_
    rw [length_frame, length_entryName first_listable.1]
    simpa using first_listable.2.1
  refine ⟨n, le, moved, fun last => ?_, fun r rest next => ?_⟩ <;>
    simp only [readdirPaged, call, scan, Option.map_some, Option.bind_eq_bind, Option.bind_some,
      page]
  · simp [last]
  · simp only [next, List.head?_cons, Option.map_some]

theorem readdirPaged_eq {mdb : MetaDB} (valid : mdb.db.Valid) {dirId bufLen : ℕ} :
    ∀ (fuel : ℕ) (partitionId : ℤ) (startKey : Option Hash),
      (∀ r ∈ listing dirId (seek mdb.db (readdirSeekKey dirId partitionId startKey)),
        Listable bufLen r) →
      (listing dirId (seek mdb.db (readdirSeekKey dirId partitionId startKey))).length < fuel →
      readdirPaged mdb dirId bufLen fuel partitionId startKey =
        some ((listing dirId (seek mdb.db (readdirSeekKey dirId partitionId startKey))).map
          (entryName ·.2))
  | 0, _, _, _, enough => absurd enough (Nat.not_lt_zero _)
  | fuel + 1, partitionId, startKey, listable, enough => by
    set records := seek mdb.db (readdirSeekKey dirId partitionId startKey) with records_eq
    obtain ⟨n, le, moved, last, later⟩ :=
      readdirPaged_succ mdb dirId bufLen fuel partitionId startKey records_eq.symm listable
    cases next : (listing dirId records).drop n with
    | nil =>
      -- the last page: it held the rest of the listing
      rw [last next, List.take_of_length_le (List.drop_eq_nil_iff.mp next)]
    | cons r rest =>
      obtain ⟨before, after, split, resumed⟩ := listing_drop next
      have r_mem : r ∈ listing dirId records :=
        List.mem_of_mem_drop (next ▸ List.mem_cons_self)
      obtain ⟨-, parent, nonneg⟩ := mem_listing r_mem
      -- the next call seeks the record that did not fit, and lists the rest from there
      have again : seek mdb.db (readdirSeekKey dirId (stopKey r).2 (some (stopKey r).1)) =
          r :: after := by
        rw [readdirSeekKey_stopKey parent nonneg (listable r r_mem)]
        exact seek_resume valid split
      have rest_listable : ∀ r' ∈ listing dirId (seek mdb.db (readdirSeekKey dirId (stopKey r).2
          (some (stopKey r).1))), Listable bufLen r' := by
        rw [again, resumed, ← next]
        exact fun r' mem => listable r' (List.mem_of_mem_drop mem)
      have rest_enough : (listing dirId (seek mdb.db (readdirSeekKey dirId (stopKey r).2
          (some (stopKey r).1)))).length < fuel := by
        have progress := moved (List.ne_nil_of_mem r_mem)
        rw [again, resumed, ← next, List.length_drop]
        omega
      rw [later r rest next, readdirPaged_eq valid fuel _ _ rest_listable rest_enough, again,
        resumed, ← next, Option.map_eq_map, Option.map_some, ← List.map_append,
        List.take_append_drop]

/-- Calling `metadb_readdir` again from the returned partition and end key while
`more_entries_flag` is set lists the directory's records from the seek key on, each once and in
key order, within more calls than there are records. -/
theorem readdir_pages_list_directory {mdb : MetaDB} (valid : mdb.db.Valid) (dirId : ℕ)
    {partitionId : ℤ} (nonneg : 0 ≤ partitionId) (entriesLimit : ℕ)
    (listable : ∀ r ∈ (seek mdb.db ⟨dirId, partitionId, fun _ => 0⟩).filter
      (fun r => r.1.parentId = dirId ∧ 0 ≤ r.1.partitionId), Listable (entriesLimit * maxLen) r)
    (fuel : ℕ)
    (enough : ((seek mdb.db ⟨dirId, partitionId, fun _ => 0⟩).filter
      fun r => r.1.parentId = dirId ∧ 0 ≤ r.1.partitionId).length < fuel) :
    readdirPaged mdb dirId (entriesLimit * maxLen) fuel partitionId none =
      some (((seek mdb.db ⟨dirId, partitionId, fun _ => 0⟩).filter
        fun r => r.1.parentId = dirId ∧ 0 ≤ r.1.partitionId).map (entryName ·.2)) := by
  have first : readdirSeekKey dirId partitionId none = ⟨dirId, partitionId, fun _ => 0⟩ := by
    simp [readdirSeekKey, Int.not_lt.mpr nonneg]
  have listed := listing_seek valid dirId partitionId fun _ => 0
  rw [← first] at listed listable enough ⊢
  rw [← listed] at listable enough ⊢
  exact readdirPaged_eq valid fuel partitionId none listable enough

def twoFiles : MetaDB where
  db := ((∅ : Store).insert ⟨0, 0, fun _ => 1⟩ (initMetaVal default (some default) 1 [97] 0 [] 0 [] 0)).insert
    ⟨0, 0, fun _ => 2⟩ (initMetaVal default (some default) 1 [98] 0 [] 0 [] 0)
  serverId := 0
  inodeCount := 0
  initStatbuf := default

theorem readdir_pages_list_directory_two_files :
    twoFiles.db.Valid ∧ (0 : ℤ) ≤ 0 ∧
    (∀ r ∈ (seek twoFiles.db ⟨0, 0, fun _ => 0⟩).filter
      (fun r => r.1.parentId = 0 ∧ 0 ≤ r.1.partitionId), Listable (1 * maxLen) r) ∧
    ((seek twoFiles.db ⟨0, 0, fun _ => 0⟩).filter
      (fun r => r.1.parentId = 0 ∧ 0 ≤ r.1.partitionId)).length < 3 ∧
    readdirPaged twoFiles 0 (1 * maxLen) 3 0 none =
      some (((seek twoFiles.db ⟨0, 0, fun _ => 0⟩).filter
        fun r => r.1.parentId = 0 ∧ 0 ≤ r.1.partitionId).map (entryName ·.2)) := by
  have valid : twoFiles.db.Valid := by decide
  have nonneg : (0 : ℤ) ≤ 0 := le_rfl
  have listable : ∀ r ∈ (seek twoFiles.db ⟨0, 0, fun _ => 0⟩).filter
      (fun r => r.1.parentId = 0 ∧ 0 ≤ r.1.partitionId), Listable (1 * maxLen) r := by
    decide
  have enough : ((seek twoFiles.db ⟨0, 0, fun _ => 0⟩).filter
      (fun r => r.1.parentId = 0 ∧ 0 ≤ r.1.partitionId)).length < 3 := by
    decide
  exact ⟨valid, nonneg, listable, enough,
    readdir_pages_list_directory valid 0 nonneg 1 listable 3 enough⟩

-- a page of `entries_limit = 1` holds both names: the limit counts `MAX_LEN` bytes, not names
example : (metadbReaddir twoFiles 0 0 none (1 * maxLen)).map (·.2.2.1) = some 2 := by
  decide

end Pages

/-! ## `metadb_readdirplus` -/

section Plus

open IndexFS (StatInfo)

namespace MetadataBackend

/-- `MetadataBackend::ReaddirPlus`: `buf_names` and `buf_entries` hold `entries_limit` cells
each, and the end key is copied out of `end_key_cstr` whether or not it was written; `stack` is
what that uninitialised array held. -/
def readdirPlus (mdb : MetaDB) (dirId : ℕ) (partitionId : ℤ) (startKey : Option Hash)
    (entriesLimit : ℕ) (stack : Hash) :
    Option (Except ℤ (List (List (Option UInt8)) × List StatInfo × Hash × Bool)) := do
  let (ret, bufNames, bufEntries, numEntries, stop) ←
    metadbReaddirplus mdb dirId partitionId startKey entriesLimit (fresh entriesLimit)
      (fresh entriesLimit)
  if ret ≠ 0 then pure (.error ret)
  else
    let names ← (List.range numEntries).mapM fun i => do
      let name ← bufNames[i]?.join
      cString name
    let infos ← (List.range numEntries).mapM fun i => do
      let stbuf ← bufEntries[i]?.join
      pure { mode := stbuf.stMode
             uid := stbuf.stUid
             gid := stbuf.stGid
             size := stbuf.stSize
             mtime := stbuf.stMtime
             ctime := stbuf.stCtime
             id := stbuf.stIno
             zerothServer := stbuf.stDev
             isEmbedded := false : StatInfo }
    pure (.ok (names, infos, (stop.map Prod.fst).getD stack, stop.isSome))

end MetadataBackend

/-- A value whose name `readdirplus_filler` copies: the name is not empty, and the value
holds a byte after it, where `strncpy` may stop. -/
def Named (mval : MetadbVal) : Prop := 0 < mval.objnameLen ∧ mval.objnameLen < mval.body.length

instance : DecidablePred Named := fun _ => inferInstanceAs (Decidable (_ ∧ _))

theorem strncpyCells_isSome {src : List (Option UInt8)} {n : ℕ} (le : n ≤ src.length) :
    (strncpyCells src n).isSome := by
  induction src generalizing n with
  | nil =>
    obtain rfl : n = 0 := by simpa using le
    rfl
  | cons c src ih =>
    cases n with
    | zero => rfl
    | succ n =>
      have rest := ih (n := n) (by simpa using le)
      -- `strncpy` stops at a NUL, and otherwise goes on with the rest
      by_cases nul : c = some 0
      · subst nul
        rfl
      · rw [strncpyCells]
        · simpa using rest
        · exact nul

theorem readdirplusFiller_of_named {mval : MetadbVal} (named : Named mval) :
    ∃ name, readdirplusFiller mval = some (some (name, mval.statbuf)) := by
  obtain ⟨name, copied⟩ := Option.isSome_iff_exists.mp
    (@strncpyCells_isSome mval.body (mval.objnameLen + 1) named.2)
  exact ⟨name, by simp [readdirplusFiller, named.1, copied]⟩

variable {dirId : ℕ}

theorem readdirplusScan_cons_named {key : MetadbKey} {mval : MetadbVal}
    (parent : key.parentId = dirId) (nonneg : 0 ≤ key.partitionId) (named : Named mval)
    (entryCount : ℕ) (names : List (Option (List (Option UInt8)))) (entries : List (Option Stat))
    (rest : List (Σ _ : MetadbKey, MetadbVal)) :
    ∃ name, readdirplusScan dirId entryCount names entries (⟨key, mval⟩ :: rest) =
      (write names entryCount [name]).bind fun names' =>
        (write entries entryCount [mval.statbuf]).bind fun entries' =>
          readdirplusScan dirId (entryCount + 1) names' entries' rest := by
  obtain ⟨name, filled⟩ := readdirplusFiller_of_named named
  exact ⟨name, by simp only [readdirplusScan, parent, nonneg, if_true, filled, Option.bind_eq_bind]⟩

theorem readdirplusScan_of_le {records : List (Σ _ : MetadbKey, MetadbVal)}
    (named : ∀ r ∈ listing dirId records, Named r.2) (entryCount : ℕ)
    (names : List (Option (List (Option UInt8)))) (entries : List (Option Stat))
    (same : names.length = entries.length)
    (room : entryCount + (listing dirId records).length ≤ names.length) :
    ∃ names' entries', readdirplusScan dirId entryCount names entries records =
      some (names', entries', entryCount + (listing dirId records).length, none) := by
  induction records generalizing entryCount names entries with
  | nil => exact ⟨names, entries, rfl⟩
  | cons r records ih =>
    obtain ⟨key, mval⟩ := r
    by_cases parent : key.parentId = dirId
    · by_cases nonneg : 0 ≤ key.partitionId
      · rw [listing_cons parent nonneg] at named room ⊢
        rw [List.length_cons] at room ⊢
        obtain ⟨name, step⟩ := readdirplusScan_cons_named parent nonneg
          (named _ List.mem_cons_self) entryCount names entries records
        -- both stores land inside the arrays
        obtain ⟨names', wrote⟩ := exists_write_singleton name (show entryCount < names.length by omega)
        obtain ⟨entries', wrote'⟩ := exists_write_singleton mval.statbuf
          (show entryCount < entries.length by omega)
        obtain ⟨names'', entries'', scan⟩ := ih (fun r mem => named r (List.mem_cons_of_mem _ mem))
          (entryCount + 1) names' entries'
          (by rw [length_write wrote, length_write wrote', same])
          (by rw [length_write wrote]; omega)
        have count : entryCount + 1 + (listing dirId records).length =
            entryCount + ((listing dirId records).length + 1) := by omega
        refine ⟨names'', entries'', ?_⟩
        rw [step, wrote, Option.bind_some, wrote', Option.bind_some, scan, count]
      · rw [listing_cons_of_neg (r := ⟨key, mval⟩) parent (Int.not_le.mp nonneg)] at named room ⊢
        obtain ⟨names', entries', scan⟩ := ih named entryCount names entries same room
        refine ⟨names', entries', ?_⟩
        simp only [readdirplusScan, parent, nonneg, if_true, if_false, scan]
    · refine ⟨names, entries, ?_⟩
      simp only [readdirplusScan, parent, if_false, listing_cons_of_ne (r := ⟨key, mval⟩) parent]
      rfl

theorem readdirplusScan_of_lt {records : List (Σ _ : MetadbKey, MetadbVal)}
    (named : ∀ r ∈ listing dirId records, Named r.2) (entryCount : ℕ)
    (names : List (Option (List (Option UInt8)))) (entries : List (Option Stat))
    (within : entryCount ≤ names.length) (same : names.length = entries.length)
    (past : names.length < entryCount + (listing dirId records).length) :
    readdirplusScan dirId entryCount names entries records = none := by
  induction records generalizing entryCount names entries with
  | nil => simp [listing] at past; omega
  | cons r records ih =>
    obtain ⟨key, mval⟩ := r
    by_cases parent : key.parentId = dirId
    · by_cases nonneg : 0 ≤ key.partitionId
      · rw [listing_cons parent nonneg] at named past
        rw [List.length_cons] at past
        obtain ⟨name, step⟩ := readdirplusScan_cons_named parent nonneg
          (named _ List.mem_cons_self) entryCount names entries records
        rw [step]
        by_cases full : entryCount = names.length
        · -- the store of the name lands one past the end
          rw [write_singleton_of_le name (by omega), Option.bind_none]
        · obtain ⟨names', wrote⟩ := exists_write_singleton name
            (show entryCount < names.length by omega)
          obtain ⟨entries', wrote'⟩ := exists_write_singleton mval.statbuf
            (show entryCount < entries.length by omega)
          have rest := ih (fun r mem => named r (List.mem_cons_of_mem _ mem)) (entryCount + 1)
            names' entries' (by rw [length_write wrote]; omega)
            (by rw [length_write wrote, length_write wrote', same])
            (by rw [length_write wrote]; omega)
          rw [wrote, Option.bind_some, wrote', Option.bind_some, rest]
      · rw [listing_cons_of_neg (r := ⟨key, mval⟩) parent (Int.not_le.mp nonneg)] at named past
        simp only [readdirplusScan, parent, nonneg, if_true, if_false]
        exact ih named entryCount names entries within same past
    · simp [listing_cons_of_ne (r := ⟨key, mval⟩) parent] at past
      omega

/-- `metadb_readdirplus` does not stop at `entry_limit`: given arrays with room for them all,
one call stores and counts every record of the listing, more than `entries_limit`. -/
theorem readdirplus_ignores_limit (mdb : MetaDB) (dirId : ℕ) (partitionId : ℤ)
    (startKey : Option Hash) (entriesLimit : ℕ) (stack : Hash)
    (named : ∀ r ∈ listing dirId (seek mdb.db (readdirSeekKey dirId partitionId startKey)),
      Named r.2)
    (more : entriesLimit <
      (listing dirId (seek mdb.db (readdirSeekKey dirId partitionId startKey))).length) :
    MetadataBackend.readdirPlus mdb dirId partitionId startKey entriesLimit stack = none ∧
    ∀ size, (listing dirId (seek mdb.db (readdirSeekKey dirId partitionId startKey))).length ≤
      size → ∃ names entries,
        metadbReaddirplus mdb dirId partitionId startKey entriesLimit (fresh size) (fresh size) =
          some (0, names, entries,
            (listing dirId (seek mdb.db (readdirSeekKey dirId partitionId startKey))).length,
            none) := by
  -- the seek finds records, so the scan runs
  have found : seek mdb.db (readdirSeekKey dirId partitionId startKey) ≠ [] := by
    intro empty
    simp [empty, listing] at more
  have call := metadbReaddirplus_of_ne_nil found entriesLimit
  constructor
  · have overrun := readdirplusScan_of_lt named 0 (fresh entriesLimit) (fresh entriesLimit)
      (Nat.zero_le _) (by simp) (by simpa using more)
    simp only [MetadataBackend.readdirPlus, call, overrun, Option.map_none, Option.bind_eq_bind,
      Option.bind_none]
  · intro size room
    obtain ⟨names, entries, scan⟩ := readdirplusScan_of_le named 0 (fresh size) (fresh size)
      (by simp) (by simpa using room)
    refine ⟨names, entries, ?_⟩
    rw [call, scan, Nat.zero_add]
    rfl

theorem readdirplus_ignores_limit_two_files :
    (∀ r ∈ listing 0 (seek twoFiles.db (readdirSeekKey 0 0 none)), Named r.2) ∧
    1 < (listing 0 (seek twoFiles.db (readdirSeekKey 0 0 none))).length ∧
    MetadataBackend.readdirPlus twoFiles 0 0 none 1 (fun _ => 0) = none ∧
    ∀ size, (listing 0 (seek twoFiles.db (readdirSeekKey 0 0 none))).length ≤ size →
      ∃ names entries, metadbReaddirplus twoFiles 0 0 none 1 (fresh size) (fresh size) =
        some (0, names, entries, (listing 0 (seek twoFiles.db (readdirSeekKey 0 0 none))).length,
          none) := by
  have named : ∀ r ∈ listing 0 (seek twoFiles.db (readdirSeekKey 0 0 none)), Named r.2 := by
    decide
  have more : 1 < (listing 0 (seek twoFiles.db (readdirSeekKey 0 0 none))).length := by
    decide
  exact ⟨named, more, readdirplus_ignores_limit twoFiles 0 0 none 1 (fun _ => 0) named more⟩

end Plus

end Metadb
