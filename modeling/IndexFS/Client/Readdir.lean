import IndexFS.Backend.Readdir
import IndexFS.Server.Ops

/-! A directory listing: `MetadataServer::Readdir` on each server, and `MetadataClient::Readdir`
over the partitions of the client's mapping, numbered by `reverse_bits`, which shifts by
`32 + sizeof(uint8_t) - n` where `32 + 8 - n` is needed. -/
namespace IndexFS

open Giga Metadb

structure ScanResult where
  entries : List (List (Option UInt8))
  endKey : Hash
  moreEntries : Bool
  mapping : GigaMapping

def kMaxNumScanEntries : ℕ := 256

/-- `MetadataServer::Readdir`; it writes nothing. `stack` is what the uninitialised
`end_key_cstr` of `MetadataBackend::Readdir` held. -/
def readdir (gigaHashName : List UInt8 → Hash) (srv : MetadataServer) (dirId : ℕ)
    (partition : ℤ) (startKey : Option Hash) (maxNumEntries : ℕ) (stack : Hash) :
    Option (Except Exception ScanResult) := do
  match ← fetchDir gigaHashName srv dirId with
  | none => pure (.error .fileNotFoundException)
  | some mapping =>
    match ← MetadataBackend.readdir srv.mdb dirId partition startKey maxNumEntries stack with
    | .error _ => pure (.error .fileNotFoundException)
    | .ok (entries, endKey, moreEntries) => pure (.ok ⟨entries, endKey, moreEntries, mapping⟩)

/-- The `Readdir` RPC against servers that do not change while the listing runs; `stack`
gives what `end_key_cstr` held on each call. -/
def readdirRpc (gigaHashName : List UInt8 → Hash) (servers : ℕ → MetadataServer) (dirId : ℕ)
    (stack : ℕ → ℕ → Option Hash → Hash) (server partition : ℕ) (startKey : Option Hash) :
    Option (Except Exception ScanResult) :=
  readdir gigaHashName (servers server) dirId partition startKey kMaxNumScanEntries
    (stack server partition startKey)

/-! ## The client -/

def sizeofUint8 : ℕ := 1

/-- `reverse_bits`, with the shift it computes. -/
def reverseBits (b n : ℕ) : UInt8 :=
  ((((b.toUInt64 * 0x80200802) &&& 0x0884422110) * 0x0101010101) >>>
    (32 + sizeofUint8 - n).toUInt64).toUInt8

section Client

-- the `Readdir` RPC as the client sees it: the server, the partition and the start key
-- (`none` for an empty string) give the server's reply, `none` where the server fails
variable (rpc : ℕ → ℕ → Option Hash → Option (Except Exception ScanResult))

/-- The `do … while (scan_result.more_entries > 0)` loop over the pages of one
partition: the mapping, the start key and the names it leaves. A redirection or a
missing directory ends the partition; another exception ends the listing. -/
def readdirPages (server partition : ℕ) :
    ℕ → GigaMapping → Option Hash → List (List (Option UInt8)) →
      Option (Except Exception (GigaMapping × Option Hash × List (List (Option UInt8))))
  | 0, _, _, _ => none
  | fuel + 1, mapping, startKey, result => do
    match ← rpc server partition startKey with
    | .error (.serverRedirectionException _) | .error .fileNotFoundException =>
      pure (.ok (mapping, startKey, result))
    | .error e => pure (.error e)
    | .ok scanResult =>
      -- `UpdateBitmap`
      let mapping ← gigaUpdateCache mapping scanResult.mapping
      let startKey := some scanResult.endKey
      let result := result ++ scanResult.entries
      if scanResult.moreEntries then readdirPages server partition fuel mapping startKey result
      else pure (.ok (mapping, startKey, result))

structure ReaddirState where
  mapping : GigaMapping
  currIdx : UInt8
  currRadix : ℕ
  startKey : Option Hash
  result : List (List (Option UInt8))

def scanPartition (fuel : ℕ) (st : ReaddirState) :
    Option (Except Exception (GigaMapping × Option Hash × List (List (Option UInt8)))) :=
  let currPartition := (reverseBits st.currIdx.toNat st.currRadix).toNat
  if getBitStatus st.mapping.bitmap currPartition then
    readdirPages rpc (gigaGetServerForIndex st.mapping currPartition) currPartition fuel
      st.mapping st.startKey st.result
  else pure (.ok (st.mapping, st.startKey, st.result))

/-- The `while (curr_idx < (1 << curr_radix))` loop. `start_key` is carried from one
partition to the next. -/
def readdirLoop : ℕ → ReaddirState → Option (Except Exception (List (List (Option UInt8))))
  | 0, _ => none
  | fuel + 1, st =>
    if st.currIdx.toNat < 2 ^ st.currRadix then do
      match ← scanPartition rpc fuel st with
      | .error e => pure (.error e)
      | .ok (mapping, startKey, result) =>
        readdirLoop fuel
          { mapping, currIdx := st.currIdx + 1, currRadix := mapping.currRadix, startKey, result }
    else pure (.ok st.result)

def clientReaddir (mapping : GigaMapping) (fuel : ℕ) :
    Option (Except Exception (List (List (Option UInt8)))) :=
  readdirLoop rpc fuel ⟨mapping, 0, mapping.currRadix, none, []⟩

/-! ### One iteration at a time -/

theorem readdirPages_last {server partition fuel : ℕ} {mapping mapping' : GigaMapping}
    {startKey : Option Hash} {result : List (List (Option UInt8))} {scanResult : ScanResult}
    (reply : rpc server partition startKey = some (.ok scanResult))
    (last : scanResult.moreEntries = false)
    (merged : gigaUpdateCache mapping scanResult.mapping = some mapping') :
    readdirPages rpc server partition (fuel + 1) mapping startKey result =
      some (.ok (mapping', some scanResult.endKey, result ++ scanResult.entries)) := by
  simp only [readdirPages, reply, merged, last, Option.bind_eq_bind, Option.bind_some,
    Bool.false_eq_true, if_false]
  rfl

theorem scanPartition_skip {fuel : ℕ} {st : ReaddirState}
    (unset : getBitStatus st.mapping.bitmap (reverseBits st.currIdx.toNat st.currRadix).toNat = false) :
    scanPartition rpc fuel st = some (.ok (st.mapping, st.startKey, st.result)) := by
  rw [scanPartition, if_neg (by rw [unset]; decide)]
  rfl

theorem readdirLoop_done {fuel : ℕ} {st : ReaddirState}
    (out : ¬ st.currIdx.toNat < 2 ^ st.currRadix) :
    readdirLoop rpc (fuel + 1) st = some (.ok st.result) := by
  rw [readdirLoop, if_neg out]
  rfl

theorem readdirLoop_next {fuel : ℕ} {st : ReaddirState} {mapping : GigaMapping}
    {startKey : Option Hash} {result : List (List (Option UInt8))}
    (inRange : st.currIdx.toNat < 2 ^ st.currRadix)
    (scanned : scanPartition rpc fuel st = some (.ok (mapping, startKey, result))) :
    readdirLoop rpc (fuel + 1) st =
      readdirLoop rpc fuel ⟨mapping, st.currIdx + 1, mapping.currRadix, startKey, result⟩ := by
  rw [readdirLoop, if_pos inRange, scanned]
  rfl

end Client

/-! ## The root split once over two servers -/

def firstByteHash (name : List UInt8) : Hash := fun _ => name.headD 0

def splitRoot : GigaMapping :=
  { gigaInitMapping rootDirId 0 2 with bitmap := setBit initialBitmap 1, currRadix := 1 }

def holdingServer (srvId : ℕ) (name : List UInt8) (partition : ℤ) : MetadataServer :=
  { bootServer firstByteHash srvId 2 0 default with
    mdb := (metadbCreate firstByteHash (bootServer firstByteHash srvId 2 0 default).mdb rootDirId
      partition name [] 0).1
    dmap := fun dirId => if dirId = rootDirId then some splitRoot else none }

def splitServers (srvId : ℕ) : MetadataServer :=
  if srvId = 0 then holdingServer 0 [1] 0 else holdingServer 1 [128] 1

/-- The root holds `[1]` in partition 0 on server 0 and `[128]` in partition 1 on
server 1, each where addressing puts it. Whatever the uninitialised end keys hold, the
listing returns `[1]` alone: `reverse_bits(1, 1)` is 128, so partition 1 is never read. -/
theorem readdir_misses_newest_partition (stack : ℕ → ℕ → Option Hash → Hash) :
    gigaUpdateMapping (gigaInitMapping rootDirId 0 2) 1 = some splitRoot ∧
      checkAddressing firstByteHash (splitServers 0) splitRoot [1] = some 0 ∧
      (metadbLookup firstByteHash (splitServers 0).mdb rootDirId 0 [1]).isSome ∧
      checkAddressing firstByteHash (splitServers 1) splitRoot [128] = some 1 ∧
      (metadbLookup firstByteHash (splitServers 1).mdb rootDirId 1 [128]).isSome ∧
      clientReaddir (readdirRpc firstByteHash splitServers rootDirId stack) splitRoot 3 =
        some (.ok [[some 1]]) := by
  refine ⟨rfl, by decide, by decide, by decide, by decide, ?_⟩
  obtain ⟨merged, hmerged, radix, unset⟩ : ∃ merged, gigaUpdateCache splitRoot splitRoot = some merged ∧
      merged.currRadix = 1 ∧ getBitStatus merged.bitmap 128 = false :=
    ⟨_, rfl, rfl, by decide⟩
  -- server 0 lists `[1]` in one page and leaves the end key as it found it
  have backend : metadbReaddir (splitServers 0).mdb rootDirId ((0 : ℕ) : ℤ) none
      (kMaxNumScanEntries * maxLen) =
      some (0, [[some 1]].flatMap frame, [[some 1]].length, none) := by
    set_option synthInstance.maxSize 512 in decide
  have reply : readdirRpc firstByteHash splitServers rootDirId stack 0 0 none =
      some (.ok ⟨[[some 1]], stack 0 0 none, false, splitRoot⟩) := by
    simp only [readdirRpc, readdir]
    rw [readdir_of_frames backend (by simp)]
    rfl
  have first : scanPartition (readdirRpc firstByteHash splitServers rootDirId stack) 2
      ⟨splitRoot, 0, splitRoot.currRadix, none, []⟩ =
        some (.ok (merged, some (stack 0 0 none), [] ++ [[some 1]])) := by
    rw [scanPartition, if_pos (by decide)]
    exact readdirPages_last _ reply rfl hmerged
  -- `reverse_bits(1, 1)` is 128, whose bit is clear
  have second : scanPartition (readdirRpc firstByteHash splitServers rootDirId stack) 1
      ⟨merged, 0 + 1, merged.currRadix, some (stack 0 0 none), [] ++ [[some 1]]⟩ =
        some (.ok (merged, some (stack 0 0 none), [] ++ [[some 1]])) := by
    apply scanPartition_skip
    show getBitStatus merged.bitmap (reverseBits ((0 : UInt8) + 1).toNat merged.currRadix).toNat = false
    rw [radix, show (reverseBits ((0 : UInt8) + 1).toNat 1).toNat = 128 by decide]
    exact unset
  have inRange : ((0 : UInt8) + 1).toNat < 2 ^ merged.currRadix := by
    rw [radix]
    decide
  have past : ¬ ((0 : UInt8) + 1 + 1).toNat < 2 ^ merged.currRadix := by
    rw [radix]
    decide
  rw [clientReaddir, readdirLoop_next _ (by decide) first, readdirLoop_next _ inRange second,
    readdirLoop_done _ past]
  rfl

end IndexFS
