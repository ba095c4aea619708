import IndexFS.Giga.Lookup
import IndexFS.Lib.CInt

/-! The mapping on the wire: `CopyGigaMap` fills the thrift struct `GigaBitmap` and `CopyMapping`
reads it back. The round trip is exact when the id is an `int` and the other numbers fit an
`i16`. -/
namespace Giga

open CInt PrefixTree

structure GigaBitmap where
  id : ℤ
  bitmap : List UInt8
  currRadix : ℤ
  zerothServer : ℤ
  numServers : ℤ
  deriving DecidableEq, Repr

def copyGigaMap (mapping : GigaMapping) : GigaBitmap where
  id := mapping.id
  bitmap := List.ofFn mapping.bitmap
  currRadix := narrow16 mapping.currRadix
  zerothServer := narrow16 mapping.zerothServer
  numServers := narrow16 mapping.serverCount

/-- `CopyMapping`. Its `memcpy` takes `MAX_BMAP_LEN` bytes from the string's buffer, which
holds the string and its terminating NUL; from a shorter string it reads past the buffer,
`none` here. -/
def copyMapping (mapping : GigaBitmap) : Option GigaMapping :=
  let bytes := mapping.bitmap ++ [0]
  if fits : maxBmapLen ≤ bytes.length then
    some
      { bitmap := fun k => bytes.get ⟨k.val, Nat.lt_of_lt_of_le k.isLt fits⟩
        id := toInt32 mapping.id
        currRadix := widen32 mapping.currRadix
        zerothServer := widen32 mapping.zerothServer
        serverCount := widen32 mapping.numServers }
  else none

/-- A mapping the wire carries exactly: its id is an `int`, and its radix and server numbers
fit an `i16`. -/
structure GigaMapping.Sendable (mapping : GigaMapping) : Prop where
  id : -2 ^ 31 ≤ mapping.id ∧ mapping.id < 2 ^ 31
  radix : mapping.currRadix < 2 ^ 15
  zeroth : mapping.zerothServer < 2 ^ 15
  count : mapping.serverCount < 2 ^ 15

structure GigaBitmap.WF (mapping : GigaBitmap) : Prop where
  length : mapping.bitmap.length = maxBmapLen
  id : -2 ^ 31 ≤ mapping.id ∧ mapping.id < 2 ^ 31
  radix : -2 ^ 15 ≤ mapping.currRadix ∧ mapping.currRadix < 2 ^ 15
  zeroth : -2 ^ 15 ≤ mapping.zerothServer ∧ mapping.zerothServer < 2 ^ 15
  count : -2 ^ 15 ≤ mapping.numServers ∧ mapping.numServers < 2 ^ 15

/-! ### The round trip -/

@[simp] theorem length_copyGigaMap (mapping : GigaMapping) :
    (copyGigaMap mapping).bitmap.length = maxBmapLen := by
  simp [copyGigaMap]

theorem copyMapping_eq_none_iff (mapping : GigaBitmap) :
    copyMapping mapping = none ↔ mapping.bitmap.length + 1 < maxBmapLen := by
  unfold copyMapping
  dsimp only
  split
  · rename_i fits
    simp only [List.length_append, List.length_singleton] at fits
    simp only [reduceCtorEq, false_iff]
    omega
  · rename_i short
    simp only [List.length_append, List.length_singleton] at short
    simp only [true_iff]
    omega

theorem copyMapping_copyGigaMap {mapping : GigaMapping} (sendable : mapping.Sendable) :
    copyMapping (copyGigaMap mapping) = some mapping := by
  have fits : maxBmapLen ≤ ((copyGigaMap mapping).bitmap ++ [0]).length := by simp
  rw [copyMapping, dif_pos fits]
  obtain ⟨bitmap, id, currRadix, zerothServer, serverCount⟩ := mapping
  -- the bytes are those of the bitmap, and each number survives its `i16` or `i64`
  have bytes : (fun k : Fin maxBmapLen => ((List.ofFn bitmap ++ [0]).get
      ⟨k.val, Nat.lt_of_lt_of_le k.isLt fits⟩)) = bitmap := by
    funext k
    simp [List.getElem_append_left]
  simp only [copyGigaMap, bytes, toInt32_of_lt sendable.id.1 sendable.id.2,
    widen32_narrow16 sendable.radix, widen32_narrow16 sendable.zeroth,
    widen32_narrow16 sendable.count]

/-- A count of `2^15` servers does not fit an `i16`: it comes back as `2^32 - 2^15`. -/
example : (copyMapping (copyGigaMap { gigaInitMapping 0 0 1 with serverCount := 2 ^ 15 })).map
    GigaMapping.serverCount = some (2 ^ 32 - 2 ^ 15) := by
  decide

/-- A well-formed `GigaBitmap` received and sent on is the one received. -/
theorem copyGigaMap_copyMapping {mapping : GigaBitmap} (wf : mapping.WF) :
    ∃ received, copyMapping mapping = some received ∧ copyGigaMap received = mapping := by
  have fits : maxBmapLen ≤ (mapping.bitmap ++ [0]).length := by
    simp [wf.length]
  refine ⟨_, dif_pos fits, ?_⟩
  obtain ⟨id, bitmap, currRadix, zerothServer, numServers⟩ := mapping
  have bytes : List.ofFn (fun k : Fin maxBmapLen => (bitmap ++ [0]).get
      ⟨k.val, Nat.lt_of_lt_of_le k.isLt fits⟩) = bitmap := by
    apply List.ext_getElem
    · simp [wf.length]
    · intro i inOfFn inBitmap
      simp [List.getElem_append_left inBitmap]
  simp only [copyGigaMap, bytes, toInt32_of_lt wf.id.1 wf.id.2,
    narrow16_widen32 wf.radix.1 wf.radix.2, narrow16_widen32 wf.zeroth.1 wf.zeroth.2,
    narrow16_widen32 wf.count.1 wf.count.2]

theorem copyGigaMap_copyMapping_initial :
    ∃ received, copyMapping ⟨0, 1 :: List.replicate 36 0, 1, 0, 2⟩ = some received ∧
      copyGigaMap received = ⟨0, 1 :: List.replicate 36 0, 1, 0, 2⟩ :=
  copyGigaMap_copyMapping ⟨by decide, by decide, by decide, by decide, by decide⟩

/-! ### The radix fits an `i16` -/

theorem getHighestIndex_lt {bitmap : Bitmap} {index : ℕ}
    (found : getHighestIndex bitmap = some index) : index < maxBmapLen * bitsPerMap := by
  unfold getHighestIndex at found
  have seven : bitsPerMap = 7 := rfl
  rw [seven, maxBmapLen_eq]
  split at found
  · cases found
  · rename_i byte scan
    have byteBelow := ((scanDown_eq_some _ _ _).mp scan).1
    rw [maxBmapLen_eq] at byteBelow
    dsimp only at found
    -- the bit it settles on is below `BITS_PER_MAP`, or it steps back from the byte
    split at found
    · rename_i bit scanBit
      have bitBelow := ((scanDown_eq_some _ _ _).mp scanBit).1
      rw [seven] at bitBelow
      cases found
      rw [seven]
      omega
    · split at found
      · cases found
        rw [seven]
        omega
      · cases found

theorem getRadixFromBmap_le {bitmap : Bitmap} {radix : ℕ}
    (got : getRadixFromBmap bitmap = some radix) : radix ≤ 9 := by
  obtain ⟨index, found, rfl⟩ := Option.map_eq_some_iff.mp got
  have below := getHighestIndex_lt found
  have seven : bitsPerMap = 7 := rfl
  rw [maxBmapLen_eq, seven] at below
  rw [getRadixFromIndex_eq]
  exact Nat.size_le.mpr (by omega)

theorem GigaMapping.Sendable.update {mapping mapping' : GigaMapping} {newIndex : ℕ}
    (sendable : mapping.Sendable) (update : gigaUpdateMapping mapping newIndex = some mapping') :
    mapping'.Sendable := by
  obtain ⟨radix, got, rfl⟩ := Option.map_eq_some_iff.mp update
  exact ⟨sendable.id, show radix < 2 ^ 15 by have := getRadixFromBmap_le got; omega,
    sendable.zeroth, sendable.count⟩

theorem GigaMapping.Sendable.merge {curr update merged : GigaMapping}
    (sendable : curr.Sendable) (sent : update.Sendable)
    (done : gigaUpdateCache curr update = some merged) : merged.Sendable := by
  obtain ⟨radix, got, rfl⟩ := Option.map_eq_some_iff.mp done
  refine ⟨sendable.id, show radix < 2 ^ 15 by have := getRadixFromBmap_le got; omega,
    sendable.zeroth, ?_⟩
  -- `giga_update_cache` keeps the larger of the two server counts
  show (if update.serverCount > curr.serverCount then update.serverCount else curr.serverCount) <
    2 ^ 15
  split
  · exact sent.count
  · exact sendable.count

end Giga
