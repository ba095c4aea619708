import IndexFS.Lib.PrefixTree

/-! The GIGA+ header table of `giga_index.c`, function by function. A function that can fail one
of its `assert`s, or spin forever, returns `none` there; `floor(log2((double) index))` is
`Nat.log2 index`. -/
namespace Giga

def maxRadix : ℕ := 8
def hashNumBytes : ℕ := 8
def hashLen : ℕ := hashNumBytes
def bitsPerMap : ℕ := 8 - 1
def maxBmapLen : ℕ :=
  if 2 ^ maxRadix % bitsPerMap = 0 then 2 ^ maxRadix / bitsPerMap
  else 2 ^ maxRadix / bitsPerMap + 1
def maxBktsPerServer : ℕ := 1

theorem maxBmapLen_eq : maxBmapLen = 37 := by decide

inductive SplitType where
  | splitTNoBound
  | splitTNoSplittingEver
  | splitTNumServersBound
  | splitTNextHighestPow2
  deriving DecidableEq, Repr

def splitType : SplitType := .splitTNumServersBound

abbrev Bitmap : Type := Fin maxBmapLen → UInt8

abbrev Hash : Type := Fin hashLen → UInt8

structure GigaMapping where
  bitmap : Bitmap
  id : Int
  currRadix : ℕ
  zerothServer : ℕ
  serverCount : ℕ

def byteAt (bitmap : Bitmap) (i : ℕ) : UInt8 :=
  if h : i < maxBmapLen then bitmap ⟨i, h⟩ else 0

def getBitStatus (bmap : Bitmap) (index : ℕ) : Bool :=
  let indexInBmap := index / bitsPerMap
  let bitInIndex := index % bitsPerMap
  let mask : UInt8 := UInt8.ofNat (1 <<< bitInIndex)
  (byteAt bmap indexInBmap &&& mask) != 0

def setBit (bitmap : Bitmap) (newIndex : ℕ) : Bitmap :=
  let indexInBmap := newIndex / bitsPerMap
  let bitInIndex := newIndex % bitsPerMap
  let mask : UInt8 := UInt8.ofNat (1 <<< bitInIndex)
  fun k => if k.val = indexInBmap then bitmap k ||| mask else bitmap k

/-- `get_highest_index`: the last nonzero byte, then its highest used bit. When no byte
is set the byte index stays `-1` and `assert(max_index >= 0)` fails; when the byte has
no used bit set, `bit_in_index` stays `-1`. -/
def getHighestIndex (bitmap : Bitmap) : Option ℕ :=
  match PrefixTree.scanDown (fun i => byteAt bitmap i != 0) maxBmapLen with
  | none => none
  | some indexInBmap =>
    let value := byteAt bitmap indexInBmap
    match PrefixTree.scanDown (fun j => (value &&& UInt8.ofNat (1 <<< j)) != 0) bitsPerMap with
    | some bitInIndex => some (indexInBmap * bitsPerMap + bitInIndex)
    | none => if 0 < indexInBmap then some (indexInBmap * bitsPerMap - 1) else none

def getRadixFromIndex (index : ℕ) : ℕ :=
  if index = 0 then 0
  else if index = 1 then 1
  else Nat.log2 index + 1

def getRadixFromBmap (bitmap : Bitmap) : Option ℕ :=
  (getHighestIndex bitmap).map getRadixFromIndex

def getChildIndex (index radix : ℕ) : ℕ := index + 2 ^ radix

def getParentIndex (index : ℕ) : ℕ :=
  if index > 0 then index - 2 ^ Nat.log2 index else 0

def reverseByte (b : UInt8) : UInt8 :=
  ((((b.toUInt64 * 0x80200802) &&& 0x0884422110) * 0x0101010101) >>> 32).toUInt8

def hashByte (binHash : Hash) (i : ℕ) : UInt8 :=
  if h : i < hashLen then binHash ⟨i, h⟩ else 0

def computeIndex (binHash : Hash) (radix : ℕ) : Option ℕ :=
  if radix < maxRadix then
    let numUsefulBytes := radix / 8
    let residualUsefulBits := radix % 8
    let index := (List.range numUsefulBytes).foldl
      (fun index i => index + ((reverseByte (hashByte binHash i)).toNat <<< (i * 8))) 0
    if residualUsefulBits > 0 then
      let currByte := (reverseByte (hashByte binHash numUsefulBytes)).toNat
      let currMask := (1 <<< residualUsefulBits) - 1
      some (index + ((currByte &&& currMask) <<< (numUsefulBytes * 8)))
    else some index
  else none

/-- The `while` loop of `giga_get_index_for_file`: climb to the parent until the bit is
set. Each step lowers the index, so `fuel` above the index is enough; at index 0 with
bit 0 clear the loop would spin forever. -/
def climb (bitmap : Bitmap) : ℕ → ℕ → Option ℕ
  | 0, _ => none
  | fuel + 1, index =>
    if getBitStatus bitmap index then some index
    else if index = 0 then none
    else climb bitmap fuel (getParentIndex index)

def gigaGetIndexForFile (mapping : GigaMapping) (hash : Hash) : Option ℕ := do
  let currRadix ← getRadixFromBmap mapping.bitmap
  let index ← computeIndex hash currRadix
  climb mapping.bitmap (index + 1) index

/-- The loop of `giga_index_for_splitting` from radix `i`, with `remaining` iterations
before `assert (i < MAX_RADIX)` fails. -/
def splitSearch (bitmap : Bitmap) (index : ℕ) : ℕ → ℕ → Option ℕ
  | 0, _ => none
  | remaining + 1, i =>
    let newIndex := getChildIndex index i
    if getBitStatus bitmap newIndex then splitSearch bitmap index remaining (i + 1)
    else some newIndex

def gigaIndexForSplitting (mapping : GigaMapping) (index : ℕ) : Option ℕ :=
  if getBitStatus mapping.bitmap index then
    let i := getRadixFromIndex index
    splitSearch mapping.bitmap index (maxRadix - i) i
  else none

def gigaFileMigrationStatusWithHash (hash : Hash) (newIndex : ℕ) : Option ℕ :=
  (computeIndex hash (getRadixFromIndex newIndex)).map
    (fun index => if index = newIndex then 1 else 0)

def gigaGetServerForIndex (mapping : GigaMapping) (index : ℕ) : ℕ :=
  (index + mapping.zerothServer) % mapping.serverCount

def gigaIsSplittable (mapping : GigaMapping) (oldIndex : ℕ) : Option ℕ :=
  match splitType with
  | .splitTNoBound => some 1
  | .splitTNoSplittingEver => some 0
  | .splitTNumServersBound =>
    (gigaIndexForSplitting mapping oldIndex).map fun newIndex =>
      if newIndex < maxBktsPerServer * mapping.serverCount then 1 else 0
  -- `abort()`: the mode is not defined yet
  | .splitTNextHighestPow2 => none

def initialBitmap : Bitmap := fun k => if k.val = 0 then 1 else 0

/-- `giga_init_mapping`; with `flag == -1` and in the configured split mode alike the
bitmap holds partition 0 and the radix is 1. -/
def gigaInitMapping (id : Int) (zerothServer serverCount : ℕ) : GigaMapping where
  bitmap := initialBitmap
  id := id
  currRadix := 1
  zerothServer := zerothServer
  serverCount := if serverCount > 0 then serverCount else 1

def gigaUpdateMapping (mapping : GigaMapping) (newIndex : ℕ) : Option GigaMapping :=
  let bitmap := setBit mapping.bitmap newIndex
  (getRadixFromBmap bitmap).map fun currRadix =>
    { mapping with bitmap := bitmap, currRadix := currRadix }

def gigaUpdateCache (curr update : GigaMapping) : Option GigaMapping :=
  let bitmap : Bitmap := fun k => curr.bitmap k ||| update.bitmap k
  (getRadixFromBmap bitmap).map fun currRadix =>
    { curr with bitmap := bitmap, currRadix := currRadix,
                serverCount := if update.serverCount > curr.serverCount
                  then update.serverCount else curr.serverCount }

end Giga
