import Mathlib.Data.Nat.Bitwise

/-! The two packed words of `ColumnDB`: the header `magic << 48 | key_size << 20 | value_size`
and the location word `log_number << 42 | offset << 10 | ceil(total / 1024)`, stored
little-endian. Each field decodes back only while it fits its width. -/
namespace ColumnDb

def kColumnMagicNumber : UInt64 := 0x18ca

def encodeFixed64 (value : UInt64) : List UInt8 :=
  [value.toUInt8, (value >>> 8).toUInt8, (value >>> 16).toUInt8, (value >>> 24).toUInt8,
    (value >>> 32).toUInt8, (value >>> 40).toUInt8, (value >>> 48).toUInt8,
    (value >>> 56).toUInt8]

@[simp] theorem length_encodeFixed64 (value : UInt64) : (encodeFixed64 value).length = 8 := rfl

def decodeFixed64 (bytes : List UInt8) : UInt64 :=
  UInt64.ofNat ((bytes.take 8).foldr (fun b acc => b.toNat + 256 * acc) 0)

def recordHeader (keySize valueSize : UInt64) : UInt64 :=
  (kColumnMagicNumber <<< 48) + (keySize <<< 20) + valueSize

def decodeHeader (header : UInt64) : UInt64 × UInt64 × UInt64 :=
  let magicNumber := header >>> 48
  let header := header &&& (((1 : UInt64) <<< 48) - 1)
  (magicNumber, header >>> 20, header &&& (((1 : UInt64) <<< 20) - 1))

def fileLoc (logNumber location totalSize : UInt64) : UInt64 :=
  (logNumber <<< 42) + (location <<< 10) + ((totalSize + 1023) / 1024)

def decodeFileLoc (fileLoc : UInt64) : UInt64 × UInt64 × UInt64 :=
  let fileNumber := fileLoc >>> 42
  let fileLoc := fileLoc &&& (((1 : UInt64) <<< 42) - 1)
  (fileNumber, fileLoc >>> 10, (fileLoc &&& 1023) * 1024)

/-! ## As natural numbers -/

section Arith

variable (a s : UInt64)

theorem toNat_shiftRight_of_lt (hs : s.toNat < 64) : (a >>> s).toNat = a.toNat / 2 ^ s.toNat := by
  rw [UInt64.toNat_shiftRight, Nat.mod_eq_of_lt hs, Nat.shiftRight_eq_div_pow]

theorem toNat_shiftLeft_of_lt (hs : s.toNat < 64) :
    (a <<< s).toNat = a.toNat * 2 ^ s.toNat % 2 ^ 64 := by
  rw [UInt64.toNat_shiftLeft, Nat.mod_eq_of_lt hs, Nat.shiftLeft_eq]

theorem toNat_and_mask (hs : s.toNat < 64) :
    (a &&& (((1 : UInt64) <<< s) - 1)).toNat = a.toNat % 2 ^ s.toNat := by
  have small : 2 ^ s.toNat < 2 ^ 64 := Nat.pow_lt_pow_right (by decide) hs
  have shifted : ((1 : UInt64) <<< s).toNat = 2 ^ s.toNat := by
    rw [toNat_shiftLeft_of_lt _ _ hs, UInt64.toNat_one, Nat.one_mul, Nat.mod_eq_of_lt small]
  have mask : (((1 : UInt64) <<< s) - 1).toNat = 2 ^ s.toNat - 1 := by
    rw [UInt64.toNat_sub_of_le _ _ (by rw [UInt64.le_iff_toNat_le, shifted]; exact Nat.one_le_two_pow),
      shifted, UInt64.toNat_one]
  rw [UInt64.toNat_and, mask, Nat.and_two_pow_sub_one_eq_mod]

end Arith

theorem toNat_decodeHeader (header : UInt64) :
    (decodeHeader header).1.toNat = header.toNat / 2 ^ 48 ∧
      (decodeHeader header).2.1.toNat = header.toNat % 2 ^ 48 / 2 ^ 20 ∧
      (decodeHeader header).2.2.toNat = header.toNat % 2 ^ 20 := by
  simp only [decodeHeader, toNat_shiftRight_of_lt _ _ (by decide : (48 : UInt64).toNat < 64),
    toNat_shiftRight_of_lt _ _ (by decide : (20 : UInt64).toNat < 64),
    toNat_and_mask _ _ (by decide : (48 : UInt64).toNat < 64),
    toNat_and_mask _ _ (by decide : (20 : UInt64).toNat < 64)]
  refine ⟨rfl, rfl, ?_⟩
  show header.toNat % 2 ^ 48 % 2 ^ 20 = header.toNat % 2 ^ 20
  omega

theorem toNat_decodeFileLoc (loc : UInt64) :
    (decodeFileLoc loc).1.toNat = loc.toNat / 2 ^ 42 ∧
      (decodeFileLoc loc).2.1.toNat = loc.toNat % 2 ^ 42 / 2 ^ 10 ∧
      (decodeFileLoc loc).2.2.toNat = loc.toNat % 2 ^ 10 * 2 ^ 10 := by
  simp only [decodeFileLoc, toNat_shiftRight_of_lt _ _ (by decide : (42 : UInt64).toNat < 64),
    toNat_shiftRight_of_lt _ _ (by decide : (10 : UInt64).toNat < 64),
    toNat_and_mask _ _ (by decide : (42 : UInt64).toNat < 64), UInt64.toNat_mul, UInt64.toNat_and]
  refine ⟨rfl, rfl, ?_⟩
  show (loc.toNat % 2 ^ 42 &&& 2 ^ 10 - 1) * 2 ^ 10 % 2 ^ 64 = loc.toNat % 2 ^ 10 * 2 ^ 10
  rw [Nat.and_two_pow_sub_one_eq_mod]
  omega

theorem toNat_recordHeader (keySize valueSize : UInt64) :
    (recordHeader keySize valueSize).toNat =
      (6346 * 2 ^ 48 + keySize.toNat * 2 ^ 20 % 2 ^ 64 + valueSize.toNat) % 2 ^ 64 := by
  simp only [recordHeader, UInt64.toNat_add, toNat_shiftLeft_of_lt _ _ (by decide : (48 : UInt64).toNat < 64),
    toNat_shiftLeft_of_lt _ _ (by decide : (20 : UInt64).toNat < 64)]
  show ((6346 * 2 ^ 48 % 2 ^ 64 + keySize.toNat * 2 ^ 20 % 2 ^ 64) % 2 ^ 64 + valueSize.toNat) % 2 ^ 64 = _
  omega

theorem toNat_fileLoc (logNumber location totalSize : UInt64) :
    (fileLoc logNumber location totalSize).toNat =
      (logNumber.toNat * 2 ^ 42 % 2 ^ 64 + location.toNat * 2 ^ 10 % 2 ^ 64 +
        (totalSize.toNat + 1023) % 2 ^ 64 / 1024) % 2 ^ 64 := by
  simp only [fileLoc, UInt64.toNat_add, UInt64.toNat_div,
    toNat_shiftLeft_of_lt _ _ (by decide : (42 : UInt64).toNat < 64),
    toNat_shiftLeft_of_lt _ _ (by decide : (10 : UInt64).toNat < 64)]
  show ((logNumber.toNat * 2 ^ 42 % 2 ^ 64 + location.toNat * 2 ^ 10 % 2 ^ 64) % 2 ^ 64 +
    (totalSize.toNat + 1023) % 2 ^ 64 / 1024) % 2 ^ 64 = _
  omega

/-! ## Round trips -/

theorem decodeFixed64_encodeFixed64 (value : UInt64) (rest : List UInt8) :
    decodeFixed64 (encodeFixed64 value ++ rest) = value := by
  apply UInt64.toNat_inj.mp
  have bound := UInt64.toNat_lt value
  simp only [decodeFixed64, encodeFixed64, List.cons_append, List.nil_append,
    List.take_succ_cons, List.take_zero, List.foldr_cons, List.foldr_nil, UInt64.toNat_toUInt8,
    UInt64.toNat_shiftRight, Nat.shiftRight_eq_div_pow, UInt64.toNat_ofNat, UInt64.toNat_ofNat',
    Nat.reduceMod, Nat.reducePow]
  omega

theorem toNat_decodeFixed64_shifted (value : UInt64) (next : UInt8) (rest : List UInt8) :
    (decodeFixed64 ((encodeFixed64 value).drop 1 ++ next :: rest)).toNat =
      value.toNat / 2 ^ 8 + next.toNat * 2 ^ 56 := by
  have bound := UInt64.toNat_lt value
  have byte := UInt8.toNat_lt next
  simp only [decodeFixed64, encodeFixed64, List.drop_succ_cons, List.drop_zero, List.cons_append,
    List.nil_append, List.take_succ_cons, List.take_zero, List.foldr_cons, List.foldr_nil,
    UInt64.toNat_toUInt8, UInt64.toNat_shiftRight, Nat.shiftRight_eq_div_pow, UInt64.toNat_ofNat,
    UInt64.toNat_ofNat', Nat.reduceMod, Nat.reducePow]
  omega

theorem decodeHeader_recordHeader_iff (keySize valueSize : UInt64) :
    decodeHeader (recordHeader keySize valueSize) = (kColumnMagicNumber, keySize, valueSize) ↔
      keySize.toNat < 2 ^ 28 ∧ valueSize.toNat < 2 ^ 20 := by
  obtain ⟨magic, key, value⟩ := toNat_decodeHeader (recordHeader keySize valueSize)
  have header := toNat_recordHeader keySize valueSize
  constructor
  · intro decoded
    rw [decoded] at key value
    dsimp only at key value
    have := Nat.mod_lt (recordHeader keySize valueSize).toNat (Nat.two_pow_pos 48)
    constructor <;> omega
  · rintro ⟨hk, hv⟩
    have hk' : keySize.toNat * 2 ^ 20 % 2 ^ 64 = keySize.toNat * 2 ^ 20 := Nat.mod_eq_of_lt (by omega)
    rw [hk'] at header
    refine Prod.ext (UInt64.toNat_inj.mp ?_) (Prod.ext (UInt64.toNat_inj.mp ?_) (UInt64.toNat_inj.mp ?_))
    · rw [magic, header, show (kColumnMagicNumber, keySize, valueSize).1.toNat = 6346 from rfl]
      omega
    · rw [key, header]
      show _ = keySize.toNat
      omega
    · rw [value, header]
      show _ = valueSize.toNat
      omega

theorem decodeFileLoc_fileLoc_iff (logNumber location totalSize : UInt64)
    (small : totalSize.toNat + 1023 < 2 ^ 64) :
    decodeFileLoc (fileLoc logNumber location totalSize) =
        (logNumber, location, (totalSize + 1023) / 1024 * 1024) ↔
      logNumber.toNat < 2 ^ 22 ∧ location.toNat < 2 ^ 32 ∧ (totalSize.toNat + 1023) / 1024 < 2 ^ 10 := by
  obtain ⟨number, offset, length⟩ := toNat_decodeFileLoc (fileLoc logNumber location totalSize)
  have loc := toNat_fileLoc logNumber location totalSize
  have bufSize : ((totalSize + 1023) / 1024 * 1024 : UInt64).toNat = (totalSize.toNat + 1023) / 1024 * 1024 := by
    simp only [UInt64.toNat_mul, UInt64.toNat_div, UInt64.toNat_add, UInt64.toNat_ofNat, Nat.reduceMod,
      Nat.reducePow]
    omega
  rw [Nat.mod_eq_of_lt small] at loc
  constructor
  · intro decoded
    rw [decoded] at number offset length
    dsimp only at number offset length
    have := Nat.mod_lt (fileLoc logNumber location totalSize).toNat (Nat.two_pow_pos 42)
    have := Nat.mod_lt (fileLoc logNumber location totalSize).toNat (Nat.two_pow_pos 10)
    have := UInt64.toNat_lt (fileLoc logNumber location totalSize)
    refine ⟨?_, ?_, ?_⟩ <;> omega
  · rintro ⟨hn, hl, hs⟩
    rw [Nat.mod_eq_of_lt (by omega : logNumber.toNat * 2 ^ 42 < 2 ^ 64),
      Nat.mod_eq_of_lt (by omega : location.toNat * 2 ^ 10 < 2 ^ 64)] at loc
    refine Prod.ext (UInt64.toNat_inj.mp ?_) (Prod.ext (UInt64.toNat_inj.mp ?_) (UInt64.toNat_inj.mp ?_))
    · rw [number, loc]
      show _ = logNumber.toNat
      omega
    · rw [offset, loc]
      show _ = location.toNat
      omega
    · rw [length, loc]
      show _ = ((totalSize + 1023) / 1024 * 1024 : UInt64).toNat
      rw [bufSize]
      omega

end ColumnDb
