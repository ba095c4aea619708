import IndexFS.Backend.Store

/-! The layout the readers of a metadb value assume: after the header come the object
name and its NUL, the real path and its NUL, and, for a file kept in the database,
`st_size` bytes of data. `metadb_get_file` trusts `st_size`, so a value whose stat
disagrees with its data is read past its end. -/
namespace Metadb

open Buffer

/-- The length a reader computes from the header equals the bytes there are. -/
def Layout (mobjVal : MetadbVal) : Prop :=
  mobjVal.body.length = mobjVal.objnameLen + mobjVal.realpathLen + 2 +
    if mobjVal.state = some rpcLeveldbFileInDb then mobjVal.statbuf.stSize else 0

instance (mobjVal : MetadbVal) : Decidable (Layout mobjVal) :=
  inferInstanceAs (Decidable (_ = _))

@[simp] theorem length_strncpy (src : List UInt8) (n : ℕ) : (strncpy src n).length = n := by
  unfold strncpy
  simp only [List.length_take, List.length_append, List.length_replicate]
  omega

theorem length_body_initMetaVal (initStatbuf : Stat) (statbuf : Option Stat) (objnameLen : ℕ)
    (objname : List UInt8) (realpathLen : ℕ) (realpath : List UInt8) (dataLen : ℕ)
    (data : List UInt8) (now : ℕ) :
    (initMetaVal initStatbuf statbuf objnameLen objname realpathLen realpath dataLen data
      now).body.length =
      objnameLen + realpathLen + 2 + dataLen := by
  simp only [initMetaVal, List.length_append, List.length_map, length_strncpy,
    List.length_singleton]
  omega

theorem layout_initMetaVal (initStatbuf : Stat) (statbuf : Option Stat) (objnameLen : ℕ)
    (objname : List UInt8) (realpathLen : ℕ) (realpath : List UInt8) (dataLen : ℕ)
    (data : List UInt8) (now : ℕ) :
    Layout (initMetaVal initStatbuf statbuf objnameLen objname realpathLen realpath dataLen data
      now) ↔
      dataLen = if realpathLen = 0 then
        (match statbuf with | none => dataLen | some statbuf => statbuf.stSize) else 0 := by
  unfold Layout
  rw [length_body_initMetaVal]
  have names : (initMetaVal initStatbuf statbuf objnameLen objname realpathLen realpath dataLen
      data now).objnameLen + (initMetaVal initStatbuf statbuf objnameLen objname realpathLen
      realpath dataLen data now).realpathLen = objnameLen + realpathLen := rfl
  rw [names, Nat.add_right_inj]
  by_cases linked : realpathLen = 0
  · cases statbuf <;> simp [initMetaVal, linked]
  · have state : (initMetaVal initStatbuf statbuf objnameLen objname realpathLen realpath dataLen
        data now).state ≠ some rpcLeveldbFileInDb := by
      simp [initMetaVal, linked, rpcLeveldbFileInDb, rpcLeveldbFileInFs]
    rw [if_neg state, if_neg linked]

theorem fileContents_eq_none_of_short (mobjVal : MetadbVal)
    (embedded : mobjVal.state = some rpcLeveldbFileInDb)
    (short : mobjVal.body.length < dataOffset mobjVal + mobjVal.statbuf.stSize) :
    fileContents mobjVal = none := by
  have notLinked : mobjVal.state ≠ some rpcLeveldbFileInFs := by
    rw [embedded]
    decide
  simp only [fileContents, if_neg notLinked, (read_eq_none_iff _ _ _).mpr short, Option.map_none]

/-- A record created by `metadb_create_entry` with a stat of size 1 and no data, as
`MetadataServer::Rename` and the client's rename create the new name, breaks the layout,
and `metadb_get_file` then reads past the end of the value. -/
theorem create_entry_over_read (cwd stat : Stat) :
    (metadbCreateEntry (fun _ _ => 0) ⟨∅, 0, 0, cwd⟩ 1 0 [97] { stat with stSize := 1 }
      [] 0 [] 0).2 = 0 ∧
    (∀ mobjVal, (metadbCreateEntry (fun _ _ => 0) ⟨∅, 0, 0, cwd⟩ 1 0 [97]
      { stat with stSize := 1 } [] 0 [] 0).1.get
        (initMetaObjKey (fun _ _ => 0) 1 0 (some [97])) = some mobjVal →
      ¬ Layout mobjVal) ∧
    metadbGetFile (fun _ _ => 0) (metadbCreateEntry (fun _ _ => 0) ⟨∅, 0, 0, cwd⟩ 1 0 [97]
      { stat with stSize := 1 } [] 0 [] 0).1 1 0 [97] = none := by
  -- the value it writes: one byte of name, no real path and no data, against `st_size` 1
  set created := initMetaVal cwd (some { stat with stSize := 1 }) 1 [97] 0 [] 0 [] 0
  have empty : (⟨∅, 0, 0, cwd⟩ : MetaDB).get (initMetaObjKey (fun _ _ => 0) 1 0 (some [97])) =
      none :=
    AList.lookup_empty _
  have stored : (metadbCreateEntry (fun _ _ => 0) ⟨∅, 0, 0, cwd⟩ 1 0 [97]
      { stat with stSize := 1 } [] 0 [] 0).1.get (initMetaObjKey (fun _ _ => 0) 1 0 (some [97])) =
      some created := by
    simp only [metadbCreateEntry, get_putIfAbsent, empty, and_self, if_true]
    rfl
  have broken : ¬ Layout created := by
    rw [layout_initMetaVal]
    simp
  have short : fileContents created = none :=
    fileContents_eq_none_of_short created rfl (by simp [created, initMetaVal, dataOffset])
  refine ⟨rfl, fun mobjVal found => ?_, ?_⟩
  · rw [stored, Option.some_inj] at found
    subst found
    exact broken
  · simp only [metadbGetFile, stored, short, Option.map_none]

end Metadb
