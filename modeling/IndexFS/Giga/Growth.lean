import IndexFS.Giga.Split
import IndexFS.Lib.Transition
import Mathlib.Data.Nat.ModEq

/-! How far a bitmap grows under `SPLIT_T_NUM_SERVERS_BOUND`: from `giga_init_mapping` on `n`
servers every set index stays below `n`, which for `n ≤ 128` keeps it inside the seven bits
`compute_index` reads. -/
namespace Giga

open PrefixTree Transition

/-- One split the policy allows, as far as the directory's mapping goes:
`MetadataServer::CheckSplit` asks `giga_is_splittable`, and `Split` records the child
that `giga_index_for_splitting` picks with `giga_update_mapping`. -/
def policySplit (mapping : GigaMapping) (parent : ℕ) : Option GigaMapping :=
  match gigaIsSplittable mapping parent, gigaIndexForSplitting mapping parent with
  | some 1, some child => gigaUpdateMapping mapping child
  | _, _ => none

/-- The mappings a directory created on `n` servers reaches by allowed splits. -/
def Grown (n : ℕ) : GigaMapping → Prop :=
  Reachable (fun m => ∃ id zerothServer, m = gigaInitMapping id zerothServer n)
    (StepOf policySplit)

theorem child_lt_of_splittable {m : GigaMapping} {parent child : ℕ}
    (allowed : gigaIsSplittable m parent = some 1)
    (found : gigaIndexForSplitting m parent = some child) : child < m.serverCount := by
  simp only [gigaIsSplittable, splitType, found, Option.map_some, Option.some_inj] at allowed
  split at allowed
  · rename_i bound
    rw [maxBktsPerServer, Nat.one_mul] at bound
    exact bound
  · cases allowed

theorem policySplit_spec (m m' : GigaMapping) (parent : ℕ)
    (split : policySplit m parent = some m') :
    ∃ child, gigaIndexForSplitting m parent = some child ∧
      child < m.serverCount ∧ gigaUpdateMapping m child = some m' := by
  unfold policySplit at split
  split at split
  · rename_i child allowed found
    exact ⟨child, found, child_lt_of_splittable allowed found, split⟩
  · cases split

structure Bounded (n : ℕ) (m : GigaMapping) : Prop where
  wf : m.bitmap.WF
  closed : TreeClosed m.bitmap
  count : m.serverCount = n
  below : ∀ i, getBitStatus m.bitmap i = true → i < n

section Bounded

variable {n : ℕ}

theorem bounded_init (pos : 0 < n) (id : Int) (zerothServer : ℕ) :
    Bounded n (gigaInitMapping id zerothServer n) where
  wf := WF_initialBitmap
  closed := treeClosed_initialBitmap
  count := if_pos pos
  below i set := by
    rw [(getBitStatus_initialBitmap i).mp set]
    exact pos

theorem Bounded.policySplit (small : n ≤ 128) {m m' : GigaMapping} (bounded : Bounded n m)
    (parent : ℕ) (split : Giga.policySplit m parent = some m') : Bounded n m' := by
  obtain ⟨child, found, bound, update⟩ := policySplit_spec m m' parent split
  rw [bounded.count] at bound
  obtain ⟨hp, j, hpj, rfl, _⟩ := split_child parent child found
  have fits : parent + 2 ^ j < capacity := by
    rw [capacity_eq]
    omega
  rw [gigaUpdateMapping_eq m _ bounded.wf fits, Option.some_inj] at update
  subst update
  have closedS := (treeClosed_iff _).mp bounded.closed
  refine ⟨bounded.wf.setBit _, ?_, bounded.count, ?_⟩
  · rw [treeClosed_iff, partitions_setBit _ _ fits]
    exact closedS.insert_child parent j hp hpj
  · intro i set
    rw [getBitStatus_setBit _ _ _ fits, Bool.or_eq_true, decide_eq_true_iff] at set
    rcases set with rfl | old
    · exact bound
    · exact bounded.below i old

theorem Grown.bounded (pos : 0 < n) (small : n ≤ 128) {m : GigaMapping} (grown : Grown n m) :
    Bounded n m := by
  apply Reachable.invariant _ _ grown
  · rintro _ ⟨id, zerothServer, rfl⟩
    exact bounded_init pos id zerothServer
  · rintro s s' bounded ⟨parent, split⟩
    exact bounded.policySplit small parent split

end Bounded

/-! ## What the bound gives -/

theorem splitSearch_of_clear (b : Bitmap) (index : ℕ) :
    ∀ remaining i j, i ≤ j → j < i + remaining →
      getBitStatus b (getChildIndex index j) = false →
      ∃ c, splitSearch b index remaining i = some c := by
  intro remaining
  induction remaining with
  | zero => intro i j low high; omega
  | succ remaining ih =>
    intro i j low high clear
    simp only [splitSearch]
    split
    · rename_i set
      have next : i + 1 ≤ j := by
        rcases Nat.lt_or_eq_of_le low with lt | rfl
        · exact lt
        · rw [clear] at set
          cases set
      exact ih (i + 1) j next (by omega) clear
    · exact ⟨_, rfl⟩

section Consequences

variable {n : ℕ} {m : GigaMapping}

theorem Bounded.below_partitions (small : n ≤ 128) (bounded : Bounded n m) :
    ∀ i ∈ partitions m.bitmap, i < 2 ^ (maxRadix - 1) := fun i mem =>
  Nat.lt_of_lt_of_le (bounded.below i ((mem_partitions _ i).mp mem)) small

theorem Bounded.lookup (small : n ≤ 128) (bounded : Bounded n m) (hash : Hash) :
    ∃ q, gigaGetIndexForFile m hash = some q ∧ getBitStatus m.bitmap q = true := by
  have found := gigaGetIndexForFile_of_closed bounded.wf bounded.closed
    (bounded.below_partitions small) hash
  obtain ⟨mem, _⟩ := lookup_spec (x := hashKey hash) ((treeClosed_iff _).mp bounded.closed).1
  exact ⟨_, found, (mem_partitions _ _).mp mem⟩

theorem Bounded.splitting (small : n ≤ 128) (bounded : Bounded n m) (parent : ℕ)
    (set : getBitStatus m.bitmap parent = true) :
    ∃ c, gigaIndexForSplitting m parent = some c := by
  have hp : parent < 128 := Nat.lt_of_lt_of_le (bounded.below parent set) small
  have radix : getRadixFromIndex parent ≤ 7 := by
    rw [getRadixFromIndex_eq]
    exact Nat.size_le.mpr hp
  -- the child at `j = 7` is at least 128, so it is missing
  have clear : getBitStatus m.bitmap (getChildIndex parent 7) = false := by
    cases child : getBitStatus m.bitmap (getChildIndex parent 7) with
    | false => rfl
    | true =>
      have := Nat.lt_of_lt_of_le (bounded.below _ child) small
      rw [getChildIndex] at this
      omega
  unfold gigaIndexForSplitting
  rw [if_pos set]
  exact splitSearch_of_clear _ _ _ _ 7 radix (by rw [maxRadix]; omega) clear

theorem Bounded.server_injective (bounded : Bounded n m) (i j : ℕ)
    (seti : getBitStatus m.bitmap i = true) (setj : getBitStatus m.bitmap j = true)
    (same : gigaGetServerForIndex m i = gigaGetServerForIndex m j) : i = j := by
  unfold gigaGetServerForIndex at same
  rw [bounded.count] at same
  have modEq : i ≡ j [MOD n] := Nat.ModEq.add_right_cancel' _ same
  rw [Nat.ModEq, Nat.mod_eq_of_lt (bounded.below i seti),
    Nat.mod_eq_of_lt (bounded.below j setj)] at modEq
  exact modEq

end Consequences

/-- On `n ≤ 128` servers, every mapping the split policy grows keeps its set indices
below `n`, looks every name up without failing an assertion, finds a child for every
set index it may split, and puts its partitions on distinct servers. -/
theorem growth_bounded (n : ℕ) (pos : 0 < n) (small : n ≤ 128) (m : GigaMapping)
    (grown : Grown n m) :
    (∀ i, getBitStatus m.bitmap i = true → i < n) ∧
      (∀ hash, ∃ q, gigaGetIndexForFile m hash = some q ∧ getBitStatus m.bitmap q = true) ∧
      (∀ p, getBitStatus m.bitmap p = true → ∃ c, gigaIndexForSplitting m p = some c) ∧
      (∀ i j, getBitStatus m.bitmap i = true → getBitStatus m.bitmap j = true →
        gigaGetServerForIndex m i = gigaGetServerForIndex m j → i = j) := by
  have bounded := grown.bounded pos small
  exact ⟨bounded.below, bounded.lookup small, bounded.splitting small,
    bounded.server_injective⟩

theorem growth_bounded_after_splits :
    ∃ m, [0, 0, 1].foldlM policySplit (gigaInitMapping 0 0 4) = some m ∧
      getBitStatus m.bitmap 3 = true ∧
      (∀ i, getBitStatus m.bitmap i = true → i < 4) ∧
      (∀ hash, ∃ q, gigaGetIndexForFile m hash = some q ∧ getBitStatus m.bitmap q = true) ∧
      (∀ p, getBitStatus m.bitmap p = true → ∃ c, gigaIndexForSplitting m p = some c) ∧
      (∀ i j, getBitStatus m.bitmap i = true → getBitStatus m.bitmap j = true →
        gigaGetServerForIndex m i = gigaGetServerForIndex m j → i = j) := by
  -- partition 0 splits to 1 and then to 2, and partition 1 splits to 3
  refine ⟨_, rfl, by decide, growth_bounded 4 (by decide) (by decide) _ ?_⟩
  exact Reachable.foldlM [0, 0, 1] (Reachable.init ⟨0, 0, rfl⟩) rfl

/-! ## Past 128 servers -/

theorem computeIndex_of_le (hash : Hash) (radix : ℕ) (big : maxRadix ≤ radix) :
    computeIndex hash radix = none := by
  rw [computeIndex, if_neg (Nat.not_lt.mpr big)]

def splitsOfZero : Option GigaMapping :=
  (List.replicate 8 0).foldlM policySplit (gigaInitMapping 0 0 129)

theorem splitsOfZero_isSome : splitsOfZero.isSome := by decide

/-- On 129 servers, eight allowed splits of partition 0 set index 128. From then on every
lookup fails `assert(radix < MAX_RADIX)` in `compute_index`, and splitting partition 0
again fails `assert (i < MAX_RADIX)` in `giga_index_for_splitting`. -/
theorem growth_past_radix :
    ∃ m, Grown 129 m ∧ getBitStatus m.bitmap 128 = true ∧
      (∀ hash, gigaGetIndexForFile m hash = none) ∧
      gigaIndexForSplitting m 0 = none := by
  refine ⟨splitsOfZero.get splitsOfZero_isSome, ?_, by decide, ?_, by decide⟩
  · exact Reachable.foldlM _ (Reachable.init ⟨0, 0, rfl⟩) (Option.some_get _).symm
  · intro hash
    have radix : getRadixFromBmap (splitsOfZero.get splitsOfZero_isSome).bitmap = some 8 := by
      decide
    simp only [gigaGetIndexForFile, radix, Option.bind_eq_bind, Option.bind_some,
      computeIndex_of_le hash 8 le_rfl, Option.bind_none]

end Giga
