import Mathlib

/-! Binary prefix trees over node numbers: the parent of a node clears its highest set bit, and
the low `k` bits of a key name the nodes on its path. The deepest member of a closed set on a
key's path is what a climb through parents finds first. -/
namespace PrefixTree

def scanDown (p : ℕ → Bool) : ℕ → Option ℕ
  | 0 => none
  | n + 1 => if p n then some n else scanDown p n

theorem scanDown_eq_some (p : ℕ → Bool) (n i : ℕ) :
    scanDown p n = some i ↔ i < n ∧ p i = true ∧ ∀ j, i < j → j < n → p j = false := by
  induction n with
  | zero => simp [scanDown]
  | succ n ih =>
    cases hp : p n with
    | true =>
      simp only [scanDown, hp, if_true, Option.some.injEq]
      constructor
      · rintro rfl
        exact ⟨Nat.lt_succ_self _, hp, fun j hij hj => absurd hj (by omega)⟩
      · rintro ⟨hi, -, above⟩
        by_contra ne
        have hn := above n (by omega) (Nat.lt_succ_self n)
        rw [hp] at hn
        cases hn
    | false =>
      simp only [scanDown, hp, Bool.false_eq_true, if_false, ih]
      constructor
      · rintro ⟨hi, hpi, above⟩
        refine ⟨Nat.lt_succ_of_lt hi, hpi, fun j hij hj => ?_⟩
        rcases Nat.lt_succ_iff_lt_or_eq.mp hj with hj | rfl
        · exact above j hij hj
        · exact hp
      · rintro ⟨hi, hpi, above⟩
        have hin : i < n := by
          rcases Nat.lt_succ_iff_lt_or_eq.mp hi with hi | rfl
          · exact hi
          · rw [hp] at hpi; cases hpi
        exact ⟨hin, hpi, fun j hij hj => above j hij (Nat.lt_succ_of_lt hj)⟩

/-! ## Parents -/

def parent (n : ℕ) : ℕ := n - 2 ^ Nat.log2 n

@[simp] theorem parent_zero : parent 0 = 0 := rfl

theorem parent_add_pow (n : ℕ) (pos : 0 < n) : parent n + 2 ^ Nat.log2 n = n := by
  have h := Nat.log2_self_le (Nat.pos_iff_ne_zero.mp pos)
  unfold parent
  omega

theorem parent_lt_pow (n : ℕ) : parent n < 2 ^ Nat.log2 n := by
  rcases Nat.eq_zero_or_pos n with rfl | pos
  · simp
  · have top : n < 2 ^ (Nat.log2 n + 1) := Nat.lt_log2_self
    have h := parent_add_pow n pos
    rw [Nat.pow_succ] at top
    omega

theorem parent_le (n : ℕ) : parent n ≤ n := Nat.sub_le _ _

theorem parent_lt (n : ℕ) (pos : 0 < n) : parent n < n := by
  have h := parent_add_pow n pos
  have p : 0 < 2 ^ Nat.log2 n := Nat.two_pow_pos _
  omega

theorem log2_add_pow (p i : ℕ) (below : p < 2 ^ i) : Nat.log2 (p + 2 ^ i) = i := by
  have ne : p + 2 ^ i ≠ 0 := by have := Nat.two_pow_pos i; omega
  rw [Nat.log2_eq_iff ne, Nat.pow_succ]
  omega

theorem parent_add_pow_of_lt (p i : ℕ) (below : p < 2 ^ i) : parent (p + 2 ^ i) = p := by
  unfold parent
  rw [log2_add_pow p i below]
  omega

theorem size_eq_log2_succ (n : ℕ) (pos : 0 < n) : Nat.size n = Nat.log2 n + 1 := by
  apply le_antisymm
  · exact Nat.size_le.mpr Nat.lt_log2_self
  · exact Nat.lt_size.mpr (Nat.log2_self_le (Nat.pos_iff_ne_zero.mp pos))

theorem size_add_pow (p i : ℕ) (below : p < 2 ^ i) : Nat.size (p + 2 ^ i) = i + 1 := by
  rw [size_eq_log2_succ _ (by have := Nat.two_pow_pos i; omega), log2_add_pow p i below]

theorem size_parent_lt {n : ℕ} (pos : 0 < n) : Nat.size (parent n) < Nat.size n := by
  rw [size_eq_log2_succ n pos]
  exact Nat.lt_succ_of_le (Nat.size_le.mpr (parent_lt_pow n))

/-! ## Paths: the low bits of a key -/

theorem mod_pow_of_le (x k R : ℕ) (le : k ≤ R) : x % 2 ^ R % 2 ^ k = x % 2 ^ k :=
  Nat.mod_mod_of_dvd x (Nat.pow_dvd_pow 2 le)

theorem mod_pow_mono (x : ℕ) {k R : ℕ} (le : k ≤ R) : x % 2 ^ k ≤ x % 2 ^ R := by
  rw [← mod_pow_of_le x k R le]
  exact Nat.mod_le _ _

theorem mod_size_of_mod (x k a : ℕ) (on : x % 2 ^ k = a) : x % 2 ^ Nat.size a = a := by
  have ak : a < 2 ^ k := on ▸ Nat.mod_lt x (Nat.two_pow_pos k)
  have le : Nat.size a ≤ k := Nat.size_le.mpr ak
  rw [← mod_pow_of_le x _ k le, on]
  exact Nat.mod_eq_of_lt (Nat.lt_size_self a)

theorem mod_pow_eq_of_lt (x k R : ℕ) (le : k ≤ R) (small : x % 2 ^ R < 2 ^ k) :
    x % 2 ^ k = x % 2 ^ R := by
  rw [← mod_pow_of_le x k R le]
  exact Nat.mod_eq_of_lt small

theorem parent_mod_pow (x R : ℕ) (pos : 0 < x % 2 ^ R) :
    parent (x % 2 ^ R) = x % 2 ^ Nat.log2 (x % 2 ^ R) := by
  set a := x % 2 ^ R
  have mR : Nat.log2 a < R :=
    (Nat.log2_lt (Nat.pos_iff_ne_zero.mp pos)).mpr (Nat.mod_lt x (Nat.two_pow_pos R))
  have split := parent_add_pow a pos
  have small := parent_lt_pow a
  calc parent a = (parent a + 2 ^ Nat.log2 a) % 2 ^ Nat.log2 a := by
        rw [Nat.add_mod_right, Nat.mod_eq_of_lt small]
    _ = a % 2 ^ Nat.log2 a := by rw [split]
    _ = x % 2 ^ Nat.log2 a := mod_pow_of_le x _ R mR.le

/-! ## Ancestors -/

def Ancestor (a n : ℕ) : Prop := ∃ k, parent^[k] n = a

theorem Ancestor.refl (n : ℕ) : Ancestor n n := ⟨0, rfl⟩

theorem ancestor_mod_pow (k : ℕ) : ∀ n, Ancestor (n % 2 ^ k) n := by
  intro n
  induction n using Nat.strong_induction_on with
  | _ n ih =>
    by_cases small : n < 2 ^ k
    · rw [Nat.mod_eq_of_lt small]
      exact Ancestor.refl n
    · have pos : 0 < n := Nat.lt_of_lt_of_le (Nat.two_pow_pos k) (Nat.le_of_not_lt small)
      have deep : k ≤ Nat.log2 n :=
        (Nat.le_log2 (Nat.pos_iff_ne_zero.mp pos)).mpr (Nat.le_of_not_lt small)
      -- the top bit of `n` lies at depth `k` or deeper, so clearing it keeps `n % 2 ^ k`
      have same : parent n % 2 ^ k = n % 2 ^ k := by
        conv_rhs => rw [← parent_add_pow n pos]
        rw [Nat.add_mod, Nat.mod_eq_zero_of_dvd (Nat.pow_dvd_pow 2 deep), Nat.add_zero,
          Nat.mod_mod]
      obtain ⟨j, walked⟩ := ih (parent n) (parent_lt n pos)
      exact ⟨j + 1, by rw [Function.iterate_succ_apply, walked, same]⟩

theorem Ancestor.le {a n : ℕ} (up : Ancestor a n) : a ≤ n := by
  obtain ⟨k, rfl⟩ := up
  induction k with
  | zero => exact le_rfl
  | succ k ih =>
    rw [Function.iterate_succ_apply']
    exact (parent_le _).trans ih

theorem Ancestor.child {a n : ℕ} (up : Ancestor a n) (ne : a ≠ n) :
    ∃ c, parent c = a ∧ c ≠ a ∧ Ancestor c n := by
  obtain ⟨k, walked⟩ := up
  -- the last parent step that changes the node
  induction k with
  | zero => exact absurd walked.symm ne
  | succ k ih =>
    rw [Function.iterate_succ_apply'] at walked
    by_cases same : parent^[k] n = a
    · exact ih same
    · exact ⟨_, walked, same, k, rfl⟩

/-! ## The nodes on a path and the deepest member among them -/

def prefixes (x R : ℕ) : Finset ℕ := (Finset.range (R + 1)).image (fun k => x % 2 ^ k)

theorem mem_prefixes (x R a : ℕ) : a ∈ prefixes x R ↔ ∃ k ≤ R, x % 2 ^ k = a := by
  simp [prefixes]

def deepest (S : Finset ℕ) (x R : ℕ) : ℕ := ((prefixes x R).filter (· ∈ S)).sup id

section Deepest

variable {S : Finset ℕ} {x R : ℕ}

theorem le_deepest {k : ℕ} (le : k ≤ R) (mem : x % 2 ^ k ∈ S) : x % 2 ^ k ≤ deepest S x R := by
  apply Finset.le_sup (f := id)
  exact Finset.mem_filter.mpr ⟨(mem_prefixes x R _).mpr ⟨k, le, rfl⟩, mem⟩

theorem deepest_spec (root : 0 ∈ S) :
    deepest S x R ∈ S ∧ ∃ k ≤ R, x % 2 ^ k = deepest S x R := by
  have ne : ((prefixes x R).filter (· ∈ S)).Nonempty :=
    ⟨0, Finset.mem_filter.mpr ⟨(mem_prefixes x R 0).mpr ⟨0, Nat.zero_le R, Nat.mod_one x⟩, root⟩⟩
  obtain ⟨a, ha, hsup⟩ := Finset.exists_mem_eq_sup _ ne id
  rw [deepest, hsup]
  obtain ⟨hp, hs⟩ := Finset.mem_filter.mp ha
  exact ⟨hs, (mem_prefixes x R a).mp hp⟩

theorem deepest_eq (a : ℕ) (mem : a ∈ S) (on : ∃ k ≤ R, x % 2 ^ k = a)
    (top : ∀ k ≤ R, x % 2 ^ k ∈ S → x % 2 ^ k ≤ a) : deepest S x R = a := by
  apply le_antisymm
  · apply Finset.sup_le
    intro b hb
    obtain ⟨hp, hs⟩ := Finset.mem_filter.mp hb
    obtain ⟨k, hk, rfl⟩ := (mem_prefixes x R b).mp hp
    exact top k hk hs
  · obtain ⟨k, hk, rfl⟩ := on
    exact le_deepest hk mem

theorem deepest_eq_findGreatest (root : 0 ∈ S) :
    deepest S x R = x % 2 ^ Nat.findGreatest (fun k => x % 2 ^ k ∈ S) R := by
  have memK : x % 2 ^ Nat.findGreatest (fun k => x % 2 ^ k ∈ S) R ∈ S :=
    Nat.findGreatest_spec (P := fun k => x % 2 ^ k ∈ S) (Nat.zero_le R)
      (by rw [Nat.pow_zero, Nat.mod_one]; exact root)
  apply deepest_eq _ memK ⟨_, Nat.findGreatest_le R, rfl⟩
  intro k le mem
  exact mod_pow_mono x (Nat.le_findGreatest le mem)

theorem deepest_of_lt_pow {R' : ℕ} (le : R ≤ R') (small : ∀ n ∈ S, n < 2 ^ R) :
    deepest S x R' = deepest S x R := by
  unfold deepest
  congr 1
  ext a
  simp only [Finset.mem_filter, mem_prefixes]
  constructor
  · rintro ⟨⟨k, hk, rfl⟩, hs⟩
    refine ⟨⟨min k R, min_le_right k R, ?_⟩, hs⟩
    rcases le_total k R with h | h
    · rw [min_eq_left h]
    · rw [min_eq_right h]
      exact mod_pow_eq_of_lt x R k h (small _ hs)
  · rintro ⟨⟨k, hk, rfl⟩, hs⟩
    exact ⟨⟨k, hk.trans le, rfl⟩, hs⟩

theorem deepest_insert_of_off (c : ℕ) (off : ∀ k ≤ R, x % 2 ^ k ≠ c) :
    deepest (insert c S) x R = deepest S x R := by
  unfold deepest
  congr 1
  ext a
  simp only [Finset.mem_filter, mem_prefixes, Finset.mem_insert]
  constructor
  · rintro ⟨⟨k, hk, rfl⟩, rfl | hs⟩
    · exact absurd rfl (off k hk)
    · exact ⟨⟨k, hk, rfl⟩, hs⟩
  · rintro ⟨on, hs⟩
    exact ⟨on, Or.inr hs⟩

end Deepest

/-! ## Closed sets of nodes -/

/-- A set of nodes closed under parents, holding the root. -/
def Closed (S : Finset ℕ) : Prop := 0 ∈ S ∧ ∀ n ∈ S, parent n ∈ S

theorem closed_of_parent_mem {S : Finset ℕ} (ne : S.Nonempty) (up : ∀ n ∈ S, parent n ∈ S) :
    Closed S := by
  refine ⟨?_, up⟩
  obtain ⟨n, mem⟩ := ne
  induction n using Nat.strong_induction_on with
  | _ n ih =>
    rcases Nat.eq_zero_or_pos n with rfl | pos
    · exact mem
    · exact ih (parent n) (parent_lt n pos) (up n mem)

theorem Closed.ancestor_mem {S : Finset ℕ} (closed : Closed S) {a n : ℕ} (up : Ancestor a n)
    (mem : n ∈ S) : a ∈ S := by
  obtain ⟨k, rfl⟩ := up
  induction k generalizing n with
  | zero => exact mem
  | succ k ih =>
    rw [Function.iterate_succ_apply]
    exact ih (closed.2 n mem)

theorem Closed.mod_pow_mem {S : Finset ℕ} (closed : Closed S) (n : ℕ) (mem : n ∈ S) (k : ℕ) :
    n % 2 ^ k ∈ S :=
  closed.ancestor_mem (ancestor_mod_pow k n) mem

theorem Closed.union {S T : Finset ℕ} (closedS : Closed S) (closedT : Closed T) :
    Closed (S ∪ T) := by
  refine ⟨Finset.mem_union_left T closedS.1, fun n mem => ?_⟩
  rcases Finset.mem_union.mp mem with inS | inT
  · exact Finset.mem_union_left T (closedS.2 n inS)
  · exact Finset.mem_union_right S (closedT.2 n inT)

theorem Closed.insert_child {S : Finset ℕ} (closed : Closed S) (p i : ℕ) (mem : p ∈ S)
    (below : p < 2 ^ i) : Closed (insert (p + 2 ^ i) S) := by
  refine ⟨Finset.mem_insert_of_mem closed.1, fun n hn => ?_⟩
  rcases Finset.mem_insert.mp hn with rfl | hn
  · rw [parent_add_pow_of_lt p i below]
    exact Finset.mem_insert_of_mem mem
  · exact Finset.mem_insert_of_mem (closed.2 n hn)

theorem Closed.mod_pow_le_of_not_mem {S : Finset ℕ} (closed : Closed S) (x c : ℕ)
    (hc : c ∉ S) (on : x % 2 ^ Nat.size c = c) (k : ℕ) (mem : x % 2 ^ k ∈ S) :
    x % 2 ^ k ≤ c := by
  rcases le_total k (Nat.size c) with le | ge
  · rw [← on]
    exact mod_pow_mono x le
  · exfalso
    apply hc
    have h := closed.mod_pow_mem _ mem (Nat.size c)
    rwa [mod_pow_of_le x _ k ge, on] at h

/-! ## Climbing to the deepest member -/

def walk (mem : ℕ → Bool) : ℕ → ℕ → Option ℕ
  | 0, _ => none
  | fuel + 1, n => if mem n then some n else if n = 0 then none else walk mem fuel (parent n)

theorem walk_mod_pow (S : Finset ℕ) (root : 0 ∈ S) (x : ℕ) :
    ∀ fuel R, x % 2 ^ R < fuel →
      walk (fun n => decide (n ∈ S)) fuel (x % 2 ^ R) = some (deepest S x R) := by
  intro fuel
  induction fuel with
  | zero => intro R h; omega
  | succ fuel ih =>
    intro R enough
    by_cases hit : x % 2 ^ R ∈ S
    · simp only [walk, decide_eq_true hit, if_true]
      exact congrArg some (deepest_eq _ hit ⟨R, le_refl R, rfl⟩
        (fun k hk _ => mod_pow_mono x hk)).symm
    · have pos : 0 < x % 2 ^ R := by
        rcases Nat.eq_zero_or_pos (x % 2 ^ R) with h | h
        · rw [h] at hit; exact absurd root hit
        · exact h
      have up := parent_mod_pow x R pos
      set m := Nat.log2 (x % 2 ^ R)
      have mR : m < R := (Nat.log2_lt (Nat.pos_iff_ne_zero.mp pos)).mpr
        (Nat.mod_lt x (Nat.two_pow_pos R))
      have fits : x % 2 ^ m < fuel := by
        have := parent_lt _ pos
        omega
      simp only [walk, decide_eq_false hit, Bool.false_eq_true, if_false,
        Nat.pos_iff_ne_zero.mp pos, up]
      rw [ih m fits]
      congr 1
      -- the levels between `m` and `R` all repeat the node `x % 2 ^ R`, which is no member
      have same : ∀ k, m < k → k ≤ R → x % 2 ^ k = x % 2 ^ R := by
        intro k hk hkR
        apply mod_pow_eq_of_lt x k R hkR
        calc x % 2 ^ R < 2 ^ (m + 1) := Nat.lt_log2_self
          _ ≤ 2 ^ k := Nat.pow_le_pow_right Nat.two_pos hk
      symm
      apply deepest_eq
      · exact (deepest_spec root).1
      · obtain ⟨k, hk, on⟩ := (deepest_spec (S := S) (x := x) (R := m) root).2
        exact ⟨k, hk.trans mR.le, on⟩
      · intro k hk mem
        by_cases low : k ≤ m
        · exact le_deepest low mem
        · rw [same k (by omega) hk] at mem
          exact absurd mem hit

/-! ## Lookup: the deepest member on a key's path -/

/-- The deepest member of `S` on the path to `x`, searched to the depth of `S`'s
largest member; no member lies deeper. -/
def lookup (S : Finset ℕ) (x : ℕ) : ℕ := deepest S x (Nat.size (S.sup id))

section Lookup

variable {S : Finset ℕ} {x : ℕ}

theorem lt_pow_size_sup (n : ℕ) (mem : n ∈ S) : n < 2 ^ Nat.size (S.sup id) :=
  Nat.lt_of_le_of_lt (Finset.le_sup (f := id) mem) (Nat.lt_size_self _)

theorem size_le_size_sup (n : ℕ) (mem : n ∈ S) : Nat.size n ≤ Nat.size (S.sup id) :=
  Nat.size_le_size (Finset.le_sup (f := id) mem)

theorem deepest_eq_lookup (R : ℕ) (le : Nat.size (S.sup id) ≤ R) : deepest S x R = lookup S x :=
  deepest_of_lt_pow le lt_pow_size_sup

theorem lookup_spec (root : 0 ∈ S) : lookup S x ∈ S ∧ ∃ k, x % 2 ^ k = lookup S x := by
  obtain ⟨mem, k, -, on⟩ := deepest_spec (S := S) (x := x) (R := Nat.size (S.sup id)) root
  exact ⟨mem, k, on⟩

theorem mod_size_lookup (root : 0 ∈ S) : x % 2 ^ Nat.size (lookup S x) = lookup S x := by
  obtain ⟨-, k, on⟩ := lookup_spec (x := x) root
  exact mod_size_of_mod x k _ on

theorem lookup_eq (a : ℕ) (mem : a ∈ S) (on : x % 2 ^ Nat.size a = a)
    (top : ∀ k, x % 2 ^ k ∈ S → x % 2 ^ k ≤ a) : lookup S x = a :=
  deepest_eq a mem ⟨Nat.size a, size_le_size_sup a mem, on⟩ (fun k _ h => top k h)

theorem le_lookup {a : ℕ} (mem : a ∈ S) (on : x % 2 ^ Nat.size a = a) : a ≤ lookup S x := by
  have deeper := le_deepest (S := S) (x := x) (size_le_size_sup a mem) (on.symm ▸ mem)
  rwa [on] at deeper

theorem ancestor_lookup (root : 0 ∈ S) {a : ℕ} (mem : a ∈ S) (on : x % 2 ^ Nat.size a = a) :
    Ancestor a (lookup S x) := by
  have onB := mod_size_lookup (x := x) root
  have prefixed : lookup S x % 2 ^ Nat.size a = a := by
    rw [← onB, mod_pow_of_le x _ _ (Nat.size_le_size (le_lookup mem on)), on]
  rw [← prefixed]
  exact ancestor_mod_pow _ _

theorem lookup_ancestor_of_subset {S' : Finset ℕ} (root : 0 ∈ S) (sub : S ⊆ S') :
    Ancestor (lookup S x) (lookup S' x) :=
  -- the node `S` finds is on the path and in `S'`
  ancestor_lookup (sub root) (sub (lookup_spec root).1) (mod_size_lookup root)

theorem lookup_insert_of_off (c : ℕ) (off : ∀ k, x % 2 ^ k ≠ c) :
    lookup (insert c S) x = lookup S x := by
  have le : Nat.size (S.sup id) ≤ Nat.size ((insert c S).sup id) :=
    Nat.size_le_size (Finset.sup_mono (Finset.subset_insert c S))
  unfold lookup
  rw [deepest_insert_of_off c (fun k _ => off k)]
  exact deepest_eq_lookup _ le

theorem lookup_insert_eq (closed : Closed S) (c : ℕ) (hc : c ∉ S) (on : x % 2 ^ Nat.size c = c) :
    lookup (insert c S) x = c := by
  apply lookup_eq c (Finset.mem_insert_self c S) on
  intro k mem
  rcases Finset.mem_insert.mp mem with h | h
  · exact h.le
  · exact closed.mod_pow_le_of_not_mem x c hc on k h

theorem lookup_insert_eq_iff (closed : Closed S) (c : ℕ) (hc : c ∉ S) :
    lookup (insert c S) x = c ↔ x % 2 ^ Nat.size c = c := by
  constructor
  · intro found
    have on := mod_size_lookup (S := insert c S) (x := x) (Finset.mem_insert_of_mem closed.1)
    rwa [found] at on
  · exact lookup_insert_eq closed c hc

theorem lookup_insert_of_mod_ne (c : ℕ) (off : x % 2 ^ Nat.size c ≠ c) :
    lookup (insert c S) x = lookup S x :=
  lookup_insert_of_off c (fun k on => off (mod_size_of_mod x k c on))

theorem lookup_eq_of_child (closed : Closed S) (p i : ℕ) (hp : p ∈ S) (below : p < 2 ^ i)
    (hc : p + 2 ^ i ∉ S) (on : x % 2 ^ (i + 1) = p + 2 ^ i) : lookup S x = p := by
  have atI : x % 2 ^ i = p := by
    rw [← mod_pow_of_le x i (i + 1) (Nat.le_succ i), on, Nat.add_mod_right,
      Nat.mod_eq_of_lt below]
  apply lookup_eq p hp (mod_size_of_mod x i p atI)
  intro k mem
  by_cases le : k ≤ i
  · rw [← atI]
    exact mod_pow_mono x le
  · exfalso
    have onK := mod_pow_of_le x (i + 1) k (by omega)
    have h := closed.mod_pow_mem _ mem (i + 1)
    rw [onK, on] at h
    exact hc h

theorem iterate_parent_mod_pow (x : ℕ) : ∀ k R, ∃ j, parent^[k] (x % 2 ^ R) = x % 2 ^ j := by
  intro k
  induction k with
  | zero => exact fun R => ⟨R, rfl⟩
  | succ k ih =>
    intro R
    rw [Function.iterate_succ_apply]
    rcases Nat.eq_zero_or_pos (x % 2 ^ R) with zero | pos
    · rw [zero, parent_zero, ← zero]
      exact ih R
    · rw [parent_mod_pow x R pos]
      exact ih _

theorem lookup_eq_of_children {S' : Finset ℕ} (root : 0 ∈ S) (sub : S ⊆ S') (closed : Closed S')
    (children : ∀ c ∈ S', parent c = lookup S x → c ∈ S) : lookup S x = lookup S' x := by
  obtain ⟨k, walked⟩ := lookup_ancestor_of_subset (x := x) root sub
  have onB := mod_size_lookup (x := x) (sub root)
  have memB := (lookup_spec (x := x) (sub root)).1
  -- climb from what `S'` finds: the first node above it that `S` finds is where `S` stops
  induction k with
  | zero => exact walked.symm
  | succ k ih =>
    rw [Function.iterate_succ_apply'] at walked
    set c := parent^[k] (lookup S' x)
    have memC : c ∈ S :=
      children c (closed.ancestor_mem ⟨k, rfl⟩ memB) walked
    obtain ⟨j, onC⟩ := iterate_parent_mod_pow x k (Nat.size (lookup S' x))
    rw [onB] at onC
    have le : c ≤ lookup S x := le_lookup memC (mod_size_of_mod x j c onC.symm)
    rcases Nat.eq_zero_or_pos c with zero | pos
    · apply ih
      rw [← walked, zero, parent_zero]
    · have := parent_lt c pos
      omega

theorem Ancestor.mod_size {a n : ℕ} (up : Ancestor a n) (on : x % 2 ^ Nat.size n = n) :
    x % 2 ^ Nat.size a = a := by
  obtain ⟨k, walked⟩ := up
  obtain ⟨j, onJ⟩ := iterate_parent_mod_pow x k (Nat.size n)
  rw [on, walked] at onJ
  exact mod_size_of_mod x j a onJ.symm

theorem lookup_eq_of_mem {T : Finset ℕ} (root : 0 ∈ T) (sub : T ⊆ S) (mem : lookup S x ∈ T) :
    lookup T x = lookup S x := by
  apply Nat.le_antisymm
  · exact le_lookup (sub (lookup_spec root).1) (mod_size_lookup root)
  · exact le_lookup mem (mod_size_lookup (sub root))

end Lookup

end PrefixTree
