import Mathlib.Data.List.Sort

/-! An ordered iterator over the entries of a map, as a leveldb iterator is one: a seek visits the
entries at or after a key, in key order. -/

namespace Seek

section Order

variable {α β : Type*} [LE β] [Std.IsLinearOrder β] [DecidableLE β] (f : α → β)

def seekBy (l : List α) (b : β) : List α :=
  (l.filter fun a => decide (b ≤ f a)).insertionSort fun a a' => f a ≤ f a'

omit [Std.IsLinearOrder β] in
theorem mem_seekBy {l : List α} {b : β} {a : α} : a ∈ seekBy f l b ↔ a ∈ l ∧ b ≤ f a := by
  simp [seekBy, List.mem_insertionSort]

theorem pairwise_seekBy (l : List α) (b : β) :
    (seekBy f l b).Pairwise fun a a' => f a ≤ f a' := by
  have : Std.Total fun a a' : α => f a ≤ f a' :=
    ⟨fun a a' => Std.IsLinearPreorder.le_total (f a) (f a')⟩
  have : IsTrans α fun a a' => f a ≤ f a' :=
    ⟨fun a a' a'' => Std.IsPreorder.le_trans (f a) (f a') (f a'')⟩
  exact List.pairwise_insertionSort _ _

omit [Std.IsLinearOrder β] in
theorem nodup_seekBy {l : List α} (nodup : l.Nodup) (b : β) : (seekBy f l b).Nodup :=
  (List.perm_insertionSort _ _).nodup_iff.mpr (nodup.filter _)

theorem seekBy_resume {l : List α} (nodup : l.Nodup)
    (inj : ∀ a ∈ l, ∀ a' ∈ l, f a = f a' → a = a') {b : β} {before after : List α} {a : α}
    (split : seekBy f l b = before ++ a :: after) : seekBy f l (f a) = a :: after := by
  have sorted := pairwise_seekBy f l b
  have distinct := nodup_seekBy f nodup b
  rw [split] at sorted distinct
  have mem : a ∈ seekBy f l b := split ▸ List.mem_append_right _ List.mem_cons_self
  have a_mem := ((mem_seekBy f).mp mem).1
  -- the rest of the visit holds the same entries as the new seek
  have same : ∀ x, x ∈ seekBy f l (f a) ↔ x ∈ a :: after := by
    intro x
    rw [mem_seekBy]
    constructor
    · rintro ⟨x_mem, above⟩
      have reached : x ∈ seekBy f l b :=
        (mem_seekBy f).mpr ⟨x_mem, Std.IsPreorder.le_trans _ _ _ ((mem_seekBy f).mp mem).2 above⟩
      rw [split] at reached
      rcases List.mem_append.mp reached with early | later
      · -- an entry visited before `a` has a key at most `a`'s, so it is `a`
        have below := (List.pairwise_append.mp sorted).2.2 x early a List.mem_cons_self
        have eq := inj x x_mem a a_mem (Std.IsPartialOrder.le_antisymm _ _ below above)
        subst eq
        exact absurd rfl ((List.nodup_append.mp distinct).2.2 x early x List.mem_cons_self)
      · exact later
    · intro later
      refine ⟨((mem_seekBy f).mp (split ▸ List.mem_append_right _ later)).1, ?_⟩
      rcases List.mem_cons.mp later with rfl | after_mem
      · exact Std.IsPreorder.le_refl _
      · exact List.rel_of_pairwise_cons (List.pairwise_append.mp sorted).2.1 after_mem
  have perm := (List.perm_ext_iff_of_nodup (nodup_seekBy f nodup _)
    (List.nodup_append.mp distinct).2.1).mpr same
  refine perm.eq_of_pairwise ?_ (pairwise_seekBy f l _) (List.pairwise_append.mp sorted).2.1
  intro x y x_mem y_mem le le'
  exact inj x ((mem_seekBy f).mp x_mem).1 y ((mem_seekBy f).mp (perm.mem_iff.mpr y_mem)).1
    (Std.IsPartialOrder.le_antisymm _ _ le le')

end Order

section Prefix

variable {γ : Type*} [LT γ] [Std.Asymm (α := γ) (· < ·)] [Std.Trichotomous (α := γ) (· < ·)]

theorem prefix_eq_of_le_of_le {p q s t u : List γ} (length : q.length = p.length)
    (low : p ++ s ≤ q ++ t) (high : q ++ t ≤ p ++ u) : q = p := by
  induction p generalizing q with
  | nil => exact List.eq_nil_of_length_eq_zero length
  | cons x p ih =>
    obtain _ | ⟨y, q⟩ := q
    · cases length
    · rw [List.cons_append, List.cons_append, List.cons_le_cons_iff] at low high
      -- the first elements agree, or one list would be below and above the other
      have first : y = x := by
        rcases low with lt | ⟨eq, -⟩
        · rcases high with lt' | ⟨eq', -⟩
          · exact absurd lt (Std.Asymm.asymm _ _ lt')
          · exact absurd lt (eq' ▸ Std.Irrefl.irrefl y)
        · exact eq.symm
      subst first
      have low' := low.resolve_left (Std.Irrefl.irrefl y)
      have high' := high.resolve_left (Std.Irrefl.irrefl y)
      rw [ih (by simpa using length) low'.2 high'.2]

end Prefix

theorem takeWhile_eq_filter {α : Type*} {p : α → Bool} :
    ∀ {l : List α}, l.Pairwise (fun a a' => p a = false → p a' = false) →
      l.takeWhile p = l.filter p
  | [], _ => rfl
  | a :: l, sorted => by
    rw [List.pairwise_cons] at sorted
    cases holds : p a with
    | true => rw [List.takeWhile_cons_of_pos holds, List.filter_cons_of_pos holds,
        takeWhile_eq_filter sorted.2]
    | false =>
      rw [List.takeWhile_cons_of_neg (by simp [holds]), List.filter_cons_of_neg (by simp [holds]),
        List.filter_eq_nil_iff.mpr fun a' mem => by simp [sorted.1 a' mem holds]]

end Seek
