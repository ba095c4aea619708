import Mathlib

/-! The search members of `std::basic_string` over a list of characters, and the loop
`while (last < end) { now = s.find(sep, last + 1); ... }` over the pieces between
separators, on explicit fuel. -/

namespace Scan

variable {α : Type*} [DecidableEq α]

def npos : ℕ := 2 ^ 64 - 1

def find (s : List α) (c : α) (pos : ℕ) : ℕ :=
  match (s.drop pos).idxOf? c with
  | some i => pos + i
  | none => npos

def rfind (s : List α) (c : α) : ℕ :=
  match s.reverse.idxOf? c with
  | some i => s.length - 1 - i
  | none => npos

def substr (s : List α) (pos n : ℕ) : List α := (s.drop pos).take n

section Search

variable {s : List α} {c : α}

omit [DecidableEq α] in
theorem substr_zero_one (s : List α) : substr s 0 1 = s.head?.toList := by
  simp [substr, List.take_one]

omit [DecidableEq α] in
theorem substr_length_sub_one (s : List α) : substr s (s.length - 1) 1 = s.getLast?.toList := by
  rcases List.eq_nil_or_concat s with rfl | ⟨init, a, rfl⟩
  · rfl
  · simp [substr]

theorem find_spec {pos stop : ℕ} (le : pos ≤ stop) (at_stop : s[stop]? = some c) :
    pos ≤ find s c pos ∧ find s c pos ≤ stop ∧ s[find s c pos]? = some c ∧
      c ∉ substr s pos (find s c pos - pos) := by
  have mem : c ∈ s.drop pos := by
    rw [List.mem_iff_getElem?]
    exact ⟨stop - pos, by rw [List.getElem?_drop, Nat.add_sub_cancel' le, at_stop]⟩
  obtain ⟨i, found⟩ := Option.isSome_iff_exists.mp (List.isSome_idxOf?.mpr mem)
  obtain ⟨lt, hit, before⟩ := List.idxOf?_eq_some_iff.mp found
  have first : ∀ j < i, (s.drop pos)[j]? ≠ some c := by
    intro j hj
    rw [List.getElem?_eq_getElem (by omega), ne_eq, Option.some_inj]
    exact before j hj
  have upto : i ≤ stop - pos := by
    by_contra past
    exact first (stop - pos) (by omega) (by rw [List.getElem?_drop, Nat.add_sub_cancel' le, at_stop])
  simp only [find, found, Nat.add_sub_cancel_left]
  refine ⟨by omega, by omega, ?_, ?_⟩
  · rw [← List.getElem?_drop, List.getElem?_eq_getElem lt, hit]
  · intro inside
    obtain ⟨j, hj, at_j⟩ := List.getElem_of_mem inside
    simp only [substr, List.length_take, List.length_drop] at hj
    refine first j (by omega) ?_
    rw [← at_j, List.getElem?_eq_getElem (by rw [List.length_drop]; omega)]
    simp only [substr, List.getElem_take]

theorem rfind_spec (mem : c ∈ s) :
    rfind s c < s.length ∧ s[rfind s c]? = some c ∧ c ∉ s.drop (rfind s c + 1) := by
  have mem' : c ∈ s.reverse := List.mem_reverse.mpr mem
  obtain ⟨i, found⟩ := Option.isSome_iff_exists.mp (List.isSome_idxOf?.mpr mem')
  obtain ⟨lt, hit, before⟩ := List.idxOf?_eq_some_iff.mp found
  rw [List.length_reverse] at lt
  simp only [rfind, found]
  refine ⟨by omega, ?_, ?_⟩
  · rw [List.getElem?_eq_getElem (by omega), ← hit, List.getElem_reverse]
  · intro inside
    obtain ⟨j, hj, at_j⟩ := List.getElem_of_mem inside
    rw [List.length_drop] at hj
    refine before (i - 1 - j) (by omega) ?_
    rw [List.getElem_reverse, ← at_j, List.getElem_drop]
    congr 1
    omega

end Search

section Pieces

def withEnds : ℕ → List (List α) → List (List α × ℕ)
  | _, [] => []
  | base, p :: ps => (p, base + p.length) :: withEnds (base + p.length + 1) ps

def pieces (s : List α) (sep : α) (last stop : ℕ) : List (List α × ℕ) :=
  (withEnds (last + 1) ((substr s (last + 1) (stop - last - 1)).splitOn sep)).filter (·.1 ≠ [])

variable {s : List α} {sep : α}

omit [DecidableEq α] in
theorem map_fst_withEnds (base : ℕ) (ps : List (List α)) : (withEnds base ps).map Prod.fst = ps := by
  induction ps generalizing base with
  | nil => rfl
  | cons p ps ih => simp [withEnds, ih]

theorem map_fst_pieces (last stop : ℕ) :
    (pieces s sep last stop).map Prod.fst =
      ((substr s (last + 1) (stop - last - 1)).splitOn sep).filter (· ≠ []) := by
  rw [pieces]
  conv_rhs => rw [← map_fst_withEnds (last + 1) (List.splitOn sep _)]
  rw [List.filter_map]
  rfl

theorem pieces_of_le {last stop : ℕ} (le : stop ≤ last) : pieces s sep last stop = [] := by
  have empty : stop - last - 1 = 0 := by omega
  simp [pieces, empty, substr, withEnds]

theorem pieces_step {last stop : ℕ} (lt : last < stop) (at_stop : s[stop]? = some sep) :
    pieces s sep last stop =
      (if find s sep (last + 1) - last > 1 then
        [(substr s (last + 1) (find s sep (last + 1) - last - 1), find s sep (last + 1))]
      else []) ++ pieces s sep (find s sep (last + 1)) stop := by
  obtain ⟨after, upto, at_now, clear⟩ := find_spec (by omega : last + 1 ≤ stop) at_stop
  rw [Nat.sub_add_eq] at clear
  set now := find s sep (last + 1)
  set piece := substr s (last + 1) (now - last - 1)
  have length_piece : piece.length = now - last - 1 := by
    have : now < s.length := (List.getElem?_eq_some_iff.mp at_now).1
    simp only [piece, substr, List.length_take, List.length_drop]
    omega
  have nonempty : now - last > 1 ↔ piece ≠ [] := by
    rw [ne_eq, ← List.length_eq_zero_iff, length_piece]
    omega
  have base : last + 1 + piece.length = now := by
    rw [length_piece]
    omega
  rcases Nat.lt_or_ge now stop with before | at_end
  · -- the separator found lies before `stop`: the rest of the window follows it
    have window : substr s (last + 1) (stop - last - 1) =
        piece ++ sep :: substr s (now + 1) (stop - now - 1) := by
      have split : stop - last - 1 = (now - last - 1) + ((stop - now - 1) + 1) := by omega
      have skip : last + 1 + (now - last - 1) = now := by omega
      have at_now' : s.drop now = sep :: s.drop (now + 1) := by
        obtain ⟨lt_len, hit⟩ := List.getElem?_eq_some_iff.mp at_now
        rw [List.drop_eq_getElem_cons lt_len, hit]
      rw [substr, split, List.take_add, List.drop_drop, skip, at_now', List.take_succ_cons]
      rfl
    rw [pieces, window, List.splitOn_append_cons_self_of_not_mem clear, withEnds, base,
      List.filter_cons]
    by_cases big : now - last > 1
    · simp [big, nonempty.mp big, pieces]
    · have empty : piece = [] := not_not.mp (mt nonempty.mpr big)
      simp [big, empty, pieces]
  · -- the separator found is the one at `stop`: the window is one piece
    have last_round : now = stop := by omega
    have window : substr s (last + 1) (stop - last - 1) = piece := by
      rw [← last_round]
    rw [pieces, window, List.splitOn_eq_singleton clear, withEnds, withEnds, base,
      pieces_of_le (Nat.le_of_eq last_round.symm), List.append_nil]
    by_cases big : now - last > 1
    · simp [big, nonempty.mp big]
    · have empty : piece = [] := not_not.mp (mt nonempty.mpr big)
      simp [big, empty]

theorem splitOn_eq_rfind (mem : sep ∈ s) :
    s.splitOn sep = (s.take (rfind s sep)).splitOn sep ++ [s.drop (rfind s sep + 1)] := by
  obtain ⟨lt, at_last, clear⟩ := rfind_spec mem
  have around : s = s.take (rfind s sep) ++ sep :: s.drop (rfind s sep + 1) := by
    obtain ⟨lt_len, hit⟩ := List.getElem?_eq_some_iff.mp at_last
    have at_sep := List.drop_eq_getElem_cons lt_len
    rw [hit] at at_sep
    rw [← at_sep, List.take_append_drop]
  conv_lhs => rw [around]
  rw [List.splitOn_append_cons_self, List.splitOn_eq_singleton clear]

theorem map_fst_pieces_zero (front : s[0]? = some sep) (stop : ℕ) :
    (pieces s sep 0 stop).map Prod.fst = ((s.take stop).splitOn sep).filter (· ≠ []) := by
  rw [map_fst_pieces]
  obtain ⟨t, rfl⟩ : ∃ t, s = sep :: t := by
    cases s with
    | nil => cases front
    | cons a t => exact ⟨t, by simpa using front⟩
  cases stop with
  | zero => simp [substr]
  | succ k => simp [substr, List.splitOn_cons_eq_if_modifyHead]

end Pieces

section Loop

variable {m : Type → Type} [Monad m] {β : Type}

def pieceLoop (s : List α) (sep : α) (stop : ℕ) (visit : β → List α → ℕ → m β) :
    ℕ → ℕ → β → m (Option β)
  | 0, _, _ => pure none
  | fuel + 1, last, acc =>
    if last < stop then
      let now := find s sep (last + 1)
      if now - last > 1 then do
        let acc ← visit acc (substr s (last + 1) (now - last - 1)) now
        pieceLoop s sep stop visit fuel now acc
      else pieceLoop s sep stop visit fuel now acc
    else pure (some acc)

variable [LawfulMonad m] {s : List α} {sep : α} {stop : ℕ} {visit : β → List α → ℕ → m β}

theorem pieceLoop_eq (at_stop : s[stop]? = some sep) (fuel last : ℕ) (acc : β)
    (enough : stop - last < fuel) :
    pieceLoop s sep stop visit fuel last acc =
      some <$> (pieces s sep last stop).foldlM (fun acc p => visit acc p.1 p.2) acc := by
  induction fuel generalizing last acc with
  | zero => omega
  | succ fuel ih =>
    rw [pieceLoop]
    by_cases lt : last < stop
    · -- one round moves `last` to the next separator, strictly further on
      have after := (find_spec (by omega : last + 1 ≤ stop) at_stop).1
      have rest (acc' : β) := ih (find s sep (last + 1)) acc' (by omega)
      rw [if_pos lt, pieces_step lt at_stop]
      by_cases big : find s sep (last + 1) - last > 1
      · simp [big, rest]
      · simp [big, rest]
    · rw [if_neg lt, pieces_of_le (by omega)]
      simp

theorem foldlM_count {γ δ : Type} (f : γ → δ → m γ) (xs : List δ) (n : ℤ) (c : γ) :
    xs.foldlM (fun acc x => (fun c' => (acc.1 + 1, c')) <$> f acc.2 x) (n, c) =
      (fun c' => (n + xs.length, c')) <$> xs.foldlM f c := by
  induction xs generalizing n c with
  | nil => simp
  | cons x xs ih =>
    have count : n + 1 + (xs.length : ℤ) = n + ((xs.length + 1 : ℕ) : ℤ) := by omega
    simp only [List.foldlM_cons, bind_map_left, ih, map_bind, List.length_cons, count]

end Loop

end Scan
