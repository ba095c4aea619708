import Mathlib.Data.List.TakeDrop

/-! A `malloc`ed buffer of cells, each holding the value last written to it or `none`
if nothing ever was. `write` is `memcpy` into the buffer and `read` copies a range out;
both fail with `none` when the range runs past the end of the allocation, which in C is
a heap overflow or an over-read. -/
namespace Buffer

variable {α : Type*}

def fresh (n : ℕ) : List (Option α) := List.replicate n none

def write (buf : List (Option α)) (off : ℕ) (src : List α) : Option (List (Option α)) :=
  if off + src.length ≤ buf.length then
    some (buf.take off ++ src.map some ++ buf.drop (off + src.length))
  else none

def read (buf : List (Option α)) (off n : ℕ) : Option (List (Option α)) :=
  if off + n ≤ buf.length then some ((buf.drop off).take n) else none

@[simp] theorem length_fresh (n : ℕ) : (fresh n : List (Option α)).length = n :=
  List.length_replicate

theorem write_of_le {buf : List (Option α)} {off : ℕ} {src : List α}
    (fits : off + src.length ≤ buf.length) :
    write buf off src = some (buf.take off ++ src.map some ++ buf.drop (off + src.length)) :=
  if_pos fits

theorem write_eq_some_iff (buf : List (Option α)) (off : ℕ) (src : List α) :
    (write buf off src).isSome ↔ off + src.length ≤ buf.length := by
  unfold write
  split <;> simp_all

theorem exists_write_singleton {buf : List (Option α)} {off : ℕ} (x : α) (lt : off < buf.length) :
    ∃ buf', write buf off [x] = some buf' :=
  ⟨_, write_of_le (by rw [List.length_singleton]; exact lt)⟩

theorem write_singleton_of_le {buf : List (Option α)} {off : ℕ} (x : α) (past : buf.length ≤ off) :
    write buf off [x] = none :=
  if_neg (by rw [List.length_singleton]; omega)

theorem read_eq_none_iff (buf : List (Option α)) (off n : ℕ) :
    read buf off n = none ↔ buf.length < off + n := by
  unfold read
  split
  · rename_i fits
    simp only [reduceCtorEq, false_iff]
    exact Nat.not_lt.mpr fits
  · rename_i past
    simp only [true_iff]
    exact Nat.lt_of_not_le past

theorem length_write {buf buf' : List (Option α)} {off : ℕ} {src : List α}
    (wrote : write buf off src = some buf') : buf'.length = buf.length := by
  unfold write at wrote
  split at wrote
  · rename_i fits
    cases wrote
    simp only [List.length_append, List.length_take, List.length_map, List.length_drop]
    omega
  · cases wrote

theorem read_write_self {buf buf' : List (Option α)} {off : ℕ} {src : List α}
    (wrote : write buf off src = some buf') : read buf' off src.length = some (src.map some) := by
  have len := length_write wrote
  unfold write at wrote
  split at wrote
  · rename_i fits
    cases wrote
    have low : (buf.take off).length = off := List.length_take_of_le (by omega)
    unfold read
    rw [if_pos (by omega), List.append_assoc, List.drop_left' low,
      List.take_left' (List.length_map _)]
  · cases wrote

theorem getElem?_write {buf buf' : List (Option α)} {off : ℕ} {src : List α}
    (wrote : write buf off src = some buf') (j : ℕ) :
    buf'[j]? = if off ≤ j ∧ j < off + src.length then src[j - off]?.map some else buf[j]? := by
  unfold write at wrote
  split at wrote
  · rename_i fits
    cases wrote
    have low : (buf.take off).length = off := List.length_take_of_le (by omega)
    by_cases before : j < off
    · rw [if_neg (by omega), List.getElem?_append_left (by simp; omega),
        List.getElem?_append_left (by omega), List.getElem?_take_of_lt before]
    · by_cases inside : j < off + src.length
      · rw [if_pos ⟨by omega, inside⟩, List.getElem?_append_left (by simp; omega),
          List.getElem?_append_right (by omega), List.getElem?_map, low]
      · rw [if_neg (by omega), List.getElem?_append_right (by simp; omega),
          List.getElem?_drop]
        congr 1
        simp only [List.length_append, List.length_map, low]
        omega
  · cases wrote

theorem getElem?_read {buf cells : List (Option α)} {off n : ℕ}
    (got : read buf off n = some cells) (i : ℕ) :
    cells[i]? = if i < n then buf[off + i]? else none := by
  unfold read at got
  split at got
  · cases got
    split
    · rw [List.getElem?_take_of_lt (by assumption), List.getElem?_drop]
    · rename_i far
      exact List.getElem?_eq_none (by simp only [List.length_take]; omega)
  · cases got

theorem read_write_of_disjoint {buf buf' : List (Option α)} {off : ℕ} {src : List α}
    (wrote : write buf off src = some buf') (off' n : ℕ)
    (apart : off' + n ≤ off ∨ off + src.length ≤ off') : read buf' off' n = read buf off' n := by
  have len := length_write wrote
  cases old : read buf off' n with
  | none =>
    rw [read_eq_none_iff, len]
    exact (read_eq_none_iff _ _ _).mp old
  | some cells =>
    have fits : off' + n ≤ buf'.length := by
      rw [len]
      by_contra past
      rw [(read_eq_none_iff _ _ _).mpr (Nat.lt_of_not_le past)] at old
      cases old
    unfold read
    rw [if_pos fits, Option.some_inj]
    apply List.ext_getElem?
    intro i
    rw [getElem?_read old i, List.getElem?_take, List.getElem?_drop]
    split
    · rw [getElem?_write wrote, if_neg (by omega)]
    · rfl

theorem read_eq_some_iff (buf : List (Option α)) (off n : ℕ) (cells : List (Option α)) :
    read buf off n = some cells ↔ off + n ≤ buf.length ∧ cells = (buf.drop off).take n := by
  unfold read
  split
  · rename_i fits
    simp only [Option.some_inj, fits, true_and]
    exact eq_comm
  · rename_i past
    simp only [reduceCtorEq, false_iff, not_and]
    exact fun fits => absurd fits past

theorem read_of_le {buf cells : List (Option α)} {off n : ℕ} (got : read buf off n = some cells)
    {m : ℕ} (le : m ≤ n) : read buf off m = some (cells.take m) := by
  obtain ⟨fits, rfl⟩ := (read_eq_some_iff _ _ _ _).mp got
  rw [read_eq_some_iff, List.take_take, Nat.min_eq_left le]
  exact ⟨by omega, rfl⟩

theorem read_within {buf cells : List (Option α)} {off m : ℕ} (got : read buf off m = some cells)
    {j n : ℕ} (inside : j + n ≤ m) : read buf (off + j) n = some ((cells.drop j).take n) := by
  obtain ⟨fits, rfl⟩ := (read_eq_some_iff _ _ _ _).mp got
  rw [read_eq_some_iff, List.drop_take, List.take_take, List.drop_drop,
    Nat.min_eq_left (by omega)]
  exact ⟨by omega, rfl⟩

theorem read_add {buf first second : List (Option α)} {off m n : ℕ}
    (got : read buf off m = some first) (next : read buf (off + m) n = some second) :
    read buf off (m + n) = some (first ++ second) := by
  obtain ⟨_, rfl⟩ := (read_eq_some_iff _ _ _ _).mp got
  obtain ⟨fits, rfl⟩ := (read_eq_some_iff _ _ _ _).mp next
  rw [read_eq_some_iff, List.take_add, List.drop_drop]
  exact ⟨by omega, rfl⟩

theorem read_write_within {buf buf' : List (Option α)} {off : ℕ} {src : List α}
    (wrote : write buf off src = some buf') {off' n : ℕ} (low : off ≤ off')
    (high : off' + n ≤ off + src.length) :
    read buf' off' n = some (((src.drop (off' - off)).take n).map some) := by
  have len := length_write wrote
  have fits : off + src.length ≤ buf.length := by
    by_contra past
    unfold write at wrote
    rw [if_neg past] at wrote
    cases wrote
  rw [read_eq_some_iff]
  refine ⟨by omega, ?_⟩
  apply List.ext_getElem?
  intro i
  rw [List.getElem?_take, List.getElem?_drop, List.getElem?_map, List.getElem?_take,
    List.getElem?_drop]
  split
  · rw [getElem?_write wrote, if_pos ⟨by omega, by omega⟩]
    congr 2
    omega
  · rfl

end Buffer
