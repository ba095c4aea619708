import IndexFS.Server.Ops

/-! Inode numbers across the runs of one server. `NewInodeNumber` and `NewInodeBatch` hand out
numbers `2^9` apart from the count `metadb_init` sets, and `metadb_save_inode_count` writes
nothing, so every restart starts again from the same count. -/

namespace IndexFS

open Metadb CInt

/-- What a run does to the inode count: the two calls of `MetadataBackend`, and the save the
sync thread of `metadb_sync_init` makes on each timeout. -/
inductive InodeEvent where
  | newInodeNumber
  | newInodeBatch (bulkSize : ℤ)
  | saveInodeCount
  deriving DecidableEq

abbrev Disk : Type := Store × Option ℕ

def batchNumbers (next : ℕ) (bulkSize : ℤ) : List ℕ :=
  (List.range bulkSize.toNat).map fun i => (next + 2 ^ 9 * i) % 2 ^ 64

def inodeStep (record : Option ℕ) (mdb : MetaDB) : InodeEvent → Option ℕ × MetaDB × List ℕ
  | .newInodeNumber =>
    let (mdb, number) := MetadataBackend.newInodeNumber mdb
    (record, mdb, [number])
  | .newInodeBatch bulkSize =>
    let (mdb, next) := MetadataBackend.newInodeBatch mdb bulkSize
    (record, mdb, batchNumbers next bulkSize)
  | .saveInodeCount => (metadbSaveInodeCount record mdb, mdb, [])

def runEvents (record : Option ℕ) (mdb : MetaDB) : List InodeEvent → Option ℕ × MetaDB × List ℕ
  | [] => (record, mdb, [])
  | event :: events =>
    let (record, mdb, handed) := inodeStep record mdb event
    let (record, mdb, rest) := runEvents record mdb events
    (record, mdb, handed ++ rest)

/-- A run: `metadb_init` on the database, `none` when it does not exist yet, then the events.
`cwd` is what `lstat("./")` returns. It leaves the database and the numbers it handed out. -/
def inodeRun (disk : Option Disk) (serverId : ℕ) (cwd : Stat) (events : List InodeEvent) :
    Disk × List ℕ :=
  let ((_, record), mdb) := metadbInit disk serverId cwd
  let (record, mdb, handed) := runEvents record mdb events
  ((mdb.db, record), handed)

/-- A history of one server: its runs one after another on the same database, the numbers
each run handed out. -/
def inodeHistory (serverId : ℕ) (cwd : Stat) : Option Disk → List (List InodeEvent) →
    List (List ℕ)
  | _, [] => []
  | disk, run :: runs =>
    let (disk, handed) := inodeRun disk serverId cwd run
    handed :: inodeHistory serverId cwd (some disk) runs

def restartCount (serverId : ℕ) : ℕ := serverId + (10000 <<< 9)

section Runs

variable (record : Option ℕ) (mdb : MetaDB)

theorem runEvents_cons (event : InodeEvent) (events : List InodeEvent) :
    runEvents record mdb (event :: events) =
      ((runEvents (inodeStep record mdb event).1 (inodeStep record mdb event).2.1 events).1,
        (runEvents (inodeStep record mdb event).1 (inodeStep record mdb event).2.1 events).2.1,
        (inodeStep record mdb event).2.2 ++
          (runEvents (inodeStep record mdb event).1 (inodeStep record mdb event).2.1 events).2.2) :=
  rfl

@[simp] theorem record_inodeStep (event : InodeEvent) : (inodeStep record mdb event).1 = record := by
  cases event <;> rfl

@[simp] theorem record_runEvents (events : List InodeEvent) :
    (runEvents record mdb events).1 = record := by
  induction events generalizing mdb with
  | nil => rfl
  | cons event events ih =>
    rw [runEvents_cons, record_inodeStep]
    exact ih _

@[simp] theorem db_inodeStep (event : InodeEvent) : (inodeStep record mdb event).2.1.db = mdb.db := by
  cases event with
  | newInodeNumber => simp [inodeStep, MetadataBackend.newInodeNumber_eq]
  | newInodeBatch bulkSize => simp [inodeStep, MetadataBackend.newInodeBatch_eq]
  | saveInodeCount => rfl

@[simp] theorem db_runEvents (events : List InodeEvent) :
    (runEvents record mdb events).2.1.db = mdb.db := by
  induction events generalizing mdb with
  | nil => rfl
  | cons event events ih =>
    rw [runEvents_cons, record_inodeStep]
    exact (ih _).trans (db_inodeStep record mdb event)

theorem inodeStep_mod {r : ℕ} (count : mdb.inodeCount % 2 ^ 9 = r) (event : InodeEvent) :
    (inodeStep record mdb event).2.1.inodeCount % 2 ^ 9 = r ∧
      ∀ n ∈ (inodeStep record mdb event).2.2, n % 2 ^ 9 = r := by
  cases event with
  | newInodeNumber =>
    have number := widen64_narrow32_mod ((mdb.inodeCount + 2 ^ 9) % 2 ^ 64) (k := 9) (by omega)
    simp only [inodeStep, MetadataBackend.newInodeNumber_eq, List.mem_singleton, forall_eq]
    omega
  | newInodeBatch bulkSize =>
    have next := widen64_narrow32_mod ((mdb.inodeCount + 2 ^ 9) % 2 ^ 64) (k := 9) (by omega)
    simp only [inodeStep, MetadataBackend.newInodeBatch_eq, batchNumbers, List.mem_map,
      List.mem_range]
    refine ⟨by omega, ?_⟩
    rintro n ⟨i, -, rfl⟩
    omega
  | saveInodeCount => exact ⟨count, by simp [inodeStep]⟩

theorem runEvents_mod {r : ℕ} (count : mdb.inodeCount % 2 ^ 9 = r) (events : List InodeEvent) :
    (runEvents record mdb events).2.1.inodeCount % 2 ^ 9 = r ∧
      ∀ n ∈ (runEvents record mdb events).2.2, n % 2 ^ 9 = r := by
  induction events generalizing record mdb with
  | nil => exact ⟨count, by simp [runEvents]⟩
  | cons event events ih =>
    obtain ⟨count', handed⟩ := inodeStep_mod record mdb count event
    obtain ⟨count'', rest⟩ := ih _ _ count'
    rw [runEvents_cons]
    refine ⟨count'', fun n mem => ?_⟩
    rcases List.mem_append.mp mem with here | later
    · exact handed n here
    · exact rest n later

end Runs

section History

variable (serverId : ℕ) (cwd : Stat)

theorem inodeHistory_cons (disk : Option Disk) (run : List InodeEvent) (runs : List (List InodeEvent)) :
    inodeHistory serverId cwd disk (run :: runs) =
      (inodeRun disk serverId cwd run).2 ::
        inodeHistory serverId cwd (some (inodeRun disk serverId cwd run).1) runs :=
  rfl

theorem inodeRun_none (events : List InodeEvent) :
    inodeRun none serverId cwd events =
      ((∅, none), (runEvents none ⟨∅, serverId, serverId, cwd⟩ events).2.2) := by
  simp [inodeRun, metadbInit, metadbSetInitInodeCount, metadbSaveInodeCount]

theorem inodeRun_restart (db : Store) (events : List InodeEvent) :
    inodeRun (some (db, none)) serverId cwd events =
      ((db, none), (runEvents none ⟨db, serverId, restartCount serverId, cwd⟩ events).2.2) := by
  simp [inodeRun, metadbInit, restartCount]

theorem tail_inodeHistory (first : List InodeEvent) (runs : List (List InodeEvent)) :
    (inodeHistory serverId cwd none (first :: runs)).tail =
      inodeHistory serverId cwd (some (∅, none)) runs := by
  rw [inodeHistory_cons, inodeRun_none]
  rfl

theorem mem_inodeHistory_restart {db : Store} {runs : List (List InodeEvent)} {handed : List ℕ}
    (mem : handed ∈ inodeHistory serverId cwd (some (db, none)) runs) :
    ∃ run ∈ runs, handed = (runEvents none ⟨db, serverId, restartCount serverId, cwd⟩ run).2.2 := by
  induction runs with
  | nil => cases mem
  | cons run runs ih =>
    rw [inodeHistory_cons, inodeRun_restart] at mem
    rcases List.mem_cons.mp mem with rfl | later
    · exact ⟨run, List.mem_cons_self, rfl⟩
    · obtain ⟨run', mem', rfl⟩ := ih later
      exact ⟨run', List.mem_cons_of_mem _ mem', rfl⟩

theorem restartCount_mod : restartCount serverId % 2 ^ 9 = serverId % 2 ^ 9 := by
  simp only [restartCount, Nat.shiftLeft_eq]
  omega

theorem inodeHistory_mod (runs : List (List InodeEvent)) :
    ∀ handed ∈ inodeHistory serverId cwd none runs, ∀ n ∈ handed, n % 2 ^ 9 = serverId % 2 ^ 9 := by
  cases runs with
  | nil => simp [inodeHistory]
  | cons first runs =>
    intro handed mem
    rw [inodeHistory_cons, inodeRun_none] at mem
    rcases List.mem_cons.mp mem with rfl | later
    · -- the first run starts at the server id itself
      exact (runEvents_mod none ⟨∅, serverId, serverId, cwd⟩ rfl first).2
    · -- every later run starts at `restartCount`
      obtain ⟨run, -, rfl⟩ := mem_inodeHistory_restart serverId cwd later
      exact (runEvents_mod none ⟨∅, serverId, restartCount serverId, cwd⟩
        (restartCount_mod serverId) run).2

end History

/-- What the numbering does ensure: server `s` hands out only numbers congruent to `s`, so two
servers with ids below `2^9` never hand out the same number, whatever their histories. -/
theorem inode_numbers_by_server {serverId serverId' : ℕ} (cwd cwd' : Stat)
    (runs runs' : List (List InodeEvent))
    (id_lt : serverId < 2 ^ 9) (id_lt' : serverId' < 2 ^ 9) (differ : serverId ≠ serverId') :
    (∀ handed ∈ inodeHistory serverId cwd none runs, ∀ n ∈ handed, n % 2 ^ 9 = serverId) ∧
    ∀ handed ∈ inodeHistory serverId cwd none runs,
      ∀ handed' ∈ inodeHistory serverId' cwd' none runs', ∀ n ∈ handed, n ∉ handed' := by
  have own : ∀ handed ∈ inodeHistory serverId cwd none runs, ∀ n ∈ handed,
      n % 2 ^ 9 = serverId :=
    fun handed mem n mem_n => (inodeHistory_mod serverId cwd runs handed mem n mem_n).trans
      (Nat.mod_eq_of_lt id_lt)
  refine ⟨own, fun handed mem handed' mem' n mem_n mem_n' => differ ?_⟩
  -- the same number would have both residues
  calc serverId = n % 2 ^ 9 := (own handed mem n mem_n).symm
    _ = serverId' % 2 ^ 9 := inodeHistory_mod serverId' cwd' runs' handed' mem' n mem_n'
    _ = serverId' := Nat.mod_eq_of_lt id_lt'

theorem inode_numbers_by_server_zero_one :
    (0 : ℕ) < 2 ^ 9 ∧ (1 : ℕ) < 2 ^ 9 ∧ (0 : ℕ) ≠ 1 ∧
    (∀ handed ∈ inodeHistory 0 default none [[.newInodeNumber], [.newInodeNumber]], ∀ n ∈ handed,
      n % 2 ^ 9 = 0) ∧
    ∀ handed ∈ inodeHistory 0 default none [[.newInodeNumber], [.newInodeNumber]],
      ∀ handed' ∈ inodeHistory 1 default none [[.newInodeNumber]], ∀ n ∈ handed, n ∉ handed' :=
  ⟨by decide, by decide, by decide,
    inode_numbers_by_server _ _ _ _ (by decide) (by decide) (by decide)⟩

section Repeats

theorem head_runEvents (record : Option ℕ) (mdb : MetaDB) (events : List InodeEvent)
    (batches : ∀ k, .newInodeBatch k ∈ events → 1 ≤ k) :
    (runEvents record mdb events).2.2 = [] ∨
      (runEvents record mdb events).2.2.head? =
        some (widen64 (narrow32 ((mdb.inodeCount + 2 ^ 9) % 2 ^ 64))) := by
  induction events generalizing record with
  | nil => exact .inl rfl
  | cons event events ih =>
    rw [runEvents_cons]
    cases event with
    | newInodeNumber =>
      right
      simp [inodeStep, MetadataBackend.newInodeNumber_eq]
    | newInodeBatch bulkSize =>
      right
      obtain ⟨more, size⟩ : ∃ more, bulkSize.toNat = more + 1 :=
        ⟨bulkSize.toNat - 1, by have := batches bulkSize List.mem_cons_self; omega⟩
      have below := widen64_lt (narrow32 ((mdb.inodeCount + 2 ^ 9) % 2 ^ 64))
      simp [inodeStep, MetadataBackend.newInodeBatch_eq, batchNumbers, size, List.range_succ_eq_map]
      simpa using below
    | saveInodeCount =>
      have rest := ih record fun k mem => batches k (List.mem_cons_of_mem _ mem)
      simpa [inodeStep, metadbSaveInodeCount] using rest

theorem runEvents_replicate (record : Option ℕ) (mdb : MetaDB) (n : ℕ) :
    (runEvents record mdb (List.replicate n .newInodeNumber)).2.2 =
      (List.range n).map fun i => widen64 (narrow32 ((mdb.inodeCount + 2 ^ 9 * (i + 1)) % 2 ^ 64)) := by
  induction n generalizing mdb with
  | zero => rfl
  | succ n ih =>
    simp only [List.replicate_succ, runEvents_cons, ih, List.range_succ_eq_map, inodeStep,
      MetadataBackend.newInodeNumber_eq, List.map_cons, List.map_map, List.singleton_append]
    -- goals are split by hand: unifying the two sides whole unfolds the `% 2^64`
    refine List.cons_eq_cons.mpr ⟨?_, ?_⟩
    · rw [Nat.zero_add, Nat.mul_one]
    · refine List.map_congr_left fun i _ => ?_
      have along : ((mdb.inodeCount + 2 ^ 9) % 2 ^ 64 + 2 ^ 9 * (i + 1)) % 2 ^ 64 =
          (mdb.inodeCount + 2 ^ 9 * (i + 1 + 1)) % 2 ^ 64 := by omega
      rw [Function.comp_apply, along]

theorem number_wraps (count : ℕ) :
    widen64 (narrow32 ((count + 2 ^ 9 * (2 ^ 23 + 1)) % 2 ^ 64)) =
      widen64 (narrow32 ((count + 2 ^ 9 * (0 + 1)) % 2 ^ 64)) :=
  widen64_narrow32_eq (by omega)

/-- Inode numbers come back. The count is never saved, so every run after the first starts
from `restartCount` and hands out the same first number. And within one run, the `int` that
carries each number repeats it after `2^23` calls. -/
theorem inode_numbers_repeat (serverId : ℕ) (cwd : Stat) (first : List InodeEvent)
    (runs : List (List InodeEvent)) (batches : ∀ run ∈ runs, ∀ k, .newInodeBatch k ∈ run → 1 ≤ k) :
    (∀ handed ∈ (inodeHistory serverId cwd none (first :: runs)).tail,
      handed = [] ∨
        handed.head? = some (widen64 (narrow32 ((restartCount serverId + 2 ^ 9) % 2 ^ 64)))) ∧
    ∀ record mdb, ∃ n,
      (runEvents record mdb (List.replicate (2 ^ 23 + 1) .newInodeNumber)).2.2[0]? = some n ∧
      (runEvents record mdb (List.replicate (2 ^ 23 + 1) .newInodeNumber)).2.2[2 ^ 23]? = some n := by
  constructor
  · -- each later run is a run from `restartCount`
    intro handed mem
    rw [tail_inodeHistory] at mem
    obtain ⟨run, mem_run, rfl⟩ := mem_inodeHistory_restart serverId cwd mem
    exact head_runEvents none _ run (batches run mem_run)
  · intro record mdb
    rw [runEvents_replicate, List.getElem?_map, List.getElem?_map, List.getElem?_range (by omega),
      List.getElem?_range (by omega), Option.map_some, Option.map_some, number_wraps]
    exact ⟨_, rfl, rfl⟩

theorem inode_numbers_repeat_two_restarts :
    (∀ run ∈ [[InodeEvent.newInodeNumber], [.newInodeNumber]], ∀ k,
      .newInodeBatch k ∈ run → 1 ≤ k) ∧
    (∀ handed ∈ (inodeHistory 0 default none [[], [.newInodeNumber], [.newInodeNumber]]).tail,
      handed = [] ∨ handed.head? = some (widen64 (narrow32 ((restartCount 0 + 2 ^ 9) % 2 ^ 64)))) ∧
    ∀ record mdb, ∃ n,
      (runEvents record mdb (List.replicate (2 ^ 23 + 1) .newInodeNumber)).2.2[0]? = some n ∧
      (runEvents record mdb (List.replicate (2 ^ 23 + 1) .newInodeNumber)).2.2[2 ^ 23]? = some n := by
  have batches : ∀ run ∈ [[InodeEvent.newInodeNumber], [.newInodeNumber]], ∀ k,
      .newInodeBatch k ∈ run → 1 ≤ k := by simp
  exact ⟨batches, inode_numbers_repeat 0 default [] _ batches⟩

-- the first run of server 0 on a fresh database, then two restarts, one number each
example : inodeHistory 0 default none [[], [.newInodeNumber], [.newInodeNumber]] =
    [[], [5120512], [5120512]] := by
  decide

end Repeats

end IndexFS
