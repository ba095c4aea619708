import IndexFS.Lib.Scan
import IndexFS.Client.Redirect

/-! Path resolution: `MetadataServer::ResolvePath` and the client's `ResolvePath` and
`Internal_ResolvePath`, which must cut every path the server accepts the same way. Both walk
the path with the `find('/')` loop `Scan.pieceLoop`; what the loops call is a parameter. -/

namespace IndexFS

open Scan CInt

def slash : UInt8 := 47

inductive PathException where
  | illegalPath (message : String)
  | notADirectory (path : List UInt8)
  | parentPathNotFound (path : List UInt8)
  deriving DecidableEq

structure PathInfo where
  depth : ℤ
  parent : ℤ
  entry : List UInt8
  deriving DecidableEq

def Status.isOk : Status → Bool
  | .ok => true
  | _ => false

def Status.isNotFound : Status → Bool
  | .notFound _ => true
  | _ => false

def Status.isCorruption : Status → Bool
  | .corruption _ => true
  | _ => false

section Server

variable {m : Type → Type} [Monad m] (lookup : ℤ → List UInt8 → Bool → m (Status × ℤ))

def lookupSegment (path : List UInt8) (createIfNecessary : Bool) (parentId : ℤ)
    (entry : List UInt8) (now : ℕ) : ExceptT PathException m ℤ := do
  let (s, dirId) ← (lookup parentId entry createIfNecessary : m (Status × ℤ))
  if s.isCorruption then throw (.notADirectory (substr path 0 now))
  if s.isNotFound then throw (.parentPathNotFound (substr path 0 now))
  pure dirId

def resolveStep (path : List UInt8) (createIfNecessary : Bool) (acc : ℤ × ℤ)
    (entry : List UInt8) (now : ℕ) : ExceptT PathException m (ℤ × ℤ) :=
  (fun dirId => (acc.1 + 1, dirId)) <$> lookupSegment lookup path createIfNecessary acc.2 entry now

/-- `MetadataServer::ResolvePath`. For `"/"` it sets `depth_` and `parent_` to `-1`, and
`entry_` keeps the empty string of the caller's `PathInfo`. -/
def resolvePath (path : List UInt8) (createIfNecessary : Bool) :
    ExceptT PathException m (Option PathInfo) := do
  if path = [] then throw (.illegalPath "Empty path")
  if substr path 0 1 ≠ [slash] then throw (.illegalPath "Path must be absolute")
  if path.length = 1 then return some ⟨-1, -1, []⟩
  if substr path (path.length - 1) 1 = [slash] then throw (.illegalPath "Path ends with a slash")
  let stop := rfind path slash
  let r ← pieceLoop path slash stop (resolveStep lookup path createIfNecessary) path.length 0
    (0, (rootDirId : ℤ))
  return r.map fun (depth, parentId) => ⟨depth, parentId, path.drop (stop + 1)⟩

end Server

structure DirEntryValue where
  inodeId : ℕ
  zerothServer : ℤ
  expireTime : ℕ

structure AccessInfo where
  id : ℤ
  zerothServer : ℤ
  leaseTime : ℤ

structure ResolvedPath where
  parent : ℕ
  zerothServer : ℤ
  entry : List UInt8
  depth : ℤ
  deriving DecidableEq

def leaseTime (depth : ℤ) : ℤ := max (Int.tdiv 6400000 (depth + 1)) 100000

/-- What `Internal_ResolvePath` calls outside it: `GetCacheEntry`, `env_->NowMicros()`,
`Lookup` and `AddCacheEntry`. -/
structure ResolveOps (m : Type → Type) where
  getCacheEntry : ℕ → List UInt8 → m (Status × DirEntryValue)
  nowMicros : m ℕ
  lookup : ℤ → ℕ → List UInt8 → ℤ → m (Status × AccessInfo)
  addCacheEntry : ℕ → List UInt8 → DirEntryValue → m Unit

section Client

variable {m : Type → Type} [Monad m] (ops : ResolveOps m)

def isEntryExpired (value : DirEntryValue) : m Bool := do
  return (← ops.nowMicros) > value.expireTime

/-- One round of the loop of `Internal_ResolvePath` on a segment `name`: `depth++`, the dent
cache, and on a miss or an expired entry a `Lookup` whose result goes into the cache.
`pdir_id` is an `int`, so an inode number keeps its low 32 bits there. -/
def internalResolveStep (acc : ℤ × ℤ × ℤ) (name : List UInt8) (_now : ℕ) :
    ExceptT Status m (ℤ × ℤ × ℤ) := do
  let (depth, pdirId, pzerothServer) := acc
  let depth := depth + 1
  let (s, cached) ← (ops.getCacheEntry (widen64 pdirId) name : m (Status × DirEntryValue))
  -- `!s.ok() || IsEntryExpired(value, depth)` reads the clock only on a hit
  let refresh ← if s.isOk then (isEntryExpired ops cached : m Bool) else pure true
  let value ← if refresh then do
      let (s, info) ← (ops.lookup pzerothServer (widen64 pdirId) name (leaseTime depth) :
        m (Status × AccessInfo))
      if !s.isOk then throw s
      let value : DirEntryValue := ⟨widen64 info.id, info.zerothServer, widen64 info.leaseTime⟩
      (ops.addCacheEntry (widen64 pdirId) name value : m Unit)
      pure value
    else pure cached
  pure (depth, narrow32 value.inodeId, value.zerothServer)

def internalResolvePath (path : List UInt8) : ExceptT Status m (Option ResolvedPath) := do
  let stop := rfind path slash
  let r ← pieceLoop path slash stop (internalResolveStep ops) path.length 0 (0, 0, 0)
  return r.map fun (depth, pdirId, pzerothServer) =>
    ⟨widen64 pdirId, pzerothServer, path.drop (stop + 1), depth⟩

/-- `MetadataClient::ResolvePath`: a trailing slash is dropped and the rest resolved again. -/
def clientResolvePath (path : List UInt8) : ExceptT Status m (Option ResolvedPath) :=
  if empty : path = [] then throw (.invalidArgument "Empty path" [])
  else if substr path 0 1 ≠ [slash] then throw (.invalidArgument "Invalid path" path)
  else if path.length = 1 then pure (some ⟨rootDirId, 0, [slash], 0⟩)
  else if substr path (path.length - 1) 1 = [slash] then
    clientResolvePath (substr path 0 (path.length - 1))
  else internalResolvePath ops path
termination_by path.length
decreasing_by
  have : 0 < path.length := List.length_pos_iff.mpr empty
  simp only [substr, List.drop_zero, List.length_take]
  omega

end Client

/-! The path grammar and the cut of a path into directories and a last name, stated with
`List.splitOn` on its own. -/

/-- A path `ResolvePath` rejects: empty, not absolute, or longer than `"/"` and ending in a
slash. -/
def Malformed (path : List UInt8) : Prop :=
  path = [] ∨ path.head? ≠ some slash ∨ (1 < path.length ∧ path.getLast? = some slash)

instance : DecidablePred Malformed := fun _ => inferInstanceAs (Decidable (_ ∨ _ ∨ _))

def pathSegments (path : List UInt8) : List (List UInt8) :=
  (path.splitOn slash).dropLast.filter (· ≠ [])

def pathEntry (path : List UInt8) : List UInt8 :=
  (path.splitOn slash).getLast (List.splitOn_ne_nil _ _)

def pathPieces (path : List UInt8) : List (List UInt8 × ℕ) :=
  pieces path slash 0 (rfind path slash)

section Cut

variable {path : List UInt8}

theorem slash_mem_of_head (front : path.head? = some slash) : slash ∈ path :=
  List.mem_of_mem_head? front

theorem map_fst_pathPieces (front : path.head? = some slash) :
    (pathPieces path).map Prod.fst = pathSegments path := by
  have split := splitOn_eq_rfind (slash_mem_of_head front)
  rw [pathPieces, map_fst_pieces_zero (by rwa [← List.head?_eq_getElem?]), pathSegments, split,
    List.dropLast_concat]

theorem drop_rfind_eq_pathEntry (mem : slash ∈ path) :
    path.drop (rfind path slash + 1) = pathEntry path := by
  have split := splitOn_eq_rfind mem
  simp only [pathEntry, split, List.getLast_concat]

theorem length_pathPieces (front : path.head? = some slash) :
    (pathPieces path).length = (pathSegments path).length := by
  rw [← map_fst_pathPieces front, List.length_map]

theorem checks_of_wellFormed (wf : ¬ Malformed path) (not_root : path ≠ [slash]) :
    path ≠ [] ∧ substr path 0 1 = [slash] ∧ path.length ≠ 1 ∧
      substr path (path.length - 1) 1 ≠ [slash] := by
  simp only [Malformed, not_or, not_and, ne_eq, not_not] at wf
  obtain ⟨nonempty, front, back⟩ := wf
  have long : path.length ≠ 1 := by
    intro one
    obtain ⟨a, rfl⟩ := List.length_eq_one_iff.mp one
    simp_all
  refine ⟨nonempty, by rw [substr_zero_one, front]; rfl, long, ?_⟩
  have positive : 0 < path.length := List.length_pos_iff.mpr nonempty
  rw [substr_length_sub_one]
  intro last
  exact back (by omega) (by simpa using last)

theorem head_of_checks (front : substr path 0 1 = [slash]) : path.head? = some slash := by
  rw [substr_zero_one] at front
  cases h : path.head? with
  | none => simp [h] at front
  | some a => simpa [h] using front

end Cut

section ServerSpec

variable {m : Type → Type} [Monad m] [LawfulMonad m] (lookup : ℤ → List UInt8 → Bool → m (Status × ℤ))

theorem resolvePath_eq {path : List UInt8} (wf : ¬ Malformed path) (not_root : path ≠ [slash])
    (createIfNecessary : Bool) :
    resolvePath lookup path createIfNecessary =
      (fun parentId => some ⟨(pathSegments path).length, parentId, pathEntry path⟩) <$>
        (pathPieces path).foldlM
          (fun parentId p => lookupSegment lookup path createIfNecessary parentId p.1 p.2)
          (rootDirId : ℤ) := by
  obtain ⟨nonempty, front, long, back⟩ := checks_of_wellFormed wf not_root
  have head := head_of_checks front
  have mem := slash_mem_of_head head
  obtain ⟨lt, at_stop, -⟩ := rfind_spec mem
  have loop : pieceLoop path slash (rfind path slash) (resolveStep lookup path createIfNecessary)
      path.length 0 (0, (rootDirId : ℤ)) =
        some <$> (pathPieces path).foldlM
          (fun acc p => resolveStep lookup path createIfNecessary acc p.1 p.2) (0, (rootDirId : ℤ)) :=
    pieceLoop_eq at_stop _ _ _ (by omega)
  have count := foldlM_count (fun parentId p => lookupSegment lookup path createIfNecessary parentId
    p.1 p.2) (pathPieces path) 0 (rootDirId : ℤ)
  simp only [resolvePath, nonempty, front, long, back, loop, ne_eq, not_true_eq_false,
    ↓reduceIte, resolveStep, count, drop_rfind_eq_pathEntry mem, length_pathPieces head, zero_add]
  simp only [bind_pure_comp, Functor.map_map]
  rfl

omit [LawfulMonad m] in
theorem resolvePath_root (createIfNecessary : Bool) :
    resolvePath lookup [slash] createIfNecessary = pure (some ⟨-1, -1, []⟩) := by
  simp [resolvePath, substr]

theorem resolvePath_malformed {path : List UInt8} (bad : Malformed path) (createIfNecessary : Bool) :
    ∃ message, resolvePath lookup path createIfNecessary = throw (.illegalPath message) := by
  by_cases empty : path = []
  · exact ⟨"Empty path", by simp [resolvePath, empty]⟩
  by_cases relative : substr path 0 1 ≠ [slash]
  · exact ⟨"Path must be absolute", by simp [resolvePath, empty, relative]⟩
  -- what is left of the grammar's cases is a trailing slash on a longer path
  have head := head_of_checks (not_not.mp relative)
  obtain ⟨long, back⟩ : 1 < path.length ∧ path.getLast? = some slash := by
    simpa [Malformed, empty, head] using bad
  have trailing : substr path (path.length - 1) 1 = [slash] := by
    rw [substr_length_sub_one, back]
    rfl
  exact ⟨"Path ends with a slash", by simp [resolvePath, empty, relative, trailing, Nat.ne_of_gt long]⟩

theorem run_lookupSegment (path : List UInt8) (createIfNecessary : Bool) (parentId : ℤ)
    (entry : List UInt8) (now : ℕ) :
    (lookupSegment lookup path createIfNecessary parentId entry now).run =
      (fun r : Status × ℤ =>
        if r.1.isCorruption then .error (.notADirectory (substr path 0 now))
        else if r.1.isNotFound then .error (.parentPathNotFound (substr path 0 now))
        else .ok r.2) <$> lookup parentId entry createIfNecessary := by
  rw [lookupSegment, ExceptT.run_bind, ExceptT.run_liftM, bind_map_left, ← bind_pure_comp]
  congr 1
  funext r
  by_cases corrupt : r.1.isCorruption <;> by_cases missing : r.1.isNotFound <;>
    simp [corrupt, missing]

end ServerSpec

section Runs

variable {σ ε : Type}

def RaisesIllegalPath {α : Type} (x : ExceptT PathException (StateT σ (Except ε)) α) (st : σ) :
    Prop :=
  ∃ message st', x.run.run st = .ok (.error (.illegalPath message), st')

variable {α β : Type}

theorem RaisesIllegalPath.of_bind {x : ExceptT PathException (StateT σ (Except ε)) α}
    {f : α → ExceptT PathException (StateT σ (Except ε)) β} {st : σ}
    (raises : RaisesIllegalPath (x >>= f) st) :
    RaisesIllegalPath x st ∨ ∃ a st', x.run.run st = .ok (.ok a, st') ∧ RaisesIllegalPath (f a) st' := by
  obtain ⟨message, st'', run⟩ := raises
  rw [ExceptT.run_bind, StateT.run_bind] at run
  cases first : x.run.run st with
  | error e =>
    rw [first] at run
    cases run
  | ok r =>
    obtain ⟨r, st₁⟩ := r
    rw [first] at run
    cases r with
    | error e =>
      refine .inl ⟨message, st₁, ?_⟩
      rw [first]
      cases run
      rfl
    | ok a => exact .inr ⟨a, st₁, rfl, message, st'', run⟩

theorem RaisesIllegalPath.of_map {x : ExceptT PathException (StateT σ (Except ε)) α}
    {f : α → β} {st : σ} (raises : RaisesIllegalPath (f <$> x) st) : RaisesIllegalPath x st := by
  rw [← bind_pure_comp] at raises
  rcases raises.of_bind with raises | ⟨a, st', -, message, st'', run⟩
  · exact raises
  · cases run

variable (lookup : ℤ → List UInt8 → Bool → StateT σ (Except ε) (Status × ℤ))
  (path : List UInt8) (createIfNecessary : Bool)

theorem not_raisesIllegalPath_lookupSegment (parentId : ℤ) (entry : List UInt8) (now : ℕ)
    (st : σ) :
    ¬ RaisesIllegalPath (lookupSegment lookup path createIfNecessary parentId entry now) st := by
  rintro ⟨message, st', run⟩
  rw [run_lookupSegment, StateT.run_map] at run
  cases called : (lookup parentId entry createIfNecessary).run st with
  | error e =>
    rw [called] at run
    cases run
  | ok r =>
    rw [called] at run
    by_cases corrupt : r.1.1.isCorruption <;> by_cases missing : r.1.1.isNotFound <;>
      simp [corrupt, missing] at run

theorem not_raisesIllegalPath_foldlM (segments : List (List UInt8 × ℕ)) (parentId : ℤ) (st : σ) :
    ¬ RaisesIllegalPath (segments.foldlM
      (fun parentId p => lookupSegment lookup path createIfNecessary parentId p.1 p.2) parentId) st := by
  induction segments generalizing parentId st with
  | nil =>
    rintro ⟨message, st', run⟩
    cases run
  | cons p segments ih =>
    intro raises
    rw [List.foldlM_cons] at raises
    rcases raises.of_bind with first | ⟨dirId, st', -, rest⟩
    · exact not_raisesIllegalPath_lookupSegment lookup path createIfNecessary _ _ _ st first
    · exact ih dirId st' rest

theorem raisesIllegalPath_resolvePath_iff (st : σ) :
    RaisesIllegalPath (resolvePath lookup path createIfNecessary) st ↔ Malformed path := by
  constructor
  · intro raises
    by_contra wf
    by_cases root : path = [slash]
    · subst root
      obtain ⟨message, st', run⟩ := raises
      rw [resolvePath_root] at run
      cases run
    · rw [resolvePath_eq lookup wf root] at raises
      exact not_raisesIllegalPath_foldlM lookup path createIfNecessary _ _ st raises.of_map
  · intro bad
    obtain ⟨message, thrown⟩ := resolvePath_malformed lookup bad createIfNecessary
    exact ⟨message, st, by rw [thrown]; rfl⟩

end Runs

section ClientSpec

variable {m : Type → Type} [Monad m] [LawfulMonad m] (ops : ResolveOps m)

theorem internalResolvePath_eq {path : List UInt8} (mem : slash ∈ path) :
    internalResolvePath ops path =
      (fun r => some ⟨widen64 r.2.1, r.2.2, pathEntry path, r.1⟩) <$>
        (pathPieces path).foldlM (fun acc p => internalResolveStep ops acc p.1 p.2) (0, 0, 0) := by
  obtain ⟨lt, at_stop, -⟩ := rfind_spec mem
  have loop : pieceLoop path slash (rfind path slash) (internalResolveStep ops) path.length 0
      (0, 0, 0) =
        some <$> (pathPieces path).foldlM (fun acc p => internalResolveStep ops acc p.1 p.2)
          (0, 0, 0) :=
    pieceLoop_eq at_stop _ _ _ (by omega)
  simp only [internalResolvePath, loop, drop_rfind_eq_pathEntry mem, bind_pure_comp,
    Functor.map_map]
  rfl

omit [LawfulMonad m] in
theorem clientResolvePath_root :
    clientResolvePath ops [slash] = pure (some ⟨rootDirId, 0, [slash], 0⟩) := by
  rw [clientResolvePath]
  simp [substr]

omit [LawfulMonad m] in
theorem clientResolvePath_of_wellFormed {path : List UInt8} (wf : ¬ Malformed path)
    (not_root : path ≠ [slash]) : clientResolvePath ops path = internalResolvePath ops path := by
  obtain ⟨nonempty, front, long, back⟩ := checks_of_wellFormed wf not_root
  rw [clientResolvePath]
  simp [nonempty, front, long, back]

end ClientSpec

/-- The grammar of `ResolvePath`, the cut of the paths it accepts, and the client's cut of
the same paths. `"/"` is the one accepted path that goes no further than the checks: the
server marks it with `depth_ = parent_ = -1` and the client answers the root itself. -/
theorem resolve_path_grammar {σ ε : Type}
    (lookup : ℤ → List UInt8 → Bool → StateT σ (Except ε) (Status × ℤ))
    (ops : ResolveOps (StateT σ (Except ε))) (path : List UInt8) (createIfNecessary : Bool) :
    (∀ st, RaisesIllegalPath (resolvePath lookup path createIfNecessary) st ↔ Malformed path) ∧
    (path = [slash] →
      resolvePath lookup path createIfNecessary = pure (some ⟨-1, -1, []⟩) ∧
      clientResolvePath ops path = pure (some ⟨rootDirId, 0, [slash], 0⟩)) ∧
    (¬ Malformed path → path ≠ [slash] →
      (pathPieces path).map Prod.fst = pathSegments path ∧
      resolvePath lookup path createIfNecessary =
        (fun parentId => some ⟨(pathSegments path).length, parentId, pathEntry path⟩) <$>
          (pathPieces path).foldlM
            (fun parentId p => lookupSegment lookup path createIfNecessary parentId p.1 p.2)
            (rootDirId : ℤ) ∧
      clientResolvePath ops path =
        (fun r => some ⟨widen64 r.2.1, r.2.2, pathEntry path, r.1⟩) <$>
          (pathPieces path).foldlM (fun acc p => internalResolveStep ops acc p.1 p.2) (0, 0, 0)) := by
  refine ⟨raisesIllegalPath_resolvePath_iff lookup path createIfNecessary, ?_, ?_⟩
  · rintro rfl
    exact ⟨resolvePath_root lookup createIfNecessary, clientResolvePath_root ops⟩
  · intro wf not_root
    have head := head_of_checks (checks_of_wellFormed wf not_root).2.1
    refine ⟨map_fst_pathPieces head, resolvePath_eq lookup wf not_root createIfNecessary, ?_⟩
    rw [clientResolvePath_of_wellFormed ops wf not_root]
    exact internalResolvePath_eq ops (slash_mem_of_head head)

theorem resolve_path_grammar_two_names :
    ¬ Malformed [slash, 97, slash, 98] ∧ [slash, 97, slash, 98] ≠ [slash] ∧
    (pathPieces [slash, 97, slash, 98]).map Prod.fst = pathSegments [slash, 97, slash, 98] ∧
    resolvePath (fun _ _ _ => pure (.ok, 1) : ℤ → List UInt8 → Bool → StateT Unit (Except Unit) _)
        [slash, 97, slash, 98] false =
      (fun parentId => some ⟨(pathSegments [slash, 97, slash, 98]).length, parentId,
          pathEntry [slash, 97, slash, 98]⟩) <$>
        (pathPieces [slash, 97, slash, 98]).foldlM
          (fun parentId p => lookupSegment (fun _ _ _ => pure (.ok, 1)) [slash, 97, slash, 98]
            false parentId p.1 p.2) (rootDirId : ℤ) ∧
    clientResolvePath (⟨fun _ _ => pure (.notFound "", ⟨0, 0, 0⟩), pure 0,
        fun _ _ _ _ => pure (.ok, ⟨1, 0, 0⟩), fun _ _ _ => pure ()⟩ :
          ResolveOps (StateT Unit (Except Unit))) [slash, 97, slash, 98] =
      (fun r => some ⟨widen64 r.2.1, r.2.2, pathEntry [slash, 97, slash, 98], r.1⟩) <$>
        (pathPieces [slash, 97, slash, 98]).foldlM
          (fun acc p => internalResolveStep ⟨fun _ _ => pure (.notFound "", ⟨0, 0, 0⟩), pure 0,
            fun _ _ _ _ => pure (.ok, ⟨1, 0, 0⟩), fun _ _ _ => pure ()⟩ acc p.1 p.2) (0, 0, 0) := by
  have wf : ¬ Malformed [slash, 97, slash, 98] := by decide
  have not_root : [slash, 97, slash, 98] ≠ [slash] := by decide
  exact ⟨wf, not_root, (resolve_path_grammar (fun _ _ _ => pure (.ok, 1))
    ⟨fun _ _ => pure (.notFound "", ⟨0, 0, 0⟩), pure 0, fun _ _ _ _ => pure (.ok, ⟨1, 0, 0⟩),
      fun _ _ _ => pure ()⟩ [slash, 97, slash, 98] false).2.2 wf not_root⟩

/-- At `"/"` the server's `depth_` is `-1`, not the number of segments `0`, and the client's
entry is `"/"`, not the empty suffix after the slash. -/
theorem root_path_depth_minus_one :
    resolvePath (m := Id) (fun _ _ _ => (Status.ok, 0)) [slash] false = pure (some ⟨-1, -1, []⟩) ∧
      (-1 : ℤ) ≠ (pathSegments [slash]).length ∧
      clientResolvePath (m := Id) ⟨fun _ _ => (.notFound "", ⟨0, 0, 0⟩), 0,
          fun _ _ _ _ => (.ok, ⟨0, 0, 0⟩), fun _ _ _ => ()⟩ [slash] =
        pure (some ⟨rootDirId, 0, [slash], 0⟩) ∧
      [slash] ≠ pathEntry [slash] :=
  ⟨resolvePath_root _ false, by decide, clientResolvePath_root _, by decide⟩

end IndexFS
