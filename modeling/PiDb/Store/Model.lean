import PiDb.Core.Log

/-!
# Store — the log-file store and its loader

`AsyncLogFileStore` (`log_file_db.rs`) keeps a table's `LogFile` and, while the log is
replayed, the state of its `PairLoader`: the keys decided by a removal (`removed`) or by an
append (`tmpMap`), the values loaded (`map`), and the statistics of the read-only segments.

* `LogFile`: modelled from the spec (the type is in `pi_store`): the durable segments, the
  last of them writable, and the records appended but not yet committed.  A segment file's
  path is its index.
* `AsyncLogFileStore.writeBatch`, `removeBatch`, `write`, `remove`: appends, one awaited
  `delay_commit`, and the update of `map` once it succeeds.
* `AsyncLogFileStore.isRequire` and `load`: the two callbacks of `PairLoader`, transcribed
  with their statistics bookkeeping; `statisticsCount` is the step both make on a counted
  record.
* `LogFile.load`: modelled from the spec: newest segment first, newest record first, each
  record offered to `isRequire` and, when it is required, to `load`; an ancestor's load is
  bounded by a segment index.
-/

namespace PiDb

/-- A segment file of a log: its index, the six-digit file name, and its records, oldest
first. -/
structure Segment (K V : Type) where
  index : Nat
  records : List (LogRecord K V)
  deriving DecidableEq, Repr

/-- Modelled from the spec: `LogFile`, a segmented append-only log.  `closed` are the
read-only segments, oldest first, then the one writable segment; `pending` are the records
appended and not yet committed, which a crash loses. -/
structure LogFile (K V : Type) where
  closed : List (Segment K V)
  writable : Segment K V
  pending : List (LogRecord K V)
  deriving DecidableEq, Repr

namespace LogFile

variable {K V : Type}

/-- All segments, oldest first. -/
def segments (f : LogFile K V) : List (Segment K V) := f.closed ++ [f.writable]

/-- The durable records, oldest first: what a replay after a crash reads. -/
def records (f : LogFile K V) : List (LogRecord K V) := f.segments.flatMap (·.records)

/-- Modelled from the spec: `LogFile::append`, which buffers the record. -/
def append (f : LogFile K V) (r : LogRecord K V) : LogFile K V :=
  { f with pending := f.pending ++ [r] }

/-- Modelled from the spec: `LogFile::delay_commit` of the last record appended; when it
succeeds (`ok`) the buffered records join the writable segment. -/
def delayCommit (f : LogFile K V) (ok : Bool) : LogFile K V × Except Unit Unit :=
  if ok then
    ({ f with writable := { f.writable with records := f.writable.records ++ f.pending },
              pending := [] }, .ok ())
  else (f, .error ())

/-- Modelled from the spec: `LogFile::split`, which closes the writable segment and opens the
next one, returning its index: an ancestor is loaded up to the segment below it. -/
def split (f : LogFile K V) : LogFile K V × Nat :=
  ({ f with closed := f.closed ++ [f.writable], writable := ⟨f.writable.index + 1, []⟩ },
    f.writable.index + 1)

@[simp] theorem records_append (f : LogFile K V) (r : LogRecord K V) :
    (f.append r).records = f.records := rfl

@[simp] theorem pending_append (f : LogFile K V) (r : LogRecord K V) :
    (f.append r).pending = f.pending ++ [r] := rfl

theorem records_delayCommit (f : LogFile K V) (ok : Bool) :
    (f.delayCommit ok).1.records = if ok then f.records ++ f.pending else f.records := by
  cases ok <;> simp [delayCommit, records, segments]

theorem pending_delayCommit (f : LogFile K V) (ok : Bool) :
    (f.delayCommit ok).1.pending = if ok then [] else f.pending := by
  cases ok <;> rfl

@[simp] theorem records_split (f : LogFile K V) : f.split.1.records = f.records := by
  simp [split, records, segments]

end LogFile

/-- `AsyncLogFileStore`.  `writablePath` and the paths of `statistics` are segment indices;
`statistics` is the `VecDeque` front first, each entry `(path, log_len, key_len)`. -/
structure AsyncLogFileStore (K V : Type) where
  removed : List K
  map : AList (fun _ : K => V)
  logFile : LogFile K V
  tmpMap : List K
  writablePath : Option Nat
  isStatistics : Bool
  isInit : Bool
  statistics : List (Nat × Nat × Nat)

namespace AsyncLogFileStore

variable {K V : Type} [DecidableEq K]

/-- The store `LogFileTab::new` and `LogFileDB::new` build over a log before loading it. -/
def fresh (f : LogFile K V) : AsyncLogFileStore K V :=
  { removed := [], map := ∅, logFile := f, tmpMap := [], writablePath := none,
    isStatistics := false, isInit := true, statistics := [] }

/-- `AsyncLogFileStore::write_batch`: every pair appended, one `delay_commit`, and the pairs
inserted into `map` once it succeeds. -/
def writeBatch (s : AsyncLogFileStore K V) (pairs : List (K × V)) (ok : Bool) :
    AsyncLogFileStore K V × Except Unit Unit :=
  let c := (pairs.foldl (fun f p => f.append (.plainAppend p.1 p.2)) s.logFile).delayCommit ok
  match c.2 with
  | .ok () => ({ s with logFile := c.1, map := pairs.foldl (fun m p => m.insert p.1 p.2) s.map },
      .ok ())
  | .error e => ({ s with logFile := c.1 }, .error e)

/-- `AsyncLogFileStore::remove_batch`: every key appended as a removal, one `delay_commit`,
and the keys removed from `map` once it succeeds. -/
def removeBatch (s : AsyncLogFileStore K V) (keys : List K) (ok : Bool) :
    AsyncLogFileStore K V × Except Unit Unit :=
  let c := (keys.foldl (fun f k => f.append (.remove k)) s.logFile).delayCommit ok
  match c.2 with
  | .ok () => ({ s with logFile := c.1, map := keys.foldl (fun m k => m.erase k) s.map }, .ok ())
  | .error e => ({ s with logFile := c.1 }, .error e)

/-- `AsyncLogFileStore::write`: one append, one `delay_commit`; on success the value
replaced in `map`, if any, is returned. -/
def write (s : AsyncLogFileStore K V) (key : K) (value : V) (ok : Bool) :
    AsyncLogFileStore K V × Except Unit (Option V) :=
  let c := (s.logFile.append (.plainAppend key value)).delayCommit ok
  match c.2 with
  | .ok () => ({ s with logFile := c.1, map := s.map.insert key value }, .ok (s.map.lookup key))
  | .error e => ({ s with logFile := c.1 }, .error e)

/-- `AsyncLogFileStore::remove`: one removal appended, one `delay_commit`; on success the
value removed from `map`, if any, is returned. -/
def remove (s : AsyncLogFileStore K V) (key : K) (ok : Bool) :
    AsyncLogFileStore K V × Except Unit (Option V) :=
  let c := (s.logFile.append (.remove key)).delayCommit ok
  match c.2 with
  | .ok () => ({ s with logFile := c.1, map := s.map.erase key }, .ok (s.map.lookup key))
  | .error e => ({ s with logFile := c.1 }, .error e)

/-- `AsyncLogFileStore::read`: the value `map` holds for the key. -/
def read (s : AsyncLogFileStore K V) (key : K) : Option V :=
  s.map.lookup key

/-- The count `is_require` and `load` make of a record of the segment `logFile`: the head
entry of `statistics`, when it is this segment's, counts one more record, and one more key
when the key is not in `tmpMap`; otherwise a new head entry starts the segment with one
record, and one key when the key is not in `tmpMap`. -/
def statisticsCount (s : AsyncLogFileStore K V) (logFile : Nat) (key : K) :
    AsyncLogFileStore K V :=
  match s.statistics with
  | (path, logLen, keyLen) :: rest =>
    if path = logFile then
      { s with statistics :=
          (path, logLen + 1, if key ∉ s.tmpMap then keyLen + 1 else keyLen) :: rest }
    else { s with statistics := (logFile, 1, if key ∈ s.tmpMap then 0 else 1) :: s.statistics }
  | [] => { s with statistics := (logFile, 1, if key ∈ s.tmpMap then 0 else 1) :: s.statistics }

/-- `PairLoader::is_require`: whether the record of `key` in the segment `logFile` is still
to be loaded, that is whether no newer record decided the key.  In statistics mode a record
not required is counted here (a required one is counted by `load`; the source's branch that
would start an entry `(logFile, 0, 0)` here is unreachable).  Before statistics mode the
first segment seen is recorded as the writable one, and the first record of another segment
starts its entry and statistics mode. -/
def isRequire (s : AsyncLogFileStore K V) (logFile : Nat) (key : K) :
    AsyncLogFileStore K V × Bool :=
  let b := decide (key ∉ s.removed ∧ key ∉ s.tmpMap)
  if s.isStatistics then
    (if b then s else s.statisticsCount logFile key, b)
  else
    match s.writablePath with
    | none => ({ s with writablePath := some logFile }, b)
    | some path =>
      if path ≠ logFile then
        ({ s with statistics := (logFile, if b then 0 else 1, if b then 0 else 1) :: s.statistics,
                  isStatistics := true }, b)
      else (s, b)

/-- The half of `PairLoader::load` that decides the key: an append decides it (and, during
the initial load, puts its value in `map`), a removal decides it as removed. -/
def settle (s : AsyncLogFileStore K V) (r : LogRecord K V) : AsyncLogFileStore K V :=
  match r.value with
  | some v =>
    { s with map := if s.isInit then s.map.insert r.key v else s.map,
             tmpMap := s.tmpMap.insert r.key }
  | none => { s with removed := s.removed.insert r.key }

/-- `PairLoader::load`: in statistics mode the record is counted, then it decides its key. -/
def load (s : AsyncLogFileStore K V) (logFile : Nat) (r : LogRecord K V) :
    AsyncLogFileStore K V :=
  (if s.isStatistics then s.statisticsCount logFile r.key else s).settle r

/-! ### What the loader's callbacks leave of the decided keys -/

@[simp] theorem removed_statisticsCount (s : AsyncLogFileStore K V) (p : Nat) (k : K) :
    (s.statisticsCount p k).removed = s.removed := by
  unfold statisticsCount; split <;> (try split) <;> rfl

@[simp] theorem tmpMap_statisticsCount (s : AsyncLogFileStore K V) (p : Nat) (k : K) :
    (s.statisticsCount p k).tmpMap = s.tmpMap := by
  unfold statisticsCount; split <;> (try split) <;> rfl

@[simp] theorem map_statisticsCount (s : AsyncLogFileStore K V) (p : Nat) (k : K) :
    (s.statisticsCount p k).map = s.map := by
  unfold statisticsCount; split <;> (try split) <;> rfl

@[simp] theorem isInit_statisticsCount (s : AsyncLogFileStore K V) (p : Nat) (k : K) :
    (s.statisticsCount p k).isInit = s.isInit := by
  unfold statisticsCount; split <;> (try split) <;> rfl

@[simp] theorem logFile_statisticsCount (s : AsyncLogFileStore K V) (p : Nat) (k : K) :
    (s.statisticsCount p k).logFile = s.logFile := by
  unfold statisticsCount; split <;> (try split) <;> rfl

@[simp] theorem logFile_isRequire (s : AsyncLogFileStore K V) (p : Nat) (k : K) :
    (s.isRequire p k).1.logFile = s.logFile := by
  simp only [isRequire]
  split
  · split <;> simp
  · split
    · rfl
    · split <;> rfl

/-- `is_require` answers whether no newer record decided the key, and touches only the
statistics. -/
theorem isRequire_eq (s : AsyncLogFileStore K V) (p : Nat) (k : K) :
    (s.isRequire p k).2 = decide (k ∉ s.removed ∧ k ∉ s.tmpMap) ∧
      (s.isRequire p k).1.removed = s.removed ∧ (s.isRequire p k).1.tmpMap = s.tmpMap ∧
      (s.isRequire p k).1.map = s.map ∧ (s.isRequire p k).1.isInit = s.isInit := by
  simp only [isRequire]
  split
  · split <;> simp
  · split
    · simp
    · split <;> simp

@[simp] theorem removed_load (s : AsyncLogFileStore K V) (p : Nat) (r : LogRecord K V) :
    (s.load p r).removed =
      match r.value with
      | some _ => s.removed
      | none => s.removed.insert r.key := by
  simp only [load, settle]; split <;> split <;> simp

@[simp] theorem tmpMap_load (s : AsyncLogFileStore K V) (p : Nat) (r : LogRecord K V) :
    (s.load p r).tmpMap =
      match r.value with
      | some _ => s.tmpMap.insert r.key
      | none => s.tmpMap := by
  simp only [load, settle]; split <;> split <;> simp

@[simp] theorem map_load (s : AsyncLogFileStore K V) (p : Nat) (r : LogRecord K V) :
    (s.load p r).map =
      match r.value with
      | some v => if s.isInit then s.map.insert r.key v else s.map
      | none => s.map := by
  simp only [load, settle]; split <;> split <;> simp

@[simp] theorem isInit_load (s : AsyncLogFileStore K V) (p : Nat) (r : LogRecord K V) :
    (s.load p r).isInit = s.isInit := by
  simp only [load, settle]; split <;> split <;> simp

/-- One record offered to the loader: `is_require`, then `load` when it is required. -/
def visit (s : AsyncLogFileStore K V) (logFile : Nat) (r : LogRecord K V) :
    AsyncLogFileStore K V :=
  let q := s.isRequire logFile r.key
  if q.2 then q.1.load logFile r else q.1

/-- What a record offered to the loader leaves in `tmp_map`: its key, when no record decided
it before and the record is an append. -/
theorem tmpMap_visit (s : AsyncLogFileStore K V) (p : Nat) (r : LogRecord K V) :
    (s.visit p r).tmpMap =
      if (r.key ∉ s.removed ∧ r.key ∉ s.tmpMap) ∧ r.value.isSome then s.tmpMap.insert r.key
      else s.tmpMap := by
  obtain ⟨hb, -, htmp, -, -⟩ := isRequire_eq s p r.key
  simp only [visit, hb, decide_eq_true_eq]
  split
  · next hq => cases hv : r.value <;> simp [hv, hq, htmp]
  · next hq => simp [hq, htmp]

/-- What a record offered to the loader leaves in `removed`: its key, when no record decided
it before and the record is a removal. -/
theorem removed_visit (s : AsyncLogFileStore K V) (p : Nat) (r : LogRecord K V) :
    (s.visit p r).removed =
      if (r.key ∉ s.removed ∧ r.key ∉ s.tmpMap) ∧ r.value.isNone then s.removed.insert r.key
      else s.removed := by
  obtain ⟨hb, hrem, -, -, -⟩ := isRequire_eq s p r.key
  simp only [visit, hb, decide_eq_true_eq]
  split
  · next hq => cases hv : r.value <;> simp [hv, hq, hrem]
  · next hq => simp [hq, hrem]

omit [DecidableEq K] in
theorem find?_concat_of_ne {seen : List (LogRecord K V)} {r : LogRecord K V} {k : K}
    [DecidableEq K] (e : k ≠ r.key) :
    (seen ++ [r]).find? (·.key = k) = seen.find? (·.key = k) := by
  simp [List.find?_append, Ne.symm e]

@[simp] theorem isInit_visit (s : AsyncLogFileStore K V) (p : Nat) (r : LogRecord K V) :
    (s.visit p r).isInit = s.isInit := by
  obtain ⟨-, -, -, -, hinit⟩ := isRequire_eq s p r.key
  simp only [visit]
  split <;> simp [hinit]

@[simp] theorem logFile_visit (s : AsyncLogFileStore K V) (p : Nat) (r : LogRecord K V) :
    (s.visit p r).logFile = s.logFile := by
  simp only [visit]
  split
  · simp only [load, settle]
    split <;> split <;> simp
  · simp

/-- What a record offered to the loader leaves in `map`: its value, during the initial load,
when no record decided its key before and the record is an append. -/
theorem map_visit (s : AsyncLogFileStore K V) (p : Nat) (r : LogRecord K V) :
    (s.visit p r).map =
      if r.key ∉ s.removed ∧ r.key ∉ s.tmpMap then
        match r.value with
        | some v => if s.isInit then s.map.insert r.key v else s.map
        | none => s.map
      else s.map := by
  obtain ⟨hb, -, -, hmap, hinit⟩ := isRequire_eq s p r.key
  simp only [visit, hb, decide_eq_true_eq]
  split
  · next hq => cases hv : r.value <;> simp [hv, hq, hmap, hinit]
  · next hq => simp [hq, hmap]

/-- The records of one segment offered to the loader, newest first. -/
def loadSegment (s : AsyncLogFileStore K V) (seg : Segment K V) : AsyncLogFileStore K V :=
  seg.records.reverse.foldl (fun s r => s.visit seg.index r) s

end AsyncLogFileStore

namespace LogFile

variable {K V : Type} [DecidableEq K]

/-- Modelled from the spec: `LogFile::load` into the loader `s`, newest segment first;
`bound`, for an ancestor, skips the segments above it. -/
def load (f : LogFile K V) (bound : Option Nat) (s : AsyncLogFileStore K V) :
    AsyncLogFileStore K V :=
  (f.segments.filter (fun seg => bound.all (seg.index ≤ ·))).reverse.foldl
    AsyncLogFileStore.loadSegment s

end LogFile

end PiDb
