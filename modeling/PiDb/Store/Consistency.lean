import PiDb.Store.Collect
import PiDb.Txn.Durability

/-!
# Store — what a table's store serves

`AsyncLogFileStore` answers `read` from `map`, and every call that writes appends its
records to the log and awaits one `delay_commit` before it changes `map`.  As long as the log
commits succeed, `map` is the latest-wins reading of the durable log, which is what
`LogFileTab::new` loads when the table is opened again.  A failed commit breaks this: its
records stay appended, and the next successful commit makes them durable, while `map` never
received them.

* `Reads`: a map answers every key with the latest-wins reading of a list of records;
  appending a record extends it as `insert` or `erase` does.
* `AsyncLogFileStore.Consistent`: a store that serves its log: out of the initial load,
  nothing buffered, and `map` `Reads` the durable records.  `write_batch`, `remove_batch`,
  `write` and `remove` whose commits succeed keep it, and so do a split and the reset and
  rescan of `collect`; what `collect_logs` deletes is `Store.Compaction`'s.
* `write_remove_previous`: `write` and `remove` return the key's latest-wins value in the
  durable log before them.
* `writeBatch_failed_durable`: a `write_batch` whose commit fails, followed by one that
  succeeds, leaves a log that reopens with the failed pairs written, though no `read`
  returns them.
-/

namespace PiDb

variable {K V : Type} [DecidableEq K]

/-- `m` answers every key with the latest-wins reading of the records `rs`. -/
def Reads (m : AList (fun _ : K => V)) (rs : List (LogRecord K V)) : Prop :=
  ∀ k, m.lookup k = latestValue rs k

namespace Reads

variable {m : AList (fun _ : K => V)} {rs : List (LogRecord K V)}

theorem insert (h : Reads m rs) (k : K) (v : V) :
    Reads (m.insert k v) (rs ++ [.plainAppend k v]) := fun k' => by
  by_cases e : k = k'
  · subst e
    simp
  · simp [AList.lookup_insert_ne (Ne.symm e), e, h k']

theorem erase (h : Reads m rs) (k : K) : Reads (m.erase k) (rs ++ [.remove k]) := fun k' => by
  by_cases e : k = k'
  · subst e
    simp
  · simp [AList.lookup_erase_ne (Ne.symm e), e, h k']

/-- `write_batch`'s inserts into `map` read as its appends to the log. -/
theorem foldl_insert :
    ∀ (pairs : List (K × V)) {m : AList (fun _ : K => V)} {rs : List (LogRecord K V)},
      Reads m rs → Reads (pairs.foldl (fun m p => m.insert p.1 p.2) m)
        (rs ++ pairs.map fun p => .plainAppend p.1 p.2)
  | [], _, _, h => by simpa using h
  | p :: ps, _, _, h => by simpa using foldl_insert ps (h.insert p.1 p.2)

/-- `remove_batch`'s removals from `map` read as its removals appended to the log. -/
theorem foldl_erase :
    ∀ (keys : List K) {m : AList (fun _ : K => V)} {rs : List (LogRecord K V)},
      Reads m rs → Reads (keys.foldl (fun m k => m.erase k) m) (rs ++ keys.map .remove)
  | [], _, _, h => by simpa using h
  | k :: ks, _, _, h => by simpa using foldl_erase ks (h.erase k)

end Reads

namespace AsyncLogFileStore

/-! ### The calls, once their log commit succeeded -/

theorem writeBatch_true (s : AsyncLogFileStore K V) (pairs : List (K × V)) :
    (s.writeBatch pairs true).1 =
      { s with
        logFile := ((pairs.foldl (fun f p => f.append (.plainAppend p.1 p.2)) s.logFile).delayCommit
          true).1
        map := pairs.foldl (fun m p => m.insert p.1 p.2) s.map } := by
  simp [writeBatch, LogFile.delayCommit]

theorem removeBatch_true (s : AsyncLogFileStore K V) (keys : List K) :
    (s.removeBatch keys true).1 =
      { s with
        logFile := ((keys.foldl (fun f k => f.append (.remove k)) s.logFile).delayCommit true).1
        map := keys.foldl (fun m k => m.erase k) s.map } := by
  simp [removeBatch, LogFile.delayCommit]

/-- A `write_batch` whose commit fails leaves its records appended and `map` as it was. -/
theorem writeBatch_false (s : AsyncLogFileStore K V) (pairs : List (K × V)) :
    (s.writeBatch pairs false).1 =
      { s with
        logFile := ((pairs.foldl (fun f p => f.append (.plainAppend p.1 p.2)) s.logFile).delayCommit
          false).1 } := by
  simp [writeBatch, LogFile.delayCommit]

/-- Out of the initial load, a record offered to the loader leaves `map` as it was. -/
theorem visit_of_not_isInit {t : AsyncLogFileStore K V} (h : t.isInit = false) (p : Nat)
    (r : LogRecord K V) : (t.visit p r).map = t.map ∧ (t.visit p r).isInit = false := by
  refine ⟨?_, by rw [isInit_visit, h]⟩
  rw [map_visit]
  split
  · split <;> simp [h]
  · rfl

theorem foldl_visit_of_not_isInit (p : Nat) :
    ∀ (rs : List (LogRecord K V)) {t : AsyncLogFileStore K V}, t.isInit = false →
      (rs.foldl (fun t r => t.visit p r) t).map = t.map ∧
        (rs.foldl (fun t r => t.visit p r) t).isInit = false
  | [], _, h => ⟨rfl, h⟩
  | r :: rs, t, h => by
    obtain ⟨h₁, h₂⟩ := visit_of_not_isInit h p r
    obtain ⟨h₃, h₄⟩ := foldl_visit_of_not_isInit p rs h₂
    exact ⟨h₃.trans h₁, h₄⟩

/-- Out of the initial load, a replay leaves `map` as it was. -/
theorem load_of_not_isInit (f : LogFile K V) (bound : Option Nat) {t : AsyncLogFileStore K V}
    (h : t.isInit = false) : (f.load bound t).map = t.map ∧ (f.load bound t).isInit = false := by
  rw [LogFile.load]
  generalize (f.segments.filter fun seg => bound.all (seg.index ≤ ·)).reverse = segs
  induction segs generalizing t with
  | nil => exact ⟨rfl, h⟩
  | cons seg segs ih =>
    obtain ⟨h₁, h₂⟩ := foldl_visit_of_not_isInit seg.index seg.records.reverse h
    obtain ⟨h₃, h₄⟩ := ih h₂
    exact ⟨h₃.trans h₁, h₄⟩

/-- A replay never changes the log it reads. -/
theorem logFile_load (f : LogFile K V) (bound : Option Nat) (t : AsyncLogFileStore K V) :
    (f.load bound t).logFile = t.logFile := by
  rw [LogFile.load]
  generalize (f.segments.filter fun seg => bound.all (seg.index ≤ ·)).reverse = segs
  induction segs generalizing t with
  | nil => rfl
  | cons seg segs ih =>
    rw [List.foldl_cons, ih, loadSegment]
    induction seg.records.reverse generalizing t with
    | nil => rfl
    | cons r rs ih' => rw [List.foldl_cons, ih', logFile_visit]

@[simp] theorem logFile_opened (f : LogFile K V) : (opened f).logFile = f :=
  logFile_load f none (fresh f)

/-- A table opened over a log reads the log's latest-wins values. -/
theorem read_opened (f : LogFile K V) (k : K) : (opened f).read k = latestValue f.records k :=
  LogFile.lookup_load f k

/-! ### The invariant -/

/-- A store that serves its log: out of the initial load, with nothing buffered, and `map`
the latest-wins reading of the durable records. -/
structure Consistent (s : AsyncLogFileStore K V) : Prop where
  notInit : s.isInit = false
  noPending : s.logFile.pending = []
  reads : Reads s.map s.logFile.records

variable {s : AsyncLogFileStore K V}

/-- The store `LogFileTab::new` opens over a log with nothing buffered serves it. -/
theorem consistent_opened {f : LogFile K V} (hf : f.pending = []) : (opened f).Consistent where
  notInit := rfl
  noPending := by rw [logFile_opened]; exact hf
  reads k := by rw [logFile_opened]; exact read_opened f k

theorem Consistent.writeBatch (h : s.Consistent) (pairs : List (K × V)) :
    (s.writeBatch pairs true).1.Consistent where
  notInit := by rw [writeBatch_true]; exact h.notInit
  noPending := by rw [writeBatch_true, LogFile.pending_appendCommit]; rfl
  reads := by
    rw [writeBatch_true]
    simpa [LogFile.records_appendCommit, h.noPending] using Reads.foldl_insert pairs h.reads

theorem Consistent.removeBatch (h : s.Consistent) (keys : List K) :
    (s.removeBatch keys true).1.Consistent where
  notInit := by rw [removeBatch_true]; exact h.notInit
  noPending := by rw [removeBatch_true, LogFile.pending_appendCommit]; rfl
  reads := by
    rw [removeBatch_true]
    simpa [LogFile.records_appendCommit, h.noPending] using Reads.foldl_erase keys h.reads

/-- A `write` whose commit succeeds keeps the store serving its log, and returns the key's
latest-wins value in the log before it. -/
theorem Consistent.write (h : s.Consistent) (k : K) (v : V) :
    (s.write k v true).1.Consistent ∧
      (s.write k v true).2 = .ok (latestValue s.logFile.records k) := by
  simp only [AsyncLogFileStore.write, LogFile.delayCommit, if_true]
  refine ⟨⟨h.notInit, rfl, ?_⟩, by rw [h.reads k]⟩
  simpa [LogFile.records, LogFile.segments, h.noPending] using h.reads.insert k v

/-- A `remove` whose commit succeeds keeps the store serving its log, and returns the key's
latest-wins value in the log before it. -/
theorem Consistent.remove (h : s.Consistent) (k : K) :
    (s.remove k true).1.Consistent ∧
      (s.remove k true).2 = .ok (latestValue s.logFile.records k) := by
  simp only [AsyncLogFileStore.remove, LogFile.delayCommit, if_true]
  refine ⟨⟨h.notInit, rfl, ?_⟩, by rw [h.reads k]⟩
  simpa [LogFile.records, LogFile.segments, h.noPending] using h.reads.erase k

theorem Consistent.split (h : s.Consistent) :
    ({ s with logFile := s.logFile.split.1 } : AsyncLogFileStore K V).Consistent where
  notInit := h.notInit
  noPending := h.noPending
  reads := by simpa using h.reads

/-- The reset and rescan of `collect` change neither `map` nor the log. -/
theorem Consistent.rescan (h : s.Consistent) : s.rescan.Consistent := by
  let t : AsyncLogFileStore K V :=
    { s with statistics := [], removed := [], tmpMap := [], isStatistics := false }
  obtain ⟨hm, hi⟩ := load_of_not_isInit s.logFile none (t := t) h.notInit
  have hl : (s.logFile.load none t).logFile = s.logFile := logFile_load _ _ t
  exact ⟨hi, by simp only [AsyncLogFileStore.rescan, hl]; exact h.noPending,
    by simp only [AsyncLogFileStore.rescan, hl, hm]; exact h.reads⟩

end AsyncLogFileStore

open AsyncLogFileStore

/-- A table opened over an empty log. -/
def newTable : AsyncLogFileStore Nat Nat :=
  opened ⟨[], ⟨0, []⟩, []⟩

/-! ### The single-key calls -/

/-- **`write` and `remove` return what the log held.**  On a store that serves its log, a
`write` or a `remove` whose commit succeeds returns the key's latest-wins value in the durable
log before it, not only the value `map` held, and leaves a store that serves its log. -/
theorem write_remove_previous {s : AsyncLogFileStore K V} (h : s.Consistent) (k : K) (v : V) :
    ((s.write k v true).1.Consistent ∧
        (s.write k v true).2 = .ok (latestValue s.logFile.records k)) ∧
      (s.remove k true).1.Consistent ∧
        (s.remove k true).2 = .ok (latestValue s.logFile.records k) :=
  ⟨h.write k v, h.remove k⟩

theorem write_remove_previous_newTable :
    ((newTable.write 1 10 true).1.Consistent ∧
        (newTable.write 1 10 true).2 = .ok (latestValue newTable.logFile.records 1)) ∧
      (newTable.remove 1 true).1.Consistent ∧
        (newTable.remove 1 true).2 = .ok (latestValue newTable.logFile.records 1) :=
  write_remove_previous (consistent_opened rfl) 1 10

/-! ### A failed commit -/

/-- **A failed batch is committed by the next one.**  On a store that serves its log, a
`write_batch` of `pairs` whose commit fails, then a `write_batch` of `pairs'` whose commit
succeeds, leave `read` answering as if only `pairs'` had been written, while the log, opened
again, reads as if `pairs` and then `pairs'` had been: the failed records stayed appended and
the second commit made them durable. -/
theorem writeBatch_failed_durable {s : AsyncLogFileStore K V} (h : s.Consistent)
    (pairs pairs' : List (K × V)) (k : K) :
    ((s.writeBatch pairs false).1.writeBatch pairs' true).1.read k =
        (pairs'.foldl (fun m p => m.insert p.1 p.2) s.map).lookup k ∧
      (opened ((s.writeBatch pairs false).1.writeBatch pairs' true).1.logFile).read k =
        ((pairs ++ pairs').foldl (fun m p => m.insert p.1 p.2) s.map).lookup k := by
  refine ⟨by simp [writeBatch_true, writeBatch_false, AsyncLogFileStore.read], ?_⟩
  rw [read_opened, Reads.foldl_insert (pairs ++ pairs') h.reads k, writeBatch_true,
    LogFile.records_appendCommit, writeBatch_false, LogFile.records_appendCommit,
    LogFile.pending_appendCommit, h.noPending]
  simp

theorem writeBatch_failed_durable_newTable :
    ((newTable.writeBatch [(1, 10)] false).1.writeBatch [(2, 20)] true).1.read 1 =
        ([(2, 20)].foldl (fun (m : AList fun _ : Nat => Nat) (p : Nat × Nat) => m.insert p.1 p.2)
          newTable.map).lookup 1 ∧
      (opened ((newTable.writeBatch [(1, 10)] false).1.writeBatch [(2, 20)] true).1.logFile).read
          1 =
        (([(1, 10)] ++ [(2, 20)]).foldl
          (fun (m : AList fun _ : Nat => Nat) (p : Nat × Nat) => m.insert p.1 p.2)
          newTable.map).lookup 1 :=
  writeBatch_failed_durable (consistent_opened rfl) [(1, 10)] [(2, 20)] 1

/-- Key `1`, written by the failed batch, reads as absent, and reopens as `10`. -/
example :
    ((newTable.writeBatch [(1, 10)] false).1.writeBatch [(2, 20)] true).1.read 1 = none ∧
      (opened ((newTable.writeBatch [(1, 10)] false).1.writeBatch [(2, 20)] true).1.logFile).read
          1 = some 10 := by
  decide

end PiDb
