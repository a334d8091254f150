import PiDb.Store.Open

/-!
# Store — `collect` and the statistics of a table

`LogFileDB::collect` chooses, from a table's statistics (oldest segment first), the
read-only segments to remove (no key of theirs is still live) and to rewrite (their records
repeat keys at a ratio of at least `1.5`), hands both lists to `LogFile::collect_logs`, then
resets the loader state of the store and rescans its log to rebuild the statistics.  The reset
clears `removed`, `tmp_map` and `is_statistics`, but not `writable_path`, which still names the
segment that was writable when the table was opened.

* `selectLogs`, `AsyncLogFileStore.collect`, `rescan`: the selection, the call of
  `collect_logs` and the reset and rescan.  `collect_logs` itself (in `pi_store`) is a
  parameter, with what the spec says of it.
* `rescan_writable_entry`: when the writable segment is no longer the one `writable_path`
  names, as after a split since the table was opened, the rescan of a writable segment with
  records gives it a statistics entry.
* `opened_no_writable_entry`: a table as `LogFileTab::new` opens it has no statistics entry
  for its writable segment, since `is_require` records the first segment the load offers.
* `splitWrites`: a table opened with one record in segment `0`, split, then written three
  times; a `collect` leaves an entry for the writable segment `1`, and the next `collect`
  would hand segment `1` to `collect_logs` (`splitWrites_collect_selects_writable`).
-/

namespace PiDb

/-- Modelled from the spec: `LogFile::collect_logs(remove_logs, collect_logs, ..)`, which
deletes the segments of `remove_logs` and rewrites the live records of `collect_logs`, and
does not touch the writable segment; with both lists empty it changes nothing. -/
structure CollectLogs (K V : Type) where
  run : List Nat → List Nat → LogFile K V → Except Unit (LogFile K V)
  keeps_writable : ∀ rm cl f f', run rm cl f = .ok f' → f'.writable = f.writable
  nil : ∀ f, run [] [] f = .ok f

/-- Modelled from the spec: what `collect_logs` does with `remove_logs`, the deletion of those
of the closed segments. -/
def LogFile.removeLogs {K V : Type} (f : LogFile K V) (removeLogs : List Nat) : LogFile K V :=
  { f with closed := f.closed.filter (·.index ∉ removeLogs) }

/-- The selection loop of `LogFileDB::collect` over a table's statistics, front first: a
segment with no live key goes to `remove_logs`, one with `log_len / key_len ≥ 1.5` to
`collect_logs`, and the first with a lower ratio ends the loop.  `log_len as f64 / key_len as
f64 < 1.5` is `2 * log_len < 3 * key_len`, exactly so for counts below `2 ^ 52`. -/
def selectLogs : List (Nat × Nat × Nat) → List Nat × List Nat
  | [] => ([], [])
  | (path, logLen, keyLen) :: rest =>
    if keyLen = 0 then ((path :: (selectLogs rest).1), (selectLogs rest).2)
    else if 2 * logLen < 3 * keyLen then ([], [])
    else ((selectLogs rest).1, path :: (selectLogs rest).2)

namespace AsyncLogFileStore

variable {K V : Type} [DecidableEq K]

/-- What `collect` does once `collect_logs` succeeded: the statistics, `removed`, `tmp_map`
and `is_statistics` reset, every segment of the log offered to `is_require` and `load`, newest
first (`read_log_paths`, modelled from the spec: every segment of the log), and `tmp_map`
cleared again.  `writable_path` is kept. -/
def rescan (s : AsyncLogFileStore K V) : AsyncLogFileStore K V :=
  let s' := s.logFile.load none
    { s with statistics := [], removed := [], tmpMap := [], isStatistics := false }
  { s' with tmpMap := [] }

/-- The body of the loop of `LogFileDB::collect` for one table. -/
def collect (c : CollectLogs K V) (s : AsyncLogFileStore K V) : Except Unit (AsyncLogFileStore K V) :=
  let sel := selectLogs s.statistics
  (c.run sel.1 sel.2 s.logFile).map fun f => rescan { s with logFile := f }

/-- With nothing selected, `collect` is the reset and rescan of the store. -/
theorem collect_nil (c : CollectLogs K V) {s : AsyncLogFileStore K V}
    (h : selectLogs s.statistics = ([], [])) : s.collect c = .ok s.rescan := by
  simp [collect, h, c.nil, Except.map]

/-! ### What the rescan records -/

/-- A statistics entry for the segment `i`. -/
def HasEntry (i : Nat) (s : AsyncLogFileStore K V) : Prop := ∃ e ∈ s.statistics, e.1 = i

theorem hasEntry_statisticsCount {i : Nat} {s : AsyncLogFileStore K V} (h : HasEntry i s)
    (p : Nat) (k : K) : HasEntry i (s.statisticsCount p k) := by
  obtain ⟨e, he, rfl⟩ := h
  unfold statisticsCount
  split
  · next path logLen keyLen rest hs =>
    rw [hs] at he
    split
    · rcases List.mem_cons.mp he with rfl | he
      · exact ⟨_, List.mem_cons_self _ _, by simp_all⟩
      · exact ⟨e, List.mem_cons_of_mem _ he, rfl⟩
    · exact ⟨e, List.mem_cons_of_mem _ (hs ▸ he), rfl⟩
  · next hs => rw [hs] at he; cases he

/-- The loader's callbacks never drop a statistics entry. -/
theorem hasEntry_visit {i : Nat} {s : AsyncLogFileStore K V} (h : HasEntry i s) (p : Nat)
    (r : LogRecord K V) : HasEntry i (s.visit p r) := by
  have hq : HasEntry i (s.isRequire p r.key).1 := by
    obtain ⟨e, he, hi⟩ := h
    simp only [isRequire]
    split
    · split
      · exact ⟨e, he, hi⟩
      · exact hasEntry_statisticsCount ⟨e, he, hi⟩ p r.key
    · split
      · exact ⟨e, he, hi⟩
      · split
        · exact ⟨e, List.mem_cons_of_mem _ he, hi⟩
        · exact ⟨e, he, hi⟩
  simp only [visit]
  split
  · simp only [load, settle]
    split <;> split <;>
      first
      | exact hasEntry_statisticsCount hq p r.key
      | exact hq
  · exact hq

theorem hasEntry_foldl_visit {i : Nat} (p : Nat) :
    ∀ (l : List (LogRecord K V)) {s : AsyncLogFileStore K V}, HasEntry i s →
      HasEntry i (l.foldl (fun s r => s.visit p r) s)
  | [], _, h => h
  | r :: l, _, h => hasEntry_foldl_visit p l (hasEntry_visit h p r)

theorem hasEntry_foldl_loadSegment {i : Nat} :
    ∀ (segs : List (Segment K V)) {s : AsyncLogFileStore K V}, HasEntry i s →
      HasEntry i (segs.foldl loadSegment s)
  | [], _, h => h
  | _ :: segs, _, h => hasEntry_foldl_loadSegment segs (hasEntry_foldl_visit _ _ h)

/-- Out of statistics mode, the first record of a segment other than the recorded writable one
starts that segment's entry. -/
theorem hasEntry_visit_first {s : AsyncLogFileStore K V} {p : Nat}
    (hs : s.isStatistics = false) (hw : s.writablePath = some p) {i : Nat} (hi : p ≠ i)
    (r : LogRecord K V) : HasEntry i (s.visit i r) := by
  have hq : HasEntry i (s.isRequire i r.key).1 := by
    simp only [isRequire, hs, hw, Bool.false_eq_true, if_false, ne_eq, hi, not_false_eq_true,
      if_true]
    exact ⟨_, List.mem_cons_self _ _, rfl⟩
  simp only [visit]
  split
  · simp only [load, settle]
    split <;> split <;>
      first
      | exact hasEntry_statisticsCount hq i r.key
      | exact hq
  · exact hq

/-- **A collect after a split records the writable segment.**  When `writable_path` names a
segment other than the writable one and the writable segment holds records, the rescan of
`collect` leaves a statistics entry for the writable segment. -/
theorem rescan_writable_entry {s : AsyncLogFileStore K V} {p : Nat}
    (hw : s.writablePath = some p) (hi : p ≠ s.logFile.writable.index)
    (hr : s.logFile.writable.records ≠ []) : HasEntry s.logFile.writable.index s.rescan := by
  obtain ⟨r, l, hl⟩ : ∃ r l, s.logFile.writable.records.reverse = r :: l :=
    match h : s.logFile.writable.records.reverse with
    | [] => absurd (List.reverse_eq_nil_iff.mp h) hr
    | r :: l => ⟨r, l, rfl⟩
  simp only [rescan, LogFile.load, LogFile.segments, Option.all_none, List.filter_true,
    List.reverse_append, List.reverse_cons, List.reverse_nil, List.nil_append,
    List.singleton_append, List.foldl_cons, loadSegment, hl]
  exact hasEntry_foldl_loadSegment _ (hasEntry_foldl_visit _ _
    (hasEntry_visit_first (by rfl) (by exact hw) hi r))

/-- A store opened on segment `0` whose log has since been split and written once. -/
def splitOnce : AsyncLogFileStore Nat Nat :=
  { removed := [], map := ∅, logFile := ⟨[⟨0, [.plainAppend 1 10]⟩], ⟨1, [.plainAppend 1 11]⟩, []⟩,
    tmpMap := [], writablePath := some 0, isStatistics := false, isInit := false,
    statistics := [] }

theorem rescan_writable_entry_splitOnce :
    splitOnce.writablePath = some 0 ∧ 0 ≠ splitOnce.logFile.writable.index ∧
      splitOnce.logFile.writable.records ≠ [] ∧
      HasEntry splitOnce.logFile.writable.index splitOnce.rescan :=
  ⟨rfl, by decide, by decide, rescan_writable_entry (p := 0) rfl (by decide) (by decide)⟩

end AsyncLogFileStore

/-- One call on a table: a commit's `write_batch` or `remove_batch`, every log write
succeeding, a split of its log (`force_split`, `force_fork`, or the log's own), or a
`collect`; a `collect` whose `collect_logs` fails leaves the store as it was. -/
inductive TabOp (K V : Type) where
  | writeBatch (pairs : List (K × V))
  | removeBatch (keys : List K)
  | split
  | collect

namespace AsyncLogFileStore

variable {K V : Type} [DecidableEq K]

/-- The store after one call. -/
def apply (c : CollectLogs K V) (s : AsyncLogFileStore K V) : TabOp K V → AsyncLogFileStore K V
  | .writeBatch pairs => (s.writeBatch pairs true).1
  | .removeBatch keys => (s.removeBatch keys true).1
  | .split => { s with logFile := s.logFile.split.1 }
  | .collect =>
    match s.collect c with
    | .ok s' => s'
    | .error _ => s

/-- The store after a run of calls. -/
def run (c : CollectLogs K V) (s : AsyncLogFileStore K V) (ops : List (TabOp K V)) :
    AsyncLogFileStore K V :=
  ops.foldl (apply c) s

theorem run_concat_collect (c : CollectLogs K V) (s : AsyncLogFileStore K V)
    (ops : List (TabOp K V)) : s.run c (ops ++ [.collect]) = (s.run c ops).apply c .collect := by
  simp [run, List.foldl_append]

theorem apply_collect_nil (c : CollectLogs K V) {s : AsyncLogFileStore K V}
    (h : selectLogs s.statistics = ([], [])) : s.apply c .collect = s.rescan := by
  simp [apply, collect_nil c h]

/-- The store of a table `LogFileTab::new` opens over its log `f`. -/
def opened (f : LogFile K V) : AsyncLogFileStore K V :=
  { f.load none (fresh f) with isInit := false }

/-! ### What the open records -/

/-- A count of a record of segment `p` adds no entry for another segment. -/
theorem not_hasEntry_statisticsCount {w p : Nat} {s : AsyncLogFileStore K V}
    (h : ¬HasEntry w s) (hp : p ≠ w) (k : K) : ¬HasEntry w (s.statisticsCount p k) := by
  rintro ⟨e, he, rfl⟩
  unfold statisticsCount at he
  split at he
  · next path logLen keyLen rest hs =>
    split at he
    · rcases List.mem_cons.mp he with rfl | he
      · exact hp ‹path = p›.symm
      · exact h ⟨e, hs ▸ List.mem_cons_of_mem _ he, rfl⟩
    · rcases List.mem_cons.mp he with rfl | he
      · exact hp rfl
      · exact h ⟨e, he, rfl⟩
  · rcases List.mem_cons.mp he with rfl | he
    · exact hp rfl
    · exact h ⟨e, he, rfl⟩

/-- A record of segment `p` offered to the loader adds no entry for another segment. -/
theorem not_hasEntry_visit {w p : Nat} {s : AsyncLogFileStore K V}
    (h : ¬HasEntry w s) (hp : p ≠ w) (r : LogRecord K V) : ¬HasEntry w (s.visit p r) := by
  have hq : ¬HasEntry w (s.isRequire p r.key).1 := by
    simp only [isRequire]
    split
    · split
      · exact h
      · exact not_hasEntry_statisticsCount h hp r.key
    · split
      · exact h
      · split
        · rintro ⟨e, he, rfl⟩
          rcases List.mem_cons.mp he with rfl | he
          · exact hp rfl
          · exact h ⟨e, he, rfl⟩
        · exact h
  simp only [visit]
  split
  · simp only [load, settle]
    split <;> split <;>
      first
      | exact not_hasEntry_statisticsCount hq hp r.key
      | exact hq
  · exact hq
theorem not_hasEntry_foldl_visit {w p : Nat} (hp : p ≠ w) :
    ∀ (l : List (LogRecord K V)) {s : AsyncLogFileStore K V}, ¬HasEntry w s →
      ¬HasEntry w (l.foldl (fun s r => s.visit p r) s)
  | [], _, h => h
  | r :: l, _, h => not_hasEntry_foldl_visit hp l (not_hasEntry_visit h hp r)

theorem not_hasEntry_foldl_loadSegment {w : Nat} :
    ∀ (segs : List (Segment K V)), (∀ seg ∈ segs, seg.index ≠ w) →
      ∀ {s : AsyncLogFileStore K V}, ¬HasEntry w s → ¬HasEntry w (segs.foldl loadSegment s)
  | [], _, _, h => h
  | seg :: segs, hi, _, h =>
    not_hasEntry_foldl_loadSegment segs (fun s hs => hi s (List.mem_cons_of_mem _ hs))
      (not_hasEntry_foldl_visit (hi seg (List.mem_cons_self _ _)) _ h)

/-- Out of statistics mode, with no writable segment recorded yet or `w` recorded, a record of
`w` records `w` as the writable segment and counts nothing. -/
theorem visit_writable {w : Nat} {s : AsyncLogFileStore K V} (hs : s.isStatistics = false)
    (hst : s.statistics = []) (hw : s.writablePath = none ∨ s.writablePath = some w)
    (r : LogRecord K V) :
    (s.visit w r).isStatistics = false ∧ (s.visit w r).statistics = [] ∧
      (s.visit w r).writablePath = some w := by
  have hq : (s.isRequire w r.key).1.isStatistics = false ∧
      (s.isRequire w r.key).1.statistics = [] ∧ (s.isRequire w r.key).1.writablePath = some w := by
    rcases hw with hw | hw <;> simp [isRequire, hs, hw, hst]
  simp only [visit]
  split
  · obtain ⟨h₁, h₂, h₃⟩ := hq
    simp only [load, h₁, Bool.false_eq_true, if_false, settle]
    split <;> exact ⟨rfl, h₂, h₃⟩
  · exact hq

theorem visit_writable_foldl {w : Nat} :
    ∀ (l : List (LogRecord K V)) {s : AsyncLogFileStore K V}, s.isStatistics = false →
      s.statistics = [] → (s.writablePath = none ∨ s.writablePath = some w) →
      (l.foldl (fun s r => s.visit w r) s).isStatistics = false ∧
        (l.foldl (fun s r => s.visit w r) s).statistics = []
  | [], _, hs, hst, _ => ⟨hs, hst⟩
  | r :: l, _, hs, hst, hw =>
    have h := visit_writable hs hst hw r
    visit_writable_foldl l h.1 h.2.1 (.inr h.2.2)

/-- **An opened table has no statistics entry for its writable segment.**  `is_require`
records the first segment the load offers, the writable one, and counts none of its
records; the entries it starts are those of the closed segments. -/
theorem opened_no_writable_entry (f : LogFile K V)
    (hidx : ∀ seg ∈ f.closed, seg.index ≠ f.writable.index) :
    ¬HasEntry f.writable.index (opened f) := by
  have hw : (loadSegment (fresh f) f.writable).statistics = [] :=
    (visit_writable_foldl _ rfl rfl (.inl rfl)).2
  simp only [opened, LogFile.load, LogFile.segments, Option.all_none, List.filter_true,
    List.reverse_append, List.reverse_cons, List.reverse_nil, List.nil_append,
    List.singleton_append, List.foldl_cons]
  refine not_hasEntry_foldl_loadSegment _ (by simpa using hidx) ?_
  rintro ⟨e, he, -⟩
  rw [hw] at he
  cases he

theorem opened_no_writable_entry_splitOnce :
    (∀ seg ∈ splitOnce.logFile.closed, seg.index ≠ splitOnce.logFile.writable.index) ∧
      ¬HasEntry splitOnce.logFile.writable.index (opened splitOnce.logFile) :=
  ⟨by decide, opened_no_writable_entry _ (by decide)⟩

end AsyncLogFileStore

/-- A table whose log holds one record of `1`, in its writable segment `0`. -/
def splitLog : LogFile Nat Nat := ⟨[], ⟨0, [.plainAppend 1 10]⟩, []⟩

/-- A split, then three commits writing `1`. -/
def splitWrites : List (TabOp Nat Nat) :=
  [.split, .writeBatch [(1, 11)], .writeBatch [(1, 12)], .writeBatch [(1, 13)]]

/-- Whatever `collect_logs` does, a `collect` after `splitWrites` leaves an entry for the
writable segment `1`, and the selection of the next `collect` hands segment `1` to
`collect_logs`. -/
theorem splitWrites_collect_selects_writable (c : CollectLogs Nat Nat) :
    let s : AsyncLogFileStore Nat Nat :=
      (AsyncLogFileStore.opened splitLog).run c (splitWrites ++ [.collect])
    s.logFile.writable.index = 1 ∧ s.statistics = [(0, 1, 0), (1, 3, 1)] ∧
      selectLogs s.statistics = ([0], [1]) := by
  have hsel : selectLogs ((AsyncLogFileStore.opened splitLog).run c splitWrites).statistics =
      ([], []) := rfl
  dsimp only
  rw [AsyncLogFileStore.run_concat_collect, AsyncLogFileStore.apply_collect_nil c hsel]
  simp only [AsyncLogFileStore.run, splitWrites, List.foldl_cons, List.foldl_nil,
    AsyncLogFileStore.apply]
  decide

end PiDb
