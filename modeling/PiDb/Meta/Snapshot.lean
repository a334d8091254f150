import PiDb.Meta.Registry
import PiDb.Store.Compaction

/-!
# Meta — a fork reads its parent as it was at the fork

`fork_commit_inner` first splits the parent's log (`force_fork_inner`), then registers the
fork with `parent_log_id` the index of the new writable segment; `LogFileTab::new` loads the
parent for the fork up to the segment below it, the segment that was writable at the fork.
Every segment up to there was written before the fork, and the parent's later
`write_batch`, `remove_batch` and splits append only above it: however the parent is used
afterwards, the fork opens as it would have right after the fork.  A `collect` of the parent
is the exception: it deletes closed segments chosen from the parent's statistics alone.

`LogFileTab::new` reads the table's own log under `DB_PATH` and its ancestors' relative to
the working directory, so the parent the fork loads is the one the database writes only when
the two are one directory.

* `LogFile.FixedUpTo`: a log keeps the records another had up to a segment and writes above
  that segment.  Every call on the table but `collect` keeps it (`fixedUpTo_apply`), and so
  does every run of such calls (`fixedUpTo_run`).
* `fork_reads_parent_at_fork`: for every parent store, every run of calls but `collect` the
  parent makes after the fork, and every log of the fork itself, opening the fork gives the
  table it would have given right after the fork.
* `LogFileTab.new_root_chain`: over a fork chain of any depth, `LogFileTab::new` gives each
  key the value of the oldest ancestor whose bounded load holds one, then of the nearer ones,
  then the table's own latest-wins value (`ancestorMaps`: what each ancestor's load holds).
* `forkedParent_collect_drops_inherited`: a `collect` of a parent deletes a segment its fork
  still loads, and the fork then opens without the value it inherited.
-/

namespace PiDb

namespace LogFile

variable {K V : Type}

/-- Up to a segment below the writable one, the records are those of the closed segments. -/
theorem recordsUpTo_of_lt {f : LogFile K V} {b : Nat} (h : b < f.writable.index) :
    f.recordsUpTo b = (f.closed.filter (·.index ≤ b)).flatMap (·.records) := by
  simp [recordsUpTo, segments, List.filter_append, Nat.not_le.mpr h]

/-- `f'` has the records `f` had up to the segment `b`, and writes above `b`. -/
structure FixedUpTo (b : Nat) (f f' : LogFile K V) : Prop where
  recordsUpTo_eq : f'.recordsUpTo b = f.recordsUpTo b
  lt_writable : b < f'.writable.index

namespace FixedUpTo

variable {b : Nat} {f f' : LogFile K V}

/-- A log with the same closed segments and writable index keeps what was fixed. -/
theorem of_closed (h : FixedUpTo b f f') {f'' : LogFile K V} (hc : f''.closed = f'.closed)
    (hw : f''.writable.index = f'.writable.index) : FixedUpTo b f f'' where
  recordsUpTo_eq := by
    rw [recordsUpTo_of_lt (hw ▸ h.lt_writable), hc, ← recordsUpTo_of_lt h.lt_writable,
      h.recordsUpTo_eq]
  lt_writable := hw ▸ h.lt_writable

/-- Appending records and committing them keeps what was fixed. -/
theorem appendCommit {α : Type} (h : FixedUpTo b f f') (g : α → LogRecord K V) (l : List α)
    (ok : Bool) : FixedUpTo b f ((l.foldl (fun f a => f.append (g a)) f').delayCommit ok).1 := by
  refine h.of_closed ?_ ?_ <;> cases ok <;> simp [foldl_append_eq, delayCommit]

/-- A split keeps what was fixed: the closed writable segment lies above `b`. -/
theorem split (h : FixedUpTo b f f') : FixedUpTo b f f'.split.1 where
  recordsUpTo_eq := by
    rw [recordsUpTo_of_lt (f := f'.split.1) (Nat.lt_succ_of_lt h.lt_writable),
      ← h.recordsUpTo_eq, recordsUpTo_of_lt h.lt_writable]
    simp [LogFile.split, Nat.not_le.mpr h.lt_writable]
  lt_writable := Nat.lt_succ_of_lt h.lt_writable

end FixedUpTo

end LogFile

namespace AsyncLogFileStore

variable {K V : Type} [DecidableEq K] {b : Nat} {f : LogFile K V}

open LogFile

/-- Each call on a table but `collect` keeps the log's records up to `b`. -/
theorem fixedUpTo_apply (c : CollectLogs K V) {s : AsyncLogFileStore K V}
    (h : FixedUpTo b f s.logFile) : ∀ op, op ≠ .collect → FixedUpTo b f (s.apply c op).logFile
  | .writeBatch pairs, _ => by
    simpa only [apply, logFile_writeBatch] using h.appendCommit _ pairs true
  | .removeBatch keys, _ => by
    simpa only [apply, logFile_removeBatch] using h.appendCommit _ keys true
  | .split, _ => h.split
  | .collect, hop => absurd rfl hop

/-- **A run of calls but `collect` keeps the log's records up to `b`.** -/
theorem fixedUpTo_run (c : CollectLogs K V) :
    ∀ (ops : List (TabOp K V)) {s : AsyncLogFileStore K V}, (∀ op ∈ ops, op ≠ .collect) →
      FixedUpTo b f s.logFile → FixedUpTo b f (s.run c ops).logFile
  | [], _, _, h => h
  | op :: ops, _, hops, h =>
    fixedUpTo_run c ops (fun o ho => hops o (.tail op ho))
      (fixedUpTo_apply c h op (hops op (.head ops)))

end AsyncLogFileStore

open AsyncLogFileStore

variable {K V M : Type} [DecidableEq K]

/-- Two maps with the same lookups upsert the same values into a root. -/
theorem BinMap.upsertAll_congr (root : BinMap K V) {m m' : AList fun _ : K => V}
    (h : ∀ k, m.lookup k = m'.lookup k) : root.upsertAll m = root.upsertAll m' := by
  ext k : 2
  simp [h]

/-- **A fork reads its parent as it was at the fork.**  The parent's store `s` is split by
`force_fork_inner` and the fork registered with the index the split returns; the parent then
makes any run of calls but `collect`, and the database writes its log under `DB_PATH`, which
is where the fork's open reads it.  Opening the fork then gives exactly the table it would
have given with the parent's log as the split left it. -/
theorem fork_reads_parent_at_fork (disk : Disk K V) (c : CollectLogs K V)
    {s : AsyncLogFileStore K V} {ops : List (TabOp K V)} (hops : ∀ op ∈ ops, op ≠ .collect)
    {parent child : Atom} (hdb : disk.atCwd parent = disk.atDbPath parent)
    (hp : disk.atDbPath parent = (s.run c (.split :: ops)).logFile) (meta : M)
    {pm : TableMetaInfo M} (hpm : pm.tabName = parent) :
    LogFileTab.new disk child [TableMetaInfo.fork parent child meta s.logFile.split.2, pm] =
      LogFileTab.new { disk with atCwd := Function.update disk.atCwd parent s.logFile.split.1 }
        child [TableMetaInfo.fork parent child meta s.logFile.split.2, pm] := by
  have hfix : LogFile.FixedUpTo s.logFile.writable.index s.logFile.split.1
      (s.run c (.split :: ops)).logFile :=
    fixedUpTo_run c ops hops ⟨rfl, Nat.lt_succ_self _⟩
  have hb : s.logFile.split.2 - 1 = s.logFile.writable.index := Nat.add_sub_cancel _ _
  -- the parent's bounded load holds the same values after the run as at the fork
  have hmap : ∀ k, ((disk.atCwd pm.tabName).load (some s.logFile.writable.index)
      (fresh (disk.atCwd pm.tabName))).map.lookup k =
      ((Function.update disk.atCwd parent s.logFile.split.1 pm.tabName).load
        (some s.logFile.writable.index)
        (fresh (Function.update disk.atCwd parent s.logFile.split.1 pm.tabName))).map.lookup k :=
    fun k => by
      rw [LogFile.lookup_load_upTo, LogFile.lookup_load_upTo, hpm, Function.update_same, hdb, hp,
        hfix.recordsUpTo_eq]
  simp only [LogFileTab.new, TableMetaInfo.fork, List.drop, List.head?, Option.bind,
    LogFileTab.loadAncestors, hb]
  rw [BinMap.upsertAll_congr _ hmap]

/-! ### A fork chain of any depth -/

namespace LogFileTab

/-- What the ancestors of a fork chain contribute, nearest first: the map of each one's store
loaded up to the segment below the previous hop's `parent_log_id`, `id`; `none` where that id
is missing, the panic of `log_file_id.unwrap()`. -/
def ancestorMaps (logs : Atom → LogFile K V) :
    List (TableMetaInfo M) → Option Nat → Option (List (AList fun _ : K => V))
  | [], _ => some []
  | _ :: _, none => none
  | tm :: rest, some id =>
    (ancestorMaps logs rest tm.parentLogId).map
      (((logs tm.tabName).load (some (id - 1)) (fresh (logs tm.tabName))).map :: ·)

theorem findSome?_singleton {α β : Type} (f : α → Option β) (a : α) :
    [a].findSome? f = f a := by
  cases h : f a <;> simp [List.findSome?, h]

/-- The fork-chain loop upserts each ancestor's map over the root, so the oldest ancestor
whose map has a key decides it, the root only where no ancestor's map has it. -/
theorem get_loadAncestors (logs : Atom → LogFile K V) :
    ∀ (chain : List (TableMetaInfo M)) (id : Option Nat) (root : BinMap K V),
      (loadAncestors logs chain id root).map (·.get) =
        (ancestorMaps logs chain id).map fun ms k =>
          (ms.reverse.findSome? (·.lookup k)).or (root.get k)
  | [], _, _ => rfl
  | _ :: _, none, _ => rfl
  | tm :: rest, some id, root => by
    rw [loadAncestors, ancestorMaps, get_loadAncestors logs rest, Option.map_map]
    congr 1
    funext ms k
    simp [List.findSome?_append, findSome?_singleton, Option.or_assoc]

/-- **A table opens with its oldest ancestor's values.**  For every fork chain, from the
table itself to its oldest ancestor, `LogFileTab::new` gives each key the value of the oldest
ancestor whose bounded load holds one, then of the next one, and the table's own latest-wins
value only where no ancestor's load holds one; it panics exactly where the loop reads a
missing `parent_log_id`. -/
theorem new_root_chain (disk : Disk K V) (tab : Atom) (chain : List (TableMetaInfo M)) (k : K) :
    (new disk tab chain).map (·.mem.root.get k) =
      (ancestorMaps disk.atCwd (chain.drop 1) (chain.head?.bind (·.parentLogId))).map fun ms =>
        (ms.reverse.findSome? (·.lookup k)).or (latestValue (disk.atDbPath tab).records k) := by
  have h := congrArg (Option.map (· k)) (get_loadAncestors disk.atCwd (chain.drop 1)
    (chain.head?.bind (·.parentLogId)) (BinMap.empty.upsertAll ((disk.atDbPath tab).load none
      (fresh (disk.atDbPath tab))).map))
  simpa [new, Option.map_map, Function.comp_def, LogFile.lookup_load] using h

end LogFileTab

/-- A grandparent `"g"` with `1 ↦ 1` and `2 ↦ 2`, its fork `"p"` with `1 ↦ 10` and
`3 ↦ 30`, and the fork `"c"` of `"p"` with `1 ↦ 100`, `2 ↦ 200`, `3 ↦ 300` and `4 ↦ 400`. -/
def threeLevelLogs : Atom → LogFile Nat Nat
  | "g" => ⟨[], ⟨0, [.plainAppend 1 1, .plainAppend 2 2]⟩, []⟩
  | "p" => ⟨[], ⟨0, [.plainAppend 1 10, .plainAppend 3 30]⟩, []⟩
  | _ => ⟨[], ⟨0, [.plainAppend 1 100, .plainAppend 2 200, .plainAppend 3 300,
      .plainAppend 4 400]⟩, []⟩

/-- `"c"` opens with the grandparent's `1` and `2`, the parent's `3` and only its own `4`. -/
example :
    (LogFileTab.new (.same threeLevelLogs) "c"
        [TableMetaInfo.fork "p" "c" () 1, TableMetaInfo.fork "g" "p" () 1,
          TableMetaInfo.new "g" ()]).map
      (fun t => [t.mem.root.get 1, t.mem.root.get 2, t.mem.root.get 3, t.mem.root.get 4]) =
      some [some 1, some 2, some 30, some 400] := by
  decide

/-- The parent `"p"`: `1 ↦ 10` closed in segment `0`, `2 ↦ 20` in the writable segment `1`. -/
def forkParentLog : LogFile Nat Nat :=
  ⟨[⟨0, [.plainAppend 1 10]⟩], ⟨1, [.plainAppend 2 20]⟩, []⟩

/-- What `"p"` does after the fork: overwrite `1`, split, remove `2`. -/
def parentCalls : List (TabOp Nat Nat) :=
  [.writeBatch [(1, 11)], .split, .removeBatch [2]]

/-- The logs of `"p"` after `parentCalls`, and of the fork `"c"`, which wrote `3 ↦ 30` and
removed `1`. -/
def forkSnapshotLogs : Atom → LogFile Nat Nat := fun n =>
  if n = "p" then ((opened forkParentLog).run .removing (.split :: parentCalls)).logFile
  else ⟨[], ⟨2, [.plainAppend 3 30, .remove 1]⟩, []⟩

theorem fork_reads_parent_at_fork_parentCalls :
    (∀ op ∈ parentCalls, op ≠ .collect) ∧
      (Disk.same forkSnapshotLogs).atCwd "p" = (Disk.same forkSnapshotLogs).atDbPath "p" ∧
      (Disk.same forkSnapshotLogs).atDbPath "p" =
        ((opened forkParentLog).run .removing (.split :: parentCalls)).logFile ∧
      (TableMetaInfo.new "p" ()).tabName = "p" ∧
      LogFileTab.new (.same forkSnapshotLogs) "c"
          [TableMetaInfo.fork "p" "c" () (opened forkParentLog).logFile.split.2,
            TableMetaInfo.new "p" ()] =
        LogFileTab.new { Disk.same forkSnapshotLogs with
            atCwd := Function.update (Disk.same forkSnapshotLogs).atCwd "p"
              (opened forkParentLog).logFile.split.1 } "c"
          [TableMetaInfo.fork "p" "c" () (opened forkParentLog).logFile.split.2,
            TableMetaInfo.new "p" ()] :=
  have hops : ∀ op ∈ parentCalls, op ≠ .collect := by simp [parentCalls]
  have hp : (Disk.same forkSnapshotLogs).atDbPath "p" =
      ((opened forkParentLog).run .removing (.split :: parentCalls)).logFile := rfl
  ⟨hops, rfl, hp, rfl,
    fork_reads_parent_at_fork (Disk.same forkSnapshotLogs) .removing hops rfl hp () rfl⟩

/-- The fork reads `1 ↦ 10` and `2 ↦ 20` as at the fork, although the parent now holds
`1 ↦ 11` and no `2`, and the fork's own `3 ↦ 30`. -/
example :
    (LogFileTab.new (.same forkSnapshotLogs) "c"
        [TableMetaInfo.fork "p" "c" () 2, TableMetaInfo.new "p" ()]).map
      (fun t => (t.mem.root.get 1, t.mem.root.get 2, t.mem.root.get 3)) =
      some (some 10, some 20, some 30) := by
  decide

/-! ### Compacting a parent under its forks -/

/-- The parent `"p"`: `1 ↦ 10` in segment `0`, the one `"c"` inherits, then `1 ↦ 11` and
`1 ↦ 12` in segments `1` and `2`. -/
def forkedParentLog : LogFile Nat Nat :=
  ⟨[⟨0, [.plainAppend 1 10]⟩, ⟨1, [.plainAppend 1 11]⟩], ⟨2, [.plainAppend 1 12]⟩, []⟩

/-- The logs of `"p"`, given by `parent`, and of the fork `"c"`, which wrote nothing. -/
def forkedLogs (parent : LogFile Nat Nat) : Atom → LogFile Nat Nat
  | "p" => parent
  | _ => ⟨[], ⟨1, []⟩, []⟩

/-- The fork chain of `"c"` as `ALL_TABLES` holds it after `createFork`. -/
def forkedChain : List (TableMetaInfo Unit) :=
  [TableMetaInfo.fork "p" "c" () 1, TableMetaInfo.new "p" ()]

/-- `ALL_TABLES` registers `"c"` as forked from `"p"` at `parent_log_id` `1`, so `"c"` loads
segment `0` of `"p"`; yet the statistics of `"p"` send segment `0` to `remove_logs`, and with
it deleted, `"c"` opens without the value it inherited (the load of an ancestor whose bound
segment is missing is modelled as loading the segments left below the bound). -/
theorem forkedParent_collect_drops_inherited :
    ((Registry.empty : Registry Unit).calls createFork).tables.lookup "c" =
        some (TableMetaInfo.fork "p" "c" () 1) ∧
      forkedParentLog.recordsUpTo (1 - 1) = [.plainAppend 1 10] ∧
      selectLogs (AsyncLogFileStore.opened forkedParentLog).statistics = ([0], []) ∧
      (LogFileTab.new (.same (forkedLogs forkedParentLog)) "c" forkedChain).map
          (·.mem.root.get 1) = some (some 10) ∧
      (LogFileTab.new (.same (forkedLogs (forkedParentLog.removeLogs [0]))) "c" forkedChain).map
        (·.mem.root.get 1) = some none :=
  ⟨rfl, rfl, by decide, rfl, rfl⟩

end PiDb
