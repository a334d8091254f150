import PiDb.Txn.Writes
import PiDb.Store.Open

/-!
# Transactions — reopening a table after its commits

A commit writes its journal to the log as the `PlainAppend` records of `write_batch`
followed by the `Remove` records of `remove_batch`.  Replayed, these records do what the
journal's `Write` entries do, in whatever order `commit_inner` iterated the journal, since
a journal holds one entry per key.  So a table that is opened over its log, runs its
transactions, and is opened again over the log its commits extended, comes back with the
root it had.

* `replay_commitRecords`, `replay_flatMap_commitRecords`: the records of one commit, and of
  a sequence of commits, replay to the journals applied.
* `run_reopen_root`: a table with no ancestor, opened by `LogFileTab::new`, run through any
  schedule its callers keep and stopped after any number of calls, then reopened over its
  log followed by the records of its commits, opens with the root the running table had.
-/

namespace PiDb

namespace BinMap

variable {K V : Type} [DecidableEq K]

theorem get_replay_removes (m : BinMap K V) (ks : List K) (k : K) :
    (m.replay (ks.map .remove)).get k = if k ∈ ks then none else m.get k := by
  induction ks generalizing m with
  | nil => simp
  | cons k' ks ih =>
    by_cases h : k = k'
    · subst h; simp [ih]
    · simp [ih, h]

theorem get_replay_appends_of_not_mem (m : BinMap K V) {ps : List (K × V)} {k : K}
    (hk : k ∉ ps.map Prod.fst) :
    (m.replay (ps.map fun p => .plainAppend p.1 p.2)).get k = m.get k := by
  induction ps generalizing m with
  | nil => rfl
  | cons p ps ih =>
    simp only [List.map_cons, List.mem_cons, not_or] at hk
    simp [ih _ hk.2, hk.1]

/-- Among appends of distinct keys, the append of `k` decides `k`. -/
theorem get_replay_appends_of_mem (m : BinMap K V) {ps : List (K × V)}
    (hn : (ps.map Prod.fst).Nodup) {k : K} {v : V} (hk : (k, v) ∈ ps) :
    (m.replay (ps.map fun p => .plainAppend p.1 p.2)).get k = some v := by
  induction ps generalizing m with
  | nil => cases hk
  | cons p ps ih =>
    simp only [List.map_cons, List.nodup_cons] at hn
    simp only [List.map_cons, replay_cons]
    rcases List.mem_cons.mp hk with rfl | hk
    · simp [get_replay_appends_of_not_mem _ hn.1]
    · exact ih _ hn.2 hk

end BinMap

/-! ### The records of a commit -/

variable {K V : Type} [DecidableEq K]

theorem mem_insertPairs {j : Journal K V} {k : K} {v : V} :
    (k, v) ∈ insertPairs j ↔ j.lookup k = some (.write (some v)) := by
  rw [← Option.mem_def, AList.mem_lookup_iff]
  simp only [insertPairs, List.mem_filterMap]
  constructor
  · rintro ⟨⟨k', _ | _ | v'⟩, he, hg⟩ <;> simp at hg
    obtain ⟨rfl, rfl⟩ := hg
    exact he
  · exact fun h => ⟨_, h, rfl⟩

theorem mem_deleteKeys {j : Journal K V} {k : K} :
    k ∈ deleteKeys j ↔ j.lookup k = some (.write none) := by
  rw [← Option.mem_def, AList.mem_lookup_iff]
  simp only [deleteKeys, List.mem_filterMap]
  constructor
  · rintro ⟨⟨k', _ | _ | v'⟩, he, hg⟩ <;> simp at hg
    subst hg
    exact he
  · exact fun h => ⟨_, h, rfl⟩

omit [DecidableEq K] in
/-- `write_batch` appends each key at most once. -/
theorem nodup_insertPairs_keys (j : Journal K V) : ((insertPairs j).map Prod.fst).Nodup := by
  rw [List.Nodup, List.pairwise_map, insertPairs, List.pairwise_filterMap]
  refine (List.nodupKeys_iff_pairwise.mp j.nodupKeys).imp fun {a a'} h b hb b' hb' => ?_
  obtain ⟨k, _ | _ | v⟩ := a <;> obtain ⟨k', _ | _ | v'⟩ := a' <;> simp at hb hb'
  subst hb hb'
  exact h

/-- **A commit's records replay to its journal.**  The appends of `write_batch` followed by
the removes of `remove_batch` leave any map as the journal's `Write` entries do. -/
theorem replay_commitRecords (m : BinMap K V) (j : Journal K V) :
    m.replay (commitRecords j) = m.applyWrites j := by
  ext k : 2
  have hkeys : k ∈ (insertPairs j).map Prod.fst ↔ ∃ v, j.lookup k = some (.write (some v)) := by
    simp [mem_insertPairs]
  rw [commitRecords, appendRecords, BinMap.replay_append, BinMap.get_replay_removes,
    BinMap.get_applyWrites, Journal.over]
  rcases hl : j.lookup k with _ | _ | _ | v
  · -- a key the journal does not hold
    rw [if_neg (by simp [mem_deleteKeys, hl]),
      BinMap.get_replay_appends_of_not_mem _ (by simp [hkeys, hl])]
  · -- a `Read`
    rw [if_neg (by simp [mem_deleteKeys, hl]),
      BinMap.get_replay_appends_of_not_mem _ (by simp [hkeys, hl])]
    rfl
  · -- a `Write(None)`: removed
    rw [if_pos (mem_deleteKeys.mpr hl)]
    rfl
  · -- a `Write(Some v)`: appended
    rw [if_neg (by simp [mem_deleteKeys, hl]),
      BinMap.get_replay_appends_of_mem _ (nodup_insertPairs_keys j) (mem_insertPairs.mpr hl)]
    rfl

theorem replay_flatMap_commitRecords (m : BinMap K V) (js : List (Journal K V)) :
    m.replay (js.flatMap commitRecords) = m.applyJournals js := by
  induction js generalizing m with
  | nil => rfl
  | cons j js ih =>
    rw [List.flatMap_cons, BinMap.replay_append, replay_commitRecords, ih]
    rfl

/-! ### Reopening -/

variable [DecidableEq V] (tryPrepare : TryPrepare K V) (ptrEq : PtrEq K V)

/-- **A reopened table holds the root the table had.**  Open a table with no ancestor over
its log, run any schedule its callers keep and stop after any number `n` of calls: a table
opened by `LogFileTab::new` over that log followed by the records the commits appended holds
exactly the root of the running table. -/
theorem run_reopen_root {disk disk' : Disk K V} {tab : Atom} {t₀ : LogFileTab K V}
    (h₀ : LogFileTab.new disk tab ([] : List (TableMetaInfo Unit)) = some t₀)
    {acts : List (Action K V)} (hd : disciplined [] [] acts = true) (n : Nat)
    (hlog : (disk'.atDbPath tab).records = (disk.atDbPath tab).records ++
      ((TabSys.opened t₀.mem.root).run tryPrepare ptrEq (acts.take n)).1.log) :
    ∃ t, LogFileTab.new disk' tab ([] : List (TableMetaInfo Unit)) = some t ∧
      t.mem.root = ((TabSys.opened t₀.mem.root).run tryPrepare ptrEq (acts.take n)).1.tab.root := by
  obtain ⟨_, _, h⟩ := (CommitInv.opened t₀.mem.root).run tryPrepare ptrEq (disciplined_take hd n)
  refine ⟨_, rfl, ?_⟩
  rw [LogFileTab.root_new (M := Unit) none rfl, hlog, BinMap.replay_append,
    ← LogFileTab.root_new (M := Unit) none h₀, h.log, h.root, List.nil_append,
    replay_flatMap_commitRecords]

/-- An empty log, for every table. -/
def emptyLogs : Atom → LogFile Nat Nat := fun _ => ⟨[], ⟨0, []⟩, []⟩

/-- The log of `"t"` after `twoWriters`: the append of each of its two commits. -/
def twoWritersLogs : Atom → LogFile Nat Nat :=
  fun _ => ⟨[], ⟨0, [.plainAppend 10 100, .plainAppend 20 200]⟩, []⟩

theorem run_reopen_root_twoWriters :
    ∃ t₀ : LogFileTab Nat Nat,
      LogFileTab.new (.same emptyLogs) "t" ([] : List (TableMetaInfo Unit)) = some t₀ ∧
      disciplined [] [] twoWriters = true ∧
      (twoWritersLogs "t").records = (emptyLogs "t").records ++
        ((TabSys.opened t₀.mem.root).run tryPrepareSpec PtrEq.never (twoWriters.take 9)).1.log ∧
      ∃ t, LogFileTab.new (.same twoWritersLogs) "t" ([] : List (TableMetaInfo Unit)) = some t ∧
        t.mem.root =
          ((TabSys.opened t₀.mem.root).run tryPrepareSpec PtrEq.never
            (twoWriters.take 9)).1.tab.root :=
  ⟨_, rfl, by decide, rfl, run_reopen_root tryPrepareSpec PtrEq.never rfl (by decide) 9 rfl⟩

end PiDb
