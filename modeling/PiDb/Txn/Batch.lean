import PiDb.Core.Meta
import PiDb.Txn.Reopen

/-!
# Transactions — batched reads and writes

`RefLogFileTxn::query` and `RefLogFileTxn::modify` are the calls a transaction's user makes:
each walks its array of `TabKV`, `query` reading every key by `FileMemTxn::get` into a copy of
its entry, `modify` writing every entry by `FileMemTxn::upsert`, or by `FileMemTxn::delete`
when its value is `None`.  Neither `upsert` nor `delete` fails, so `modify` never returns
early, and `query` always returns `Ok`.

* `query_modify`: a transaction reads back what it modified: after any `modify`, each key a
  `query` asks for has the value of the last entry of the array for that key, and the value
  it had before where the array has none.
* `TabSys.run_calls_actions`: a batch is its per-key calls: the `get`, `upsert` and `delete`
  calls of `TabSys` that a run of `query` and `modify` calls makes leave the transaction as
  the batches do and the rest of the table as it was, so what is proved of schedules of
  per-key calls holds of batched ones.
* `calls_commitRecords_replay`: for every transaction begun on a table and every run of
  `query` and `modify` calls on it, the records a commit of its journal appends to the log,
  replayed over the root it began on, give exactly its working root: what the transaction
  wrote is what its commit logs.
-/

namespace PiDb

/-- Modelled from the spec: `TabKV`, a key of a table with a value, as `query` and `modify`
take and `query` returns it; a `value` of `None` asks `modify` for a removal. -/
structure TabKV (K V : Type) where
  ware : Atom
  tab : Atom
  key : K
  index : Nat
  value : Option V
  deriving DecidableEq, Repr

namespace FileMemTxn

variable {K V : Type} [DecidableEq K]

/-- `RefLogFileTxn::query`: each key read by `get`, in order, into a copy of its entry. -/
def query (t : FileMemTxn K V) : List (TabKV K V) → FileMemTxn K V × List (TabKV K V)
  | [] => (t, [])
  | kv :: arr =>
    let r := t.get kv.key
    let rest := r.1.query arr
    (rest.1, { kv with value := r.2 } :: rest.2)

/-- One entry of `RefLogFileTxn::modify`: `delete` when its value is `None`, `upsert`
otherwise. -/
def modifyEntry (t : FileMemTxn K V) (kv : TabKV K V) : FileMemTxn K V :=
  match kv.value with
  | none => t.delete kv.key
  | some v => t.upsert kv.key v

/-- `RefLogFileTxn::modify`: every entry, in order. -/
def modify (t : FileMemTxn K V) (arr : List (TabKV K V)) : FileMemTxn K V :=
  arr.foldl modifyEntry t

/-! ### One key -/

@[simp] theorem root_get (t : FileMemTxn K V) (key : K) : (t.get key).1.root = t.root := by
  unfold get; split <;> (try split) <;> (try split) <;> rfl

@[simp] theorem old_get (t : FileMemTxn K V) (key : K) : (t.get key).1.old = t.old := by
  unfold get; split <;> (try split) <;> (try split) <;> rfl

@[simp] theorem value_get (t : FileMemTxn K V) (key : K) : (t.get key).2 = t.root.get key := by
  unfold get; split <;> simp_all

/-- An entry leaves its value at its key, `None` for a removal, and journals it as a write. -/
@[simp] theorem get_root_modifyEntry (t : FileMemTxn K V) (kv : TabKV K V) (k : K) :
    (t.modifyEntry kv).root.get k = if k = kv.key then kv.value else t.root.get k := by
  unfold modifyEntry; split <;> simp [upsert, delete, *]

@[simp] theorem rwlog_modifyEntry (t : FileMemTxn K V) (kv : TabKV K V) :
    (t.modifyEntry kv).rwlog = t.rwlog.insert kv.key (.write kv.value) := by
  unfold modifyEntry; split <;> simp [upsert, delete, *]

@[simp] theorem old_modifyEntry (t : FileMemTxn K V) (kv : TabKV K V) :
    (t.modifyEntry kv).old = t.old := by
  unfold modifyEntry; split <;> rfl

theorem modifyEntry_applies {t : FileMemTxn K V} (h : t.Applies t.rwlog) (kv : TabKV K V) :
    (t.modifyEntry kv).Applies (t.modifyEntry kv).rwlog := by
  unfold modifyEntry; split
  · exact delete_applies h kv.key
  · exact upsert_applies h kv.key _

/-! ### Whole arrays -/

/-- `query` reads the working root, which it leaves as it was, and keeps the snapshot. -/
theorem query_eq (t : FileMemTxn K V) :
    ∀ arr : List (TabKV K V),
      (t.query arr).2 = arr.map (fun kv => { kv with value := t.root.get kv.key }) ∧
        (t.query arr).1.root = t.root ∧ (t.query arr).1.old = t.old
  | [] => ⟨rfl, rfl, rfl⟩
  | kv :: arr => by
    obtain ⟨h₁, h₂, h₃⟩ := query_eq (t.get kv.key).1 arr
    simp only [query, List.map_cons, value_get, h₁, h₂, h₃, root_get, old_get, and_self]

theorem query_applies {t : FileMemTxn K V} (h : t.Applies t.rwlog) :
    ∀ arr : List (TabKV K V), (t.query arr).1.Applies (t.query arr).1.rwlog
  | [] => h
  | kv :: arr => query_applies (t := (t.get kv.key).1) (get_applies h kv.key) arr

/-- The last entry of `arr` for `k`, if any. -/
def lastEntry (arr : List (TabKV K V)) (k : K) : Option (TabKV K V) :=
  arr.reverse.find? (·.key = k)

@[simp] theorem lastEntry_nil (k : K) : lastEntry ([] : List (TabKV K V)) k = none := rfl

@[simp] theorem lastEntry_concat (arr : List (TabKV K V)) (kv : TabKV K V) (k : K) :
    lastEntry (arr ++ [kv]) k = if kv.key = k then some kv else lastEntry arr k := by
  by_cases h : kv.key = k <;> simp [lastEntry, h]

/-- After `modify`, a key holds the value of its last entry, or what it held before. -/
theorem root_modify (t : FileMemTxn K V) (arr : List (TabKV K V)) (k : K) :
    (t.modify arr).root.get k = ((lastEntry arr k).map (·.value)).getD (t.root.get k) := by
  induction arr using List.reverseRecOn with
  | nil => rfl
  | append_singleton arr kv ih =>
    rw [modify, List.foldl_concat, get_root_modifyEntry, ← modify, ih, lastEntry_concat]
    by_cases h : kv.key = k
    · simp [h]
    · simp [h, Ne.symm h]

theorem old_modify (t : FileMemTxn K V) (arr : List (TabKV K V)) :
    (t.modify arr).old = t.old := by
  induction arr generalizing t with
  | nil => rfl
  | cons kv arr ih => exact (ih (t.modifyEntry kv)).trans (old_modifyEntry t kv)

theorem modify_applies {t : FileMemTxn K V} (h : t.Applies t.rwlog) (arr : List (TabKV K V)) :
    (t.modify arr).Applies (t.modify arr).rwlog := by
  induction arr generalizing t with
  | nil => exact h
  | cons kv arr ih => exact ih (modifyEntry_applies h kv)

/-- **A transaction reads back what it modified.**  After `modify arr`, a `query` returns each
of its entries with the value of the last entry of `arr` for that key, `None` where that
entry asked for a removal, and the value the transaction read before where `arr` has none. -/
theorem query_modify (t : FileMemTxn K V) (arr qs : List (TabKV K V)) :
    ((t.modify arr).query qs).2 = qs.map fun q =>
      { q with value := ((lastEntry arr q.key).map (·.value)).getD (t.root.get q.key) } := by
  simp only [(query_eq _ qs).1, root_modify]

/-- The entries `1 ↦ 10`, `2 ↦ 20` and a removal of `1` read back as `1` absent, `2 ↦ 20`,
and the `3 ↦ 30` the table held. -/
example :
    (((new ⟨∅, BinMap.empty.upsert 3 30⟩ 0 true).modify
        [⟨"w", "t", 1, 0, some 10⟩, ⟨"w", "t", 2, 0, some 20⟩,
          ⟨"w", "t", 1, 0, none⟩]).query
        [⟨"w", "t", 1, 0, none⟩, ⟨"w", "t", 2, 0, none⟩, ⟨"w", "t", 3, 0, none⟩]).2.map
      (·.value) = [none, some 20, some (30 : Nat)] := by
  decide

/-! ### Runs of calls -/

/-- A call of `RefLogFileTxn` that reads or writes keys. -/
inductive TxnCall (K V : Type) where
  | query (arr : List (TabKV K V))
  | modify (arr : List (TabKV K V))

/-- The transaction after one call. -/
def call (t : FileMemTxn K V) : TxnCall K V → FileMemTxn K V
  | .query arr => (t.query arr).1
  | .modify arr => t.modify arr

/-- The transaction after a run of calls. -/
def calls (t : FileMemTxn K V) (cs : List (TxnCall K V)) : FileMemTxn K V :=
  cs.foldl call t

theorem call_applies {t : FileMemTxn K V} (h : t.Applies t.rwlog) :
    ∀ c : TxnCall K V, (t.call c).Applies (t.call c).rwlog
  | .query arr => query_applies h arr
  | .modify arr => modify_applies h arr

theorem old_call (t : FileMemTxn K V) : ∀ c : TxnCall K V, (t.call c).old = t.old
  | .query arr => (query_eq t arr).2.2
  | .modify arr => old_modify t arr

/-- A run of calls keeps the snapshot, and the working root the snapshot with the journal
applied. -/
theorem calls_applies :
    ∀ (cs : List (TxnCall K V)) {t : FileMemTxn K V}, t.Applies t.rwlog →
      (t.calls cs).Applies (t.calls cs).rwlog ∧ (t.calls cs).old = t.old
  | [], _, h => ⟨h, rfl⟩
  | c :: cs, t, h => by
    obtain ⟨ha, ho⟩ := calls_applies cs (call_applies h c)
    exact ⟨ha, ho.trans (old_call t c)⟩

/-- **What a transaction wrote is what its commit logs.**  For a transaction begun on a table
and any run of `query` and `modify` calls on it, the records a commit of its journal
appends (`insert_pairs` by `write_batch`, then `delete_keys` by `remove_batch`), replayed over
the root the transaction began on, give its working root. -/
theorem calls_commitRecords_replay (tab : MemeryTab K V) (id : Guid) (w : Bool)
    (cs : List (TxnCall K V)) :
    tab.root.replay (commitRecords ((new tab id w).calls cs).rwlog) =
      ((new tab id w).calls cs).root := by
  obtain ⟨ha, ho⟩ := calls_applies cs (applies_new tab id w)
  rw [replay_commitRecords, ha, ho]
  rfl

/-! ### A batch is its per-key calls -/

/-- The call of `TabSys` that `modify` makes for one entry of the transaction `id`. -/
def TxnCall.entryAction (id : Guid) (kv : TabKV K V) : Action K V :=
  match kv.value with
  | none => .delete id kv.key
  | some v => .upsert id kv.key v

/-- The per-key calls of `TabSys` a call makes for the transaction `id`: a `get` for each
entry of a `query`, a `delete` or an `upsert` for each entry of a `modify`. -/
def TxnCall.actions (id : Guid) : TxnCall K V → List (Action K V)
  | .query arr => arr.map fun kv => .get id kv.key
  | .modify arr => arr.map (TxnCall.entryAction id)

end FileMemTxn

namespace TabSys

variable {K V : Type}

/-- `s'` is `s` with the transaction `id` now `t`: the table, the log and every other
transaction are as they were. -/
structure Replaces (s s' : TabSys K V) (id : Guid) (t : FileMemTxn K V) : Prop where
  tab_eq : s'.tab = s.tab
  log_eq : s'.log = s.log
  lookup_self : s'.txns.lookup id = some t
  lookup_other : ∀ id', id' ≠ id → s'.txns.lookup id' = s.txns.lookup id'

variable {s : TabSys K V} {id : Guid}

theorem Replaces.setTxn {s' : TabSys K V} {t : FileMemTxn K V} (h : Replaces s s' id t)
    (t' : FileMemTxn K V) : Replaces s (s'.setTxn id t') id t' where
  tab_eq := h.tab_eq
  log_eq := h.log_eq
  lookup_self := AList.lookup_insert _
  lookup_other id' hne := (AList.lookup_insert_ne hne).trans (h.lookup_other id' hne)

variable [DecidableEq K] [DecidableEq V] (tryPrepare : TryPrepare K V) (ptrEq : PtrEq K V)

open FileMemTxn

theorem run_append (s : TabSys K V) (as bs : List (Action K V)) :
    (s.run tryPrepare ptrEq (as ++ bs)).1 =
      ((s.run tryPrepare ptrEq as).1.run tryPrepare ptrEq bs).1 := by
  induction as generalizing s with
  | nil => rfl
  | cons a as ih => exact ih _

theorem step_entryAction {s' : TabSys K V} {t : FileMemTxn K V}
    (h : s'.txns.lookup id = some t) (kv : TabKV K V) :
    (s'.step tryPrepare ptrEq (TxnCall.entryAction id kv)).1 = s'.setTxn id (t.modifyEntry kv) := by
  unfold TxnCall.entryAction modifyEntry
  split <;> simp [step, h, *]

/-- The `get` calls of a `query` leave the transaction as `query` does, and reply with the
values `query` returns. -/
theorem Replaces.run_query :
    ∀ (arr : List (TabKV K V)) {s' : TabSys K V} {t : FileMemTxn K V}, Replaces s s' id t →
      Replaces s (s'.run tryPrepare ptrEq ((TxnCall.query arr).actions id)).1 id
          (t.query arr).1 ∧
        (s'.run tryPrepare ptrEq ((TxnCall.query arr).actions id)).2 =
          (t.query arr).2.map fun kv => .value kv.value
  | [], _, _, h => ⟨h, rfl⟩
  | kv :: arr, s', t, h => by
    obtain ⟨h₁, h₂⟩ := Replaces.run_query arr (h.setTxn (t.get kv.key).1)
    simp only [TxnCall.actions, List.map_cons, run, step, h.lookup_self, query] at h₁ h₂ ⊢
    exact ⟨h₁, by rw [h₂]⟩

/-- The `upsert` and `delete` calls of a `modify` leave the transaction as `modify` does. -/
theorem Replaces.run_modify :
    ∀ (arr : List (TabKV K V)) {s' : TabSys K V} {t : FileMemTxn K V}, Replaces s s' id t →
      Replaces s (s'.run tryPrepare ptrEq ((TxnCall.modify arr).actions id)).1 id (t.modify arr)
  | [], _, _, h => h
  | kv :: arr, s', t, h => by
    have := Replaces.run_modify arr (h.setTxn (t.modifyEntry kv))
    rwa [← step_entryAction tryPrepare ptrEq h.lookup_self kv] at this

theorem Replaces.run_call {s' : TabSys K V} {t : FileMemTxn K V} (h : Replaces s s' id t) :
    ∀ c : TxnCall K V, Replaces s (s'.run tryPrepare ptrEq (c.actions id)).1 id (t.call c)
  | .query arr => (h.run_query tryPrepare ptrEq arr).1
  | .modify arr => h.run_modify tryPrepare ptrEq arr

theorem Replaces.run_calls :
    ∀ (cs : List (TxnCall K V)) {s' : TabSys K V} {t : FileMemTxn K V}, Replaces s s' id t →
      Replaces s (s'.run tryPrepare ptrEq (cs.flatMap (·.actions id))).1 id (t.calls cs)
  | [], _, _, h => h
  | c :: cs, _, _, h => by
    rw [List.flatMap_cons, run_append]
    exact Replaces.run_calls cs (h.run_call tryPrepare ptrEq c)

/-- **A batch is its per-key calls.**  For a transaction `id` of a table and any run of
`query` and `modify` calls on it, the per-key `get`, `upsert` and `delete` calls of `TabSys`
these calls make leave the transaction as the run of batches does, and the table, its log
and every other transaction as they were: every result about schedules of per-key calls
holds of schedules that batch them. -/
theorem run_calls_actions {t : FileMemTxn K V} (h : s.txns.lookup id = some t)
    (cs : List (TxnCall K V)) :
    Replaces s (s.run tryPrepare ptrEq (cs.flatMap (·.actions id))).1 id (t.calls cs) :=
  Replaces.run_calls tryPrepare ptrEq cs ⟨rfl, rfl, h, fun _ _ => rfl⟩

end TabSys

/-- A table with an empty root and one writer, `1`, begun on it. -/
def batchTab : TabSys Nat Nat :=
  (TabSys.opened BinMap.empty).setTxn 1 (FileMemTxn.new ⟨∅, BinMap.empty⟩ 1 true)

/-- The writer modifies `1` and removes `2`, then reads `1`. -/
def batchCalls : List (FileMemTxn.TxnCall Nat Nat) :=
  [.modify [⟨"w", "t", 1, 0, some 10⟩, ⟨"w", "t", 2, 0, none⟩],
    .query [⟨"w", "t", 1, 0, none⟩]]

theorem run_calls_actions_batchCalls :
    batchTab.txns.lookup 1 = some (FileMemTxn.new ⟨∅, BinMap.empty⟩ 1 true) ∧
      TabSys.Replaces batchTab
        (batchTab.run tryPrepareSpec PtrEq.never (batchCalls.flatMap (·.actions 1))).1 1
        ((FileMemTxn.new ⟨∅, BinMap.empty⟩ 1 true).calls batchCalls) :=
  have h : batchTab.txns.lookup 1 = some (FileMemTxn.new ⟨∅, BinMap.empty⟩ 1 true) := rfl
  ⟨h, TabSys.run_calls_actions tryPrepareSpec PtrEq.never h batchCalls⟩

end PiDb
