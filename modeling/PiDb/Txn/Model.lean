import PiDb.Core.Log

/-!
# Transactions — the model

The transactions of one table, as `FileMemTxn` and its wrapper `RefLogFileTxn` run them
against the table's `MemeryTab` (`log_file_db.rs`).

* `FileMemTxn.get`, `upsert`, `delete`: the reads and writes, on the transaction's working
  `root`, recorded in its journal `rwlog`.
* `FileMemTxn.prepareInner`: each entry of the journal is checked by the prepare set's
  `try_prepare` and, when the table's root has moved (`ptr_eq` is false), against the
  values of the snapshot `old`; on success the journal moves into the prepare set.
* `FileMemTxn.commitInner`: the journal is taken out of the prepare set and either the
  working root is installed (the root has not moved) or the journal is folded into the
  moved root; the records `commitRecords` (`insert_pairs`, then `delete_keys`) go to the log.
* `TabSys`: one table, the records appended to its log since it was opened, and its
  transactions by id; `TabSys.step` runs one call of `RefLogFileTxn`, `TabSys.run` a whole
  schedule of them, interleaved in any order.

`Prepare::try_prepare` (in `tabs.rs`), `OrdMap::ptr_eq` and the buffers of values are not in
this repository's files: they are parameters, `ptr_eq` with the one fact every pointer test
has, that it answers `true` only on one root, and `as_ptr` with the one exception to value
identity that `Vec` has, the empty values that share a dangling address.
-/

namespace PiDb

/-- A transaction id: a `Guid`. -/
abbrev Guid := Nat

/-- `TxState`: the states `RefLogFileTxn` moves a transaction through. -/
inductive TxState where
  | ok | preparing | preparOk | preparFail
  | committing | commited | commitFail
  | rollbacking | rollbacked | rollbackFail
  deriving DecidableEq, Repr

/-- The `Err` strings of a transaction: `try_prepare`'s own, `"prepare conflicted value
diff"` and `"prepare conflicted old not None"` followed by the key, `"error prepare null"`. -/
inductive TxnErr (K : Type) where
  | tryPrepare (s : String)
  | valueDiff (key : K)
  | oldNotNone (key : K)
  | prepareNull
  deriving DecidableEq, Repr

/-- `Prepare`: the journals of the transactions prepared on a table, by id. -/
abbrev Prepare (K V : Type) := AList (fun _ : Guid => Journal K V)

/-- `Prepare::try_prepare(key, rw_v)`: the conflict check of one journal entry against the
journals already prepared. -/
abbrev TryPrepare (K V : Type) := Prepare K V → K → RwLog V → Except String Unit

/-- The pointer tests of `prepare_inner` and `commit_inner`.  `OrdMap::ptr_eq` (`test`) is a
test of root identity: it answers `true` only on one root.  A value of `V` is a value object,
a `Bin = Arc<Vec<u8>>`, and `r1.as_ptr()` is `Vec::as_ptr`, the address of its buffer:
distinct objects have distinct buffers, except those that allocated none (`unallocated`, the
empty ones), which all answer the same dangling address. -/
structure PtrEq (K V : Type) where
  test : BinMap K V → BinMap K V → Bool
  sound : ∀ a b, test a b = true → a = b
  unallocated : V → Bool

/-- `r1.as_ptr() as usize == r2.as_ptr() as usize`: the same object, or two objects with no
buffer. -/
def PtrEq.sameBuffer {K V : Type} [DecidableEq V] (p : PtrEq K V) (a b : V) : Bool :=
  decide (a = b) || (p.unallocated a && p.unallocated b)

/-- Two values of a key, in a root and in a snapshot, that are not both without a buffer. -/
def PtrEq.Buffered {K V : Type} (p : PtrEq K V) (a b : Option V) : Prop :=
  ∀ x ∈ a, ∀ y ∈ b, p.unallocated x = false ∨ p.unallocated y = false

/-- The pointer test that never finds two roots identical, every commit then folding its
journal into the root, over values that all allocate a buffer. -/
def PtrEq.never {K V : Type} : PtrEq K V :=
  ⟨fun _ _ => false, fun _ _ h => Bool.noConfusion h, fun _ => false⟩

/-- Modelled from the spec: `Prepare::try_prepare` (in `tabs.rs`), a conflict when another
prepared journal holds an entry for the key and one of the two entries is a write. -/
def tryPrepareSpec {K V : Type} [DecidableEq K] : TryPrepare K V := fun p key rw =>
  let clash := p.entries.any fun e =>
    match e.2.lookup key, rw with
    | some (.write _), _ => true
    | some .read, .write _ => true
    | _, _ => false
  if clash then .error "prepare conflicted" else .ok ()

/-- `MemeryTab`: a table's prepare set and root.  Its name `tab` is read by no step here. -/
structure MemeryTab (K V : Type) where
  prepare : Prepare K V
  root : BinMap K V

/-- `FileMemTxn`.  Its handle `tab` is the one table of `TabSys`. -/
structure FileMemTxn (K V : Type) where
  id : Guid
  writable : Bool
  root : BinMap K V
  old : BinMap K V
  rwlog : Journal K V
  state : TxState

namespace FileMemTxn

variable {K V : Type} [DecidableEq K]

/-- `FileMemTxn::new`: a transaction whose working root and snapshot are the table's root. -/
def new (tab : MemeryTab K V) (id : Guid) (writable : Bool) : FileMemTxn K V :=
  { id, writable, root := tab.root, old := tab.root, rwlog := ∅, state := .ok }

/-- `FileMemTxn::get`: the value in the working root.  A writable transaction records a
`Read` of a key it found and had not journaled; a key it did not find is not recorded. -/
def get (t : FileMemTxn K V) (key : K) : FileMemTxn K V × Option V :=
  match t.root.get key with
  | some v =>
    let t' :=
      if t.writable then
        match t.rwlog.lookup key with
        | some _ => t
        | none => { t with rwlog := t.rwlog.insert key .read }
      else t
    (t', some v)
  | none => (t, none)

/-- `FileMemTxn::upsert`. -/
def upsert (t : FileMemTxn K V) (key : K) (value : V) : FileMemTxn K V :=
  { t with root := t.root.upsert key value, rwlog := t.rwlog.insert key (.write (some value)) }

/-- `FileMemTxn::delete`. -/
def delete (t : FileMemTxn K V) (key : K) : FileMemTxn K V :=
  { t with root := t.root.delete key, rwlog := t.rwlog.insert key (.write none) }

section Prepare

variable [DecidableEq V] (tryPrepare : TryPrepare K V) (ptrEq : PtrEq K V)

/-- The check `prepare_inner` makes of one entry: `try_prepare`, then, when the table's
root is not the snapshot, that the key's value in the root has the snapshot's buffer. -/
def prepareKey (tab : MemeryTab K V) (old : BinMap K V) (key : K) (rw : RwLog V) :
    Except (TxnErr K) Unit :=
  match tryPrepare tab.prepare key rw with
  | .error s => .error (.tryPrepare s)
  | .ok () =>
    if ptrEq.test tab.root old = false then
      match tab.root.get key with
      | some r1 =>
        match old.get key with
        | some r2 => if ptrEq.sameBuffer r1 r2 then .ok () else .error (.valueDiff key)
        | none => .error (.valueDiff key)
      | none =>
        match old.get key with
        | none => .ok ()
        | some _ => .error (.oldNotNone key)
    else .ok ()

/-- The loop of `prepare_inner` over the journal's entries; the first failure ends it. -/
def prepareKeys (tab : MemeryTab K V) (old : BinMap K V) :
    List (Sigma fun _ : K => RwLog V) → Except (TxnErr K) Unit
  | [] => .ok ()
  | ⟨key, rw⟩ :: rest =>
    match prepareKey tryPrepare ptrEq tab old key rw with
    | .error e => .error e
    | .ok () => prepareKeys tab old rest

/-- `FileMemTxn::prepare_inner`: on success the journal moves into the prepare set, and the
transaction's own journal is left empty; on failure nothing changes. -/
def prepareInner (tab : MemeryTab K V) (t : FileMemTxn K V) :
    Except (TxnErr K) Unit × MemeryTab K V × FileMemTxn K V :=
  match prepareKeys tryPrepare ptrEq tab t.old t.rwlog.entries with
  | .error e => (.error e, tab, t)
  | .ok () => (.ok (), { tab with prepare := tab.prepare.insert t.id t.rwlog }, { t with rwlog := ∅ })

end Prepare

end FileMemTxn

section Records

variable {K V : Type}

/-- `insert_pairs` of `commit_inner`: the journal's `Write(Some v)` entries, in its order. -/
def insertPairs (j : Journal K V) : List (K × V) :=
  j.entries.filterMap fun e => match e.2 with
    | .write (some v) => some (e.1, v)
    | _ => none

/-- `delete_keys` of `commit_inner`: the journal's `Write(None)` keys, in its order. -/
def deleteKeys (j : Journal K V) : List K :=
  j.entries.filterMap fun e => match e.2 with
    | .write none => some e.1
    | _ => none

/-- The records `write_batch` appends for a journal. -/
def appendRecords (j : Journal K V) : List (LogRecord K V) :=
  (insertPairs j).map fun p => .plainAppend p.1 p.2

/-- The records `commit_inner` appends for a journal: `write_batch` of `insert_pairs`, then
`remove_batch` of `delete_keys`. -/
def commitRecords (j : Journal K V) : List (LogRecord K V) :=
  appendRecords j ++ (deleteKeys j).map .remove

end Records

namespace FileMemTxn

variable {K V : Type} [DecidableEq K]

/-- `FileMemTxn::commit_inner`, every log write succeeding: the journal taken out of the
prepare set, the new root, and the records appended to the log. -/
def commitInner (ptrEq : PtrEq K V) (tab : MemeryTab K V) (t : FileMemTxn K V) :
    Except (TxnErr K) (Journal K V) × MemeryTab K V × List (LogRecord K V) :=
  match tab.prepare.lookup t.id with
  | none => (.error .prepareNull, tab, [])
  | some rwlog =>
    let root := if ptrEq.test tab.root t.old then t.root else tab.root.applyWrites rwlog
    (.ok rwlog, { prepare := tab.prepare.erase t.id, root }, commitRecords rwlog)

/-- `FileMemTxn::rollback_inner`: the journal, if prepared, leaves the prepare set. -/
def rollbackInner (tab : MemeryTab K V) (t : FileMemTxn K V) : MemeryTab K V :=
  { tab with prepare := tab.prepare.erase t.id }

end FileMemTxn

/-- One table open in the process: its `MemeryTab`, the records appended to its log since
it was opened (oldest first), and its transactions by id. -/
structure TabSys (K V : Type) where
  tab : MemeryTab K V
  log : List (LogRecord K V)
  txns : AList (fun _ : Guid => FileMemTxn K V)

/-- A call of `RefLogFileTxn` (or `FileMemTxn::new`) on the transaction `id`. -/
inductive Action (K V : Type) where
  | new (id : Guid) (writable : Bool)
  | get (id : Guid) (key : K)
  | upsert (id : Guid) (key : K) (value : V)
  | delete (id : Guid) (key : K)
  | prepare (id : Guid)
  | commit (id : Guid)
  | rollback (id : Guid)
  deriving DecidableEq, Repr

/-- What a call returns.  `done` is `Ok(())` of a call that cannot fail, or a call on an id
no transaction has. -/
inductive Reply (K V : Type) where
  | done
  | value (v : Option V)
  | prepared (r : Except (TxnErr K) Unit)
  | committed (r : Except (TxnErr K) (Journal K V))

/-- The journal a successful commit returns. -/
def Reply.journal? {K V : Type} : Reply K V → Option (Journal K V)
  | .committed (.ok j) => some j
  | _ => none

/-- The journals of the successful commits of a run, in commit order. -/
def committedJournals {K V : Type} (rs : List (Reply K V)) : List (Journal K V) :=
  rs.filterMap Reply.journal?

@[simp] theorem committedJournals_nil {K V : Type} :
    committedJournals ([] : List (Reply K V)) = [] := rfl

@[simp] theorem committedJournals_cons {K V : Type} (r : Reply K V) (rs : List (Reply K V)) :
    committedJournals (r :: rs) = r.journal?.toList ++ committedJournals rs := by
  cases h : r.journal? <;> simp [committedJournals, List.filterMap_cons, h]

namespace TabSys

variable {K V : Type}

/-- The table as `LogFileTab::new` leaves it: the root at open, nothing prepared, nothing
appended, no transaction. -/
def opened (root : BinMap K V) : TabSys K V :=
  { tab := { prepare := ∅, root }, log := [], txns := ∅ }

/-- The transaction `id` replaced by `t`. -/
def setTxn (s : TabSys K V) (id : Guid) (t : FileMemTxn K V) : TabSys K V :=
  { s with txns := s.txns.insert id t }

@[simp] theorem setTxn_tab (s : TabSys K V) (id : Guid) (t : FileMemTxn K V) :
    (s.setTxn id t).tab = s.tab := rfl

@[simp] theorem setTxn_log (s : TabSys K V) (id : Guid) (t : FileMemTxn K V) :
    (s.setTxn id t).log = s.log := rfl

variable [DecidableEq K]

variable [DecidableEq V] (tryPrepare : TryPrepare K V) (ptrEq : PtrEq K V)

/-- One call, as `RefLogFileTxn` makes it: the `_inner` function under the table's lock,
and the state the wrapper records. -/
def step (s : TabSys K V) : Action K V → TabSys K V × Reply K V
  | .new id writable => (s.setTxn id (FileMemTxn.new s.tab id writable), .done)
  | .get id key =>
    match s.txns.lookup id with
    | none => (s, .done)
    | some t => let r := t.get key; (s.setTxn id r.1, .value r.2)
  | .upsert id key value =>
    match s.txns.lookup id with
    | none => (s, .done)
    | some t => (s.setTxn id (t.upsert key value), .done)
  | .delete id key =>
    match s.txns.lookup id with
    | none => (s, .done)
    | some t => (s.setTxn id (t.delete key), .done)
  | .prepare id =>
    match s.txns.lookup id with
    | none => (s, .done)
    | some t =>
      let r := t.prepareInner tryPrepare ptrEq s.tab
      let st := match r.1 with | .ok () => TxState.preparOk | .error _ => .preparFail
      ({ s with tab := r.2.1, txns := s.txns.insert id { r.2.2 with state := st } },
        .prepared r.1)
  | .commit id =>
    match s.txns.lookup id with
    | none => (s, .done)
    | some t =>
      let r := t.commitInner ptrEq s.tab
      let st := match r.1 with | .ok _ => TxState.commited | .error _ => .commitFail
      ({ tab := r.2.1, log := s.log ++ r.2.2, txns := s.txns.insert id { t with state := st } },
        .committed r.1)
  | .rollback id =>
    match s.txns.lookup id with
    | none => (s, .done)
    | some t =>
      ({ s with tab := t.rollbackInner s.tab, txns := s.txns.insert id { t with state := .rollbacked } },
        .done)

/-- A schedule run from `s`: the final state and the reply of each call. -/
def run (s : TabSys K V) : List (Action K V) → TabSys K V × List (Reply K V)
  | [] => (s, [])
  | a :: as =>
    let r := s.step tryPrepare ptrEq a
    let rs := r.1.run as
    (rs.1, r.2 :: rs.2)

end TabSys

namespace Action

variable {K V : Type}

/-- Whether the table's callers may make the call `a` after the ids `begun` were begun and
the ids `prepared` prepared: an id is begun at most once, a transaction prepares at most
once, and it calls no `get`, `upsert` or `delete` after its `prepare`. -/
def allowed (begun prepared : List Guid) : Action K V → Bool
  | .new id _ => !begun.contains id
  | .get id _ | .upsert id _ _ | .delete id _ | .prepare id => !prepared.contains id
  | .commit _ | .rollback _ => true

/-- The ids begun once `a` is made. -/
def begunAfter (begun : List Guid) : Action K V → List Guid
  | .new id _ => id :: begun
  | _ => begun

/-- The ids prepared once `a` is made. -/
def preparedAfter (prepared : List Guid) : Action K V → List Guid
  | .prepare id => id :: prepared
  | _ => prepared

end Action

/-- A schedule the table's callers keep to, every call allowed (`Action.allowed`). -/
def disciplined {K V : Type} (begun prepared : List Guid) : List (Action K V) → Bool
  | [] => true
  | a :: as => a.allowed begun prepared &&
      disciplined (a.begunAfter begun) (a.preparedAfter prepared) as

end PiDb
