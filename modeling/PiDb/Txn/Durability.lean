import PiDb.Txn.Commit
import PiDb.Store.Model

/-!
# Transactions — the log writes of a commit

Once `commit_inner` has installed the journal in the table's root, it appends the journal's
`Write(Some v)` pairs with `write_batch` and awaits that log commit, then appends its
`Write(None)` keys with `remove_batch` and awaits a second one.  It discards both results: it
returns `Ok` and `RefLogFileTxn::commit` records `Commited` whatever the two `delay_commit`s
answered.

* `commitLogged`: `commit_inner` with its log writes, `ok₁` and `ok₂` the outcomes of the two
  `delay_commit`s; `CommitRun.durableAt` is the durable log at each point where a crash can
  stop it.
* `commitLogged_reply`: the reply is the one of the memory half, whatever the log answered.
* `durableAt_cases`: at every point the durable log is the log before the commit, that log
  followed by all of the journal's appends, or followed by all of its appends and then all of
  its removes; `durableAt_done_of_ok`: when both log commits succeed the commit ends with all
  of them.  `commit_durable_stages` puts the three together, for the journal the prepare set
  holds for the transaction.
* `mixedCommit`: a journal that writes `1 ↦ 10` and removes `2`.  A failing second log commit
  leaves the removal out of the durable log while the commit replies `Ok` and the transaction
  is `Commited`; a crash between the two log commits leaves the same durable log
  (`mixedCommit_append_without_remove`).

A record appended and not yet committed is lost by a crash (`LogFile.pending`), and a log
commit persists every record appended before it, those a failed commit left behind included.
-/

namespace PiDb

namespace LogFile

variable {K V α : Type}

/-- A `foldl` of appends buffers the records and leaves the segments as they were. -/
theorem foldl_append_eq (g : α → LogRecord K V) :
    ∀ (l : List α) (f : LogFile K V),
      l.foldl (fun f a => f.append (g a)) f = { f with pending := f.pending ++ l.map g }
  | [], f => by simp
  | a :: l, f => by rw [List.foldl_cons, foldl_append_eq g l (f.append (g a))]; simp [append]

@[simp] theorem records_foldl_append (g : α → LogRecord K V) :
    ∀ (l : List α) (f : LogFile K V), (l.foldl (fun f a => f.append (g a)) f).records = f.records
  | [], _ => rfl
  | a :: l, f => records_foldl_append g l (f.append (g a))

@[simp] theorem pending_foldl_append (g : α → LogRecord K V) :
    ∀ (l : List α) (f : LogFile K V),
      (l.foldl (fun f a => f.append (g a)) f).pending = f.pending ++ l.map g
  | [], f => by simp
  | a :: l, f => by simp [pending_foldl_append g l (f.append (g a))]

/-- Records appended, then one log commit: on success they are durable after what was
pending, on failure they stay pending. -/
theorem records_appendCommit (g : α → LogRecord K V) (l : List α) (f : LogFile K V) (ok : Bool) :
    ((l.foldl (fun f a => f.append (g a)) f).delayCommit ok).1.records =
      if ok then f.records ++ f.pending ++ l.map g else f.records := by
  rw [records_delayCommit]; split <;> simp

theorem pending_appendCommit (g : α → LogRecord K V) (l : List α) (f : LogFile K V) (ok : Bool) :
    ((l.foldl (fun f a => f.append (g a)) f).delayCommit ok).1.pending =
      if ok then [] else f.pending ++ l.map g := by
  rw [pending_delayCommit]; split <;> simp

/-- A batch appended and committed once when it is not empty, as `commit_inner` calls
`write_batch` and `remove_batch`: it is durable, after what was pending, when it is not empty
and its log commit succeeds. -/
theorem records_batch (g : α → LogRecord K V) (l : List α) (f : LogFile K V) (ok : Bool) :
    (if 0 < l.length then ((l.foldl (fun f a => f.append (g a)) f).delayCommit ok).1 else f).records =
      if 0 < l.length ∧ ok then f.records ++ f.pending ++ l.map g else f.records := by
  by_cases hl : 0 < l.length <;> simp [hl, records_appendCommit]

/-- Nothing appended is lost by a batch: it is durable or still pending. -/
theorem records_pending_batch (g : α → LogRecord K V) (l : List α) (f : LogFile K V) (ok : Bool) :
    (if 0 < l.length then ((l.foldl (fun f a => f.append (g a)) f).delayCommit ok).1 else f).records ++
      (if 0 < l.length then ((l.foldl (fun f a => f.append (g a)) f).delayCommit ok).1 else f).pending =
      f.records ++ f.pending ++ l.map g := by
  by_cases hl : 0 < l.length
  · cases ok <;> simp [hl, records_appendCommit, pending_appendCommit]
  · simp [hl, List.eq_nil_of_length_eq_zero (Nat.eq_zero_of_not_pos hl)]

end LogFile

namespace AsyncLogFileStore

variable {K V : Type} [DecidableEq K]

/-- `write_batch` leaves the log its appends and its one log commit made, whether the log
commit succeeds or not. -/
@[simp] theorem logFile_writeBatch (s : AsyncLogFileStore K V) (pairs : List (K × V)) (ok : Bool) :
    (s.writeBatch pairs ok).1.logFile =
      ((pairs.foldl (fun f p => f.append (.plainAppend p.1 p.2)) s.logFile).delayCommit ok).1 := by
  simp only [writeBatch]; split <;> rfl

@[simp] theorem logFile_removeBatch (s : AsyncLogFileStore K V) (keys : List K) (ok : Bool) :
    (s.removeBatch keys ok).1.logFile =
      ((keys.foldl (fun f k => f.append (.remove k)) s.logFile).delayCommit ok).1 := by
  simp only [removeBatch]; split <;> rfl

end AsyncLogFileStore

/-- A point of `commit_inner` where a crash can stop it: before its first log commit has
resolved, between the two, or after the second. -/
inductive CommitPoint where
  | start | written | done
  deriving DecidableEq, Repr

/-- What `commit_inner` leaves: its reply, the table, and the table's store after the
`write_batch` and after the `remove_batch`. -/
structure CommitRun (K V : Type) where
  reply : Except (TxnErr K) (Journal K V)
  tab : MemeryTab K V
  written : AsyncLogFileStore K V
  done : AsyncLogFileStore K V

/-- The durable log at a point of the commit, `store` being the table's store before it. -/
def CommitRun.durableAt {K V : Type} (r : CommitRun K V) (store : AsyncLogFileStore K V) :
    CommitPoint → List (LogRecord K V)
  | .start => store.logFile.records
  | .written => r.written.logFile.records
  | .done => r.done.logFile.records

/-- The state `RefLogFileTxn::commit` records for the reply of `commit_inner`. -/
def commitState {ε α : Type} : Except ε α → TxState
  | .ok _ => .commited
  | .error _ => .commitFail

namespace FileMemTxn

variable {K V : Type} [DecidableEq K]

/-- `FileMemTxn::commit_inner` with its log writes: the memory half (`commitInner`), then
`write_batch` of `insert_pairs` when there are any and `remove_batch` of `delete_keys` when
there are any, `ok₁` and `ok₂` being the outcomes of their `delay_commit`s, which are not
read.  A missing prepare returns before any log write. -/
def commitLogged (ptrEq : PtrEq K V) (tab : MemeryTab K V) (store : AsyncLogFileStore K V)
    (t : FileMemTxn K V) (ok₁ ok₂ : Bool) : CommitRun K V :=
  match t.commitInner ptrEq tab with
  | (.ok j, tab', _) =>
    let written :=
      if 0 < (insertPairs j).length then (store.writeBatch (insertPairs j) ok₁).1 else store
    let done :=
      if 0 < (deleteKeys j).length then (written.removeBatch (deleteKeys j) ok₂).1 else written
    ⟨.ok j, tab', written, done⟩
  | (.error e, tab', _) => ⟨.error e, tab', store, store⟩

variable (ptrEq : PtrEq K V) (tab : MemeryTab K V) (store : AsyncLogFileStore K V)
  (t : FileMemTxn K V) (ok₁ ok₂ : Bool)

/-- The reply does not depend on the log: `commit_inner` returns `Ok` once the journal is
installed, whatever its two log commits answered. -/
theorem commitLogged_reply :
    (t.commitLogged ptrEq tab store ok₁ ok₂).reply = (t.commitInner ptrEq tab).1 := by
  unfold commitLogged
  split <;> next h => rw [h]

/-- A commit that found its journal ran `write_batch` and `remove_batch` as the source calls
them, each only on a batch that is not empty. -/
theorem commitLogged_stores {j : Journal K V}
    (hj : (t.commitLogged ptrEq tab store ok₁ ok₂).reply = .ok j) :
    (t.commitLogged ptrEq tab store ok₁ ok₂).written =
        (if 0 < (insertPairs j).length then (store.writeBatch (insertPairs j) ok₁).1 else store) ∧
      (t.commitLogged ptrEq tab store ok₁ ok₂).done =
        (if 0 < (deleteKeys j).length then
          ((t.commitLogged ptrEq tab store ok₁ ok₂).written.removeBatch (deleteKeys j) ok₂).1
        else (t.commitLogged ptrEq tab store ok₁ ok₂).written) := by
  unfold commitLogged at hj ⊢
  split
  · next h => simp only [h, Except.ok.injEq] at hj; subst hj; exact ⟨rfl, rfl⟩
  · next h => simp [h] at hj

/-- A commit that did not find its journal writes nothing. -/
theorem commitLogged_stores_of_error {e : TxnErr K}
    (he : (t.commitLogged ptrEq tab store ok₁ ok₂).reply = .error e) :
    (t.commitLogged ptrEq tab store ok₁ ok₂).written = store ∧
      (t.commitLogged ptrEq tab store ok₁ ok₂).done = store := by
  unfold commitLogged at he ⊢
  split
  · next h => simp [h] at he
  · exact ⟨rfl, rfl⟩

variable {ptrEq tab store t ok₁ ok₂} {j : Journal K V}

/-- Between the two log commits: the journal's appends are durable, after what was pending,
when there are any and the first log commit succeeded. -/
theorem written_records (hj : (t.commitLogged ptrEq tab store ok₁ ok₂).reply = .ok j) :
    (t.commitLogged ptrEq tab store ok₁ ok₂).written.logFile.records =
      if 0 < (insertPairs j).length ∧ ok₁ then
        store.logFile.records ++ store.logFile.pending ++ appendRecords j
      else store.logFile.records := by
  rw [(commitLogged_stores ptrEq tab store t ok₁ ok₂ hj).1, apply_ite AsyncLogFileStore.logFile,
    AsyncLogFileStore.logFile_writeBatch, LogFile.records_batch]
  rfl

theorem written_records_pending (hj : (t.commitLogged ptrEq tab store ok₁ ok₂).reply = .ok j) :
    (t.commitLogged ptrEq tab store ok₁ ok₂).written.logFile.records ++
        (t.commitLogged ptrEq tab store ok₁ ok₂).written.logFile.pending =
      store.logFile.records ++ store.logFile.pending ++ appendRecords j := by
  rw [(commitLogged_stores ptrEq tab store t ok₁ ok₂ hj).1, apply_ite AsyncLogFileStore.logFile,
    AsyncLogFileStore.logFile_writeBatch, LogFile.records_pending_batch]
  rfl

/-- After the second log commit: all of the journal's records are durable, after what was
pending, when there are removes and it succeeded; otherwise the durable log is as it was
between the two. -/
theorem done_records (hj : (t.commitLogged ptrEq tab store ok₁ ok₂).reply = .ok j) :
    (t.commitLogged ptrEq tab store ok₁ ok₂).done.logFile.records =
      if 0 < (deleteKeys j).length ∧ ok₂ then
        store.logFile.records ++ store.logFile.pending ++ commitRecords j
      else (t.commitLogged ptrEq tab store ok₁ ok₂).written.logFile.records := by
  rw [(commitLogged_stores ptrEq tab store t ok₁ ok₂ hj).2, apply_ite AsyncLogFileStore.logFile,
    AsyncLogFileStore.logFile_removeBatch, LogFile.records_batch, written_records_pending hj]
  simp [commitRecords]

/-- **The durable log at every crash point.**  It is the log before the commit, that log
followed by the journal's appends, or followed by its appends and then its removes. -/
theorem durableAt_cases (hj : (t.commitLogged ptrEq tab store ok₁ ok₂).reply = .ok j)
    (p : CommitPoint) :
    (t.commitLogged ptrEq tab store ok₁ ok₂).durableAt store p = store.logFile.records ∨
      (t.commitLogged ptrEq tab store ok₁ ok₂).durableAt store p =
        store.logFile.records ++ store.logFile.pending ++ appendRecords j ∨
      (t.commitLogged ptrEq tab store ok₁ ok₂).durableAt store p =
        store.logFile.records ++ store.logFile.pending ++ commitRecords j := by
  cases p
  · exact .inl rfl
  · simp only [CommitRun.durableAt, written_records hj]
    split <;> simp
  · simp only [CommitRun.durableAt, done_records hj, written_records hj]
    split
    · simp
    · split <;> simp

/-- **When both log commits succeed, every record of the journal is durable**, as the last
records of the log. -/
theorem durableAt_done_of_ok (hj : (t.commitLogged ptrEq tab store ok₁ ok₂).reply = .ok j)
    (h₁ : ok₁ = true) (h₂ : ok₂ = true) :
    commitRecords j <:+ (t.commitLogged ptrEq tab store ok₁ ok₂).durableAt store .done := by
  subst h₁ h₂
  simp only [CommitRun.durableAt, done_records hj, written_records hj, and_true]
  by_cases hd : 0 < (deleteKeys j).length
  · rw [if_pos hd]; exact List.suffix_append _ _
  · have hr : commitRecords j = appendRecords j := by
      simp [commitRecords, List.eq_nil_of_length_eq_zero (Nat.eq_zero_of_not_pos hd)]
    rw [if_neg hd, hr]
    by_cases ha : 0 < (insertPairs j).length
    · rw [if_pos ha]; exact List.suffix_append _ _
    · simp [appendRecords, List.eq_nil_of_length_eq_zero (Nat.eq_zero_of_not_pos ha)]

/-- A commit that did not find its journal leaves the durable log as it was. -/
theorem durableAt_of_error {e : TxnErr K}
    (he : (t.commitLogged ptrEq tab store ok₁ ok₂).reply = .error e) (p : CommitPoint) :
    (t.commitLogged ptrEq tab store ok₁ ok₂).durableAt store p = store.logFile.records := by
  obtain ⟨hw, hd⟩ := commitLogged_stores_of_error ptrEq tab store t ok₁ ok₂ he
  cases p <;> simp [CommitRun.durableAt, hw, hd]

variable (ptrEq tab store t ok₁ ok₂)

/-- **What a commit leaves durable.**  When the prepare set holds the journal `j` for the
transaction, `commit_inner` replies `Ok j` whatever its two log commits answered, the durable
log at every crash point is the log before it, that log followed by the journal's appends, or
followed by its appends and its removes, and when both log commits succeed it ends with all of
the journal's records.  When it holds none, the reply is `Err("error prepare null")` and the
durable log is untouched. -/
theorem commit_durable_stages :
    (∀ j, tab.prepare.lookup t.id = some j →
      (t.commitLogged ptrEq tab store ok₁ ok₂).reply = .ok j ∧
        (∀ p, (t.commitLogged ptrEq tab store ok₁ ok₂).durableAt store p = store.logFile.records ∨
          (t.commitLogged ptrEq tab store ok₁ ok₂).durableAt store p =
            store.logFile.records ++ store.logFile.pending ++ appendRecords j ∨
          (t.commitLogged ptrEq tab store ok₁ ok₂).durableAt store p =
            store.logFile.records ++ store.logFile.pending ++ commitRecords j) ∧
        (ok₁ = true → ok₂ = true →
          commitRecords j <:+ (t.commitLogged ptrEq tab store ok₁ ok₂).durableAt store .done)) ∧
      (tab.prepare.lookup t.id = none →
        (t.commitLogged ptrEq tab store ok₁ ok₂).reply = .error .prepareNull ∧
          ∀ p, (t.commitLogged ptrEq tab store ok₁ ok₂).durableAt store p =
            store.logFile.records) := by
  rcases commitInner_cases ptrEq tab t with ⟨hn, he⟩ | ⟨j, hj, he⟩
  · have hr : (t.commitLogged ptrEq tab store ok₁ ok₂).reply = .error .prepareNull := by
      rw [commitLogged_reply, he]
    exact ⟨fun _ h => by simp [hn] at h, fun _ => ⟨hr, durableAt_of_error hr⟩⟩
  · have hr : (t.commitLogged ptrEq tab store ok₁ ok₂).reply = .ok j := by
      rw [commitLogged_reply, he]
    refine ⟨fun j' h => ?_, fun h => by simp [hj] at h⟩
    obtain rfl : j' = j := Option.some.inj (h.symm.trans hj)
    exact ⟨hr, durableAt_cases hr, durableAt_done_of_ok hr⟩

end FileMemTxn

/-- A journal writing `1 ↦ 10` and removing `2`. -/
def mixedJournal : Journal Nat Nat :=
  ((∅ : Journal Nat Nat).insert 1 (.write (some 10))).insert 2 (.write none)

/-- A table holding `2 ↦ 5`, with `mixedJournal` prepared as transaction `1`. -/
def mixedTab : MemeryTab Nat Nat :=
  { prepare := (∅ : Prepare Nat Nat).insert 1 mixedJournal, root := BinMap.empty.upsert 2 5 }

/-- The table's store, whose log holds `2 ↦ 5`. -/
def mixedStore : AsyncLogFileStore Nat Nat :=
  AsyncLogFileStore.fresh ⟨[], ⟨0, [.plainAppend 2 5]⟩, []⟩

/-- Transaction `1` commits `mixedJournal`, its first log commit succeeding and its second
answering `ok₂`. -/
def mixedCommit (ok₂ : Bool) : CommitRun Nat Nat :=
  (FileMemTxn.new mixedTab 1 true).commitLogged PtrEq.never mixedTab mixedStore true ok₂

/-- Both log commits succeed and the commit ends with the journal's records. -/
theorem commit_durable_stages_mixed :
    mixedTab.prepare.lookup (FileMemTxn.new mixedTab 1 true).id = some mixedJournal ∧
      (mixedCommit true).reply = .ok mixedJournal ∧
      commitRecords mixedJournal <:+ (mixedCommit true).durableAt mixedStore .done :=
  have hj : mixedTab.prepare.lookup (FileMemTxn.new mixedTab 1 true).id = some mixedJournal := rfl
  have h := (FileMemTxn.commit_durable_stages PtrEq.never mixedTab mixedStore
    (FileMemTxn.new mixedTab 1 true) true true).1 mixedJournal hj
  ⟨hj, h.1, h.2.2 rfl rfl⟩

/-- A failing second log commit: the commit replies `Ok` with the journal, the transaction is
`Commited`, and the journal's removal of `2` is not durable, the log reading `1 ↦ 10` and
still `2 ↦ 5`.  A crash between the two log commits leaves the same reading. -/
theorem mixedCommit_append_without_remove :
    (mixedCommit false).reply = .ok mixedJournal ∧
      commitState (mixedCommit false).reply = .commited ∧
      LogRecord.remove 2 ∈ commitRecords mixedJournal ∧
      LogRecord.remove 2 ∉ (mixedCommit false).durableAt mixedStore .done ∧
      latestValue ((mixedCommit false).durableAt mixedStore .done) 1 = some 10 ∧
      latestValue ((mixedCommit false).durableAt mixedStore .done) 2 = some 5 ∧
      latestValue ((mixedCommit true).durableAt mixedStore .written) 1 = some 10 ∧
      latestValue ((mixedCommit true).durableAt mixedStore .written) 2 = some 5 :=
  ⟨rfl, rfl, by decide, by decide, rfl, rfl, rfl, rfl⟩

end PiDb
