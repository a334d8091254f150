import PiDb.Txn.Commit

/-!
# Transactions — what the committed transactions asked for

`CommitInv` says what the commits of a run leave in terms of the journals their replies
return.  This module ties those journals to the calls of the schedule: a transaction's
journal, while it works, once prepared and once committed, writes exactly the records its
`upsert`s and `delete`s asked for (`callRecords`, read off the schedule alone), whatever
`get`s it made and in whatever order `commit_inner` iterates the journal.

* `Journal.Writes`: a journal folds into every map as a list of records replays.
* `WritesInv`: the working, prepared and committed journals of a state write what their
  transactions' calls asked for.  Each call keeps it (`WritesInv.step`), and so does every
  run, together with `CommitInv` (`WritesInv.run`).
* `run_commits_applied`: for any schedule the callers keep, after any number of calls, the
  root is the root at open with the writes of the committed transactions replayed in commit
  order, the log holds the records `commit_inner` appends for their journals, and each of
  those journals writes what its transaction asked for.
-/

namespace PiDb

namespace Action

variable {K V : Type}

/-- Whether the call begins the transaction `id`. -/
def begins (id : Guid) : Action K V → Bool
  | .new i _ => i = id
  | _ => false

/-- The record a call asks the transaction `id` to write: an `upsert` is an append, a
`delete` a removal. -/
def record? (id : Guid) : Action K V → Option (LogRecord K V)
  | .upsert i k v => if i = id then some (.plainAppend k v) else none
  | .delete i k => if i = id then some (.remove k) else none
  | _ => none

/-- The id a call commits, when it is a `commit` that replied `Ok`. -/
def committedId? : Action K V → Reply K V → Option Guid
  | .commit id, .committed (.ok _) => some id
  | _, _ => none

end Action

/-- The writes a schedule asks of the transaction `id`: the records of its `upsert`s and
`delete`s after its `new`, in order.  A call on `id` before its `new` finds no transaction. -/
def callRecords {K V : Type} (id : Guid) : List (Action K V) → List (LogRecord K V)
  | [] => []
  | a :: as => if a.begins id then as.filterMap (·.record? id) else callRecords id as

/-- The ids of a run's commits that replied `Ok`, in commit order. -/
def committedIds {K V : Type} : List (Action K V) → List (Reply K V) → List Guid
  | a :: as, r :: rs => (a.committedId? r).toList ++ committedIds as rs
  | _, _ => []

section CallRecords

variable {K V : Type} {id : Guid}

theorem callRecords_append_of_not_begun :
    ∀ {hist : List (Action K V)}, hist.any (·.begins id) = false →
      ∀ rest, callRecords id (hist ++ rest) = callRecords id rest
  | [], _, _ => rfl
  | a :: hist, h, rest => by
    simp only [List.any_cons, Bool.or_eq_false_iff] at h
    simp [callRecords, h.1, callRecords_append_of_not_begun h.2 rest]

theorem callRecords_of_not_begun {hist : List (Action K V)} (h : hist.any (·.begins id) = false) :
    callRecords id hist = [] := by
  simpa using callRecords_append_of_not_begun h []

/-- Once `id` is begun, each call adds what it asks of `id`. -/
theorem callRecords_append_of_begun (a : Action K V) :
    ∀ {hist : List (Action K V)}, hist.any (·.begins id) = true →
      callRecords id (hist ++ [a]) = callRecords id hist ++ (a.record? id).toList
  | b :: hist, h => by
    by_cases hb : b.begins id
    · cases hr : a.record? id <;> simp [callRecords, hb, hr]
    · simp only [List.any_cons, hb, Bool.false_or] at h
      simp [callRecords, hb, callRecords_append_of_begun a h]

/-- A call that asks nothing of `id` leaves its records. -/
theorem callRecords_append_of_none {a : Action K V} (ha : a.record? id = none)
    (hist : List (Action K V)) : callRecords id (hist ++ [a]) = callRecords id hist := by
  cases h : hist.any (·.begins id)
  · rw [callRecords_append_of_not_begun h [a], callRecords_of_not_begun h]
    simp [callRecords]
  · rw [callRecords_append_of_begun a h, ha, Option.toList, List.append_nil]

end CallRecords

open FileMemTxn

variable {K V : Type} [DecidableEq K]

namespace Journal

/-- The journal `j` writes the records `rs`: folded into any map, it leaves what replaying them
leaves. -/
def Writes (j : Journal K V) (rs : List (LogRecord K V)) : Prop :=
  ∀ m : BinMap K V, m.applyWrites j = m.replay rs

theorem writes_empty : (∅ : Journal K V).Writes [] := fun _ => rfl

theorem Writes.upsert {j : Journal K V} {rs : List (LogRecord K V)} (h : j.Writes rs) (k : K)
    (v : V) : Journal.Writes (j.insert k (.write (some v))) (rs ++ [.plainAppend k v]) := fun m => by
  rw [BinMap.applyWrites_insert_write, h m, BinMap.replay_append]; rfl

theorem Writes.delete {j : Journal K V} {rs : List (LogRecord K V)} (h : j.Writes rs) (k : K) :
    Journal.Writes (j.insert k (.write none)) (rs ++ [.remove k]) := fun m => by
  rw [BinMap.applyWrites_insert_write, h m, BinMap.replay_append]; rfl

/-- Journals that write, one after the other, the records of `ids` apply as those records
replayed in turn. -/
theorem applyJournals_of_writes {rs : Guid → List (LogRecord K V)} :
    ∀ {js : List (Journal K V)} {ids : List Guid},
      List.Forall₂ (fun j id => j.Writes (rs id)) js ids →
      ∀ m : BinMap K V, m.applyJournals js = m.replay (ids.flatMap rs)
  | [], [], .nil, _ => rfl
  | _ :: _, _ :: _, .cons hj h, m => by
    rw [BinMap.applyJournals, List.foldl_cons, ← BinMap.applyJournals, hj m,
      applyJournals_of_writes h, List.flatMap_cons, BinMap.replay_append]

end Journal

/-- A `get` journals at most a `Read`, which writes nothing. -/
theorem FileMemTxn.get_writes {t : FileMemTxn K V} {rs : List (LogRecord K V)}
    (h : t.rwlog.Writes rs) (key : K) : (t.get key).1.rwlog.Writes rs := by
  unfold FileMemTxn.get
  split
  · dsimp only
    split
    · split
      · exact h
      · exact fun m => (BinMap.applyWrites_insert_read m ‹_›).trans (h m)
    · exact h
  · exact h

/-- What the journals of a run write, `hist` being its calls so far and `ids` the
transactions committed so far, in commit order: a working journal, a prepared one and a
committed one each write the records its transaction's calls asked for, and a committed
transaction has prepared. -/
structure WritesInv (begun prepared : List Guid) (hist : List (Action K V))
    (committed : List (Journal K V)) (ids : List Guid) (s : TabSys K V) : Prop where
  journals : List.Forall₂ (fun j id => id ∈ prepared ∧ j.Writes (callRecords id hist))
    committed ids
  txn : ∀ id t, s.txns.lookup id = some t → id ∉ prepared → t.rwlog.Writes (callRecords id hist)
  prep : ∀ id j, s.tab.prepare.lookup id = some j → j.Writes (callRecords id hist)
  begun_iff : ∀ id, id ∈ begun ↔ hist.any (·.begins id) = true
  started : ∀ id ∈ begun, (s.txns.lookup id).isSome

theorem WritesInv.opened (root₀ : BinMap K V) :
    WritesInv [] [] [] [] [] (TabSys.opened root₀) where
  journals := .nil
  txn _ _ h := by simp [TabSys.opened] at h
  prep _ _ h := by simp [TabSys.opened] at h
  begun_iff _ := by simp
  started _ h := absurd h (List.not_mem_nil _)

variable {root₀ : BinMap K V} {begun prepared : List Guid} {committed : List (Journal K V)}
  {s : TabSys K V} {hist : List (Action K V)} {ids : List Guid}

omit [DecidableEq K] in
/-- A call the callers may make asks nothing of a transaction that has prepared. -/
theorem callRecords_of_prepared {a : Action K V} (ha : a.allowed begun prepared = true)
    {id : Guid} (hid : id ∈ prepared) : callRecords id (hist ++ [a]) = callRecords id hist :=
  callRecords_append_of_none (by
    cases a <;> simp only [Action.record?] <;> split <;> simp_all [Action.allowed]) hist

namespace WritesInv

variable {a : Action K V}

/-- The committed journals still write what their transactions asked for. -/
theorem journals_step (h : WritesInv begun prepared hist committed ids s)
    (ha : a.allowed begun prepared = true) {prepared' : List Guid}
    (hsub : ∀ id ∈ prepared, id ∈ prepared') :
    List.Forall₂ (fun j id => id ∈ prepared' ∧ j.Writes (callRecords id (hist ++ [a])))
      committed ids :=
  h.journals.imp fun _ _ ⟨hp, hw⟩ => ⟨hsub _ hp, by rwa [callRecords_of_prepared ha hp]⟩

/-- The prepared journals still write what their transactions asked for. -/
theorem prep_step (hc : CommitInv root₀ begun prepared committed s)
    (h : WritesInv begun prepared hist committed ids s) (ha : a.allowed begun prepared = true)
    (id : Guid) (j : Journal K V) (hj : s.tab.prepare.lookup id = some j) :
    j.Writes (callRecords id (hist ++ [a])) := by
  rw [callRecords_of_prepared ha (hc.pending id (by simp [hj])).1]
  exact h.prep id j hj

/-- The invariant after a call that begins no transaction, replaces the transaction `i` by
`t'`, and commits the transactions `ids'` with the journals `js`. -/
theorem update (h : WritesInv begun prepared hist committed ids s) (hnew : ∀ id, a.begins id = false)
    {s' : TabSys K V} {i : Guid} {t' : FileMemTxn K V} {prepared' : List Guid}
    {js : List (Journal K V)} {ids' : List Guid}
    (hsub : ∀ id ∈ prepared, id ∈ prepared')
    (hjs : List.Forall₂ (fun j id => id ∈ prepared' ∧ j.Writes (callRecords id (hist ++ [a])))
      (committed ++ js) (ids ++ ids'))
    (htx : s'.txns = s.txns.insert i t')
    (hother : ∀ id, id ≠ i → callRecords id (hist ++ [a]) = callRecords id hist)
    (ht' : i ∉ prepared' → t'.rwlog.Writes (callRecords i (hist ++ [a])))
    (hprep : ∀ id j, s'.tab.prepare.lookup id = some j → j.Writes (callRecords id (hist ++ [a]))) :
    WritesInv begun prepared' (hist ++ [a]) (committed ++ js) (ids ++ ids') s' where
  journals := hjs
  txn id t ht hn := by
    rw [htx, lookup_insert_ite] at ht
    split at ht
    · cases ht; subst_vars; exact ht' hn
    · rw [hother id ‹_›]; exact h.txn id t ht fun hp => hn (hsub _ hp)
  prep := hprep
  begun_iff id := by simpa [hnew] using h.begun_iff id
  started id hid := by rw [htx, lookup_insert_ite]; split <;> simp [h.started id hid]

/-- A call that asks nothing of any transaction and changes nothing. -/
theorem skip (h : WritesInv begun prepared hist committed ids s) (hnew : ∀ id, a.begins id = false)
    (hall : ∀ id, callRecords id (hist ++ [a]) = callRecords id hist) {prepared' : List Guid}
    (hsub : ∀ id ∈ prepared, id ∈ prepared') :
    WritesInv begun prepared' (hist ++ [a]) committed ids s where
  journals := h.journals.imp fun _ _ ⟨hp, hw⟩ => ⟨hsub _ hp, by rwa [hall]⟩
  txn id t ht hn := by rw [hall]; exact h.txn id t ht fun hp => hn (hsub _ hp)
  prep id j hj := by rw [hall]; exact h.prep id j hj
  begun_iff id := by simpa [hnew] using h.begun_iff id
  started := h.started

end WritesInv

/-! ### Each call, and every run -/

namespace WritesInv

variable {a : Action K V}

/-- `new` begins a transaction with an empty journal, before any call asked it anything. -/
theorem new (h : WritesInv begun prepared hist committed ids s) {i : Guid} (hi : i ∉ begun)
    (w : Bool) :
    WritesInv (i :: begun) prepared (hist ++ [.new i w]) committed ids
      (s.setTxn i (FileMemTxn.new s.tab i w)) := by
  have hall : ∀ id, callRecords id (hist ++ [.new i w]) = callRecords id hist :=
    fun _ => callRecords_append_of_none (by rfl) hist
  have hnb : hist.any (·.begins i) = false := by simpa using mt (h.begun_iff i).mpr hi
  refine ⟨by simpa only [hall] using h.journals, fun id t ht hn => ?_, fun id j hj => ?_,
    fun id => ?_, fun id hid => ?_⟩
  · rw [hall]
    simp only [TabSys.setTxn, lookup_insert_ite] at ht
    split at ht
    · cases ht; subst_vars; rw [callRecords_of_not_begun hnb]; exact Journal.writes_empty
    · exact h.txn id t ht hn
  · rw [hall]; exact h.prep id j hj
  · simp [h.begun_iff id, Action.begins, or_comm, eq_comm (a := id)]
  · simp only [TabSys.setTxn, lookup_insert_ite]
    split
    · rfl
    · exact h.started id ((List.mem_cons.mp hid).resolve_left ‹_›)

/-- A call on an id no transaction has: it was never begun, and nothing is asked of it. -/
theorem absent (h : WritesInv begun prepared hist committed ids s) {i : Guid}
    (ht : s.txns.lookup i = none) (hnew : ∀ id, a.begins id = false)
    (hrec : ∀ id, id ≠ i → a.record? id = none) {prepared' : List Guid}
    (hsub : ∀ id ∈ prepared, id ∈ prepared') :
    WritesInv begun prepared' (hist ++ [a]) committed ids s := by
  refine h.skip hnew (fun id => ?_) hsub
  by_cases e : id = i
  · subst e
    have hnb : hist.any (·.begins id) = false := by
      cases hb : hist.any (·.begins id)
      · rfl
      · simpa [ht] using h.started id ((h.begun_iff id).mpr hb)
    rw [callRecords_of_not_begun hnb, callRecords_of_not_begun (by simp [hnb, hnew])]
  · exact callRecords_append_of_none (hrec id e) hist

/-- A `get`, `upsert` or `delete` of a transaction that has not prepared. -/
theorem working (hc : CommitInv root₀ begun prepared committed s)
    (h : WritesInv begun prepared hist committed ids s) (ha : a.allowed begun prepared = true)
    (hnew : ∀ id, a.begins id = false) {i : Guid} {t t' : FileMemTxn K V}
    (ht : s.txns.lookup i = some t) (hnp : i ∉ prepared)
    (hrec : ∀ id, id ≠ i → a.record? id = none)
    (hw : t.rwlog.Writes (callRecords i hist) → t'.rwlog.Writes (callRecords i (hist ++ [a]))) :
    WritesInv begun prepared (hist ++ [a]) committed ids (s.setTxn i t') := by
  have h' : WritesInv begun prepared (hist ++ [a]) (committed ++ []) (ids ++ []) (s.setTxn i t') :=
    h.update hnew (fun _ hp => hp) (by simpa using h.journals_step ha fun _ hp => hp) rfl
      (fun id e => callRecords_append_of_none (hrec id e) hist) (fun _ => hw (h.txn i t ht hnp))
      (fun id j hj => h.prep_step hc ha id j hj)
  simpa using h'

/-- Taking a journal out of the prepare set keeps what the others write. -/
theorem prep_erase (hc : CommitInv root₀ begun prepared committed s)
    (h : WritesInv begun prepared hist committed ids s) (ha : a.allowed begun prepared = true)
    (i id : Guid) (j : Journal K V) (hj : (s.tab.prepare.erase i).lookup id = some j) :
    j.Writes (callRecords id (hist ++ [a])) := by
  refine h.prep_step hc ha id j ?_
  by_cases e : id = i
  · subst e; simp [AList.lookup_erase] at hj
  · rwa [AList.lookup_erase_ne e] at hj

end WritesInv

variable [DecidableEq V] (tryPrepare : TryPrepare K V) (ptrEq : PtrEq K V)

/-- **Each call keeps what the journals write.** -/
theorem WritesInv.step (hc : CommitInv root₀ begun prepared committed s)
    (h : WritesInv begun prepared hist committed ids s) {a : Action K V}
    (ha : a.allowed begun prepared = true) :
    WritesInv (a.begunAfter begun) (a.preparedAfter prepared) (hist ++ [a])
      (committed ++ (s.step tryPrepare ptrEq a).2.journal?.toList)
      (ids ++ (a.committedId? (s.step tryPrepare ptrEq a).2).toList)
      (s.step tryPrepare ptrEq a).1 := by
  cases a with
  | new i w =>
    have hi : i ∉ begun := by simpa [Action.allowed] using ha
    simpa [TabSys.step, Reply.journal?, Action.committedId?] using h.new hi w
  | get i key | upsert i key _ | delete i key =>
    have hnp : i ∉ prepared := by simpa [Action.allowed, List.contains] using ha
    simp only [TabSys.step, Action.begunAfter, Action.preparedAfter]
    split <;> simp only [Reply.journal?, Action.committedId?, Option.toList, List.append_nil]
    · exact h.absent ‹_› (fun _ => by rfl) (fun id e => by simp [Action.record?, Ne.symm e])
        fun _ hp => hp
    · next t ht =>
      have hb : hist.any (·.begins i) = true :=
        (h.begun_iff i).mp (by_contra fun hn => by simp [hc.fresh i hn] at ht)
      refine h.working hc ha (fun _ => by rfl) ht hnp
        (fun id e => by simp [Action.record?, Ne.symm e]) fun hw => ?_
      rw [callRecords_append_of_begun _ hb]
      first
      | simpa [Action.record?] using FileMemTxn.get_writes hw key
      | simpa [Action.record?] using hw.upsert key _
      | simpa [Action.record?] using hw.delete key
  | prepare i =>
    have hnp : i ∉ prepared := by simpa [Action.allowed, List.contains] using ha
    have hsub : ∀ id ∈ prepared, id ∈ i :: prepared := fun _ => List.mem_cons_of_mem _
    have hall : ∀ id, callRecords id (hist ++ [.prepare i]) = callRecords id hist :=
      fun _ => callRecords_append_of_none (by rfl) hist
    cases ht : s.txns.lookup i with
    | none =>
      simpa [TabSys.step, ht, Reply.journal?, Action.committedId?, Action.preparedAfter] using
        h.absent ht (fun _ => by rfl) (fun _ _ => by rfl) hsub
    | some t =>
      have hid := (hc.txn i t ht).1
      simp only [TabSys.step, ht]
      rcases prepareInner_cases tryPrepare ptrEq s.tab t with ⟨e, he⟩ | he <;> rw [he] <;>
        simp only [Reply.journal?, Action.committedId?, Action.begunAfter, Action.preparedAfter,
          Option.toList]
      · -- fails: only the state changes, and `i` counts as prepared
        exact h.update (fun _ => by rfl) hsub (by simpa using h.journals_step ha hsub) rfl
          (fun id _ => hall id) (fun hn => absurd (List.mem_cons_self _ _) hn)
          (fun id j hj => h.prep_step hc ha id j hj)
      · -- succeeds: the working journal moves into the prepare set
        refine h.update (fun _ => by rfl) hsub (by simpa using h.journals_step ha hsub) rfl
          (fun id _ => hall id) (fun hn => absurd (List.mem_cons_self _ _) hn) fun id j hj => ?_
        rw [hid, lookup_insert_ite] at hj
        split at hj
        · cases hj; subst_vars; rw [hall]; exact h.txn _ t ht hnp
        · exact h.prep_step hc ha id j hj
  | commit i =>
    have hall : ∀ id, callRecords id (hist ++ [.commit i]) = callRecords id hist :=
      fun _ => callRecords_append_of_none (by rfl) hist
    cases ht : s.txns.lookup i with
    | none =>
      simpa [TabSys.step, ht, Reply.journal?, Action.committedId?] using
        h.absent ht (fun _ => by rfl) (fun _ _ => by rfl) fun _ hp => hp
    | some t =>
      have hid := (hc.txn i t ht).1
      simp only [TabSys.step, ht]
      rcases commitInner_cases ptrEq s.tab t with ⟨-, he⟩ | ⟨j, hj, he⟩ <;> rw [he] <;>
        simp only [Reply.journal?, Action.committedId?, Action.begunAfter, Action.preparedAfter,
          Option.toList]
      · -- no journal prepared: only the state changes
        exact h.update (fun _ => by rfl) (fun _ hp => hp)
          (by simpa using h.journals_step ha fun _ hp => hp) rfl (fun id _ => hall id)
          (fun hn => by rw [hall]; exact h.txn i t ht hn) (fun id j hj => h.prep_step hc ha id j hj)
      · -- the prepared journal is committed: it writes what `i` asked for
        rw [hid] at hj
        have hp : i ∈ prepared := (hc.pending i (by simp [hj])).1
        exact h.update (fun _ => by rfl) (fun _ hp => hp)
          (List.rel_append (h.journals_step ha fun _ hp => hp)
            (.cons ⟨hp, h.prep_step hc ha i j hj⟩ .nil)) rfl (fun id _ => hall id)
          (fun hn => absurd hp hn) (by rw [hid]; exact h.prep_erase hc ha i)
  | rollback i =>
    have hall : ∀ id, callRecords id (hist ++ [.rollback i]) = callRecords id hist :=
      fun _ => callRecords_append_of_none (by rfl) hist
    cases ht : s.txns.lookup i with
    | none =>
      simpa [TabSys.step, ht, Reply.journal?, Action.committedId?] using
        h.absent ht (fun _ => by rfl) (fun _ _ => by rfl) fun _ hp => hp
    | some t =>
      have hid := (hc.txn i t ht).1
      simp only [TabSys.step, ht, Reply.journal?, Action.committedId?, Action.begunAfter,
        Action.preparedAfter, Option.toList]
      exact h.update (fun _ => by rfl) (fun _ hp => hp)
        (by simpa using h.journals_step ha fun _ hp => hp) rfl (fun id _ => hall id)
        (fun hn => by rw [hall]; exact h.txn i t ht hn)
        (by simp only [rollbackInner, hid]; exact h.prep_erase hc ha i)

/-- **A whole run keeps what the journals write**, together with what the commits leave. -/
theorem WritesInv.run (hc : CommitInv root₀ begun prepared committed s)
    (h : WritesInv begun prepared hist committed ids s) {acts : List (Action K V)}
    (hd : disciplined begun prepared acts = true) :
    ∃ b p, CommitInv root₀ b p (committed ++ committedJournals (s.run tryPrepare ptrEq acts).2)
        (s.run tryPrepare ptrEq acts).1 ∧
      WritesInv b p (hist ++ acts) (committed ++ committedJournals (s.run tryPrepare ptrEq acts).2)
        (ids ++ committedIds acts (s.run tryPrepare ptrEq acts).2) (s.run tryPrepare ptrEq acts).1 := by
  induction acts generalizing s begun prepared committed hist ids with
  | nil =>
    exact ⟨begun, prepared, by simpa [TabSys.run] using hc,
      by simpa [TabSys.run, committedIds] using h⟩
  | cons a as ih =>
    simp only [disciplined, Bool.and_eq_true] at hd
    obtain ⟨b, p, hc', h'⟩ :=
      ih (hc.step tryPrepare ptrEq hd.1) (h.step tryPrepare ptrEq hc hd.1) hd.2
    exact ⟨b, p, by simpa [TabSys.run] using hc', by simpa [TabSys.run, committedIds] using h'⟩

/-- **Committed transactions, and only they, reach the root and the log, with what they
asked for.**  Run any schedule the callers keep, on a table opened with root `root₀`, and stop
after any number `n` of calls: the root is `root₀` with the `upsert`s and `delete`s of each
transaction whose commit replied `Ok` replayed, transaction after transaction in commit order;
the log holds `commitRecords` of the journal of each of those commits, in commit order; and
each of those journals writes what its transaction's calls asked for. -/
theorem run_commits_applied (root₀ : BinMap K V) (acts : List (Action K V))
    (hd : disciplined [] [] acts = true) (n : Nat) :
    let r := (TabSys.opened root₀).run tryPrepare ptrEq (acts.take n)
    let ids := committedIds (acts.take n) r.2
    r.1.tab.root = root₀.replay (ids.flatMap fun id => callRecords id (acts.take n)) ∧
      r.1.log = (committedJournals r.2).flatMap commitRecords ∧
      List.Forall₂ (fun j id => j.Writes (callRecords id (acts.take n))) (committedJournals r.2)
        ids := by
  obtain ⟨_, _, hc, h⟩ := WritesInv.run tryPrepare ptrEq (CommitInv.opened root₀)
    (WritesInv.opened root₀) (disciplined_take hd n)
  have hw := h.journals.imp fun _ _ hj => hj.2
  simp only [List.nil_append] at hc hw
  exact ⟨by rw [hc.root, Journal.applyJournals_of_writes hw], hc.log, hw⟩

/-- Two writers interleaved: the second commits on a moved root and folds its journal. -/
def twoWriters : List (Action Nat Nat) :=
  [.new 1 true, .new 2 true, .upsert 1 10 100, .get 2 10, .upsert 2 20 200,
    .prepare 1, .commit 1, .prepare 2, .commit 2]

theorem run_commits_applied_twoWriters :
    disciplined [] [] twoWriters = true ∧
      let r := (TabSys.opened BinMap.empty).run tryPrepareSpec PtrEq.never (twoWriters.take 9)
      let ids := committedIds (twoWriters.take 9) r.2
      r.1.tab.root = BinMap.empty.replay (ids.flatMap fun id => callRecords id (twoWriters.take 9)) ∧
        r.1.log = (committedJournals r.2).flatMap commitRecords ∧
        List.Forall₂ (fun j id => j.Writes (callRecords id (twoWriters.take 9)))
          (committedJournals r.2) ids :=
  ⟨by decide, run_commits_applied tryPrepareSpec PtrEq.never BinMap.empty twoWriters (by decide) 9⟩

/-- Both transactions commit, and each asked for one append. -/
example :
    committedIds twoWriters
        ((TabSys.opened BinMap.empty).run tryPrepareSpec PtrEq.never twoWriters).2 = [1, 2] ∧
      callRecords 1 twoWriters = [.plainAppend 10 100] ∧
      callRecords 2 twoWriters = [.plainAppend 20 200] :=
  ⟨rfl, rfl, rfl⟩

end PiDb
