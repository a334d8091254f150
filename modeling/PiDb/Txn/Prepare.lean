import PiDb.Txn.Commit

/-!
# Transactions — what `prepare_inner` detects

`prepare_inner` validates a transaction against the table only through its journal: a key
the journal holds whose value in the table's root is no longer the snapshot's makes the
prepare fail (`prepareInner_fails_of_moved`), and the journal then stays out of the prepare
set.  "The snapshot's value" is a pointer test, `as_ptr` of the two value objects: two
distinct values that allocated no buffer, the empty ones, share an address and pass it.

A `get` of a key the transaction does not find journals nothing, so a key read as absent is
never validated.  `absentRead` is a schedule where a writable transaction reads an absent
key, another transaction inserts and commits it, and the first one's prepare still succeeds
and places its journal in the prepare set (`absentRead_prepare_succeeds`).
-/

namespace PiDb

namespace FileMemTxn

variable {K V : Type} [DecidableEq K]

theorem journaled_upsert (t : FileMemTxn K V) (key : K) (value : V) :
    key ∈ (t.upsert key value).rwlog :=
  AList.mem_insert _ |>.mpr (.inl rfl)

variable [DecidableEq V] (tryPrepare : TryPrepare K V) (ptrEq : PtrEq K V)

omit [DecidableEq K] in
/-- The check of one entry fails when the key's value in the root is not the snapshot's,
unless both are values without a buffer. -/
theorem prepareKey_fails_of_moved {tab : MemeryTab K V} {old : BinMap K V} {key : K}
    (h : tab.root.get key ≠ old.get key) (hb : ptrEq.Buffered (tab.root.get key) (old.get key))
    (rw : RwLog V) : ∃ e, prepareKey tryPrepare ptrEq tab old key rw = .error e := by
  unfold prepareKey
  split
  · exact ⟨_, rfl⟩
  · split
    · split <;> split <;> simp_all [PtrEq.Buffered, PtrEq.sameBuffer]
      rcases hb with hb | hb <;> simp [hb]
    · next hp => exact absurd (by rw [ptrEq.sound tab.root old (by simpa using hp)]) h

omit [DecidableEq K] in
theorem prepareKeys_fails_of_moved {tab : MemeryTab K V} {old : BinMap K V} {key : K}
    (h : tab.root.get key ≠ old.get key) (hb : ptrEq.Buffered (tab.root.get key) (old.get key)) :
    ∀ {l : List (Sigma fun _ : K => RwLog V)}, key ∈ l.keys →
      ∃ e, prepareKeys tryPrepare ptrEq tab old l = .error e
  | ⟨k, rw⟩ :: rest, hk => by
    unfold prepareKeys
    split
    · exact ⟨_, rfl⟩
    · next hok =>
      rcases List.mem_cons.mp hk with rfl | hk
      · obtain ⟨e, he⟩ := prepareKey_fails_of_moved tryPrepare ptrEq h hb rw
        simp [he] at hok
      · exact prepareKeys_fails_of_moved h hb hk

omit [DecidableEq K] in
/-- **A journaled key that moved fails the prepare.**  If the transaction's journal holds
`key` and the table's root no longer maps it to the snapshot's value (present against
absent, or another value object, the two not both without a buffer), `prepare_inner` returns
`Err` and changes neither the table nor the transaction: the journal is not placed in the
prepare set. -/
theorem prepareInner_fails_of_moved {tab : MemeryTab K V} {t : FileMemTxn K V} {key : K}
    (hk : key ∈ t.rwlog) (h : tab.root.get key ≠ t.old.get key)
    (hb : ptrEq.Buffered (tab.root.get key) (t.old.get key)) :
    ∃ e, t.prepareInner tryPrepare ptrEq tab = (.error e, tab, t) := by
  obtain ⟨e, he⟩ := prepareKeys_fails_of_moved tryPrepare ptrEq h hb (AList.mem_keys.mp hk)
  exact ⟨e, by simp [prepareInner, he]⟩

/-- A transaction that wrote `5` on an empty snapshot fails to prepare once the root maps `5`
to `7`. -/
theorem prepareInner_fails_of_moved_upsert :
    5 ∈ ((new ⟨∅, BinMap.empty⟩ 1 true).upsert 5 3).rwlog ∧
      (BinMap.empty.upsert 5 7).get 5 ≠ ((new ⟨∅, BinMap.empty⟩ 1 true).upsert 5 3).old.get 5 ∧
      (PtrEq.never : PtrEq Nat Nat).Buffered ((BinMap.empty.upsert 5 7).get 5)
        (((new ⟨∅, BinMap.empty⟩ 1 true).upsert 5 3).old.get 5) ∧
      ∃ e, ((new ⟨∅, BinMap.empty⟩ 1 true).upsert 5 3).prepareInner tryPrepareSpec PtrEq.never
          ⟨∅, BinMap.empty.upsert 5 7⟩ =
        (.error e, ⟨∅, BinMap.empty.upsert 5 7⟩, (new ⟨∅, BinMap.empty⟩ 1 true).upsert 5 3) :=
  have hb : (PtrEq.never : PtrEq Nat Nat).Buffered ((BinMap.empty.upsert 5 7).get 5)
      (((new ⟨∅, BinMap.empty⟩ 1 true).upsert 5 3).old.get 5) := fun _ _ _ _ => .inl rfl
  ⟨journaled_upsert _ _ _, by decide, hb,
    prepareInner_fails_of_moved tryPrepareSpec PtrEq.never (journaled_upsert _ _ _) (by decide) hb⟩

/-- Values `0` and `1` are empty: neither allocated a buffer. -/
def emptyValues : PtrEq Nat Nat :=
  ⟨fun _ _ => false, fun _ _ h => Bool.noConfusion h, fun v => decide (v < 2)⟩

/-- A transaction whose snapshot held the empty value `1` at `5` prepares against a root that
holds another empty value, `0`, there: `as_ptr` cannot tell them apart. -/
example :
    (((new ⟨∅, BinMap.empty.upsert 5 1⟩ 1 true).upsert 5 3).prepareInner tryPrepareSpec
      emptyValues ⟨∅, BinMap.empty.upsert 5 0⟩).1 = .ok () :=
  rfl

end FileMemTxn

/-- A writable transaction reads the absent key `5`; a second transaction inserts `5 ↦ 7`
and commits; then the first transaction prepares. -/
def absentRead : List (Action Nat Nat) :=
  [.new 1 true, .get 1 5, .new 2 true, .upsert 2 5 7, .prepare 2, .commit 2, .prepare 1]

/-- The first transaction's prepare succeeds and places its journal in the prepare set,
though the root maps `5` to `7` where its snapshot had nothing. -/
theorem absentRead_prepare_succeeds :
    let r : TabSys Nat Nat × List (Reply Nat Nat) :=
      (TabSys.opened BinMap.empty).run tryPrepareSpec PtrEq.never absentRead
    r.2.getLast? = some (.prepared (.ok ())) ∧ r.1.tab.root.get 5 = some 7 ∧
      (r.1.txns.lookup 1).map (fun t => t.old.get 5) = some none ∧
      (r.1.tab.prepare.lookup 1).isSome = true :=
  ⟨rfl, rfl, rfl, rfl⟩

end PiDb
