import PiDb.Txn.Model

/-!
# Transactions — what the commits of a run leave

For any schedule the table's callers keep (`disciplined`), any number of transactions
interleaved in any order, after every call the table's root is the root at open with the
journals of the successful commits applied in commit order, and the records appended to the
log since open are those journals' writes, one group per commit (`commitRecords`), in commit
order.  This holds whichever of `commit_inner`'s two paths each commit took:
`commit_paths_agree` is the step where the wholesale install of the working root and the fold
of the journal into the moved root meet.

The invariant `CommitInv` says this of a state, with what the next commit needs: a
transaction that has not prepared has a working root equal to its snapshot with its journal
applied (`FileMemTxn.Applies`), and a prepared journal is the one its transaction's working
root applies.  Each call keeps it (`CommitInv.step`), so every run does (`CommitInv.run`).
What those journals hold, in terms of the calls of the schedule, is `Txn.Writes`.
-/

namespace PiDb

namespace FileMemTxn

variable {K V : Type} [DecidableEq K]

/-- The working root of `t` is its snapshot with the journal `j` applied. -/
def Applies (t : FileMemTxn K V) (j : Journal K V) : Prop :=
  t.root = t.old.applyWrites j

theorem applies_new (tab : MemeryTab K V) (id : Guid) (w : Bool) :
    (new tab id w).Applies (new tab id w).rwlog := rfl

theorem get_applies {t : FileMemTxn K V} (h : t.Applies t.rwlog) (key : K) :
    (t.get key).1.Applies (t.get key).1.rwlog := by
  unfold get
  split
  · dsimp only
    split
    · split
      · exact h
      · exact h.trans (BinMap.applyWrites_insert_read _ ‹_›).symm
    · exact h
  · exact h

theorem upsert_applies {t : FileMemTxn K V} (h : t.Applies t.rwlog) (key : K) (value : V) :
    (t.upsert key value).Applies (t.upsert key value).rwlog := by
  unfold Applies at h ⊢
  rw [upsert, BinMap.applyWrites_insert_write, ← h]
  rfl

theorem delete_applies {t : FileMemTxn K V} (h : t.Applies t.rwlog) (key : K) :
    (t.delete key).Applies (t.delete key).rwlog := by
  unfold Applies at h ⊢
  rw [delete, BinMap.applyWrites_insert_write, ← h]
  rfl

@[simp] theorem get_id (t : FileMemTxn K V) (key : K) : (t.get key).1.id = t.id := by
  unfold get; split <;> (try split) <;> (try split) <;> rfl

variable [DecidableEq V] (tryPrepare : TryPrepare K V) (ptrEq : PtrEq K V)

omit [DecidableEq K] in
/-- `prepare_inner` either fails and changes nothing, or succeeds and moves the journal. -/
theorem prepareInner_cases (tab : MemeryTab K V) (t : FileMemTxn K V) :
    (∃ e, t.prepareInner tryPrepare ptrEq tab = (.error e, tab, t)) ∨
      t.prepareInner tryPrepare ptrEq tab =
        (.ok (), { tab with prepare := tab.prepare.insert t.id t.rwlog }, { t with rwlog := ∅ }) := by
  unfold prepareInner
  split
  · exact .inl ⟨_, rfl⟩
  · exact .inr rfl

omit [DecidableEq V] in
/-- `commit_inner` either finds no prepared journal and changes nothing, or takes the
prepared journal out of the prepare set. -/
theorem commitInner_cases (tab : MemeryTab K V) (t : FileMemTxn K V) :
    (tab.prepare.lookup t.id = none ∧ t.commitInner ptrEq tab = (.error .prepareNull, tab, [])) ∨
      ∃ j, tab.prepare.lookup t.id = some j ∧ t.commitInner ptrEq tab =
        (.ok j, { prepare := tab.prepare.erase t.id,
                  root := if ptrEq.test tab.root t.old then t.root else tab.root.applyWrites j },
          commitRecords j) := by
  unfold commitInner
  split
  · exact .inl ⟨‹_›, rfl⟩
  · exact .inr ⟨_, ‹_›, rfl⟩

omit [DecidableEq V] in
/-- **The two paths of `commit_inner` agree.**  When the working root applies the prepared
journal, installing it wholesale on an unmoved root and folding the journal into the root
give the same map. -/
theorem commit_paths_agree {tab : MemeryTab K V} {t : FileMemTxn K V} {j : Journal K V}
    (h : t.Applies j) :
    (if ptrEq.test tab.root t.old then t.root else tab.root.applyWrites j) =
      tab.root.applyWrites j := by
  split
  next hp => rw [ptrEq.sound _ _ hp]; exact h
  next => rfl

end FileMemTxn

open FileMemTxn

variable {K V : Type} [DecidableEq K]

/-- What a run of the table keeps, `begun` and `prepared` being the ids begun and prepared so
far and `committed` the journals of the commits so far, oldest first. -/
structure CommitInv (root₀ : BinMap K V) (begun prepared : List Guid)
    (committed : List (Journal K V)) (s : TabSys K V) : Prop where
  root : s.tab.root = root₀.applyJournals committed
  log : s.log = committed.flatMap commitRecords
  txn : ∀ id t, s.txns.lookup id = some t → t.id = id ∧ (id ∉ prepared → t.Applies t.rwlog) ∧
    ∀ j, s.tab.prepare.lookup id = some j → t.Applies j
  pending : ∀ id, (s.tab.prepare.lookup id).isSome → id ∈ prepared ∧ (s.txns.lookup id).isSome
  fresh : ∀ id, id ∉ begun → s.txns.lookup id = none

theorem CommitInv.opened (root₀ : BinMap K V) :
    CommitInv root₀ [] [] [] (TabSys.opened root₀) where
  root := rfl
  log := rfl
  txn _ _ h := by simp [TabSys.opened] at h
  pending _ h := by simp [TabSys.opened] at h
  fresh _ _ := rfl

theorem lookup_insert_ite {β : Type} (l : AList (fun _ : Guid => β)) (id id' : Guid) (b : β) :
    (l.insert id b).lookup id' = if id' = id then some b else l.lookup id' := by
  split
  · subst_vars; exact AList.lookup_insert l
  · exact AList.lookup_insert_ne ‹_›

variable {root₀ : BinMap K V} {begun prepared : List Guid} {committed : List (Journal K V)}
  {s : TabSys K V}

/-- The invariant after a call that replaces the transaction `id` by `t'` and changes the
prepare set at `id` only. -/
theorem CommitInv.update (h : CommitInv root₀ begun prepared committed s) {s' : TabSys K V}
    {id : Guid} {t' : FileMemTxn K V} {prepared' : List Guid} {committed' : List (Journal K V)}
    (hroot : s'.tab.root = root₀.applyJournals committed')
    (hlog : s'.log = committed'.flatMap commitRecords)
    (htx : s'.txns = s.txns.insert id t')
    (hprep : ∀ id', id' ≠ id → s'.tab.prepare.lookup id' = s.tab.prepare.lookup id')
    (hsub : ∀ id', id' ∈ prepared → id' ∈ prepared') (hid : (s.txns.lookup id).isSome)
    (ht' : t'.id = id ∧ (id ∉ prepared' → t'.Applies t'.rwlog) ∧
      ∀ j, s'.tab.prepare.lookup id = some j → t'.Applies j)
    (hpend : (s'.tab.prepare.lookup id).isSome → id ∈ prepared') :
    CommitInv root₀ begun prepared' committed' s' where
  root := hroot
  log := hlog
  txn id₁ t ht := by
    rw [htx, lookup_insert_ite] at ht
    split at ht
    · cases ht; subst_vars; exact ht'
    · obtain ⟨h₁, h₂, h₃⟩ := h.txn id₁ t ht
      exact ⟨h₁, fun hn => h₂ (fun hp => hn (hsub _ hp)), by rw [hprep _ ‹_›]; exact h₃⟩
  pending id₁ hp := by
    rw [htx, lookup_insert_ite]
    by_cases e : id₁ = id
    · subst e; simpa using hpend hp
    · rw [hprep _ e] at hp
      simpa [e] using And.imp_left (hsub _) (h.pending id₁ hp)
  fresh id₁ hn := by
    have : id₁ ≠ id := by rintro rfl; simp [h.fresh _ hn] at hid
    rw [htx, lookup_insert_ite, if_neg this, h.fresh _ hn]

theorem CommitInv.new (h : CommitInv root₀ begun prepared committed s) (id : Guid)
    (hid : id ∉ begun) (w : Bool) :
    CommitInv root₀ (id :: begun) prepared committed (s.setTxn id (new s.tab id w)) where
  root := h.root
  log := h.log
  txn id₁ t ht := by
    simp only [TabSys.setTxn, lookup_insert_ite] at ht
    split at ht
    · cases ht; subst_vars
      refine ⟨rfl, fun _ => applies_new _ _ _, fun j hj => ?_⟩
      simpa [h.fresh _ hid] using (h.pending _ (Option.isSome_iff_exists.mpr ⟨j, hj⟩)).2
    · exact h.txn id₁ t ht
  pending id₁ hp := by
    obtain ⟨hp₁, hp₂⟩ := h.pending id₁ hp
    exact ⟨hp₁, by simp only [TabSys.setTxn, lookup_insert_ite]; split <;> simp [hp₂]⟩
  fresh id₁ hn := by
    simp only [List.mem_cons, not_or] at hn
    simp [TabSys.setTxn, lookup_insert_ite, hn.1, h.fresh _ hn.2]

/-- A `get`, `upsert` or `delete` of a transaction that has not prepared. -/
theorem CommitInv.setWorking (h : CommitInv root₀ begun prepared committed s) {id : Guid}
    {t t' : FileMemTxn K V} (ht : s.txns.lookup id = some t) (hnp : id ∉ prepared)
    (hid : t'.id = t.id) (happ : t.Applies t.rwlog → t'.Applies t'.rwlog) :
    CommitInv root₀ begun prepared committed (s.setTxn id t') :=
  h.update h.root h.log rfl (fun _ _ => rfl) (fun _ hp => hp) (by simp [ht])
    ⟨hid.trans (h.txn id t ht).1, fun _ => happ ((h.txn id t ht).2.1 hnp),
      fun j hj => absurd (h.pending id (Option.isSome_iff_exists.mpr ⟨j, hj⟩)).1 hnp⟩
    (fun hp => (h.pending id hp).1)

/-- A call that only records a new state for a transaction that has prepared or that may
have prepared, leaving its roots and journal. -/
theorem CommitInv.setState (h : CommitInv root₀ begun prepared committed s) {id : Guid}
    {t : FileMemTxn K V} (ht : s.txns.lookup id = some t) (st : TxState)
    {prepared' : List Guid} (hsub : ∀ id', id' ∈ prepared → id' ∈ prepared') :
    CommitInv root₀ begun prepared' committed (s.setTxn id { t with state := st }) :=
  h.update h.root h.log rfl (fun _ _ => rfl) hsub (by simp [ht])
    ⟨(h.txn id t ht).1, fun hn => (h.txn id t ht).2.1 (fun hp => hn (hsub _ hp)),
      (h.txn id t ht).2.2⟩
    (fun hp => hsub _ (h.pending id hp).1)

/-- A `prepare` of an id no transaction has: the id counts as prepared. -/
theorem CommitInv.setNone (h : CommitInv root₀ begun prepared committed s) {id : Guid}
    (ht : s.txns.lookup id = none) : CommitInv root₀ begun (id :: prepared) committed s where
  root := h.root
  log := h.log
  txn id₁ t ht₁ := by
    obtain ⟨h₁, h₂, h₃⟩ := h.txn id₁ t ht₁
    have : id₁ ≠ id := by rintro rfl; simp [ht] at ht₁
    exact ⟨h₁, fun hn => h₂ (fun hp => hn (List.mem_cons_of_mem _ hp)), h₃⟩
  pending id₁ hp := And.imp_left (List.mem_cons_of_mem _) (h.pending id₁ hp)
  fresh := h.fresh

variable [DecidableEq V] (tryPrepare : TryPrepare K V) (ptrEq : PtrEq K V)

theorem CommitInv.prepare (h : CommitInv root₀ begun prepared committed s) {id : Guid}
    {t : FileMemTxn K V} (ht : s.txns.lookup id = some t) (hnp : id ∉ prepared) :
    CommitInv root₀ begun (id :: prepared) committed (s.step tryPrepare ptrEq (.prepare id)).1 := by
  have hid := (h.txn id t ht).1
  simp only [TabSys.step, ht]
  rcases prepareInner_cases tryPrepare ptrEq s.tab t with ⟨e, he⟩ | he <;> rw [he]
  · exact h.setState ht .preparFail (fun _ => List.mem_cons_of_mem _)
  · refine h.update h.root h.log rfl (fun id' hne => ?_) (fun _ => List.mem_cons_of_mem _)
      (by simp [ht]) ⟨hid, fun hn => absurd (List.mem_cons_self _ _) hn, fun j hj => ?_⟩
      (fun _ => List.mem_cons_self _ _)
    · simp [hid, AList.lookup_insert_ne hne]
    · simp only [hid, AList.lookup_insert, Option.some.injEq] at hj
      subst hj
      exact (h.txn id t ht).2.1 hnp

theorem CommitInv.commit (h : CommitInv root₀ begun prepared committed s) {id : Guid}
    {t : FileMemTxn K V} (ht : s.txns.lookup id = some t) :
    CommitInv root₀ begun prepared
      (committed ++ (s.step tryPrepare ptrEq (.commit id)).2.journal?.toList)
      (s.step tryPrepare ptrEq (.commit id)).1 := by
  have hid := (h.txn id t ht).1
  simp only [TabSys.step, ht]
  rcases commitInner_cases ptrEq s.tab t with ⟨-, he⟩ | ⟨j, hj, he⟩ <;> rw [he]
  · simpa [Reply.journal?] using h.setState ht .commitFail (fun _ hp => hp)
  · rw [hid] at hj
    refine h.update ?_ (by simp [Reply.journal?, h.log]) rfl (fun id' hne => ?_) (fun _ hp => hp)
      (by simp [ht]) ⟨hid, fun hn => absurd (h.pending id (by simp [hj])).1 hn, ?_⟩ ?_
    · show (if ptrEq.test s.tab.root t.old then t.root else s.tab.root.applyWrites j) = _
      rw [commit_paths_agree ptrEq ((h.txn id t ht).2.2 j hj), h.root]
      simp [Reply.journal?]
    · simp [hid, AList.lookup_erase_ne hne]
    · simp [hid, AList.lookup_erase]
    · simp [hid, AList.lookup_erase]

theorem CommitInv.rollback (h : CommitInv root₀ begun prepared committed s) {id : Guid}
    {t : FileMemTxn K V} (ht : s.txns.lookup id = some t) :
    CommitInv root₀ begun prepared committed (s.step tryPrepare ptrEq (.rollback id)).1 := by
  have hid := (h.txn id t ht).1
  simp only [TabSys.step, ht]
  refine h.update h.root h.log rfl (fun id' hne => ?_) (fun _ hp => hp) (by simp [ht])
    ⟨hid, (h.txn id t ht).2.1, fun j hj => ?_⟩ (fun hp => ?_)
  · simp [rollbackInner, hid, AList.lookup_erase_ne hne]
  · simp [rollbackInner, hid, AList.lookup_erase] at hj
  · simp [rollbackInner, hid, AList.lookup_erase] at hp

/-- **Each call keeps the invariant.** -/
theorem CommitInv.step (h : CommitInv root₀ begun prepared committed s) {a : Action K V}
    (ha : a.allowed begun prepared = true) :
    CommitInv root₀ (a.begunAfter begun) (a.preparedAfter prepared)
      (committed ++ (s.step tryPrepare ptrEq a).2.journal?.toList)
      (s.step tryPrepare ptrEq a).1 := by
  cases a with
  | new i w =>
    simpa [TabSys.step, Reply.journal?] using h.new i (by simpa [Action.allowed] using ha) w
  | get i key | upsert i key _ | delete i key =>
    replace ha : i ∉ prepared := by simpa [Action.allowed, List.contains] using ha
    simp only [TabSys.step, Action.begunAfter, Action.preparedAfter]
    split <;> simp only [Reply.journal?, Option.toList, List.append_nil]
    · exact h
    · next t ht =>
      first
      | exact h.setWorking ht ha (get_id t key) (get_applies · key)
      | exact h.setWorking ht ha rfl (upsert_applies · key _)
      | exact h.setWorking ht ha rfl (delete_applies · key)
  | prepare i =>
    replace ha : i ∉ prepared := by simpa [Action.allowed, List.contains] using ha
    cases ht : s.txns.lookup i with
    | none =>
      simpa [TabSys.step, ht, Reply.journal?, Action.begunAfter, Action.preparedAfter] using
        h.setNone ht
    | some t =>
      have : (s.step tryPrepare ptrEq (.prepare i)).2.journal? = none := by
        simp only [TabSys.step, ht]; rfl
      simpa [this, Action.begunAfter, Action.preparedAfter] using h.prepare tryPrepare ptrEq ht ha
  | commit i =>
    cases ht : s.txns.lookup i with
    | none => simpa [TabSys.step, ht, Reply.journal?] using h
    | some t => simpa [Action.begunAfter, Action.preparedAfter] using h.commit tryPrepare ptrEq ht
  | rollback i =>
    cases ht : s.txns.lookup i with
    | none => simpa [TabSys.step, ht, Reply.journal?] using h
    | some t =>
      simpa [Action.begunAfter, Action.preparedAfter, TabSys.step, ht, Reply.journal?] using
        h.rollback tryPrepare ptrEq ht

/-- **A whole run keeps the invariant.** -/
theorem CommitInv.run (h : CommitInv root₀ begun prepared committed s) {acts : List (Action K V)}
    (hd : disciplined begun prepared acts = true) :
    ∃ b p, CommitInv root₀ b p (committed ++ committedJournals (s.run tryPrepare ptrEq acts).2)
      (s.run tryPrepare ptrEq acts).1 := by
  induction acts generalizing s begun prepared committed with
  | nil => exact ⟨begun, prepared, by simpa [TabSys.run] using h⟩
  | cons a as ih =>
    simp only [disciplined, Bool.and_eq_true] at hd
    obtain ⟨b, p, h'⟩ := ih (h.step tryPrepare ptrEq hd.1) hd.2
    exact ⟨b, p, by simpa [TabSys.run] using h'⟩

omit [DecidableEq K] [DecidableEq V] in
/-- Every prefix of a schedule the callers keep is one. -/
theorem disciplined_take {begun prepared : List Guid} {acts : List (Action K V)}
    (h : disciplined begun prepared acts = true) (n : Nat) :
    disciplined begun prepared (acts.take n) = true := by
  induction acts generalizing begun prepared n with
  | nil => simp [disciplined]
  | cons a as ih =>
    cases n with
    | zero => rfl
    | succ n =>
      simp only [disciplined, Bool.and_eq_true, List.take_succ_cons] at h ⊢
      exact ⟨h.1, ih h.2 n⟩

end PiDb
