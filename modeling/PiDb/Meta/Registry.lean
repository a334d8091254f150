import PiDb.Store.Open

/-!
# Meta — the table registry

`ALL_TABLES` holds the `TableMetaInfo` of every table by name, and the meta-table `tabs_meta`
keeps the same records in its log.  `LogFileMetaTxn::commit` creates and drops tables and
`fork_prepare_inner` with `fork_commit_inner` forks one; each writes the records it changes
to the `tabs_meta` log through a store freshly opened over it (`metaWrite`, `metaRemove`).
`LogFileDB::new` rebuilds `ALL_TABLES` from that log after a restart (`rebuild`).

* The steps of these functions are defined one by one (`createCheck`, `register`,
  `dropFind`, `unregister`, `dropParent`, `forkPrepare`, `forkParent`), each ending where the
  source next takes the `ALL_TABLES` lock or awaits.  `alter`, `commit` and `fork` run them
  back to back, as they run when no other meta operation runs at the same time.
* `RefCounts`: every table's `ref_count` is the number of its forks and every parent is
  registered.  Every operation keeps it (`RefCounts.call`); from the empty registry it holds
  after every run, where a drop decrements only a positive count (`calls_refCounts`).
* `Agrees`: the latest-wins replay of the `tabs_meta` log is `ALL_TABLES`.  Every operation
  keeps it (`Agrees.call`), a fork whether or not its parent is registered, so the rebuild of
  `LogFileDB::new` gives back the registry (`calls_log_replays_registry`).
* `commit_error_prefix`: a commit that fails has applied every alter before the failing one
  and nothing of that one.

Each log write of these functions is taken to succeed.
-/

namespace PiDb

/-- The `Err` strings of the meta operations: `"tab_name: {:?} exist"`, `"delete tab: {:?}
failed, ref_count = {:?}"` (with the entry's own `tab_name`), `"delete tab: {:?} not
found"`, `"duplicate fork tab name in meta tab"`, and the error of `force_fork_inner`. -/
inductive MetaErr where
  | exist (tabName : Atom)
  | refCount (tabName : Atom) (refCount : Nat)
  | notFound (tabName : Atom)
  | duplicateFork
  | forceFork (e : String)
  deriving DecidableEq, Repr

/-- `ALL_TABLES` and the log of `tabs_meta`. -/
structure Registry (M : Type) where
  tables : AList (fun _ : Atom => TableMetaInfo M)
  metaLog : LogFile Atom (TableMetaInfo M)

/-- The record `fork_commit_inner` registers for a fork: `TableMetaInfo::new` with the parent
and the parent's segment `index` returned by `force_fork_inner`. -/
def TableMetaInfo.fork {M : Type} (tabName forkTabName : Atom) (meta : M) (index : Nat) :
    TableMetaInfo M :=
  { TableMetaInfo.new forkTabName meta with parent := some tabName, parentLogId := some index }

namespace Registry

variable {M : Type}

/-- No table, and an empty `tabs_meta` log. -/
def empty : Registry M := { tables := ∅, metaLog := ⟨[], ⟨0, []⟩, []⟩ }

/-! ### The steps -/

/-- `ALL_TABLES.lock().await.insert(tab_name, tmi)`. -/
def register (r : Registry M) (tabName : Atom) (tmi : TableMetaInfo M) : Registry M :=
  { r with tables := r.tables.insert tabName tmi }

/-- `ALL_TABLES.lock().await.remove(&tab_name)`. -/
def unregister (r : Registry M) (tabName : Atom) : Registry M :=
  { r with tables := r.tables.erase tabName }

/-- `store.write(k, v).await` on an `AsyncLogFileStore` freshly opened over the `tabs_meta`
log. -/
def metaWrite (r : Registry M) (k : Atom) (v : TableMetaInfo M) : Registry M :=
  { r with metaLog := ((AsyncLogFileStore.fresh r.metaLog).write k v true).1.logFile }

/-- `store.remove(k).await` on a store freshly opened over the `tabs_meta` log. -/
def metaRemove (r : Registry M) (k : Atom) : Registry M :=
  { r with metaLog := ((AsyncLogFileStore.fresh r.metaLog).remove k true).1.logFile }

/-- The check of a create: `ALL_TABLES.lock().await.get(tab_name).is_some()`. -/
def createCheck (r : Registry M) (tabName : Atom) : Except MetaErr Unit :=
  if (r.tables.lookup tabName).isSome then .error (.exist tabName) else .ok ()

/-- The `match` of a drop, under the `ALL_TABLES` lock: the table must be registered and have
no fork; its record is removed from the log and its parent is read. -/
def dropFind (r : Registry M) (tabName : Atom) : Except MetaErr (Registry M × Option Atom) :=
  match r.tables.lookup tabName with
  | none => .error (.notFound tabName)
  | some tab =>
    if 0 < tab.refCount then .error (.refCount tab.tabName tab.refCount)
    else .ok (r.metaRemove tabName, tab.parent)

/-- The end of a drop: under the lock the parent, when registered, counts one fork less and
its record is rewritten; a table with no parent has its record removed once more. -/
def dropParent (r : Registry M) (tabName : Atom) : Option Atom → Registry M
  | some parent =>
    match r.tables.lookup parent with
    | some value =>
      let value := { value with refCount := value.refCount - 1 }
      (r.register parent value).metaWrite parent value
    | none => r
  | none => r.metaRemove tabName

/-- `fork_prepare_inner`: the fork's name must be free. -/
def forkPrepare (r : Registry M) (forkTabName : Atom) : Except MetaErr Unit :=
  if (r.tables.lookup forkTabName).isSome then .error .duplicateFork else .ok ()

/-- The parent's update of `fork_commit_inner`, under the lock: when registered it counts one
fork more and its record is rewritten. -/
def forkParent (r : Registry M) (tabName : Atom) : Registry M :=
  match r.tables.lookup tabName with
  | some value =>
    let value := { value with refCount := value.refCount + 1 }
    (r.register tabName value).metaWrite tabName value
  | none => r

/-! ### The operations, each run to its end -/

/-- One iteration of the loop of `LogFileMetaTxn::commit`: a create (`Some(meta)`) or a drop
(`None`) of `tabName`. -/
def alter (r : Registry M) (tabName : Atom) : Option M → Except MetaErr (Registry M)
  | some meta =>
    (r.createCheck tabName).map fun () =>
      let tmi := TableMetaInfo.new tabName meta
      (r.register tabName tmi).metaWrite tabName tmi
  | none => (r.dropFind tabName).map fun (r', parent) => (r'.unregister tabName).dropParent tabName parent

/-- `LogFileMetaTxn::commit`: the alters in the iteration order of their map; the first that
fails ends the loop with its `Err`. -/
def commit (r : Registry M) : List (Atom × Option M) → Registry M × Except MetaErr Unit
  | [] => (r, .ok ())
  | (tabName, meta) :: rest =>
    match r.alter tabName meta with
    | .error e => (r, .error e)
    | .ok r' => r'.commit rest

/-- `fork_commit_inner`, `index` being what `force_fork_inner` returned: the fork is
registered, then the parent updated, then the fork's record written. -/
def forkCommit (r : Registry M) (tabName forkTabName : Atom) (meta : M)
    (index : Except String Nat) : Except MetaErr (Registry M) :=
  match index with
  | .error e => .error (.forceFork e)
  | .ok index =>
    let tmi := TableMetaInfo.fork tabName forkTabName meta index
    .ok (((r.register forkTabName tmi).forkParent tabName).metaWrite forkTabName tmi)

end Registry

/-- A meta operation: a `LogFileMetaTxn::commit` of its alters, or a fork of `tabName` into
`forkTabName`, `fork_prepare_inner` followed by `fork_commit_inner`. -/
inductive MetaCall (M : Type) where
  | commit (alters : List (Atom × Option M))
  | fork (tabName forkTabName : Atom) (meta : M) (index : Except String Nat)

/-- The call, when a fork, names another table than its parent as the fork. -/
def MetaCall.forksAnother {M : Type} : MetaCall M → Bool
  | .fork tabName forkTabName .. => tabName ≠ forkTabName
  | .commit _ => true

namespace Registry

variable {M : Type}

/-- One meta operation run to its end. -/
def call (r : Registry M) : MetaCall M → Registry M × Except MetaErr Unit
  | .commit alters => r.commit alters
  | .fork tabName forkTabName meta index =>
    match r.forkPrepare forkTabName with
    | .error e => (r, .error e)
    | .ok () =>
      match r.forkCommit tabName forkTabName meta index with
      | .error e => (r, .error e)
      | .ok r' => (r', .ok ())

/-- Meta operations run one after the other. -/
def calls (r : Registry M) (cs : List (MetaCall M)) : Registry M :=
  cs.foldl (fun r c => (r.call c).1) r

/-- Every fork of `cs` is issued on a table registered when it starts. -/
def forksOnRegistered (r : Registry M) : List (MetaCall M) → Bool
  | [] => true
  | c :: cs =>
    (match c with
      | .fork tabName .. => decide (tabName ∈ r.tables)
      | .commit _ => true) && forksOnRegistered (r.call c).1 cs

/-- `LogFileDB::new`: the `tabs_meta` log loaded into a fresh store, and each entry of the
loaded map inserted into the empty `ALL_TABLES`. -/
def rebuild (f : LogFile Atom (TableMetaInfo M)) : AList (fun _ : Atom => TableMetaInfo M) :=
  (f.load none (AsyncLogFileStore.fresh f)).map.entries.foldl (fun t e => t.insert e.1 e.2) ∅

end Registry

/-! ### What each step changes -/

namespace Registry

variable {M : Type} (r : Registry M)

@[simp] theorem tables_register (n : Atom) (v : TableMetaInfo M) :
    (r.register n v).tables = r.tables.insert n v := rfl

@[simp] theorem tables_unregister (n : Atom) : (r.unregister n).tables = r.tables.erase n := rfl

@[simp] theorem tables_metaWrite (k : Atom) (v : TableMetaInfo M) :
    (r.metaWrite k v).tables = r.tables := rfl

@[simp] theorem tables_metaRemove (k : Atom) : (r.metaRemove k).tables = r.tables := rfl

@[simp] theorem metaLog_register (n : Atom) (v : TableMetaInfo M) :
    (r.register n v).metaLog = r.metaLog := rfl

@[simp] theorem metaLog_unregister (n : Atom) : (r.unregister n).metaLog = r.metaLog := rfl

/-- A write of the `tabs_meta` log makes its record durable after what was pending. -/
theorem records_metaWrite (k : Atom) (v : TableMetaInfo M) :
    (r.metaWrite k v).metaLog.records = r.metaLog.records ++ r.metaLog.pending ++ [.plainAppend k v] :=
  (LogFile.records_delayCommit _ true).trans (by simp [AsyncLogFileStore.fresh])

@[simp] theorem pending_metaWrite (k : Atom) (v : TableMetaInfo M) :
    (r.metaWrite k v).metaLog.pending = [] := rfl

theorem records_metaRemove (k : Atom) :
    (r.metaRemove k).metaLog.records = r.metaLog.records ++ r.metaLog.pending ++ [.remove k] :=
  (LogFile.records_delayCommit _ true).trans (by simp [AsyncLogFileStore.fresh])

@[simp] theorem pending_metaRemove (k : Atom) : (r.metaRemove k).metaLog.pending = [] := rfl

/-- With nothing pending, a write of the `tabs_meta` log decides its key. -/
@[simp] theorem latestValue_metaWrite (h : r.metaLog.pending = []) (k : Atom)
    (v : TableMetaInfo M) (name : Atom) :
    latestValue (r.metaWrite k v).metaLog.records name =
      if k = name then some v else latestValue r.metaLog.records name := by
  simp [records_metaWrite, h]

@[simp] theorem latestValue_metaRemove (h : r.metaLog.pending = []) (k name : Atom) :
    latestValue (r.metaRemove k).metaLog.records name =
      if k = name then none else latestValue r.metaLog.records name := by
  simp [records_metaRemove, h]

/-- A successful `dropFind` found the table registered with no fork; it removed its record
and read its parent. -/
theorem dropFind_ok {n : Atom} {r' : Registry M} {parent : Option Atom}
    (h : r.dropFind n = .ok (r', parent)) :
    ∃ tab, r.tables.lookup n = some tab ∧ tab.refCount = 0 ∧ parent = tab.parent ∧
      r' = r.metaRemove n := by
  unfold dropFind at h
  split at h
  · cases h
  · next tab ht =>
    split at h
    · cases h
    · next hz =>
      simp only [Except.ok.injEq, Prod.mk.injEq] at h
      exact ⟨tab, ht, by omega, h.2.symm, h.1.symm⟩

theorem except_map_ok {ε α β : Type} {x : Except ε α} {f : α → β} {y : β}
    (h : x.map f = .ok y) : ∃ a, x = .ok a ∧ f a = y := by
  cases x with
  | error e => cases h
  | ok a => exact ⟨a, rfl, by simpa [Except.map] using h⟩

theorem except_map_error {ε α β : Type} {x : Except ε α} {f : α → β} {e : ε}
    (h : x.map f = .error e) : x = .error e := by
  cases x with
  | error e' => simpa [Except.map] using h
  | ok a => cases h

/-- A successful alter is a create of a free name or a drop that `dropFind` allowed. -/
theorem alter_ok {n : Atom} {meta : Option M} {r' : Registry M} (h : r.alter n meta = .ok r') :
    (∃ m, meta = some m ∧ r.tables.lookup n = none ∧
      r' = (r.register n (TableMetaInfo.new n m)).metaWrite n (TableMetaInfo.new n m)) ∨
    (meta = none ∧ ∃ r₁ parent, r.dropFind n = .ok (r₁, parent) ∧
      r' = (r₁.unregister n).dropParent n parent) := by
  cases meta with
  | some m =>
    obtain ⟨⟨⟩, hc, rfl⟩ := except_map_ok h
    refine .inl ⟨m, rfl, ?_, rfl⟩
    unfold createCheck at hc
    split at hc
    · cases hc
    · next hn => simpa using hn
  | none =>
    obtain ⟨⟨r₁, parent⟩, hd, rfl⟩ := except_map_ok h
    exact .inr ⟨rfl, r₁, parent, hd, rfl⟩

/-- A fork changes the registry only when its name is free and `force_fork_inner` returned a
segment. -/
theorem call_fork_cases (tab f : Atom) (meta : M) (index : Except String Nat) :
    (r.call (.fork tab f meta index)).1 = r ∨ ∃ i, r.tables.lookup f = none ∧
      (r.call (.fork tab f meta index)).1 =
        ((r.register f (TableMetaInfo.fork tab f meta i)).forkParent tab).metaWrite f
          (TableMetaInfo.fork tab f meta i) := by
  simp only [call, forkPrepare, forkCommit]
  split
  · exact .inl rfl
  · next hp =>
    cases index with
    | error e => exact .inl rfl
    | ok i =>
      refine .inr ⟨i, ?_, rfl⟩
      split at hp
      · cases hp
      · next hn => simpa using hn

/-- **A failed commit stops at its failing alter.**  When `LogFileMetaTxn::commit` returns
`Err`, the registry and the log are those the alters before the failing one leave, each
applied in full, and the failing alter, whose `Err` comes before any write, changed
nothing. -/
theorem commit_error_prefix {alters : List (Atom × Option M)} {e : MetaErr}
    (h : (r.commit alters).2 = .error e) :
    ∃ pre a post, alters = pre ++ a :: post ∧ r.commit pre = ((r.commit alters).1, .ok ()) ∧
      (r.commit alters).1.alter a.1 a.2 = .error e := by
  induction alters generalizing r with
  | nil => cases h
  | cons a rest ih =>
    obtain ⟨n, meta⟩ := a
    simp only [commit] at h ⊢
    split
    · next e' he =>
      rw [he] at h
      simp only [Except.error.injEq] at h
      subst h
      exact ⟨[], (n, meta), rest, rfl, rfl, he⟩
    · next r' hr =>
      rw [hr] at h
      obtain ⟨pre, a, post, rfl, hpre, ha⟩ := ih r' h
      refine ⟨(n, meta) :: pre, a, post, rfl, ?_, ha⟩
      simp only [List.cons_append, commit, hr, hpre]

end Registry

/-! ### Counting forks -/

theorem countP_entries_of_lookup {β : Atom → Type} {s : AList β} {a : Atom} {b : β a}
    (h : s.lookup a = some b) (p : Sigma β → Bool) :
    s.entries.countP p = (s.entries.kerase a).countP p + if p ⟨a, b⟩ then 1 else 0 := by
  obtain ⟨b', l₁, l₂, hn, hl, hk⟩ :=
    List.exists_of_kerase (AList.lookup_isSome.mp (Option.isSome_iff_exists.mpr ⟨b, h⟩))
  have hb : b' = b := by
    have : s.entries.dlookup a = some b := h
    rw [hl, List.dlookup_append, List.dlookup_eq_none.mpr hn, List.dlookup_cons_eq] at this
    simpa using this
  subst hb
  rw [hk, hl, List.countP_append, List.countP_append, List.countP_cons]
  omega

namespace Registry

variable {M : Type} (r : Registry M)

/-- The number of registered tables whose parent is `name`. -/
def children (name : Atom) : Nat := r.tables.entries.countP fun e => e.2.parent = some name

variable {r}

theorem children_register_of_none {n : Atom} (h : r.tables.lookup n = none)
    (v : TableMetaInfo M) (p : Atom) :
    (r.register n v).children p = r.children p + if v.parent = some p then 1 else 0 := by
  have hn : n ∉ r.tables.entries.keys := AList.lookup_eq_none.mp h
  simp [children, AList.insert_entries, List.kerase_of_not_mem_keys hn, List.countP_cons]

theorem children_register_of_some {n : Atom} {old : TableMetaInfo M}
    (h : r.tables.lookup n = some old) {v : TableMetaInfo M} (hv : v.parent = old.parent)
    (p : Atom) : (r.register n v).children p = r.children p := by
  simp only [children, tables_register, AList.insert_entries, List.countP_cons,
    countP_entries_of_lookup h, hv]

theorem children_unregister {n : Atom} {old : TableMetaInfo M}
    (h : r.tables.lookup n = some old) (p : Atom) :
    (r.unregister n).children p + (if old.parent = some p then 1 else 0) = r.children p := by
  simp only [children, countP_entries_of_lookup h, decide_eq_true_eq]
  rfl

@[simp] theorem children_metaWrite (k : Atom) (v : TableMetaInfo M) (p : Atom) :
    (r.metaWrite k v).children p = r.children p := rfl

@[simp] theorem children_metaRemove (k : Atom) (p : Atom) :
    (r.metaRemove k).children p = r.children p := rfl

/-- A registered table is one fork of its parent. -/
theorem children_pos {n : Atom} {tab : TableMetaInfo M} (h : r.tables.lookup n = some tab)
    {p : Atom} (hp : tab.parent = some p) : 0 < r.children p :=
  List.countP_pos_iff.mpr ⟨⟨n, tab⟩, AList.mem_lookup_iff.mp h, by simp [hp]⟩

end Registry

/-! ### The reference counts -/

namespace Registry

variable {M : Type} {r : Registry M}

theorem lookup_register (n : Atom) (v : TableMetaInfo M) (name : Atom) :
    (r.register n v).tables.lookup name = if name = n then some v else r.tables.lookup name := by
  split
  · subst_vars; exact AList.lookup_insert _
  · exact AList.lookup_insert_ne ‹_›

theorem lookup_unregister (n name : Atom) :
    (r.unregister n).tables.lookup name = if name = n then none else r.tables.lookup name := by
  split
  · subst_vars; exact AList.lookup_erase _ _
  · exact AList.lookup_erase_ne ‹_›

theorem lookup_of_lookup_unregister {n name : Atom} {tm : TableMetaInfo M}
    (h : (r.unregister n).tables.lookup name = some tm) : r.tables.lookup name = some tm := by
  rw [lookup_unregister] at h
  split at h
  · cases h
  · exact h

variable (r) in
/-- The reference counts of `ALL_TABLES` are right: every table's `ref_count` is the number of
registered tables forked from it, and every parent a table names is registered. -/
structure RefCounts : Prop where
  refCount : ∀ name tm, r.tables.lookup name = some tm → tm.refCount = r.children name
  parent : ∀ name tm p, r.tables.lookup name = some tm → tm.parent = some p → p ∈ r.tables

theorem RefCounts.empty : RefCounts (empty : Registry M) :=
  ⟨fun _ _ h => by simp [Registry.empty] at h, fun _ _ _ h => by simp [Registry.empty] at h⟩

/-- A name no table is registered under has no fork. -/
theorem RefCounts.children_of_not_mem (h : RefCounts r) {n : Atom} (hn : n ∉ r.tables) :
    r.children n = 0 :=
  List.countP_eq_zero.mpr fun ⟨k, tm⟩ hk hp =>
    hn (h.parent k tm n (AList.mem_lookup_iff.mpr hk) (by simpa using hp))

/-- The counts read only `ALL_TABLES`, which a log write leaves alone. -/
theorem RefCounts.metaWrite (h : RefCounts r) (k : Atom) (v : TableMetaInfo M) :
    RefCounts (r.metaWrite k v) :=
  ⟨h.refCount, h.parent⟩

theorem RefCounts.metaRemove (h : RefCounts r) (k : Atom) : RefCounts (r.metaRemove k) :=
  ⟨h.refCount, h.parent⟩

theorem mem_register_of_mem {q : Atom} (hq : q ∈ r.tables) (n : Atom) (v : TableMetaInfo M) :
    q ∈ (r.register n v).tables :=
  (AList.mem_insert _).mpr (.inr hq)

/-- A create registers a table with no parent and no fork. -/
theorem RefCounts.create (h : RefCounts r) {n : Atom} (hn : r.tables.lookup n = none) (m : M) :
    RefCounts ((r.register n (TableMetaInfo.new n m)).metaWrite n (TableMetaInfo.new n m)) := by
  refine RefCounts.metaWrite ⟨fun name tm ht => ?_, fun name tm p ht hp => ?_⟩ _ _
  · rw [lookup_register] at ht
    rw [children_register_of_none hn]
    split at ht
    · cases ht; subst_vars
      simp [TableMetaInfo.new, h.children_of_not_mem (AList.lookup_eq_none.mp hn)]
    · simp [TableMetaInfo.new, h.refCount name tm ht]
  · rw [lookup_register] at ht
    split at ht
    · cases ht; cases hp
    · exact mem_register_of_mem (h.parent name tm p ht hp) _ _

/-- Rewriting the record of a registered `p` with its number of forks restores the counts,
when every other count is right and every parent registered: the last step of a fork and of
a drop. -/
theorem RefCounts.setRefCount {p : Atom} {value : TableMetaInfo M}
    (hv : r.tables.lookup p = some value)
    (hrc : ∀ name tm, r.tables.lookup name = some tm → name ≠ p → tm.refCount = r.children name)
    (hpar : ∀ name tm q, r.tables.lookup name = some tm → tm.parent = some q → q ∈ r.tables)
    {c : Nat} (hc : c = r.children p) :
    RefCounts ((r.register p { value with refCount := c }).metaWrite p
      { value with refCount := c }) := by
  refine RefCounts.metaWrite ⟨fun name tm hl => ?_, fun name tm q hl hq => ?_⟩ _ _
  · rw [lookup_register] at hl
    rw [children_register_of_some hv (v := { value with refCount := c }) rfl]
    split at hl
    · cases hl; subst_vars; rfl
    · exact hrc name tm hl ‹_›
  · rw [lookup_register] at hl
    split at hl
    · cases hl; exact mem_register_of_mem (hpar p value q hv hq) _ _
    · exact mem_register_of_mem (hpar name tm q hl hq) _ _

/-- What a drop leaves: `n` unregistered, its parent, when it has one, counting one fork
less. -/
theorem RefCounts.drop (h : RefCounts r) {n : Atom} {r₁ : Registry M} {parent : Option Atom}
    (hd : r.dropFind n = .ok (r₁, parent)) : RefCounts ((r₁.unregister n).dropParent n parent) := by
  obtain ⟨tab, ht, hz, rfl, rfl⟩ := r.dropFind_ok hd
  have h0 : r.children n = 0 := hz ▸ (h.refCount n tab ht).symm
  -- no table is a fork of `n`
  have hnp : ∀ name tm, r.tables.lookup name = some tm → tm.parent ≠ some n :=
    fun _ _ hl hp => by have := children_pos hl hp; omega
  -- with `n` unregistered every parent is still registered, and every count but the one of
  -- `n`'s parent is right
  have hpar : ∀ name tm q, ((r.metaRemove n).unregister n).tables.lookup name = some tm →
      tm.parent = some q → q ∈ ((r.metaRemove n).unregister n).tables := fun name tm q hl hq =>
    have hl₁ := lookup_of_lookup_unregister hl
    AList.mem_erase.mpr ⟨fun e => hnp name tm hl₁ (e ▸ hq), h.parent name tm q hl₁ hq⟩
  have hrc : ∀ name tm, ((r.metaRemove n).unregister n).tables.lookup name = some tm →
      tab.parent ≠ some name → tm.refCount = ((r.metaRemove n).unregister n).children name :=
    fun name tm hl hp => by
      have hc := children_unregister (r := r.metaRemove n) ht name
      rw [if_neg hp, children_metaRemove] at hc
      rw [h.refCount name tm (lookup_of_lookup_unregister hl)]; omega
  cases hpar' : tab.parent with
  | none => exact RefCounts.metaRemove ⟨fun name tm hl => hrc name tm hl (by simp [hpar']), hpar⟩ n
  | some p =>
    have hpn : p ≠ n := fun e => hnp n tab ht (e ▸ hpar')
    obtain ⟨value, hv⟩ :=
      Option.isSome_iff_exists.mp (AList.lookup_isSome.mpr (h.parent n tab p ht hpar'))
    have hv₂ : ((r.metaRemove n).unregister n).tables.lookup p = some value := by
      rw [lookup_unregister, if_neg hpn]; exact hv
    simp only [dropParent, hv₂]
    refine RefCounts.setRefCount hv₂ (fun name tm hl hne => hrc name tm hl ?_) hpar ?_
    · simpa [hpar'] using Ne.symm hne
    · have hc := children_unregister (r := r.metaRemove n) ht p
      rw [hpar', if_pos rfl, children_metaRemove] at hc
      rw [h.refCount p value hv]; omega

/-- A drop decrements only a positive count: the parent it decrements counts the dropped
table among its forks. -/
theorem RefCounts.dropParent_pos (h : RefCounts r) {n p : Atom} {r₁ : Registry M}
    (hd : r.dropFind n = .ok (r₁, some p)) {v : TableMetaInfo M}
    (hv : (r₁.unregister n).tables.lookup p = some v) : 0 < v.refCount := by
  obtain ⟨tab, ht, hz, hp, rfl⟩ := r.dropFind_ok hd
  have hpos := children_pos ht hp.symm
  have hpn : p ≠ n := fun e => by
    have := h.refCount n tab ht; subst e; omega
  rw [lookup_unregister, if_neg hpn, tables_metaRemove] at hv
  rw [h.refCount p v hv]; exact hpos

/-- A fork of a registered table into a free name registers the fork with no fork of its own
and counts it among its parent's. -/
theorem RefCounts.fork (h : RefCounts r) {tab f : Atom} (htab : tab ∈ r.tables)
    (hf : r.tables.lookup f = none) (meta : M) (index : Nat) :
    RefCounts (((r.register f (TableMetaInfo.fork tab f meta index)).forkParent tab).metaWrite f
      (TableMetaInfo.fork tab f meta index)) := by
  set tmi := TableMetaInfo.fork tab f meta index
  have htf : tab ≠ f := fun e => by subst e; simp [AList.lookup_eq_none.mp hf] at htab
  obtain ⟨value, hv⟩ := Option.isSome_iff_exists.mp (AList.lookup_isSome.mpr htab)
  have hv₁ : (r.register f tmi).tables.lookup tab = some value := by
    rw [lookup_register, if_neg htf]; exact hv
  have hc₁ := children_register_of_none hf tmi
  simp only [forkParent, hv₁]
  refine RefCounts.metaWrite (RefCounts.setRefCount hv₁ (fun name tm hl hne => ?_)
    (fun name tm q hl hq => ?_) ?_) _ _
  · -- the fork counts no fork, and the other counts are unchanged
    rw [hc₁]; rw [lookup_register] at hl
    split at hl
    · cases hl; subst_vars
      simp [tmi, TableMetaInfo.fork, TableMetaInfo.new, htf,
        h.children_of_not_mem (AList.lookup_eq_none.mp hf)]
    · simp [tmi, TableMetaInfo.fork, Ne.symm hne, h.refCount name tm hl]
  · rw [lookup_register] at hl
    split at hl
    · cases hl; cases hq; exact mem_register_of_mem htab _ _
    · exact mem_register_of_mem (h.parent name tm q hl hq) _ _
  · rw [hc₁]; simp [tmi, TableMetaInfo.fork, h.refCount _ _ hv]

theorem RefCounts.alter (h : RefCounts r) {n : Atom} {meta : Option M} {r' : Registry M}
    (ha : r.alter n meta = .ok r') : RefCounts r' := by
  rcases r.alter_ok ha with ⟨m, -, hn, rfl⟩ | ⟨-, r₁, parent, hd, rfl⟩
  · exact h.create hn m
  · exact h.drop hd

theorem RefCounts.commit (h : RefCounts r) (alters : List (Atom × Option M)) :
    RefCounts (r.commit alters).1 := by
  induction alters generalizing r with
  | nil => exact h
  | cons a rest ih =>
    simp only [Registry.commit]
    split
    · exact h
    · next r' hr => exact ih (h.alter hr)

/-- **Every meta operation keeps the reference counts**, a fork when it is issued on a
registered table. -/
theorem RefCounts.call (h : RefCounts r) (c : MetaCall M)
    (hc : ∀ tab f meta index, c = .fork tab f meta index → tab ∈ r.tables) :
    RefCounts (r.call c).1 := by
  cases c with
  | commit alters => exact h.commit alters
  | fork tab f meta index =>
    rcases call_fork_cases r tab f meta index with he | ⟨i, hf, he⟩ <;> rw [he]
    · exact h
    · exact h.fork (hc _ _ _ _ rfl) hf meta i

theorem RefCounts.calls (h : RefCounts r) (cs : List (MetaCall M))
    (hcs : forksOnRegistered r cs = true) : RefCounts (r.calls cs) := by
  induction cs generalizing r with
  | nil => exact h
  | cons c cs ih =>
    simp only [forksOnRegistered, Bool.and_eq_true] at hcs
    exact ih (h.call c fun tab f meta index e => by subst e; simpa using hcs.1) hcs.2

end Registry

/-! ### The `tabs_meta` log and `ALL_TABLES` -/

namespace Registry

variable {M : Type} {r : Registry M}

variable (r) in
/-- The `tabs_meta` log agrees with `ALL_TABLES`: nothing is left pending, and the
latest-wins replay of the log is the registry. -/
structure Agrees : Prop where
  pending : r.metaLog.pending = []
  replay : ∀ name, latestValue r.metaLog.records name = r.tables.lookup name

theorem Agrees.empty : Agrees (empty : Registry M) :=
  ⟨rfl, fun _ => by simp [Registry.empty, latestValue, LogFile.records, LogFile.segments]⟩

/-- A record registered and written. -/
theorem Agrees.register_write (h : Agrees r) (n : Atom) (v : TableMetaInfo M) :
    Agrees ((r.register n v).metaWrite n v) :=
  ⟨rfl, fun name => by
    by_cases e : name = n
    · subst e; simp [h.pending, lookup_register]
    · simp [h.pending, h.replay, lookup_register, e, Ne.symm e]⟩

/-- A record removed from the log, of a name no longer registered. -/
theorem Agrees.remove (h : Agrees r) {n : Atom} (hn : r.tables.lookup n = none) :
    Agrees (r.metaRemove n) :=
  ⟨rfl, fun name => by
    by_cases e : name = n
    · subst e; simp [h.pending, hn]
    · simp [h.pending, h.replay, Ne.symm e]⟩

theorem Agrees.alter (h : Agrees r) {n : Atom} {meta : Option M} {r' : Registry M}
    (ha : r.alter n meta = .ok r') : Agrees r' := by
  rcases r.alter_ok ha with ⟨m, -, -, rfl⟩ | ⟨-, r₁, parent, hd, rfl⟩
  · exact h.register_write _ _
  · obtain ⟨tab, -, -, rfl, rfl⟩ := r.dropFind_ok hd
    -- the drop's removal, then its unregistering, agree again
    have h₂ : Agrees ((r.metaRemove n).unregister n) :=
      ⟨rfl, fun name => by
        by_cases e : name = n
        · subst e; simp [h.pending, lookup_unregister]
        · simp [h.pending, h.replay, lookup_unregister, e, Ne.symm e]⟩
    cases tab.parent with
    | none => exact h₂.remove (by simp [lookup_unregister])
    | some p =>
      simp only [dropParent]
      split
      · exact h₂.register_write _ _
      · exact h₂

theorem Agrees.commit (h : Agrees r) (alters : List (Atom × Option M)) :
    Agrees (r.commit alters).1 := by
  induction alters generalizing r with
  | nil => exact h
  | cons a rest ih =>
    simp only [Registry.commit]
    split
    · exact h
    · next r' hr => exact ih (h.alter hr)

/-- A fork of a table into another name: the fork and its parent are registered and
written. -/
theorem Agrees.fork (h : Agrees r) {tab f : Atom} (htf : tab ≠ f) (tmi : TableMetaInfo M) :
    Agrees (((r.register f tmi).forkParent tab).metaWrite f tmi) := by
  unfold forkParent
  split
  · refine ⟨rfl, fun name => ?_⟩
    by_cases e₁ : name = f
    · subst e₁; simp [h.pending, AList.lookup_insert_ne (Ne.symm htf)]
    · by_cases e₂ : name = tab
      · subst e₂; simp [h.pending, lookup_register, e₁, Ne.symm e₁]
      · simp [h.pending, h.replay, lookup_register, e₁, e₂, Ne.symm e₁, Ne.symm e₂]
  · exact h.register_write _ _

/-- **Every meta operation keeps the log in agreement with the registry**, a fork when it
names another table than its parent, registered or not. -/
theorem Agrees.call (h : Agrees r) (c : MetaCall M) (hc : c.forksAnother = true) :
    Agrees (r.call c).1 := by
  cases c with
  | commit alters => exact h.commit alters
  | fork tab f meta index =>
    rcases call_fork_cases r tab f meta index with he | ⟨i, -, he⟩ <;> rw [he]
    · exact h
    · exact h.fork (by simpa [MetaCall.forksAnother] using hc) _

theorem Agrees.calls (h : Agrees r) (cs : List (MetaCall M))
    (hcs : cs.all MetaCall.forksAnother = true) : Agrees (r.calls cs) := by
  induction cs generalizing r with
  | nil => exact h
  | cons c cs ih =>
    simp only [List.all_cons, Bool.and_eq_true] at hcs
    exact ih (h.call c hcs.1) hcs.2

theorem lookup_foldl_insert (k : Atom) :
    ∀ (l : List (Sigma fun _ : Atom => TableMetaInfo M)) (t : AList (fun _ : Atom => TableMetaInfo M)),
      l.NodupKeys → (l.foldl (fun t e => t.insert e.1 e.2) t).lookup k = (l.dlookup k).or (t.lookup k)
  | [], _, _ => rfl
  | ⟨k₀, v₀⟩ :: l, t, hl => by
    have hk₀ : k₀ ∉ l.keys := List.not_mem_keys_of_nodupKeys_cons hl
    rw [List.foldl_cons, lookup_foldl_insert k l _ (List.nodupKeys_of_nodupKeys_cons hl)]
    by_cases h : k = k₀
    · subst h
      simp [List.dlookup_cons_eq, List.dlookup_eq_none.mpr hk₀, AList.lookup_insert]
    · simp [List.dlookup_cons_ne l ⟨k₀, v₀⟩ h, h, AList.lookup_insert_ne h]

/-- The rebuild of `LogFileDB::new` reads the latest-wins replay of the `tabs_meta` log. -/
theorem lookup_rebuild (f : LogFile Atom (TableMetaInfo M)) (name : Atom) :
    (rebuild f).lookup name = latestValue f.records name := by
  rw [rebuild, lookup_foldl_insert _ _ _ (AList.nodupKeys _), ← LogFile.lookup_load f name]
  simp [AList.lookup]

end Registry

/-- **Sequential meta operations keep the reference counts.**  From the empty registry, after
any run of creates, drops and forks, each run to its end before the next starts and every
fork issued on a registered table: every table's `ref_count` is its number of registered
forks, every parent is registered, and a drop decrements only a positive count. -/
theorem calls_refCounts {M : Type} (cs : List (MetaCall M))
    (hcs : Registry.forksOnRegistered Registry.empty cs = true) :
    Registry.RefCounts ((Registry.empty : Registry M).calls cs) ∧
      ∀ n r₁ p v, ((Registry.empty : Registry M).calls cs).dropFind n = .ok (r₁, some p) →
        (r₁.unregister n).tables.lookup p = some v → 0 < v.refCount :=
  have h := Registry.RefCounts.empty.calls cs hcs
  ⟨h, fun _ _ _ _ hd hv => h.dropParent_pos hd hv⟩

/-- **After every run the `tabs_meta` log replays to `ALL_TABLES`.**  From the empty registry,
after any run of creates, drops and forks, each run to its end before the next starts and
every fork naming another table than its parent, with every log write succeeding: the
latest-wins replay of the `tabs_meta` log is the registry, and the rebuild of
`LogFileDB::new` gives it back, parents and reference counts included. -/
theorem calls_log_replays_registry {M : Type} (cs : List (MetaCall M))
    (hcs : cs.all MetaCall.forksAnother = true) (name : Atom) :
    latestValue ((Registry.empty : Registry M).calls cs).metaLog.records name =
        ((Registry.empty : Registry M).calls cs).tables.lookup name ∧
      (Registry.rebuild ((Registry.empty : Registry M).calls cs).metaLog).lookup name =
        ((Registry.empty : Registry M).calls cs).tables.lookup name :=
  have h := Registry.Agrees.empty.calls cs hcs
  ⟨h.replay name, (Registry.lookup_rebuild _ name).trans (h.replay name)⟩

/-- A table `"p"` created, then forked into `"c"` at segment `1`. -/
def createFork : List (MetaCall Unit) := [.commit [("p", some ())], .fork "p" "c" () (.ok 1)]

theorem calls_refCounts_createFork :
    Registry.forksOnRegistered Registry.empty createFork = true ∧
      Registry.RefCounts ((Registry.empty : Registry Unit).calls createFork) ∧
      ∀ n r₁ p v, ((Registry.empty : Registry Unit).calls createFork).dropFind n = .ok (r₁, some p) →
        (r₁.unregister n).tables.lookup p = some v → 0 < v.refCount :=
  ⟨rfl, calls_refCounts createFork rfl⟩

theorem calls_log_replays_registry_createFork :
    createFork.all MetaCall.forksAnother = true ∧
      latestValue ((Registry.empty : Registry Unit).calls createFork).metaLog.records "c" =
        ((Registry.empty : Registry Unit).calls createFork).tables.lookup "c" ∧
      (Registry.rebuild ((Registry.empty : Registry Unit).calls createFork).metaLog).lookup "c" =
        ((Registry.empty : Registry Unit).calls createFork).tables.lookup "c" :=
  ⟨by decide, calls_log_replays_registry createFork (by decide) "c"⟩

/-- The alters of a meta transaction creating `"a"` and dropping `"b"`, which is not
registered, visited in that order. -/
def createThenMissingDrop : List (Atom × Option Unit) := [("a", some ()), ("b", none)]

theorem commit_error_prefix_createThenMissingDrop :
    ((Registry.empty : Registry Unit).commit createThenMissingDrop).2 = .error (.notFound "b") ∧
      ∃ pre a post, createThenMissingDrop = pre ++ a :: post ∧
        (Registry.empty : Registry Unit).commit pre =
          (((Registry.empty : Registry Unit).commit createThenMissingDrop).1, .ok ()) ∧
        ((Registry.empty : Registry Unit).commit createThenMissingDrop).1.alter a.1 a.2 =
          .error (.notFound "b") :=
  ⟨rfl, Registry.commit_error_prefix Registry.empty rfl⟩

/-- The commit fails on the drop of `"b"` and keeps `"a"` created, in `ALL_TABLES` and in
the `tabs_meta` log. -/
theorem createThenMissingDrop_keeps_create :
    ((Registry.empty : Registry Unit).commit createThenMissingDrop).2 = .error (.notFound "b") ∧
      ((Registry.empty : Registry Unit).commit createThenMissingDrop).1.tables.lookup "a" =
        some (TableMetaInfo.new "a" ()) ∧
      latestValue ((Registry.empty : Registry Unit).commit createThenMissingDrop).1.metaLog.records
        "a" = some (TableMetaInfo.new "a" ()) :=
  ⟨rfl, rfl, rfl⟩

end PiDb
