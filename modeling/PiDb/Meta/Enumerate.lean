import PiDb.Meta.Registry

/-!
# Meta — the tables `force_split` and `collect` visit

`LogFileDB::force_split` and `LogFileDB::collect` enumerate the tables through
`LogFileDB::open(tabs_meta)`: the first call opens the meta-table with `LogFileTab::new`,
caches it in `LOG_FILE_TABS`, and both iterate the keys of the map of its store.  The meta
operations write the `tabs_meta` log through stores of their own and never touch that cached
table.

* `Db.enumerate`: the names a `force_split` or `collect` visits, the meta-table opened and
  cached on the first call.
* `run_enumerates_cached`: once the meta-table is cached, every later `force_split` and
  `collect` visits the names of its map, whatever meta operations ran in between.
* `enumerate_opened`: the first enumeration visits the names of `ALL_TABLES` when the log
  agrees with it.
* `staleMeta`: a `force_split` on a new database, then a create of `"t"`, then a `collect`,
  which visits no table while `"t"` is registered (`staleMeta_collect_misses`).
-/

namespace PiDb

/-- `DB_META_TAB_NAME`. -/
def dbMetaTabName : Atom := "tabs_meta"

/-- The registry and, once opened, the meta-table `LOG_FILE_TABS` caches. -/
structure Db (M : Type) where
  reg : Registry M
  metaTab : Option (LogFileTab Atom (TableMetaInfo M))

/-- A call on the database: a meta operation, `LogFileDB::force_split` or
`LogFileDB::collect`. -/
inductive DbOp (M : Type) where
  | meta (c : MetaCall M)
  | forceSplit
  | collect

namespace Db

variable {M : Type}

/-- `LogFileDB::open(tabs_meta)`: the cached table, or a new `LogFileTab` over the
`tabs_meta` log, cached.  Modelled from the spec: the fork chain of `tabs_meta`, which
`ALL_TABLES` does not hold, is empty. -/
def openMeta (d : Db M) : Option (Db M × LogFileTab Atom (TableMetaInfo M)) :=
  match d.metaTab with
  | some t => some (d, t)
  | none =>
    (LogFileTab.new (.same fun _ => d.reg.metaLog) dbMetaTabName ([] : List (TableMetaInfo M))).map
      fun t => ({ d with metaTab := some t }, t)

/-- The names `force_split` and `collect` visit: the keys of the map of the meta-table's
store.  `none` is the `unwrap` of a failed open. -/
def enumerate (d : Db M) : Option (Db M × List Atom) :=
  d.openMeta.map fun q => (q.1, q.2.store.map.keys)

/-- One call: a meta operation changes the registry; `force_split` and `collect` reply with
the names they visit (the splits and collections of those tables are not modelled here). -/
def step (d : Db M) : DbOp M → Db M × Option (List Atom)
  | .meta c => ({ d with reg := (d.reg.call c).1 }, none)
  | .forceSplit | .collect =>
    match d.enumerate with
    | some (d', names) => (d', some names)
    | none => (d, none)

/-- A run of calls and the replies of the enumerating ones, in order. -/
def run (d : Db M) : List (DbOp M) → Db M × List (List Atom)
  | [] => (d, [])
  | op :: ops =>
    let q := d.step op
    let rest := q.1.run ops
    (rest.1, q.2.toList ++ rest.2)

theorem enumerate_cached {d : Db M} {t : LogFileTab Atom (TableMetaInfo M)}
    (h : d.metaTab = some t) : d.enumerate = some (d, t.store.map.keys) := by
  simp [enumerate, openMeta, h]

/-- A call keeps a cached meta-table, and an enumerating one visits its names. -/
theorem step_cached {d : Db M} {t : LogFileTab Atom (TableMetaInfo M)} (h : d.metaTab = some t)
    (op : DbOp M) :
    (d.step op).1.metaTab = some t ∧ ∀ names, (d.step op).2 = some names → names = t.store.map.keys := by
  cases op with
  | meta c => exact ⟨h, fun _ hn => by cases hn⟩
  | forceSplit | collect =>
    simp only [step, enumerate_cached h]
    exact ⟨h, fun _ hn => (Option.some.inj hn).symm⟩

/-- **A cached meta-table goes stale.**  Once `LOG_FILE_TABS` holds the meta-table, every
later `force_split` and `collect` visits the names of its map, whatever creates, drops and
forks run in between. -/
theorem run_enumerates_cached {d : Db M} {t : LogFileTab Atom (TableMetaInfo M)}
    (h : d.metaTab = some t) (ops : List (DbOp M)) :
    ∀ names ∈ (d.run ops).2, names = t.store.map.keys := by
  induction ops generalizing d with
  | nil => simp [run]
  | cons op ops ih =>
    obtain ⟨h₁, h₂⟩ := step_cached h op
    intro names hn
    simp only [run, List.mem_append, Option.mem_toList] at hn
    rcases hn with hn | hn
    · exact h₂ names hn
    · exact ih h₁ names hn

/-- **The first enumeration visits `ALL_TABLES`.**  Opening the meta-table loads the
`tabs_meta` log, so when the log agrees with the registry the names visited are exactly the
registered ones. -/
theorem enumerate_opened {d : Db M} (h : d.metaTab = none) (ha : d.reg.Agrees) (name : Atom) :
    ∃ d' names, d.enumerate = some (d', names) ∧ (name ∈ names ↔ name ∈ d.reg.tables) := by
  refine ⟨_, (d.reg.metaLog.load none (AsyncLogFileStore.fresh d.reg.metaLog)).map.keys,
    by simp only [enumerate, openMeta, h]; rfl, ?_⟩
  rw [← AList.mem_keys, ← AList.lookup_isSome, ← AList.lookup_isSome,
    LogFile.lookup_load, ha.replay]

end Db

/-- A new database, with no table and an empty `tabs_meta` log. -/
def newDb : Db Unit := ⟨Registry.empty, none⟩

theorem enumerate_opened_newDb :
    newDb.metaTab = none ∧ newDb.reg.Agrees ∧
      ∃ d' names, newDb.enumerate = some (d', names) ∧ ("t" ∈ names ↔ "t" ∈ newDb.reg.tables) :=
  ⟨rfl, Registry.Agrees.empty, Db.enumerate_opened rfl Registry.Agrees.empty "t"⟩

theorem run_enumerates_cached_newDb :
    ∃ t, (newDb.step .forceSplit).1.metaTab = some t ∧
      ∀ names ∈ ((newDb.step .forceSplit).1.run [.meta (.commit [("t", some ())]), .collect]).2,
        names = t.store.map.keys :=
  ⟨_, rfl, Db.run_enumerates_cached rfl _⟩

/-- A `force_split`, which caches the meta-table, a create of `"t"`, then a `collect`. -/
def staleMeta : List (DbOp Unit) := [.forceSplit, .meta (.commit [("t", some ())]), .collect]

/-- The `collect` visits no table, while `"t"` is registered. -/
theorem staleMeta_collect_misses :
    (newDb.run staleMeta).2 = [[], []] ∧ (newDb.run staleMeta).1.reg.tables.keys = ["t"] :=
  ⟨rfl, rfl⟩

end PiDb
