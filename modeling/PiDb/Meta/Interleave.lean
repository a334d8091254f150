import PiDb.Meta.Registry

/-!
# Meta — meta operations interleaved

A meta operation takes the `ALL_TABLES` lock once per step and awaits its log writes between
steps, so the steps of concurrent operations interleave.  A task is one operation under way:
the step it stands at (`MetaPc`) and, for a `LogFileMetaTxn::commit`, the alters still to
come.  A fork is one task from its `fork_prepare_inner` to the end of its
`fork_commit_inner`.

* `MetaPc.step` takes one step, made of the steps of `Registry`; `MetaTask.step` moves a task
  on, and `MetaSys.run` runs a schedule, a list of the tasks that take each step.
* `runAlone_ofAlters`, `runAlone_fork`: a task whose steps run back to back does what
  `Registry.commit` and `Registry.call` do, so the sequential runs of `Registry` are the
  schedules of this model that do not interleave.
* `doubleFork`: two forks of `"p"` into `"c"` both pass `fork_prepare_inner` and both commit;
  `"p"` then counts two forks where one table names it as parent, and two drops of `"c"`
  both decrement it (`doubleFork_refCount_two`).
* `racingCreates`: two creates of `"t"` both pass their check; `ALL_TABLES` keeps the
  second schema and the `tabs_meta` log the first (`racingCreates_log_disagrees`).
-/

namespace PiDb

/-- The step a meta task stands at: the steps of one alter of `LogFileMetaTxn::commit`, and
those of a fork, each ending where the source next takes the `ALL_TABLES` lock or awaits. -/
inductive MetaPc (M : Type) where
  | createCheck (tabName : Atom) (meta : M)
  | createInsert (tabName : Atom) (tmi : TableMetaInfo M)
  | createWrite (tabName : Atom) (tmi : TableMetaInfo M)
  | dropFind (tabName : Atom)
  | dropRemove (tabName : Atom) (parent : Option Atom)
  | dropParent (tabName : Atom) (parent : Option Atom)
  | forkPrepare (tabName forkTabName : Atom) (meta : M) (index : Except String Nat)
  | forkInsert (tabName forkTabName : Atom) (meta : M) (index : Except String Nat)
  | forkParent (tabName forkTabName : Atom) (tmi : TableMetaInfo M)
  | forkWrite (forkTabName : Atom) (tmi : TableMetaInfo M)

namespace MetaPc

variable {M : Type}

/-- The first step of an alter: a create's check, or a drop's `match`. -/
def ofAlter : Atom × Option M → MetaPc M
  | (tabName, some meta) => .createCheck tabName meta
  | (tabName, none) => .dropFind tabName

/-- One step: the registry after it, and the next step of the operation (`none` at its end),
or the `Err` that ends it. -/
def step (r : Registry M) : MetaPc M → Registry M × Except MetaErr (Option (MetaPc M))
  | .createCheck n m => (r, (r.createCheck n).map fun () => some (.createInsert n (.new n m)))
  | .createInsert n tmi => (r.register n tmi, .ok (some (.createWrite n tmi)))
  | .createWrite n tmi => (r.metaWrite n tmi, .ok none)
  | .dropFind n =>
    match r.dropFind n with
    | .error e => (r, .error e)
    | .ok (r', parent) => (r', .ok (some (.dropRemove n parent)))
  | .dropRemove n parent => (r.unregister n, .ok (some (.dropParent n parent)))
  | .dropParent n parent => (r.dropParent n parent, .ok none)
  | .forkPrepare tab f m index => (r, (r.forkPrepare f).map fun () => some (.forkInsert tab f m index))
  | .forkInsert tab f m index =>
    match index with
    | .error e => (r, .error (.forceFork e))
    | .ok index =>
      let tmi := TableMetaInfo.fork tab f m index
      (r.register f tmi, .ok (some (.forkParent tab f tmi)))
  | .forkParent tab f tmi => (r.forkParent tab, .ok (some (.forkWrite f tmi)))
  | .forkWrite f tmi => (r.metaWrite f tmi, .ok none)

end MetaPc

/-- A meta operation under way: its next step, `none` once it has ended, and the alters of a
commit still to come. -/
structure MetaTask (M : Type) where
  pc : Option (MetaPc M)
  alters : List (Atom × Option M)

namespace MetaTask

variable {M : Type}

/-- A `LogFileMetaTxn::commit` of `alters`, not started. -/
def ofAlters : List (Atom × Option M) → MetaTask M
  | [] => ⟨none, []⟩
  | a :: rest => ⟨some (.ofAlter a), rest⟩

/-- A fork of `tabName` into `forkTabName`, not started. -/
def fork (tabName forkTabName : Atom) (meta : M) (index : Except String Nat) : MetaTask M :=
  ⟨some (.forkPrepare tabName forkTabName meta index), []⟩

/-- One step of the task: an `Err` ends it, and the end of an alter starts the next one. -/
def step (t : MetaTask M) (r : Registry M) : Registry M × MetaTask M :=
  match t.pc with
  | none => (r, t)
  | some pc =>
    match pc.step r with
    | (r', .error _) => (r', ⟨none, []⟩)
    | (r', .ok (some pc')) => (r', ⟨some pc', t.alters⟩)
    | (r', .ok none) => (r', ofAlters t.alters)

/-- `n` steps of the task, with no other task's step between them. -/
def runAlone (t : MetaTask M) (r : Registry M) : Nat → Registry M
  | 0 => r
  | n + 1 => (t.step r).2.runAlone (t.step r).1 n

theorem runAlone_done {t : MetaTask M} (h : t.pc = none) (r : Registry M) :
    ∀ n, t.runAlone r n = r
  | 0 => rfl
  | n + 1 => by simp only [runAlone, step, h]; exact runAlone_done h r n

/-- An alter that fails ends the task at once, leaving the registry as it was. -/
theorem runAlone_error {a : Atom × Option M} {r : Registry M} {e : MetaErr}
    (he : r.alter a.1 a.2 = .error e) (rest : List (Atom × Option M)) (n : Nat) :
    (ofAlters (a :: rest)).runAlone r (n + 1) = r := by
  obtain ⟨tabName, meta⟩ := a
  have hstep : ((ofAlters ((tabName, meta) :: rest)).step r) = (r, ⟨none, []⟩) := by
    cases meta with
    | some m =>
      simp [ofAlters, step, MetaPc.ofAlter, MetaPc.step, Registry.except_map_error he, Except.map]
    | none => simp [ofAlters, step, MetaPc.ofAlter, MetaPc.step, Registry.except_map_error he]
  simp only [runAlone, hstep]
  exact runAlone_done rfl r n

/-- An alter that succeeds takes three steps and leaves the registry `Registry.alter` does,
the task then standing at the next alter. -/
theorem step_three {a : Atom × Option M} {r r' : Registry M} (ha : r.alter a.1 a.2 = .ok r')
    (rest : List (Atom × Option M)) (n : Nat) :
    (ofAlters (a :: rest)).runAlone r (n + 3) = (ofAlters rest).runAlone r' n := by
  obtain ⟨tabName, meta⟩ := a
  cases meta with
  | some m =>
    obtain ⟨⟨⟩, hc, rfl⟩ := Registry.except_map_ok ha
    simp [runAlone, ofAlters, step, MetaPc.ofAlter, MetaPc.step, hc, Except.map]
  | none =>
    obtain ⟨⟨r₁, parent⟩, hd, rfl⟩ := Registry.except_map_ok ha
    simp [runAlone, ofAlters, step, MetaPc.ofAlter, MetaPc.step, hd]

/-- **A commit task run alone is `LogFileMetaTxn::commit` run to its end**: with three steps
for each alter, it leaves the registry `Registry.commit` leaves. -/
theorem runAlone_ofAlters (r : Registry M) (alters : List (Atom × Option M)) (n : Nat)
    (hn : 3 * alters.length ≤ n) : (ofAlters alters).runAlone r n = (r.commit alters).1 := by
  induction alters generalizing r n with
  | nil => exact runAlone_done rfl r n
  | cons a rest ih =>
    obtain ⟨n, rfl⟩ : ∃ k, n = k + 3 := ⟨n - 3, by simp at hn; omega⟩
    obtain ⟨tabName, meta⟩ := a
    simp only [Registry.commit]
    split
    · next e he =>
      exact runAlone_error (a := (tabName, meta)) he rest (n + 2)
    · next r' ha =>
      rw [step_three (a := (tabName, meta)) ha]
      exact ih r' n (by simp at hn; omega)

/-- A create of `"a"`, then its drop. -/
def createAndDrop : List (Atom × Option Unit) := [("a", some ()), ("a", none)]

theorem runAlone_ofAlters_createAndDrop :
    3 * createAndDrop.length ≤ 6 ∧
      (ofAlters createAndDrop).runAlone Registry.empty 6 = (Registry.empty.commit createAndDrop).1 :=
  ⟨by decide, runAlone_ofAlters Registry.empty createAndDrop 6 (by decide)⟩

/-- **A fork task run alone is a fork run to its end**: its four steps leave the registry
`Registry.call` leaves. -/
theorem runAlone_fork (r : Registry M) (tabName forkTabName : Atom) (meta : M)
    (index : Except String Nat) (n : Nat) :
    (fork tabName forkTabName meta index).runAlone r (n + 4) =
      (r.call (.fork tabName forkTabName meta index)).1 := by
  simp only [Registry.call]
  cases hp : r.forkPrepare forkTabName with
  | error e =>
    simp only [runAlone, fork, step, MetaPc.step, hp, Except.map]
    exact runAlone_done rfl r _
  | ok u =>
    cases index with
    | error e =>
      simp only [runAlone, fork, step, MetaPc.step, hp, Except.map, Registry.forkCommit]
      exact runAlone_done rfl r _
    | ok i =>
      simp only [runAlone, fork, step, MetaPc.step, hp, Except.map, Registry.forkCommit, ofAlters]
      exact runAlone_done rfl _ _

end MetaTask

/-- The registry and the meta tasks under way. -/
structure MetaSys (M : Type) where
  reg : Registry M
  tasks : List (MetaTask M)

namespace MetaSys

variable {M : Type}

/-- Task `i` takes one step. -/
def step (s : MetaSys M) (i : Nat) : MetaSys M :=
  match s.tasks[i]? with
  | none => s
  | some t => ⟨(t.step s.reg).1, s.tasks.set i (t.step s.reg).2⟩

/-- A schedule: the task that takes each step, in order. -/
def run (s : MetaSys M) (schedule : List Nat) : MetaSys M := schedule.foldl step s

/-- No meta operation is under way. -/
def quiet (s : MetaSys M) : Bool := s.tasks.all (·.pc.isNone)

end MetaSys

/-- The registry with `"p"` created. -/
def withParent : Registry Unit := (Registry.empty.commit [("p", some ())]).1

/-- Two forks of `"p"` into `"c"`. -/
def doubleFork : MetaSys Unit :=
  ⟨withParent, [MetaTask.fork "p" "c" () (.ok 1), MetaTask.fork "p" "c" () (.ok 1)]⟩

/-- Both forks prepare, then the first commits, then the second. -/
def doubleForkSchedule : List Nat := [0, 1, 0, 0, 0, 1, 1, 1]

/-- `"c"` forked from `"p"`, then dropped by two tasks at once. -/
def doubleDrop : MetaSys Unit :=
  ⟨(withParent.call (.fork "p" "c" () (.ok 1))).1,
    [MetaTask.ofAlters [("c", none)], MetaTask.ofAlters [("c", none)]]⟩

/-- Both drops find `"c"` and unregister it, and the first decrements `"p"`. -/
def doubleDropSchedule : List Nat := [0, 1, 0, 1, 0]

/-- After the two forks `"p"` counts two forks where one table names it as parent.  After the
first drop of `"c"` has decremented `"p"` to zero, the second drop stands at its own
decrement of `"p"`. -/
theorem doubleFork_refCount_two :
    (doubleFork.run doubleForkSchedule).quiet = true ∧
      ((doubleFork.run doubleForkSchedule).reg.tables.lookup "p").map (·.refCount) = some 2 ∧
      (doubleFork.run doubleForkSchedule).reg.children "p" = 1 ∧
      ((doubleDrop.run doubleDropSchedule).reg.tables.lookup "p").map (·.refCount) = some 0 ∧
      ((doubleDrop.run doubleDropSchedule).tasks.map (·.pc.isSome)) = [false, true] :=
  ⟨rfl, rfl, rfl, rfl, rfl⟩

/-- Two creates of `"t"`, with two schemas. -/
def racingCreates : MetaSys Bool :=
  ⟨Registry.empty, [MetaTask.ofAlters [("t", some true)], MetaTask.ofAlters [("t", some false)]]⟩

/-- Both check, both register, the second writes the log, then the first. -/
def racingCreatesSchedule : List Nat := [0, 1, 0, 1, 1, 0]

/-- Once both creates have ended, `ALL_TABLES` holds the second schema and the latest record
of the `tabs_meta` log the first. -/
theorem racingCreates_log_disagrees :
    (racingCreates.run racingCreatesSchedule).quiet = true ∧
      ((racingCreates.run racingCreatesSchedule).reg.tables.lookup "t").map (·.meta) = some false ∧
      (latestValue (racingCreates.run racingCreatesSchedule).reg.metaLog.records "t").map (·.meta) =
        some true :=
  ⟨rfl, rfl, rfl⟩

end PiDb
