import PiDb.Store.Model
import PiDb.Core.Meta
import PiDb.Txn.Model

/-!
# Store — opening a table

`LogFileTab::new` loads a table's own log into a fresh `AsyncLogFileStore`, copies the
values it loaded into an empty root, and then, for each ancestor of its fork chain, loads
that ancestor's log into another fresh store, up to the segment below the previous hop's
`parent_log_id`, and upserts the ancestor's values into the root.

* `Decides`: what the loader holds after it has been offered a list of records, newest
  first: each key's value is the one its first offered record, the newest, leaves.  Offering
  one more record keeps it (`Decides.visit`), whatever path the statistics bookkeeping of
  `is_require` and `load` takes, so a whole load does (`decides_load`).
* `Disk`: the two places `LogFileTab::new` reads logs from: the table's own log under
  `DB_PATH` (`.` when unset), its ancestors' relative to the working directory.
* `new_root_latest_wins`: a table with no ancestor opens with the latest-wins reading of its
  log.
* `forkOverwrite`: a child that overwrote and removed inherited keys; its ancestor's values
  come back when it is opened (`forkOverwrite_ancestor_wins`), since each ancestor is loaded
  into a store of its own, which knows nothing of the child's records, and upserted over the
  root.
-/

namespace PiDb

namespace BinMap

variable {K V : Type} [DecidableEq K]

/-- `for (k, v) in map.iter() { root.upsert(k, v) }`: every entry of a store's map upserted
into a root. -/
def upsertAll (root : BinMap K V) (map : AList (fun _ : K => V)) : BinMap K V :=
  map.entries.foldl (fun root e => root.upsert e.1 e.2) root

theorem get_foldl_upsert (k : K) :
    ∀ (l : List (Sigma fun _ : K => V)) (root : BinMap K V), l.NodupKeys →
      (l.foldl (fun root e => root.upsert e.1 e.2) root).get k = (l.dlookup k).or (root.get k)
  | [], _, _ => rfl
  | ⟨k₀, v₀⟩ :: l, root, hl => by
    have hk₀ : k₀ ∉ l.keys := List.not_mem_keys_of_nodupKeys_cons hl
    rw [List.foldl_cons, get_foldl_upsert k l _ (List.nodupKeys_of_nodupKeys_cons hl)]
    by_cases h : k = k₀
    · subst h
      simp [List.dlookup_cons_eq, List.dlookup_eq_none.mpr hk₀]
    · simp [List.dlookup_cons_ne l ⟨k₀, v₀⟩ h, h]

/-- The map's value where it has one, the root's elsewhere. -/
@[simp] theorem get_upsertAll (root : BinMap K V) (map : AList (fun _ : K => V)) (k : K) :
    (root.upsertAll map).get k = (map.lookup k).or (root.get k) :=
  get_foldl_upsert k map.entries root map.nodupKeys

end BinMap

namespace AsyncLogFileStore

variable {K V : Type} [DecidableEq K]

/-- The loader has been offered the records `rs`, newest first: a key's value is the one its
first offered record leaves, and a key is decided (in `tmpMap` or `removed`) exactly when a
record of it was offered. -/
def Decides (rs : List (LogRecord K V)) (s : AsyncLogFileStore K V) : Prop :=
  s.isInit = true ∧ ∀ k, s.map.lookup k = (rs.find? (·.key = k)).bind LogRecord.value ∧
    (k ∈ s.tmpMap ∨ k ∈ s.removed ↔ (rs.find? (·.key = k)).isSome)

theorem decides_fresh (f : LogFile K V) : Decides [] (fresh f) :=
  ⟨rfl, fun k => by simp [fresh]⟩

/-- **Offering one more record keeps `Decides`**, whichever statistics branch `is_require`
and `load` take: a required record was the first of its key, and decides it; a record not
required changes nothing the invariant reads. -/
theorem Decides.visit {rs : List (LogRecord K V)} {s : AsyncLogFileStore K V}
    (h : Decides rs s) (p : Nat) (r : LogRecord K V) : Decides (rs ++ [r]) (s.visit p r) := by
  obtain ⟨hi, hk⟩ := h
  refine ⟨by rw [isInit_visit, hi], fun k => ?_⟩
  rw [map_visit, tmpMap_visit, removed_visit]
  by_cases e : k = r.key
  · subst e
    by_cases hb : r.key ∉ s.removed ∧ r.key ∉ s.tmpMap
    · -- the record is the newest of its key: it decides it
      have hn : rs.find? (·.key = r.key) = none :=
        Option.not_isSome_iff_eq_none.mp fun hs => by have := (hk r.key).2.mpr hs; tauto
      have h0 : s.map.lookup r.key = none := by simpa [hn] using (hk r.key).1
      cases hv : r.value <;> simp [hb, hv, hi, h0, hn, List.find?_append]
    · -- a newer record decided the key: nothing changes
      obtain ⟨r', hr'⟩ := Option.isSome_iff_exists.mp ((hk r.key).2.mp (by tauto))
      simpa [hb, hr', List.find?_append] using hk r.key
  · -- another key: nothing changes
    have hm : ∀ l : List K, k ∈ l.insert r.key ↔ k ∈ l := fun l => by
      simp [List.mem_insert_iff, e]
    rw [find?_concat_of_ne e]
    cases r.value <;> split_ifs <;> simpa [hm, AList.lookup_insert_ne e] using hk k

theorem Decides.visitAll {rs : List (LogRecord K V)} {s : AsyncLogFileStore K V}
    (h : Decides rs s) (p : Nat) :
    ∀ l : List (LogRecord K V), Decides (rs ++ l) (l.foldl (fun s r => s.visit p r) s)
  | [] => by simpa using h
  | r :: l => by simpa using (h.visit p r).visitAll p l

theorem Decides.loadSegments {rs : List (LogRecord K V)} {s : AsyncLogFileStore K V}
    (h : Decides rs s) :
    ∀ segs : List (Segment K V),
      Decides (rs ++ segs.flatMap (·.records.reverse)) (segs.foldl loadSegment s)
  | [] => by simpa using h
  | seg :: segs => by
    simpa [loadSegment] using (h.visitAll seg.index seg.records.reverse).loadSegments segs

end AsyncLogFileStore

open AsyncLogFileStore

namespace LogFile

variable {K V : Type} [DecidableEq K]

/-- **A whole load decides every key by its newest record.**  Loading the log with no bound
into a fresh store leaves in `map` the latest-wins value of each key. -/
theorem decides_load (f : LogFile K V) :
    Decides f.records.reverse (f.load none (fresh f)) := by
  have := (decides_fresh f).loadSegments f.segments.reverse
  simpa [load, records, List.reverse_flatMap, Function.comp_def] using this

theorem lookup_load (f : LogFile K V) (k : K) :
    (f.load none (fresh f)).map.lookup k = latestValue f.records k :=
  ((decides_load f).2 k).1

/-- The records of the segments up to `b`: what a fork inherits of its parent's log when it
was forked at segment `b + 1`. -/
def recordsUpTo (f : LogFile K V) (b : Nat) : List (LogRecord K V) :=
  (f.segments.filter (·.index ≤ b)).flatMap (·.records)

/-- A load bounded at segment `b`, as of an ancestor, decides every key by its newest record
up to `b`. -/
theorem decides_load_upTo (f : LogFile K V) (b : Nat) :
    Decides (f.recordsUpTo b).reverse (f.load (some b) (fresh f)) := by
  have := (decides_fresh f).loadSegments (f.segments.filter (·.index ≤ b)).reverse
  simpa [load, recordsUpTo, List.reverse_flatMap, Function.comp_def] using this

theorem lookup_load_upTo (f : LogFile K V) (b : Nat) (k : K) :
    (f.load (some b) (fresh f)).map.lookup k = latestValue (f.recordsUpTo b) k :=
  ((decides_load_upTo f b).2 k).1

end LogFile

/-- `LogFileTab`: the table's `MemeryTab` (behind its mutex) and its store. -/
structure LogFileTab (K V : Type) where
  mem : MemeryTab K V
  store : AsyncLogFileStore K V

/-- The logs `LogFileTab::new` opens, by table name: the table's own at `DB_PATH/<tab>`
(`DB_PATH` defaulting to `.`), where every writer of the database puts it, and each
ancestor's at `<tab>` relative to the working directory.  They are the same directory when
`DB_PATH` is unset or names the working directory (`Disk.same`). -/
structure Disk (K V : Type) where
  atDbPath : Atom → LogFile K V
  atCwd : Atom → LogFile K V

/-- `DB_PATH` unset: both paths name one directory. -/
def Disk.same {K V : Type} (logs : Atom → LogFile K V) : Disk K V := ⟨logs, logs⟩

namespace LogFileTab

variable {K V M : Type} [DecidableEq K]

/-- The fork-chain loop of `LogFileTab::new`: each ancestor `tm` is loaded into a fresh
store up to the segment `log_file_id - 1`, `log_file_id` being the previous hop's
`parent_log_id`, and its map is upserted into the root.  `none` is the panic of
`log_file_id.unwrap()` on `None`. -/
def loadAncestors (logs : Atom → LogFile K V) :
    List (TableMetaInfo M) → Option Nat → BinMap K V → Option (BinMap K V)
  | [], _, root => some root
  | tm :: rest, logFileId, root =>
    match logFileId with
    | none => none
    | some id =>
      let store := (logs tm.tabName).load (some (id - 1)) (fresh (logs tm.tabName))
      loadAncestors logs rest tm.parentLogId (root.upsertAll store.map)

/-- `LogFileTab::new`: `chains` is the fork chain from the table itself to its oldest
ancestor; the table's own log is read under `DB_PATH`, its ancestors' relative to the
working directory. -/
def new (disk : Disk K V) (tab : Atom) (chains : List (TableMetaInfo M)) :
    Option (LogFileTab K V) :=
  let store := (disk.atDbPath tab).load none (fresh (disk.atDbPath tab))
  let root := BinMap.empty.upsertAll store.map
  (loadAncestors disk.atCwd (chains.drop 1) (chains.head?.bind (·.parentLogId)) root).map
    fun root => { mem := { prepare := ∅, root }, store := { store with isInit := false } }

/-- The root of a table with no ancestor is the replay of its log. -/
theorem root_new {disk : Disk K V} {tab : Atom} (leaf : Option (TableMetaInfo M))
    {t : LogFileTab K V} (h : new disk tab leaf.toList = some t) :
    t.mem.root = BinMap.empty.replay (disk.atDbPath tab).records := by
  obtain rfl := Option.some.inj
    ((by cases leaf <;> rfl : new disk tab leaf.toList = some _).symm.trans h)
  ext k : 2
  simp [BinMap.get_replay_empty, LogFile.lookup_load]

/-- **A table with no ancestor opens with the latest-wins reading of its log**: a key maps
to the value of its newest record when that record is an append, and is absent when it is a
removal or there is none, whatever the statistics bookkeeping did. -/
theorem new_root_latest_wins (disk : Disk K V) (tab : Atom) (leaf : Option (TableMetaInfo M)) :
    ∃ t, new disk tab leaf.toList = some t ∧
      t.mem.root = BinMap.empty.replay (disk.atDbPath tab).records := by
  obtain ⟨t, ht⟩ : ∃ t, new disk tab leaf.toList = some t := ⟨_, by cases leaf <;> rfl⟩
  exact ⟨t, ht, root_new leaf ht⟩

end LogFileTab

/-- The parent `"p"` wrote `1 ↦ 10` and `2 ↦ 5` before the fork; the child `"c"`, forked
at segment `1` of `"p"`, then removed `1` and wrote `2 ↦ 20`. -/
def forkOverwriteLogs : Atom → LogFile Nat Nat
  | "p" => ⟨[⟨0, [.plainAppend 1 10, .plainAppend 2 5]⟩], ⟨1, []⟩, []⟩
  | _ => ⟨[], ⟨1, [.remove 1, .plainAppend 2 20]⟩, []⟩

/-- The fork chain of `"c"`: itself, forked from `"p"` at segment `1`, then `"p"`. -/
def forkOverwriteChain : List (TableMetaInfo Unit) :=
  [{ tabName := "c", meta := (), parent := some "p", parentLogId := some 1, refCount := 0 },
   TableMetaInfo.new "p" ()]

/-- Opening `"c"` reads the parent's `1 ↦ 10` and `2 ↦ 5`, where the child's history (the
parent's records before the fork, then the child's) ends with `1` removed and `2 ↦ 20`. -/
theorem forkOverwrite_ancestor_wins :
    (LogFileTab.new (.same forkOverwriteLogs) "c" forkOverwriteChain).map
        (fun t => (t.mem.root.get 1, t.mem.root.get 2)) = some (some 10, some 5) ∧
      latestValue ((forkOverwriteLogs "p").records ++ (forkOverwriteLogs "c").records) 1 = none ∧
      latestValue ((forkOverwriteLogs "p").records ++ (forkOverwriteLogs "c").records) 2 =
        some 20 :=
  ⟨rfl, rfl, rfl⟩

end PiDb
