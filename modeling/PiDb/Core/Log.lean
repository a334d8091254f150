import PiDb.Core.Map

/-!
# Core — log records

A table's log is the sequence of records its `AsyncLogFileStore` appends to its `LogFile`:
`write_batch` and `write` append `LogMethod::PlainAppend` records, `remove_batch` and `remove`
append `LogMethod::Remove` records.

* `LogRecord`: a record as `LogFile::load` hands it to a `PairLoader`, an append carrying
  `Some(value)` and a removal carrying `None`.
* `BinMap.replay`: the latest-wins reading of a log, oldest record first; the newest record
  of a key decides it (`get_replay`).
-/

namespace PiDb

/-- A record of a log: `LogMethod::PlainAppend` with its value, or `LogMethod::Remove`. -/
inductive LogRecord (K V : Type) where
  | plainAppend (key : K) (value : V)
  | remove (key : K)
  deriving DecidableEq, Repr

namespace LogRecord

variable {K V : Type}

/-- The key of a record. -/
def key : LogRecord K V → K
  | plainAppend k _ => k
  | remove k => k

/-- The value `LogFile::load` passes with a record: `Some` for an append, `None` for a
removal. -/
def value : LogRecord K V → Option V
  | plainAppend _ v => some v
  | remove _ => none

@[simp] theorem key_plainAppend (k : K) (v : V) : (plainAppend k v).key = k := rfl
@[simp] theorem key_remove (k : K) : (remove k : LogRecord K V).key = k := rfl
@[simp] theorem value_plainAppend (k : K) (v : V) : (plainAppend k v).value = some v := rfl
@[simp] theorem value_remove (k : K) : (remove k : LogRecord K V).value = none := rfl

end LogRecord

namespace BinMap

variable {K V : Type} [DecidableEq K]

/-- One record applied to a map: an append upserts, a removal deletes. -/
def applyRecord (m : BinMap K V) : LogRecord K V → BinMap K V
  | .plainAppend k v => m.upsert k v
  | .remove k => m.delete k

@[simp] theorem get_applyRecord (m : BinMap K V) (r : LogRecord K V) (k : K) :
    (m.applyRecord r).get k = if k = r.key then r.value else m.get k := by
  cases r <;> rfl

/-- The latest-wins reading of the records `rs`, oldest first, over `m`. -/
def replay (m : BinMap K V) (rs : List (LogRecord K V)) : BinMap K V :=
  rs.foldl applyRecord m

@[simp] theorem replay_nil (m : BinMap K V) : m.replay [] = m := rfl

@[simp] theorem replay_append (m : BinMap K V) (rs rs' : List (LogRecord K V)) :
    m.replay (rs ++ rs') = (m.replay rs).replay rs' := by
  simp [replay]

@[simp] theorem replay_cons (m : BinMap K V) (r : LogRecord K V) (rs : List (LogRecord K V)) :
    m.replay (r :: rs) = (m.applyRecord r).replay rs := rfl

/-- **Latest wins.**  A replayed key holds the value of its newest record, or what it held
before when the log has no record of it. -/
theorem get_replay (m : BinMap K V) (rs : List (LogRecord K V)) (k : K) :
    (m.replay rs).get k =
      match rs.reverse.find? (·.key = k) with
      | some r => r.value
      | none => m.get k := by
  induction rs generalizing m with
  | nil => rfl
  | cons r rs ih =>
    rw [replay_cons, ih, List.reverse_cons, List.find?_append]
    cases rs.reverse.find? (·.key = k) with
    | some r' => rfl
    | none =>
      by_cases h : k = r.key
      · simp [h]
      · simp [h, Ne.symm h]

end BinMap

/-- The value the newest record of `k` among `rs` leaves, `rs` oldest first: `none` when that
record is a removal or there is none. -/
def latestValue {K V : Type} [DecidableEq K] (rs : List (LogRecord K V)) (k : K) : Option V :=
  (rs.reverse.find? (·.key = k)).bind LogRecord.value

/-- A record appended to a log decides its own key. -/
@[simp] theorem latestValue_append_singleton {K V : Type} [DecidableEq K]
    (rs : List (LogRecord K V)) (r : LogRecord K V) (k : K) :
    latestValue (rs ++ [r]) k = if r.key = k then r.value else latestValue rs k := by
  unfold latestValue
  by_cases h : r.key = k <;> simp [h]

namespace BinMap

variable {K V : Type} [DecidableEq K]

theorem get_replay_empty (rs : List (LogRecord K V)) (k : K) :
    (empty.replay rs).get k = latestValue rs k := by
  rw [get_replay, latestValue]
  cases rs.reverse.find? (·.key = k) <;> rfl

end BinMap

end PiDb
