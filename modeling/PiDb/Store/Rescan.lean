import PiDb.Store.Collect

/-!
# Store — the block loop of the statistics rescan

After `collect_logs`, `LogFileDB::collect` rebuilds a table's statistics by reading each
segment file back, newest first: a `while let` pops the paths, and for each path an inner
`loop` calls `read_log_file` and `read_log_file_block` at the current `(offset, read_len)`,
offers the records of the block to `is_require` and `load`, and moves to the
`(next_file_offset, next_len)` the block reader returned, leaving the loop at `(0, 0)`.  An
`Err` of either reader is logged and the loop goes round again, with the same offset and
length.

* `BlockReader`: the two readers of `pi_store` and `AsyncFile::open`, as parameters.
* `readBlock`, `readSegment`, `rescanPaths`: one pass of the inner loop body, the inner loop
  and the `while let`, with fuel; `none` is fuel exhausted.
* `readSegment_of_decreasing`: when no read fails and every successful block moves strictly
  toward the head of the file, the inner loop ends within the offset's distance to the head;
  `countdownReader`, a file of blocks each pointing to the next toward the head, is such a
  file.
* `readSegment_error`: a read that fails at `(offset, read_len)` fails again on every pass,
  so the inner loop never ends, whatever the fuel.
* `rescanPaths_of_unreadable`: so a segment file that cannot be read stops the whole rescan
  for good; `malformedReader`, a segment whose block cannot be parsed, is such a file
  (`malformed_rescan_diverges`).
-/

namespace PiDb

/-- Modelled from the spec: the readers `collect` calls on a segment file `p` of the
`pi_store` crate.  `readLogFile p offset len` reads the bytes of a block (`None`: the tail
of the file) and returns the block's offset; `readLogFileBlock p bin offset len` parses them
into the records of the block, newest first, with the offset and length of the next block
toward the head, `(0, 0)` once the head is reached; `opens p` is whether
`AsyncFile::open` succeeds.  Each is a function of its arguments: a file that cannot be
parsed at some offset cannot be parsed there on a second try. -/
structure BlockReader (K V B : Type) where
  opens : Nat → Bool
  readLogFile : Nat → Option Nat → Nat → Except Unit (Nat × B)
  readLogFileBlock : Nat → B → Nat → Nat → Except Unit (Nat × Nat × List (LogRecord K V))

namespace BlockReader

variable {K V B : Type} [DecidableEq K] (rd : BlockReader K V B)

/-- One pass of the inner `loop` of the rescan over the segment `p`: the store after it, and
the `(offset, read_len)` of the next pass, or `none` when the pass `break`s. -/
def readBlock (p : Nat) (s : AsyncLogFileStore K V) (offset : Option Nat) (readLen : Nat) :
    AsyncLogFileStore K V × Option (Option Nat × Nat) :=
  match rd.readLogFile p offset readLen with
  | .error _ => (s, some (offset, readLen))
  | .ok (fileOffset, bin) =>
    match rd.readLogFileBlock p bin fileOffset readLen with
    | .error _ => (s, some (offset, readLen))
    | .ok (next, nextLen, logs) =>
      let s := logs.foldl (fun s r => s.visit p r) s
      if next = 0 ∧ nextLen = 0 then (s, none) else (s, some (some next, nextLen))

/-- The inner `loop` over the segment `p`, with `fuel` passes at most. -/
def readSegment (p : Nat) : Nat → AsyncLogFileStore K V → Option Nat → Nat →
    Option (AsyncLogFileStore K V)
  | 0, _, _, _ => none
  | fuel + 1, s, offset, readLen =>
    match rd.readBlock p s offset readLen with
    | (s, none) => some s
    | (s, some (offset, readLen)) => readSegment p fuel s offset readLen

/-- The `while let` over the paths, newest first: a file that does not open is skipped, and
after each segment the offset is reset to the tail and the length to `3 * 1024`. -/
def rescanPaths (fuel : Nat) : List Nat → AsyncLogFileStore K V → Option Nat → Nat →
    Option (AsyncLogFileStore K V)
  | [], s, _, _ => some s
  | p :: ps, s, offset, readLen =>
    if rd.opens p then
      (rd.readSegment p fuel s offset readLen).bind fun s => rescanPaths fuel ps s none (3 * 1024)
    else rescanPaths fuel ps s offset readLen

@[simp] theorem readSegment_zero (p : Nat) (s : AsyncLogFileStore K V) (offset : Option Nat)
    (readLen : Nat) : rd.readSegment p 0 s offset readLen = none := rfl

/-! ### Termination on well-formed files -/

/-- A failed read leaves the position as it was. -/
theorem readBlock_error {p : Nat} {s : AsyncLogFileStore K V} {offset : Option Nat}
    {readLen : Nat}
    (h : (∃ e, rd.readLogFile p offset readLen = .error e) ∨
      ∃ fo bin e, rd.readLogFile p offset readLen = .ok (fo, bin) ∧
        rd.readLogFileBlock p bin fo readLen = .error e) :
    rd.readBlock p s offset readLen = (s, some (offset, readLen)) := by
  rcases h with ⟨e, he⟩ | ⟨fo, bin, e, hf, hb⟩
  · simp [readBlock, he]
  · simp [readBlock, hf, hb]

/-- **A read that fails never stops failing.**  When a read of the segment `p` fails at
`(offset, read_len)`, the loop logs it and reads there again: no fuel is enough. -/
theorem readSegment_error {p : Nat} {offset : Option Nat} {readLen : Nat}
    (h : (∃ e, rd.readLogFile p offset readLen = .error e) ∨
      ∃ fo bin e, rd.readLogFile p offset readLen = .ok (fo, bin) ∧
        rd.readLogFileBlock p bin fo readLen = .error e) :
    ∀ fuel (s : AsyncLogFileStore K V), rd.readSegment p fuel s offset readLen = none
  | 0, _ => rfl
  | fuel + 1, s => by
    rw [readSegment, readBlock_error rd h]
    exact readSegment_error h fuel s

/-- The position of a read, measured from the head of the file: the tail is at `len`. -/
def headDistance (len : Nat) : Option Nat → Nat
  | none => len
  | some o => o

/-- **On a well-formed file the loop ends.**  If no read of the segment `p` fails and every
block read at a position other than the head returns the next block strictly closer to the
head (or `(0, 0)`), the loop ends within the distance of its start to the head, plus two
passes. -/
theorem readSegment_of_decreasing {p len : Nat}
    (hok : ∀ offset readLen, ∃ fo bin next nextLen logs,
      rd.readLogFile p offset readLen = .ok (fo, bin) ∧
      rd.readLogFileBlock p bin fo readLen = .ok (next, nextLen, logs) ∧
      ((next = 0 ∧ nextLen = 0) ∨ next < headDistance len offset)) :
    ∀ offset readLen (s : AsyncLogFileStore K V) fuel, headDistance len offset + 2 ≤ fuel →
      (rd.readSegment p fuel s offset readLen).isSome := by
  intro offset
  generalize hd : headDistance len offset = d
  induction d using Nat.strong_induction_on generalizing offset with
  | _ d ih =>
    intro readLen s fuel hfuel
    obtain ⟨fuel, rfl⟩ : ∃ f, fuel = f + 1 := ⟨fuel - 1, by omega⟩
    obtain ⟨fo, bin, next, nextLen, logs, hf, hb, hnext⟩ := hok offset readLen
    simp only [readSegment, readBlock, hf, hb]
    by_cases hend : next = 0 ∧ nextLen = 0
    · simp [hend]
    · rw [if_neg hend]
      have hlt : next < d := hd ▸ hnext.resolve_left hend
      exact ih next hlt (some next) rfl nextLen _ fuel (by omega)

/-- A segment file of `len` blocks, read from the tail: the block at distance `d` from the
head holds one record and points to the block at `d - 1`; the block at the head ends it. -/
def countdownReader (len : Nat) : BlockReader Nat Nat Unit where
  opens _ := true
  readLogFile _ offset _ := .ok (headDistance len offset, ())
  readLogFileBlock _ _ fo readLen :=
    if fo = 0 then .ok (0, 0, []) else .ok (fo - 1, readLen, [.plainAppend fo fo])

theorem countdownReader_decreasing (len p : Nat) (offset : Option Nat) (readLen : Nat) :
    ∃ fo bin next nextLen logs,
      (countdownReader len).readLogFile p offset readLen = .ok (fo, bin) ∧
      (countdownReader len).readLogFileBlock p bin fo readLen = .ok (next, nextLen, logs) ∧
      ((next = 0 ∧ nextLen = 0) ∨ next < headDistance len offset) := by
  by_cases h : headDistance len offset = 0
  · exact ⟨_, (), 0, 0, [], rfl, by simp [countdownReader, h], .inl ⟨rfl, rfl⟩⟩
  · exact ⟨_, (), headDistance len offset - 1, readLen,
      [.plainAppend (headDistance len offset) (headDistance len offset)], rfl,
      by simp [countdownReader, h], .inr (by omega)⟩

theorem readSegment_of_decreasing_countdown :
    ((countdownReader 3).readSegment 0 5 (AsyncLogFileStore.fresh ⟨[], ⟨0, []⟩, []⟩) none
      (32 * 1024)).isSome :=
  readSegment_of_decreasing (countdownReader 3) (countdownReader_decreasing 3 0) none (32 * 1024)
    _ 5 (by decide)

/-! ### A segment that cannot be parsed -/

/-- **One unreadable segment stops the rescan for good.**  When a segment file opens but
every read of it fails, the `while let` never gets past it, whatever came before it and
whatever the fuel. -/
theorem rescanPaths_of_unreadable {p : Nat} (hp : rd.opens p = true)
    (h : ∀ offset readLen, (∃ e, rd.readLogFile p offset readLen = .error e) ∨
      ∃ fo bin e, rd.readLogFile p offset readLen = .ok (fo, bin) ∧
        rd.readLogFileBlock p bin fo readLen = .error e)
    (fuel : Nat) (qs : List Nat) :
    ∀ (ps : List Nat) (s : AsyncLogFileStore K V) offset readLen,
      rd.rescanPaths fuel (ps ++ p :: qs) s offset readLen = none
  | [], s, offset, readLen => by
    simp [rescanPaths, hp, readSegment_error rd (h offset readLen)]
  | q :: ps, s, offset, readLen => by
    simp only [List.cons_append, rescanPaths]
    split
    · cases rd.readSegment q fuel s offset readLen with
      | none => rfl
      | some s' => exact rescanPaths_of_unreadable hp h fuel qs ps s' none (3 * 1024)
    · exact rescanPaths_of_unreadable hp h fuel qs ps s offset readLen

/-- A segment file that opens and reads, but whose block `read_log_file_block` rejects. -/
def malformedReader : BlockReader Nat Nat Unit where
  opens _ := true
  readLogFile _ _ _ := .ok (0, ())
  readLogFileBlock _ _ _ _ := .error ()

/-- The rescan `collect` starts (tail of the newest file, `read_len` `32 * 1024`) over a
table whose one segment cannot be parsed does not end, whatever the fuel. -/
theorem malformed_rescan_diverges (fuel : Nat) (s : AsyncLogFileStore Nat Nat) :
    malformedReader.rescanPaths fuel [0] s none (32 * 1024) = none :=
  rescanPaths_of_unreadable malformedReader rfl (fun _ _ => .inr ⟨0, (), (), rfl, rfl⟩)
    fuel [] [] s none (32 * 1024)

end BlockReader

end PiDb
