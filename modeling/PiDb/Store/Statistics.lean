import PiDb.Store.Collect

/-!
# Store — the statistics a replay builds

A replay offers a log's segments to `is_require` and `load`, newest segment first and newest
record first.  The first segment that delivers a record is taken for the writable one and
counted nowhere; each later segment that delivers a record gets one entry at the front of the
deque, so the oldest segment ends at the front.  An entry counts every record of its segment
(`log_len`), and among them the records whose key no newer `Append` decided (`key_len`), that
is, whose key is not in `tmp_map`; the first entry counts its first record as such whatever
its key.

* `Tracks`: what `tmp_map` and `removed` hold after a replay of some records: the keys whose
  newest record is an append, and those with a record at all.
* `claimedStatistics`: the deque as described above, from the segments alone.
* `loadSegments_statistics`: a replay from an empty loader builds exactly
  `claimedStatistics`, for every list of segments with distinct indices.
-/

namespace PiDb

variable {K V : Type} [DecidableEq K]

/-! ### The deque, described from the segments -/

/-- The newest of the records `seen` (newest first) of the key `k` is an append: a newer
`Append` decided `k`. -/
def decidedLive (seen : List (LogRecord K V)) (k : K) : Bool :=
  ((seen.find? (·.key = k)).bind LogRecord.value).isSome

/-- How many of the records `rs` (newest first) have a key no newer append decided, `seen`
being the records delivered before them. -/
def freshKeys (seen : List (LogRecord K V)) : List (LogRecord K V) → Nat
  | [] => 0
  | r :: rs => (if decidedLive seen r.key then 0 else 1) + freshKeys (seen ++ [r]) rs

/-- The entries of the segments `segs` (in replay order) that deliver a record, in replay
order, `seen` being the records delivered before them and `first` whether none of them has
an entry yet. -/
def claimedEntries (seen : List (LogRecord K V)) (first : Bool) :
    List (Segment K V) → List (Nat × Nat × Nat)
  | [] => []
  | seg :: segs =>
    match seg.records.reverse with
    | [] => claimedEntries seen first segs
    | r :: rs =>
      (seg.index, (r :: rs).length,
        freshKeys seen (r :: rs) + if first && decidedLive seen r.key then 1 else 0) ::
        claimedEntries (seen ++ r :: rs) false segs

/-- The statistics deque, front first, that a replay of `segs` (newest first) is described to
build: nothing for the first segment that delivers a record, then the entries of the later
ones, the oldest at the front. -/
def claimedStatistics : List (Segment K V) → List (Nat × Nat × Nat)
  | [] => []
  | seg :: segs =>
    match seg.records.reverse with
    | [] => claimedStatistics segs
    | rs => (claimedEntries rs true segs).reverse

/-! ### What the loader holds of the records it was offered -/

namespace AsyncLogFileStore

/-- `tmp_map` holds the keys whose newest record offered so far is an append, and `tmp_map`
and `removed` together the keys with a record offered at all. -/
def Tracks (seen : List (LogRecord K V)) (s : AsyncLogFileStore K V) : Prop :=
  ∀ k, (k ∈ s.tmpMap ↔ decidedLive seen k = true) ∧
    (k ∈ s.tmpMap ∨ k ∈ s.removed ↔ (seen.find? (·.key = k)).isSome)

theorem tracks_nil {s : AsyncLogFileStore K V} (ht : s.tmpMap = []) (hr : s.removed = []) :
    Tracks [] s := fun k => by simp [ht, hr, decidedLive]

/-- Offering one more record keeps `Tracks`: a record of an undecided key decides it, any
other changes nothing. -/
theorem Tracks.visit {seen : List (LogRecord K V)} {s : AsyncLogFileStore K V}
    (h : Tracks seen s) (p : Nat) (r : LogRecord K V) : Tracks (seen ++ [r]) (s.visit p r) := by
  intro k
  rw [tmpMap_visit, removed_visit, decidedLive]
  by_cases e : k = r.key
  · subst e
    by_cases hb : r.key ∉ s.removed ∧ r.key ∉ s.tmpMap
    · -- an undecided key: the record decides it
      have hn : seen.find? (·.key = r.key) = none :=
        Option.not_isSome_iff_eq_none.mp fun hs => by have := (h r.key).2.mpr hs; tauto
      cases hv : r.value <;> simp [hb, hv, hn, List.find?_append]
    · -- a decided key: nothing changes
      obtain ⟨r', hr'⟩ := Option.isSome_iff_exists.mp ((h r.key).2.mp (by tauto))
      simpa [hb, hr', decidedLive, List.find?_append] using h r.key
  · -- another key: nothing changes
    have hm : ∀ l : List K, k ∈ l.insert r.key ↔ k ∈ l := fun l => by
      simp [List.mem_insert_iff, e]
    rw [find?_concat_of_ne e]
    split_ifs <;> simpa only [hm] using h k

theorem Tracks.foldl_visit (p : Nat) :
    ∀ (rs : List (LogRecord K V)) {seen : List (LogRecord K V)} {s : AsyncLogFileStore K V},
      Tracks seen s → Tracks (seen ++ rs) (rs.foldl (fun s r => s.visit p r) s)
  | [], _, _, h => by simpa using h
  | r :: rs, _, _, h => by simpa using (h.visit p r).foldl_visit p rs

/-! ### What one record does to the deque -/

@[simp] theorem isStatistics_statisticsCount (s : AsyncLogFileStore K V) (p : Nat) (k : K) :
    (s.statisticsCount p k).isStatistics = s.isStatistics := by
  unfold statisticsCount; split <;> (try split) <;> rfl

@[simp] theorem writablePath_statisticsCount (s : AsyncLogFileStore K V) (p : Nat) (k : K) :
    (s.statisticsCount p k).writablePath = s.writablePath := by
  unfold statisticsCount; split <;> (try split) <;> rfl

/-- A count of a record of the head entry's segment: one more record, and one more key when
the key is not in `tmp_map`. -/
theorem statistics_statisticsCount_head {s : AsyncLogFileStore K V} {p l kl : Nat}
    {rest : List (Nat × Nat × Nat)} (h : s.statistics = (p, l, kl) :: rest) (k : K) :
    (s.statisticsCount p k).statistics =
      (p, l + 1, kl + if k ∈ s.tmpMap then 0 else 1) :: rest := by
  by_cases hk : k ∈ s.tmpMap <;> simp [statisticsCount, h, hk]

/-- A count of a record of a segment the head entry is not of: a new head entry. -/
theorem statistics_statisticsCount_new {s : AsyncLogFileStore K V} {p : Nat}
    (h : ∀ e ∈ s.statistics.head?, e.1 ≠ p) (k : K) :
    (s.statisticsCount p k).statistics = (p, 1, if k ∈ s.tmpMap then 0 else 1) :: s.statistics := by
  unfold statisticsCount
  split
  · next path logLen keyLen rest hs =>
    rw [if_neg (h (path, logLen, keyLen) (by simp [hs]))]
  · rfl

/-- In statistics mode every record is counted, by `is_require` when it is not required and
by `load` when it is, before it decides its key. -/
theorem visit_of_isStatistics {s : AsyncLogFileStore K V} (hs : s.isStatistics = true)
    (p : Nat) (r : LogRecord K V) :
    (s.visit p r).isStatistics = true ∧
      (s.visit p r).statistics = (s.statisticsCount p r.key).statistics := by
  simp only [visit, isRequire, hs, if_true]
  split
  · simp only [load, hs, if_true, settle]
    split <;> simp [hs]
  · simp [hs]

/-- Out of statistics mode, the first record of a segment other than the writable one starts
its entry, `(p, 1, 1)` whether or not it is required, and statistics mode. -/
theorem visit_transition {s : AsyncLogFileStore K V} {w p : Nat} (hs : s.isStatistics = false)
    (hw : s.writablePath = some w) (hp : w ≠ p) (r : LogRecord K V) :
    (s.visit p r).isStatistics = true ∧ (s.visit p r).statistics = (p, 1, 1) :: s.statistics := by
  simp only [visit, isRequire, hs, hw, ne_eq, hp, not_false_eq_true, if_true, Bool.false_eq_true,
    if_false]
  split
  · next hq =>
    simp only [decide_eq_true_eq] at hq
    simp only [load, if_true, settle, statisticsCount, if_pos hq, hq.2, not_false_eq_true]
    split <;> simp
  · next hq => simp [hq]

/-- A counted record of a segment `p` whose entry is at the head, in statistics mode. -/
theorem foldl_visit_counted (p : Nat) :
    ∀ (rs : List (LogRecord K V)) {seen : List (LogRecord K V)} {s : AsyncLogFileStore K V}
      {l kl : Nat} {rest : List (Nat × Nat × Nat)},
      s.isStatistics = true → Tracks seen s → s.statistics = (p, l, kl) :: rest →
      (rs.foldl (fun s r => s.visit p r) s).isStatistics = true ∧
        (rs.foldl (fun s r => s.visit p r) s).statistics =
          (p, l + rs.length, kl + freshKeys seen rs) :: rest
  | [], _, _, _, _, _, hs, _, hst => ⟨hs, by simp [hst, freshKeys]⟩
  | r :: rs, seen, s, l, kl, rest, hs, ht, hst => by
    obtain ⟨hs', hst'⟩ := visit_of_isStatistics hs p r
    rw [statistics_statisticsCount_head hst] at hst'
    simp only [(ht r.key).1] at hst'
    obtain ⟨h₁, h₂⟩ := foldl_visit_counted p rs hs' (ht.visit p r) hst'
    refine ⟨h₁, ?_⟩
    rw [List.foldl_cons, h₂, freshKeys]
    simp only [List.length_cons]
    congr 3 <;> omega

/-- Once the writable segment is recorded, no record changes it. -/
theorem writablePath_visit {s : AsyncLogFileStore K V} {w : Nat} (hw : s.writablePath = some w)
    (p : Nat) (r : LogRecord K V) : (s.visit p r).writablePath = some w := by
  have hq : (s.isRequire p r.key).1.writablePath = some w := by
    simp only [isRequire]
    split
    · split <;> simp [hw]
    · simp only [hw]
      split <;> simp [hw]
  simp only [visit]
  split
  · simp only [load, settle]
    split <;> split <;> simp [hq]
  · exact hq

theorem writablePath_foldl_visit {w : Nat} (p : Nat) :
    ∀ (rs : List (LogRecord K V)) {s : AsyncLogFileStore K V}, s.writablePath = some w →
      (rs.foldl (fun s r => s.visit p r) s).writablePath = some w
  | [], _, hw => hw
  | r :: rs, _, hw => writablePath_foldl_visit p rs (writablePath_visit hw p r)

/-! ### What one segment does to the deque -/

theorem loadSegment_of_nil {s : AsyncLogFileStore K V} {seg : Segment K V}
    (h : seg.records.reverse = []) : loadSegment s seg = s := by
  simp [loadSegment, h]

theorem Tracks.loadSegment {seen : List (LogRecord K V)} {s : AsyncLogFileStore K V}
    (h : Tracks seen s) (seg : Segment K V) :
    Tracks (seen ++ seg.records.reverse) (s.loadSegment seg) :=
  h.foldl_visit seg.index _

/-- The first segment that delivers a record is recorded as the writable one, and counted
nowhere. -/
theorem loadSegment_writable {s : AsyncLogFileStore K V} {seg : Segment K V}
    {r : LogRecord K V} {rs : List (LogRecord K V)} (hr : seg.records.reverse = r :: rs)
    (hs : s.isStatistics = false) (hst : s.statistics = [])
    (hw : s.writablePath = none ∨ s.writablePath = some seg.index) :
    (loadSegment s seg).isStatistics = false ∧ (loadSegment s seg).statistics = [] ∧
      (loadSegment s seg).writablePath = some seg.index := by
  obtain ⟨h₁, h₂, h₃⟩ := visit_writable hs hst hw r
  rw [loadSegment, hr, List.foldl_cons]
  exact ⟨(visit_writable_foldl rs h₁ h₂ (.inr h₃)).1, (visit_writable_foldl rs h₁ h₂ (.inr h₃)).2,
    writablePath_foldl_visit _ rs h₃⟩

/-- The first segment after the writable one that delivers a record gets the first entry: its
first record counts as a key whether or not a newer append decided it. -/
theorem loadSegment_transition {s : AsyncLogFileStore K V} {seen : List (LogRecord K V)}
    {seg : Segment K V} {r : LogRecord K V} {rs : List (LogRecord K V)} {w : Nat}
    (hr : seg.records.reverse = r :: rs) (hs : s.isStatistics = false)
    (hw : s.writablePath = some w) (hp : w ≠ seg.index) (ht : Tracks seen s) :
    (loadSegment s seg).isStatistics = true ∧
      (loadSegment s seg).statistics = (seg.index, (r :: rs).length,
        freshKeys seen (r :: rs) + if decidedLive seen r.key then 1 else 0) :: s.statistics := by
  obtain ⟨h₁, h₂⟩ := visit_transition hs hw hp r
  obtain ⟨h₃, h₄⟩ := foldl_visit_counted seg.index rs h₁ (ht.visit _ r) h₂
  rw [loadSegment, hr, List.foldl_cons]
  refine ⟨h₃, ?_⟩
  rw [h₄, freshKeys, List.length_cons]
  congr 3
  · omega
  · split_ifs <;> omega

/-- In statistics mode, a segment that delivers a record gets a new entry at the head. -/
theorem loadSegment_counted {s : AsyncLogFileStore K V} {seen : List (LogRecord K V)}
    {seg : Segment K V} {r : LogRecord K V} {rs : List (LogRecord K V)}
    (hr : seg.records.reverse = r :: rs) (hs : s.isStatistics = true) (ht : Tracks seen s)
    (hh : ∀ e ∈ s.statistics.head?, e.1 ≠ seg.index) :
    (loadSegment s seg).isStatistics = true ∧
      (loadSegment s seg).statistics =
        (seg.index, (r :: rs).length, freshKeys seen (r :: rs)) :: s.statistics := by
  obtain ⟨h₁, h₂⟩ := visit_of_isStatistics hs seg.index r
  rw [statistics_statisticsCount_new hh] at h₂
  simp only [(ht r.key).1] at h₂
  obtain ⟨h₃, h₄⟩ := foldl_visit_counted seg.index rs h₁ (ht.visit _ r) h₂
  rw [loadSegment, hr, List.foldl_cons]
  refine ⟨h₃, ?_⟩
  rw [h₄, freshKeys, List.length_cons, Nat.add_comm 1]

/-! ### What a whole replay does to the deque -/

/-- In statistics mode, the segments `segs` put their entries in front of the deque, the last
one replayed at the front. -/
theorem foldl_loadSegment_counted :
    ∀ (segs : List (Segment K V)) {seen : List (LogRecord K V)} {s : AsyncLogFileStore K V},
      (segs.map (·.index)).Nodup → s.isStatistics = true → Tracks seen s →
      (∀ e ∈ s.statistics.head?, e.1 ∉ segs.map (·.index)) →
      (segs.foldl loadSegment s).statistics =
        (claimedEntries seen false segs).reverse ++ s.statistics
  | [], _, _, _, _, _, _ => rfl
  | seg :: segs, seen, s, hnd, hs, ht, hh => by
    rw [List.map_cons, List.nodup_cons] at hnd
    rw [List.foldl_cons]
    cases hr : seg.records.reverse with
    | nil =>
      rw [loadSegment_of_nil hr]
      simp only [claimedEntries, hr]
      exact foldl_loadSegment_counted segs hnd.2 hs ht
        (fun e he hm => hh e he (List.mem_cons_of_mem _ hm))
    | cons r rs =>
      obtain ⟨h₁, h₂⟩ := loadSegment_counted hr hs ht
        (fun e he heq => hh e he (heq ▸ List.mem_cons_self _ _))
      simp only [claimedEntries, hr, Bool.false_and, if_false, Nat.add_zero]
      rw [foldl_loadSegment_counted segs hnd.2 h₁ (hr ▸ ht.loadSegment seg)
        (by simpa [h₂] using hnd.1), h₂]
      simp

/-- Out of statistics mode, with `w` recorded as the writable segment, the segments `segs`
put their entries in front of the deque, the first of them starting statistics mode. -/
theorem foldl_loadSegment_transition {w : Nat} :
    ∀ (segs : List (Segment K V)) {seen : List (LogRecord K V)} {s : AsyncLogFileStore K V},
      (segs.map (·.index)).Nodup → w ∉ segs.map (·.index) → s.isStatistics = false →
      s.writablePath = some w → Tracks seen s →
      (segs.foldl loadSegment s).statistics =
        (claimedEntries seen true segs).reverse ++ s.statistics
  | [], _, _, _, _, _, _, _ => rfl
  | seg :: segs, seen, s, hnd, hw', hs, hw, ht => by
    rw [List.map_cons, List.nodup_cons] at hnd
    rw [List.map_cons, List.mem_cons, not_or] at hw'
    rw [List.foldl_cons]
    cases hr : seg.records.reverse with
    | nil =>
      rw [loadSegment_of_nil hr]
      simp only [claimedEntries, hr]
      exact foldl_loadSegment_transition segs hnd.2 hw'.2 hs hw ht
    | cons r rs =>
      obtain ⟨h₁, h₂⟩ := loadSegment_transition hr hs hw hw'.1 ht
      simp only [claimedEntries, hr, Bool.true_and]
      rw [foldl_loadSegment_counted segs hnd.2 h₁ (hr ▸ ht.loadSegment seg)
        (by simpa [h₂] using hnd.1), h₂]
      simp

/-- From an empty loader, the segments `segs` build the deque `claimedStatistics segs`. -/
theorem foldl_loadSegment_fresh :
    ∀ (segs : List (Segment K V)) {s : AsyncLogFileStore K V}, (segs.map (·.index)).Nodup →
      s.isStatistics = false → s.writablePath = none → s.statistics = [] → Tracks [] s →
      (segs.foldl loadSegment s).statistics = claimedStatistics segs
  | [], _, _, _, _, hst, _ => hst
  | seg :: segs, s, hnd, hs, hw, hst, ht => by
    rw [List.map_cons, List.nodup_cons] at hnd
    rw [List.foldl_cons]
    cases hr : seg.records.reverse with
    | nil =>
      rw [loadSegment_of_nil hr]
      simp only [claimedStatistics, hr]
      exact foldl_loadSegment_fresh segs hnd.2 hs hw hst ht
    | cons r rs =>
      obtain ⟨h₁, h₂, h₃⟩ := loadSegment_writable hr hs hst (.inl hw)
      simp only [claimedStatistics, hr]
      rw [foldl_loadSegment_transition segs hnd.2 hnd.1 h₁ h₃ (hr ▸ ht.loadSegment seg), h₂,
        List.append_nil]
      rfl

end AsyncLogFileStore

open AsyncLogFileStore

/-- **A replay builds the deque the segments describe.**  Replaying segments with distinct
indices, newest first, from a loader with nothing decided, no statistics, statistics mode
off and no writable segment recorded, leaves exactly `claimedStatistics`: no entry for the
first segment that delivers a record, then one entry per later segment that delivers one,
the oldest at the front, with its number of records and of keys no newer append decided,
plus one for the first entry when its first record's key was so decided. -/
theorem loadSegments_statistics (segs : List (Segment K V)) {s : AsyncLogFileStore K V}
    (hnd : (segs.map (·.index)).Nodup) (hrem : s.removed = []) (htmp : s.tmpMap = [])
    (hst : s.statistics = []) (hs : s.isStatistics = false) (hw : s.writablePath = none) :
    (segs.foldl loadSegment s).statistics = claimedStatistics segs :=
  foldl_loadSegment_fresh segs hnd hs hw hst (tracks_nil htmp hrem)

/-- Three segments, newest first: `1 ↦ 12`; then `1 ↦ 11` and, older, a removal of `2`; then
`1 ↦ 10` and `2 ↦ 20`. -/
def threeSegments : List (Segment Nat Nat) :=
  [⟨2, [.plainAppend 1 12]⟩, ⟨1, [.remove 2, .plainAppend 1 11]⟩,
    ⟨0, [.plainAppend 1 10, .plainAppend 2 20]⟩]

theorem loadSegments_statistics_threeSegments :
    (threeSegments.map (·.index)).Nodup ∧
      (threeSegments.foldl loadSegment (fresh (⟨[], ⟨0, []⟩, []⟩ : LogFile Nat Nat))).statistics =
        claimedStatistics threeSegments :=
  ⟨by decide, loadSegments_statistics threeSegments (by decide) rfl rfl rfl rfl rfl⟩

/-- Segment `1` counts its append of `1`, decided by segment `2`, as a key: it is the first
record of the first entry. -/
example : claimedStatistics threeSegments = [(0, 2, 1), (1, 2, 2)] := by decide

end PiDb
