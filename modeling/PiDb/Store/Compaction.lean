import PiDb.Store.Remove
import PiDb.Store.Consistency

/-!
# Store — compaction keeps what a table serves

`LogFileDB::collect` deletes the segments its statistics send to `remove_logs`, then resets
the loader and rescans the log, and the next `collect` selects from the rescanned statistics.
The rescan runs with `writable_path` still naming the segment that was writable at the open,
so it may count from another segment than the open did; yet every entry it builds that
counts no key is of a segment whose keys all reappear in a newer segment, which is all a
deletion needs.  So compactions, run after any writes and splits, never change a read.

* `CollectLogs.removing`: a `collect_logs` that deletes the segments of `remove_logs` and
  rewrites nothing.
* `ShadowedStats`: what a store's statistics promise its log: each entry names one of its
  segments, none that counts no key names the writable segment, and each such segment holds
  only keys a newer segment holds.  Every replay from a reset loader builds statistics that
  keep it (`shadowedStats_replay`), whatever `writable_path` names, and appends and splits
  keep it (`ShadowedStats.grow`, `ShadowedStats.split`).
* `Serves`: a store that serves its log (`Consistent`), over segments with distinct indices
  below the writable one, with statistics that keep their promise.  Every call keeps it,
  `collect` included (`Serves.apply`), and so does every run (`Serves.run`).
* `run_read_reopen`: for every log opened with nothing buffered and distinct segment indices
  below the writable one, and every run of calls on the table, compactions included, `read`
  returns each key's latest-wins value in the durable log, and a table opened again over that
  log reads the same.
-/

namespace PiDb

/-- A `collect_logs` that deletes the segments of `remove_logs` and rewrites nothing. -/
def CollectLogs.removing {K V : Type} : CollectLogs K V where
  run rm _ f := .ok (f.removeLogs rm)
  keeps_writable _ _ _ _ h := by cases h; rfl
  nil f := by simp [LogFile.removeLogs]

variable {K V : Type} [DecidableEq K]

/-! ### What a replay from a reset loader counts -/

namespace AsyncLogFileStore

/-- **A reset loader counts a tail of the log.**  Replaying segments with distinct indices from
a loader with nothing decided, no statistics and statistics mode off leaves the entries that
`claimedEntries` describes for a tail `rest` of the segments, those before it counted as
delivered.  Which tail depends on `writable_path`: the first segment that delivers a record
starts the entries, unless `writable_path` names it or nothing. -/
theorem foldl_loadSegment_reset :
    ∀ (segs : List (Segment K V)) {s : AsyncLogFileStore K V}, (segs.map (·.index)).Nodup →
      s.isStatistics = false → s.statistics = [] → Tracks [] s →
      ∃ pre rest first, segs = pre ++ rest ∧
        (segs.foldl loadSegment s).statistics =
          (claimedEntries (pre.flatMap (·.records.reverse)) first rest).reverse
  | [], _, _, _, hst, _ => ⟨[], [], true, rfl, hst⟩
  | seg :: segs, s, hnd, hs, hst, ht => by
    rw [List.map_cons, List.nodup_cons] at hnd
    rw [List.foldl_cons]
    cases hr : seg.records.reverse with
    | nil =>
      rw [loadSegment_of_nil hr]
      obtain ⟨pre, rest, first, rfl, h⟩ := foldl_loadSegment_reset segs hnd.2 hs hst ht
      exact ⟨seg :: pre, rest, first, rfl, by simpa [hr] using h⟩
    | cons r rs =>
      by_cases hw : s.writablePath = none ∨ s.writablePath = some seg.index
      · -- `seg` is taken for the writable segment: the entries start after it
        obtain ⟨h₁, h₂, h₃⟩ := loadSegment_writable hr hs hst hw
        refine ⟨[seg], segs, true, rfl, ?_⟩
        rw [foldl_loadSegment_transition segs hnd.2 hnd.1 h₁ h₃ (ht.loadSegment seg), h₂]
        simp
      · -- `writable_path` names another segment: `seg` starts the entries
        obtain ⟨w, hw'⟩ := Option.ne_none_iff_exists'.mp (not_or.mp hw).1
        obtain ⟨h₁, h₂⟩ := loadSegment_transition hr hs hw'
          (fun e => (not_or.mp hw).2 (e ▸ hw')) ht
        refine ⟨[], seg :: segs, true, rfl, ?_⟩
        rw [foldl_loadSegment_counted segs hnd.2 h₁ (hr ▸ ht.loadSegment seg)
          (by simpa [h₂] using hnd.1), h₂, hst]
        simp [claimedEntries, hr]

end AsyncLogFileStore

open AsyncLogFileStore

/-- An entry is of a segment that delivered a record. -/
theorem exists_mem_of_mem_claimedEntries :
    ∀ {segs : List (Segment K V)} {seen : List (LogRecord K V)} {first : Bool}
      {e : Nat × Nat × Nat}, e ∈ claimedEntries seen first segs →
      ∃ x ∈ segs, x.index = e.1 ∧ x.records ≠ []
  | [], _, _, _, h => absurd h (List.not_mem_nil _)
  | seg :: segs, seen, first, e, h => by
    simp only [claimedEntries] at h
    split at h
    · obtain ⟨x, hx, hxe⟩ := exists_mem_of_mem_claimedEntries h
      exact ⟨x, List.mem_cons_of_mem _ hx, hxe⟩
    · next r rs hr =>
      rcases List.mem_cons.mp h with rfl | h
      · exact ⟨seg, List.mem_cons_self _ _, rfl, fun hn => by simp [hn] at hr⟩
      · obtain ⟨x, hx, hxe⟩ := exists_mem_of_mem_claimedEntries h
        exact ⟨x, List.mem_cons_of_mem _ hx, hxe⟩

omit [DecidableEq K] in
/-- Two ways of cutting a list of segments with distinct indices, the second at a segment of
the first's tail: the second's head extends the first's. -/
theorem eq_append_of_index_mem {pre rest as bs : List (Segment K V)} {x : Segment K V}
    (hnd : ((pre ++ rest).map (·.index)).Nodup) (he : pre ++ rest = as ++ x :: bs)
    (hx : x.index ∈ rest.map (·.index)) : ∃ as', as = pre ++ as' ∧ rest = as' ++ x :: bs := by
  rcases List.append_eq_append_iff.mp he with ⟨a', h₁, h₂⟩ | ⟨c', h₁, h₂⟩
  · exact ⟨a', h₁, h₂⟩
  · cases c' with
    | nil => exact ⟨[], by simp [h₁], by simpa using h₂.symm⟩
    | cons y c' =>
      -- `x` would lie in `pre` too
      obtain ⟨rfl, -⟩ := List.cons.inj h₂
      rw [List.map_append, List.nodup_append] at hnd
      exact (hnd.2.2 (by simp [h₁]) hx).elim

/-! ### What statistics promise -/

/-- What the statistics `stats` promise the log `f`: every entry names one of its segments;
no entry that counts no key names the writable segment; and a segment with such an entry
holds only keys a newer segment holds. -/
structure ShadowedStats (stats : List (Nat × Nat × Nat)) (f : LogFile K V) : Prop where
  mem : ∀ e ∈ stats, e.1 ∈ f.segments.map (·.index)
  not_writable : ∀ l, (f.writable.index, l, 0) ∉ stats
  shadowed : ∀ i l, (i, l, 0) ∈ stats → ∀ k, ShadowedAt [i] k f.segments.reverse

/-- **A replay from a reset loader keeps the statistics' promise**, whatever `writable_path`
names: the open's replay, and the rescan of every `collect`. -/
theorem shadowedStats_replay {f : LogFile K V} (hnd : (f.segments.map (·.index)).Nodup)
    {s : AsyncLogFileStore K V} (hs : s.isStatistics = false) (hst : s.statistics = [])
    (ht : Tracks [] s) : ShadowedStats (f.segments.reverse.foldl loadSegment s).statistics f := by
  have hrev : (f.segments.reverse.map (·.index)).Nodup := by
    rwa [List.map_reverse, List.nodup_reverse]
  obtain ⟨pre, rest, first, hsplit, hstats⟩ := foldl_loadSegment_reset _ hrev hs hst ht
  rw [hstats]
  -- an entry is of a segment of `rest`, one that delivered a record
  have hmem : ∀ e ∈ (claimedEntries (pre.flatMap (·.records.reverse)) first rest).reverse,
      ∃ x ∈ f.segments.reverse, x.index = e.1 ∧ x.records ≠ [] := fun e he => by
    obtain ⟨x, hx, hxe⟩ := exists_mem_of_mem_claimedEntries (List.mem_reverse.mp he)
    exact ⟨x, hsplit ▸ List.mem_append_right _ hx, hxe⟩
  have hshadow : ∀ i l, (i, l, 0) ∈
      (claimedEntries (pre.flatMap (·.records.reverse)) first rest).reverse →
      ∀ k, ShadowedAt [i] k f.segments.reverse := by
    intro i l hl k as x bs he hxi hk
    rw [List.mem_singleton] at hxi
    subst hxi
    rw [List.mem_reverse] at hl
    obtain ⟨as', rfl, hrest⟩ := eq_append_of_index_mem (hsplit ▸ hrev) (hsplit ▸ he)
      (index_mem_of_mem_claimedEntries hl)
    rw [hrest] at hl
    have hnd' : ((as' ++ x :: bs).map (·.index)).Nodup := by
      rw [← hrest]; exact (List.nodup_append.mp (List.map_append _ pre rest ▸ hsplit ▸ hrev)).2.1
    obtain ⟨r, hr, rfl⟩ : ∃ r ∈ x.records, r.key = k := by simpa using hk
    obtain ⟨r', hr', hk'⟩ := exists_key_of_decidedLive
      (decidedLive_of_mem_claimedEntries as' hnd' hl r hr)
    rw [← List.flatMap_append, List.mem_flatMap] at hr'
    obtain ⟨t, ht, hrt⟩ := hr'
    exact ⟨t, ht, List.any_eq_true.mpr ⟨r', List.mem_reverse.mp hrt, by simp [hk']⟩⟩
  refine ⟨fun e he => ?_, fun l hl => ?_, hshadow⟩
  · obtain ⟨x, hx, hxe, -⟩ := hmem e he
    exact hxe ▸ List.mem_map_of_mem _ (List.mem_reverse.mp hx)
  · -- an entry for the writable segment would ask a newer segment than the newest
    obtain ⟨x, hx, hxe, hxr⟩ := hmem _ hl
    have hxw : x = f.writable := List.inj_on_of_nodup_map hrev hx
      (by simp [LogFile.segments]) hxe
    subst hxw
    obtain ⟨r, hr⟩ := List.exists_mem_of_ne_nil _ hxr
    obtain ⟨t, ht, -⟩ := hshadow _ l hl r.key [] f.writable f.closed.reverse
      (segments_reverse f) (List.mem_singleton_self _)
      (List.any_eq_true.mpr ⟨r, hr, by simp⟩)
    cases ht

omit [DecidableEq K] in
/-- With the closed segments below the writable one, no segment is above it. -/
theorem index_le_writable {f : LogFile K V} (hlt : ∀ seg ∈ f.closed, seg.index < f.writable.index)
    {x : Segment K V} (hx : x ∈ f.segments) : x.index ≤ f.writable.index := by
  simp only [LogFile.segments, List.mem_append, List.mem_singleton] at hx
  rcases hx with hx | rfl
  · exact (hlt x hx).le
  · rfl

omit [DecidableEq K] in
/-- A split adds an empty writable segment above the old one. -/
theorem segments_split (f : LogFile K V) :
    f.split.1.segments = f.segments ++ [⟨f.writable.index + 1, []⟩] := by
  simp [LogFile.split, LogFile.segments]

namespace ShadowedStats

variable {stats : List (Nat × Nat × Nat)} {f : LogFile K V}

/-- Every segment sent to `remove_logs` holds only keys a newer segment holds. -/
theorem shadowedAt_selectLogs (h : ShadowedStats stats f) (k : K) :
    ShadowedAt (selectLogs stats).1 k f.segments.reverse := fun as x bs he hx hk => by
  obtain ⟨l, hl⟩ := mem_selectLogs_remove hx
  exact h.shadowed _ l hl k as x bs he (List.mem_singleton_self _) hk

theorem writable_not_mem_selectLogs (h : ShadowedStats stats f) :
    f.writable.index ∉ (selectLogs stats).1 := fun hx => by
  obtain ⟨l, hl⟩ := mem_selectLogs_remove hx
  exact h.not_writable l hl

/-- Deleting the segments sent to `remove_logs` keeps every key's latest-wins value. -/
theorem latestValue_removeLogs (h : ShadowedStats stats f) (k : K) :
    latestValue (f.removeLogs (selectLogs stats).1).records k = latestValue f.records k := by
  rw [latestValue_records, latestValue_records, segments_removeLogs h.writable_not_mem_selectLogs,
    (h.shadowedAt_selectLogs k).findSome?_filter]

/-- Appends to the writable segment keep the promise. -/
theorem grow (h : ShadowedStats stats f) {f' : LogFile K V} (hc : f'.closed = f.closed)
    (hw : f'.writable.index = f.writable.index) (hsub : f.writable.records ⊆ f'.writable.records) :
    ShadowedStats stats f' where
  mem e he := by simpa [LogFile.segments, hc, hw] using h.mem e he
  not_writable := hw ▸ h.not_writable
  shadowed i l hl k as x bs he hx hk := by
    rw [segments_reverse, hc] at he
    cases as with
    | nil =>
      obtain ⟨rfl, -⟩ := List.cons.inj he
      have hi : i = f.writable.index := (List.mem_singleton.mp hx).symm.trans hw
      exact absurd (hi ▸ hl) (h.not_writable l)
    | cons a as =>
      obtain ⟨rfl, hcl⟩ := List.cons.inj he
      obtain ⟨t, ht, htk⟩ := h.shadowed i l hl k (f.writable :: as) x bs
        (by rw [segments_reverse, hcl]; rfl) hx hk
      rcases List.mem_cons.mp ht with rfl | ht
      · obtain ⟨r, hr, hrk⟩ := List.any_eq_true.mp htk
        exact ⟨_, List.mem_cons_self _ _, List.any_eq_true.mpr ⟨r, hsub hr, hrk⟩⟩
      · exact ⟨t, List.mem_cons_of_mem _ ht, htk⟩

/-- A split keeps the promise, the new writable segment being above every other. -/
theorem split (h : ShadowedStats stats f)
    (hlt : ∀ seg ∈ f.closed, seg.index < f.writable.index) : ShadowedStats stats f.split.1 where
  mem e he := by
    rw [segments_split, List.map_append]; exact List.mem_append_left _ (h.mem e he)
  not_writable l hl := by
    obtain ⟨x, hx, hxe⟩ := List.mem_map.mp (h.mem _ hl)
    have := index_le_writable hlt hx
    simp [LogFile.split] at hxe; omega
  shadowed i l hl k as x bs he hx hk := by
    rw [segments_split, List.reverse_append, List.reverse_singleton, List.singleton_append] at he
    cases as with
    | nil => obtain ⟨rfl, -⟩ := List.cons.inj he; cases hk
    | cons a as =>
      obtain ⟨rfl, hcl⟩ := List.cons.inj he
      obtain ⟨t, ht, htk⟩ := h.shadowed i l hl k as x bs hcl hx hk
      exact ⟨t, List.mem_cons_of_mem _ ht, htk⟩

end ShadowedStats

/-! ### The invariant, and every run -/

namespace AsyncLogFileStore

/-- A store that serves its log, over segments with distinct indices, the closed ones below
the writable one, with statistics that keep their promise. -/
structure Serves (s : AsyncLogFileStore K V) : Prop where
  consistent : s.Consistent
  nodup : (s.logFile.segments.map (·.index)).Nodup
  below : ∀ seg ∈ s.logFile.closed, seg.index < s.logFile.writable.index
  stats : ShadowedStats s.statistics s.logFile

theorem serves_opened {f : LogFile K V} (hf : f.pending = []) (hnd : (f.segments.map (·.index)).Nodup)
    (hlt : ∀ seg ∈ f.closed, seg.index < f.writable.index) : (opened f).Serves where
  consistent := consistent_opened hf
  nodup := by rwa [logFile_opened]
  below := by rwa [logFile_opened]
  stats := by
    rw [logFile_opened]
    simpa [opened, LogFile.load] using shadowedStats_replay hnd (s := fresh f) rfl rfl
      (tracks_nil rfl rfl)

variable {s : AsyncLogFileStore K V}

/-- A batch appended and committed keeps the segments and grows the writable one. -/
theorem Serves.appendCommit {α : Type} (h : s.Serves) (g : α → LogRecord K V) (l : List α)
    {s' : AsyncLogFileStore K V} (hc : s'.Consistent)
    (hf : s'.logFile = ((l.foldl (fun f a => f.append (g a)) s.logFile).delayCommit true).1)
    (hst : s'.statistics = s.statistics) : s'.Serves where
  consistent := hc
  nodup := by simpa [hf, LogFile.foldl_append_eq, LogFile.delayCommit, LogFile.segments] using h.nodup
  below := by simpa [hf, LogFile.foldl_append_eq, LogFile.delayCommit] using h.below
  stats := by
    rw [hst]; apply h.stats.grow <;> simp [hf, LogFile.foldl_append_eq, LogFile.delayCommit]

theorem Serves.split (h : s.Serves) :
    ({ s with logFile := s.logFile.split.1 } : AsyncLogFileStore K V).Serves where
  consistent := h.consistent.split
  nodup := by
    have hw : s.logFile.writable.index + 1 ∉ s.logFile.segments.map (·.index) := fun hm => by
      obtain ⟨x, hx, hxe⟩ := List.mem_map.mp hm
      have := index_le_writable h.below hx; omega
    rw [segments_split, List.map_append, List.nodup_append]
    exact ⟨h.nodup, List.nodup_singleton _, fun a ha hb => hw (by simp at hb; exact hb ▸ ha)⟩
  below seg hseg := Nat.lt_succ_of_le (index_le_writable h.below hseg)
  stats := h.stats.split h.below

/-- **A compaction keeps the store serving its log**: the deleted segments hold no key's
newest record, and the rescan rebuilds statistics that keep their promise. -/
theorem Serves.collect (h : s.Serves) : (s.apply .removing .collect).Serves := by
  set f' := s.logFile.removeLogs (selectLogs s.statistics).1
  have hc : ({ s with logFile := f' } : AsyncLogFileStore K V).Consistent :=
    ⟨h.consistent.notInit, h.consistent.noPending,
      fun k => (h.consistent.reads k).trans (h.stats.latestValue_removeLogs k).symm⟩
  have hsub : (f'.segments.map (·.index)).Sublist (s.logFile.segments.map (·.index)) :=
    ((List.filter_sublist _).append_right _).map _
  have hnd : (f'.segments.map (·.index)).Nodup := h.nodup.sublist hsub
  simp only [AsyncLogFileStore.apply, AsyncLogFileStore.collect, CollectLogs.removing,
    Except.map]
  refine ⟨hc.rescan, ?_, ?_, ?_⟩ <;> simp only [rescan, logFile_load]
  · exact hnd
  · exact fun seg hseg => h.below seg (List.mem_of_mem_filter hseg)
  · simpa [LogFile.load] using shadowedStats_replay hnd rfl rfl (tracks_nil rfl rfl)

/-- **Every call keeps the store serving its log.** -/
theorem Serves.apply (h : s.Serves) : ∀ op : TabOp K V, (s.apply .removing op).Serves
  | .writeBatch pairs => h.appendCommit (fun p => .plainAppend p.1 p.2) pairs
      (h.consistent.writeBatch pairs) (by simp only [AsyncLogFileStore.apply, writeBatch_true])
      (by simp only [AsyncLogFileStore.apply, writeBatch_true])
  | .removeBatch keys => h.appendCommit LogRecord.remove keys (h.consistent.removeBatch keys)
      (by simp only [AsyncLogFileStore.apply, removeBatch_true])
      (by simp only [AsyncLogFileStore.apply, removeBatch_true])
  | .split => h.split
  | .collect => h.collect

theorem Serves.run : ∀ (ops : List (TabOp K V)) {s : AsyncLogFileStore K V}, s.Serves →
    (s.run .removing ops).Serves
  | [], _, h => h
  | op :: ops, _, h => Serves.run ops (h.apply op)

end AsyncLogFileStore

open AsyncLogFileStore

/-- **A restart changes no read, compactions included.**  For every log opened with nothing
buffered, whose segments have distinct indices, the closed ones below the writable one, and
every run of calls on the table (`write_batch` and `remove_batch` whose commits succeed,
splits, and `collect`s whose `collect_logs` deletes `remove_logs`), `read` returns for every
key the latest-wins value of the durable log, which is what reading the table after opening it
again over that log returns. -/
theorem run_read_reopen {f : LogFile K V} (hf : f.pending = [])
    (hnd : (f.segments.map (·.index)).Nodup) (hlt : ∀ seg ∈ f.closed, seg.index < f.writable.index)
    (ops : List (TabOp K V)) (k : K) :
    ((opened f).run .removing ops).read k =
        latestValue ((opened f).run .removing ops).logFile.records k ∧
      (opened ((opened f).run .removing ops).logFile).read k =
        ((opened f).run .removing ops).read k := by
  have h := ((serves_opened hf hnd hlt).run ops).consistent
  exact ⟨h.reads k, (read_opened _ k).trans (h.reads k).symm⟩

/-- A log whose oldest segment holds only `1 ↦ 10`, overwritten in segment `1`. -/
def shadowedLog : LogFile Nat Nat :=
  ⟨[⟨0, [.plainAppend 1 10]⟩, ⟨1, [.plainAppend 1 11, .plainAppend 2 21]⟩],
    ⟨2, [.plainAppend 2 22]⟩, []⟩

/-- A compaction, which deletes segment `0`, then writes, a split, a removal and another
compaction. -/
def compactingCalls : List (TabOp Nat Nat) :=
  [.collect, .writeBatch [(1, 12)], .split, .removeBatch [2], .collect]

theorem run_read_reopen_compactingCalls :
    shadowedLog.pending = [] ∧ (shadowedLog.segments.map (·.index)).Nodup ∧
      (∀ seg ∈ shadowedLog.closed, seg.index < shadowedLog.writable.index) ∧
      ((opened shadowedLog).run .removing compactingCalls).read 1 =
        latestValue ((opened shadowedLog).run .removing compactingCalls).logFile.records 1 ∧
      (opened ((opened shadowedLog).run .removing compactingCalls).logFile).read 1 =
        ((opened shadowedLog).run .removing compactingCalls).read 1 :=
  have hnd : (shadowedLog.segments.map (·.index)).Nodup := by decide
  have hlt : ∀ seg ∈ shadowedLog.closed, seg.index < shadowedLog.writable.index := by decide
  ⟨rfl, hnd, hlt, run_read_reopen rfl hnd hlt compactingCalls 1⟩

/-- The first compaction deletes segment `0`; the table reads `1 ↦ 12` and no `2`. -/
example :
    ((opened shadowedLog).apply .removing .collect).logFile.closed.map (·.index) = [1] ∧
      ((opened shadowedLog).run .removing compactingCalls).read 1 = some 12 ∧
      ((opened shadowedLog).run .removing compactingCalls).read 2 = none := by
  decide

end PiDb
