import PiDb.Store.Statistics

/-!
# Store — what `remove_logs` deletes

`LogFileDB::collect` sends to `remove_logs` the segments whose statistics entry counts no key
(`key_len == 0`), up to the first entry it would rewrite.  An entry counts no key only when
every record of its segment has a key a newer append decided, so a newer segment holds a
record of each of its keys.  Deleting such segments, all at once, keeps the newest record of
every key, and with it the latest-wins reading of the log, even after more appends to the
writable segment.

* `ShadowedAt`: in a list of segments, newest first, a segment of `rm` holds a record of `k`
  only when a newer segment does.  It is all the deletion needs: the newest segment with a
  record of `k` is not in `rm` (`ShadowedAt.find?_not_mem`), and the newest-first lookup of
  `k` is the same without the segments of `rm` (`ShadowedAt.findSome?_filter`).
* `shadowed_of_mem_claimedStatistics`: a segment whose entry counts no key has only keys a
  newer segment decided.
* `writable_not_mem_removeLogs`, `shadowedAt_removeLogs`: the writable segment is never sent
  to `remove_logs`, and each segment that is holds only keys a newer segment holds, also
  once the writable segment has grown.
* `removeLogs_keeps_latest`: for every log with distinct segment indices and every further
  appends to its writable segment, no segment `collect` puts in `remove_logs` holds the
  newest record of a key, and deleting them all leaves every key's latest value as it was.
-/

namespace PiDb

variable {K V : Type} [DecidableEq K]

/-! ### The selection -/

/-- A segment sent to `remove_logs` has an entry counting no key. -/
theorem mem_selectLogs_remove {i : Nat} :
    ∀ {stats : List (Nat × Nat × Nat)}, i ∈ (selectLogs stats).1 → ∃ l, (i, l, 0) ∈ stats
  | [], h => absurd h (List.not_mem_nil _)
  | (path, logLen, keyLen) :: rest, h => by
    simp only [selectLogs] at h
    split at h
    · next hk =>
      rcases List.mem_cons.mp h with rfl | h
      · exact ⟨logLen, hk ▸ List.mem_cons_self _ _⟩
      · obtain ⟨l, hl⟩ := mem_selectLogs_remove h
        exact ⟨l, List.mem_cons_of_mem _ hl⟩
    · split at h
      · cases h
      · obtain ⟨l, hl⟩ := mem_selectLogs_remove h
        exact ⟨l, List.mem_cons_of_mem _ hl⟩

/-! ### An entry that counts no key -/

/-- One more record seen keeps every key decided by an append when the record's own key was
decided by one. -/
theorem decidedLive_concat {seen : List (LogRecord K V)} {r : LogRecord K V}
    (hr : decidedLive seen r.key = true) (k : K) :
    decidedLive (seen ++ [r]) k = decidedLive seen k := by
  by_cases e : k = r.key
  · subst e
    cases h : seen.find? (·.key = r.key) with
    | none => simp [decidedLive, h] at hr
    | some r' => simp [decidedLive, List.find?_append, h]
  · simp [decidedLive, AsyncLogFileStore.find?_concat_of_ne e]

/-- Records that add no key have keys all decided by an append before them. -/
theorem decidedLive_of_freshKeys_eq_zero :
    ∀ {seen rs : List (LogRecord K V)}, freshKeys seen rs = 0 →
      ∀ r ∈ rs, decidedLive seen r.key = true
  | _, [], _ => fun _ h => absurd h (List.not_mem_nil _)
  | seen, r :: rs, h => by
    rw [freshKeys] at h
    have hr : decidedLive seen r.key = true := by
      by_contra hr
      rw [if_neg hr] at h
      omega
    intro r' hr'
    rcases List.mem_cons.mp hr' with rfl | hr'
    · exact hr
    · rw [← decidedLive_concat hr]
      exact decidedLive_of_freshKeys_eq_zero (by omega) r' hr'

theorem index_mem_of_mem_claimedEntries :
    ∀ {segs : List (Segment K V)} {seen : List (LogRecord K V)} {first : Bool}
      {e : Nat × Nat × Nat}, e ∈ claimedEntries seen first segs → e.1 ∈ segs.map (·.index)
  | [], _, _, _, h => absurd h (List.not_mem_nil _)
  | seg :: segs, seen, first, e, h => by
    simp only [claimedEntries] at h
    split at h
    · exact List.mem_cons_of_mem _ (index_mem_of_mem_claimedEntries h)
    · rcases List.mem_cons.mp h with rfl | h
      · exact List.mem_cons_self _ _
      · exact List.mem_cons_of_mem _ (index_mem_of_mem_claimedEntries h)

/-- No entry is the first segment's that delivers a record: the entries are of the segments
after the first. -/
theorem index_mem_of_mem_claimedStatistics :
    ∀ {segs : List (Segment K V)} {e : Nat × Nat × Nat}, e ∈ claimedStatistics segs →
      e.1 ∈ segs.tail.map (·.index)
  | [], _, h => absurd h (List.not_mem_nil _)
  | seg :: segs, e, h => by
    simp only [claimedStatistics] at h
    split at h
    · obtain ⟨x, hx, hxe⟩ := List.mem_map.mp (index_mem_of_mem_claimedStatistics h)
      exact hxe ▸ List.mem_map_of_mem _ (List.mem_of_mem_tail hx)
    · exact index_mem_of_mem_claimedEntries (List.mem_reverse.mp h)

/-- A segment whose entry, among those after the records `seen`, counts no key holds only keys
an append decided before it, in `seen` or in a newer segment. -/
theorem decidedLive_of_mem_claimedEntries :
    ∀ (as : List (Segment K V)) {x : Segment K V} {bs : List (Segment K V)}
      {seen : List (LogRecord K V)} {first : Bool} {l : Nat},
      ((as ++ x :: bs).map (·.index)).Nodup →
      (x.index, l, 0) ∈ claimedEntries seen first (as ++ x :: bs) →
      ∀ r ∈ x.records, decidedLive (seen ++ as.flatMap (·.records.reverse)) r.key = true
  | [], x, bs, seen, first, l, hnd, h => by
    rw [List.nil_append, List.map_cons, List.nodup_cons] at hnd
    simp only [claimedEntries] at h
    split at h
    · next hr =>
      intro r hr'
      simp [List.reverse_eq_nil_iff.mp hr] at hr'
    · next r₀ rs hr =>
      rcases List.mem_cons.mp h with he | h
      · -- the entry of `x` itself
        have h0 : freshKeys seen (r₀ :: rs) = 0 := by
          have := (Prod.mk.inj (Prod.mk.inj he).2).2
          omega
        intro r hr'
        simpa using decidedLive_of_freshKeys_eq_zero h0 r (hr ▸ List.mem_reverse.mpr hr')
      · exact absurd (index_mem_of_mem_claimedEntries h) hnd.1
  | a :: as, x, bs, seen, first, l, hnd, h => by
    rw [List.cons_append, List.map_cons, List.nodup_cons] at hnd
    simp only [List.cons_append, claimedEntries] at h
    split at h
    · next hr => simpa [hr] using decidedLive_of_mem_claimedEntries as hnd.2 h
    · next r₀ rs hr =>
      rcases List.mem_cons.mp h with he | h
      · -- an entry of `a` with the index of `x`
        exact absurd (by rw [← (Prod.mk.inj he).1]; simp) hnd.1
      · simpa [hr] using decidedLive_of_mem_claimedEntries as hnd.2 h

/-- **An entry that counts no key is of a segment whose keys are all decided newer.**  In the
deque a replay of `as ++ x :: bs` (distinct indices, newest first) describes, an entry of `x`
with no key means that every key of `x` has its newest record among the segments `as`, and
that record is an append. -/
theorem shadowed_of_mem_claimedStatistics :
    ∀ (as : List (Segment K V)) {x : Segment K V} {bs : List (Segment K V)} {l : Nat},
      ((as ++ x :: bs).map (·.index)).Nodup →
      (x.index, l, 0) ∈ claimedStatistics (as ++ x :: bs) →
      ∀ r ∈ x.records, decidedLive (as.flatMap (·.records.reverse)) r.key = true
  | [], x, bs, l, hnd, h => by
    rw [List.nil_append, List.map_cons, List.nodup_cons] at hnd
    simp only [claimedStatistics] at h
    split at h
    · next hr =>
      intro r hr'
      simp [List.reverse_eq_nil_iff.mp hr] at hr'
    · exact absurd (index_mem_of_mem_claimedEntries (List.mem_reverse.mp h)) hnd.1
  | a :: as, x, bs, l, hnd, h => by
    rw [List.cons_append, List.map_cons, List.nodup_cons] at hnd
    simp only [List.cons_append, claimedStatistics] at h
    split at h
    · next hr => simpa [hr] using shadowed_of_mem_claimedStatistics as hnd.2 h
    · simpa using decidedLive_of_mem_claimedEntries as hnd.2 (List.mem_reverse.mp h)

theorem exists_key_of_decidedLive {seen : List (LogRecord K V)} {k : K}
    (h : decidedLive seen k = true) : ∃ r ∈ seen, r.key = k := by
  cases hf : seen.find? (·.key = k) with
  | none => simp [decidedLive, hf] at h
  | some r => exact ⟨r, List.mem_of_find?_eq_some hf, by simpa using List.find?_some hf⟩

/-! ### Deleting segments whose keys reappear newer -/

/-- In `segs`, newest first, a segment whose index is in `rm` holds a record of `k` only when a
newer segment does. -/
def ShadowedAt (rm : List Nat) (k : K) (segs : List (Segment K V)) : Prop :=
  ∀ as x bs, segs = as ++ x :: bs → x.index ∈ rm → x.records.any (·.key = k) →
    ∃ t ∈ as, t.records.any (·.key = k)

theorem find?_reverse_eq_none {seg : Segment K V} {k : K} :
    seg.records.reverse.find? (·.key = k) = none ↔ seg.records.any (·.key = k) = false := by
  simp [List.find?_eq_none, List.any_eq_false]

namespace ShadowedAt

variable {rm : List Nat} {k : K} {seg : Segment K V} {segs : List (Segment K V)}

theorem not_mem_of_head (h : ShadowedAt rm k (seg :: segs))
    (hk : seg.records.any (·.key = k) = true) : seg.index ∉ rm := fun hm => by
  obtain ⟨t, ht, -⟩ := h [] seg segs rfl hm hk
  cases ht

theorem tail (h : ShadowedAt rm k (seg :: segs)) (hk : seg.records.any (·.key = k) = false) :
    ShadowedAt rm k segs := by
  intro as x bs he hm hx
  obtain ⟨t, ht, htk⟩ := h (seg :: as) x bs (by rw [he]; rfl) hm hx
  rcases List.mem_cons.mp ht with rfl | ht
  · rw [hk] at htk
    cases htk
  · exact ⟨t, ht, htk⟩

/-- The newest segment with a record of `k` is not deleted. -/
theorem find?_not_mem :
    ∀ {segs : List (Segment K V)}, ShadowedAt rm k segs → ∀ {y : Segment K V},
      segs.find? (·.records.any (·.key = k)) = some y → y.index ∉ rm
  | [], _, _, hy => by cases hy
  | seg :: segs, h, y, hy => by
    cases hk : seg.records.any (·.key = k)
    · rw [List.find?_cons_of_neg _ (by simp [hk])] at hy
      exact find?_not_mem (h.tail hk) hy
    · rw [List.find?_cons_of_pos (p := fun t => t.records.any (·.key = k)) segs hk] at hy
      cases hy
      exact h.not_mem_of_head hk

/-- The newest-first lookup of `k` is the same without the deleted segments. -/
theorem findSome?_filter :
    ∀ {segs : List (Segment K V)}, ShadowedAt rm k segs →
      (segs.filter (·.index ∉ rm)).findSome? (·.records.reverse.find? (·.key = k)) =
        segs.findSome? (·.records.reverse.find? (·.key = k))
  | [], _ => rfl
  | seg :: segs, h => by
    cases hk : seg.records.any (·.key = k)
    · -- `seg` has no record of `k`: whether deleted or not, the lookup passes it
      have hn := find?_reverse_eq_none.mpr hk
      have ih := findSome?_filter (h.tail hk)
      rw [List.filter_cons]
      split <;> simp only [List.findSome?_cons, hn, ih]
    · -- `seg` has one: it is kept, and answers
      obtain ⟨r, hr⟩ : ∃ r, seg.records.reverse.find? (·.key = k) = some r :=
        Option.ne_none_iff_exists'.mp fun hn => by rw [find?_reverse_eq_none.mp hn] at hk; cases hk
      rw [List.filter_cons_of_pos (by simpa using h.not_mem_of_head hk)]
      simp only [List.findSome?_cons, hr]

end ShadowedAt

/-! ### What `remove_logs` deletes -/

/-- The index of the segment holding the newest record of `k`: the newest segment with a
record of `k`. -/
def newestSegment (f : LogFile K V) (k : K) : Option Nat :=
  (f.segments.reverse.find? (·.records.any (·.key = k))).map (·.index)

/-- The latest-wins value of `k`, read segment by segment, newest first. -/
theorem latestValue_records (f : LogFile K V) (k : K) :
    latestValue f.records k =
      (f.segments.reverse.findSome? (·.records.reverse.find? (·.key = k))).bind
        LogRecord.value := by
  rw [latestValue, LogFile.records, List.reverse_flatMap, List.find?_flatMap]
  rfl

omit [DecidableEq K] in
theorem segments_removeLogs {f : LogFile K V} {rm : List Nat} (h : f.writable.index ∉ rm) :
    (f.removeLogs rm).segments.reverse = f.segments.reverse.filter (·.index ∉ rm) := by
  simp [LogFile.removeLogs, LogFile.segments, List.filter_reverse, h]

omit [DecidableEq K] in
theorem foldl_append (f : LogFile K V) :
    ∀ extra : List (LogRecord K V), extra.foldl LogFile.append f =
      { f with pending := f.pending ++ extra }
  | [] => by simp
  | r :: extra => by
    rw [List.foldl_cons, foldl_append _ extra]
    simp [LogFile.append]

/-- The deque of a table opened over `f` is the one its segments describe. -/
theorem opened_statistics {f : LogFile K V} (hnd : (f.segments.map (·.index)).Nodup) :
    (AsyncLogFileStore.opened f).statistics = claimedStatistics f.segments.reverse := by
  simp only [AsyncLogFileStore.opened, LogFile.load, Option.all_none, List.filter_true]
  exact AsyncLogFileStore.foldl_loadSegment_fresh _ (by rwa [List.map_reverse, List.nodup_reverse])
    rfl rfl rfl (AsyncLogFileStore.tracks_nil rfl rfl)

omit [DecidableEq K] in
theorem segments_reverse (f : LogFile K V) :
    f.segments.reverse = f.writable :: f.closed.reverse := by
  simp [LogFile.segments]

/-- The writable segment is never sent to `remove_logs`: it has no entry. -/
theorem writable_not_mem_removeLogs {f : LogFile K V} (hnd : (f.segments.map (·.index)).Nodup) :
    f.writable.index ∉ (selectLogs (AsyncLogFileStore.opened f).statistics).1 := fun hi => by
  obtain ⟨l, hl⟩ := opened_statistics hnd ▸ mem_selectLogs_remove hi
  have hrev : (f.segments.reverse.map (·.index)).Nodup := by
    rwa [List.map_reverse, List.nodup_reverse]
  rw [segments_reverse] at hl hrev
  exact (List.nodup_cons.mp hrev).1 (index_mem_of_mem_claimedStatistics hl)

/-- A segment sent to `remove_logs` holds only keys a newer segment holds, also once the
writable segment has grown into `w`. -/
theorem shadowedAt_removeLogs {f : LogFile K V} (hnd : (f.segments.map (·.index)).Nodup)
    {w : Segment K V} (hw : w.index = f.writable.index) (hsub : f.writable.records ⊆ w.records)
    (k : K) :
    ShadowedAt (selectLogs (AsyncLogFileStore.opened f).statistics).1 k
      (w :: f.closed.reverse) := by
  intro as x bs he hi hx
  obtain ⟨r, hr, rfl⟩ : ∃ r ∈ x.records, r.key = k := by simpa using hx
  cases as with
  | nil =>
    obtain ⟨rfl, -⟩ := List.cons.inj he
    exact (writable_not_mem_removeLogs hnd (hw ▸ hi)).elim
  | cons a as =>
    -- the entry of `x` counts no key: its keys are decided in the segments before it
    obtain ⟨rfl, hc⟩ := List.cons.inj he
    obtain ⟨l, hl⟩ := opened_statistics hnd ▸ mem_selectLogs_remove hi
    have hf : f.segments.reverse = (f.writable :: as) ++ x :: bs := by
      rw [segments_reverse, hc]; rfl
    have hrev : (f.segments.reverse.map (·.index)).Nodup := by
      rwa [List.map_reverse, List.nodup_reverse]
    rw [hf] at hl hrev
    obtain ⟨r', hr', hk⟩ := exists_key_of_decidedLive
      (shadowed_of_mem_claimedStatistics (f.writable :: as) hrev hl r hr)
    obtain ⟨t, ht, hrt⟩ := List.mem_flatMap.mp hr'
    rw [List.mem_reverse] at hrt
    rcases List.mem_cons.mp ht with rfl | ht
    · exact ⟨_, List.mem_cons_self _ _, List.any_eq_true.mpr ⟨r', hsub hrt, by simp [hk]⟩⟩
    · exact ⟨t, List.mem_cons_of_mem _ ht, List.any_eq_true.mpr ⟨r', hrt, by simp [hk]⟩⟩

/-- **`remove_logs` deletes no newest record.**  For every log `f` with distinct segment
indices, opened, and then extended by any appends committed to its writable segment: no
segment `collect` sends to `remove_logs` holds the newest record of a key, and deleting all of
them leaves the latest-wins value of every key as it was. -/
theorem removeLogs_keeps_latest (f : LogFile K V) (extra : List (LogRecord K V))
    (hnd : (f.segments.map (·.index)).Nodup) :
    let f' : LogFile K V := ((extra.foldl LogFile.append f).delayCommit true).1
    let rm : List Nat := (selectLogs (AsyncLogFileStore.opened f).statistics).1
    (∀ k i, newestSegment f' k = some i → i ∉ rm) ∧
      ∀ k, latestValue (f'.removeLogs rm).records k = latestValue f'.records k := by
  intro f' rm
  have hsegs : f'.segments.reverse =
      ⟨f.writable.index, f.writable.records ++ (f.pending ++ extra)⟩ :: f.closed.reverse := by
    simp [f', foldl_append, LogFile.delayCommit, LogFile.segments]
  have hsh : ∀ k, ShadowedAt rm k f'.segments.reverse := fun k => hsegs ▸
    shadowedAt_removeLogs hnd (w := ⟨f.writable.index, f.writable.records ++ (f.pending ++ extra)⟩)
      rfl (List.subset_append_left _ _) k
  have hw : f'.writable.index ∉ rm := by
    simpa [f', foldl_append, LogFile.delayCommit] using writable_not_mem_removeLogs hnd
  refine ⟨fun k i hi => ?_, fun k => ?_⟩
  · obtain ⟨y, hy, rfl⟩ := Option.map_eq_some'.mp hi
    exact (hsh k).find?_not_mem hy
  · rw [latestValue_records, latestValue_records, segments_removeLogs hw,
      (hsh k).findSome?_filter]

/-- A log whose oldest segment holds only `1 ↦ 10`, overwritten in segment `1`; segment `2`
overwrites `2`. -/
def overwrittenLog : LogFile Nat Nat :=
  ⟨[⟨0, [.plainAppend 1 10]⟩, ⟨1, [.plainAppend 1 11, .plainAppend 2 21]⟩],
    ⟨2, [.plainAppend 2 22]⟩, []⟩

theorem removeLogs_keeps_latest_overwrittenLog :
    (overwrittenLog.segments.map (·.index)).Nodup ∧
      let f' : LogFile Nat Nat :=
        (([LogRecord.remove 1].foldl LogFile.append overwrittenLog).delayCommit true).1
      let rm : List Nat := (selectLogs (AsyncLogFileStore.opened overwrittenLog).statistics).1
      (∀ k i, newestSegment f' k = some i → i ∉ rm) ∧
        ∀ k, latestValue (f'.removeLogs rm).records k = latestValue f'.records k :=
  ⟨by decide, removeLogs_keeps_latest overwrittenLog [.remove 1] (by decide)⟩

/-- Segment `0` is the one sent to `remove_logs`; segment `1`, the first entry, is not. -/
example : (selectLogs (AsyncLogFileStore.opened overwrittenLog).statistics).1 = [0] := by decide

end PiDb
