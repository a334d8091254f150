import Mathlib.Data.List.AList

/-!
# Core — maps and journals

The in-memory data a table and its transactions hold.

* `BinMap`: the content of an `OrdMap<Tree<Bon, Bin>>`, the persistent ordered map of a
  table's `root` and of a transaction's `root` and `old`, read as a partial map from key to
  value; `upsert` and `delete` are the map's two updates.
* `Journal`: a transaction's `rwlog`, the `XHashMap<Bin, RwLog>` holding one `Read` or
  `Write(value?)` for each key the transaction touched.  It is an `AList`, so that a key has
  one entry, as in the hash map.
* `BinMap.applyWrites`: the `Write` entries of a journal folded into a map, the loop of
  `commit_inner` on a moved root.  `get_applyWrites` reads it key by key: the journal's
  entry decides, whatever order the map is iterated in.

Keys are compared by content (the `Bon` ordering), values by identity: `prepare_inner`
compares the pointers of two values, so a value here is a value object, and two values are
equal when they are the same object.
-/

namespace PiDb

/-- The content of an `OrdMap<Tree<Bon, Bin>>`: the value, if any, each key maps to. -/
@[ext]
structure BinMap (K V : Type) where
  get : K → Option V

namespace BinMap

/-- `OrdMap::new(None)`. -/
def empty {K V : Type} : BinMap K V := ⟨fun _ => none⟩

@[simp] theorem get_empty {K V : Type} (k : K) : (empty : BinMap K V).get k = none := rfl

variable {K V : Type} [DecidableEq K]

/-- `OrdMap::upsert(key, value, false)`. -/
def upsert (m : BinMap K V) (k : K) (v : V) : BinMap K V :=
  ⟨fun k' => if k' = k then some v else m.get k'⟩

/-- `OrdMap::delete(&key, false)`. -/
def delete (m : BinMap K V) (k : K) : BinMap K V :=
  ⟨fun k' => if k' = k then none else m.get k'⟩

@[simp] theorem get_upsert (m : BinMap K V) (k k' : K) (v : V) :
    (m.upsert k v).get k' = if k' = k then some v else m.get k' := rfl

@[simp] theorem get_delete (m : BinMap K V) (k k' : K) :
    (m.delete k).get k' = if k' = k then none else m.get k' := rfl

end BinMap

/-- `RwLog`: what a transaction did to a key.  `write none` is a deletion. -/
inductive RwLog (V : Type) where
  | read
  | write (value : Option V)
  deriving DecidableEq, Repr

/-- The value an entry leaves at its key over the value `d` there before. -/
def RwLog.over {V : Type} : RwLog V → Option V → Option V
  | .read, d => d
  | .write x, _ => x

/-- A transaction's `rwlog`: one `RwLog` for each key it read or wrote. -/
abbrev Journal (K V : Type) := AList (fun _ : K => RwLog V)

namespace Journal

variable {K V : Type} [DecidableEq K]

/-- The value the journal `j` leaves at `k` over the value `d` there before. -/
def over (j : Journal K V) (k : K) (d : Option V) : Option V :=
  match j.lookup k with
  | some r => r.over d
  | none => d

@[simp] theorem over_empty (k : K) (d : Option V) : (∅ : Journal K V).over k d = d := rfl

@[simp] theorem over_insert (j : Journal K V) (k k' : K) (r : RwLog V) (d : Option V) :
    Journal.over (j.insert k r) k' d = if k' = k then r.over d else j.over k' d := by
  by_cases h : k' = k
  · subst h; simp [over, AList.lookup_insert]
  · simp [over, AList.lookup_insert_ne h, h]

theorem over_of_lookup_none {j : Journal K V} {k : K} (h : j.lookup k = none) (d : Option V) :
    j.over k d = d := by
  simp [over, h]

end Journal

namespace BinMap

variable {K V : Type} [DecidableEq K]

/-- One entry of a journal applied to a map, as the loop of `commit_inner` does:
`Read` is skipped, `Write(None)` deletes, `Write(Some v)` upserts. -/
def applyEntry (m : BinMap K V) (k : K) : RwLog V → BinMap K V
  | .read => m
  | .write none => m.delete k
  | .write (some v) => m.upsert k v

@[simp] theorem get_applyEntry (m : BinMap K V) (k k' : K) (r : RwLog V) :
    (m.applyEntry k r).get k' = if k' = k then r.over (m.get k) else m.get k' := by
  cases r with
  | read => by_cases h : k' = k <;> simp [applyEntry, RwLog.over, h]
  | write x => cases x <;> by_cases h : k' = k <;> simp [applyEntry, RwLog.over, h]

/-- The `Write` entries of `j` folded into `m`, in the journal's iteration order. -/
def applyWrites (m : BinMap K V) (j : Journal K V) : BinMap K V :=
  j.entries.foldl (fun m e => m.applyEntry e.1 e.2) m

theorem get_foldl_applyEntry (k : K) :
    ∀ (l : List (Sigma fun _ : K => RwLog V)) (m : BinMap K V), l.NodupKeys →
      (l.foldl (fun m e => m.applyEntry e.1 e.2) m).get k =
        match l.dlookup k with
        | some r => r.over (m.get k)
        | none => m.get k
  | [], _, _ => rfl
  | ⟨k₀, r₀⟩ :: l, m, hl => by
    have hk₀ : k₀ ∉ l.keys := List.not_mem_keys_of_nodupKeys_cons hl
    rw [List.foldl_cons, get_foldl_applyEntry k l _ (List.nodupKeys_of_nodupKeys_cons hl)]
    by_cases h : k = k₀
    · subst h
      simp [List.dlookup_cons_eq, List.dlookup_eq_none.mpr hk₀]
    · simp [List.dlookup_cons_ne l ⟨k₀, r₀⟩ h, h]

/-- **The journal decides each key.**  Whatever order `commit_inner` iterates the journal
in, the folded map holds at `k` what the journal's entry for `k` leaves there. -/
@[simp] theorem get_applyWrites (m : BinMap K V) (j : Journal K V) (k : K) :
    (m.applyWrites j).get k = j.over k (m.get k) :=
  get_foldl_applyEntry k j.entries m j.nodupKeys

@[simp] theorem applyWrites_empty (m : BinMap K V) : m.applyWrites ∅ = m := rfl

/-- A `Read` of a key the journal does not hold changes nothing the journal writes. -/
theorem applyWrites_insert_read (m : BinMap K V) {j : Journal K V} {k : K}
    (h : j.lookup k = none) : m.applyWrites (j.insert k .read) = m.applyWrites j := by
  ext k' : 2
  by_cases e : k' = k
  · subst e; simp [RwLog.over, Journal.over_of_lookup_none h]
  · simp [e]

/-- A `Write` journaled over whatever the journal held for its key. -/
theorem applyWrites_insert_write (m : BinMap K V) (j : Journal K V) (k : K) (x : Option V) :
    m.applyWrites (j.insert k (.write x)) = (m.applyWrites j).applyEntry k (.write x) := by
  ext k' : 2
  by_cases e : k' = k <;> simp [e, RwLog.over]

/-- The journals `js` applied one after the other, the first of the list first. -/
def applyJournals (m : BinMap K V) (js : List (Journal K V)) : BinMap K V :=
  js.foldl applyWrites m

@[simp] theorem applyJournals_nil (m : BinMap K V) : m.applyJournals [] = m := rfl

@[simp] theorem applyJournals_append_singleton (m : BinMap K V) (js : List (Journal K V))
    (j : Journal K V) : m.applyJournals (js ++ [j]) = (m.applyJournals js).applyWrites j := by
  simp [applyJournals]

end BinMap

end PiDb
