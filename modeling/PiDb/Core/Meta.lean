import PiDb.Core.Log

/-!
# Core — table metadata

The records the meta-table `tabs_meta` keeps, one per table: `TableMetaInfo` (in `fork.rs`,
not part of this repository's files here), as the spec describes it and as
`LogFileMetaTxn::commit` and `fork_commit_inner` build it.  The schema `TabMeta` is opaque to
every function modelled here: it is the type parameter `M`.
-/

namespace PiDb

/-- A table name: an `Atom`. -/
abbrev Atom := String

/-- Modelled from the spec: `TableMetaInfo`, a table's schema, the table it was forked from
and the parent's segment id at the fork, and how many tables were forked from it. -/
structure TableMetaInfo (M : Type) where
  tabName : Atom
  meta : M
  parent : Option Atom
  parentLogId : Option Nat
  refCount : Nat
  deriving DecidableEq, Repr

/-- Modelled from the spec: `TableMetaInfo::new`, a table with no parent and no fork. -/
def TableMetaInfo.new {M : Type} (tabName : Atom) (meta : M) : TableMetaInfo M :=
  { tabName, meta, parent := none, parentLogId := none, refCount := 0 }

end PiDb
