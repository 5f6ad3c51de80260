import Std.Data.TreeMap
import Prerequisite.Expression

/-!
# A cache of trees

A cache keeps the trees of a bounded number of actions.  The trees are built without a
snapshot.  A queue tells in which order the actions came.  When the cache is full, the
oldest action makes room for a new one; using an entry does not make it younger.
-/

namespace Prerequisite

/-- A cache of trees, and the queue of its actions from the oldest to the newest. An action
without criteria has an entry without a tree. -/
structure TreeCache where
  capacity : Nat
  entries : Std.TreeMap UInt64 (Option Tree)
  order : List UInt64

namespace TreeCache

/-- The empty cache, with room for at least one entry. -/
def empty (capacity : Nat) : TreeCache := ⟨max capacity 1, ∅, []⟩

/-- The capacity of a cache unless another one is asked for. -/
def defaultCapacity : Nat := 256

/-- The number of entries. -/
def size (c : TreeCache) : Nat := c.entries.size

/-- The action has an entry. -/
def contains (c : TreeCache) (action : UInt64) : Bool := c.entries.contains action

/-- The tree of the action, if it has an entry with a tree. -/
def get? (c : TreeCache) (action : UInt64) : Option Tree := c.entries[action]?.join

/-- The cache after the oldest actions of the queue have been removed, as long as there is no
room for another one. -/
def makeRoom (capacity : Nat) (entries : Std.TreeMap UInt64 (Option Tree)) :
    List UInt64 → TreeCache
  | [] => ⟨capacity, entries, []⟩
  | oldest :: rest =>
    if capacity ≤ entries.size then makeRoom capacity (entries.erase oldest) rest
    else ⟨capacity, entries, oldest :: rest⟩

/-- The cache with a new entry, which replaces the oldest entries if the cache is full. -/
def insert (c : TreeCache) (action : UInt64) (tree : Option Tree) : TreeCache :=
  let c := makeRoom c.capacity c.entries c.order
  { c with entries := c.entries.insert action tree, order := c.order ++ [action] }

/-- The cache in which the action has an entry. An entry that is there already stays. -/
def ensure (names : Names) (action : UInt64) (criteria : List Criterion) (c : TreeCache) :
    TreeCache :=
  if c.contains action then c else c.insert action (Tree.build? names none criteria)

/-- The tree of the action, which is built if the action has no entry, and the cache in which
it has one. -/
def getOrBuild (names : Names) (action : UInt64) (criteria : List Criterion)
    (c : TreeCache) : Option Tree × TreeCache :=
  let c := c.ensure names action criteria
  (c.get? action, c)

/-- The cache without entries. -/
def clear (c : TreeCache) : TreeCache := { c with entries := ∅, order := [] }

end TreeCache

end Prerequisite
