import Mathlib.Data.List.DropRight
import Prerequisite.Cache
import Prerequisite.Proofs.Reevaluation
import Prerequisite.Proofs.Tree.Tallies

/-!
# The entries of a cache

A cache is used by any sequence of requests.  Its queue lists the actions that have an entry, and
they are those that came last since the cache was cleared.  Asking for an action that has an entry
changes nothing, so that the entry is the tree of the criteria with which the action came.  When
each action always comes with the same criteria, the cache shows in no answer: the trees in it are
evaluated to the trees that are built from the criteria.
-/

namespace Prerequisite.TreeCache

/-! ### The last elements of a list -/

section Rtake

variable {α β : Type} {a : α} {l : List α} {n : Nat}

theorem mem_of_mem_rtake (h : a ∈ l.rtake n) :
  a ∈ l
  := List.mem_of_mem_drop h

theorem rtake_of_length_le (h : l.length ≤ n) :
  l.rtake n = l
  := by
  rw [List.rtake, Nat.sub_eq_zero_of_le h, List.drop_zero]

theorem rtake_cons_of_le (a : α) (h : n ≤ l.length) :
  (a :: l).rtake n = l.rtake n
  := by
  rw [List.rtake, List.length_cons, Nat.sub_add_comm h, List.drop_succ_cons, List.rtake]

theorem rtake_map (f : α → β) (l : List α) (n : Nat) :
  (l.map f).rtake n = (l.rtake n).map f
  := by
  rw [List.rtake, List.rtake, List.length_map, List.map_drop]

theorem length_rtake (l : List α) (n : Nat) :
  (l.rtake n).length = min n l.length
  := by
  rw [List.rtake, List.length_drop]
  omega

theorem rtake_rtake (l : List α) (m n : Nat) :
  (l.rtake m).rtake n = l.rtake (min n m)
  := by
  rw [List.rtake, length_rtake, List.rtake, List.drop_drop, List.rtake]
  congr 1
  omega

end Rtake

/-! ### The queue and the entries -/

/-- The queue lists each action that has an entry, and lists it once. -/
structure Lists (order : List UInt64) (entries : Std.TreeMap UInt64 (Option Tree)) : Prop where
  nodup : order.Nodup
  mem_iff : ∀ action, action ∈ order ↔ action ∈ entries

section Lists

variable {order : List UInt64} {entries : Std.TreeMap UInt64 (Option Tree)} {action : UInt64}

theorem lists_empty :
  Lists [] ∅
  := by
  constructor
  · exact List.nodup_nil
  · simp

theorem Lists.size_eq (h : Lists order entries) :
  entries.size = order.length
  := by
  rw [← Std.TreeMap.length_keys]
  apply List.Perm.length_eq
  rw [List.perm_ext_iff_of_nodup Std.TreeMap.nodup_keys h.nodup]
  intro action
  rw [Std.TreeMap.mem_keys, h.mem_iff]

theorem Lists.getElem?_eq_none (h : Lists order entries) (hmem : action ∉ order) :
  entries[action]? = none
  := by
  apply Std.TreeMap.getElem?_eq_none
  rwa [← h.mem_iff]

theorem Lists.erase (h : Lists (action :: order) entries) :
  Lists order (entries.erase action)
  := by
  obtain ⟨hnotMem, hnodup⟩ := List.nodup_cons.mp h.nodup
  constructor
  · exact hnodup
  · intro other
    rw [Std.TreeMap.mem_erase, ← h.mem_iff, List.mem_cons, Std.compare_eq_iff_eq.ne]
    constructor
    · intro hother
      exact ⟨fun heq => hnotMem (heq ▸ hother), .inr hother⟩
    · rintro ⟨hne, rfl | hother⟩
      · exact absurd rfl hne
      · exact hother

theorem Lists.insert (h : Lists order entries) (hnew : action ∉ entries) (tree : Option Tree) :
  Lists (order ++ [action]) (entries.insert action tree)
  := by
  constructor
  · rw [(List.perm_append_singleton action order).nodup_iff, List.nodup_cons, h.mem_iff]
    exact ⟨hnew, h.nodup⟩
  · intro other
    rw [Std.TreeMap.mem_insert, ← h.mem_iff, List.mem_append, List.mem_singleton,
      Std.compare_eq_iff_eq, or_comm, eq_comm]

end Lists

/-! ### Room for a new entry -/

/-- The second cache has the newest entries of the first one, as many as a given number. -/
structure HasNewest (count : Nat) (c c' : TreeCache) : Prop where
  capacity_eq : c'.capacity = c.capacity
  order_eq : c'.order = c.order.rtake count
  lists : Lists c'.order c'.entries
  getElem?_eq : ∀ action ∈ c'.order, c'.entries[action]? = c.entries[action]?

/-- Room for a new entry is made by dropping the oldest ones, and no more than needed. -/
theorem hasNewest_makeRoom {capacity : Nat} (hpos : 0 < capacity)
    {order : List UInt64} {entries : Std.TreeMap UInt64 (Option Tree)} (h : Lists order entries) :
  HasNewest (capacity - 1) ⟨capacity, entries, order⟩ (makeRoom capacity entries order)
  := by
  induction order generalizing entries with
  | nil =>
    rw [makeRoom]
    exact ⟨rfl, (List.rtake_nil _).symm, h, fun _ _ => rfl⟩
  | cons oldest rest ih =>
    have hsize := h.size_eq
    rw [List.length_cons] at hsize
    rw [makeRoom]
    split_ifs with hfull
    · -- the oldest action is dropped, and it is none of those that stay
      have hnewest := ih h.erase
      constructor
      · exact hnewest.capacity_eq
      · rw [hnewest.order_eq, rtake_cons_of_le oldest (by omega)]
      · exact hnewest.lists
      · intro action haction
        rw [hnewest.getElem?_eq action haction]
        rw [hnewest.order_eq] at haction
        rw [Std.TreeMap.getElem?_erase, if_neg]
        rw [Std.compare_eq_iff_eq]
        rintro rfl
        exact (List.nodup_cons.mp h.nodup).1 (mem_of_mem_rtake haction)
    · constructor
      · rfl
      · rw [rtake_of_length_le]
        rw [List.length_cons]
        omega
      · exact h
      · intro _ _
        rfl

/-- A cache has room for an entry at least, and its queue lists its entries. -/
structure WellFormed (c : TreeCache) : Prop where
  capacity_pos : 0 < c.capacity
  lists : Lists c.order c.entries

theorem wellFormed_empty (capacity : Nat) :
  (empty capacity).WellFormed
  := ⟨Nat.lt_of_lt_of_le Nat.one_pos (Nat.le_max_right _ _), lists_empty⟩

theorem WellFormed.clear {c : TreeCache} (h : c.WellFormed) :
  c.clear.WellFormed
  := ⟨h.capacity_pos, lists_empty⟩

theorem WellFormed.hasNewest {c : TreeCache} (h : c.WellFormed) :
  HasNewest (c.capacity - 1) c (makeRoom c.capacity c.entries c.order)
  := hasNewest_makeRoom h.capacity_pos h.lists

section Insert

variable {c : TreeCache} {action : UInt64}

theorem HasNewest.mem_of_mem {count : Nat} {c' : TreeCache} (hnewest : HasNewest count c c')
    (h : c.WellFormed) (hmem : action ∈ c'.entries) :
  action ∈ c.entries
  := by
  rw [← hnewest.lists.mem_iff, hnewest.order_eq] at hmem
  rw [← h.lists.mem_iff]
  exact mem_of_mem_rtake hmem

theorem WellFormed.capacity_insert (h : c.WellFormed) (tree : Option Tree) :
  (c.insert action tree).capacity = c.capacity
  := h.hasNewest.capacity_eq

/-- A new action comes last, and those before it are the newest ones for which there is room. -/
theorem WellFormed.order_insert (h : c.WellFormed) (tree : Option Tree) :
  (c.insert action tree).order = c.order.rtake (c.capacity - 1) ++ [action]
  := congrArg (· ++ [action]) h.hasNewest.order_eq

theorem WellFormed.insert (h : c.WellFormed) (hnew : action ∉ c.entries) (tree : Option Tree) :
  (c.insert action tree).WellFormed
  := by
  constructor
  · rw [h.capacity_insert]
    exact h.capacity_pos
  · apply h.hasNewest.lists.insert
    intro hmem
    exact hnew (h.hasNewest.mem_of_mem h hmem)

theorem getElem?_insert_self (c : TreeCache) (action : UInt64) (tree : Option Tree) :
  (c.insert action tree).entries[action]? = some tree
  := Std.TreeMap.getElem?_insert_self

/-- An entry that stays remains what it was. -/
theorem WellFormed.getElem?_insert_of_mem (h : c.WellFormed) (hnew : action ∉ c.entries)
    (tree : Option Tree) {other : UInt64} (hother : other ∈ c.order.rtake (c.capacity - 1)) :
  (c.insert action tree).entries[other]? = c.entries[other]?
  := by
  rw [← h.hasNewest.order_eq] at hother
  have hne : action ≠ other := by
    rintro rfl
    exact hnew (h.hasNewest.mem_of_mem h ((h.hasNewest.lists.mem_iff _).mp hother))
  rw [← h.hasNewest.getElem?_eq other hother, TreeCache.insert, Std.TreeMap.getElem?_insert, if_neg]
  rwa [Std.compare_eq_iff_eq]

/-- A new action has its tree, those that stay have what they had, and no others have entries. -/
theorem WellFormed.getElem?_insert (h : c.WellFormed) (hnew : action ∉ c.entries)
    (tree : Option Tree) (other : UInt64) :
  (c.insert action tree).entries[other]?
    = if other = action then some tree
      else if other ∈ c.order.rtake (c.capacity - 1) then c.entries[other]? else none
  := by
  split_ifs with heq hstays
  · rw [heq, getElem?_insert_self]
  · apply h.getElem?_insert_of_mem hnew tree hstays
  · apply (h.insert hnew tree).lists.getElem?_eq_none
    rw [h.order_insert]
    simp [heq, hstays]

/-- A new action takes its place behind the others as long as there is room. -/
theorem WellFormed.insert_of_size_lt (h : c.WellFormed) (hnew : action ∉ c.entries)
    (hroom : c.size < c.capacity) (tree : Option Tree) :
  (c.insert action tree).order = c.order ++ [action]
    ∧ ∀ other, (c.insert action tree).entries[other]?
      = if other = action then some tree else c.entries[other]?
  := by
  rw [size, h.lists.size_eq] at hroom
  have hstay : c.order.rtake (c.capacity - 1) = c.order := rtake_of_length_le (by omega)
  constructor
  · rw [h.order_insert, hstay]
  · intro other
    rw [h.getElem?_insert hnew, hstay]
    split_ifs with _ hmem
    · rfl
    · rfl
    · exact (h.lists.getElem?_eq_none hmem).symm

/-- If there is no room then the oldest action leaves for a new one, and no other does. -/
theorem WellFormed.insert_of_size_eq (h : c.WellFormed) (hnew : action ∉ c.entries)
    (hfull : c.size = c.capacity) (tree : Option Tree) :
  ∃ oldest rest, c.order = oldest :: rest ∧ (c.insert action tree).order = rest ++ [action]
    ∧ ∀ other, (c.insert action tree).entries[other]?
      = if other = action then some tree
        else if other = oldest then none else c.entries[other]?
  := by
  rw [size, h.lists.size_eq] at hfull
  obtain ⟨oldest, rest, horder⟩ : ∃ oldest rest, c.order = oldest :: rest := by
    apply List.exists_cons_of_length_pos
    rw [hfull]
    exact h.capacity_pos
  have hstay : c.order.rtake (c.capacity - 1) = rest := by
    rw [← hfull, horder, List.length_cons, Nat.add_sub_cancel, rtake_cons_of_le oldest le_rfl,
      rtake_of_length_le le_rfl]
  use oldest, rest, horder
  constructor
  · rw [h.order_insert, hstay]
  · intro other
    have hnodup := h.lists.nodup
    rw [horder, List.nodup_cons] at hnodup
    rw [h.getElem?_insert hnew, hstay]
    split_ifs with _ hmem holdest holdest
    · rfl
    · rw [holdest] at hmem
      exact absurd hmem hnodup.1
    · rfl
    · rfl
    · apply (h.lists.getElem?_eq_none _).symm
      simp [horder, hmem, holdest]

end Insert

/-! ### Requests -/

section Ensure

variable {c : TreeCache} {names : Names} {action : UInt64} {criteria : List Criterion}

/-- An action that has an entry changes nothing when it comes again. -/
theorem ensure_of_mem (h : action ∈ c.entries) :
  c.ensure names action criteria = c
  := if_pos h

theorem ensure_of_not_mem (h : action ∉ c.entries) :
  c.ensure names action criteria = c.insert action (Tree.build? names none criteria)
  := if_neg h

end Ensure

/-- A use of a cache. -/
inductive Request where
  | getOrBuild (names : Names) (action : UInt64) (criteria : List Criterion)
  | get (action : UInt64)
  | contains (action : UInt64)
  | clear

/-- The cache after a request. To look an action up changes nothing. -/
def after (c : TreeCache) : Request → TreeCache
  | .getOrBuild names action criteria => (c.getOrBuild names action criteria).2
  | .get _ => c
  | .contains _ => c
  | .clear => c.clear

/-- An action that came when it had no entry, with its criteria and the names to be used. -/
structure Insertion where
  names : Names
  action : UInt64
  criteria : List Criterion

/-- The tree that is built when the action comes. -/
def Insertion.tree (i : Insertion) : Option Tree := Tree.build? i.names none i.criteria

/-- A cache, and the insertions since it was last cleared, the oldest one first. -/
structure History where
  cache : TreeCache
  insertions : List Insertion

namespace History

/-- The history with one more request. -/
def after (h : History) (request : Request) : History where
  cache := h.cache.after request
  insertions :=
    match request with
    | .getOrBuild names action criteria =>
      if h.cache.contains action then h.insertions
      else h.insertions ++ [⟨names, action, criteria⟩]
    | .get _ => h.insertions
    | .contains _ => h.insertions
    | .clear => []

/-- The insertions whose entries are still in the cache. -/
def recent (h : History) : List Insertion := h.insertions.rtake h.cache.capacity

/-- The cache has the entries of the last insertions, as many as there is room for. -/
structure IsFifo (h : History) : Prop where
  wellFormed : h.cache.WellFormed
  order_eq : h.cache.order = h.recent.map Insertion.action
  getElem?_eq : ∀ i ∈ h.recent, h.cache.entries[i.action]? = some i.tree

end History

/-- The history of a new cache with a capacity to which some requests are made. -/
def history (capacity : Nat) (requests : List Request) : History :=
  requests.foldl History.after ⟨empty capacity, []⟩

/-! ### The last insertions -/

namespace History

variable {h : History}

theorem IsFifo.size_eq (hfifo : h.IsFifo) :
  h.cache.size = min h.cache.capacity h.insertions.length
  := by
  rw [size, hfifo.wellFormed.lists.size_eq, hfifo.order_eq, List.length_map, recent, length_rtake]

/-- An action that had no entry has the newest one. -/
theorem IsFifo.insert (hfifo : h.IsFifo) {i : Insertion} (hnew : i.action ∉ h.cache.entries) :
  IsFifo ⟨h.cache.insert i.action i.tree, h.insertions ++ [i]⟩
  := by
  have hcapacity : (h.cache.insert i.action i.tree).capacity = h.cache.capacity :=
    hfifo.wellFormed.capacity_insert i.tree
  have hrecent : recent ⟨h.cache.insert i.action i.tree, h.insertions ++ [i]⟩
      = h.insertions.rtake (h.cache.capacity - 1) ++ [i] := by
    obtain ⟨n, hn⟩ := Nat.exists_eq_add_one.mpr hfifo.wellFormed.capacity_pos
    rw [recent, hcapacity, hn, List.rtake_concat_succ, Nat.add_sub_cancel]
  have hstay : h.recent.rtake (h.cache.capacity - 1)
      = h.insertions.rtake (h.cache.capacity - 1) := by
    rw [recent, rtake_rtake, min_eq_left (Nat.sub_le _ _)]
  have horder : h.cache.order.rtake (h.cache.capacity - 1)
      = (h.insertions.rtake (h.cache.capacity - 1)).map Insertion.action := by
    rw [hfifo.order_eq, rtake_map, hstay]
  constructor
  · exact hfifo.wellFormed.insert hnew i.tree
  · rw [hrecent, hfifo.wellFormed.order_insert, horder, List.map_append]
    rfl
  · intro j hj
    rw [hrecent, List.mem_append, List.mem_singleton] at hj
    obtain hj | rfl := hj
    · rw [hfifo.wellFormed.getElem?_insert_of_mem hnew]
      · apply hfifo.getElem?_eq
        rw [← hstay] at hj
        exact mem_of_mem_rtake hj
      · rw [horder]
        exact List.mem_map_of_mem hj
    · apply getElem?_insert_self

section GetOrBuild

variable {names : Names} {action : UInt64} {criteria : List Criterion}

theorem after_getOrBuild_of_mem (hmem : action ∈ h.cache.entries) :
  h.after (.getOrBuild names action criteria) = h
  := by
  have hcontains : h.cache.contains action := hmem
  rw [History.after, TreeCache.after, getOrBuild, ensure_of_mem hmem, if_pos hcontains]

theorem after_getOrBuild_of_not_mem (hnew : action ∉ h.cache.entries) :
  h.after (.getOrBuild names action criteria)
    = ⟨h.cache.insert action (Tree.build? names none criteria),
        h.insertions ++ [⟨names, action, criteria⟩]⟩
  := by
  have hcontains : ¬ h.cache.contains action := hnew
  rw [History.after, TreeCache.after, getOrBuild, ensure_of_not_mem hnew, if_neg hcontains]

end GetOrBuild

theorem IsFifo.after (hfifo : h.IsFifo) (request : Request) :
  (h.after request).IsFifo
  := by
  cases request with
  | getOrBuild names action criteria =>
    by_cases hmem : action ∈ h.cache.entries
    · rwa [after_getOrBuild_of_mem hmem]
    · rw [after_getOrBuild_of_not_mem hmem]
      exact hfifo.insert (i := ⟨names, action, criteria⟩) hmem
  | get _ => exact hfifo
  | contains _ => exact hfifo
  | clear =>
    have hrecent : (h.after .clear).recent = [] := List.rtake_nil _
    constructor
    · exact hfifo.wellFormed.clear
    · rw [hrecent]
      rfl
    · simp [hrecent]

theorem capacity_after (hfifo : h.IsFifo) (request : Request) :
  (h.after request).cache.capacity = h.cache.capacity
  := by
  cases request with
  | getOrBuild names action criteria =>
    by_cases hmem : action ∈ h.cache.entries
    · rw [after_getOrBuild_of_mem hmem]
    · rw [after_getOrBuild_of_not_mem hmem, hfifo.wellFormed.capacity_insert]
  | get _ => rfl
  | contains _ => rfl
  | clear => rfl

theorem IsFifo.foldl_after (hfifo : h.IsFifo) (requests : List Request) :
  (requests.foldl History.after h).IsFifo
    ∧ (requests.foldl History.after h).cache.capacity = h.cache.capacity
  := by
  induction requests generalizing h with
  | nil => exact ⟨hfifo, rfl⟩
  | cons request rest ih =>
    rw [List.foldl_cons, ← capacity_after hfifo request]
    apply ih
    apply hfifo.after request

theorem isFifo_empty (capacity : Nat) :
  IsFifo ⟨empty capacity, []⟩
  := by
  have hrecent : recent ⟨empty capacity, []⟩ = [] := List.rtake_nil _
  constructor
  · exact wellFormed_empty capacity
  · rw [hrecent]
    rfl
  · simp [hrecent]

end History

/-- A cache is a queue of bounded length, whatever is asked of it. Its entries are those of the last
insertions. An action that has an entry changes nothing when it comes again; a new one takes its
place behind the others, and only if there is no room then the oldest one leaves. -/
theorem bounded_fifo_history (capacity : Nat) (requests : List Request) :
  let h := history capacity requests
  let c := h.cache
  c.capacity = max capacity 1
    ∧ c.order.Nodup
    ∧ (∀ action, action ∈ c.order ↔ action ∈ c.entries)
    ∧ c.size = min c.capacity h.insertions.length
    ∧ c.order = (h.insertions.rtake c.capacity).map Insertion.action
    ∧ (∀ i ∈ h.insertions.rtake c.capacity,
        c.entries[i.action]? = some (Tree.build? i.names none i.criteria))
    ∧ ∀ names action criteria,
      let c' := (c.getOrBuild names action criteria).2
      let tree := Tree.build? names none criteria
      (action ∈ c.entries → c' = c)
      ∧ (action ∉ c.entries → c.size < c.capacity →
          c'.order = c.order ++ [action]
          ∧ ∀ other, c'.entries[other]? = if other = action then some tree else c.entries[other]?)
      ∧ (action ∉ c.entries → c.size = c.capacity →
          ∃ oldest rest, c.order = oldest :: rest ∧ c'.order = rest ++ [action]
          ∧ ∀ other, c'.entries[other]?
            = if other = action then some tree
              else if other = oldest then none else c.entries[other]?)
  := by
  intro h c
  obtain ⟨hfifo, hcapacity⟩ := (History.isFifo_empty capacity).foldl_after requests
  have hwellFormed : c.WellFormed := hfifo.wellFormed
  use hcapacity, hwellFormed.lists.nodup, hwellFormed.lists.mem_iff, hfifo.size_eq, hfifo.order_eq,
    hfifo.getElem?_eq
  intro names action criteria c' tree
  have hensure : c' = c.ensure names action criteria := rfl
  constructor
  · intro hmem
    rw [hensure, ensure_of_mem hmem]
  · constructor
    · intro hnew hroom
      rw [hensure, ensure_of_not_mem hnew]
      apply hwellFormed.insert_of_size_lt hnew hroom
    · intro hnew hfull
      rw [hensure, ensure_of_not_mem hnew]
      apply hwellFormed.insert_of_size_eq hnew hfull

/-- An action does not become younger when it comes again. -/
example :
  (history 2 [.getOrBuild .none 1 [], .getOrBuild .none 2 [], .getOrBuild .none 1 [⟨0, 1, 0, 1⟩],
    .getOrBuild .none 3 []]).cache.order = [2, 3]
  := by decide

/-! ### Answers -/

section AgreesWith

variable (names : UInt64 → Names) (criteria : UInt64 → List Criterion)

/-- An action that comes with the request comes with the criteria and the names that are given. -/
def Request.AgreesWith : Request → Prop
  | .getOrBuild names' action criteria' => names' = names action ∧ criteria' = criteria action
  | .get _ => True
  | .contains _ => True
  | .clear => True

/-- The action came with the criteria and the names that are given. -/
def Insertion.AgreesWith (i : Insertion) : Prop :=
  i.names = names i.action ∧ i.criteria = criteria i.action

variable {names criteria} {h : History}

theorem History.agreesWith_after {request : Request} (hrequest : request.AgreesWith names criteria)
    (hagrees : ∀ i ∈ h.insertions, i.AgreesWith names criteria) :
  ∀ i ∈ (h.after request).insertions, i.AgreesWith names criteria
  := by
  cases request with
  | getOrBuild names' action criteria' =>
    by_cases hmem : action ∈ h.cache.entries
    · rwa [after_getOrBuild_of_mem hmem]
    · rw [after_getOrBuild_of_not_mem hmem]
      exact List.forall_mem_append.mpr ⟨hagrees, List.forall_mem_singleton.mpr hrequest⟩
  | get _ => exact hagrees
  | contains _ => exact hagrees
  | clear => exact List.forall_mem_nil _

/-- Each insertion is that of a request. -/
theorem History.agreesWith_foldl_after {requests : List Request}
    (hrequests : ∀ request ∈ requests, request.AgreesWith names criteria)
    (hagrees : ∀ i ∈ h.insertions, i.AgreesWith names criteria) :
  ∀ i ∈ (requests.foldl History.after h).insertions, i.AgreesWith names criteria
  := by
  induction requests generalizing h with
  | nil => exact hagrees
  | cons request rest ih =>
    obtain ⟨hrequest, hrest⟩ := List.forall_mem_cons.mp hrequests
    apply ih hrest
    exact agreesWith_after hrequest hagrees

/-- An action that has an entry has the tree of its criteria. -/
theorem History.IsFifo.get?_eq_build? {action : UInt64} (hfifo : h.IsFifo)
    (hagrees : ∀ i ∈ h.insertions, i.AgreesWith names criteria)
    (hmem : action ∈ h.cache.entries) :
  h.cache.get? action = Tree.build? (names action) none (criteria action)
  := by
  rw [← hfifo.wellFormed.lists.mem_iff, hfifo.order_eq] at hmem
  obtain ⟨i, hi, rfl⟩ := List.mem_map.mp hmem
  obtain ⟨hnames, hcriteria⟩ := hagrees i (mem_of_mem_rtake hi)
  rw [get?, hfifo.getElem?_eq i hi, Option.join_some, Insertion.tree, hnames, hcriteria]

end AgreesWith

theorem mem_of_get?_eq_some {c : TreeCache} {action : UInt64} {t : Tree}
    (h : c.get? action = some t) :
  action ∈ c.entries
  := by
  rw [get?, Option.join_eq_some_iff] at h
  rw [Std.TreeMap.mem_iff_isSome_getElem?, h]
  rfl

/-- An action that comes has an entry afterwards. -/
theorem mem_ensure (names : Names) (action : UInt64) (criteria : List Criterion) (c : TreeCache) :
  action ∈ (c.ensure names action criteria).entries
  := by
  by_cases hmem : action ∈ c.entries
  · rwa [ensure_of_mem hmem]
  · rw [ensure_of_not_mem hmem, Std.TreeMap.mem_iff_isSome_getElem?, getElem?_insert_self]
    rfl

/-- The cache does not depend on the insertions that are recorded. -/
theorem cache_history (capacity : Nat) (requests : List Request) :
  (history capacity requests).cache = requests.foldl after (empty capacity)
  := by
  apply (List.foldl_hom History.cache _).symm
  intro h request
  rfl

section Answers

variable {names : UInt64 → Names} {criteria : UInt64 → List Criterion} {requests : List Request}
  {action : UInt64}

/-- An action that has an entry after some requests has the tree of its criteria. -/
theorem get?_eq_build?_of_mem (capacity : Nat)
    (h : ∀ request ∈ requests, request.AgreesWith names criteria)
    (hmem : action ∈ (requests.foldl after (empty capacity)).entries) :
  (requests.foldl after (empty capacity)).get? action
    = Tree.build? (names action) none (criteria action)
  := by
  rw [← cache_history] at hmem ⊢
  have hfifo := ((History.isFifo_empty capacity).foldl_after requests).1
  apply hfifo.get?_eq_build? _ hmem
  exact History.agreesWith_foldl_after h (List.forall_mem_nil _)

/-- An action that comes after some requests gets the tree of its criteria. -/
theorem fst_getOrBuild_eq_build? (capacity : Nat)
    (h : ∀ request ∈ requests, request.AgreesWith names criteria) (action : UInt64) :
  ((requests.foldl after (empty capacity)).getOrBuild (names action) action (criteria action)).1
    = Tree.build? (names action) none (criteria action)
  := by
  have hafter := List.foldl_concat after (empty capacity)
    (.getOrBuild (names action) action (criteria action)) requests
  -- what is answered is what is found in the cache after one more request
  change (after _ (.getOrBuild (names action) action (criteria action))).get? action = _
  rw [← hafter]
  apply get?_eq_build?_of_mem
  · exact List.forall_mem_append.mpr ⟨h, List.forall_mem_singleton.mpr ⟨rfl, rfl⟩⟩
  · rw [hafter]
    apply mem_ensure

/-- If each action always comes with the same criteria then the trees in a cache are evaluated to
the trees that are built from the criteria, and they answer whether the action may be performed and
what is missing. An action has no tree exactly when it has no criteria. -/
theorem evaluate_eq_build?_of_agreesWith (capacity : Nat)
    (h : ∀ request ∈ requests, request.AgreesWith names criteria) (action : UInt64) :
  let c := requests.foldl after (empty capacity)
  let answer := (c.getOrBuild (names action) action (criteria action)).1
  (∀ t, answer = some t ∨ c.get? action = some t →
    ∀ s : Snapshot,
      Tree.build? (names action) (some s) (criteria action) = some (t.evaluate (some s))
      ∧ check (names action) (criteria action) s
        = ⟨(t.evaluate (some s)).status = .met ∨ (t.evaluate (some s)).status = .unknown,
            (t.evaluate (some s)).shortfalls s⟩)
  ∧ (answer = none ↔ criteria action = [])
  := by
  intro c answer
  have hanswer : answer = Tree.build? (names action) none (criteria action) :=
    fst_getOrBuild_eq_build? capacity h action
  constructor
  · intro t ht s
    have hbuilt : Tree.build? (names action) none (criteria action) = some t := by
      obtain hsome | hsome := ht
      · rwa [← hanswer]
      · rwa [← get?_eq_build?_of_mem capacity h (mem_of_get?_eq_some hsome)]
    constructor
    · rw [← Tree.map_evaluate_build? (names action) none, hbuilt, Option.map_some]
    · rw [check_eq_outcome_evaluate hbuilt, Tree.outcome]
      congr 1
      rw [Bool.eq_iff_iff, Bool.not_eq_true', ← Bool.not_eq_true, Status.not_isBlocking_iff,
        decide_eq_true_iff]
  · rw [hanswer, Tree.build?_eq_none_iff]

end Answers

/-- An action that had to leave comes again, and misses what it missed before. -/
theorem shortfalls_of_reinserted :
  let criteria (action : UInt64) : List Criterion := if action = 1 then [⟨0, 1, 0, 1⟩] else []
  let requests : List Request :=
    [.getOrBuild .none 1 (criteria 1), .getOrBuild .none 2 (criteria 2), .get 2]
  let c := requests.foldl after (empty 1)
  c.contains 1 = false
    ∧ ∃ t, (c.getOrBuild .none 1 (criteria 1)).1 = some t
      ∧ ((t.evaluate (some ∅)).shortfalls ∅).map (·.stat) = [1]
  := by
  intro criteria requests c
  have hagrees : ∀ request ∈ requests, request.AgreesWith (fun _ => .none) criteria := by
    simp [requests, Request.AgreesWith]
  obtain ⟨htree, hnone⟩ := evaluate_eq_build?_of_agreesWith 1 hagrees 1
  constructor
  · decide
  · rcases hanswer : (c.getOrBuild .none 1 (criteria 1)).1 with _ | t
    · exact absurd (hnone.mp hanswer) (by decide)
    · obtain ⟨-, hcheck⟩ := htree t (.inl hanswer) ∅
      use t, rfl
      have hunmet : (check .none (criteria 1) ∅).unmet = (t.evaluate (some ∅)).shortfalls ∅ :=
        congrArg Outcome.unmet hcheck
      rw [← hunmet]
      decide

end Prerequisite.TreeCache
