import Mathlib.Data.Prod.Lex
import Mathlib.Data.Set.Card
import Mathlib.Order.Bounds.Defs
import Prerequisite.Names.Config
import Prerequisite.Proofs.ByteOrder
import Prerequisite.Proofs.Decimal
import Prerequisite.Proofs.Passages

/-!
# The table of names that a configuration gives

A configuration is visited site by site: the stats, the flags with the key of each stat before those
of its flags, the professions, the breeds and the genders, and in each of these tables the keys in
the order of their bytes.  Each key must spell a code, and the first that does not is reported.  A
name that is found replaces an earlier one for the same subject, so that of several keys with the
same code the greatest counts.
-/

namespace Prerequisite

/-- A site of a key in a configuration. -/
inductive Site where
  | stat (key : String)
  /-- The key of the table with the flags of a stat. -/
  | flags (outer : String)
  | flag (outer key : String)
  | member (category : Category) (key : String)
  deriving DecidableEq

namespace Site

/-- The key at the site. -/
def key : Site → String
  | stat key => key
  | flags outer => outer
  | flag _ key => key
  | member _ key => key

/-- The label of the table in which the site lies. -/
def table : Site → String
  | stat _ => "stats"
  | flags _ => "flags"
  | flag outer _ => "flags." ++ outer
  | member .profession _ => "professions"
  | member .breed _ => "breeds"
  | member .gender _ => "genders"

/-- The position of the outermost table in which the site lies. -/
def rank : Site → ℕ
  | stat _ => 0
  | flags _ => 1
  | flag _ _ => 1
  | member .profession _ => 2
  | member .breed _ => 3
  | member .gender _ => 4

/-- The keys that lead to the site, as bytes. -/
def path : Site → List (List ℕ)
  | stat key => [Text.bytes key]
  | flags outer => [Text.bytes outer]
  | flag outer key => [Text.bytes outer, Text.bytes key]
  | member _ key => [Text.bytes key]

/-- The place of a site in the order of the visits. -/
def place (site : Site) : ℕ ×ₗ List (List ℕ) := toLex (site.rank, site.path)

theorem place_injective :
  Function.Injective place
  := by
  have hbytes {key key' : String} : Text.bytes key = Text.bytes key' ↔ key = key' :=
    Text.bytes_strictMono.injective.eq_iff
  intro site site' h
  obtain ⟨hrank, hpath⟩ : site.rank = site'.rank ∧ site.path = site'.path := Prod.mk.inj h
  rcases site with key | outer | ⟨outer, key⟩ | ⟨_ | _ | _, key⟩
  <;> rcases site' with key' | outer' | ⟨outer', key'⟩ | ⟨_ | _ | _, key'⟩
  <;> cases hrank
  <;> simp only [path, List.cons.injEq, and_true, hbytes, reduceCtorEq, and_false] at hpath
  <;> simp only [hpath]

/-- Sites are ordered as they are visited. -/
instance : LinearOrder Site := LinearOrder.lift' place place_injective

theorem lt_iff {site site' : Site} :
  site < site' ↔ site.rank < site'.rank ∨ site.rank = site'.rank ∧ site.path < site'.path
  := Prod.Lex.toLex_lt_toLex

theorem rank_lt (site : Site) :
  site.rank < 5
  := by
  rcases site with _ | _ | _ | ⟨_ | _ | _, _⟩ <;> simp [rank]

/-- Of two sites in one table, the one with the smaller key comes first, whatever other keys follow
it. -/
theorem lt_of_key_lt (before : List (List ℕ)) {rest rest' : List (List ℕ)} {key key' : String}
    (hkey : key < key') {site site' : Site} (hrank : site.rank = site'.rank)
    (hpath : site.path = before ++ Text.bytes key :: rest)
    (hpath' : site'.path = before ++ Text.bytes key' :: rest') :
  site < site'
  := by
  apply lt_iff.mpr
  right
  use hrank
  rw [hpath, hpath']
  apply List.append_left_lt
  apply List.cons_lt_cons_iff.mpr
  left
  apply Text.bytes_strictMono hkey

end Site

namespace NameTable

theorem names_empty (subject : Subject) :
  ({} : NameTable).names subject = none
  := Std.HashMap.getElem?_empty

/-- The size of a table is the number of subjects with a name. -/
theorem encard_names (t : NameTable) :
  {subject | (t.names subject).isSome}.encard = t.size
  := by
  have hkeys : {subject | (t.names subject).isSome} = (t.entries.keys.toFinset : Set Subject) := by
    ext subject
    simp [names]
  rw [hkeys, Set.encard_coe_eq_coe_finsetCard,
    List.toFinset_card_of_nodup Std.HashMap.nodup_keys, Std.HashMap.length_keys, size]

end NameTable

namespace NamesConfig

/-- The names of the members of a category. -/
def members (c : NamesConfig) : Category → NamesByKey
  | .profession => c.professions
  | .breed => c.breeds
  | .gender => c.genders

/-- There is a key at the site. -/
def Has (c : NamesConfig) : Site → Prop
  | .stat key => key ∈ c.stats
  | .flags outer => outer ∈ c.flags
  | .flag outer key => ∃ names, c.flags[outer]? = some names ∧ key ∈ names
  | .member category key => key ∈ c.members category

/-- The name at the site. -/
def name? (c : NamesConfig) : Site → Option String
  | .stat key => c.stats[key]?
  | .flags _ => none
  | .flag outer key => c.flags[outer]?.bind fun names => names[key]?
  | .member category key => (c.members category)[key]?

/-- The key is, without the blanks around it, a numeral of the code. -/
def Spells (key : String) (code : Int64) : Prop := Decimal.Denotes (Text.trim key.toList) code

/-- The keys that lead to the site spell the codes of the subject. -/
def IsFor : Site → Subject → Prop
  | .stat key, .stat code => Spells key code
  | .flag outer key, .flag stat bit => Spells outer stat ∧ Spells key bit
  | .member category key, .member category' code => category = category' ∧ Spells key code
  | _, _ => False

/-! ### The visits -/

/-- The code that a key spells, if there is one. -/
def code? (key : String) : Option Int64 := Decimal.read? (Text.trim key.toList)

theorem code_eq (table key : String) :
  code table key = (code? key).elim (.error (.badCode table key)) .ok
  := by
  unfold code code?
  cases Decimal.read? (Text.trim key.toList) <;> rfl

/-- What the name at a site is for. -/
def subject? : Site → Option Subject
  | .stat key => (code? key).map .stat
  | .flags _ => none
  | .flag outer key => (code? outer).bind fun stat => (code? key).map (.flag stat)
  | .member category key => (code? key).map (.member category)

theorem code?_eq_some_iff {key : String} {n : Int64} :
  code? key = some n ↔ Spells key n
  := by
  rw [Spells, ← Decimal.read_eq_ok_iff, code?, Decimal.read?]
  cases Decimal.read (Text.trim key.toList) <;> simp [Except.toOption]

theorem subject?_eq_some_iff {site : Site} {subject : Subject} :
  subject? site = some subject ↔ IsFor site subject
  := by
  cases site <;> cases subject
  <;> simp [subject?, IsFor, code?_eq_some_iff, Option.bind_eq_some_iff, and_comm]

/-- A site with the name there, if there is one. -/
abbrev Entry := Site × Option String

/-- The entries of a table without tables in it. -/
def entries (site : String → Site) (names : NamesByKey) : List Entry :=
  names.toList.map fun (key, name) => (site key, some name)

/-- The entries for the flags of a stat, after the key of the stat. -/
def group (outer : String) (names : NamesByKey) : List Entry :=
  (.flags outer, none) :: entries (.flag outer) names

/-- The entries of the table of flags. -/
def flagEntries (flags : Std.TreeMap String NamesByKey) : List Entry :=
  flags.toList.flatMap fun (outer, names) => group outer names

/-- The entries of the outermost table of a given rank. -/
def part (c : NamesConfig) : ℕ → List Entry
  | 0 => entries .stat c.stats
  | 1 => flagEntries c.flags
  | 2 => entries (.member .profession) c.professions
  | 3 => entries (.member .breed) c.breeds
  | 4 => entries (.member .gender) c.genders
  | _ => []

/-- The entries of a configuration, as they are visited. -/
def allEntries (c : NamesConfig) : List Entry := (List.range 5).flatMap c.part

/-- The table with the name of an entry, if it has one. -/
def enter (t : NameTable) (entry : Entry) : NameTable :=
  match subject? entry.1, entry.2 with
  | some subject, some name => t.insert subject name
  | _, _ => t

/-- A visit: the key must spell a code, and then the name is entered. -/
def visit (t : NameTable) (entry : Entry) : Except Error NameTable :=
  (code entry.1.table entry.1.key).map fun _ => enter t entry

theorem addAll_eq {table : String} {subject : Int64 → Subject} (site : String → Site)
    (htable : ∀ key, (site key).table = table) (hkey : ∀ key, (site key).key = key)
    (hsubject : ∀ key, subject? (site key) = (code? key).map subject) (names : NamesByKey)
    (t : NameTable) :
  addAll table subject names t = (entries site names).foldlM visit t
  := by
  rw [addAll, entries, List.foldlM_map]
  congr
  funext t ⟨key, name⟩
  simp only [visit, htable, hkey, code_eq, enter, hsubject]
  cases code? key <;> rfl

theorem addFlags_eq (flags : Std.TreeMap String NamesByKey) (t : NameTable) :
  addFlags flags t = (flagEntries flags).foldlM visit t
  := by
  rw [addFlags, flagEntries, foldlM_flatMap]
  congr
  funext t ⟨outer, names⟩
  simp only [group, List.foldlM_cons, visit, code_eq, Site.key, Site.table]
  cases houter : code? outer with
  | none => rfl
  | some stat =>
    -- the visit of the key of the stat changes nothing, and the visits of its flags remain
    change addAll ("flags." ++ outer) (.flag stat) names t
      = (entries (.flag outer) names).foldlM visit t
    apply addAll_eq (.flag outer) (fun _ => rfl) (fun _ => rfl)
    simp [subject?, houter]

/-- The table of names is made by visiting all entries. -/
theorem nameTable_eq (c : NamesConfig) :
  c.nameTable = c.allEntries.foldlM visit {}
  := by
  have hmember (category : Category) (table : String)
      (htable : ∀ key, (Site.member category key).table = table) (names : NamesByKey)
      (t : NameTable) :
      addAll table (.member category) names t
        = (entries (.member category) names).foldlM visit t := by
    apply addAll_eq (.member category) htable (fun _ => rfl) (fun _ => rfl)
  have hparts : c.allEntries = c.part 0 ++ (c.part 1 ++ (c.part 2 ++ (c.part 3 ++ c.part 4))) := by
    simp [allEntries, List.range_succ]
  simp only [hparts, part, List.foldlM_append, nameTable, addFlags_eq,
    hmember .profession "professions" (fun _ => rfl), hmember .breed "breeds" (fun _ => rfl),
    hmember .gender "genders" (fun _ => rfl)]
  rw [addAll_eq .stat (fun _ => rfl) (fun _ => rfl) (fun _ => rfl)]

/-- All entries are visited when all keys spell codes, and the names are entered one after the
other. -/
theorem foldlM_visit_eq_ok_iff {visited : List Entry} {t t' : NameTable} :
  visited.foldlM visit t = .ok t'
    ↔ (∀ entry ∈ visited, ∃ n, Spells entry.1.key n) ∧ visited.foldl enter t = t'
  := by
  induction visited generalizing t with
  | nil => simp [pure, Except.pure]
  | cons entry rest ih =>
    rw [List.foldlM_cons, bind_eq_ok_iff, List.forall_mem_cons, List.foldl_cons]
    simp only [visit, code_eq, ← code?_eq_some_iff, ih]
    cases code? entry.1.key <;> simp [Except.map]

/-- The first key that spells no code is reported. -/
theorem exists_of_foldlM_visit_eq_error {visited : List Entry} {t : NameTable} {e : Error}
    (h : visited.foldlM visit t = .error e) :
  ∃ before entry after, visited = before ++ entry :: after
    ∧ (∀ earlier ∈ before, ∃ n, Spells earlier.1.key n) ∧ (¬ ∃ n, Spells entry.1.key n)
    ∧ e = .badCode entry.1.table entry.1.key
  := by
  induction visited generalizing t with
  | nil => cases h
  | cons entry rest ih =>
    rw [List.foldlM_cons, visit, code_eq] at h
    cases hcode : code? entry.1.key with
    | none =>
      rw [hcode] at h
      cases h
      have hnone : ¬ ∃ n, Spells entry.1.key n := by simp [← code?_eq_some_iff, hcode]
      use [], entry, rest, rfl, by simp, hnone
    | some n =>
      rw [hcode] at h
      obtain ⟨before, bad, after, rfl, hbefore, hbad⟩ := ih h
      have hentry : ∃ n, Spells entry.1.key n := ⟨n, code?_eq_some_iff.mp hcode⟩
      use entry :: before, bad, after, rfl, List.forall_mem_cons.mpr ⟨hentry, hbefore⟩

/-! ### Lookup -/

/-- The name that an entry gives to a subject. -/
def assigned (subject : Subject) (entry : Entry) : Option String :=
  if subject? entry.1 = some subject then entry.2 else none

theorem names_enter (t : NameTable) (entry : Entry) (subject : Subject) :
  (enter t entry).names subject = (assigned subject entry).or (t.names subject)
  := by
  obtain ⟨site, name⟩ := entry
  unfold enter assigned
  cases subject? site with
  | none => rfl
  | some other =>
    cases name with
    | none => simp
    | some name =>
      simp only [NameTable.names_insert, Option.some.injEq]
      split <;> rfl

/-- The last of the entries that give a subject a name counts. -/
theorem names_foldl_enter (visited : List Entry) (t : NameTable) (subject : Subject) :
  (visited.foldl enter t).names subject
    = (visited.reverse.findSome? (assigned subject)).or (t.names subject)
  := by
  induction visited generalizing t with
  | nil => rfl
  | cons entry rest ih =>
    rw [List.foldl_cons, ih, names_enter, List.reverse_cons, List.findSome?_append,
      List.findSome?_singleton, Option.or_assoc]

/-! ### The order of the visits -/

theorem mem_entries_iff {site : String → Site} {names : NamesByKey} {entry : Entry} :
  entry ∈ entries site names ↔ ∃ key name, names[key]? = some name ∧ (site key, some name) = entry
  := by
  simp [entries, Std.TreeMap.mem_toList_iff_getElem?_eq_some]

theorem mem_flagEntries_iff {flags : Std.TreeMap String NamesByKey} {entry : Entry} :
  entry ∈ flagEntries flags
    ↔ ∃ outer names, flags[outer]? = some names ∧ entry ∈ group outer names
  := by
  simp [flagEntries, Std.TreeMap.mem_toList_iff_getElem?_eq_some]

/-- The key of the stat leads to the entries for its flags. -/
theorem path_of_mem_group {outer : String} {names : NamesByKey} {entry : Entry}
    (h : entry ∈ group outer names) :
  entry.1.rank = 1 ∧ ∃ rest, entry.1.path = Text.bytes outer :: rest
  := by
  obtain rfl | hmem := List.mem_cons.mp h
  · use rfl, []
    rfl
  · obtain ⟨key, _, -, rfl⟩ := mem_entries_iff.mp hmem
    use rfl, [Text.bytes key]
    rfl

theorem rank_of_mem_part {c : NamesConfig} {r : ℕ} {entry : Entry} (h : entry ∈ c.part r) :
  entry.1.rank = r
  := by
  match r with
  | 0 | 2 | 3 | 4 =>
    obtain ⟨_, _, -, rfl⟩ := mem_entries_iff.mp h
    rfl
  | 1 =>
    obtain ⟨_, _, -, hmem⟩ := mem_flagEntries_iff.mp h
    apply (path_of_mem_group hmem).1
  | _ + 5 => cases h

theorem mk_mem_entries_iff {site : String → Site} (hsite : Function.Injective site)
    {names : NamesByKey} {key : String} {name : Option String} :
  (site key, name) ∈ entries site names ↔ key ∈ names ∧ names[key]? = name
  := by
  rw [mem_entries_iff, Std.TreeMap.mem_iff_isSome_getElem?]
  constructor
  · rintro ⟨key', name', hname, hentry⟩
    obtain ⟨hkey, rfl⟩ := Prod.mk.inj hentry
    rw [← hsite hkey, hname]
    use rfl
  · rintro ⟨hsome, rfl⟩
    obtain ⟨name', hname⟩ := Option.isSome_iff_exists.mp hsome
    use key, name', hname
    rw [hname]

theorem flags_mem_group_iff {outer outer' : String} {names : NamesByKey} {name : Option String} :
  (.flags outer, name) ∈ group outer' names ↔ outer = outer' ∧ none = name
  := by
  simp [group, mem_entries_iff, eq_comm]

theorem flag_mem_group_iff {outer outer' key : String} {names : NamesByKey}
    {name : Option String} :
  (.flag outer key, name) ∈ group outer' names
    ↔ outer = outer' ∧ key ∈ names ∧ names[key]? = name
  := by
  rw [group, List.mem_cons]
  by_cases h : outer = outer'
  · rw [h, mk_mem_entries_iff fun _ _ hsame => (Site.flag.inj hsame).2]
    simp
  · simp [mem_entries_iff, h, Ne.symm h]

/-- The entries in a table are for the keys that it has. -/
theorem mem_part_iff {c : NamesConfig} {site : Site} {name : Option String} :
  (site, name) ∈ c.part site.rank ↔ c.Has site ∧ c.name? site = name
  := by
  rcases site with key | outer | ⟨outer, key⟩ | ⟨_ | _ | _, key⟩
  case stat => apply mk_mem_entries_iff fun _ _ h => Site.stat.inj h
  case flags =>
    change _ ∈ flagEntries c.flags ↔ outer ∈ c.flags ∧ none = name
    simp only [mem_flagEntries_iff, flags_mem_group_iff, Std.TreeMap.mem_iff_isSome_getElem?,
      Option.isSome_iff_exists]
    constructor
    · rintro ⟨_, names, hnames, rfl, hname⟩
      use ⟨names, hnames⟩
    · rintro ⟨⟨names, hnames⟩, hname⟩
      use outer, names, hnames
  case flag =>
    change _ ∈ flagEntries c.flags ↔ (∃ names, c.flags[outer]? = some names ∧ key ∈ names)
      ∧ (c.flags[outer]?.bind fun names => names[key]?) = name
    simp only [mem_flagEntries_iff, flag_mem_group_iff]
    constructor
    · rintro ⟨_, names, hnames, rfl, hkey, hname⟩
      rw [hnames]
      use ⟨names, rfl, hkey⟩, hname
    · rintro ⟨⟨names, hnames, hkey⟩, hname⟩
      rw [hnames] at hname
      use outer, names, hnames, rfl, hkey, hname
  all_goals apply mk_mem_entries_iff fun _ _ h => (Site.member.inj h).2

theorem mem_allEntries_iff {c : NamesConfig} {site : Site} {name : Option String} :
  (site, name) ∈ c.allEntries ↔ c.Has site ∧ c.name? site = name
  := by
  rw [← mem_part_iff, allEntries, List.mem_flatMap]
  constructor
  · rintro ⟨r, -, hmem⟩
    rwa [rank_of_mem_part hmem]
  · intro hmem
    use site.rank, List.mem_range.mpr site.rank_lt

/-- A configuration has a key where there is an entry. -/
theorem has_iff {c : NamesConfig} {site : Site} :
  c.Has site ↔ ∃ entry ∈ c.allEntries, entry.1 = site
  := by
  constructor
  · intro h
    use (site, c.name? site), mem_allEntries_iff.mpr ⟨h, rfl⟩
  · rintro ⟨entry, hmem, rfl⟩
    apply (mem_allEntries_iff.mp hmem).1

theorem pairwise_entries {site : String → Site}
    (hsite : ∀ {key key'}, key < key' → site key < site key') (names : NamesByKey) :
  (entries site names).Pairwise fun entry later => entry.1 < later.1
  := by
  apply names.ordered_keys_toList.map
  rintro ⟨key, _⟩ ⟨key', _⟩ h
  apply hsite (compare_lt_iff_lt.mp h)

theorem pairwise_group (outer : String) (names : NamesByKey) :
  (group outer names).Pairwise fun entry later => entry.1 < later.1
  := by
  rw [group, List.pairwise_cons]
  constructor
  · intro entry hmem
    obtain ⟨key, _, -, rfl⟩ := mem_entries_iff.mp hmem
    apply Site.lt_iff.mpr
    simp [Site.rank, Site.path]
  · apply pairwise_entries
    intro key key' h
    apply Site.lt_of_key_lt [Text.bytes outer] h <;> rfl

theorem pairwise_flagEntries (flags : Std.TreeMap String NamesByKey) :
  (flagEntries flags).Pairwise fun entry later => entry.1 < later.1
  := by
  rw [flagEntries, List.pairwise_flatMap]
  constructor
  · rintro ⟨outer, names⟩ _
    apply pairwise_group
  · apply flags.ordered_keys_toList.imp
    intro first second h entry hentry later hlater
    obtain ⟨hrank, _, hpath⟩ := path_of_mem_group hentry
    obtain ⟨hrank', _, hpath'⟩ := path_of_mem_group hlater
    apply Site.lt_of_key_lt [] (compare_lt_iff_lt.mp h) (hrank.trans hrank'.symm) hpath hpath'

/-- The sites are visited in their order. -/
theorem pairwise_allEntries (c : NamesConfig) :
  c.allEntries.Pairwise fun entry later => entry.1 < later.1
  := by
  rw [allEntries, List.pairwise_flatMap]
  constructor
  · intro r _
    match r with
    | 0 | 2 | 3 | 4 =>
      apply pairwise_entries
      intro key key' h
      apply Site.lt_of_key_lt [] h <;> rfl
    | 1 => apply pairwise_flagEntries
    | _ + 5 => apply List.Pairwise.nil
  · apply List.pairwise_lt_range.imp
    intro r r' hlt entry hentry later hlater
    apply Site.lt_iff.mpr
    left
    rwa [rank_of_mem_part hentry, rank_of_mem_part hlater]

/-! ### The table -/

/-- The sites of the names that a configuration has for a subject. -/
def sitesFor (c : NamesConfig) (subject : Subject) : Set Site :=
  {site | (c.name? site).isSome ∧ IsFor site subject}

/-- The table with the names of all entries. -/
def entered (c : NamesConfig) : NameTable := c.allEntries.foldl enter {}

theorem names_entered (c : NamesConfig) (subject : Subject) :
  c.entered.names subject = c.allEntries.reverse.findSome? (assigned subject)
  := by
  rw [entered, names_foldl_enter, NameTable.names_empty, Option.or_none]

theorem assigned_eq_some_iff {subject : Subject} {site : Site} {name? : Option String}
    {name : String} :
  assigned subject (site, name?) = some name ↔ IsFor site subject ∧ name? = some name
  := by
  simp [assigned, subject?_eq_some_iff]

theorem has_of_name?_eq_some {c : NamesConfig} {site : Site} {name : String}
    (h : c.name? site = some name) :
  c.Has site
  := by
  cases site with
  | stat key => exact Std.TreeMap.mem_iff_isSome_getElem?.mpr (Option.isSome_of_eq_some h)
  | flags outer => cases h
  | flag outer key =>
    obtain ⟨names, hnames, hname⟩ := Option.bind_eq_some_iff.mp h
    use names, hnames, Std.TreeMap.mem_iff_isSome_getElem?.mpr (Option.isSome_of_eq_some hname)
  | member category key =>
    exact Std.TreeMap.mem_iff_isSome_getElem?.mpr (Option.isSome_of_eq_some h)

theorem mem_sitesFor_iff {c : NamesConfig} {subject : Subject} {site : Site} :
  site ∈ c.sitesFor subject
    ↔ ∃ entry ∈ c.allEntries, entry.1 = site ∧ (assigned subject entry).isSome
  := by
  constructor
  · rintro ⟨hsome, hfor⟩
    obtain ⟨name, hname⟩ := Option.isSome_iff_exists.mp hsome
    have hassigned : assigned subject (site, some name) = some name :=
      assigned_eq_some_iff.mpr ⟨hfor, rfl⟩
    use (site, some name), mem_allEntries_iff.mpr ⟨has_of_name?_eq_some hname, hname⟩, rfl,
      Option.isSome_of_eq_some hassigned
  · rintro ⟨⟨_, name?⟩, hmem, rfl, hsome⟩
    obtain ⟨name, hassigned⟩ := Option.isSome_iff_exists.mp hsome
    obtain ⟨hfor, rfl⟩ := assigned_eq_some_iff.mp hassigned
    use Option.isSome_of_eq_some (mem_allEntries_iff.mp hmem).2

/-- There is a name for a subject exactly when there is a site for it. -/
theorem names_entered_eq_none_iff {c : NamesConfig} {subject : Subject} :
  c.entered.names subject = none ↔ c.sitesFor subject = ∅
  := by
  rw [names_entered, List.findSome?_eq_none_iff, Set.eq_empty_iff_forall_notMem]
  simp [mem_sitesFor_iff]

/-- The name that counts is at the greatest site for the subject. -/
theorem exists_isGreatest_of_names_entered {c : NamesConfig} {subject : Subject} {name : String}
    (h : c.entered.names subject = some name) :
  ∃ site, IsGreatest (c.sitesFor subject) site ∧ c.name? site = some name
  := by
  rw [names_entered, List.findSome?_eq_some_iff] at h
  obtain ⟨after, ⟨site, name?⟩, before, hentries, hassigned, hafter⟩ := h
  obtain ⟨hfor, rfl⟩ := assigned_eq_some_iff.mp hassigned
  have hmem : (site, some name) ∈ c.allEntries := by
    rw [← List.mem_reverse, hentries]
    simp
  obtain ⟨-, hname⟩ := mem_allEntries_iff.mp hmem
  have hsite : site ∈ c.sitesFor subject := ⟨Option.isSome_of_eq_some hname, hfor⟩
  have horder := List.pairwise_reverse.mpr c.pairwise_allEntries
  refine ⟨site, ⟨hsite, ?_⟩, hname⟩
  intro other hother
  obtain ⟨entry, hentry, rfl, hsome⟩ := mem_sitesFor_iff.mp hother
  rw [hentries] at horder
  rw [← List.mem_reverse, hentries] at hentry
  obtain hlater | rfl | hearlier := mem_or_rel_of_mem horder hentry
  · simp [hafter entry hlater] at hsome
  · apply le_rfl
  · apply hearlier.le

theorem names_entered_eq_some_iff {c : NamesConfig} {subject : Subject} {name : String} :
  c.entered.names subject = some name
    ↔ ∃ site, IsGreatest (c.sitesFor subject) site ∧ c.name? site = some name
  := by
  use exists_isGreatest_of_names_entered
  rintro ⟨site, hsite, hname⟩
  cases hnames : c.entered.names subject with
  | none =>
    rw [names_entered_eq_none_iff] at hnames
    have hmem := hsite.1
    rw [hnames] at hmem
    cases hmem
  | some name' =>
    obtain ⟨site', hsite', hname'⟩ := exists_isGreatest_of_names_entered hnames
    rw [← hname', hsite'.unique hsite, hname]

/-- The table of a configuration is the one with the names of all entries, if each key spells a
code. -/
theorem nameTable_eq_ok_iff {c : NamesConfig} {t : NameTable} :
  c.nameTable = .ok t ↔ (∀ site, c.Has site → ∃ n, Spells site.key n) ∧ c.entered = t
  := by
  rw [nameTable_eq, foldlM_visit_eq_ok_iff, entered]
  simp [has_iff]

/-- The key that is reported is at the least site with a key that spells no code. -/
theorem exists_isLeast_of_nameTable {c : NamesConfig} {e : Error} (h : c.nameTable = .error e) :
  ∃ site, IsLeast {site | c.Has site ∧ ¬ ∃ n, Spells site.key n} site
    ∧ e = .badCode site.table site.key
  := by
  rw [nameTable_eq] at h
  obtain ⟨before, entry, after, hentries, hbefore, hentry, rfl⟩ :=
    exists_of_foldlM_visit_eq_error h
  have hmem : entry ∈ c.allEntries := by simp [hentries]
  refine ⟨entry.1, ⟨⟨has_iff.mpr ⟨entry, hmem, rfl⟩, hentry⟩, ?_⟩, rfl⟩
  rintro _ ⟨hhas, hbad⟩
  obtain ⟨other, hother, rfl⟩ := has_iff.mp hhas
  have horder := c.pairwise_allEntries
  rw [hentries] at horder hother
  obtain hearlier | rfl | hlater := mem_or_rel_of_mem horder hother
  · exact absurd (hbefore other hearlier) hbad
  · apply le_rfl
  · apply hlater.le

/-- A configuration is refused because of the least site whose key spells no code. -/
theorem nameTable_eq_error_iff {c : NamesConfig} {e : Error} :
  c.nameTable = .error e
    ↔ ∃ site, IsLeast {site | c.Has site ∧ ¬ ∃ n, Spells site.key n} site
      ∧ e = .badCode site.table site.key
  := by
  constructor
  · apply exists_isLeast_of_nameTable
  · rintro ⟨site, hleast, rfl⟩
    cases h : c.nameTable with
    | ok t =>
      obtain ⟨hhas, hbad⟩ := hleast.1
      exact absurd ((nameTable_eq_ok_iff.mp h).1 site hhas) hbad
    | error e =>
      obtain ⟨site', hleast', rfl⟩ := exists_isLeast_of_nameTable h
      rw [hleast.unique hleast']

/-- Some names are those of a configuration: each subject has the name at the greatest site for
it. -/
def HasNames (c : NamesConfig) (names : Names) : Prop :=
  ∀ subject name, names subject = some name
    ↔ ∃ site, IsGreatest (c.sitesFor subject) site ∧ c.name? site = some name

/-- The table of a configuration has the names of the configuration and no others. -/
theorem hasNames_iff {c : NamesConfig} {t : NameTable} (h : c.nameTable = .ok t) {names : Names} :
  c.HasNames names ↔ names = t.names
  := by
  obtain ⟨-, rfl⟩ := nameTable_eq_ok_iff.mp h
  constructor
  · intro hnames
    funext subject
    apply Option.ext
    intro name
    rw [hnames, names_entered_eq_some_iff]
  · rintro rfl
    intro subject name
    apply names_entered_eq_some_iff

/-- The table has as many entries as there are subjects with a site. -/
theorem encard_sitesFor_nonempty (c : NamesConfig) :
  {subject | (c.sitesFor subject).Nonempty}.encard = c.entered.size
  := by
  rw [← NameTable.encard_names]
  congr
  ext subject
  rw [Set.nonempty_iff_ne_empty, Option.isSome_iff_ne_none, Ne, Ne, names_entered_eq_none_iff]

/-- A configuration gives a table exactly when each of its keys spells a code. The table has the
name at the greatest site for each subject, and as many entries as there are subjects with a site.
Otherwise the least site whose key spells no code is reported. -/
theorem nameTable_or_first_bad_key (c : NamesConfig) :
  ((∃ t, c.nameTable = .ok t) ↔ ∀ site, c.Has site → ∃ n, Spells site.key n)
    ∧ (∀ t, c.nameTable = .ok t →
      (∀ subject name, t.names subject = some name
          ↔ ∃ site, IsGreatest (c.sitesFor subject) site ∧ c.name? site = some name)
        ∧ (∀ subject, t.names subject = none ↔ c.sitesFor subject = ∅)
        ∧ {subject | (c.sitesFor subject).Nonempty}.encard = t.size)
    ∧ ((¬ ∃ t, c.nameTable = .ok t) →
      ∃ site, IsLeast {site | c.Has site ∧ ¬ ∃ n, Spells site.key n} site
        ∧ c.nameTable = .error (.badCode site.table site.key))
  := by
  refine ⟨?_, ?_, ?_⟩
  · simp [nameTable_eq_ok_iff]
  · intro t h
    obtain ⟨-, rfl⟩ := nameTable_eq_ok_iff.mp h
    use fun _ _ => names_entered_eq_some_iff, fun _ => names_entered_eq_none_iff
    apply encard_sitesFor_nonempty
  · intro hnone
    cases h : c.nameTable with
    | ok t => exact absurd ⟨t, h⟩ hnone
    | error e =>
      obtain ⟨site, hleast, rfl⟩ := exists_isLeast_of_nameTable h
      use site, hleast

/-- Three keys spell the same code, and the name of the greatest counts. The key of a table of flags
is reported although that table is empty, and not a key among the genders. -/
theorem nameTable_of_keys_with_same_code :
  (∃ t, nameTable { stats := .ofList [("5", "a"), ("+05", "b"), (" 5 ", "c")] } = .ok t
      ∧ t.names (.stat 5) = some "a")
    ∧ ∃ bad, IsLeast {site |
        Has { flags := .ofList [("x", ∅)], genders := .ofList [("y", "d")] } site
          ∧ ¬ ∃ n, Spells site.key n} bad
      ∧ bad.table = "flags" ∧ bad.key = "x"
  := by
  constructor
  · let c : NamesConfig := { stats := .ofList [("5", "a"), ("+05", "b"), (" 5 ", "c")] }
    have hkeys {site : Site} (h : c.Has site) :
        site = .stat " 5 " ∨ site = .stat "+05" ∨ site = .stat "5" := by
      obtain ⟨entry, hmem, rfl⟩ := has_iff.mp h
      have hentries : c.allEntries
        = [(.stat " 5 ", some "c"), (.stat "+05", some "b"), (.stat "5", some "a")] := rfl
      rw [hentries] at hmem
      simp only [List.mem_cons, List.not_mem_nil, or_false] at hmem
      obtain rfl | rfl | rfl := hmem <;> simp
    have hspells : Spells "5" 5 := Decimal.read_eq_ok_iff.mp rfl
    obtain ⟨t, ht⟩ := (nameTable_or_first_bad_key c).1.mpr fun site h => by
      use 5
      obtain rfl | rfl | rfl := hkeys h <;> exact Decimal.read_eq_ok_iff.mp rfl
    have hgreatest : IsGreatest (c.sitesFor (.stat 5)) (.stat "5") := by
      use ⟨rfl, hspells⟩
      rintro site ⟨hname, -⟩
      obtain ⟨name, hname⟩ := Option.isSome_iff_exists.mp hname
      obtain rfl | rfl | rfl := hkeys (has_of_name?_eq_some hname)
      · apply le_of_lt
        apply Site.lt_of_key_lt [] (by decide : " 5 " < "5") <;> rfl
      · apply le_of_lt
        apply Site.lt_of_key_lt [] (by decide : "+05" < "5") <;> rfl
      · apply le_rfl
    use t, ht
    apply (((nameTable_or_first_bad_key c).2.1 t ht).1 _ _).mpr
    use .stat "5", hgreatest
    rfl
  · let c : NamesConfig := { flags := .ofList [("x", ∅)], genders := .ofList [("y", "d")] }
    have hbad : c.nameTable = .error (.badCode "flags" "x") := rfl
    obtain ⟨site, hleast, herror⟩ := (nameTable_or_first_bad_key c).2.2 (by simp [hbad])
    obtain ⟨htable, hkey⟩ : "flags" = site.table ∧ "x" = site.key := by
      simpa [hbad] using herror
    use site, hleast, htable.symm, hkey.symm

end NamesConfig

end Prerequisite
