import SqlCompose.Proofs.Joining
import Mathlib.Data.List.Induction
import Mathlib.Order.Bounds.Basic

/-!
The numbers of aliases. A number is found by trying one after the other until the alias is apart
from all earlier ones. `Search` is that search as it goes, with the number of its attempts; it has
no bound of its own. It ends nevertheless, because different numbers give different aliases and
there are only as many numbers to pass over as there are earlier aliases, and it ends with the least
number that is free. `allocate_numbered` says so of every alias of a statement.

Nothing is counted in the search, and yet the number of an alias is a count: that of the earlier
names with the same first character (`allocate_counted`). Aliases of another first character never
stand in the way. An empty name is the exception, because its alias is a bare number, which may look
like a first digit with a number behind it; so names that begin with a digit are counted only where
no name is empty.
-/

set_option autoImplicit false
set_option relaxedAutoImplicit false

namespace SqlCompose.Alias

variable {earlier : List String} {seed : List Char}

/-! ### The least free number -/

theorem freeSuffix_spec (earlier : List String) (seed : List Char) :
    candidate seed (freeSuffix earlier seed) ∉ earlier ∧
      freeSuffix earlier seed ≤ earlier.length ∧
        ∀ suffix < freeSuffix earlier seed, candidate seed suffix ∈ earlier := by
  obtain ⟨suffix, hfound⟩ := exists_free earlier seed
  have hsuffix : freeSuffix earlier seed = suffix := by
    rw [freeSuffix, hfound, Option.getD_some]
  obtain ⟨hfree, hbound, htaken⟩ := List.find?_range_eq_some.mp hfound
  rw [List.mem_range] at hbound
  rw [hsuffix]
  refine ⟨by simpa using hfree, by omega, ?_⟩
  intro smaller hsmaller
  simpa using htaken smaller hsmaller

/-- The number that is taken is the least one with an alias apart from the earlier ones. -/
theorem isLeast_freeSuffix (earlier : List String) (seed : List Char) :
    IsLeast {suffix | candidate seed suffix ∉ earlier} (freeSuffix earlier seed) := by
  obtain ⟨hfree, -, htaken⟩ := freeSuffix_spec earlier seed
  refine ⟨hfree, ?_⟩
  intro suffix hsuffix
  by_contra hsmaller
  exact hsuffix (htaken suffix (Nat.lt_of_not_le hsmaller))

/-! ### Searching -/

/-- The search that begins with a number ends with the number `found` after so many attempts: an
attempt whose alias is taken goes on to the next number, and the first one that is free is found. -/
inductive Search (earlier : List String) (seed : List Char) : Nat → Nat → Nat → Prop
  | found {suffix : Nat} (hfree : candidate seed suffix ∉ earlier) :
    Search earlier seed suffix suffix 1
  | next {suffix found attempts : Nat} (htaken : candidate seed suffix ∈ earlier)
    (hrest : Search earlier seed (suffix + 1) found attempts) :
    Search earlier seed suffix found (attempts + 1)

/-- A search passes over all numbers that are taken. -/
theorem Search.of_taken {start passed : Nat}
    (htaken : ∀ suffix < start + passed, start ≤ suffix → candidate seed suffix ∈ earlier)
    (hfree : candidate seed (start + passed) ∉ earlier) :
    Search earlier seed start (start + passed) (passed + 1) := by
  induction passed generalizing start with
  | zero => exact .found hfree
  | succ passed ih =>
    have hshift : start + (passed + 1) = start + 1 + passed := by omega
    rw [hshift] at htaken hfree ⊢
    refine .next (htaken start (by omega) le_rfl) (ih ?_ hfree)
    intro suffix hbelow habove
    exact htaken suffix hbelow (by omega)

/-- A search that ends has passed over taken numbers only, one in each attempt but the last. -/
theorem Search.spec {start found attempts : Nat}
    (hsearch : Search earlier seed start found attempts) :
    candidate seed found ∉ earlier ∧ found + 1 = start + attempts ∧
      ∀ suffix < found, start ≤ suffix → candidate seed suffix ∈ earlier := by
  induction hsearch with
  | found hfree =>
    refine ⟨hfree, rfl, ?_⟩
    intro suffix hbelow habove
    omega
  | @next first found attempts htaken hrest ih =>
    obtain ⟨hfree, hattempts, hpassed⟩ := ih
    refine ⟨hfree, by omega, ?_⟩
    intro suffix hbelow habove
    by_cases hfirst : suffix = first
    · rw [hfirst]
      exact htaken
    · exact hpassed suffix hbelow (by omega)

/-- The search from zero on ends, and only with the least free number. -/
theorem search_iff (earlier : List String) (seed : List Char) (found attempts : Nat) :
    Search earlier seed 0 found attempts ↔
      found = freeSuffix earlier seed ∧ attempts = freeSuffix earlier seed + 1 := by
  obtain ⟨hfree, -, htaken⟩ := freeSuffix_spec earlier seed
  constructor
  · intro hsearch
    obtain ⟨hfound, hattempts, hpassed⟩ := hsearch.spec
    have hleast := (isLeast_freeSuffix earlier seed).2 hfound
    have hfound' : found = freeSuffix earlier seed := by
      by_contra hne
      exact hfree (hpassed _ (by omega) (Nat.zero_le _))
    omega
  · rintro ⟨rfl, rfl⟩
    have hsearch : Search earlier seed 0 (0 + freeSuffix earlier seed)
        (freeSuffix earlier seed + 1) := by
      refine .of_taken ?_ (by rwa [Nat.zero_add])
      intro suffix hbelow _
      exact htaken suffix (by omega)
    rwa [Nat.zero_add] at hsearch

/-! ### The aliases of a statement -/

/-- Every alias continues those before it. -/
theorem getElem?_allocate {tables : List String} {position : Nat} {table : String}
    (htable : tables[position]? = some table) :
    (allocate tables)[position]? = some (next ((allocate tables).take position) table) := by
  induction tables using List.reverseRecOn with
  | nil => cases htable
  | append_singleton tables last ih =>
    have hlength := length_allocate tables
    rw [allocate_append]
    by_cases hearlier : position < tables.length
    · rw [List.getElem?_append_left hearlier] at htable
      rw [List.getElem?_append_left (by omega), List.take_append_of_le_length (by omega), ih htable]
    · have hposition : position = tables.length := by
        have hbound := (List.getElem?_eq_some_iff.mp htable).1
        rw [List.length_append, List.length_singleton] at hbound
        omega
      rw [hposition, List.getElem?_concat_length] at htable
      cases htable
      rw [hposition, ← hlength, List.getElem?_concat_length, List.take_left]

/-- There is one alias for each table, and no two are the same. The alias at a position is the first
character of the table's name with the least number that keeps it apart from the aliases before it;
that number is at most the position, and the search for it ends after one more attempts than the
number. -/
theorem allocate_numbered (tables : List String) :
    (allocate tables).length = tables.length ∧ (allocate tables).Nodup ∧
      ∀ position : Fin tables.length,
        let before := (allocate tables).take position
        let first := (tables.get position).toList.take 1
        ∃ suffix ≤ position.val,
          (allocate tables)[position.val]? = some (String.ofList (first ++ Text.decimal suffix)) ∧
            IsLeast {number | String.ofList (first ++ Text.decimal number) ∉ before} suffix ∧
            ∀ found attempts, Search before first 0 found attempts ↔
              found = suffix ∧ attempts = suffix + 1 := by
  refine ⟨length_allocate tables, nodup_allocate tables, ?_⟩
  intro position before first
  have hbound : freeSuffix before first ≤ before.length := (freeSuffix_spec before first).2.1
  have hbefore : before.length ≤ position.val := by
    rw [List.length_take]
    exact Nat.min_le_left _ _
  refine ⟨freeSuffix before first, hbound.trans hbefore, ?_, isLeast_freeSuffix before first,
    search_iff before first⟩
  exact getElem?_allocate (List.getElem?_eq_getElem position.isLt)

/-- Empty names have no letter, and names with one letter share its numbers. -/
example : allocate ["", "", "users", "uploads"] = ["0", "1", "u0", "u1"] := by
  decide +kernel

/-! ### Counting names by their first character -/

/-- How many of the names begin with the given character. -/
def countFirst (first : Char) (tables : List String) : Nat :=
  tables.countP fun table ↦ table.toList.head? == some first

theorem countFirst_append_singleton (first : Char) (tables : List String) (table : String) :
    countFirst first (tables ++ [table]) =
      countFirst first tables + if table.toList.head? = some first then 1 else 0 := by
  rw [countFirst, List.countP_append, List.countP_singleton]
  simp only [beq_iff_eq]
  rfl

theorem seed_eq_singleton_iff {table : String} {first : Char} :
    Alias.seed table = [first] ↔ table.toList.head? = some first := by
  unfold Alias.seed
  cases table.toList <;> simp

/-- An alias that reads as a character with a number behind it belongs to a name that begins with
this character, unless the character is a digit and the name is empty: the alias of an empty name
is all digits. -/
theorem head?_eq_of_candidate_eq {table : String} {first : Char} {number suffix : Nat}
    (heq : candidate (Alias.seed table) number = candidate [first] suffix)
    (hapart : first.isDigit = false ∨ table ≠ "") : table.toList.head? = some first := by
  have hletters := String.ofList_injective heq
  unfold Alias.seed at hletters
  cases hname : table.toList with
  | nil =>
    have hempty : table = "" := String.toList_inj.mp hname
    have hletter : first.isDigit = false := hapart.resolve_right (not_not_intro hempty)
    rw [hname, List.take_nil, List.nil_append, ← List.append_nil (Text.decimal number)] at hletters
    exact absurd hletters ((isDigits_decimal number).append_ne_cons hletter _ _)
  | cons letter rest =>
    rw [hname] at hletters
    rw [List.head?_cons, (List.cons.inj hletters).1]

/-- When the numbers below a bound are taken and no others, the bound is the least free number. -/
theorem freeSuffix_eq_of_mem_iff {bound : Nat}
    (htaken : ∀ suffix, candidate seed suffix ∈ earlier ↔ suffix < bound) :
    freeSuffix earlier seed = bound := by
  refine (isLeast_freeSuffix earlier seed).unique ⟨?_, ?_⟩
  · exact fun hmem ↦ Nat.lt_irrefl bound ((htaken bound).mp hmem)
  · exact fun suffix hfree ↦ Nat.le_of_not_lt fun hlt ↦ hfree ((htaken suffix).mpr hlt)

/-- The numbers that are taken behind a character are those below the count of names that begin
with it. One more such name takes the least number that was free, the count so far, and any other
name takes an alias that does not read like this. -/
theorem candidate_mem_allocate_iff {tables : List String} {first : Char}
    (hapart : first.isDigit = false ∨ "" ∉ tables) (suffix : Nat) :
    candidate [first] suffix ∈ allocate tables ↔ suffix < countFirst first tables := by
  induction tables using List.reverseRecOn generalizing suffix with
  | nil => exact iff_of_false List.not_mem_nil (Nat.not_lt_zero suffix)
  | append_singleton tables table ih =>
    have hearlier : first.isDigit = false ∨ "" ∉ tables :=
      hapart.imp_right fun hnone hmem ↦ hnone (List.mem_append_left _ hmem)
    have hlast : first.isDigit = false ∨ table ≠ "" :=
      hapart.imp_right fun hnone hempty ↦ hnone (by simp [hempty])
    rw [allocate_append, List.mem_append, List.mem_singleton, ih hearlier,
      countFirst_append_singleton]
    split_ifs with hsame
    · rw [next, seed_eq_singleton_iff.mpr hsame, freeSuffix_eq_of_mem_iff (ih hearlier)]
      have hnext : candidate [first] suffix = candidate [first] (countFirst first tables) ↔
          suffix = countFirst first tables := ⟨candidate_injective, congrArg _⟩
      rw [hnext]
      omega
    · have hnext : candidate [first] suffix ≠ next (allocate tables) table :=
        fun heq ↦ hsame (head?_eq_of_candidate_eq heq.symm hlast)
      rw [or_iff_left hnext, Nat.add_zero]

theorem take_allocate (tables : List String) (count : Nat) :
    (allocate tables).take count = allocate (tables.take count) := by
  induction tables using List.reverseRecOn with
  | nil => rw [List.take_nil, allocate, allocateAfter, List.take_nil]
  | append_singleton tables last ih =>
    have hlength := length_allocate tables
    by_cases hle : count ≤ tables.length
    · rw [allocate_append, List.take_append_of_le_length (by omega), ih,
        List.take_append_of_le_length hle]
    · have hall : (tables ++ [last]).length ≤ count := by
        rw [List.length_append, List.length_singleton]
        omega
      rw [List.take_of_length_le hall, List.take_of_length_le (by rwa [length_allocate])]

/-- The number of an alias is the number of earlier names with the same first character, if that is
no digit or if no name is empty. -/
theorem allocate_counted {tables : List String} (position : Fin tables.length) {first : Char}
    (hfirst : (tables.get position).toList.head? = some first)
    (hapart : first.isDigit = false ∨ "" ∉ tables) :
    (allocate tables)[position.val]? = some (String.ofList
      (first :: Text.decimal (countFirst first (tables.take position)))) := by
  have hearlier : first.isDigit = false ∨ "" ∉ tables.take position :=
    hapart.imp_right fun hnone hmem ↦ hnone (List.mem_of_mem_take hmem)
  have htable : tables[position.val]? = some (tables.get position) :=
    List.getElem?_eq_getElem position.isLt
  rw [getElem?_allocate htable, next, take_allocate, seed_eq_singleton_iff.mpr hfirst,
    freeSuffix_eq_of_mem_iff (candidate_mem_allocate_iff hearlier)]
  rfl

/-- Two names that begin with the same letter come before `uploads`, and an empty one does no harm;
one that begins with the same digit comes before `1st_visits`, and no name is empty. -/
theorem allocate_counted_uploads :
    'u'.isDigit = false ∧
      (allocate ["users", "", "updates", "uploads"])[3]? = some "u2" ∧
      "" ∉ ["1st_orders", "users", "1st_visits"] ∧
      (allocate ["1st_orders", "users", "1st_visits"])[2]? = some "11" := by
  have hletter : 'u'.isDigit = false := rfl
  have hnone : "" ∉ ["1st_orders", "users", "1st_visits"] := by decide
  refine ⟨hletter, ?_, hnone, ?_⟩
  · exact allocate_counted (3 : Fin ["users", "", "updates", "uploads"].length) rfl
      (Or.inl hletter)
  · exact allocate_counted (2 : Fin ["1st_orders", "users", "1st_visits"].length) rfl
      (Or.inr hnone)

/-- Eleven empty names take the bare numbers up to ten, and with it the first alias of a digit. -/
example : (allocate (List.replicate 11 "" ++ ["1st_orders"]))[11]? = some "11" := by
  decide +kernel

end SqlCompose.Alias
