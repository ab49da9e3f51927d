import SqlCompose.Number.Binary64

/-!
TOML documents as values. A table remembers how it came about, because that decides whether later
lines may still add to it: a table from a header or an inline table is closed to dotted keys, a
table that only contains others is open to a later header, and a table made by dotted keys grows by
further dotted keys alone. A scalar that is recognized as a number but denotes none, or one outside
the representable range, is `unreadable` and refused wherever it is looked at.
-/

set_option autoImplicit false
set_option relaxedAutoImplicit false

namespace SqlCompose

/-- How a table came about. -/
inductive TomlTableKind
  /-- By a header of its own. -/
  | header
  /-- As the surroundings of a table with a header. -/
  | implied
  /-- As the part of a dotted key before a dot. -/
  | dotted
  /-- Between braces. -/
  | inline
deriving DecidableEq, Repr

/-- A TOML value. -/
inductive Toml
  | string (value : String)
  | integer (value : Int)
  | float (value : Binary64)
  | boolean (value : Bool)
  /-- A date, a time or both, in its written form. -/
  | dateTime (text : String)
  | array (items : List Toml)
  | table (kind : TomlTableKind) (entries : List (String × Toml))
  /-- Tables that share a header in double brackets, the latest one last. -/
  | tables (elements : List (List (String × Toml)))
  /-- A number without a value of its type. -/
  | unreadable
deriving Repr, Inhabited

namespace Toml

mutual

/-- Nothing in the value is unreadable. -/
def isReadable : Toml → Bool
  | unreadable => false
  | array items => areReadable items
  | table _ entries => entriesReadable entries
  | tables elements => elementsReadable elements
  | _ => true

/-- Nothing in the items is unreadable. -/
def areReadable : List Toml → Bool
  | [] => true
  | item :: rest => isReadable item && areReadable rest

/-- Nothing in the entries is unreadable. -/
def entriesReadable : List (String × Toml) → Bool
  | [] => true
  | (_, value) :: rest => isReadable value && entriesReadable rest

/-- Nothing in the tables is unreadable. -/
def elementsReadable : List (List (String × Toml)) → Bool
  | [] => true
  | entries :: rest => entriesReadable entries && elementsReadable rest

end

/-! ### Adding to tables -/

/-- The entries with the value of a key replaced. -/
def replaceEntry (key : String) (value : Toml) : List (String × Toml) → List (String × Toml)
  | [] => [(key, value)]
  | (name, old) :: rest =>
    if name = key then (key, value) :: rest else (name, old) :: replaceEntry key value rest

/-- A change to a table, which depends on how the table came about and may be refused. -/
abbrev TableChange :=
  TomlTableKind → List (String × Toml) → Option (TomlTableKind × List (String × Toml))

/-- Changes the table at a path, making the tables on the way that do not exist yet. Of several
tables under one header the latest is meant. -/
def changeAt (throughDots : Bool) (change : TableChange) : List String → TableChange
  | [], kind, entries => change kind entries
  | key :: rest, kind, entries => do
    let put := fun value ↦ (kind, replaceEntry key value entries)
    match entries.lookup key with
    | none =>
      let made := if throughDots then TomlTableKind.dotted else .implied
      let (innerKind, inner) ← changeAt throughDots change rest made []
      pure (put (table innerKind inner))
    | some (table innerKind inner) =>
      if innerKind = .inline ∨ (throughDots ∧ innerKind = .header) then none
      else
        let (innerKind, inner) ← changeAt throughDots change rest innerKind inner
        pure (put (table innerKind inner))
    | some (tables elements) =>
      match elements.reverse with
      | [] => none
      | latest :: earlier =>
        let (_, latest) ← changeAt throughDots change rest .header latest
        pure (put (tables (latest :: earlier).reverse))
    | some _ => none

/-- Gives a new key a value. A dotted key leads to a table made by dotted keys, any other key to a
table made otherwise. -/
def addEntry (dotted : Bool) (key : String) (value : Toml) : TableChange := fun kind entries ↦
  if decide (kind = .dotted) != dotted || (entries.lookup key).isSome then none
  else some (kind, entries ++ [(key, value)])

/-- Opens the table of a header: a new one, or one that so far only contained others. -/
def openTable (key : String) : TableChange := fun kind entries ↦
  match entries.lookup key with
  | none => some (kind, entries ++ [(key, table .header [])])
  | some (table .implied inner) => some (kind, replaceEntry key (table .header inner) entries)
  | some _ => none

/-- Opens one more table under a header in double brackets. -/
def openElement (key : String) : TableChange := fun kind entries ↦
  match entries.lookup key with
  | none => some (kind, entries ++ [(key, tables [[]])])
  | some (tables elements) => some (kind, replaceEntry key (tables (elements ++ [[]])) entries)
  | some _ => none

/-- Changes a table at a path that exists, as left by the latest header. -/
def changeWithin (change : TableChange) : List String → TableChange
  | [], kind, entries => change kind entries
  | key :: rest, kind, entries => do
    let put := fun value ↦ (kind, replaceEntry key value entries)
    match entries.lookup key with
    | some (table innerKind inner) =>
      let (innerKind, inner) ← changeWithin change rest innerKind inner
      pure (put (table innerKind inner))
    | some (tables elements) =>
      match elements.reverse with
      | [] => none
      | latest :: earlier =>
        let (_, latest) ← changeWithin change rest .header latest
        pure (put (tables (latest :: earlier).reverse))
    | _ => none

/-- Gives a possibly dotted key a value, in the table at hand. -/
def assign (key : List String) (value : Toml) : TableChange := fun kind entries ↦
  match key.reverse with
  | [] => none
  | last :: before =>
    changeAt true (addEntry (!before.isEmpty) last value) before.reverse kind entries

end Toml

end SqlCompose
