/-!
# TOML values

A TOML file holds one table. A table remembers how it came to be, since that
decides whether later lines may add to it.
-/

namespace NotePress
namespace Toml

/-- How a table came to be. -/
inductive Origin
  /-- By a header of its own, or as an item of a list of headed tables. -/
  | header
  /-- As the surroundings of a headed table. -/
  | surrounding
  /-- As the surroundings of a dotted key. -/
  | dotted
  /-- As a value in braces. -/
  | braces
  deriving DecidableEq, Repr, Inhabited

/-- A TOML value. -/
inductive Value
  | text (text : String)
  | boolean (value : Bool)
  | integer (value : Int)
  /-- A number with a fraction or an exponent: its digits and the power of ten
  they are multiplied by. -/
  | decimal (negative : Bool) (digits : Nat) (exponent : Int)
  /-- An infinity or an undefined number. -/
  | unbounded
  | moment (text : String)
  | list (items : List Value)
  /-- A list of headed tables: its last item is still open. -/
  | tables (items : List Value)
  | table (origin : Origin) (entries : List (String × Value))
  deriving Repr, Inhabited

/-- The entries of a table. -/
abbrev Entries := List (String × Value)

namespace Entries

/-- The entries with the value of a key replaced, or with the key put last. -/
def put
    (key : String)
    (value : Value) : Entries → Entries
  | [] => [(key, value)]
  | first :: others =>
      if first.1 = key then
        (key, value) :: others
      else
        first :: put key value others

/-- Change the table at the end of a way of keys. Tables that are missing on the
way are made, with a given origin. A way may lead into the last one of a list of
headed tables, never into a table in braces, and a way of dotted keys never into
a table that has its own header. The change is told the origin of the table it is
given. -/
def changeAt?
    (origin : Origin)
    (change : Origin → Entries → Option Entries) :
    List String → Origin → Entries → Option Entries
  | [], here, entries => change here entries
  | key :: others, _, entries =>
      match entries.lookup key with
      | none =>
          (changeAt? origin change others origin []).map fun inside =>
            entries ++ [(key, .table origin inside)]
      | some (.table inner inside) =>
          if inner = .braces ∨ (origin = .dotted ∧ inner = .header) then
            none
          else
            (changeAt? origin change others inner inside).map fun inside =>
              put key (.table inner inside) entries
      | some (.tables items) =>
          match items.getLast? with
          | some (.table inner inside) =>
              (changeAt? origin change others inner inside).map fun inside =>
                put key (.tables (items.dropLast ++ [.table inner inside]))
                  entries
          | _ => none
      | some _ => none

/-- Put a value under a new key. -/
def addNew?
    (key : String)
    (value : Value)
    (entries : Entries) : Option Entries :=
  match entries.lookup key with
  | none => some (entries ++ [(key, value)])
  | some _ => none

/-- Put a value under a dotted key, given as the keys before its last point and
the key after it. Keys that others follow name tables made by dotted keys. -/
def assign?
    (before : List String)
    (key : String)
    (value : Value)
    (entries : Entries) : Option Entries :=
  changeAt? .dotted
    (fun origin inside =>
      if before.isEmpty ∨ origin = .dotted then
        addNew? key value inside
      else
        none)
    before .header entries

/-- Open a table under a header. It may be there already as the surroundings of
another headed table. -/
def openTable?
    (before : List String)
    (key : String)
    (entries : Entries) : Option Entries :=
  changeAt? .surrounding
    (fun _ inside =>
      match inside.lookup key with
      | none => some (inside ++ [(key, .table .header [])])
      | some (.table .surrounding entries) =>
          some (put key (.table .header entries) inside)
      | some _ => none)
    before .header entries

/-- Open the next table of a list of headed tables. -/
def openItem?
    (before : List String)
    (key : String)
    (entries : Entries) : Option Entries :=
  changeAt? .surrounding
    (fun _ inside =>
      match inside.lookup key with
      | none => some (inside ++ [(key, .tables [.table .header []])])
      | some (.tables items) =>
          some (put key (.tables (items ++ [.table .header []])) inside)
      | some _ => none)
    before .header entries

/-- Put a value under a dotted key of the table that a header opened. -/
def assignBelow?
    (header before : List String)
    (key : String)
    (value : Value)
    (entries : Entries) : Option Entries :=
  changeAt? .surrounding (fun _ => assign? before key value) header .header
    entries

end Entries

end Toml
end NotePress
