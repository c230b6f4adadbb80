import Interning.Toml

/-!
# Tables under construction

A document defines its tables piece by piece: by headers, by dotted keys, and on the way to a
deeper one.  `Node` remembers how a table came about, because that decides what may still be added
to it: a header may take up a table that so far was only on the way to another one, and a dotted
key may enter only tables that no header has named.
-/

namespace Interning.Toml

/-- How a table came about. -/
inductive Origin
  /-- It was named by a header, or is the root or an inline table. -/
  | named
  /-- It lies on the way to a table that a header names. -/
  | implied
  /-- It lies on the way of a dotted key. -/
  | dotted
  deriving DecidableEq, Repr

/-- What a name stands for in a document. -/
inductive Node
  /-- A value, to which nothing can be added. -/
  | value (v : Toml)
  | table (origin : Origin) (entries : List (String × Node))
  /-- The tables of an array of tables, the last one first. -/
  | tables (items : List (List (String × Node)))

/-- The entries of a table, in the order of their names' first mention. -/
abbrev Entries := List (String × Node)

structure Table where
  origin : Origin
  entries : Entries

namespace Table

def root : Table := ⟨.named, []⟩

def find? (t : Table) (k : String) : Option Node := t.entries.lookup k

/-- Gives a meaning to a name, in the place of the former one if there is one. -/
def set (t : Table) (k : String) (n : Node) : Table :=
  if (t.find? k).isSome then
    { t with entries := t.entries.map fun e => if e.1 == k then (k, n) else e }
  else { t with entries := t.entries ++ [(k, n)] }

/-- Changes the table at the end of a path, and makes the tables on the way that are missing.  Of an
array of tables the last one is entered. -/
def under (byDots : Bool) (change : Table → Option Table) : List String → Table → Option Table
  | [], t => change t
  | k :: path, t =>
    let enter := under byDots change path
    match t.find? k with
    | none =>
      (enter ⟨if byDots then .dotted else .implied, []⟩).map fun u =>
        t.set k (.table u.origin u.entries)
    | some (.table origin entries) =>
      if byDots && origin == .named then none
      else (enter ⟨origin, entries⟩).map fun u => t.set k (.table u.origin u.entries)
    | some (.tables (last :: earlier)) =>
      (enter ⟨.named, last⟩).map fun u => t.set k (.tables (u.entries :: earlier))
    | some (.tables []) => none
    | some (.value _) => none

/-- Gives a value to a name that has none. -/
def define (k : String) (v : Toml) (t : Table) : Option Table :=
  if (t.find? k).isSome then none else some (t.set k (.value v))

/-- Gives a value to a dotted key; a key without dots must not enter a table made by dots, and a
key with dots must end in one. -/
def assign (t : Table) (key : List String) (v : Toml) : Option Table :=
  match key.getLast? with
  | none => none
  | some last =>
    t.under true
      (fun u => if (u.origin == .dotted) == key.dropLast.isEmpty then none else u.define last v)
      key.dropLast

def assignAll (t : Table) (pairs : List (List String × Toml)) : Option Table :=
  pairs.foldlM (fun t p => t.assign p.1 p.2) t

end Table

/-- A header: the path of a table, or of an array that gets one more table. -/
inductive Header
  | table (path : List String)
  | arrayItem (path : List String)
  deriving Repr

def Header.path : Header → List String
  | table path | arrayItem path => path

/-- A header with the pairs that follow it. -/
structure Section where
  header : Header
  pairs : List (List String × Toml)

/-- Adds the table that the last name of a header stands for, filled with the pairs. -/
def Section.fill (s : Section) (k : String) (t : Table) : Option Table :=
  match s.header, t.find? k with
  | .table _, none =>
    (Table.root.assignAll s.pairs).map fun u => t.set k (.table .named u.entries)
  | .table _, some (.table .implied entries) =>
    (Table.assignAll ⟨.named, entries⟩ s.pairs).map fun u => t.set k (.table .named u.entries)
  | .arrayItem _, none =>
    (Table.root.assignAll s.pairs).map fun u => t.set k (.tables [u.entries])
  | .arrayItem _, some (.tables earlier) =>
    (Table.root.assignAll s.pairs).map fun u => t.set k (.tables (u.entries :: earlier))
  | _, _ => none

def Section.addTo (t : Table) (s : Section) : Option Table :=
  match s.header.path.getLast? with
  | none => none
  | some last => t.under false (s.fill last) s.header.path.dropLast

mutual

/-- The value that a node has in the end. -/
def Node.toToml : Node → Toml
  | .value v => v
  | .table _ entries => .table (entriesToToml entries)
  | .tables items => .array (itemsToToml items).reverse

def entriesToToml : List (String × Node) → List (String × Toml)
  | [] => []
  | (k, n) :: rest => (k, n.toToml) :: entriesToToml rest

def itemsToToml : List (List (String × Node)) → List Toml
  | [] => []
  | entries :: rest => .table (entriesToToml entries) :: itemsToToml rest

end

/-- The entries of a document that starts with pairs and goes on with sections. -/
def buildDocument (pairs : List (List String × Toml)) (sections : List Section) :
    Option (List (String × Toml)) :=
  match Table.root.assignAll pairs with
  | none => none
  | some t => (sections.foldlM Section.addTo t).map fun t => entriesToToml t.entries

def inlineTable? (pairs : List (List String × Toml)) : Option Toml :=
  (Table.root.assignAll pairs).map fun t => .table (entriesToToml t.entries)

end Interning.Toml
