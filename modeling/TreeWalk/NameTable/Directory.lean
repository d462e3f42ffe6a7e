import TreeWalk.NameTable

/-!
# Shared name tables

Several parties may own one table together: each holds a handle, and a handle
can be copied.  A `Directory` keeps one table that is owned by nobody else, the
shared tables, and for each handle the table that it stands for.

## Main definitions

* `Directory`: the tables and the handles
* `Site`: which table a request goes to
* `Directory.perform`: one request, with the size of the table it used
* `Directory.performAll`: several requests in order

## Design notes

**A handle is a position, not a copy.**  Copying a handle adds a second position
for the same table, so all copies see every entry, and a request touches no
table but the one its site names.
-/

namespace TreeWalk

/-- One table of its own, and tables that are reached through handles. -/
structure Directory where
  /-- The table that no handle reaches. -/
  own : NameTable
  /-- The tables that handles stand for. -/
  shared : Array NameTable
  /-- For each handle, the position of its table in `shared`. -/
  handles : Array Nat

/-- Where a request goes. -/
inductive Site where
  /-- To the directory's own table. -/
  | own
  /-- To the table behind a handle. -/
  | handle (h : Nat)
  deriving DecidableEq, Repr

/-- What can be asked of a table. -/
inductive TableRequest where
  /-- Enter a text. -/
  | intern (text : String)
  /-- Read a name. -/
  | lookup (name : Name)
  /-- Enter two texts, first `a`, and compare their names. -/
  | compare (a b : String)
  /-- The default name. -/
  | defaultName
  /-- Copy the handle that the request came through. -/
  | copyHandle
  deriving DecidableEq, Repr

/-- The answer to a request. -/
inductive TableReply where
  | name (n : Name)
  | text (s : String)
  | order (o : Ordering)
  | handle (h : Nat)
  deriving DecidableEq, Repr

/-- An answer with the size of the table after the request. -/
structure TableReport where
  reply : TableReply
  size : Nat
  isEmpty : Bool

namespace Directory

/-- An own table and one handle to one shared table, all without texts. -/
def initial : Directory where
  own := NameTable.initial
  shared := #[NameTable.initial]
  handles := #[0]

/-- The table at a site, if its handle has been given out. -/
def table? (d : Directory) : Site → Option NameTable
  | .own => some d.own
  | .handle h => d.handles[h]?.bind fun k => d.shared[k]?

/-- Replace the table at a site. -/
def setTable (d : Directory) (t : NameTable) : Site → Directory
  | .own => { d with own := t }
  | .handle h =>
    match d.handles[h]? with
    | none => d
    | some k => { d with shared := d.shared.setIfInBounds k t }

/-- Another handle to the table behind `h`. -/
def copyHandle (d : Directory) (h : Nat) : Option (Nat × Directory) :=
  d.handles[h]?.map fun k => (d.handles.size, { d with handles := d.handles.push k })

/-- A request on a single table. -/
def onTable (t : NameTable) : TableRequest → Option (TableReply × NameTable)
  | .intern s =>
    let (n, t) := t.intern s
    some (.name n, t)
  | .lookup n => some (.text (t.lookup n), t)
  | .compare a b =>
    let (m, t) := t.intern a
    let (n, t) := t.intern b
    some (.order (Ord.compare m n), t)
  | .defaultName => some (.name default, t)
  | .copyHandle => none

/-- Perform a request at a site.  There is no answer when the handle was never
given out, or when the own table, which has no handle, is asked for a copy of
one. -/
def perform (d : Directory) (site : Site) (request : TableRequest) :
    Option (TableReport × Directory) := do
  let (reply, d) ← match site, request with
    | .handle h, .copyHandle =>
      let (k, d) ← d.copyHandle h
      pure (TableReply.handle k, d)
    | site, request =>
      let (reply, t) ← onTable (← d.table? site) request
      pure (reply, d.setTable t site)
  -- The size is that of the table after the request.
  let t ← d.table? site
  pure (⟨reply, t.size, t.isEmpty⟩, d)

/-- Perform requests, first to last.  One that has no answer changes nothing. -/
def performAll (d : Directory) : List (Site × TableRequest) → List (Option TableReport)
  | [] => []
  | (site, request) :: rest =>
    match d.perform site request with
    | none => none :: d.performAll rest
    | some (report, d) => some report :: d.performAll rest

end Directory

end TreeWalk
