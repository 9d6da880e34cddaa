import Roster.Ordered
import Roster.Toml.DateTime

-- Building tables from definitions.
--
-- While a table is built, its entries stand in the order in which they came to be, and each part
-- remembers how it did, for that decides what may still be added to it. A dotted key may go through
-- tables that dotted keys made; a header may go through every table but one in braces, and may take
-- over one that only longer headers have implied.

namespace Roster.Toml

inductive Origin
  | stated
  | implied
  | dotted
  | closed
deriving DecidableEq, Repr

-- A list in brackets is complete. A list of tables grows at its end, and its last table is open.
inductive Node
  | scalar (s : Scalar)
  | list (items : List Node)
  | table (origin : Origin) (entries : List (String × Node))
  | tables (done : List (List (String × Node))) (last : List (String × Node))
deriving Repr

abbrev Draft := List (String × Node)

-- A dotted key: the parts in front, and the last one.
structure Key where
  path : List String
  name : String
deriving DecidableEq, Repr

structure Entry where
  key : Key
  value : Node
deriving Repr

def lookUp (k : String) (t : Draft) : Option Node := t.lookup k

-- A key that is there already keeps its place.
def enter (k : String) (n : Node) : Draft → Draft
  | [] => [(k, n)]
  | e :: r => if e.1 = k then (k, n) :: r else e :: enter k n r

def enterLast (k : String) (n : Node) (t : Draft) : Draft :=
  t.filter (fun e => e.1 ≠ k) ++ [(k, n)]

-- Gives a key its value. The tables on the way are made as needed; the one that takes the value
-- must have been made by a dotted key.
def assign : List String → String → Node → Draft → Option Draft
  | [], k, v, t => if (lookUp k t).isSome then none else some (enter k v t)
  | p :: ps, k, v, t =>
    match lookUp p t with
    | none => (assign ps k v []).map fun t' => enter p (.table .dotted t') t
    | some (.table .dotted t') =>
      (assign ps k v t').map fun t'' => enter p (.table .dotted t'') t
    | some (.table .implied t') =>
      if ps = [] then none
      else (assign ps k v t').map fun t'' => enter p (.table .implied t'') t
    | some (.tables done last) =>
      if ps = [] then none
      else (assign ps k v last).map fun last' => enter p (.tables done last') t
    | some _ => none

def assignAll (es : List Entry) (t : Draft) : Option Draft :=
  es.foldlM (fun t e => assign e.key.path e.key.name e.value t) t

-- Changes the table that a path leads to. The tables on the way are implied by it.
def update (f : Draft → Option Draft) : List String → Draft → Option Draft
  | [], t => f t
  | p :: ps, t =>
    match lookUp p t with
    | none => (update f ps []).map fun t' => enter p (.table .implied t') t
    | some (.table .closed _) => none
    | some (.table origin t') => (update f ps t').map fun t'' => enter p (.table origin t'') t
    | some (.tables done last) =>
      (update f ps last).map fun last' => enter p (.tables done last') t
    | some _ => none

-- A header in single brackets opens a table, one in double brackets the next table of a list.
structure Section where
  isItem : Bool
  key : Key
  entries : List Entry
deriving Repr

-- A table may be opened once. One that was implied so far moves to the end.
def openTable (k : String) (es : List Entry) (t : Draft) : Option Draft :=
  match lookUp k t with
  | none => (assignAll es []).map fun d => enter k (.table .stated d) t
  | some (.table .implied d) => (assignAll es d).map fun d' => enterLast k (.table .stated d') t
  | some _ => none

def openItem (k : String) (es : List Entry) (t : Draft) : Option Draft :=
  match lookUp k t with
  | none => (assignAll es []).map fun d => enter k (.tables [] d) t
  | some (.tables done last) =>
    (assignAll es []).map fun d => enter k (.tables (done ++ [last]) d) t
  | some _ => none

def Section.addTo (t : Draft) (s : Section) : Option Draft :=
  update ((if s.isItem then openItem else openTable) s.key.name s.entries) s.key.path t

-- A table whose first key is this one stands for the date-time that it writes, and its other
-- entries for nothing. The table of a whole document is never taken so.
def dateTimeKey : String := "$__toml_private_datetime"

def writtenDateTime : Node → Option Value
  | .scalar (.string s) => (DateTime.ofString? s).map fun d => .scalar (.dateTime d)
  | _ => none

-- What a table comes to, given what its entries come to.
def tableValue (entries : Draft) (finished : Option Table) : Option Value :=
  match entries with
  | (k, n) :: _ => if k = dateTimeKey then writtenDateTime n else finished.map .table
  | [] => finished.map .table

mutual

def Node.finish : Node → Option Value
  | .scalar s => some (.scalar s)
  | .list items => (finishItems items).map .array
  | .table _ entries => tableValue entries (finishEntries entries)
  | .tables done last => do
    let vs ← finishTables done
    let v ← tableValue last (finishEntries last)
    return .array (vs ++ [v])

def finishItems : List Node → Option (List Value)
  | [] => some []
  | n :: r => do
    let v ← n.finish
    let vs ← finishItems r
    return v :: vs

def finishEntries : List (String × Node) → Option Table
  | [] => some []
  | (k, n) :: r => do
    let v ← n.finish
    let t ← finishEntries r
    return Ordered.put Prod.fst (k, v) t

def finishTables : List (List (String × Node)) → Option (List Value)
  | [] => some []
  | t :: r => do
    let v ← tableValue t (finishEntries t)
    let vs ← finishTables r
    return v :: vs

end

end Roster.Toml
