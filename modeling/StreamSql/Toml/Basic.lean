
namespace StreamSql

/-- A value of a TOML document. Numbers and times are read for their form only. -/
inductive Toml
  | string (s : String)
  | bool (b : Bool)
  | number
  | time
  | array (items : List Toml)
  | table (entries : List (String × Toml))

namespace Toml

inductive Mark
  | implied
  | dotted
  | defined
deriving DecidableEq

inductive Node
  | leaf (v : Toml)
  | table (mark : Mark) (entries : List (String × Node))
  | tables (elements : List (List (String × Node)))

abbrev Entries := List (String × Node)

def update? (k : String) (f : Option Node → Option Node) : Entries → Option Entries
  | [] => do return [(k, ← f none)]
  | (l, n) :: es =>
    if l = k then do return (l, ← f (some n)) :: es else do return (l, n) :: (← update? k f es)

def onLast? (f : Entries → Option Entries) : List Entries → Option (List Entries)
  | [] => none
  | [es] => do return [← f es]
  | es :: rest => do return es :: (← onLast? f rest)

/-- Puts a value under a dotted key. Of the tables on the way only the first, where the key begins, may
be other than made by dotted keys. -/
def assign? (first : Bool) (mark : Mark) (v : Toml) : List String → Entries → Option Entries
  | [], _ => none
  | [k], es =>
    if !first && mark ≠ .dotted then none
    else update? k (fun
      | none => some (.leaf v)
      | some _ => none) es
  | k :: ks, es =>
    update? k (fun
      | none => (assign? false .dotted v ks []).map (.table .dotted)
      | some (.table m es) => if m = .defined then none else (assign? false m v ks es).map (.table m)
      | some (.tables elements) => (onLast? (assign? false .defined v ks) elements).map .tables
      | some (.leaf _) => none) es

def define? : List String → Entries → Option Entries
  | [], _ => none
  | [k], es =>
    update? k (fun
      | none => some (.table .defined [])
      | some (.table .implied es) => some (.table .defined es)
      | _ => none) es
  | k :: ks, es =>
    update? k (fun
      | none => (define? ks []).map (.table .implied)
      | some (.table m es) => (define? ks es).map (.table m)
      | some (.tables elements) => (onLast? (define? ks) elements).map .tables
      | some (.leaf _) => none) es

def defineNext? : List String → Entries → Option Entries
  | [], _ => none
  | [k], es =>
    update? k (fun
      | none => some (.tables [[]])
      | some (.tables elements) => some (.tables (elements ++ [[]]))
      | _ => none) es
  | k :: ks, es =>
    update? k (fun
      | none => (defineNext? ks []).map (.table .implied)
      | some (.table m es) => (defineNext? ks es).map (.table m)
      | some (.tables elements) => (onLast? (defineNext? ks) elements).map .tables
      | some (.leaf _) => none) es

def within? (f : Entries → Option Entries) : List String → Entries → Option Entries
  | [], es => f es
  | k :: ks, es =>
    update? k (fun
      | some (.table m es) => (within? f ks es).map (.table m)
      | some (.tables elements) => (onLast? (within? f ks) elements).map .tables
      | _ => none) es

mutual
def Node.value : Node → Toml
  | .leaf v => v
  | .table _ entries => .table (entryValues entries)
  | .tables elements => .array (elementValues elements)
termination_by structural n => n
def entryValues : List (String × Node) → List (String × Toml)
  | [] => []
  | (k, n) :: es => (k, n.value) :: entryValues es
termination_by structural es => es
def elementValues : List (List (String × Node)) → List Toml
  | [] => []
  | es :: rest => .table (entryValues es) :: elementValues rest
termination_by structural es => es
end

end Toml
end StreamSql
