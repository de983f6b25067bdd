import StreamSql.Response.Frame
import StreamSql.Response.Line

/-!
The rows of a response, line by line: the header first, then a row per line until an error that ends
the response or its last message. A row that does not fit the type it is read as is an error that ends
nothing.
-/

namespace StreamSql

inductive RowShape
  | record
  | scalar
deriving DecidableEq

structure Decoder (α : Type) where
  format : ResponseFormat
  shape : RowShape
  read : Json → Option α

abbrev Item (α : Type) := Except Error α

inductive Phase
  | header
  | rows (h : Header)
  | closed
deriving DecidableEq

def RowShape.data (h : Header) : RowShape → Json → Except RowFault Json
  | .record, .array values => h.zipRow values
  | .record, j =>
    if h.columnNames.length = 1 then h.zipRow [j] else .error (.notPositional h.columnNames.length j)
  | .scalar, .array [j] => .ok j
  | .scalar, .array values => .error (.scalarCount values.length)
  | .scalar, j => .ok j

namespace Decoder

variable {α : Type} (d : Decoder α)

def row (h : Header) (values : Json) : Item α :=
  match d.shape.data h values with
  | .error fault => .error (.row fault)
  | .ok j =>
    match d.read j with
    | some a => .ok a
    | none => .error (.row .illTyped)

def headerOf? : Line → Option (Except Error Header)
  | .error text => some (.error (.io text))
  | .ok line =>
    match Frame.ofLine d.format line with
    | .error e => some (.error e)
    | .ok (.header h) => some (.ok h)
    | .ok (.failure e) => some (.error e)
    | .ok .skip => none
    | .ok (.values _) | .ok .finish => some (.error (.header .notFirst))

def rowStep (h : Header) : Line → Phase × Option (Item α)
  | .error text => (.closed, some (.error (.io text)))
  | .ok line =>
    match Frame.ofLine d.format line with
    | .error e => (.closed, some (.error e))
    | .ok (.values j) => (.rows h, some (d.row h j))
    | .ok (.failure e) => (.closed, some (.error e))
    | .ok .finish => (.closed, none)
    | .ok .skip | .ok (.header _) => (.rows h, none)

def step : Phase → Line → Phase × Option (Item α)
  | .header, l =>
    match d.headerOf? l with
    | none => (.header, none)
    | some (.ok h) => (.rows h, none)
    | some (.error e) => (.closed, some (.error e))
  | .rows h, l => d.rowStep h l
  | .closed, _ => (.closed, none)

def finish : Phase → Option (Item α)
  | .header => some (.error (.header .missing))
  | _ => none

/-- What the lines give, each item with the number of lines taken by then, of which `n` are taken
already. -/
def events : Nat → Phase → List Line → List (Nat × Item α)
  | n, p, [] => (finish p).toList.map (n, ·)
  | n, p, l :: ls =>
    let (q, item) := d.step p l
    item.toList.map (n + 1, ·) ++ events (n + 1) q ls

def taken : Phase → List Line → Nat
  | .closed, _ => 0
  | _, [] => 0
  | p, l :: ls => taken (d.step p l).1 ls + 1

def decode (lines : List Line) : List (Item α) := (d.events 0 .header lines).map (·.2)

def readHeader : List Line → Except Error Header × List Line
  | [] => (.error (.header .missing), [])
  | l :: ls =>
    match d.headerOf? l with
    | some r => (r, ls)
    | none => readHeader ls

def rows (h : Header) (lines : List Line) : List (Item α) :=
  (d.events 0 (.rows h) lines).map (·.2)

def opened (lines : List Line) : Except Error (Header × List (Item α)) :=
  match d.readHeader lines with
  | (.error e, _) => .error e
  | (.ok h, rest) => .ok (h, d.rows h rest)

end Decoder
end StreamSql
