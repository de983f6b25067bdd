import StreamSql.Json.Printer
import StreamSql.Text

namespace StreamSql.Table

def cell : Json → String
  | .null => "NULL"
  | .string s => s
  | j => j.compact

def cellOf (row : Json) (column : String) : String :=
  match row with
  | .object ms => ((Json.find? column ms).map cell).getD ""
  | _ => ""

/-- The width of a column: the bytes of its name, or the characters of its widest cell. -/
def width (rows : List Json) (column : String) : Nat :=
  (rows.map fun row => (cellOf row column).length).foldl max column.utf8ByteSize

def barLine (cells : List String) : String := Text.join " │ " cells

def rule (widths : List Nat) : String :=
  Text.join "─┼─" (widths.map fun w => .ofList (List.replicate w '─'))

def row (widths : List Nat) (cells : List String) : String :=
  barLine (List.zipWith Text.padRight widths cells)

def lines (columns : List String) (rows : List Json) : List String :=
  if rows.isEmpty then ["(no rows)"]
  else
    let widths := columns.map (width rows)
    [row widths columns, rule widths] ++ rows.map (fun r => row widths (columns.map (cellOf r))) ++
      ["", toString rows.length ++ " row(s) decoded"]

def text (columns : List String) (rows : List Json) : String :=
  (lines columns rows).foldl (fun t l => t ++ l ++ "\n") ""

end StreamSql.Table
