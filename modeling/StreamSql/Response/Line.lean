import StreamSql.Text.Utf8

namespace StreamSql

/-- A line, or the text of what kept it from being read. -/
abbrev Line := Except String String

namespace Line

def withoutReturn (bytes : List UInt8) : List UInt8 :=
  if bytes.getLast? = some 13 then bytes.dropLast else bytes

/-- The bytes of each line. Nothing after the last line feed is no line. -/
def split : List UInt8 → List UInt8 → List (List UInt8)
  | line, [] => if line.isEmpty then [] else [line.reverse]
  | line, b :: bs => if b = 10 then withoutReturn line.reverse :: split [] bs else split (b :: line) bs

def ofBytes (bytes : List UInt8) : Line :=
  match Text.Utf8.decode bytes with
  | .ok s => .ok s
  | .error fault => .error fault.text

def list (source : List UInt8) : List Line := (split [] source).map ofBytes

end Line
end StreamSql
