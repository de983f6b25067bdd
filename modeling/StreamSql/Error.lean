import StreamSql.Function
import StreamSql.Schema
import StreamSql.Json.Printer

namespace StreamSql

inductive Clause
  | select
  | groupBy
  | windowedBy
  | partitionBy
deriving DecidableEq

def Clause.text : Clause → String
  | .select => "Select"
  | .groupBy => "GroupBy"
  | .windowedBy => "WindowedBy"
  | .partitionBy => "PartitionBy"

inductive Callee
  | contains
  | startsWith
  | endsWith
  | between
  | cast
  | higherOrder (f : HigherOrderFn)
deriving DecidableEq

def Callee.text : Callee → String
  | .contains => "Contains"
  | .startsWith => "StartsWith"
  | .endsWith => "EndsWith"
  | .between => "Between"
  | .cast => "CAST"
  | .higherOrder f => f.name

inductive Unsupported
  | repeatedClause (c : Clause)
  | strayLambda
  | bareGrouping (parameter : String)
  | unbound (parameter : String)
  | groupingMember (name : String)
  | simpleKeyMember (name : String)
  | argumentCount (f : ScalarFn) (count : Nat)
  | notOneArgument (f : Callee)
  | notTwoBounds
  | noReceiver (f : Callee)
  | noLambda (f : HigherOrderFn)
  | notAGrouping (f : AggregateFn) (parameter : String)
  | noGrouping (f : AggregateFn)
  | noSelector (f : AggregateFn)
  | emptyMembership
  | computedPattern
  | computedDecimalCast
  | method (name : String)
  | replaceIfNotExists
  | sourceAsSelect

def Unsupported.text : Unsupported → String
  | .repeatedClause c => "more than one " ++ c.text ++ " in a query"
  | .strayLambda => "lambda outside of a higher-order function"
  | .bareGrouping p => "grouping parameter '" ++ p ++ "' used without a member or aggregate"
  | .unbound p => "unbound parameter '" ++ p ++ "'"
  | .groupingMember n => "grouping member '" ++ n ++ "'"
  | .simpleKeyMember n => "member '" ++ n ++ "' of a non-composite grouping key"
  | .argumentCount f n => f.name ++ " with " ++ toString n ++ " arguments"
  | .notOneArgument f => f.text ++ " takes one argument"
  | .notTwoBounds => "Between takes two bounds"
  | .noReceiver f => f.text ++ " without a receiver"
  | .noLambda f => f.name ++ " without a lambda"
  | .notAGrouping f p => f.name ++ " on '" ++ p ++ "', which is not a grouping"
  | .noGrouping f => f.name ++ " without a grouping receiver"
  | .noSelector f => f.name ++ " without a selector"
  | .emptyMembership => "membership test against an empty list"
  | .computedPattern => "LIKE pattern from a non-constant expression"
  | .computedDecimalCast => "DECIMAL cast without constant precision and scale"
  | .method n => "method '" ++ n ++ "'"
  | .replaceIfNotExists => "IF NOT EXISTS with OR REPLACE"
  | .sourceAsSelect => "CREATE SOURCE ... AS SELECT"

inductive Invalid
  | noSource
  | lateSource
  | lambdaParameters (taken inScope : Nat)
  | keyBeforeGroupBy
  | noKeyMember (name : String)
  | noColumns (type : String)
  | notAnObject (type : String)
  | nothingToInsert (type : String)
  | byteRange
  | misfit (value : Json) (kind : TypeKind)

def Invalid.text : Invalid → String
  | .noSource => "query does not start with a source"
  | .lateSource => "source must be the first node"
  | .lambdaParameters n m =>
    "lambda takes " ++ toString n ++ " parameters but only " ++ toString m ++ " sources are in scope"
  | .keyBeforeGroupBy => "grouping key used before GROUP BY"
  | .noKeyMember n => "grouping key has no member '" ++ n ++ "'"
  | .noColumns t => "type '" ++ t ++ "' has no columns to create"
  | .notAnObject t => "INSERT into '" ++ t ++ "' needs a value that serializes to an object"
  | .nothingToInsert t => "no columns of '" ++ t ++ "' to insert"
  | .byteRange => "byte array element out of range"
  | .misfit v k => "value " ++ v.compact ++ " does not fit column type " ++ k.text

inductive HeaderFault
  | malformed (line : String)
  | illTyped
  | notAnObject (got : Json)
  | lengths (names types : Nat)
  | unterminatedName (column : String)
  | noType (column : String)
  | emptySchema
  | noSchema
  | notFirst
  | missing

def HeaderFault.text : HeaderFault → String
  | .malformed line => "<json>: " ++ line
  | .illTyped => "<json>"
  | .notAnObject j => "expected an object, got " ++ j.compact
  | .lengths n m => toString n ++ " column names but " ++ toString m ++ " column types"
  | .unterminatedName c => "unterminated column name in '" ++ c ++ "'"
  | .noType c => "column without a type: '" ++ c ++ "'"
  | .emptySchema => "empty schema"
  | .noSchema => "header without a schema"
  | .notFirst => "first line is not a header"
  | .missing => "response ended before the header"

inductive RowFault
  | malformed (line : String)
  | illTyped
  | count (values columns : Nat)
  | notPositional (columns : Nat) (got : Json)
  | scalarCount (values : Nat)
  | noColumns

def RowFault.text : RowFault → String
  | .malformed line => "<json>: " ++ line
  | .illTyped => "<json>"
  | .count n m => "row has " ++ toString n ++ " values for " ++ toString m ++ " columns"
  | .notPositional n j => "expected " ++ toString n ++ " positional values, got " ++ j.compact
  | .scalarCount n => "scalar row with " ++ toString n ++ " values"
  | .noColumns => "row without columns"

inductive Error
  | unsupported (what : Unsupported)
  | invalid (what : Invalid)
  | header (fault : HeaderFault)
  | row (fault : RowFault)
  | query (message : String) (code : Int64)
  | io (text : String)

def Error.message : Error → String
  | .unsupported u => "Unsupported operation: " ++ u.text
  | .invalid i => "Invalid query: " ++ i.text
  | .header f => "Invalid response header: " ++ f.text
  | .row f => "Invalid row: " ++ f.text
  | .query m code => "Query error " ++ toString code.toInt ++ ": " ++ m
  | .io t => "IO error: " ++ t

end StreamSql
