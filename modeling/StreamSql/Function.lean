
namespace StreamSql

/-- Built-in functions called by position. A receiver counts as the first argument. -/
inductive ScalarFn
  | abs
  | ceil
  | floor
  | round
  | sign
  | sqrt
  | exp
  | ln
  | random
  | geoDistance
  | generateSeries
  | greatest
  | least
  | concat
  | concatWs
  | chr
  | encode
  | extractJsonField
  | initcap
  | instr
  | lcase
  | ucase
  | len
  | lpad
  | rpad
  | trim
  | mask
  | maskKeepLeft
  | maskKeepRight
  | maskLeft
  | maskRight
  | replace
  | regexpExtract
  | regexpExtractAll
  | regexpReplace
  | regexpSplitToArray
  | split
  | splitToMap
  | substring
  | toBytes
  | fromBytes
  | uuid
  | arrayContains
  | arrayDistinct
  | arrayExcept
  | arrayIntersect
  | arrayJoin
  | arrayLength
  | arrayMax
  | arrayMin
  | arrayRemove
  | arraySort
  | arrayUnion
  | asMap
  | entries
  | mapKeys
  | mapValues
  | mapUnion
  | explode
  | unixDate
  | unixTimestamp
  | stringToDate
  | stringToTimestamp
  | timestampToString
  | formatDate
  | formatTime
  | formatTimestamp
  | parseDate
  | parseTime
  | parseTimestamp
  | convertTz
  | fromUnixTime
  | coalesce
  | ifNull
  | nullIf
  | asValue
deriving DecidableEq

structure Signature where
  tag : String
  name : String
  least : Nat
  most : Option Nat

namespace ScalarFn

def signature : ScalarFn → Signature
  | .abs => ⟨"Abs", "ABS", 1, some 1⟩
  | .ceil => ⟨"Ceil", "CEIL", 1, some 1⟩
  | .floor => ⟨"Floor", "FLOOR", 1, some 1⟩
  | .round => ⟨"Round", "ROUND", 1, some 2⟩
  | .sign => ⟨"Sign", "SIGN", 1, some 1⟩
  | .sqrt => ⟨"Sqrt", "SQRT", 1, some 1⟩
  | .exp => ⟨"Exp", "EXP", 1, some 1⟩
  | .ln => ⟨"Ln", "LN", 1, some 1⟩
  | .random => ⟨"Random", "RANDOM", 0, some 0⟩
  | .geoDistance => ⟨"GeoDistance", "GEO_DISTANCE", 4, some 5⟩
  | .generateSeries => ⟨"GenerateSeries", "GENERATE_SERIES", 2, some 3⟩
  | .greatest => ⟨"Greatest", "GREATEST", 1, none⟩
  | .least => ⟨"Least", "LEAST", 1, none⟩
  | .concat => ⟨"Concat", "CONCAT", 1, none⟩
  | .concatWs => ⟨"ConcatWs", "CONCAT_WS", 2, none⟩
  | .chr => ⟨"Chr", "CHR", 1, some 1⟩
  | .encode => ⟨"Encode", "ENCODE", 3, some 3⟩
  | .extractJsonField => ⟨"ExtractJsonField", "EXTRACTJSONFIELD", 2, some 2⟩
  | .initcap => ⟨"Initcap", "INITCAP", 1, some 1⟩
  | .instr => ⟨"Instr", "INSTR", 2, some 4⟩
  | .lcase => ⟨"Lcase", "LCASE", 1, some 1⟩
  | .ucase => ⟨"Ucase", "UCASE", 1, some 1⟩
  | .len => ⟨"Len", "LEN", 1, some 1⟩
  | .lpad => ⟨"Lpad", "LPAD", 3, some 3⟩
  | .rpad => ⟨"Rpad", "RPAD", 3, some 3⟩
  | .trim => ⟨"Trim", "TRIM", 1, some 1⟩
  | .mask => ⟨"Mask", "MASK", 1, some 5⟩
  | .maskKeepLeft => ⟨"MaskKeepLeft", "MASK_KEEP_LEFT", 2, some 6⟩
  | .maskKeepRight => ⟨"MaskKeepRight", "MASK_KEEP_RIGHT", 2, some 6⟩
  | .maskLeft => ⟨"MaskLeft", "MASK_LEFT", 2, some 6⟩
  | .maskRight => ⟨"MaskRight", "MASK_RIGHT", 2, some 6⟩
  | .replace => ⟨"Replace", "REPLACE", 3, some 3⟩
  | .regexpExtract => ⟨"RegexpExtract", "REGEXP_EXTRACT", 2, some 3⟩
  | .regexpExtractAll => ⟨"RegexpExtractAll", "REGEXP_EXTRACT_ALL", 2, some 3⟩
  | .regexpReplace => ⟨"RegexpReplace", "REGEXP_REPLACE", 3, some 3⟩
  | .regexpSplitToArray => ⟨"RegexpSplitToArray", "REGEXP_SPLIT_TO_ARRAY", 2, some 2⟩
  | .split => ⟨"Split", "SPLIT", 2, some 2⟩
  | .splitToMap => ⟨"SplitToMap", "SPLIT_TO_MAP", 3, some 3⟩
  | .substring => ⟨"Substring", "SUBSTRING", 2, some 3⟩
  | .toBytes => ⟨"ToBytes", "TO_BYTES", 2, some 2⟩
  | .fromBytes => ⟨"FromBytes", "FROM_BYTES", 2, some 2⟩
  | .uuid => ⟨"Uuid", "UUID", 0, some 0⟩
  | .arrayContains => ⟨"ArrayContains", "ARRAY_CONTAINS", 2, some 2⟩
  | .arrayDistinct => ⟨"ArrayDistinct", "ARRAY_DISTINCT", 1, some 1⟩
  | .arrayExcept => ⟨"ArrayExcept", "ARRAY_EXCEPT", 2, some 2⟩
  | .arrayIntersect => ⟨"ArrayIntersect", "ARRAY_INTERSECT", 2, some 2⟩
  | .arrayJoin => ⟨"ArrayJoin", "ARRAY_JOIN", 1, some 2⟩
  | .arrayLength => ⟨"ArrayLength", "ARRAY_LENGTH", 1, some 1⟩
  | .arrayMax => ⟨"ArrayMax", "ARRAY_MAX", 1, some 1⟩
  | .arrayMin => ⟨"ArrayMin", "ARRAY_MIN", 1, some 1⟩
  | .arrayRemove => ⟨"ArrayRemove", "ARRAY_REMOVE", 2, some 2⟩
  | .arraySort => ⟨"ArraySort", "ARRAY_SORT", 1, some 2⟩
  | .arrayUnion => ⟨"ArrayUnion", "ARRAY_UNION", 2, some 2⟩
  | .asMap => ⟨"AsMap", "AS_MAP", 2, some 2⟩
  | .entries => ⟨"Entries", "ENTRIES", 2, some 2⟩
  | .mapKeys => ⟨"MapKeys", "MAP_KEYS", 1, some 1⟩
  | .mapValues => ⟨"MapValues", "MAP_VALUES", 1, some 1⟩
  | .mapUnion => ⟨"MapUnion", "MAP_UNION", 2, some 2⟩
  | .explode => ⟨"Explode", "EXPLODE", 1, some 1⟩
  | .unixDate => ⟨"UnixDate", "UNIX_DATE", 0, some 1⟩
  | .unixTimestamp => ⟨"UnixTimestamp", "UNIX_TIMESTAMP", 0, some 1⟩
  | .stringToDate => ⟨"StringToDate", "STRINGTODATE", 2, some 2⟩
  | .stringToTimestamp => ⟨"StringToTimestamp", "STRINGTOTIMESTAMP", 2, some 3⟩
  | .timestampToString => ⟨"TimestampToString", "TIMESTAMPTOSTRING", 2, some 3⟩
  | .formatDate => ⟨"FormatDate", "FORMAT_DATE", 2, some 2⟩
  | .formatTime => ⟨"FormatTime", "FORMAT_TIME", 2, some 2⟩
  | .formatTimestamp => ⟨"FormatTimestamp", "FORMAT_TIMESTAMP", 2, some 3⟩
  | .parseDate => ⟨"ParseDate", "PARSE_DATE", 2, some 2⟩
  | .parseTime => ⟨"ParseTime", "PARSE_TIME", 2, some 2⟩
  | .parseTimestamp => ⟨"ParseTimestamp", "PARSE_TIMESTAMP", 2, some 3⟩
  | .convertTz => ⟨"ConvertTz", "CONVERT_TZ", 3, some 3⟩
  | .fromUnixTime => ⟨"FromUnixTime", "FROM_UNIXTIME", 1, some 1⟩
  | .coalesce => ⟨"Coalesce", "COALESCE", 1, none⟩
  | .ifNull => ⟨"IfNull", "IFNULL", 2, some 2⟩
  | .nullIf => ⟨"NullIf", "NULLIF", 2, some 2⟩
  | .asValue => ⟨"AsValue", "AS_VALUE", 1, some 1⟩

def all : List ScalarFn :=
  [.abs, .ceil, .floor, .round, .sign, .sqrt, .exp, .ln, .random, .geoDistance, .generateSeries,
   .greatest, .least, .concat, .concatWs, .chr, .encode, .extractJsonField, .initcap, .instr,
   .lcase, .ucase, .len, .lpad, .rpad, .trim, .mask, .maskKeepLeft, .maskKeepRight, .maskLeft,
   .maskRight, .replace, .regexpExtract, .regexpExtractAll, .regexpReplace, .regexpSplitToArray,
   .split, .splitToMap, .substring, .toBytes, .fromBytes, .uuid, .arrayContains, .arrayDistinct,
   .arrayExcept, .arrayIntersect, .arrayJoin, .arrayLength, .arrayMax, .arrayMin, .arrayRemove,
   .arraySort, .arrayUnion, .asMap, .entries, .mapKeys, .mapValues, .mapUnion, .explode,
   .unixDate, .unixTimestamp, .stringToDate, .stringToTimestamp, .timestampToString, .formatDate,
   .formatTime, .formatTimestamp, .parseDate, .parseTime, .parseTimestamp, .convertTz,
   .fromUnixTime, .coalesce, .ifNull, .nullIf, .asValue]

def tag (f : ScalarFn) : String := f.signature.tag

def name (f : ScalarFn) : String := f.signature.name

def accepts (f : ScalarFn) (count : Nat) : Bool :=
  f.signature.least ≤ count && f.signature.most.all (count ≤ ·)

end ScalarFn

inductive AggregateFn
  | count
  | countDistinct
  | sum
  | avg
  | min
  | max
  | collectList
  | collectSet
  | topK
  | topKDistinct
  | histogram
  | earliestByOffset
  | earliestByOffsetAllowNulls
  | latestByOffset
  | latestByOffsetAllowNulls
deriving DecidableEq

namespace AggregateFn

def tag : AggregateFn → String
  | .count => "Count"
  | .countDistinct => "CountDistinct"
  | .sum => "Sum"
  | .avg => "Avg"
  | .min => "Min"
  | .max => "Max"
  | .collectList => "CollectList"
  | .collectSet => "CollectSet"
  | .topK => "TopK"
  | .topKDistinct => "TopKDistinct"
  | .histogram => "Histogram"
  | .earliestByOffset => "EarliestByOffset"
  | .earliestByOffsetAllowNulls => "EarliestByOffsetAllowNulls"
  | .latestByOffset => "LatestByOffset"
  | .latestByOffsetAllowNulls => "LatestByOffsetAllowNulls"

def name : AggregateFn → String
  | .count => "COUNT"
  | .countDistinct => "COUNT_DISTINCT"
  | .sum => "SUM"
  | .avg => "AVG"
  | .min => "MIN"
  | .max => "MAX"
  | .collectList => "COLLECT_LIST"
  | .collectSet => "COLLECT_SET"
  | .topK => "TOPK"
  | .topKDistinct => "TOPKDISTINCT"
  | .histogram => "HISTOGRAM"
  | .earliestByOffset => "EARLIEST_BY_OFFSET"
  | .earliestByOffsetAllowNulls => "EARLIEST_BY_OFFSET"
  | .latestByOffset => "LATEST_BY_OFFSET"
  | .latestByOffsetAllowNulls => "LATEST_BY_OFFSET"

def ignoresNulls? : AggregateFn → Option Bool
  | .earliestByOffset | .latestByOffset => some true
  | .earliestByOffsetAllowNulls | .latestByOffsetAllowNulls => some false
  | _ => none

def all : List AggregateFn :=
  [.count, .countDistinct, .sum, .avg, .min, .max, .collectList, .collectSet, .topK, .topKDistinct,
   .histogram, .earliestByOffset, .earliestByOffsetAllowNulls, .latestByOffset,
   .latestByOffsetAllowNulls]

end AggregateFn

inductive HigherOrderFn
  | transform
  | filter
  | reduce
deriving DecidableEq

namespace HigherOrderFn

def tag : HigherOrderFn → String
  | .transform => "Transform"
  | .filter => "Filter"
  | .reduce => "Reduce"

def name : HigherOrderFn → String
  | .transform => "TRANSFORM"
  | .filter => "FILTER"
  | .reduce => "REDUCE"

def all : List HigherOrderFn := [.transform, .filter, .reduce]

end HigherOrderFn

/-- The types of a conversion. A decimal takes its precision and scale from the call. -/
inductive CastType
  | int
  | bigInt
  | double
  | boolean
  | string
  | decimal
deriving DecidableEq

namespace CastType

def tag : CastType → String
  | .int => "Int"
  | .bigInt => "BigInt"
  | .double => "Double"
  | .boolean => "Boolean"
  | .string => "String"
  | .decimal => "Decimal"

def name : CastType → String
  | .int => "INT"
  | .bigInt => "BIGINT"
  | .double => "DOUBLE"
  | .boolean => "BOOLEAN"
  | .string => "VARCHAR"
  | .decimal => "DECIMAL"

def all : List CastType := [.int, .bigInt, .double, .boolean, .string, .decimal]

end CastType
end StreamSql
