
namespace StreamSql.Help

inductive Topic
  | program
  | compile
  | create
  | decode
  | help
deriving DecidableEq

def programName : String := "ksql"

def version : String := programName ++ " 0.4.0\n"

def lines (ls : List String) : String := ls.foldl (fun text l => text ++ l ++ "\n") ""

def compileAbout : String := "Compile a query AST (JSON) into a push query"
def createAbout : String := "Generate a CREATE STREAM/TABLE statement"
def decodeAbout : String := "Decode a captured streaming response"
def helpAbout : String := "Print this message or the help of the given subcommand(s)"

def commands : List String :=
  ["Commands:",
   "  compile  " ++ compileAbout,
   "  create   " ++ createAbout,
   "  decode   " ++ decodeAbout,
   "  help     " ++ helpAbout]

def text (config : String) : Topic → String
  | .program => lines (
      ["Compile ksqlDB push queries and decode streaming responses", "",
       "Usage: ksql [OPTIONS] <COMMAND>", ""] ++ commands ++
      ["", "Options:",
       "      --config <CONFIG>  Config file (defaults to ./ksql.toml, then the user config dir) " ++
         "[env: KSQL_CONFIG=" ++ config ++ "]",
       "  -v, --verbose          Print input details",
       "  -h, --help             Print help",
       "  -V, --version          Print version", "",
       "EXAMPLES:",
       "    ksql compile query.json",
       "    ksql create movies.json --kind table --if-not-exists",
       "    ksql decode response.txt --format query --json"])
  | .compile => lines
      [compileAbout, "",
       "Usage: ksql compile [OPTIONS] <FILE>", "",
       "Arguments:",
       "  <FILE>  JSON file holding a serialized \x60Query\x60", "",
       "Options:",
       "      --no-pluralize  Keep source names as written",
       "  -h, --help          Print help"]
  | .create => lines
      [createAbout, "",
       "Usage: ksql create [OPTIONS] <FILE>", "",
       "Arguments:",
       "  <FILE>  JSON file with \x60metadata\x60 and either \x60schema\x60 or \x60query\x60", "",
       "Options:",
       "  -k, --kind <KIND>    [default: stream] [possible values: stream, table]",
       "      --replace        CREATE OR REPLACE",
       "      --source         CREATE SOURCE (read-only)",
       "      --if-not-exists  ",
       "  -h, --help           Print help"]
  | .decode => lines
      [decodeAbout, "",
       "Usage: ksql decode [OPTIONS] [FILE]", "",
       "Arguments:",
       "  [FILE]  Response file; stdin when omitted", "",
       "Options:",
       "  -f, --format <FORMAT>  [possible values: query-stream, query]",
       "      --json             Print rows as JSON instead of a table",
       "  -h, --help             Print help"]
  | .help => lines
      [helpAbout, "",
       "Usage: ksql help [COMMAND]...", "",
       "Arguments:",
       "  [COMMAND]...  Print help for the subcommand(s)"]

end StreamSql.Help
