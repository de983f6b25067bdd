import StreamSql.Command.Run

namespace StreamSql

def failureText (e : IO.Error) : String :=
  match e with
  | .noFileOrDirectory _ code details => details ++ " (os error " ++ toString code ++ ")"
  | .inappropriateType _ code details => details ++ " (os error " ++ toString code ++ ")"
  | .permissionDenied _ code details => details ++ " (os error " ++ toString code ++ ")"
  | e => toString e

def lookInto (h : IO.FS.Handle) : IO FileState := do
  try
    return .file (← h.readBinToEnd).toList
  catch e =>
    return .unreadable (failureText e)

def lookAt (path : String) : IO FileState := do
  try
    lookInto (← IO.FS.Handle.mk path .read)
  catch e =>
    return .absent (failureText e)

partial def readAll (s : IO.FS.Stream) (done : ByteArray) : IO ByteArray := do
  let part ← s.read 65536
  if part.isEmpty then return done else readAll s (done ++ part)

def userConfigPath : IO (Option String) := do
  match ← IO.getEnv "XDG_CONFIG_HOME", ← IO.getEnv "HOME" with
  | some dir, _ => return some (dir ++ "/ksql/ksql.toml")
  | none, some home => return some (home ++ "/.config/ksql/ksql.toml")
  | none, none => return none

def worldOf (i : Invocation) : IO World := do
  let paths := i.config.getD World.localConfig :: i.command.file?.toList
  let files ← paths.mapM fun path => do return (path, ← lookAt path)
  let user ← match ← userConfigPath with
    | some path => lookAt path
    | none => pure (.absent "")
  let input ← if i.command.file?.isNone then readAll (← IO.getStdin) .empty else pure .empty
  return ⟨fun path => (files.lookup path).getD (.absent ""), user, input.toList⟩

def program (args : List String) : IO UInt32 := do
  let config ← IO.getEnv "KSQL_CONFIG"
  let world ← match Usage.read config args with
    | .ok i => worldOf i
    | .error _ => pure ⟨fun _ => .absent "", .absent "", []⟩
  let outcome := runProgram config args world
  (← IO.getStderr).putStr outcome.errors
  (← IO.getStdout).putStr outcome.output
  return outcome.code.toUInt32

end StreamSql

def main (args : List String) : IO UInt32 := StreamSql.program args
