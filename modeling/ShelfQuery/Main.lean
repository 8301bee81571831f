import ShelfQuery.Cli.Needs
import Std.Time.Zoned

set_option autoImplicit false

namespace ShelfQuery.Cli

open ShelfQuery.Files

def lookAt (path : String) : IO (Option Item) := do
  match ← (IO.FS.readFile path).toBaseIO with
  | .ok text => return some (.file text)
  | .error (.noFileOrDirectory ..) => return none
  | .error (.inappropriateType ..) => return some .folder
  | .error _ => return some (.file "?")

def gather (here : Path) (paths : List String) : IO (List (Path × Item)) := do
  let found ← paths.mapM fun path => do return (placeOf here path, ← lookAt path)
  return found.filterMap fun (place, item) => item.map fun item => (place, item)

def gatherVariables : IO (List (String × String)) := do
  let found ← variableNames.mapM fun name => do return (name, ← IO.getEnv name)
  return found.filterMap fun (name, text) => text.map fun text => (name, text)

/-- The local time; a time that has no date here is the first moment of 1970. -/
def localNow : IO Calendar.DateTime := do
  let now ← Std.Time.PlainDateTime.now
  let date := Calendar.Date.of? now.date.year.toInt now.date.month.toNat now.date.day.toNat
  let time := Calendar.Time.of? now.time.hour.val.toNat now.time.minute.val.toNat now.time.second.val.toNat
    now.time.nanosecond.val.toNat
  let start : Calendar.Date := ⟨1970, 1, 1, by decide⟩
  return ⟨date.getD start, time.getD .midnight⟩

def machineWord (path : String) : IO String := do
  match ← (IO.FS.readFile path).toBaseIO with
  | .ok text => return Text.lower (Text.trimString text)
  | .error _ => return "unknown"

end ShelfQuery.Cli

open ShelfQuery.Cli in
def main (args : List String) : IO UInt32 := do
  let here := placeOf [] (toString (← IO.currentDir))
  let env ← gatherVariables
  let items ← gather here (neededPaths here env args)
  let system ← machineWord "/proc/sys/kernel/ostype"
  let architecture ← machineWord "/proc/sys/kernel/arch"
  let world : World := ⟨⟨items, here⟩, env, [], ← localNow, system, architecture⟩
  let more ← gather here (world.databasePath? args).toList
  let outcome := { world with files := ⟨items ++ more, here⟩ }.respond args
  (← IO.getStdout).putStr outcome.stdout
  (← IO.getStderr).putStr outcome.stderr
  return outcome.code.toUInt32
