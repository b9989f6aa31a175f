import Std.Time.Zoned
import ServerScript.Command.Run

/-! The command line. It reads the environment, the clock and the files and prints the result. -/
namespace ServerScript.Command

def readClock : IO ClockReading := do
  let now ← Std.Time.PlainDateTime.now
  let day := Calendar.dayNumber now.date.year.toInt now.date.month.val.toNat now.date.day.val.toNat
  let seconds := now.time.hour.val * 3600 + now.time.minute.val * 60 + now.time.second.val
  return { now := ⟨day, min seconds.toNat 86399, false⟩
           hundredths := now.time.nanosecond.val.toNat / 10000000 }

def readEnvironment : IO (List (String × String)) := do
  let found ← Config.settings.mapM fun name => do
    return (← IO.getEnv name).map fun value => (name, value)
  return found.filterMap id

def readFiles (paths : List String) : IO (List (String × String)) := do
  let found ← paths.mapM fun (path : String) => do
    try return some (path, ← IO.FS.readFile path)
    catch _ => return none
  return found.filterMap id

def lookupText (entries : List (String × String)) (name : String) : Option String :=
  (entries.find? (·.1 == name)).map (·.2)

def readWorld (sources : List String) : IO World := do
  let files ← readFiles (sources.filter (!namesStdin ·))
  let stdin ← if sources.any namesStdin then (← IO.getStdin).readToEnd else pure ""
  let env ← readEnvironment
  return { env := lookupText env, file := lookupText files, stdin, clock := ← readClock }

end ServerScript.Command

open ServerScript in
def main (args : List String) : IO UInt32 := do
  let sources := match Command.parse args with
    | .run options => options.sources
    | _ => []
  let result := Command.run (← Command.readWorld sources) args
  (← IO.getStdout).putStr result.output
  result.complaints.forM IO.eprintln
  return result.code.toUInt32
