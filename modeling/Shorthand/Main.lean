import Shorthand.CommandLine

/-! The program: reads the settings file that the arguments name, runs the command
line, and prints what it says. -/

def main (args : List String) : IO UInt32 := do
  let path := Shorthand.CommandLine.configPath? args
  let file ← match path with
    | none => pure none
    | some path => try some <$> IO.FS.readFile path catch _ => pure none
  let seed ← IO.getRandomBytes 8
  let seed := seed.toList.foldl (fun n byte => n * 256 + byte.toUInt64) 0
  let outcome := Shorthand.CommandLine.run (fun p => if path = some p then file else none) seed args
  (← IO.getStdout).putStr outcome.stdout
  (← IO.getStderr).putStr outcome.stderr
  return outcome.code
