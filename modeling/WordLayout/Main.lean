import WordLayout.Command.Run

namespace WordLayout.Command

def AccessFault.ofError : IO.Error → AccessFault
  | .noFileOrDirectory .. | .noSuchThing .. => .notFound
  | .permissionDenied .. => .denied
  | .inappropriateType _ number _ => if number = 20 then .notDirectory else .isDirectory
  | e => .other (toString e)

def machine : Storage IO where
  read path := do
    try
      pure (.ok (← IO.FS.readBinFile path).toList)
    catch e =>
      let fault := AccessFault.ofError e
      pure (.error { fault, step := if fault = .isDirectory then .reading else .opening })
  write path bytes := do
    try
      IO.FS.writeBinFile path ⟨bytes.toArray⟩
      pure (.ok ())
    catch e => pure (.error { fault := .ofError e })

def logValue : Log.Value → String
  | .text s => Text.quoted s
  | .number n => toString n
  | .flag b => toString b

def logLine (e : Log.Entry) : String :=
  "\t".intercalate
    ([e.level.name, e.message] ++ e.values.map fun (key, v) => key ++ "=" ++ logValue v)

def Outcome.print (o : Outcome) : IO UInt32 := do
  let stderr ← IO.getStderr
  for entry in o.log do
    stderr.putStrLn (logLine entry)
  (← IO.getStdout).write ⟨(Text.toBytes o.stdout).toArray⟩
  stderr.write ⟨(Text.toBytes o.stderr).toArray⟩
  pure o.exitCode.toUInt32

end WordLayout.Command

def main (arguments : List String) : IO UInt32 := do
  (← WordLayout.Command.run WordLayout.Command.machine arguments).print
