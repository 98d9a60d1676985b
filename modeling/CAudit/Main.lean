import CAudit.CommandLine

/-! The program. -/
namespace CAudit

/-- The files with these names that can be read. -/
def readFiles (names : List String) : IO Directory := do
  let files ← names.filterMapM fun (name : String) => do
    try
      let bytes ← IO.FS.readBinFile name
      return some (Directory.plainName name, bytes.toList)
    catch _ => return none
  return Directory.ofFiles files

end CAudit

open CAudit in
def main (args : List String) : IO UInt32 := do
  let files ← readFiles (CommandLine.inputs args)
  let result := CommandLine.run files args
  if let some (name, text) := result.drawing then
    try IO.FS.writeFile name text catch _ => pure ()
  IO.print result.output
  if let some failure := result.failure then
    IO.eprintln (failure.line?.getD "Error: malformed configuration file")
  else if result.exit = 2 then
    IO.eprintln "error: the arguments cannot be used; try --help"
  return UInt32.ofNat result.exit
