import Calculator.CommandLine.Report

namespace Calculator.CommandLine

partial def readFirstLine (input : IO.FS.Stream) (passed : List UInt8) : IO (List UInt8) := do
  let next := (← input.read 1).data.toList
  if next.isEmpty || next = [10] then return passed.reverse
  readFirstLine input (next ++ passed)

def printReport (r : Report) : IO UInt32 := do
  IO.print r.output
  (← IO.getStdout).flush
  IO.eprint r.complaint
  return .ofNat r.status

end Calculator.CommandLine

open Calculator CommandLine in
def main (args : List String) : IO UInt32 := do
  match Invocation.ofArgs args with
  | .run command none =>
    -- The prompt goes out before the line is awaited.
    IO.print prompt
    (← IO.getStdout).flush
    let line ← readFirstLine (← IO.getStdin) []
    printReport (command.reportInput line)
  | invocation => printReport (invocation.report [])
