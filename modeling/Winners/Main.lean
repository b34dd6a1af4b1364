import Winners.CommandLine.Report

set_option autoImplicit false

/-! # The program

Reads the arguments, the graph file they name and, where no seed is given, a seed; writes the log
and the report. The log is left out when the environment variable `GWW_LOG` is `off`.
-/

namespace Winners

/-- The bytes of a file, or the reason why they cannot be read. The number of an error may come with
either sign. -/
def readContent (path : String) : IO (Except String ByteArray) := do
  try
    return .ok (← IO.FS.readBinFile path)
  catch error =>
    match error with
    | .noFileOrDirectory .. => return .error "No such file or directory (os error 2)"
    | .permissionDenied .. => return .error "Permission denied (os error 13)"
    | .inappropriateType _ code _ =>
        if code = 21 ∨ code = 0 - 21 then return .error "Is a directory (os error 21)"
        else return .error "Not a directory (os error 20)"
    | other => return .error (toString other)

/-- A seed from the operating system. -/
def systemSeed : IO UInt64 := do
  let bytes ← IO.getRandomBytes 8
  return bytes.toList.foldl (fun seed b => seed * 256 + b.toUInt64) 0

def runProgram (args : List String) : IO UInt32 := do
  match CommandLine.read? args with
  | none =>
      IO.eprintln "usage: gww (independent-set | coloring | ldpc) [options]"
      return 2
  | some command =>
      let content ← match command.graphFile? with
        | some path => readContent path
        | none => pure (.ok .empty)
      let result := command.result content (← systemSeed)
      if (← IO.getEnv "GWW_LOG") ≠ some "off" then
        for entry in result.log do
          IO.println entry.line
      IO.print result.stdout
      IO.eprint result.stderr
      return result.code.toUInt32

end Winners

def main (args : List String) : IO UInt32 := Winners.runProgram args
