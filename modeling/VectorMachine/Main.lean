import VectorMachine.CommandLine

namespace VectorMachine

def readFiles (paths : List String) : IO (List (String × ByteArray)) := do
  let mut found := []
  for path in paths do
    match ← (IO.FS.readBinFile path).toBaseIO with
    | .ok bytes => found := (path, bytes) :: found
    | .error _ => pure ()
  return found

end VectorMachine

open VectorMachine in
def main (args : List String) : IO UInt32 := do
  let paths := ((CommandLine.Command.read? args).map CommandLine.Command.paths).getD []
  let found ← readFiles paths
  let answer := CommandLine.execute (fun path => found.lookup path) args
  IO.print answer.stdout
  IO.eprint answer.stderr
  return UInt32.ofNat answer.code
