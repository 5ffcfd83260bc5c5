import AddressLines.Command.Run

/-!
# The command

The host that a machine makes up, and the run in it.
-/

namespace AddressLines.Command

/-- Why a file cannot be written. -/
def reason : IO.Error → String
  | .noFileOrDirectory .. => PathFault.missing.message
  | .inappropriateType _ code _ =>
    if code = 20 then PathFault.notDirectory.message else PathFault.isDirectory.message
  | e => toString e

def Host.machine : Host IO where
  read? path := do
    try return some (← IO.FS.readBinFile path)
    catch _ => return none
  write path content := do
    try
      IO.FS.writeFile path content
      return .ok ()
    catch e => return .error (reason e)
  print text := IO.print text

end AddressLines.Command

open AddressLines.Command in
def main (args : List String) : IO UInt32 :=
  return (← Host.machine.run Options.ofArgs args).toUInt32
