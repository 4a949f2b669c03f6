import ContractML.Command

/-!
# The command line

Reads the words of the command line and the file, and prints what the command gives.
-/

open ContractML in
/-- Runs the command that the arguments ask for. -/
def main (args : List String) : IO UInt32 := do
  match Command.ofWords? args with
  | none =>
    IO.eprintln Command.usage
    return 2
  | some command =>
    let contents ← try pure (some (← IO.FS.readBinFile command.file)) catch _ => pure none
    let exit := command.execute contents
    IO.print exit.stdout
    IO.eprint exit.stderr
    return exit.code
