import SearchSql.Command.Report

/-!
# The command line tool

Reads the arguments, the environment and, if a statement is not given by arguments, the standard
input; all else is `Command.run`.
-/

/-- Read a stream to its end. -/
partial def readToEnd (stream : IO.FS.Stream) (read : ByteArray) : IO ByteArray := do
  let chunk ← stream.read 65536
  if chunk.isEmpty then return read else readToEnd stream (read ++ chunk)

/-- The command line tool. -/
def main (args : List String) : IO UInt32 := do
  let reads := (SearchSql.Command.Invocation.ofArgs? args).any (·.readsInput)
  let input ← if reads then readToEnd (← IO.getStdin) .empty else pure .empty
  let environment ← IO.getEnv SearchSql.Command.hostVariable
  let report := SearchSql.Command.run args environment input
  IO.print report.out
  IO.eprint report.err
  return report.code.toUInt32
