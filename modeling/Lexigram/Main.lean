import Lexigram.Command.Run

/-!
The command line program: it reads the files that a command needs, runs the
command, and writes what it returns.
-/

namespace Lexigram.Command

/-- How the program is called. -/
def usage : List String := [
  "usage: lexigram [-v] print GRAMMAR [--bnf] [--left-recursion] [--tree]",
  "       lexigram [-v] regex GRAMMAR [--fallback]",
  "       lexigram [-v] lex GRAMMAR [INPUT] [--buffer-size N] [--threaded] [--fallback] [--skip-invalid]"]

/-- The environment variable that names the least grave level to log. -/
def levelVariable : String := "RUST_LOG"

/-- The files that a command reads, and whether it reads the standard input. -/
def files : Command → List String × Bool
  | .print grammar _ _ _ => ([grammar], false)
  | .patterns grammar _ => ([grammar], false)
  | .lex grammar input _ _ _ _ => (grammar :: input.toList, input.isNone)

/-- What is at a path that could not be read. -/
def fileOf : IO.Error → File
  | .noFileOrDirectory .. => .missing "No such file or directory (os error 2)"
  | .permissionDenied .. => .missing "Permission denied (os error 13)"
  | .inappropriateType .. => .unreadable "Is a directory (os error 21)"
  | e => .missing (toString e)

/-- Reads a file. -/
def readFile (path : String) : IO File := do
  try
    return .content (← IO.FS.readBinFile path).toList
  catch e => return fileOf e

/-- Reads what a command can read. -/
def environmentOf (c : Command) : IO Environment := do
  let (paths, usesInput) := c.files
  let contents ← paths.mapM fun path => do return (path, ← readFile path)
  let input ← if usesInput then (← IO.getStdin).readBinToEnd else pure .empty
  return ⟨fun path => (contents.lookup path).getD (.missing "file not read"),
    input.toList⟩

end Lexigram.Command

open Lexigram.Command in
/-- Runs the command that the arguments ask for. -/
def main (arguments : List String) : IO UInt32 := do
  match invocation? arguments with
  | none =>
    usage.forM IO.eprintln
    return 2
  | some i =>
    let done := i.run (← environmentOf i.command) (← IO.getEnv levelVariable)
    IO.print done.output
    IO.eprint done.errors
    return done.code.toUInt32
