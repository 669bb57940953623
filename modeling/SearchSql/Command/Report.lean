import SearchSql.Command.Invocation
import SearchSql.Command.Basic
import SearchSql.Json.Printer

/-!
# Running a command

`Command.run` is the command line tool as a function: from its arguments, the host set in its
environment and its standard input it computes what is written and the exit code.
-/

namespace SearchSql

namespace Command

/-- What a run of the tool leaves behind. -/
structure Report where
  /-- The exit code. -/
  code : Nat
  /-- The standard output. -/
  out : String
  /-- The standard error output, without log messages. -/
  err : String
deriving DecidableEq, Repr

namespace Report

/-- A run that succeeds and writes the given text. -/
def success (out : String) : Report := ⟨0, out, ""⟩

/-- A run that fails. -/
def failure (f : Failure) : Report := ⟨1, "", f.message ++ "\n"⟩

/-- A run that succeeds with a text or fails. -/
def ofExcept : Except Failure String → Report
  | .ok out => success out
  | .error f => failure f

end Report

/-- The environment variable for the host. -/
def hostVariable : String := "ELSEQL_HOST"

/-- What the tool says of its version. -/
def versionText : String := "elseql 0.2.0\n"

/-- How the tool is used. -/
def usage : String :=
  Manual.lines
    ["Usage: elseql [--debug] <command>",
      "",
      "  check [query...] [--host <host>] [-p|--pretty] [--syntax-only]",
      "  parse [query...] [-p|--pretty]",
      "  docs",
      "  doc <category>",
      "  help [command]"]

/-- The text of a statement: the words with a blank between each two, or the standard input if
there are no words. -/
def queryText (words : List String) (input : ByteArray) : Except Failure String :=
  match words with
  | [] =>
    match String.fromUTF8? input with
    | some text => .ok text
    | none => .error .unreadableInput
  | words => .ok (" ".intercalate words)

/-- JSON text in the chosen form. -/
def jsonText (pretty : Bool) (j : Json) : String := if pretty then j.pretty else j.compact

/-- The endpoint: the host given as an option, else the one in the environment, else the default
one. -/
def endpoint (option environment : Option String) : Endpoint :=
  .ofHost ((option <|> environment).getD Endpoint.defaultHost)

namespace Invocation

/-- The invocation reads the standard input. -/
def readsInput : Invocation → Bool
  | .check words _ _ _ => words.isEmpty
  | .parse words _ => words.isEmpty
  | _ => false

/-- Carry out an invocation. -/
def run (environment : Option String) (input : ByteArray) : Invocation → Report
  | .check words host pretty syntaxOnly =>
    .ofExcept do
      let text ← queryText words input
      if syntaxOnly then
        validate text
        return "Syntax is valid\n"
      else
        let request ← Command.check (endpoint host environment) text
        return "POST " ++ request.url ++ "\n" ++ jsonText pretty request.body ++ "\n"
  | .parse words pretty =>
    .ofExcept do
      let text ← queryText words input
      return jsonText pretty (← tree text) ++ "\n"
  | .docs => .success Manual.overview
  | .doc name =>
    .ofExcept do
      return (← topic name).page
  | .version => .success versionText
  | .help => .success usage

end Invocation

/-- Run the tool. -/
def run (args : List String) (environment : Option String) (input : ByteArray) : Report :=
  match Invocation.ofArgs? args with
  | some invocation => invocation.run environment input
  | none => ⟨2, "", usage⟩

end Command

end SearchSql
