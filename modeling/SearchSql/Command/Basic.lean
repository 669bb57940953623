import SearchSql.Manual
import SearchSql.SearchRequest
import SearchSql.Statement.Reading
import SearchSql.Statement.Tree
import SearchSql.Text.Trim

/-!
# What the commands do

* `Command.Failure` : the reasons why a command fails, with the message of each.
* `Command.statement` : the statement in a text given to a command, which is trimmed first.
* `Command.validate`, `Command.check`, `Command.tree` : accept a statement, turn it into a
  request, or show its syntax tree.
* `Command.topic` : the topic of the manual with a given name.
-/

namespace SearchSql

namespace Command

/-- The reasons why a command fails. -/
inductive Failure where
  /-- The text is not a statement. -/
  | rejected (error : SyntaxError)
  /-- The text is empty up to white space. -/
  | noStatement
  /-- The standard input is not a text. -/
  | unreadableInput
  /-- The manual has no such topic. -/
  | unknownTopic (name : String)
deriving DecidableEq, Repr

/-- The failure in words. -/
def Failure.message : Failure → String
  | .rejected e => "syntax error: " ++ e.message
  | .noStatement => "No query provided. Pass it as arguments or pipe it to stdin."
  | .unreadableInput => "IO error: stream did not contain valid UTF-8"
  | .unknownTopic name =>
    "Unknown category: '" ++ name ++ "'\nRun 'elseql docs' to see available categories."

/-- The statement in a text.  White space around it does not count: the places in errors are
offsets in the trimmed text. -/
def statement (text : String) : Except Failure Statement :=
  let trimmed := Text.trim text
  if trimmed = "" then .error .noStatement
  else (Statement.ofText trimmed).mapError .rejected

/-- Accept a text that holds a statement. -/
def validate (text : String) : Except Failure Unit := do
  let _ ← statement text

/-- The request for the statement in a text. -/
def check (e : Endpoint) (text : String) : Except Failure SearchRequest := do
  return (← statement text).request e

/-- The syntax tree of the statement in a text. -/
def tree (text : String) : Except Failure Json := do
  return (← statement text).toJson

/-- The topic of the manual with the given name. -/
def topic (name : String) : Except Failure Topic :=
  match Topic.ofName? name with
  | some t => .ok t
  | none => .error (.unknownTopic name)

end Command

end SearchSql
