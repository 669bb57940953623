/-!
# Command line arguments

* `Invocation` : what the command line tool is asked to do.
* `Invocation.ofArgs?` : read the arguments; `none` if they are not understood.

Arguments are read from left to right, and the first one that settles the matter does: a request
for help or for the version is granted if everything before it was in order.  Behind the name of
a command, options and words may be mixed; an option is given at most once; and everything
behind the argument `--` is a word.
-/

namespace SearchSql

namespace Command

/-- What the tool is asked to do. -/
inductive Invocation where
  /-- Turn a statement into a request, or only accept it. -/
  | check (words : List String) (host : Option String) (pretty syntaxOnly : Bool)
  /-- Show the syntax tree of a statement. -/
  | parse (words : List String) (pretty : Bool)
  /-- Show the overview of the manual. -/
  | docs
  /-- Show a page of the manual. -/
  | doc (name : String)
  | version
  | help
deriving DecidableEq, Repr

/-- The options that are either given or not. -/
inductive Switch where
  | debug
  | pretty
  | syntaxOnly
deriving DecidableEq, Repr

/-- The switch with a long name. -/
def Switch.ofLong? : String → Option Switch
  | "--debug" => some .debug
  | "--pretty" => some .pretty
  | "--syntax-only" => some .syntaxOnly
  | _ => none

/-- The switch with a short name. -/
def Switch.ofShort? : Char → Option Switch
  | 'p' => some .pretty
  | _ => none

/-- What may follow the name of a command. -/
structure Signature where
  switches : List Switch
  /-- The command takes the option for the host. -/
  takesHost : Bool
  /-- The greatest number of words; any number if `none`. -/
  maxWords : Option Nat

/-- What was given behind the name of a command. -/
structure Given where
  switches : List Switch := []
  host : Option String := none
  words : List String := []
deriving DecidableEq, Repr

/-- What the arguments of a command come to. -/
inductive Arguments where
  | given (g : Given)
  | help
  | misused
deriving DecidableEq, Repr

namespace Given

/-- Add a switch, which the command must take and which must not have been given before. -/
def addSwitch? (sig : Signature) (g : Given) (s : Switch) : Option Given :=
  if s ∈ sig.switches ∧ s ∉ g.switches then some { g with switches := s :: g.switches } else none

/-- Add the host, which the command must take and which must not have been given before. -/
def addHost? (sig : Signature) (g : Given) (host : String) : Option Given :=
  if sig.takesHost ∧ g.host = none then some { g with host := some host } else none

/-- Add a word, unless there are enough of them. -/
def addWord? (sig : Signature) (g : Given) (word : String) : Option Given :=
  if sig.maxWords.all fun n => g.words.length < n then
    some { g with words := g.words ++ [word] }
  else none

end Given

/-- An argument has the form of an option if it starts with a hyphen and does not end there. -/
def isOption (arg : String) : Bool :=
  match arg.toList with
  | '-' :: _ :: _ => true
  | _ => false

/-- The value in an argument of the form `--host=value`. -/
def hostValue? (arg : String) : Option String :=
  let start := "--host=".toList
  if start.isPrefixOf arg.toList then some (String.ofList (arg.toList.drop start.length)) else none

/-- Read switches that are given by their short names in one argument. -/
def readCluster (sig : Signature) (g : Given) : List Char → Arguments
  | [] => .given g
  | 'h' :: _ => .help
  | c :: cs =>
    match (Switch.ofShort? c).bind (g.addSwitch? sig) with
    | some g => readCluster sig g cs
    | none => .misused

/-- Read one argument that is an option complete in itself, or a word. -/
def readArg (sig : Signature) (g : Given) (arg : String) : Arguments :=
  let ofOption : Option Given → Arguments
    | some g => .given g
    | none => .misused
  if arg = "--help" then .help
  else match hostValue? arg with
    | some host => ofOption (g.addHost? sig host)
    | none =>
      match arg.toList with
      | '-' :: '-' :: _ => ofOption ((Switch.ofLong? arg).bind (g.addSwitch? sig))
      | '-' :: c :: cs => readCluster sig g (c :: cs)
      | _ => ofOption (g.addWord? sig arg)

/-- Read words only. -/
def readWords (sig : Signature) (g : Given) : List String → Arguments
  | [] => .given g
  | word :: rest =>
    match g.addWord? sig word with
    | some g => readWords sig g rest
    | none => .misused

/-- Read what follows the name of a command. -/
def readArgs (sig : Signature) (g : Given) : List String → Arguments
  | [] => .given g
  | "--" :: rest => readWords sig g rest
  | ["--host"] => .misused
  | "--host" :: host :: rest =>
    if isOption host then .misused
    else
      match g.addHost? sig host with
      | some g => readArgs sig g rest
      | none => .misused
  | arg :: rest =>
    match readArg sig g arg with
    | .given g => readArgs sig g rest
    | r => r

namespace Invocation

/-- Read the arguments of a command, and make an invocation of them. -/
def ofArguments? (sig : Signature) (args : List String) (make : Given → Option Invocation) :
    Option Invocation :=
  match readArgs sig {} args with
  | .given g => make g
  | .help => some .help
  | .misused => none

/-- The names of the commands. -/
def commandNames : List String := ["check", "parse", "docs", "doc", "help"]

/-- Read the name of a command and its arguments. -/
def ofCommand? (command : String) (args : List String) : Option Invocation :=
  match command with
  | "check" =>
    ofArguments? ⟨[.debug, .pretty, .syntaxOnly], true, none⟩ args fun g =>
      some (.check g.words g.host (.pretty ∈ g.switches) (.syntaxOnly ∈ g.switches))
  | "parse" =>
    ofArguments? ⟨[.debug, .pretty], false, none⟩ args fun g =>
      some (.parse g.words (.pretty ∈ g.switches))
  | "docs" => ofArguments? ⟨[.debug], false, some 0⟩ args fun _ => some .docs
  | "doc" =>
    ofArguments? ⟨[.debug], false, some 1⟩ args fun g => g.words.head?.map .doc
  | "help" =>
    match args with
    | [] => some .help
    | [name] => if name ∈ commandNames then some .help else none
    | _ => none
  | _ => none

/-- Read the options before the name of a command.  `debug` tells that the switch for log messages
was given. -/
def ofArgsAfter? (debug : Bool) : List String → Option Invocation
  | [] => none
  | arg :: rest =>
    if arg = "--debug" then if debug then none else ofArgsAfter? true rest
    else if arg = "--version" then some .version
    else if arg = "--help" then some .help
    else
      match arg.toList with
      | '-' :: 'V' :: _ => some .version
      | '-' :: 'h' :: _ => some .help
      | _ => ofCommand? arg rest

/-- Read the arguments of the tool. -/
def ofArgs? (args : List String) : Option Invocation := ofArgsAfter? false args

end Invocation

end Command

end SearchSql
