import Mockup.Text.Split

/-!
# Arguments of the command line

An invocation names a command, with options before and after its name and with positional arguments.
`Invocation.read?` refuses whatever is unknown, missing, repeated or left over.
-/

namespace Mockup.CommandLine

/-- The form in which a component is written. -/
inductive Format where
  | code
  | json
  deriving DecidableEq, Repr

/-- What is to be done. -/
inductive Command where
  /-- Makes a component from a mockup. -/
  | generate (markup : String) (name out : Option String) (format : Format)
  /-- Lists the features of a mockup. -/
  | features (markup : String)
  /-- Runs a patch request on the files below a directory. -/
  | patch (request root : String) (dryRun : Bool)
  /-- Writes the palette. -/
  | palette
  deriving DecidableEq, Repr

/-- A command with the options that all commands have. -/
structure Invocation where
  /-- The file with the settings. -/
  config : Option String
  /-- The command. -/
  command : Command
  deriving DecidableEq, Repr

/-! ### Options -/

/-- What an option takes. -/
inductive Operand where
  /-- Nothing. -/
  | none
  /-- Any text. -/
  | text
  /-- A path, which is not empty. -/
  | path
  /-- One of several words. -/
  | word (known : List String)
  deriving DecidableEq, Repr

/-- An option. -/
structure OptionRule where
  /-- Its name after two dashes. -/
  long : String
  /-- Its letter after one dash. -/
  short : Option Char := .none
  /-- What it takes. -/
  operand : Operand
  deriving DecidableEq, Repr

/-- Whether a text can be what an option takes. -/
def Operand.accepts (o : Operand) (value : String) : Bool :=
  match o with
  | .none => false
  | .text => true
  | .path => !value.isEmpty
  | .word known => known.contains value

/-- The options of every command. -/
def commonOptions : List OptionRule :=
  [{ long := "config", operand := .path },
    { long := "verbose", short := some 'v', operand := .none }]

/-- The options of the command that makes a component. -/
def generateOptions : List OptionRule :=
  [{ long := "name", short := some 'n', operand := .text },
    { long := "out", short := some 'o', operand := .path },
    { long := "format", short := some 'f', operand := .word ["code", "json"] }]

/-- The options of the command that runs a patch request. -/
def patchOptions : List OptionRule :=
  [{ long := "root", operand := .path }, { long := "dry-run", operand := .none }]

/-! ### Reading arguments -/

/-- Arguments that were read. -/
structure Given where
  /-- The options with what they were given. -/
  options : List (String × String) := []
  /-- The positional arguments. -/
  positional : List String := []
  deriving Repr

namespace Given

/-- Adds an option with what it was given, unless it was given before. -/
def add? (g : Given) (o : OptionRule) (value : String) : Option Given :=
  if g.options.any fun p => p.1 == o.long then none
  else if o.operand ≠ .none ∧ !o.operand.accepts value then none
  else some { g with options := g.options ++ [(o.long, value)] }

/-- What an option was given. -/
def get? (g : Given) (long : String) : Option String :=
  (g.options.find? fun p => p.1 == long).map (·.2)

/-- Whether an option was given. -/
def has (g : Given) (long : String) : Bool :=
  (g.get? long).isSome

end Given

/-- Whether an argument has the form of an option. -/
def isOption (arg : String) : Bool :=
  match arg.toList with
  | '-' :: _ :: _ => true
  | _ => false

/-- Reads an option whose value may be the next argument. -/
def takeValue? (g : Given) (o : OptionRule) (rest : List String) : Option (Given × List String) :=
  match rest with
  | value :: rest => if isOption value then none else (g.add? o value).map fun g => (g, rest)
  | [] => none

/-- Reads an option that is named in full. -/
def readLong? (known : List OptionRule) (g : Given) (arg : List Char) (rest : List String) :
    Option (Given × List String) := do
  let (name, value) := match Text.splitAt? ['='] arg with
    | some (name, value) => (name, some value)
    | none => (arg, none)
  let o ← known.find? fun o => o.long.toList == name
  match o.operand, value with
  | .none, none => (g.add? o "").map fun g => (g, rest)
  | .none, some _ => none
  | _, some value => (g.add? o (String.ofList value)).map fun g => (g, rest)
  | _, none => takeValue? g o rest

/-- Reads the letters after one dash. A letter with a value takes all that follows it. -/
def readShort? (known : List OptionRule) (g : Given) (rest : List String) :
    List Char → Option (Given × List String)
  | [] => some (g, rest)
  | c :: cs => do
    let o ← known.find? fun o => o.short == some c
    match o.operand, cs with
    | .none, cs => readShort? known (← g.add? o "") rest cs
    | _, [] => takeValue? g o rest
    | _, '=' :: value => (g.add? o (String.ofList value)).map fun g => (g, rest)
    | _, value => (g.add? o (String.ofList value)).map fun g => (g, rest)

/-- Reads arguments up to the end or, if `stop` holds, up to the first one that is no option. -/
def readGiven? (known : List OptionRule) (stop : Bool) :
    Nat → Given → List String → Option (Given × List String)
  | 0, _, _ => none
  | _, g, [] => some (g, [])
  | n + 1, g, arg :: rest =>
    match arg.toList with
    | ['-', '-'] =>
      if stop then none else some ({ g with positional := g.positional ++ rest }, [])
    | '-' :: '-' :: name => do
      let (g, rest) ← readLong? known g name rest
      readGiven? known stop n g rest
    | '-' :: c :: cs => do
      let (g, rest) ← readShort? known g rest (c :: cs)
      readGiven? known stop n g rest
    | _ =>
      if stop then some (g, arg :: rest)
      else readGiven? known stop n { g with positional := g.positional ++ [arg] } rest

/-- The arguments of a command with its own options. -/
def commandArguments? (own : List OptionRule) (args : List String) : Option Given :=
  (readGiven? (own ++ commonOptions) false (args.length + 1) {} args).map (·.1)

/-- The only positional argument, which must be there and is a path. -/
def Given.onlyPath? (g : Given) : Option String :=
  match g.positional with
  | [path] => if path.isEmpty then none else some path
  | _ => none

/-- The command with a name, and what it was given. -/
def readCommand? (name : String) (args : List String) : Option (Command × Given) :=
  if name == "generate" then do
    let g ← commandArguments? generateOptions args
    let format := if g.get? "format" == some "json" then Format.json else .code
    return (.generate (← g.onlyPath?) (g.get? "name") (g.get? "out") format, g)
  else if name == "features" then do
    let g ← commandArguments? [] args
    return (.features (← g.onlyPath?), g)
  else if name == "patch" then do
    let g ← commandArguments? patchOptions args
    return (.patch (← g.onlyPath?) ((g.get? "root").getD ".") (g.has "dry-run"), g)
  else if name == "palette" then do
    let g ← commandArguments? [] args
    if g.positional.isEmpty then return (.palette, g) else none
  else none

/-- The invocation that some arguments write. An option that stands after the name of the command
counts before one that stands in front of it. -/
def Invocation.read? (args : List String) : Option Invocation := do
  let (front, rest) ← readGiven? commonOptions true (args.length + 1) {} args
  match rest with
  | [] => none
  | name :: args =>
    let (command, given) ← readCommand? name args
    return { config := given.get? "config" <|> front.get? "config", command }

end Mockup.CommandLine
