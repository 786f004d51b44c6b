import Shorthand.Json
import Shorthand.Settings.Load

/-! The command line. The first argument names a command; the others are its
flags and its one operand. A flag takes one value, joined to it or as the next
argument, and may stand once; after `--` nothing is a flag. What the command
prints and its exit code follow from the arguments, the settings file that they
name, and a seed for when they give none. -/
namespace Shorthand.CommandLine

structure Flag where
  name : String
  short : Option Char := none
  accepts : String → Bool := fun _ => true

inductive Command where
  | markup
  | style
  | tree
  | filler
deriving DecidableEq

namespace Command

def all : List Command := [.markup, .style, .tree, .filler]

def name : Command → String
  | .markup => "markup"
  | .style => "css"
  | .tree => "ast"
  | .filler => "lorem"

def config : Flag := { name := "config", short := some 'c' }

def isNumeral (s : String) : Bool := (readNumeral? s.toList).isSome

def seed : Flag := { name := "seed", accepts := isNumeral }

def flags : Command → List Flag
  | .markup =>
    [{ name := "dialect", short := some 'd', accepts := (Dialect.all.map Dialect.name).contains },
     { name := "ext" }, { name := "class-attr" }, config, seed]
  | .style =>
    [{ name := "syntax", short := some 's',
       accepts := (StyleFlavour.all.map StyleFlavour.name).contains }, config]
  | .tree => [config]
  | .filler => [seed]

def acceptsOperand : Command → String → Bool
  | .filler => isNumeral
  | _ => fun _ => true

end Command

/-- The flags and the operand of a command, as far as they are read. -/
structure Arguments where
  values : Table String String := []
  operand : Option String := none

/-- Why no command is run. -/
inductive Stop where
  | help
  | usage
deriving DecidableEq

namespace Arguments

def withOperand (command : Command) (arguments : Arguments) (operand : String) :
    Except Stop Arguments :=
  if arguments.operand.isSome ∨ !command.acceptsOperand operand then .error .usage
  else .ok { arguments with operand := some operand }

def withValue (arguments : Arguments) (flag : Flag) (value : String) : Except Stop Arguments :=
  if arguments.values.has flag.name ∨ !flag.accepts value then .error .usage
  else .ok { arguments with values := arguments.values.insert flag.name value }

end Arguments

/-- What an argument is while flags are allowed. -/
inductive Word where
  | operand
  | endOfFlags
  | help
  | flag (flag : Flag) (value : Option String)
  | unknown

/-- A flag in its long form, whose hyphens are consumed. -/
def longFlag (flags : List Flag) (s : List Char) : Word :=
  let value := match s.dropWhile (· ≠ '=') with
    | [] => none
    | _ :: value => some (String.ofList value)
  let name := String.ofList (s.takeWhile (· ≠ '='))
  match flags.find? (·.name = name) with
  | some flag => .flag flag value
  | none => if name = "help" ∧ value.isNone then .help else .unknown

/-- A flag in its short form, whose hyphen is consumed. -/
def shortFlag (flags : List Flag) (c : Char) (s : List Char) : Word :=
  let value := match s with
    | [] => none
    | '=' :: value => some (String.ofList value)
    | value => some (String.ofList value)
  match flags.find? (·.short = some c) with
  | some flag => .flag flag value
  | none => if c = 'h' then .help else .unknown

def classify (flags : List Flag) (argument : String) : Word :=
  match argument.toList with
  | ['-', '-'] => .endOfFlags
  | '-' :: '-' :: s => longFlag flags s
  | '-' :: c :: s => shortFlag flags c s
  | _ => .operand

/-- Reads arguments of which none is a flag. -/
def readOperands (command : Command) (arguments : Arguments) (rest : List String) :
    Except Stop Arguments :=
  rest.foldlM (Arguments.withOperand command) arguments

def isOperand : Word → Bool
  | .operand => true
  | _ => false

def readArguments (command : Command) (arguments : Arguments) :
    List String → Except Stop Arguments
  | [] => .ok arguments
  | argument :: rest =>
    match classify command.flags argument with
    | .endOfFlags => readOperands command arguments rest
    | .help => .error .help
    | .unknown => .error .usage
    | .operand => do readArguments command (← arguments.withOperand command argument) rest
    | .flag flag (some value) => do
      readArguments command (← arguments.withValue flag value) rest
    | .flag flag none =>
      match rest with
      | [] => .error .usage
      | value :: rest =>
        if isOperand (classify command.flags value) then do
          readArguments command (← arguments.withValue flag value) rest
        else .error .usage

/-- The exit code and what is written to either stream. -/
structure Outcome where
  code : UInt32
  stdout : String := ""
  stderr : String := ""
deriving DecidableEq

def fail (message : String) : Outcome := { code := 1, stderr := "Error: " ++ message ++ "\n" }

def succeed (output : String) : Outcome := { code := 0, stdout := output ++ "\n" }

/-- Arguments that make no sense are answered by the exit code alone. -/
def misuse : Outcome := { code := 2 }

def version : String := "zencode 0.1.0"

def usage : String := "Usage: zencode <markup|css|ast|lorem> [OPTIONS] <OPERAND>"

/-- The settings that flags stand for. -/
def overrides (arguments : Arguments) : List (String × Settings.Value) :=
  [("dialect", "render.output_dialect"), ("ext", "render.document_extension"),
   ("class-attr", "render.class_attribute_name"), ("syntax", "render.css_syntax")].filterMap
    fun (flag, path) => (arguments.values.get? flag).map fun value => (path, .text value)

/-- The settings of a command; a settings file that cannot be read spoils them. -/
def settings (files : String → Option String) (arguments : Arguments) :
    Except SetupFailure Settings :=
  match arguments.values.get? "config" with
  | none => Settings.load [] (overrides arguments)
  | some path =>
    match files path with
    | none => .error .unreadableSettings
    | some file => Settings.load [file] (overrides arguments)

def seedOf (seed : UInt64) (arguments : Arguments) : UInt64 :=
  (((arguments.values.get? "seed").bind (readNumeral? ·.toList)).map Nat.toUInt64).getD seed

/-- The output of a command, or the message of what went wrong. -/
def execute (files : String → Option String) (seed : UInt64) (command : Command)
    (arguments : Arguments) (operand : String) : Except String String := do
  let settings ← (settings files arguments).mapError SetupFailure.message
  let expander ← (settings.expander (seedOf seed arguments)).mapError SetupFailure.message
  match command with
  | .markup => (expander.expandMarkup operand settings.options).1.mapError Failure.message
  | .style => (expander.expandStyle operand settings.options).1.mapError Failure.message
  | .tree =>
    let tree ← (expander.read (trimmed operand)).1.mapError Failure.message
    return (Json.ofNode tree).write 0
  | .filler => return (expander.fillerText ((readNumeral? operand.toList).getD 0)).1

def runCommand (files : String → Option String) (seed : UInt64) (command : Command)
    (rest : List String) : Outcome :=
  match readArguments command {} rest with
  | .error .help => succeed usage
  | .error .usage => misuse
  | .ok arguments =>
    match arguments.operand with
    | none => misuse
    | some operand =>
      match execute files seed command arguments operand with
      | .ok output => succeed output
      | .error message => fail message

/-- Help on the program or on one command, named after the word `help`. -/
def help : List String → Outcome
  | [] => succeed usage
  | [name] =>
    if name = "help" ∨ (Command.all.map Command.name).contains name then succeed usage else misuse
  | _ => misuse

/-- Runs the program on its arguments. -/
def run (files : String → Option String) (seed : UInt64) : List String → Outcome
  | [] => misuse
  | first :: rest =>
    match Command.all.find? (·.name = first) with
    | some command => runCommand files seed command rest
    | none =>
      match first.toList with
      | '-' :: 'V' :: _ => succeed version
      | '-' :: 'h' :: _ => succeed usage
      | _ =>
        if first = "--version" then succeed version
        else if first = "--help" then succeed usage
        else if first = "help" then help rest
        else misuse

/-- The settings file that the arguments name, if they are well formed. -/
def configPath? : List String → Option String
  | [] => none
  | first :: rest =>
    (Command.all.find? (·.name = first)).bind fun command =>
      (readArguments command {} rest).toOption.bind fun arguments =>
        arguments.values.get? "config"

end Shorthand.CommandLine
