import GoldenHarness.Path

/-!
# Options of the command line

Two flags may stand on the command line, an option for help, and four options with a value. Each
option with a value can also be set by an environment variable, which counts where the option is not
on the command line.
-/

namespace GoldenHarness.CommandLine

/-- An option with a value. -/
inductive ValueOption where
  /-- The configuration file. -/
  | config
  /-- The decoder. -/
  | tool
  /-- The capture. -/
  | capture
  /-- The golden file. -/
  | golden
deriving DecidableEq, Repr

namespace ValueOption

/-- All options with a value, in the order in which they are looked up in the environment. -/
def all : List ValueOption := [config, tool, capture, golden]

/-- The name of an option. -/
def name : ValueOption → String
  | config => "config"
  | tool => "tool"
  | capture => "capture"
  | golden => "golden"

/-- What the value of an option is called. -/
def valueName : ValueOption → String
  | config => "FILE"
  | _ => "PATH"

/-- The environment variable that sets an option. -/
def envVariable : ValueOption → String
  | config => "TRACE_GOLDEN_CONFIG"
  | tool => "TRACE_GOLDEN_TOOL"
  | capture => "TRACE_GOLDEN_CAPTURE"
  | golden => "TRACE_GOLDEN_EXPECTED"

/-- How an option is written, with its value. -/
def usage (o : ValueOption) : String := s!"--{o.name} <{o.valueName}>"

end ValueOption

/-- An option without a value. -/
inductive Flag where
  /-- Write the golden file. -/
  | generate
  /-- Say more about what happens. -/
  | verbose
  /-- Show help. -/
  | help
deriving DecidableEq, Repr

namespace Flag

/-- All flags. -/
def all : List Flag := [generate, verbose, help]

/-- The long name of a flag. -/
def name : Flag → String
  | generate => "generate"
  | verbose => "verbose"
  | help => "help"

/-- The short name of a flag. -/
def letter : Flag → Char
  | generate => 'o'
  | verbose => 'v'
  | help => 'h'

/-- How a flag is written; dots tell that it may be repeated. -/
def usage : Flag → String
  | verbose => "--verbose..."
  | f => s!"--{f.name}"

end Flag

/-- What a command line asks for. -/
structure Settings where
  /-- Whether to write the golden file instead of comparing with it. -/
  generate : Bool
  /-- The configuration file. -/
  config : Option Path
  /-- The decoder. -/
  tool : Option Path
  /-- The capture. -/
  capture : Option Path
  /-- The golden file. -/
  golden : Option Path
  /-- How much to say about what happens. -/
  verbosity : Nat
deriving DecidableEq, Repr

namespace Settings

/-- What an empty command line asks for. -/
def initial : Settings := ⟨false, none, none, none, none, 0⟩

/-- The value of an option. -/
def get (s : Settings) : ValueOption → Option Path
  | .config => s.config
  | .tool => s.tool
  | .capture => s.capture
  | .golden => s.golden

/-- Sets the value of an option. -/
def set (s : Settings) (o : ValueOption) (value : Path) : Settings :=
  match o with
  | .config => { s with config := some value }
  | .tool => { s with tool := some value }
  | .capture => { s with capture := some value }
  | .golden => { s with golden := some value }

/-- The greatest verbosity that is told apart. -/
def maxVerbosity : Nat := 255

end Settings

/-- The environment variables that are set. -/
abbrev Environment := List (String × Bytes)

/-- Why a command line is refused. -/
inductive UsageError where
  /-- A flag or option that there is not. -/
  | unknownOption (shown : String)
  /-- A word where none is expected. -/
  | unexpectedWord (word : String)
  /-- A value given to a flag; `afterOthers` tells whether options were taken up before. -/
  | unneededValue (flag : Flag) (value : String) (afterOthers : Bool)
  /-- An option without its value, or with an empty one. -/
  | missingValue (option : ValueOption)
  /-- The generate flag, given twice. -/
  | repeatedGenerate
  /-- An option with a value, given twice. -/
  | repeatedOption (option : ValueOption)
deriving DecidableEq, Repr

/-- What a command line comes to. -/
inductive Invocation where
  /-- A run. -/
  | run (settings : Settings)
  /-- A request for help. -/
  | help
  /-- A refusal. -/
  | invalid (error : UsageError)
deriving DecidableEq, Repr

end GoldenHarness.CommandLine
