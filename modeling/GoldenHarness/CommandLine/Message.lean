import GoldenHarness.CommandLine.Basic
import GoldenHarness.Text.Printable

/-!
# Messages of the command line

What is printed when help is asked for and when a command line is refused.
-/

namespace GoldenHarness.CommandLine

/-- The name that messages give to the program, unless it was called by another. -/
def standardName : String := "trace-golden"

/-- The name that messages give to the program, from the word by which it was called: the last part of
that path, if it can be read. -/
def programName (called : Option Bytes) : String :=
  match called.bind Path.fileName? with
  | some name => ((Utf8.decode? name).map String.ofList).getD standardName
  | none => standardName

/-- The usage of all options but help, as alternatives. -/
def alternatives : String :=
  let usages :=
    Flag.generate.usage :: ValueOption.all.map ValueOption.usage ++ [Flag.verbose.usage]
  "<" ++ "|".intercalate usages ++ ">"

namespace UsageError

/-- What is wrong with a command line. -/
def reason : UsageError → String
  | .unknownOption shown => s!"Invalid option: {shown}"
  | .unexpectedWord word => s!"error: unexpected argument '{word}' found"
  | .unneededValue flag value _ =>
    s!"error: unexpected value '{value}' for '{flag.usage}' found; no more were expected"
  | .missingValue o => s!"error: a value is required for '{o.usage}' but none was supplied"
  | .repeatedGenerate =>
    s!"error: the argument '{Flag.generate.usage}' cannot be used multiple times"
  | .repeatedOption o => s!"error: the argument '{o.usage}' cannot be used multiple times"

/-- The options that the usage line names, if there is a usage line: the flag that the error is about,
and the options that may stand beside it if some were taken up. -/
def usage? : UsageError → Option String
  | .unknownOption _ | .missingValue _ => none
  | .unexpectedWord _ | .repeatedGenerate | .repeatedOption _ => some "[OPTIONS]"
  | .unneededValue flag _ afterOthers =>
    match flag, afterOthers with
    | _, false => some flag.usage
    | .help, true => some s!"{flag.usage} {alternatives}"
    | _, true => some alternatives

/-- The message for a refused command line. -/
def message (program : String) (e : UsageError) : String :=
  match e with
  | .unknownOption _ => e.reason ++ "\n"
  | _ =>
    let usage :=
      match e.usage? with
      | some options => s!"Usage: {program} {options}\n\n"
      | none => ""
    Printable.strip s!"{e.reason}\n\n{usage}For more information, try '--help'.\n"

end UsageError

/-- The column at which the help text explains options. -/
def helpColumn : Nat := 24

/-- A line of the help text. Where the explanation has several lines, they begin in one column. -/
def helpLine (option explanation : String) : String :=
  let gap (s : String) : String := String.ofList (List.replicate (helpColumn - s.length) ' ')
  let lines := explanation.splitOn "\n"
  option ++ gap option ++ ("\n" ++ gap "").intercalate lines ++ "\n"

/-- What the help text says about an option with a value. -/
def ValueOption.explanation : ValueOption → String
  | .config => "Harness config file (TOML)"
  | .tool => "Trace decoder executable"
  | .capture => "Capture file handed to the decoder"
  | .golden =>
    "Expected-output file (defaults to the capture path with an `.ok` extension)"

/-- What the help text says about a flag. -/
def Flag.explanation : Flag → String
  | .generate => "Regenerate the golden file instead of comparing against it"
  | .verbose => "Diagnostic verbosity (-v debug, -vv trace)"
  | .help => "Print help"

/-- The help text, which tells the values of the environment variables. -/
def helpText (program : String) (env : Environment) : String :=
  let flag (f : Flag) : String :=
    helpLine ("  -" ++ String.ofList [f.letter] ++ ", " ++ f.usage) f.explanation
  let option (o : ValueOption) : String :=
    let value := Bytes.toStringLossy ((env.lookup o.envVariable).getD [])
    helpLine s!"      {o.usage}" s!"{o.explanation} [env: {o.envVariable}={value}]"
  Printable.strip
    ("Run the trace decoder against a capture and compare with its golden output\n\n" ++
      s!"Usage: {program} [OPTIONS]\n\nOptions:\n" ++ flag .generate ++
      "".intercalate (ValueOption.all.map option) ++ flag .verbose ++ flag .help)

end GoldenHarness.CommandLine
