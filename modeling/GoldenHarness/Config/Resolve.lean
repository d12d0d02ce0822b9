import GoldenHarness.CommandLine.Basic
import GoldenHarness.Config.File

/-!
# Resolving a configuration

Each setting comes from the first source that has it: the command line, where an environment variable
counts as the option that it sets, then the configuration file, then what is derived from the other
settings or built in. Paths from the command line are taken as they are.
-/

namespace GoldenHarness.Config

/-- The configuration that a command line and a configuration file set together. -/
def layer (file : ConfigFile) (s : CommandLine.Settings) : Config :=
  let tool := (s.tool.or file.tool).getD defaultTool
  let capture := (s.capture.or file.capture).getD defaultCapture
  let c := ofCapture tool capture
  let c := (s.golden.or file.golden).elim c c.withGolden
  let c := file.subcommand.elim c c.withSubcommand
  file.scratchDir.elim c c.withScratchDir

/-- The configuration that a command line asks for, with the configuration file that it names. -/
def resolve (fs : FileSystem) (s : CommandLine.Settings) : Except ConfigError Config :=
  match s.config with
  | none => .ok (layer .empty s)
  | some path =>
    match ConfigFile.load fs path with
    | .error e => .error e
    | .ok file => .ok (layer file s)

end GoldenHarness.Config
