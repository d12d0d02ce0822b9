import GoldenHarness.Path

/-!
# Configuration of a run

A configuration says which decoder replays which capture, which golden file holds the expected output
and where the transient file goes. The golden file goes with the capture, and the transient file with
the golden file, unless they are set: setting the golden file moves the scratch directory along, and
setting the scratch directory moves nothing.
-/

namespace GoldenHarness

/-- Everything a run needs to know. -/
structure Config where
  /-- The decoder. -/
  tool : Path
  /-- The first argument given to the decoder. -/
  subcommand : String
  /-- The capture that the decoder replays. -/
  capture : Path
  /-- The file that holds the expected output. -/
  golden : Path
  /-- The directory for the transient file. -/
  scratchDir : Path
deriving DecidableEq, Repr

namespace Config

/-- The decoder, unless another is set. -/
def defaultTool : Path := Bytes.ofString "pySim-trace.py"

/-- The decoder's first argument, unless another is set. -/
def defaultSubcommand : String := "gsmtap-pyshark-pcap"

/-- The capture, unless another is set. -/
def defaultCapture : Path := Bytes.ofString "pySim-trace_test_gsm_rsap.pcapng"

/-- The golden file that goes with a capture: its path with `.ok` at the end. -/
def goldenPathFor (capture : Path) : Path := capture ++ Bytes.ofString ".ok"

/-- The configuration for a decoder and a capture, with all else derived from the capture. -/
def ofCapture (tool capture : Path) : Config :=
  let golden := goldenPathFor capture
  { tool, subcommand := defaultSubcommand, capture, golden, scratchDir := Path.directory golden }

/-- The configuration when nothing is set. -/
def standard : Config := ofCapture defaultTool defaultCapture

/-- Sets the golden file; the scratch directory follows it. -/
def withGolden (c : Config) (golden : Path) : Config :=
  { c with golden, scratchDir := Path.directory golden }

/-- Sets the decoder's first argument. -/
def withSubcommand (c : Config) (subcommand : String) : Config := { c with subcommand }

/-- Sets the scratch directory. -/
def withScratchDir (c : Config) (scratchDir : Path) : Config := { c with scratchDir }

/-- The arguments given to the decoder. -/
def toolArgs (c : Config) : List Bytes :=
  [Bytes.ofString c.subcommand, Bytes.ofString "-f", c.capture]

/-- The name that results go under: the capture's file name, or its whole path if it has none. -/
def label (c : Config) : String :=
  match Path.fileName? c.capture with
  | some name => Bytes.toStringLossy name
  | none => Path.display c.capture

end Config

end GoldenHarness
