import GoldenHarness.CommandLine.Basic

/-!
# Reading a command line

The words of a command line are read from left to right. An option whose value is a word of its own is
taken up only when the next flag or option is, or at the end. So a word that cannot be read is
reported before a fault in an option that is still waiting, and after all faults in those that were
taken up.
-/

namespace GoldenHarness.CommandLine

/-- The byte that options begin with. -/
def dash : UInt8 := 0x2D

/-- The word after which no word is an option. -/
def separator : Bytes := [dash, dash]

/-- The byte that joins a value to the name of a long option. -/
def equals : UInt8 := 0x3D

/-- Why reading ends early. -/
inductive Stop where
  /-- Help was asked for. -/
  | help
  /-- The command line is refused. -/
  | invalid (error : UsageError)
deriving DecidableEq, Repr

/-- What has been read so far. -/
structure Progress where
  /-- What the options taken up so far ask for. -/
  settings : Settings
  /-- Whether any flag or option was taken up. -/
  hasOptions : Bool
  /-- The option that waits to be taken up, with its value if that was read. -/
  waiting : Option (ValueOption × Option Bytes)
  /-- Whether the separator was read. -/
  isSeparated : Bool
deriving DecidableEq, Repr

namespace Progress

/-- What has been read before the first word. -/
def start : Progress := ⟨.initial, false, none, false⟩

/-- Takes up an option with its value. -/
def take (p : Progress) (o : ValueOption) (value : Bytes) : Except Stop Progress :=
  if (p.settings.get o).isSome then .error (.invalid (.repeatedOption o))
  else if value = [] then .error (.invalid (.missingValue o))
  else .ok { p with settings := p.settings.set o value, hasOptions := true }

/-- Takes up the option that waits, if one does. -/
def settle (p : Progress) : Except Stop Progress :=
  match p.waiting with
  | none => .ok p
  | some (o, none) => .error (.invalid (.missingValue o))
  | some (o, some value) => { p with waiting := none }.take o value

/-- Takes up a flag. -/
def flag (p : Progress) (f : Flag) : Except Stop Progress := do
  let p ← p.settle
  match f with
  | .help => .error .help
  | .verbose =>
    let verbosity := min Settings.maxVerbosity (p.settings.verbosity + 1)
    .ok { p with settings := { p.settings with verbosity }, hasOptions := true }
  | .generate =>
    if p.settings.generate then .error (.invalid .repeatedGenerate)
    else .ok { p with settings := { p.settings with generate := true }, hasOptions := true }

/-- Reads the short flags of a word. What cannot be a flag ends the reading: a letter that names none,
or all the bytes that are left if they encode no character. -/
def letters (p : Progress) : List Utf8.Segment → Except Stop Progress
  | [] => .ok p
  | .scalar c :: rest =>
    match Flag.all.find? (·.letter = c) with
    | some f => do (← p.flag f).letters rest
    | none => .error (.invalid (.unknownOption (String.ofList ['-', c])))
  | rest@(.illFormed _ :: _) =>
    .error (.invalid (.unknownOption (String.ofList ('-' :: rest.map Utf8.Segment.shown))))

/-- Reads a long option: its name, and the value that an equals sign joins to it. -/
def long (p : Progress) (name : Bytes) (value : Option Bytes) : Except Stop Progress :=
  match ValueOption.all.find? (fun o => Bytes.ofString o.name = name),
      Flag.all.find? (fun f => Bytes.ofString f.name = name) with
  | some o, _ => do
    let p ← p.settle
    match value with
    | some v => p.take o v
    | none => .ok { p with waiting := some (o, none) }
  | none, some f =>
    match value with
    | some v => .error (.invalid (.unneededValue f (Bytes.toStringLossy v) p.hasOptions))
    | none => p.flag f
  | none, none => .error (.invalid (.unknownOption ("--" ++ Bytes.toStringLossy name)))

/-- Reads a word that is no option: the value of the option that waits for one, or a word too many,
which is called an option all the same if it looks like one. -/
def other (p : Progress) (word : Bytes) : Except Stop Progress :=
  match p.isSeparated, p.waiting with
  | false, some (o, none) => .ok { p with waiting := some (o, some word) }
  | _, _ =>
    let shown := Bytes.toStringLossy word
    if shown.toList.head? = some '-' then .error (.invalid (.unknownOption shown))
    else .error (.invalid (.unexpectedWord shown))

/-- Splits the name and the value of a long option at the first equals sign. -/
def splitValue (word : Bytes) : Bytes × Option Bytes :=
  match word.dropWhile (· ≠ equals) with
  | [] => (word, none)
  | _ :: value => (word.takeWhile (· ≠ equals), some value)

/-- Reads a word. -/
def word (p : Progress) (w : Bytes) : Except Stop Progress :=
  if p.isSeparated then p.other w
  else if w = separator then .ok { p with isSeparated := true }
  else if separator.isPrefixOf w then
    let (name, value) := splitValue (w.drop 2)
    p.long name value
  else if w.head? = some dash ∧ w ≠ [dash] then p.letters (Utf8.segments w.tail)
  else p.other w

/-- Sets an option from the environment, if it is not set. -/
def fromEnvironment (env : Environment) (p : Progress) (o : ValueOption) : Except Stop Progress :=
  match p.settings.get o, env.lookup o.envVariable with
  | none, some value => p.take o value
  | _, _ => .ok p

/-- What the words of a command line ask for, in an environment. -/
def read (words : List Bytes) (env : Environment) : Except Stop Settings := do
  let p ← words.foldlM word start
  let p ← p.settle
  let p ← ValueOption.all.foldlM (fromEnvironment env) p
  pure p.settings

end Progress

/-- What a command line comes to, given the words after the program's name. -/
def parse (words : List Bytes) (env : Environment) : Invocation :=
  match Progress.read words env with
  | .ok settings => .run settings
  | .error .help => .help
  | .error (.invalid e) => .invalid e

end GoldenHarness.CommandLine
