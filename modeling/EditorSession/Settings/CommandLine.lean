import EditorSession.Settings.Load

/-! The command line, applied over settings from left to right. -/

namespace EditorSession.Settings

/-- What the command line asks for. -/
inductive Action where
  | run | showVersion | showHelp
deriving DecidableEq, Repr

/-- Why a command line is refused. -/
inductive ArgumentFlaw where
  | valueMissing (flag : String)
  | unknownLevel (word : Bytes)
  | emptyDirectory
  | unknownOption (argument : Bytes)
deriving DecidableEq

/-- The full wording of a flaw. -/
def ArgumentFlaw.wording : ArgumentFlaw → Bytes
  | valueMissing flag => ascii flag ++ ascii " requires a value"
  | unknownLevel word => ascii "unknown log level '" ++ word ++ ascii "'"
  | emptyDirectory => ascii "--pipeDir requires a non-empty value"
  | unknownOption argument => ascii "unknown option '" ++ argument ++ ascii "'"

/-- What is reported of a flaw: its wording up to the first zero byte. -/
def ArgumentFlaw.message (flaw : ArgumentFlaw) : Bytes := Bytes.beforeNul flaw.wording

/-- A flag that takes a value. -/
inductive ValueFlag where
  | logLevel | pipeDir
deriving DecidableEq, Repr

def ValueFlag.name : ValueFlag → String
  | logLevel => "--logLevel"
  | pipeDir => "--pipeDir"

/-- What one argument in flag position means. -/
inductive Word where
  | transport (t : Transport)
  /-- A flag with its value in the next argument. -/
  | flag (f : ValueFlag)
  /-- A flag with its value in the same argument. -/
  | flagWith (f : ValueFlag) (value : Bytes)
  | action (a : Action)
  | unknown
deriving DecidableEq

/-- The value joined to a flag by an equals sign. -/
def joined? (f : ValueFlag) (argument : Bytes) : Option Bytes :=
  let stem := ascii f.name ++ [61]
  if stem.isPrefixOf argument then some (argument.drop stem.length) else none

def Word.ofValueFlag? (f : ValueFlag) (argument : Bytes) : Option Word :=
  if argument = ascii f.name then some (.flag f) else (joined? f argument).map (.flagWith f)

def Word.ofArgument (argument : Bytes) : Word :=
  if argument = ascii "--pipe" then .transport .pipe
  else if argument = ascii "--stdio" then .transport .stdio
  else if argument = ascii "--version" ∨ argument = ascii "-v" then .action .showVersion
  else if argument = ascii "--help" ∨ argument = ascii "-h" then .action .showHelp
  else
    ((Word.ofValueFlag? .logLevel argument).orElse fun _ =>
      Word.ofValueFlag? .pipeDir argument).getD .unknown

/-- Sets the value of a flag. -/
def ValueFlag.assign (f : ValueFlag) (value : Bytes) (s : Configuration) : Except ArgumentFlaw Configuration :=
  match f with
  | logLevel =>
    if (Log.Level.ofName? value).isSome then .ok { s with logLevel := value }
    else .error (.unknownLevel value)
  | pipeDir => if value.isEmpty then .error .emptyDirectory else .ok { s with pipeDirectory := value }

/-- Applies arguments from left to right. Version and help end the reading; a flaw leaves the
settings as the arguments before it made them. -/
def apply (s : Configuration) : List Bytes → Configuration × Except ArgumentFlaw Action
  | [] => (s, .ok .run)
  | argument :: rest =>
    match Word.ofArgument argument with
    | .transport t => apply { s with transport := t } rest
    | .action a => (s, .ok a)
    | .unknown => (s, .error (.unknownOption argument))
    | .flagWith f value =>
      match f.assign value s with
      | .error flaw => (s, .error flaw)
      | .ok s => apply s rest
    | .flag f =>
      match rest with
      | [] => (s, .error (.valueMissing f.name))
      | value :: rest =>
        match f.assign value s with
        | .error flaw => (s, .error flaw)
        | .ok s => apply s rest

/-- The help text. -/
def usage (program : Bytes) : Bytes :=
  ascii "Usage: " ++ program ++ ascii " [options]\n" ++
  ascii "  --pipe               Serve over a per-session local socket announced on stdout (default)\n" ++
  ascii "  --stdio              Serve over stdin/stdout\n" ++
  ascii "  --pipeDir <dir>      Directory for the session socket (default $TMPDIR or /tmp)\n" ++
  ascii "  --logLevel <level>   debug | info | warn | error\n" ++
  ascii "  --version, -v        Print the version and exit\n" ++
  ascii "  --help, -h           Print this help and exit\n"

end EditorSession.Settings
