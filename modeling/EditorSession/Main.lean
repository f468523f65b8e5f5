import EditorSession.Rehearsal.Sitting
import EditorSession.Settings.CommandLine

/-! The command line. A session over the standard streams is served without an analysis engine: what
arrives is cut into frames and handed to the server, and what the server writes is framed again. -/

namespace EditorSession.Program

open Rehearsal (Line Sitting)

def bytesOf (s : String) : Bytes := s.toUTF8.toList

def write (stream : IO.FS.Stream) (text : Bytes) : IO Unit := do
  stream.write ⟨text.toArray⟩
  stream.flush

/-- The variables that settings are read from. -/
def variableNames : List String :=
  ["TMPDIR", "VBLS_PIPE_DIR", "VBLS_LOG_LEVEL", "VBLS_LOG_FILE", "VBLS_TRANSPORT",
    "VBLS_DIAGNOSTICS_DEBOUNCE_MS", "VBLS_DIAGNOSTICS_MIN_SEVERITY", "VBLS_DIAGNOSTICS_ENABLED",
    "VBLS_MAX_CONTENT_LENGTH"]

def environment : IO Environment := do
  let pairs ← variableNames.mapM fun name => do
    return (← IO.getEnv name).toList.map fun value => (bytesOf name, bytesOf value)
  return .ofPairs pairs.flatten

/-- Writes the notices that the threshold lets through. -/
def report (threshold : Log.Level) (notices : List Log.Notice) : IO Unit := do
  for notice in Log.admitted threshold notices do
    write (← IO.getStderr) (91 :: notice.level.name ++ ascii "] " ++ notice.message ++ [10])

/-- Lets the session act on a line, and writes what it logs and sends. -/
def play (threshold : Log.Level) (sitting : Sitting) (line : Line) : IO Sitting := do
  let (sitting, outcome) := sitting.play line
  report threshold outcome.trace.notices
  for message in outcome.received do
    write (← IO.getStdout) (Frame.encode message)
  return sitting

/-- Serves until the session has ended. `started` is the time its clock counts from. -/
partial def serve (threshold : Log.Level) (limits : Frame.Limits) (started : Nat) (buffer : Bytes)
    (sitting : Sitting) : IO Nat := do
  match sitting.exitCode? with
  | some code => return code
  | none =>
    let chunk ← (← IO.getStdin).read 4096
    let elapsed : Int := (← IO.monoMsNow) - started
    let sitting ← play threshold sitting (.advance (elapsed - sitting.now))
    if chunk.isEmpty then
      serve threshold limits started buffer (← play threshold sitting .closeClient)
    else
      let arrived := buffer ++ chunk.toList
      let (frames, rest, flaw) := Frame.takeAll limits arrived.length arrived
      let sitting ← frames.foldlM (fun sitting frame => play threshold sitting (.send frame)) sitting
      let sitting ← match flaw with
        | some flaw => play threshold sitting (.breakRead (.framing flaw.reason))
        | none => pure sitting
      serve threshold limits started rest sitting

/-- Runs a session with the given settings. -/
def run (settings : Settings.Configuration) : IO UInt32 := do
  let threshold := (Log.Level.ofName? settings.logLevel).getD .info
  match settings.transport with
  | .pipe =>
    report threshold [.error (ascii "Sessions over a local socket are not served; use --stdio")]
    return 1
  | .stdio =>
    let started ← IO.monoMsNow
    let sitting := Sitting.start settings.diagnostics (ascii "stdio") true none
    let sitting ← play threshold sitting .run
    let code ← serve threshold { content := settings.limit } started [] sitting
    report threshold [.info (Lsp.serverName ++ ascii " exiting with code " ++ Bytes.decimal code)]
    return UInt32.ofNat code

end EditorSession.Program

open EditorSession Program in
def main (arguments : List String) : IO UInt32 := do
  let (settings, notices) := Settings.load (← environment)
  report .info notices
  match Settings.apply settings (arguments.map bytesOf) with
  | (_, .error flaw) =>
    write (← IO.getStderr) (Lsp.serverName ++ ascii ": " ++ flaw.message ++ 10 ::
      Settings.usage Lsp.serverName)
    return 2
  | (_, .ok .showVersion) =>
    write (← IO.getStdout) (Lsp.serverName ++ 32 :: Settings.release.text ++ [10])
    return 0
  | (_, .ok .showHelp) =>
    write (← IO.getStdout) (Settings.usage Lsp.serverName)
    return 0
  | (settings, .ok .run) => run settings
