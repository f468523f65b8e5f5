import EditorSession.Diagnostics.Options
import EditorSession.Environment
import EditorSession.Frame.Codec
import EditorSession.Log
import EditorSession.Settings.Words

/-! Settings from the environment. A variable that is unset, empty or malformed leaves its setting at
the default; a malformed one is reported. -/

namespace EditorSession.Settings

/-- How the editor is connected. -/
inductive Transport where
  | pipe | stdio
deriving DecidableEq, Repr

def Transport.ofName? (word : Bytes) : Option Transport :=
  if word = ascii "pipe" then some .pipe
  else if word = ascii "stdio" then some .stdio
  else none

structure Configuration where
  transport : Transport := .pipe
  pipeDirectory : Bytes
  logLevel : Bytes := ascii "info"
  logFile : Bytes := []
  limit : UInt64 := ({} : Frame.Limits).content
  diagnostics : Diagnostics.Options := {}
deriving DecidableEq

/-- The directory for temporary files. -/
def defaultPipeDirectory (env : Environment) : Bytes := env.getD (ascii "TMPDIR") (ascii "/tmp")

/-- Reads an optional variable: the default when it is unset or malformed, with a report in the
latter case. -/
def overlay {α : Type} (env : Environment) (name : String) (hint : String) (read? : Bytes → Option α)
    (default : α) : α × List Log.Notice :=
  match env.get? (ascii name) with
  | none => (default, [])
  | some value =>
    match read? value with
    | some a => (a, [])
    | none =>
      (default, [.warn (ascii "Ignoring " ++ ascii name ++ 61 :: value ++ ascii hint)])

/-- A delay in milliseconds. The size is taken as a signed word. -/
def delay? (text : Bytes) : Option Int64 := (size? text).map UInt64.toInt64

/-- A size that is not zero. -/
def positiveSize? (text : Bytes) : Option UInt64 := (size? text).filter (0 < ·)

/-- The defaults, overlaid with the environment. -/
def load (env : Environment) : Configuration × List Log.Notice :=
  let defaults : Diagnostics.Options := {}
  let (transport, n₁) := overlay env "VBLS_TRANSPORT" ": expected pipe or stdio" Transport.ofName? .pipe
  let (delay, n₂) := overlay env "VBLS_DIAGNOSTICS_DEBOUNCE_MS" ": not a number of milliseconds"
    delay? defaults.delay
  let (threshold, n₃) := overlay env "VBLS_DIAGNOSTICS_MIN_SEVERITY" "" Lsp.Severity.ofName?
    defaults.threshold
  let (limit, n₄) := overlay env "VBLS_MAX_CONTENT_LENGTH" "" positiveSize?
    ({} : Frame.Limits).content
  ({ transport
     pipeDirectory := env.getD (ascii "VBLS_PIPE_DIR") (defaultPipeDirectory env)
     logLevel := env.getD (ascii "VBLS_LOG_LEVEL") (ascii "info")
     logFile := env.getD (ascii "VBLS_LOG_FILE") []
     limit
     diagnostics :=
      { delay, threshold
        enabled := env.flag (ascii "VBLS_DIAGNOSTICS_ENABLED") defaults.enabled } },
    n₁ ++ n₂ ++ n₃ ++ n₄)

end EditorSession.Settings
