import EditorSession.FileTree

/-! Log levels, log lines and the places they are written to. Components return the notices they
raise; a threshold decides which of them become lines. -/

namespace EditorSession.Log

/-- Importance of a notice, least first. -/
inductive Level where
  | debug | info | warn | error | fatal
deriving DecidableEq, Repr, Inhabited

namespace Level

def rank : Level → Nat
  | debug => 0
  | info => 1
  | warn => 2
  | error => 3
  | fatal => 4

def name : Level → Bytes
  | debug => ascii "DEBUG"
  | info => ascii "INFO"
  | warn => ascii "WARN"
  | error => ascii "ERROR"
  | fatal => ascii "FATAL"

/-- The words that name a level. -/
def words : List (String × Level) :=
  [("DEBUG", debug), ("TRACE", debug), ("VERBOSE", debug), ("INFO", info), ("INFORMATION", info),
    ("WARN", warn), ("WARNING", warn), ("ERROR", error), ("FATAL", fatal), ("CRITICAL", fatal)]

/-- The level a word names, in any case of its letters. -/
def ofName? (word : Bytes) : Option Level :=
  (words.find? fun entry => ascii entry.1 = Bytes.upper word).map (·.2)

/-- Whether a notice of level `level` is written under `threshold`. -/
def admits (threshold level : Level) : Bool := threshold.rank ≤ level.rank

end Level

/-- Something a component has to say. -/
structure Notice where
  level : Level
  message : Bytes
deriving DecidableEq, Inhabited

namespace Notice

def debug (message : Bytes) : Notice := ⟨.debug, message⟩
def info (message : Bytes) : Notice := ⟨.info, message⟩
def warn (message : Bytes) : Notice := ⟨.warn, message⟩
def error (message : Bytes) : Notice := ⟨.error, message⟩

/-- Level and message, without a place in the source. -/
def text (n : Notice) : Bytes := n.level.name ++ 32 :: n.message

end Notice

/-- The notices that a threshold lets through. -/
def admitted (threshold : Level) (notices : List Notice) : List Notice :=
  notices.filter fun n => threshold.admits n.level

/-- One written line: the label, the last component of the file path, the line number. -/
def line (label file : Bytes) (number : Nat) (message : Bytes) : Bytes :=
  91 :: label ++ ascii "] " ++ Bytes.afterLast 47 file ++ 58 :: Bytes.decimal number ++ ascii ": " ++
    message ++ [10]

/-- What has been written to the console and to the log file. -/
structure Sink where
  console : Bytes := []
  /-- The contents of the log file, once one has been opened. -/
  file : Option Bytes := none
  /-- Lines go to the log file too. -/
  isOpen : Bool := false
deriving DecidableEq

namespace Sink

/-- Opens a log file, which starts with a stamped heading. -/
def openFile (sink : Sink) (stamp : Bytes) : Sink :=
  { sink with
    file := some (ascii "\n=== vbls log opened at " ++ stamp ++ ascii " ===\n")
    isOpen := true }

/-- Closes the log file. -/
def closeFile (sink : Sink) : Sink := { sink with isOpen := false }

/-- Reports a log file that could not be opened; one that was open before is closed. -/
def refuseFile (sink : Sink) (path : Bytes) (reason : OpenFlaw) : Sink :=
  { sink.closeFile with
    console := sink.console ++ ascii "[ERROR] Failed to open log file: " ++ path ++
      ascii " (errno=" ++ Bytes.decimal reason.number ++ ascii ")\n" }

/-- Changes to another log file. An empty path means that none is wanted. -/
def changeFile (sink : Sink) (tree : FileTree) (path stamp : Bytes) : Sink :=
  if path.isEmpty then sink.closeFile
  else
    match tree.flaw? path with
    | some reason => sink.refuseFile path reason
    | none => sink.openFile stamp

/-- Writes one line to the console and to the open log file. -/
def write (sink : Sink) (entry : Bytes) : Sink :=
  { sink with
    console := sink.console ++ entry
    file := if sink.isOpen then sink.file.map (· ++ entry) else sink.file }

end Sink

end EditorSession.Log
