import EditorSession.Json.Value

/-! Positions, ranges, edits and diagnostics as they travel between editor and server. Positions are
zero-based and count UTF-16 code units within a line. -/

namespace EditorSession.Lsp

structure Position where
  line : Int64 := 0
  character : Int64 := 0
deriving DecidableEq, Inhabited

structure Range where
  start : Position := {}
  stop : Position := {}
deriving DecidableEq, Inhabited

structure Location where
  uri : Bytes
  range : Range
deriving DecidableEq, Inhabited

structure TextEdit where
  range : Range
  newText : Bytes
deriving DecidableEq, Inhabited

/-- One change of a document. Without a range the text replaces everything. -/
structure Change where
  range : Option Range := none
  text : Bytes
deriving DecidableEq, Inhabited

/-- The rank of a diagnostic; the smaller, the graver. -/
structure Severity where
  rank : Int32
deriving DecidableEq, Inhabited

namespace Severity

def error : Severity := ⟨1⟩
def warning : Severity := ⟨2⟩
def information : Severity := ⟨3⟩
def hint : Severity := ⟨4⟩

/-- The words that name a severity. -/
def words : List (String × Severity) :=
  [("error", error), ("1", error), ("warning", warning), ("warn", warning), ("2", warning),
    ("information", information), ("info", information), ("3", information), ("hint", hint),
    ("4", hint)]

/-- The severity a word names, in any case of its letters. -/
def ofName? (word : Bytes) : Option Severity :=
  (words.find? fun entry => ascii entry.1 = Bytes.lower word).map (·.2)

end Severity

structure Diagnostic where
  range : Range := {}
  severity : Severity := .error
  code : Bytes := []
  source : Bytes := []
  message : Bytes := []
  href : Option Bytes := none
deriving DecidableEq, Inhabited

/-- The diagnostics of one document, as sent to the editor. -/
structure Publication where
  uri : Bytes
  version : Option Int64 := none
  diagnostics : List Diagnostic := []
deriving DecidableEq, Inhabited

def Position.toJson (p : Position) : Json :=
  .record [("line", .int p.line), ("character", .int p.character)]

def Range.toJson (r : Range) : Json :=
  .record [("start", r.start.toJson), ("end", r.stop.toJson)]

def Location.toJson (l : Location) : Json :=
  .record [("uri", .text l.uri), ("range", l.range.toJson)]

def TextEdit.toJson (e : TextEdit) : Json :=
  .record [("range", e.range.toJson), ("newText", .text e.newText)]

/-- A text member that is left out when empty. -/
def nonEmptyMember (key : String) (s : Bytes) : List (String × Json) :=
  if s.isEmpty then [] else [(key, .text s)]

def Diagnostic.toJson (d : Diagnostic) : Json :=
  .record ([("range", d.range.toJson), ("severity", .int d.severity.rank.toInt64)] ++
    nonEmptyMember "code" d.code ++ nonEmptyMember "source" d.source ++
    [("message", .text d.message)] ++
    match d.href with
    | some href => [("codeDescription", .record [("href", .text href)])]
    | none => [])

def Publication.toJson (p : Publication) : Json :=
  .record ([("uri", .text p.uri)] ++
    (match p.version with
      | some version => [("version", .int version)]
      | none => []) ++
    [("diagnostics", .array (p.diagnostics.map Diagnostic.toJson))])

end EditorSession.Lsp
