import EditorSession.Lsp.Basic

/-! How diagnostics are computed and published. -/

namespace EditorSession.Diagnostics

structure Options where
  /-- Milliseconds between the last change and the computation. -/
  delay : Int64 := 300
  /-- Diagnostics of a higher severity rank are not published. -/
  threshold : Lsp.Severity := .warning
  /-- When off, only closing a document has an effect. -/
  enabled : Bool := true
  /-- Computations that may run at once; zero counts as one. -/
  threads : Nat := 2
deriving DecidableEq

end EditorSession.Diagnostics
