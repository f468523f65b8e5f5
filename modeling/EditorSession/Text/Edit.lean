import EditorSession.Text.Place

/-! Applying the changes an editor reports. -/

namespace EditorSession.Text

/-- Replaces the bytes from `start` up to `stop`. -/
def splice (text : Bytes) (start stop : Nat) (replacement : Bytes) : Bytes :=
  text.take start ++ replacement ++ text.drop stop

/-- Applies one change. Without a range the new text is everything; a range given backwards is
turned around. -/
def applyChange (text : Bytes) (change : Lsp.Change) : Bytes :=
  match change.range with
  | none => change.text
  | some range =>
    let a := offsetAt text range.start
    let b := offsetAt text range.stop
    splice text (min a b) (max a b) change.text

/-- Applies changes in order, each to the text the one before produced. -/
def applyChanges (text : Bytes) (changes : List Lsp.Change) : Bytes :=
  changes.foldl applyChange text

end EditorSession.Text
