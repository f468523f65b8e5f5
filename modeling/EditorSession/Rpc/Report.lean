import EditorSession.Log
import EditorSession.Rpc.Slot

/-! What readings of messages log. -/

namespace EditorSession.Rpc

/-- A text that is not JSON is reported; JSON of the wrong shape is not. -/
def Reading.notices {α : Type} (kind : String) : Reading α → List Log.Notice
  | malformed e => [.error (ascii "Failed to deserialize " ++ ascii kind ++ ascii ": " ++ e.message)]
  | message _ => []
  | unsuitable => []

end EditorSession.Rpc
