import EditorSession.Proofs.Numeral
import EditorSession.Rpc.Id

/-! The key of an id determines the id. -/

namespace EditorSession.Rpc.Id

theorem key_injective {a b : Id} (h : a.key = b.key) : a = b := by
  cases a with
  | text s =>
    cases b with
    | text t => exact congrArg text (List.append_cancel_left h)
    | number n => simp [key, ascii] at h
    | null => simp [key, ascii] at h
  | number m =>
    cases b with
    | text t => simp [key, ascii] at h
    | number n =>
      have hi : m.toInt = n.toInt := Bytes.decimalInt_injective (List.append_cancel_left h)
      exact congrArg number (Int64.toInt_inj.mp hi)
    | null => simp [key, ascii] at h
  | null =>
    cases b with
    | text t => simp [key, ascii] at h
    | number n => simp [key, ascii] at h
    | null => rfl

end EditorSession.Rpc.Id
