import EditorSession.Bytes

/-! The version of the server. -/

namespace EditorSession.Settings

structure Release where
  major : Nat
  minor : Nat
  patch : Nat
deriving DecidableEq, Repr

/-- Three numbers divided by points. -/
def Release.text (r : Release) : Bytes :=
  Bytes.decimal r.major ++ 46 :: Bytes.decimal r.minor ++ 46 :: Bytes.decimal r.patch

def release : Release := ⟨0, 1, 0⟩

end EditorSession.Settings
