import EditorSession.Proofs.Text.Places
import EditorSession.Text.Edit
import Mathlib.Order.MinMax

/-! Applied edits keep the text of the server that of the editor: on every well-formed text, and for
every list of changes, the bytes that come out are the UTF-8 form of the text whose UTF-16 form the
reference edits produce. -/

namespace EditorSession.Text

section Cut

variable {α β : Type} (f : α → List β) (text : List α)

/-- How much of a form built piece by piece stands before the piece at `i`. -/
def cut (i : Nat) : Nat := ((text.take i).flatMap f).length

theorem flatMap_split (i : Nat) :
    text.flatMap f = (text.take i).flatMap f ++ (text.drop i).flatMap f := by
  rw [← List.flatMap_append, List.take_append_drop]

theorem take_cut (i : Nat) : (text.flatMap f).take (cut f text i) = (text.take i).flatMap f := by
  rw [flatMap_split f text i, cut, List.take_left]

theorem drop_cut (i : Nat) : (text.flatMap f).drop (cut f text i) = (text.drop i).flatMap f := by
  rw [flatMap_split f text i, cut, List.drop_left]

theorem monotone_cut : Monotone (cut f text) := by
  intro i j hij
  obtain ⟨rest, h⟩ := List.take_prefix_take_left (l := text) hij
  rw [cut, cut, ← h, List.flatMap_append, List.length_append]
  exact Nat.le_add_right _ _

/-- A splice between pieces is a splice of the pieces. -/
theorem splice_cut (new : List α) (i j : Nat) :
    (text.flatMap f).take (min (cut f text i) (cut f text j)) ++ new.flatMap f ++
        (text.flatMap f).drop (max (cut f text i) (cut f text j)) =
      (text.take (min i j) ++ new ++ text.drop (max i j)).flatMap f := by
  have hm := monotone_cut f text
  rw [← hm.map_min, ← hm.map_max, take_cut, drop_cut, List.flatMap_append, List.flatMap_append]

end Cut

/-- A change whose new text is well formed. -/
structure TextChange where
  range : Option Lsp.Range
  text : List Char

/-- The change as it arrives, with its text in UTF-8. -/
def TextChange.inBytes (change : TextChange) : Lsp.Change := ⟨change.range, utf8 change.text⟩

/-- The change as the editor means it. -/
def TextChange.inUnits (change : TextChange) : UnitChange :=
  ⟨change.range.map fun range => (.ofPosition range.start, .ofPosition range.stop),
    utf16 change.text⟩

theorem applyChange_agrees (text : List Char) (change : TextChange) :
    ∃ result, applyChange (utf8 text) change.inBytes = utf8 result ∧
      change.inUnits.apply (utf16 text) = utf16 result := by
  obtain ⟨_ | ⟨start, stop⟩, new⟩ := change
  · exact ⟨new, rfl, rfl⟩
  · obtain ⟨i, hi, hi'⟩ := aligned_offsetOf text (.ofPosition start)
    obtain ⟨j, hj, hj'⟩ := aligned_offsetOf text (.ofPosition stop)
    refine ⟨text.take (min i j) ++ new ++ text.drop (max i j), ?_, ?_⟩
    · simp only [applyChange, TextChange.inBytes, offsetAt, splice, hi, hj]
      exact splice_cut String.utf8EncodeChar text new i j
    · simp only [UnitChange.apply, TextChange.inUnits, Option.map_some, hi', hj']
      exact splice_cut codeUnits text new i j

end EditorSession.Text
