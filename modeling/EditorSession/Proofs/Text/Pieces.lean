import EditorSession.Proofs.Text.Places
import EditorSession.Proofs.Text.Scanning

/-! The pieces in which a text is read. Whatever looks for an offset or for a place reads what ends a
line at once, and every other character at once, so beyond a piece it goes on as it would from the
start of the rest. -/

namespace EditorSession.Text

/-- What is read at once from the start of a text, as far as `rest`, and where this leads to: the end
of a line to the next line, another character to a column further on. -/
inductive Piece (rest : List Char) : List Char → Place → Prop where
  | feed : Piece rest ['\n'] ⟨1, 0⟩
  | both : Piece rest ['\r', '\n'] ⟨1, 0⟩
  | carriage (h : ∀ tail, rest ≠ '\n' :: tail) : Piece rest ['\r'] ⟨1, 0⟩
  | char (c : Char) (hn : c ≠ '\n') (hr : c ≠ '\r') : Piece rest [c] ⟨0, (codeUnits c).length⟩

/-- A text is read piece by piece. -/
@[elab_as_elim]
theorem pieceInduction {motive : List Char → Prop} (nil : motive [])
    (piece : ∀ front here rest, Piece rest front here → motive rest → motive (front ++ rest)) :
    ∀ text, motive text
  | [] => nil
  | c :: text => by
    by_cases hn : c = '\n'
    · subst hn
      exact piece ['\n'] _ text .feed (pieceInduction nil piece text)
    · by_cases hr : c = '\r'
      · subst hr
        by_cases hf : ∃ rest, text = '\n' :: rest
        · obtain ⟨rest, rfl⟩ := hf
          exact piece ['\r', '\n'] _ rest .both (pieceInduction nil piece rest)
        · exact piece ['\r'] _ text (.carriage (by simpa using hf)) (pieceInduction nil piece text)
      · exact piece [c] _ text (.char c hn hr) (pieceInduction nil piece text)

theorem codeUnits_length_pos (c : Char) : 0 < (codeUnits c).length := by
  rw [length_codeUnits]
  split <;> omega

namespace Piece

variable {front rest : List Char} {here : Place}

/-- The offset of a place beyond a piece. -/
theorem offsetOf_after (h : Piece rest front here) (place : Place) :
    offsetOf (utf8 (front ++ rest)) (place.after here) =
      offsetOf (utf8 rest) place + (utf8 front).length := by
  cases h with
  | feed =>
    rw [Place.after_nextLine]
    exact offsetOf_cons 10 (utf8 rest) place.line place.column
  | both =>
    rw [Place.after_nextLine]
    exact (offsetOf_cons 13 (10 :: utf8 rest) place.line place.column).trans
      (congrArg (· + 1) (offsetOf_cons 10 (utf8 rest) place.line place.column))
  | carriage h =>
    have he : endsLine 13 (utf8 rest) = true := by
      simpa [endsLine, head?_utf8_eq_feed_iff] using h
    have hc := offsetOf_cons 13 (utf8 rest) place.line place.column
    rw [he] at hc
    rw [Place.after_nextLine]
    exact hc
  | char c hn hr =>
    have hc : utf8 [c] = String.utf8EncodeChar c := List.append_nil _
    rw [utf8_append, hc]
    obtain ⟨line, column⟩ := place
    cases line with
    | succ line =>
      simpa [Place.after] using offsetOf_append (not_isBreak_utf8 hn hr) (utf8 rest) line column
    | zero =>
      have hu := Nat.ne_of_gt (Nat.add_pos_left (codeUnits_length_pos c) column)
      have hw : ¬(codeUnits c).length + column < (codeUnits c).length := by omega
      have hs := columnOffset_utf8EncodeChar hn hr (utf8 rest) hu 0
      rw [if_neg hw, Nat.add_sub_cancel_left, Nat.zero_add, columnOffset_eq_add _ _ (List.length _)] at hs
      simpa [Place.after, offsetOf_zero] using hs

/-- The place of an offset beyond a piece. -/
theorem placeFrom_add (h : Piece rest front here) (n : Nat) :
    placeFrom (utf8 (front ++ rest)) (n + (utf8 front).length) {} =
      (placeFrom (utf8 rest) n {}).after here := by
  rw [← placeFrom_eq_after]
  cases h with
  | feed => exact placeFrom_break rfl (by simp) n {}
  | both => exact placeFrom_both (utf8 rest) n {}
  | carriage h =>
    have hf : (utf8 rest).head? ≠ some 10 := by simpa [head?_utf8_eq_feed_iff] using h
    exact placeFrom_break rfl (fun hc => hf hc.2) n {}
  | char c hn hr =>
    obtain ⟨lead, tail, h⟩ := exists_encoded c
    have hb : isBreak lead = false := not_isBreak_utf8 hn hr lead (by simp [h.bytes])
    have h13 : ¬(lead = 13 ∧ (tail ++ utf8 rest).head? = some 10) := by
      rintro ⟨rfl, -⟩
      cases hb
    have hc : utf8 [c] = lead :: tail := by rw [← h.bytes]; exact List.append_nil _
    have hd : ((lead :: tail) ++ utf8 rest).drop (tail.length + 1) = utf8 rest := List.drop_left
    rw [utf8_append, hc, List.cons_append, placeFrom, if_neg (by simp), if_neg h13,
      if_neg (by simp [hb])]
    simp only [sequence_append h, List.length_cons, Nat.add_sub_cancel, h.width, Nat.zero_add]
    rw [← List.cons_append, hd]

end Piece

end EditorSession.Text
