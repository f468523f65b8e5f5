import EditorSession.Proofs.Frame.Decoding
import Mathlib.Data.List.TakeWhile

/-! The form of a header, said without reading it: where it ends, what its lines are, and which of
them give a content length. Each reader finds exactly what has the form. -/

namespace EditorSession.Frame

/-- The header of a buffer ends at the first terminator; `rest` follows it. -/
structure HeaderOf (s header rest : Bytes) : Prop where
  split : s = header ++ terminator ++ rest
  first : ∀ before after, s = before ++ terminator ++ after → header.length ≤ before.length

/-- What stands between two lines of a header. -/
def lineBreak : Bytes := ascii "\r\n"

/-- A header has these lines. -/
inductive Lines : Bytes → List Bytes → Prop where
  | last {line} (h : ¬lineBreak <:+: line) : Lines line [line]
  | cons {line rest lines} (h : ¬lineBreak <:+: line) (hr : Lines rest lines) :
      Lines (line ++ lineBreak ++ rest) (line :: lines)

/-- `t` is `s` without the blanks at its ends. -/
structure Trimmed (s t : Bytes) : Prop where
  blanks : ∃ before after, s = before ++ t ++ after ∧
    (∀ b ∈ before, Bytes.isBlank b = true) ∧ ∀ b ∈ after, Bytes.isBlank b = true
  head : ∀ b, t.head? = some b → Bytes.isBlank b = false
  last : ∀ b, t.getLast? = some b → Bytes.isBlank b = false

/-- A line is a length field: the name before its first colon is "content-length" in any case, and the
rest is the value, both with blanks around them. -/
def LengthField (line value : Bytes) : Prop :=
  ∃ name text key, line = name ++ 58 :: text ∧ 58 ∉ name ∧ Trimmed name key ∧
    Bytes.lower key = ascii "content-length" ∧ Trimmed text value

/-! ### Where a header ends -/

section

variable {s header rest : Bytes}

theorem length_terminator : terminator.length = 4 := rfl

theorem HeaderOf.length_eq (h : HeaderOf s header rest) :
    s.length = header.length + 4 + rest.length := by
  rw [h.split, List.length_append, List.length_append, length_terminator]

theorem HeaderOf.take_eq (h : HeaderOf s header rest) : s.take header.length = header := by
  rw [h.split, List.append_assoc, List.take_left]

theorem HeaderOf.drop_eq (h : HeaderOf s header rest) : s.drop (header.length + 4) = rest := by
  rw [h.split]
  exact List.drop_left' (by rw [List.length_append, length_terminator])

theorem HeaderOf.unique {header' rest' : Bytes} (h : HeaderOf s header rest)
    (h' : HeaderOf s header' rest') : header = header' ∧ rest = rest' := by
  have hl : header.length = header'.length :=
    Nat.le_antisymm (h.first _ _ h'.split) (h'.first _ _ h.split)
  exact ⟨by rw [← h.take_eq, hl, h'.take_eq], by rw [← h.drop_eq, hl, h'.drop_eq]⟩

theorem exists_headerOf {offset n : Nat} (h : headerEnd? s offset = some n) :
    ∃ header rest, n = offset + header.length ∧ HeaderOf s header rest := by
  induction s generalizing offset with
  | nil => cases h
  | cons b s ih =>
    rw [headerEnd?] at h
    split at h
    case isTrue hp =>
      obtain ⟨rest, hr⟩ := List.isPrefixOf_iff_prefix.mp hp
      obtain rfl := Option.some.inj h
      exact ⟨[], rest, rfl, hr.symm, fun _ _ _ => Nat.zero_le _⟩
    case isFalse hp =>
      obtain ⟨header, rest, rfl, hh⟩ := ih h
      refine ⟨b :: header, rest, by rw [List.length_cons]; omega, congrArg (b :: ·) hh.split, ?_⟩
      intro before after hs
      cases before with
      | nil => exact absurd (List.isPrefixOf_iff_prefix.mpr ⟨after, hs.symm⟩) hp
      | cons c before => exact Nat.succ_le_succ (hh.first before after (List.cons.inj hs).2)

theorem headerEnd?_ne_none (before after : Bytes) (offset : Nat) :
    headerEnd? (before ++ terminator ++ after) offset ≠ none := by
  induction before generalizing offset with
  | nil => exact Option.some_ne_none offset
  | cons b before ih =>
    rw [List.cons_append, List.cons_append, headerEnd?]
    split
    · exact Option.some_ne_none offset
    · exact ih (offset + 1)

/-- The reader finds the header, and nothing else. -/
theorem headerEnd?_eq_some_iff {n : Nat} :
    headerEnd? s 0 = some n ↔ ∃ header rest, n = header.length ∧ HeaderOf s header rest := by
  constructor
  · intro h
    simpa using exists_headerOf h
  · rintro ⟨header, rest, rfl, h⟩
    cases he : headerEnd? s 0 with
    | none => exact absurd (h.split ▸ he) (headerEnd?_ne_none header rest 0)
    | some m =>
      obtain ⟨header', rest', rfl, h'⟩ := exists_headerOf he
      rw [(h.unique h').1, Nat.zero_add]

end

/-! ### Lines -/

theorem not_break_of_cons {b : UInt8} {line : Bytes} (h : ¬lineBreak <:+: b :: line) :
    ¬lineBreak <:+: line := fun hl => h (List.infix_cons hl)

/-- A line without a break in it does not start with one, whatever follows the line. -/
theorem not_break_head {b : UInt8} {line more : Bytes} (h : ¬lineBreak <:+: b :: line)
    (hm : more.head? ≠ some 10) : ¬(b = 13 ∧ (line ++ more).head? = some 10) := by
  rintro ⟨rfl, hb⟩
  cases line with
  | nil => exact hm hb
  | cons c line =>
    obtain rfl : c = 10 := Option.some.inj hb
    exact h (List.prefix_append lineBreak line).isInfix

theorem headerLines_last {line : Bytes} (h : ¬lineBreak <:+: line) (front : Bytes) :
    headerLines line front = [front.reverse ++ line] := by
  induction line generalizing front with
  | nil => simp [headerLines]
  | cons b line ih =>
    have hb := not_break_head h (show ([] : Bytes).head? ≠ some 10 by decide)
    rw [List.append_nil] at hb
    rw [headerLines, if_neg hb, ih (not_break_of_cons h), List.reverse_cons, List.append_assoc,
      List.singleton_append]

theorem headerLines_cons {line : Bytes} (h : ¬lineBreak <:+: line) (rest front : Bytes) :
    headerLines (line ++ lineBreak ++ rest) front =
      (front.reverse ++ line) :: headerLines rest [] := by
  induction line generalizing front with
  | nil =>
    rw [List.nil_append, List.append_nil]
    exact headerLines.eq_2 .. |>.trans (if_pos ⟨rfl, rfl⟩)
  | cons b line ih =>
    have hm : (lineBreak ++ rest).head? ≠ some 10 := show some 13 ≠ some (10 : UInt8) by decide
    have hb := not_break_head h hm
    rw [List.cons_append, List.cons_append, headerLines, List.append_assoc, if_neg hb,
      ← List.append_assoc, ih (not_break_of_cons h), List.reverse_cons, List.append_assoc,
      List.singleton_append]

theorem Lines.headerLines_eq {header : Bytes} {lines : List Bytes} (h : Lines header lines) :
    headerLines header [] = lines := by
  induction h with
  | last h => exact headerLines_last h []
  | cons h _ ih => rw [headerLines_cons h, ih, List.reverse_nil, List.nil_append]

theorem not_break_cons {b : UInt8} {line more : Bytes} (h : ¬lineBreak <:+: line)
    (hb : ¬(b = 13 ∧ (line ++ more).head? = some 10)) : ¬lineBreak <:+: b :: line := by
  intro hl
  rcases List.infix_cons_iff.mp hl with ⟨after, hp⟩ | hl
  · obtain ⟨rfl, rfl⟩ := List.cons.inj hp
    exact hb ⟨rfl, rfl⟩
  · exact h hl

theorem exists_lines (header : Bytes) : ∃ lines, Lines header lines := by
  induction hn : header.length using Nat.strongRecOn generalizing header with
  | ind n ih =>
    subst hn
    cases header with
    | nil => exact ⟨[[]], .last (by decide)⟩
    | cons b header =>
      by_cases hb : b = 13 ∧ header.head? = some 10
      · obtain ⟨rfl, hh⟩ := hb
        obtain ⟨header, rfl⟩ := List.head?_eq_some_iff.mp hh
        obtain ⟨lines, hl⟩ := ih header.length (Nat.lt_add_of_pos_right Nat.two_pos) header rfl
        exact ⟨[] :: lines, .cons (show ¬lineBreak <:+: [] by decide) hl⟩
      · obtain ⟨lines, hl⟩ := ih header.length (Nat.lt_succ_self _) header rfl
        cases hl with
        | last h => exact ⟨[b :: header], .last (not_break_cons h (by rwa [List.append_nil]))⟩
        | @cons line rest lines h hr =>
          rw [List.append_assoc] at hb
          exact ⟨(b :: line) :: lines, .cons (not_break_cons h hb) hr⟩

/-- The lines that are read are the lines of the header. -/
theorem lines_iff {header : Bytes} {lines : List Bytes} :
    Lines header lines ↔ headerLines header [] = lines := by
  refine ⟨Lines.headerLines_eq, ?_⟩
  rintro rfl
  obtain ⟨lines, h⟩ := exists_lines header
  rwa [h.headerLines_eq]

/-! ### Fields -/

theorem Trimmed.trim_eq {s t : Bytes} (h : Trimmed s t) : Bytes.trim s = t := by
  obtain ⟨before, after, rfl, hb, ha⟩ := h.blanks
  rw [Bytes.trim, List.append_assoc, List.dropWhile_append_of_pos hb]
  cases t with
  | nil =>
    have hd : after.dropWhile Bytes.isBlank = [] := List.dropWhile_eq_nil_iff.mpr ha
    simp [hd]
  | cons c t =>
    have hc : ¬Bytes.isBlank c = true := Bool.eq_false_iff.mp (h.head c rfl)
    rw [List.cons_append, List.dropWhile_cons_of_neg hc, ← List.cons_append, List.reverse_append,
      List.dropWhile_append_of_pos fun b hm => ha b (List.mem_reverse.mp hm)]
    have hl := h.last
    rw [← List.head?_reverse] at hl
    cases hr : (c :: t).reverse with
    | nil => simp at hr
    | cons d u =>
      have hd : ¬Bytes.isBlank d = true := Bool.eq_false_iff.mp (hl d (by rw [hr]; rfl))
      rw [List.dropWhile_cons_of_neg hd, ← hr, List.reverse_reverse]

theorem isBlank_of_mem_takeWhile {s : Bytes} {b : UInt8} (h : b ∈ s.takeWhile Bytes.isBlank) :
    Bytes.isBlank b = true :=
  List.all_eq_true.mp List.all_takeWhile b h

theorem isBlank_head?_dropWhile {s : Bytes} {b : UInt8}
    (h : (s.dropWhile Bytes.isBlank).head? = some b) : Bytes.isBlank b = false := by
  have hn := List.head?_dropWhile_not Bytes.isBlank s
  rw [h] at hn
  exact hn

theorem trimmed_trim (s : Bytes) : Trimmed s (Bytes.trim s) := by
  -- What is left in front of the blanks at the end, and these blanks.
  have hu : s.dropWhile Bytes.isBlank = Bytes.trim s ++
      ((s.dropWhile Bytes.isBlank).reverse.takeWhile Bytes.isBlank).reverse := by
    rw [Bytes.trim, ← List.reverse_append, List.takeWhile_append_dropWhile, List.reverse_reverse]
  generalize he : ((s.dropWhile Bytes.isBlank).reverse.takeWhile Bytes.isBlank).reverse = blanks at hu
  have hb : ∀ b ∈ blanks, Bytes.isBlank b = true := fun b hb =>
    isBlank_of_mem_takeWhile (List.mem_reverse.mp (he ▸ hb))
  refine ⟨⟨s.takeWhile Bytes.isBlank, blanks, ?_, fun _ => isBlank_of_mem_takeWhile, hb⟩,
    fun b hb => ?_, fun b hb => ?_⟩
  · rw [List.append_assoc, ← hu, List.takeWhile_append_dropWhile]
  · refine @isBlank_head?_dropWhile s b ?_
    rw [hu, List.head?_append, hb]
    rfl
  · rw [Bytes.trim, List.getLast?_reverse] at hb
    exact isBlank_head?_dropWhile hb

theorem exists_of_splitOnce {sep : UInt8} {s front back : Bytes}
    (h : Bytes.splitOnce sep s = some (front, back)) : s = front ++ sep :: back ∧ sep ∉ front := by
  induction s generalizing front with
  | nil => cases h
  | cons b s ih =>
    rw [Bytes.splitOnce] at h
    split at h
    case isTrue hb =>
      obtain ⟨rfl, rfl⟩ := Prod.mk.inj (Option.some.inj h)
      exact ⟨by rw [hb, List.nil_append], List.not_mem_nil⟩
    case isFalse hb =>
      obtain ⟨⟨front', back'⟩, hs, he⟩ := Option.map_eq_some_iff.mp h
      obtain ⟨rfl, rfl⟩ := Prod.mk.inj he
      obtain ⟨rfl, hf⟩ := ih hs
      exact ⟨rfl, by simpa [hf] using Ne.symm hb⟩

/-- The value that is read of a line is the value of a length field. -/
theorem lengthField?_eq_some_iff {line value : Bytes} :
    lengthField? line = some value ↔ LengthField line value := by
  constructor
  · intro h
    unfold lengthField? at h
    split at h
    case h_1 name text hs =>
      split at h
      case isTrue hn =>
        obtain rfl := Option.some.inj h
        obtain ⟨rfl, hname⟩ := exists_of_splitOnce hs
        exact ⟨name, text, _, rfl, hname, trimmed_trim name, hn, trimmed_trim text⟩
      case isFalse => cases h
    case h_2 => cases h
  · rintro ⟨name, text, key, rfl, hname, hk, hl, hv⟩
    rw [lengthField?, splitOnce_append hname]
    simp only [hk.trim_eq, hl, hv.trim_eq, ↓reduceIte]

end EditorSession.Frame
