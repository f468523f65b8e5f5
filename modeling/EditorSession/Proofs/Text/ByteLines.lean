import EditorSession.Proofs.Text.Pieces

/-! Offsets and lines on any bytes. An offset is looked for on the line of its place, and found on it
unless a sequence that starts on the line announces more bytes than the line has left: such a
sequence swallows what ends the line, and the columns are counted on into the lines after it. In
well-formed text there is no such sequence. -/

namespace EditorSession.Text

/-! ### Lines of bytes -/

/-- What follows the first line, if something ends it. -/
def nextByteLine? : Bytes → Option Bytes
  | [] => none
  | 13 :: 10 :: rest => some rest
  | b :: rest => if isBreak b then some rest else nextByteLine? rest

/-- The bytes from the start of the line that is `lines` further on. -/
def fromByteLine? (text : Bytes) : Nat → Option Bytes
  | 0 => some text
  | lines + 1 => (nextByteLine? text).bind (fromByteLine? · lines)

/-- The first line, without what ends it. -/
def byteLine (text : Bytes) : Bytes := text.takeWhile fun b => !isBreak b

/-- Read sequence after sequence, a line has fewer bytes left than the last sequence announces. -/
inductive Overruns : Bytes → Prop where
  | here {b : UInt8} {rest : Bytes} (h : (b :: rest).length < Utf8.sequenceLength b) :
      Overruns (b :: rest)
  | later {b : UInt8} {rest : Bytes} (h : Utf8.sequenceLength b ≤ (b :: rest).length)
      (hl : Overruns ((b :: rest).drop (Utf8.sequenceLength b))) : Overruns (b :: rest)

/-- The first line is ended by something, and a sequence on it takes this in. -/
def SwallowsBreak (text : Bytes) : Prop :=
  (nextByteLine? text).isSome ∧ Overruns (byteLine text)

/-! ### Skipping lines -/

theorem endsLine_of_break {b : UInt8} {rest : Bytes} (hb : isBreak b = true)
    (h : ∀ tail, b = 13 → rest = 10 :: tail → False) : endsLine b rest = true := by
  simp only [isBreak, Bool.or_eq_true, beq_iff_eq] at hb
  rcases hb with rfl | rfl
  · rfl
  · have hf : rest.head? ≠ some 10 := by
      intro he
      obtain ⟨tail, rfl⟩ := List.head?_eq_some_iff.mp he
      exact h tail rfl rfl
    simpa [endsLine] using hf

theorem endsLine_of_not_break {b : UInt8} (rest : Bytes) (hb : ¬isBreak b = true) :
    endsLine b rest = false := by
  simp only [isBreak, Bool.or_eq_true, beq_iff_eq, not_or] at hb
  simp [endsLine, hb]

/-- Beyond the last line every place is the end of the text. -/
theorem offsetOf_of_last {text : Bytes} (h : nextByteLine? text = none) (lines column : Nat) :
    offsetOf text ⟨lines + 1, column⟩ = text.length := by
  induction text using nextByteLine?.induct with
  | case1 => rfl
  | case2 rest => cases h
  | case3 b rest hr hb =>
    rw [nextByteLine?, if_pos hb] at h
    · cases h
    · exact hr
  | case4 b rest hr hb ih =>
    rw [nextByteLine?, if_neg hb] at h
    · rw [offsetOf_cons, endsLine_of_not_break rest hb, if_neg Bool.false_ne_true, ih h,
        List.length_cons]
    · exact hr

/-- From the first line on, places are counted from where the next line starts. -/
theorem offsetOf_of_next {text rest : Bytes} (h : nextByteLine? text = some rest) :
    ∃ front, text = front ++ rest ∧ ∀ lines column,
      offsetOf text ⟨lines + 1, column⟩ = offsetOf rest ⟨lines, column⟩ + front.length := by
  induction text using nextByteLine?.induct with
  | case1 => cases h
  | case2 tail =>
    obtain rfl : tail = rest := Option.some.inj h
    refine ⟨[13, 10], rfl, fun lines column => ?_⟩
    exact (offsetOf_cons 13 (10 :: tail) lines column).trans
      (congrArg (· + 1) (offsetOf_cons 10 tail lines column))
  | case3 b tail hr hb =>
    rw [nextByteLine?, if_pos hb, Option.some.injEq] at h
    · subst h
      refine ⟨[b], rfl, fun lines column => ?_⟩
      rw [offsetOf_cons, endsLine_of_break hb hr]
      rfl
    · exact hr
  | case4 b tail hr hb ih =>
    rw [nextByteLine?, if_neg hb] at h
    · obtain ⟨front, rfl, ho⟩ := ih h
      refine ⟨b :: front, rfl, fun lines column => ?_⟩
      rw [offsetOf_cons, endsLine_of_not_break _ hb, if_neg Bool.false_ne_true, ho,
        List.length_cons, Nat.add_assoc]
    · exact hr

theorem offsetOf_of_missing {text : Bytes} {lines : Nat} (h : fromByteLine? text lines = none)
    (further column : Nat) : offsetOf text ⟨lines + further, column⟩ = text.length := by
  induction lines generalizing text with
  | zero => cases h
  | succ lines ih =>
    rw [Nat.add_right_comm]
    cases hn : nextByteLine? text with
    | none => exact offsetOf_of_last hn _ column
    | some rest =>
      rw [fromByteLine?, hn, Option.bind_some] at h
      obtain ⟨front, rfl, ho⟩ := offsetOf_of_next hn
      rw [ho, ih h, List.length_append, Nat.add_comm]

/-- Places from a line on are counted from where the line starts. -/
theorem offsetOf_of_line {text rest : Bytes} {lines : Nat}
    (h : fromByteLine? text lines = some rest) :
    ∃ front, text = front ++ rest ∧ ∀ further column,
      offsetOf text ⟨lines + further, column⟩ = offsetOf rest ⟨further, column⟩ + front.length := by
  induction lines generalizing text with
  | zero =>
    obtain rfl : text = rest := Option.some.inj h
    exact ⟨[], rfl, fun further column => by rw [Nat.zero_add]; rfl⟩
  | succ lines ih =>
    cases hn : nextByteLine? text with
    | none =>
      rw [fromByteLine?, hn] at h
      cases h
    | some next =>
      rw [fromByteLine?, hn, Option.bind_some] at h
      obtain ⟨front, rfl, ho⟩ := offsetOf_of_next hn
      obtain ⟨front', rfl, ho'⟩ := ih h
      refine ⟨front ++ front', (List.append_assoc _ _ _).symm, fun further column => ?_⟩
      rw [Nat.add_right_comm, ho, ho', List.length_append]
      omega

/-! ### Columns of a line -/

/-- A text is its first line and what ends this. -/
theorem exists_byteLine (text : Bytes) :
    ∃ tail, text = byteLine text ++ tail ∧ (∀ b ∈ byteLine text, isBreak b = false) ∧
      ∀ b rest, tail = b :: rest → isBreak b = true := by
  refine ⟨text.dropWhile fun b => !isBreak b, List.takeWhile_append_dropWhile.symm, ?_, ?_⟩
  · intro b hb
    simpa using List.all_eq_true.mp List.all_takeWhile b hb
  · intro b rest ht
    have hd := List.head?_dropWhile_not (fun b => !isBreak b) text
    simpa [ht] using hd

theorem le_columnOffset (text : Bytes) (columns offset : Nat) :
    offset ≤ columnOffset text columns offset := by
  rw [columnOffset_eq_add]
  exact Nat.le_add_left _ _

theorem columnOffset_le_add (text : Bytes) (i n offset : Nat) :
    columnOffset text i offset ≤ columnOffset text (i + n) offset := by
  induction text, i, offset using columnOffset.induct with
  | case1 => rw [columnOffset]; exact le_columnOffset _ _ _
  | case2 i offset b rest hb =>
    rw [columnOffset, if_pos hb]
    exact le_columnOffset _ _ _
  | case3 i offset b rest hb length hl =>
    rw [columnOffset, if_neg hb]
    simp only [if_pos hl, length]
    exact le_columnOffset _ _ _
  | case4 i offset b rest hb length hl ih =>
    obtain ⟨hi, hb'⟩ := not_or.mp hb
    have hn : ¬(i + n = 0 ∨ isBreak b = true) := not_or.mpr ⟨by omega, hb'⟩
    simp only [length] at hl ih
    have hln : ¬i + n < units (sequence b rest).length := by omega
    rw [columnOffset, if_neg hb, columnOffset, if_neg hn]
    simp only [if_neg hl, if_neg hln, Nat.sub_add_comm (Nat.le_of_not_lt hl)]
    exact ih

/-- The further the column, the further the offset. -/
theorem columnOffset_mono (text : Bytes) {i j : Nat} (h : i ≤ j) (offset : Nat) :
    columnOffset text i offset ≤ columnOffset text j offset := by
  obtain ⟨n, rfl⟩ := Nat.exists_eq_add_of_le h
  exact columnOffset_le_add text i n offset

/-- One step on a line: a sequence, or nothing when the column is before its end. -/
theorem columnOffset_cons {b : UInt8} (hb : isBreak b = false) (rest : Bytes) {column : Nat}
    (hc : column ≠ 0) :
    columnOffset (b :: rest) column 0 =
      if column < units (sequence b rest).length then 0
      else columnOffset ((b :: rest).drop (sequence b rest).length)
        (column - units (sequence b rest).length) 0 + (sequence b rest).length := by
  rw [columnOffset, if_neg (by simp [hc, hb])]
  simp only [Nat.zero_add]
  split
  · rfl
  · exact columnOffset_eq_add _ _ _

/-- A sequence that the line has room for is read in full. -/
theorem sequence_length {b : UInt8} {rest : Bytes}
    (h : Utf8.sequenceLength b ≤ (b :: rest).length) (tail : Bytes) :
    (sequence b (rest ++ tail)).length = Utf8.sequenceLength b := by
  simp only [sequence, List.length_take, List.length_cons, List.length_append] at h ⊢
  omega

/-- On a line without a sequence that overruns it, a column is found on the line. -/
theorem columnOffset_le_line {line tail : Bytes} (hl : ∀ b ∈ line, isBreak b = false)
    (ht : ∀ b rest, tail = b :: rest → isBreak b = true) (hn : ¬Overruns line) (column : Nat) :
    columnOffset (line ++ tail) column 0 ≤ line.length := by
  match line with
  | [] =>
    cases tail with
    | nil => exact columnOffset_le [] column 0
    | cons b rest => exact Nat.le_of_eq (columnOffset_break (ht b rest rfl) rest column 0)
  | b :: rest =>
    by_cases hc : column = 0
    · rw [hc, columnOffset_zero]
      exact Nat.zero_le _
    · have hroom : Utf8.sequenceLength b ≤ (b :: rest).length :=
        Nat.le_of_not_lt fun h => hn (.here h)
      have hrec := columnOffset_le_line (fun b' hb' => hl b' (List.mem_of_mem_drop hb')) ht
        (fun h => hn (.later hroom h)) (column - units (Utf8.sequenceLength b))
      rw [List.length_drop] at hrec
      rw [List.cons_append, columnOffset_cons (hl b List.mem_cons_self) _ hc,
        sequence_length hroom, ← List.cons_append, List.drop_append_of_le_length hroom]
      split <;> omega
termination_by line.length
decreasing_by
  have hpos := Utf8.sequenceLength_pos b
  simp only [List.length_drop, List.length_cons]
  omega

/-- A sequence that overruns its line leads beyond the line. -/
theorem Overruns.exists_lt {line tail : Bytes} (h : Overruns line)
    (hl : ∀ b ∈ line, isBreak b = false) (ht : tail ≠ []) :
    ∃ column, line.length < columnOffset (line ++ tail) column 0 := by
  induction h with
  | @here b rest h =>
    refine ⟨2, ?_⟩
    have hlen : (b :: rest).length < (sequence b (rest ++ tail)).length := by
      have htail := List.length_pos_iff.mpr ht
      simp only [sequence, List.length_take, List.length_cons, List.length_append] at h ⊢
      omega
    have hu : ¬2 < units (sequence b (rest ++ tail)).length := by
      rw [units]
      split <;> omega
    rw [List.cons_append, columnOffset_cons (hl b List.mem_cons_self) _ (by decide), if_neg hu]
    omega
  | @later b rest h _ ih =>
    obtain ⟨column, hc⟩ := ih fun b hb => hl b (List.mem_of_mem_drop hb)
    have hpos : 0 < units (Utf8.sequenceLength b) := by
      rw [units]
      split <;> omega
    refine ⟨units (Utf8.sequenceLength b) + column, ?_⟩
    rw [List.cons_append, columnOffset_cons (hl b List.mem_cons_self) _ (by omega),
      sequence_length h, if_neg (by omega), Nat.add_sub_cancel_left, ← List.cons_append,
      List.drop_append_of_le_length h]
    rw [List.length_drop] at hc
    omega

/-! ### Well-formed lines -/

theorem not_overruns_utf8 (text : List Char) : ¬Overruns (utf8 text) := by
  induction text with
  | nil => exact fun h => nomatch h
  | cons c text ih =>
    obtain ⟨lead, tail, h⟩ := exists_encoded c
    have hd : ((lead :: tail) ++ utf8 text).drop (tail.length + 1) = utf8 text := List.drop_left
    rw [utf8_cons, h.bytes, List.cons_append]
    intro ho
    cases ho with
    | here hlt =>
      rw [h.announced, List.length_cons, List.length_append] at hlt
      omega
    | later hle hl =>
      rw [h.announced, ← List.cons_append, hd] at hl
      exact ih hl

theorem exists_byteLine_utf8 (text : List Char) : ∃ line, byteLine (utf8 text) = utf8 line := by
  induction text with
  | nil => exact ⟨[], rfl⟩
  | cons c text ih =>
    by_cases hc : c = '\n' ∨ c = '\r'
    · rcases hc with rfl | rfl <;> exact ⟨[], rfl⟩
    · obtain ⟨hn, hr⟩ := not_or.mp hc
      obtain ⟨line, hl⟩ := ih
      refine ⟨c :: line, ?_⟩
      rw [utf8_cons, utf8_cons, ← hl, byteLine, byteLine,
        List.takeWhile_append_of_pos fun b hb => by simp [not_isBreak_utf8 hn hr b hb]]

theorem nextByteLine?_append {bytes : Bytes} (hb : ∀ b ∈ bytes, isBreak b = false)
    (rest : Bytes) : nextByteLine? (bytes ++ rest) = nextByteLine? rest := by
  induction bytes with
  | nil => rfl
  | cons b bytes ih =>
    obtain ⟨h, hb⟩ := List.forall_mem_cons.mp hb
    rw [List.cons_append, nextByteLine?, if_neg (by simp [h]), ih hb]
    rintro tail rfl -
    cases h

theorem nextByteLine?_of_endsLine {b : UInt8} {rest : Bytes} (h : endsLine b rest = true) :
    nextByteLine? (b :: rest) = some rest := by
  have hb : isBreak b = true := by
    simp only [endsLine, Bool.or_eq_true, Bool.and_eq_true] at h
    simp only [isBreak, Bool.or_eq_true]
    exact h.imp id And.left
  rw [nextByteLine?, if_pos hb]
  rintro tail rfl rfl
  cases h

theorem nextByteLine?_break {b : UInt8} (hb : isBreak b = true) (rest : Bytes) :
    (nextByteLine? (b :: rest)).isSome := by
  by_cases he : endsLine b rest = true
  · rw [nextByteLine?_of_endsLine he]
    rfl
  · by_cases hf : ∃ tail, rest = 10 :: tail
    · obtain ⟨tail, rfl⟩ := hf
      simp only [isBreak, Bool.or_eq_true, beq_iff_eq] at hb
      rcases hb with rfl | rfl <;> rfl
    · exact absurd (endsLine_of_break hb fun tail _ ht => hf ⟨tail, ht⟩) he

/-- The lines of a well-formed text are well formed. -/
theorem nextByteLine?_utf8 {text : List Char} {rest : Bytes}
    (h : nextByteLine? (utf8 text) = some rest) : ∃ tail, rest = utf8 tail := by
  induction text using pieceInduction with
  | nil => cases h
  | piece front here tail hp ih =>
    cases hp with
    | feed => exact ⟨tail, (Option.some.inj h).symm⟩
    | both => exact ⟨tail, (Option.some.inj h).symm⟩
    | carriage hf =>
      have he : endsLine 13 (utf8 tail) = true := by
        simpa [endsLine, head?_utf8_eq_feed_iff] using hf
      have hn := nextByteLine?_of_endsLine he
      exact ⟨tail, Option.some.inj (h.symm.trans hn)⟩
    | char c hn hr =>
      have hc : utf8 [c] = String.utf8EncodeChar c := List.append_nil _
      rw [utf8_append, hc, nextByteLine?_append (not_isBreak_utf8 hn hr)] at h
      exact ih h

theorem fromByteLine?_utf8 {text : List Char} {lines : Nat} {rest : Bytes}
    (h : fromByteLine? (utf8 text) lines = some rest) : ∃ tail, rest = utf8 tail := by
  induction lines generalizing text with
  | zero => exact ⟨text, (Option.some.inj h).symm⟩
  | succ lines ih =>
    cases hn : nextByteLine? (utf8 text) with
    | none =>
      rw [fromByteLine?, hn] at h
      cases h
    | some next =>
      obtain ⟨tail, rfl⟩ := nextByteLine?_utf8 hn
      rw [fromByteLine?, hn] at h
      exact ih h

/-! ### Offsets on their lines -/

theorem columnOffset_le_byteLine {text : Bytes} (h : ¬SwallowsBreak text) (column : Nat) :
    columnOffset text column 0 ≤ (byteLine text).length := by
  obtain ⟨tail, htext, hl, ht⟩ := exists_byteLine text
  rw [SwallowsBreak, not_and] at h
  cases tail with
  | nil =>
    -- nothing ends the line, and a sequence is cut at the end of the text
    rw [List.append_nil] at htext
    rw [← htext]
    exact columnOffset_le text column 0
  | cons b rest =>
    have hs : (nextByteLine? text).isSome := by
      rw [htext, nextByteLine?_append hl]
      exact nextByteLine?_break (ht b rest rfl) rest
    have hc := columnOffset_le_line hl ht (h hs) column
    rwa [← htext] at hc

theorem SwallowsBreak.exists_lt {text : Bytes} (h : SwallowsBreak text) :
    ∃ column, (byteLine text).length < columnOffset text column 0 := by
  obtain ⟨tail, htext, hl, -⟩ := exists_byteLine text
  have htail : tail ≠ [] := by
    rintro rfl
    have hn := h.1
    rw [htext, nextByteLine?_append hl] at hn
    cases hn
  obtain ⟨column, hc⟩ := h.2.exists_lt hl htail
  rw [← htext] at hc
  exact ⟨column, hc⟩

/-- A later line starts behind what is on the first. -/
theorem byteLine_le_offsetOf (text : Bytes) (lines column : Nat) :
    (byteLine text).length ≤ offsetOf text ⟨lines + 1, column⟩ := by
  obtain ⟨tail, htext, hl, -⟩ := exists_byteLine text
  have ho := offsetOf_append hl tail lines column
  rw [← htext] at ho
  rw [ho]
  exact Nat.le_add_left _ _

/-- The offset is on the line of a place: not before its first byte and not behind what ends it. It is
the end of the text when there is no such line. -/
def OnLine (text : Bytes) (place : Place) (offset : Nat) : Prop :=
  match fromByteLine? text place.line with
  | none => offset = text.length
  | some rest =>
    text.length - rest.length ≤ offset ∧
      offset ≤ text.length - rest.length + (byteLine rest).length

/-- The line of a place is ended by something that a sequence on it takes in. -/
def Place.Swallowed (text : Bytes) (place : Place) : Prop :=
  ∃ rest, fromByteLine? text place.line = some rest ∧ SwallowsBreak rest

/-- Not behind another place, by line and then by column. -/
def Place.UpTo (p q : Place) : Prop := p.line < q.line ∨ p.line = q.line ∧ p.column ≤ q.column

/-- On its line a place is a column, counted from where the line starts. -/
theorem offsetOf_of_found {text rest : Bytes} {place : Place}
    (h : fromByteLine? text place.line = some rest) :
    offsetOf text place = columnOffset rest place.column 0 + (text.length - rest.length) := by
  obtain ⟨front, rfl, ho⟩ := offsetOf_of_line h
  rw [List.length_append, Nat.add_sub_cancel, ← offsetOf_zero]
  exact ho 0 place.column

theorem offsetOf_onLine {text : Bytes} {place : Place} (h : ¬place.Swallowed text) :
    OnLine text place (offsetOf text place) := by
  rw [OnLine]
  cases hf : fromByteLine? text place.line with
  | none => exact offsetOf_of_missing hf 0 place.column
  | some rest =>
    have hc := columnOffset_le_byteLine (fun hs => h ⟨rest, hf, hs⟩) place.column
    rw [offsetOf_of_found hf]
    dsimp only
    omega

theorem Place.Swallowed.exists_not_onLine {text : Bytes} {place : Place}
    (h : place.Swallowed text) :
    ∃ column, ¬OnLine text ⟨place.line, column⟩ (offsetOf text ⟨place.line, column⟩) := by
  obtain ⟨rest, hf, hs⟩ := h
  obtain ⟨column, hc⟩ := hs.exists_lt
  refine ⟨column, ?_⟩
  have ho := @offsetOf_of_found text rest ⟨place.line, column⟩ hf
  rw [OnLine]
  dsimp only at ho ⊢
  rw [hf, ho]
  dsimp only
  omega

theorem offsetOf_mono {text : Bytes} {p q : Place} (h : p.UpTo q)
    (hs : p.line = q.line ∨ ¬p.Swallowed text) : offsetOf text p ≤ offsetOf text q := by
  obtain ⟨line, column⟩ := p
  obtain ⟨line', column'⟩ := q
  simp only [Place.UpTo] at h hs
  cases hf : fromByteLine? text line with
  | none =>
    -- no line follows one that is missing
    have hle : line ≤ line' := by omega
    obtain ⟨further, rfl⟩ := Nat.exists_eq_add_of_le hle
    rw [offsetOf_of_missing hf further column']
    exact offsetOf_le text _
  | some rest =>
    rcases h with hlt | ⟨rfl, hle⟩
    · obtain ⟨further, rfl⟩ := Nat.exists_eq_add_of_lt hlt
      have hs := hs.resolve_left (Nat.ne_of_lt hlt)
      have hline := columnOffset_le_byteLine (fun h => hs ⟨rest, hf, h⟩) column
      have hnext := byteLine_le_offsetOf rest further column'
      obtain ⟨front, rfl, ho⟩ := offsetOf_of_line hf
      have hp := ho 0 column
      rw [Nat.add_zero, offsetOf_zero] at hp
      rw [hp, Nat.add_assoc, ho]
      exact Nat.add_le_add_right (Nat.le_trans hline hnext) _
    · rw [offsetOf_of_found hf, offsetOf_of_found hf]
      exact Nat.add_le_add_right (columnOffset_mono rest hle 0) _

theorem Place.not_swallowed_utf8 (text : List Char) (place : Place) :
    ¬place.Swallowed (utf8 text) := by
  rintro ⟨rest, hf, -, ho⟩
  obtain ⟨tail, rfl⟩ := fromByteLine?_utf8 hf
  obtain ⟨line, hl⟩ := exists_byteLine_utf8 tail
  rw [hl] at ho
  exact not_overruns_utf8 line ho

/-- What offsets promise of the lines of a text. -/
structure KeepsToLines (text : Bytes) : Prop where
  onLine : ∀ p : Lsp.Position, ¬Place.Swallowed text (.ofPosition p) →
    OnLine text (.ofPosition p) (offsetAt text p)
  notBefore : ∀ p rest, fromByteLine? text (Place.ofPosition p).line = some rest →
    text.length - rest.length ≤ offsetAt text p
  leaves : ∀ place : Place, place.Swallowed text →
    ∃ column, ¬OnLine text ⟨place.line, column⟩ (offsetOf text ⟨place.line, column⟩)
  monotone : ∀ p q, (Place.ofPosition p).UpTo (.ofPosition q) →
    (Place.ofPosition p).line = (Place.ofPosition q).line ∨
      ¬(Place.ofPosition p).Swallowed text →
    offsetAt text p ≤ offsetAt text q
  wellFormed : ∀ characters, text = utf8 characters → ∀ place : Place, ¬place.Swallowed text

/-- Offsets keep to the lines of their places, on any bytes, as far as nothing swallows the end of a
line. -/
theorem keepsToLines (text : Bytes) : KeepsToLines text where
  onLine := fun _ h => offsetOf_onLine h
  notBefore := by
    intro p rest hf
    rw [offsetAt, offsetOf_of_found hf]
    exact Nat.le_add_left _ _
  leaves := fun _ h => h.exists_not_onLine
  monotone := fun _ _ h hs => offsetOf_mono h hs
  wellFormed := by
    rintro characters rfl
    exact Place.not_swallowed_utf8 characters

/-- The first byte announces a sequence of three, and takes in the line feed and the byte after it. -/
def malformedText : Bytes := [0xE2, 0x0A, 0x41]

/-- So column one of the first line is found behind the start of the second. -/
theorem offsetAt_malformedText :
    ¬OnLine malformedText (.ofPosition ⟨0, 1⟩) (offsetAt malformedText ⟨0, 1⟩) ∧
      offsetAt malformedText ⟨1, 0⟩ < offsetAt malformedText ⟨0, 1⟩ := by
  have hfirst : offsetAt malformedText ⟨0, 1⟩ = 3 := by
    show columnOffset malformedText 1 0 = 3
    rw [malformedText, columnOffset_cons rfl _ (by decide)]
    exact congrArg (· + 3) (columnOffset_zero [] 0)
  have hsecond : offsetAt malformedText ⟨1, 0⟩ = 2 := columnOffset_zero [0x41] 2
  rw [hfirst, hsecond]
  exact ⟨fun h => absurd h.2 (by decide), by decide⟩

end EditorSession.Text
