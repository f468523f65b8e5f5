import EditorSession.Proofs.Json.RoundTrip
import EditorSession.Proofs.Text.CodeUnits

/-! Escapes as UTF-16. A string token of well-formed text is read off as a run of code units: a
character that stands for itself gives its own, and a unicode escape gives the one it spells. What the
token denotes is the text of these units, where a surrogate that is no half of a pair is replaced. So
it does not matter which of its characters are escaped, nor in which case the digits are written. -/

namespace EditorSession

namespace Text

/-! ### The text of code units -/

/-- The character of a code unit on its own. A surrogate is no character and is replaced. -/
def unitChar (u : UInt16) : Char := if isHigh u || isLow u then '\uFFFD' else Char.ofNat u.toNat

/-- The character of a surrogate pair. -/
def pairChar (high low : UInt16) : Char :=
  Char.ofNat (0x10000 + (high.toNat - 0xD800) * 0x400 + (low.toNat - 0xDC00))

/-- The text that code units stand for, whatever they are. -/
def ofUtf16 : List UInt16 → List Char
  | [] => []
  | [u] => [unitChar u]
  | u :: v :: rest =>
    if isHigh u && isLow v then pairChar u v :: ofUtf16 rest else unitChar u :: ofUtf16 (v :: rest)

/-- No low surrogate comes first. -/
def Begun (units : List UInt16) : Prop := ∀ u ∈ units.head?, isLow u = false

theorem ofUtf16_cons {u : UInt16} {units : List UInt16} (h : isHigh u = true → Begun units) :
    ofUtf16 (u :: units) = unitChar u :: ofUtf16 units := by
  cases units with
  | nil => rfl
  | cons v rest =>
    rw [ofUtf16, if_neg]
    intro hp
    rw [Bool.and_eq_true] at hp
    have hv := h hp.1 v rfl
    rw [hp.2] at hv
    cases hv

theorem ofUtf16_pair {high low : UInt16} (hh : isHigh high = true) (hl : isLow low = true)
    (rest : List UInt16) :
    ofUtf16 (high :: low :: rest) = pairChar high low :: ofUtf16 rest := by
  rw [ofUtf16, if_pos (by rw [hh, hl]; rfl)]

theorem isLow_of_isHigh {u : UInt16} (h : isHigh u = true) : isLow u = false := by
  simp only [isHigh, Bool.and_eq_true, decide_eq_true_eq] at h
  simp only [isLow, Bool.and_eq_false_iff, decide_eq_false_iff_not]
  omega

theorem begun_codeUnits (c : Char) (units : List UInt16) : Begun (codeUnits c ++ units) := by
  intro u hu
  cases units_cases c with
  | single v hv _ hl _ _ =>
    rw [hv] at hu
    obtain rfl : v = u := by simpa using hu
    exact hl
  | pair high low hv hh _ =>
    rw [hv] at hu
    obtain rfl : high = u := by simpa using hu
    exact isLow_of_isHigh hh

theorem unitChar_of_codeUnits {c : Char} {u : UInt16} (h : codeUnits c = [u]) : unitChar u = c := by
  by_cases hc : c.toNat < 0x10000
  · cases units_cases c with
    | pair high low hv => simp [hv] at h
    | single v hv hh hl =>
      obtain rfl : v = u := by simpa using hv.symm.trans h
      rw [codeUnits, if_pos hc, List.cons.injEq] at h
      rw [unitChar, hh, hl, ← h.1, UInt16.toNat_ofNat_of_lt' hc]
      exact Char.ofNat_toNat c
  · simp [codeUnits, hc] at h

theorem pairChar_of_codeUnits {c : Char} {high low : UInt16} (h : codeUnits c = [high, low]) :
    pairChar high low = c := by
  have hv : c.toNat < 0xD800 ∨ 0xDFFF < c.toNat ∧ c.toNat < 0x110000 := c.valid
  by_cases hc : c.toNat < 0x10000
  · simp [codeUnits, hc] at h
  · rw [codeUnits, if_neg hc, List.cons.injEq, List.cons.injEq] at h
    have hh : high.toNat = 0xD800 + (c.toNat - 0x10000) / 1024 := by
      rw [← h.1, UInt16.toNat_ofNat_of_lt' (by rw [UInt16.size]; omega)]
    have hl : low.toNat = 0xDC00 + (c.toNat - 0x10000) % 1024 := by
      rw [← h.2.1, UInt16.toNat_ofNat_of_lt' (by rw [UInt16.size]; omega)]
    have hn : 0x10000 + (high.toNat - 0xD800) * 0x400 + (low.toNat - 0xDC00) = c.toNat := by omega
    rw [pairChar, hn, Char.ofNat_toNat]

/-- The units of a character are its own, whatever follows. -/
theorem ofUtf16_codeUnits (c : Char) (units : List UInt16) :
    ofUtf16 (codeUnits c ++ units) = c :: ofUtf16 units := by
  cases units_cases c with
  | single u hu hh =>
    have hb : isHigh u = true → Begun units := fun h => absurd h (Bool.eq_false_iff.mp hh)
    rw [hu]
    exact (ofUtf16_cons hb).trans (congrArg (· :: _) (unitChar_of_codeUnits hu))
  | pair high low hu hh hl =>
    rw [hu, List.cons_append, List.singleton_append, ofUtf16_pair hh hl, pairChar_of_codeUnits hu]

/-- Reading the UTF-16 form of a text gives the text back. -/
theorem ofUtf16_utf16 (text : List Char) : ofUtf16 (utf16 text) = text := by
  induction text with
  | nil => rfl
  | cons c text ih => rw [utf16_cons, ofUtf16_codeUnits, ih]

end Text

namespace Json.Grammar

open Text (codeUnits isHigh isLow unitChar pairChar ofUtf16 ofUtf16_cons ofUtf16_pair Begun)

/-! ### Tokens of well-formed text -/

/-- What stands between the quotes of a token of well-formed text: characters that stand for
themselves, and escapes. -/
inductive Mark where
  | raw (c : Char) (allowed : 32 ≤ c.toNat ∧ c ≠ '"' ∧ c ≠ '\\')
  | short (letter byte : UInt8) (known : (letter, byte) ∈ shortEscapes)
  | unicode (quad : Quad)

/-- The code unit that an escape spells. -/
def Quad.unit (q : Quad) : UInt16 := UInt16.ofNat q.code

namespace Mark

def text : Mark → Bytes
  | raw c _ => String.utf8EncodeChar c
  | short letter _ _ => [92, letter]
  | unicode quad => 92 :: 117 :: quad.digits

def units : Mark → List UInt16
  | raw c _ => codeUnits c
  | short _ byte _ => codeUnits (Char.ofNat byte.toNat)
  | unicode quad => [quad.unit]

end Mark

/-- The token, with its quotes. -/
def token (marks : List Mark) : Bytes := 34 :: marks.flatMap Mark.text ++ [34]

def units (marks : List Mark) : List UInt16 := marks.flatMap Mark.units

/-- The characters that marks denote. An escaped high surrogate joins with an escaped low surrogate
right after it; every other surrogate is replaced, and what follows it stands as it is. -/
def characters : List Mark → List Char
  | [] => []
  | .raw c _ :: rest => c :: characters rest
  | .short _ byte _ :: rest => Char.ofNat byte.toNat :: characters rest
  | .unicode high :: .unicode low :: rest =>
    match high.pair? low with
    | some c => c :: characters rest
    | none => high.char :: characters (.unicode low :: rest)
  | .unicode quad :: rest => quad.char :: characters rest

/-! ### The code unit of an escape -/

namespace Quad

theorem toNat_unit (q : Quad) : q.unit.toNat = q.code := UInt16.toNat_ofNat_of_lt' q.code_lt

theorem unit_inj {q q' : Quad} : q.unit = q'.unit ↔ q.code = q'.code := by
  rw [← UInt16.toNat_inj, toNat_unit, toNat_unit]

theorem isHigh_unit (q : Quad) : isHigh q.unit = isHighSurrogate q.code := by
  rw [Bool.eq_iff_iff, isHighSurrogate_iff, isHigh, toNat_unit]
  simp

theorem isLow_unit (q : Quad) : isLow q.unit = isLowSurrogate q.code := by
  rw [Bool.eq_iff_iff, isLowSurrogate_iff, isLow, toNat_unit]
  simp

theorem unitChar_unit (q : Quad) : unitChar q.unit = q.char := by
  have hc := q.code_lt
  rw [unitChar, isHigh_unit, isLow_unit, toNat_unit, char]
  simp only [Bool.or_eq_true, isHighSurrogate_iff, isLowSurrogate_iff]
  by_cases hv : q.code.isValidChar
  · rw [if_pos hv, if_neg]
    unfold Nat.isValidChar at hv
    omega
  · rw [if_neg hv, if_pos]
    unfold Nat.isValidChar at hv
    omega

theorem pair?_eq (high low : Quad) : high.pair? low =
    if isHigh high.unit && isLow low.unit then some (pairChar high.unit low.unit) else none := by
  simp only [pair?, isHigh_unit, isLow_unit, Bool.and_eq_true, isHighSurrogate_iff,
    isLowSurrogate_iff, pairChar, toNat_unit]

theorem hexValue?_lowerByte (b : UInt8) :
    Bytes.hexValue? (Bytes.lowerByte b) = Bytes.hexValue? b := by
  have hall : ∀ n < 256, Bytes.hexValue? (Bytes.lowerByte (UInt8.ofNat n)) =
      Bytes.hexValue? (UInt8.ofNat n) := by decide +kernel
  simpa using hall b.toNat b.toNat_lt

theorem hexFrom_lower (start : Nat) (digits : Bytes) :
    hexFrom start (Bytes.lower digits) = hexFrom start digits := by
  simp only [hexFrom, Bytes.lower, List.foldl_map, hexValue?_lowerByte]

/-- The digits count in either case. -/
theorem unit_of_lower {q q' : Quad} (h : Bytes.lower q.digits = Bytes.lower q'.digits) :
    q.unit = q'.unit := by
  rw [unit_inj, code, code, ← hexFrom_lower, h, hexFrom_lower]

/-- Every code unit can be spelled. -/
theorem exists_unit (u : UInt16) : ∃ q : Quad, q.unit = u := by
  have hu : u.toNat < 65536 := u.toNat_lt
  let digit (n : Nat) : UInt8 := Bytes.hexDigit (n % 16)
  have hd (n : Nat) : Bytes.hexValue? (digit n) = some (n % 16) :=
    hexValue?_hexDigit _ (Nat.mod_lt _ (by decide))
  let q : Quad :=
    { digits := [digit (u.toNat / 4096), digit (u.toNat / 256), digit (u.toNat / 16), digit u.toNat]
      four := rfl
      hex := by simp [hd] }
  refine ⟨q, ?_⟩
  rw [← UInt16.toNat_inj, toNat_unit]
  simp only [q, code, hexFrom, List.foldl_cons, List.foldl_nil, hd, Option.getD_some]
  omega

end Quad

/-! ### The characters of marks -/

theorem units_cons (m : Mark) (marks : List Mark) : units (m :: marks) = m.units ++ units marks :=
  List.flatMap_cons

/-- Only an escape can give a low surrogate first. -/
theorem begun_units {marks : List Mark} (h : ∀ q rest, marks ≠ .unicode q :: rest) :
    Begun (units marks) := by
  cases marks with
  | nil => exact fun _ hu => by cases hu
  | cons m rest =>
    rw [units_cons]
    cases m with
    | raw c allowed => exact Text.begun_codeUnits c _
    | short letter byte known => exact Text.begun_codeUnits _ _
    | unicode q => exact absurd rfl (h q rest)

theorem characters_eq (marks : List Mark) : characters marks = ofUtf16 (units marks) := by
  fun_induction characters marks with
  | case1 => rfl
  | case2 c allowed rest ih => rw [units_cons, Mark.units, Text.ofUtf16_codeUnits, ih]
  | case3 letter byte known rest ih => rw [units_cons, Mark.units, Text.ofUtf16_codeUnits, ih]
  | case4 high low rest c hc ih =>
    rw [Quad.pair?_eq, Option.ite_none_right_eq_some, Bool.and_eq_true, Option.some.injEq] at hc
    obtain ⟨⟨hh, hl⟩, rfl⟩ := hc
    rw [units_cons, units_cons, Mark.units, Mark.units, List.singleton_append, List.singleton_append,
      ofUtf16_pair hh hl, ih]
  | case5 high low rest hc ih =>
    have hb : isHigh high.unit = true → Begun (units (.unicode low :: rest)) := by
      intro hh u hu
      obtain rfl : low.unit = u := by simpa [units_cons, Mark.units] using hu
      rw [Quad.pair?_eq] at hc
      simpa [hh] using hc
    rw [units_cons, Mark.units, List.singleton_append, ofUtf16_cons hb, ih, Quad.unitChar_unit]
  | case6 q rest hn ih =>
    rw [units_cons, Mark.units, List.singleton_append, ofUtf16_cons fun _ => begun_units hn, ih,
      Quad.unitChar_unit]

/-! ### The bytes of marks -/

theorem byte_of_mem_utf8EncodeChar {c : Char} {b : UInt8} (hb : b ∈ String.utf8EncodeChar c) :
    b.toNat = c.toNat ∨ 0x80 ≤ b.toNat := by
  have hlead : ∀ n k m : Nat, 0x80 ≤ k → m + k ≤ 0x100 → 0 < m →
      0x80 ≤ (UInt8.ofNat (n % m + k)).toNat := by
    intro n k m hk hm h0
    have hn := Nat.mod_lt n h0
    rw [UInt8.toNat_ofNat_of_lt' (by rw [UInt8.size]; omega)]
    omega
  rw [String.utf8EncodeChar] at hb
  split at hb
  case isTrue h =>
    obtain rfl := List.mem_singleton.mp hb
    exact .inl (UInt8.toNat_ofNat_of_lt' (Nat.lt_of_le_of_lt h (by decide)))
  case isFalse =>
    right
    repeat' split at hb
    all_goals
      simp only [List.mem_cons, List.not_mem_nil, or_false] at hb
      rcases hb with rfl | rfl | rfl | rfl <;> exact hlead _ _ _ (by decide) (by decide) (by decide)

theorem utf8EncodeChar_ascii {b : UInt8} (hb : b.toNat < 0x80) :
    String.utf8EncodeChar (Char.ofNat b.toNat) = [b] := by
  have hv : b.toNat.isValidChar := .inl (by omega)
  rw [← encode_toNat, toNat_ofNat hv, Utf8.encode, if_pos (Nat.le_of_lt_succ hb),
    UInt8.ofNat_toNat]

/-- No byte of a character that may stand for itself ends the string or opens an escape. -/
theorem allowed_of_mem {c : Char} (allowed : 32 ≤ c.toNat ∧ c ≠ '"' ∧ c ≠ '\\') {b : UInt8}
    (hb : b ∈ String.utf8EncodeChar c) : 32 ≤ b ∧ b ≠ 34 ∧ b ≠ 92 := by
  obtain ⟨hc, hq, hs⟩ := allowed
  have hq : c.toNat ≠ 34 := fun h => hq (Char.toNat_inj.mp h)
  have hs : c.toNat ≠ 92 := fun h => hs (Char.toNat_inj.mp h)
  have h := byte_of_mem_utf8EncodeChar hb
  refine ⟨?_, ?_, ?_⟩
  · rw [UInt8.le_iff_toNat_le]
    have h32 : (32 : UInt8).toNat = 32 := rfl
    omega
  · rintro rfl
    have h34 : (34 : UInt8).toNat = 34 := rfl
    omega
  · rintro rfl
    have h92 : (92 : UInt8).toNat = 92 := rfl
    omega

/-- Bytes that may stand for themselves, in front of pieces. -/
theorem exists_plain {bytes : Bytes} (h : ∀ b ∈ bytes, 32 ≤ b ∧ b ≠ 34 ∧ b ≠ 92)
    (rest : List Piece) :
    ∃ pieces, texts (pieces ++ rest) = bytes ++ texts rest ∧
      denoted (pieces ++ rest) = bytes ++ denoted rest := by
  induction bytes with
  | nil => exact ⟨[], rfl, rfl⟩
  | cons b bytes ih =>
    obtain ⟨hb, h⟩ := List.forall_mem_cons.mp h
    obtain ⟨pieces, ht, hd⟩ := ih h
    refine ⟨.plain b hb :: pieces, ?_, ?_⟩
    · rw [List.cons_append, texts_cons, ht]
      rfl
    · rw [List.cons_append, denoted, hd]
      rfl

/-- The pieces of a token denote its characters. Only an escape stands for an escape. -/
theorem exists_pieces (marks : List Mark) :
    ∃ pieces, texts pieces = marks.flatMap Mark.text ∧
      denoted pieces = Text.utf8 (characters marks) ∧
      ∀ low, pieces.head? = some (.unicode low) → marks.head? = some (.unicode low) := by
  fun_induction characters marks with
  | case1 => exact ⟨[], rfl, rfl, by simp⟩
  | case2 c allowed rest ih =>
    obtain ⟨pieces, ht, hd, -⟩ := ih
    obtain ⟨lead, tail, hc⟩ := Text.exists_encoded c
    have hall : ∀ b ∈ lead :: tail, 32 ≤ b ∧ b ≠ 34 ∧ b ≠ 92 := by
      intro b hb
      exact allowed_of_mem allowed (hc.bytes ▸ hb)
    obtain ⟨hl, hall⟩ := List.forall_mem_cons.mp hall
    obtain ⟨plain, ht', hd'⟩ := exists_plain hall pieces
    refine ⟨.plain lead hl :: (plain ++ pieces), ?_, ?_, by simp⟩
    · rw [texts_cons, ht', ht, List.flatMap_cons, Mark.text, hc.bytes]
      rfl
    · rw [denoted, hd', hd, Text.utf8_cons, hc.bytes]
      rfl
  | case3 letter byte known rest ih =>
    obtain ⟨pieces, ht, hd, -⟩ := ih
    refine ⟨.short letter byte known :: pieces, ?_, ?_, by simp⟩
    · rw [texts_cons, ht]
      rfl
    · have hb : ∀ entry ∈ shortEscapes, entry.2.toNat < 0x80 := by simp [shortEscapes]
      rw [denoted, hd, Text.utf8_cons, utf8EncodeChar_ascii (hb _ known)]
      rfl
  | case4 high low rest c hc ih =>
    obtain ⟨pieces, ht, hd, -⟩ := ih
    refine ⟨.unicode high :: .unicode low :: pieces, ?_, ?_, by simp⟩
    · rw [texts_cons, texts_cons, ht]
      rfl
    · simp only [denoted, hc, hd, Text.utf8_cons]
  | case5 high low rest hc ih =>
    obtain ⟨pieces, ht, hd, hn⟩ := ih
    refine ⟨.unicode high :: pieces, ?_, ?_, by simp⟩
    · rw [texts_cons, ht]
      rfl
    · rw [denoted_of_lone, hd, Text.utf8_cons]
      rintro low' rest' rfl
      obtain rfl : low = low' := by simpa using hn low' rfl
      exact hc
  | case6 q rest hnext ih =>
    obtain ⟨pieces, ht, hd, hn⟩ := ih
    refine ⟨.unicode q :: pieces, ?_, ?_, by simp⟩
    · rw [texts_cons, ht]
      rfl
    · rw [denoted_of_lone, hd, Text.utf8_cons]
      rintro low rest' rfl
      obtain ⟨marks, rfl⟩ := List.head?_eq_some_iff.mp (hn low rfl)
      exact (hnext low marks rfl).elim

theorem quoted_token (marks : List Mark) : Quoted (token marks) (Text.utf8 (characters marks)) := by
  obtain ⟨pieces, ht, hd, -⟩ := exists_pieces marks
  rw [token, ← ht, ← hd]
  exact .mk pieces

/-! ### Spellings of a token -/

theorem exists_quads (c : Char) : ∃ quads : List Quad, quads.map Quad.unit = codeUnits c := by
  cases Text.units_cases c with
  | single u hu =>
    obtain ⟨q, rfl⟩ := Quad.exists_unit u
    exact ⟨[q], hu.symm⟩
  | pair high low hu =>
    obtain ⟨h, rfl⟩ := Quad.exists_unit high
    obtain ⟨l, rfl⟩ := Quad.exists_unit low
    exact ⟨[h, l], hu.symm⟩

theorem units_append (front marks : List Mark) : units (front ++ marks) = units front ++ units marks :=
  List.flatMap_append

theorem units_unicode (quads : List Quad) : units (quads.map .unicode) = quads.map Quad.unit := by
  induction quads with
  | nil => rfl
  | cons q quads ih => rw [List.map_cons, List.map_cons, units_cons, ih, Mark.units, List.singleton_append]

theorem parse_token (marks : List Mark) :
    parse (token marks) = .ok (.text (Text.utf8 (characters marks))) := by
  have hv : Value 512 (token marks) (.text (Text.utf8 (characters marks))) :=
    .inl (.text (quoted_token marks))
  have hp := Padded.mk space_nil hv space_nil
  rw [List.nil_append, List.append_nil] at hp
  exact parse_document hp

/-- Tokens with the same code units are read alike. -/
theorem parse_token_congr {marks other : List Mark} (h : units other = units marks) :
    parse (token other) = parse (token marks) := by
  rw [parse_token, parse_token, characters_eq, characters_eq, h]

/-- The escapes of a token are read as UTF-16. -/
structure ReadsAsUtf16 (marks : List Mark) : Prop where
  parsed : parse (token marks) = .ok (.text (Text.utf8 (characters marks)))
  /-- So it is also where the token is a part of a longer text. -/
  anywhere : ∀ rest o, ∃ o', string ⟨token marks ++ rest, o⟩ =
    .ok (Text.utf8 (characters marks), ⟨rest, o'⟩)
  decoded : characters marks = ofUtf16 (units marks)
  /-- How the code units are written does not matter. -/
  respelled : ∀ other, units other = units marks → parse (token other) = parse (token marks)
  /-- A character that stands for itself may as well be escaped. -/
  escaped : ∀ before c allowed after, marks = before ++ .raw c allowed :: after →
    ∀ quads : List Quad, quads.map Quad.unit = codeUnits c →
      parse (token (before ++ quads.map .unicode ++ after)) = parse (token marks)

/-- The escapes of every token of well-formed text are read as UTF-16; every character can be escaped,
with digits of either case. -/
theorem readsAsUtf16 (marks : List Mark) :
    ReadsAsUtf16 marks ∧ (∀ c, ∃ quads : List Quad, quads.map Quad.unit = codeUnits c) ∧
      ∀ q q' : Quad, Bytes.lower q.digits = Bytes.lower q'.digits → q.unit = q'.unit := by
  refine ⟨⟨parse_token marks, ?_, characters_eq marks, fun _ => parse_token_congr, ?_⟩, exists_quads,
    fun _ _ => Quad.unit_of_lower⟩
  · intro rest o
    -- A string is never too deep.
    have hd : Delivers False (Text.utf8 (characters marks)) rest (string ⟨token marks ++ rest, o⟩) :=
      string_delivers space_nil (quoted_token marks) o
    generalize string ⟨token marks ++ rest, o⟩ = x at hd
    cases hd with
    | value o' => exact ⟨o', rfl⟩
    | tooDeep h => exact h.elim
  · rintro before c allowed after rfl quads hq
    apply parse_token_congr
    rw [units_append, units_append, units_append, units_unicode, units_cons, hq, List.append_assoc]
    rfl

end Json.Grammar

end EditorSession
