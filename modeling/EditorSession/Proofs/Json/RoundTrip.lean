import EditorSession.Json.Printer
import EditorSession.Proofs.Json.Documents

/-! Writing and reading back. What is written for a value is a text of that value in the grammar, nested
exactly as deep as the value. Main statement: a value without doubles comes back from its text, in
whatever order the members of its objects are written, unless it is nested more than 512 deep. -/

namespace EditorSession.Json

open Grammar

/-! ### Strings -/

theorem hexValue?_hexDigit : ∀ n < 16, Bytes.hexValue? (Bytes.hexDigit n) = some n := by decide

/-- The escape of a control character. -/
def controlQuad (b : UInt8) : Quad where
  digits := [48, 48, Bytes.hexDigit (b.toNat / 16), Bytes.hexDigit (b.toNat % 16)]
  four := rfl
  hex := by
    have hb := b.toNat_lt
    have hz : Bytes.hexValue? 48 = some 0 := by decide
    simp [hz, hexValue?_hexDigit (b.toNat / 16) (by omega),
      hexValue?_hexDigit (b.toNat % 16) (by omega)]

theorem code_controlQuad (b : UInt8) : (controlQuad b).code = b.toNat := by
  have hb := b.toNat_lt
  have hz : Bytes.hexValue? 48 = some 0 := by decide
  simp only [Quad.code, controlQuad, hexFrom, List.foldl_cons, List.foldl_nil, hz,
    hexValue?_hexDigit (b.toNat / 16) (by omega), hexValue?_hexDigit (b.toNat % 16) (by omega),
    Option.getD_some]
  omega

theorem lone_controlQuad {b : UInt8} (hb : b < 32) (rest : List Piece) : Lone (controlQuad b) rest := by
  intro low rest' _
  have hc : b.toNat < 32 := UInt8.lt_iff_toNat_lt.mp hb
  rw [Quad.pair?_eq_none_iff, isHighSurrogate_iff, code_controlQuad]
  omega

theorem utf8EncodeChar_controlQuad {b : UInt8} (hb : b < 32) :
    String.utf8EncodeChar (controlQuad b).char = [b] := by
  have hc : b.toNat < 32 := UInt8.lt_iff_toNat_lt.mp hb
  have hs : ¬(isHighSurrogate b.toNat || isLowSurrogate b.toNat) = true := by
    rw [Bool.or_eq_true, isHighSurrogate_iff, isLowSurrogate_iff]
    omega
  rw [← encode_toNat, Quad.toNat_char, code_controlQuad, if_neg hs, Utf8.encode, if_pos (by omega),
    UInt8.ofNat_toNat]

theorem exists_short {b : UInt8} (letter : UInt8) (h : (letter, b) ∈ shortEscapes) :
    ∃ p : Piece, p.text = [92, letter] ∧ ∀ rest, denoted (p :: rest) = b :: denoted rest :=
  ⟨.short letter b h, rfl, fun _ => rfl⟩

/-- Every byte is written as a piece that denotes it, whatever comes next. -/
theorem exists_piece (b : UInt8) :
    ∃ p : Piece, p.text = escapeByte b ∧ ∀ rest, denoted (p :: rest) = b :: denoted rest := by
  unfold escapeByte
  split_ifs with hq hs h8 h12 h10 h13 h9 hc
  · exact exists_short 34 (by rw [hq]; decide)
  · exact exists_short 92 (by rw [hs]; decide)
  · exact exists_short 98 (by rw [h8]; decide)
  · exact exists_short 102 (by rw [h12]; decide)
  · exact exists_short 110 (by rw [h10]; decide)
  · exact exists_short 114 (by rw [h13]; decide)
  · exact exists_short 116 (by rw [h9]; decide)
  · refine ⟨.unicode (controlQuad b), rfl, fun rest => ?_⟩
    rw [denoted_of_lone (lone_controlQuad hc rest), utf8EncodeChar_controlQuad hc]
    rfl
  · exact ⟨.plain b ⟨UInt8.not_lt.mp hc, hq, hs⟩, rfl, fun _ => rfl⟩

theorem quoted_quote (s : Bytes) : Quoted (quote s) s := by
  have hp : ∃ pieces, texts pieces = s.flatMap escapeByte ∧ denoted pieces = s := by
    induction s with
    | nil => exact ⟨[], rfl, rfl⟩
    | cons b s ih =>
      obtain ⟨pieces, ht, hd⟩ := ih
      obtain ⟨p, hp, hb⟩ := exists_piece b
      exact ⟨p :: pieces, by rw [texts_cons, hp, ht, List.flatMap_cons], by rw [hb, hd]⟩
  obtain ⟨pieces, ht, hd⟩ := hp
  have hq := Quoted.mk pieces
  rwa [ht, hd] at hq

/-! ### Integers -/

theorem number_decimalInt (n : Int64) : Number (Bytes.decimalInt n.toInt) (.int n) := by
  let numeral : Numeral :=
    ⟨n.toInt < 0, ⟨Bytes.decimal n.toInt.natAbs, Bytes.isNumeral_decimal _⟩, none, none⟩
  have ht : numeral.text = Bytes.decimalInt n.toInt := by
    by_cases hn : n.toInt < 0 <;> simp [numeral, Numeral.text, Bytes.decimalInt, written, hn]
  have hi : numeral.integer = n.toInt := by
    simp only [numeral, Numeral.integer, Bytes.digitsValue_decimal, decide_eq_true_eq]
    split <;> omega
  have hf : numeral.Fits := ⟨rfl, rfl, hi ▸ n.le_toInt, hi ▸ n.toInt_lt⟩
  exact ht ▸ .int hf hi.symm

/-! ### Depth -/

/-- How many containers stand inside one another. -/
def depth : Json → Nat
  | array items => deepest items + 1
  | object members => deepestMember members + 1
  | _ => 0
where
  deepest : List Json → Nat
    | [] => 0
    | v :: rest => max v.depth (deepest rest)
  deepestMember : List (Bytes × Json) → Nat
    | [] => 0
    | (_, v) :: rest => max v.depth (deepestMember rest)

theorem deepest_le_iff {vs : List Json} {d : Nat} :
    depth.deepest vs ≤ d ↔ ∀ v ∈ vs, v.depth ≤ d := by
  induction vs with
  | nil => simp [depth.deepest]
  | cons v vs ih => rw [depth.deepest, Nat.max_le, ih, List.forall_mem_cons]

theorem deepestMember_le_iff {ms : List (Bytes × Json)} {d : Nat} :
    depth.deepestMember ms ≤ d ↔ ∀ m ∈ ms, m.2.depth ≤ d := by
  induction ms with
  | nil => simp [depth.deepestMember]
  | cons m ms ih => rw [depth.deepestMember, Nat.max_le, ih, List.forall_mem_cons]

theorem Grammar.Row.forall {α : Type} {entry : Denotation α} {P : α → Prop}
    (he : ∀ {t x}, entry t x → P x) {t : Bytes} {xs : List α} (h : Row entry t xs) : ∀ x ∈ xs, P x := by
  induction h with
  | last h => simpa using he h
  | more h hs ih => simpa using ⟨he h, ih⟩

/-- As deep as the grammar allows containers, so deep are the values at most. -/
theorem depth_le {d : Nat} {t : Bytes} {v : Json} (h : Value d t v) : v.depth ≤ d := by
  have hs : ∀ {t v}, Scalar t v → v.depth = 0 := by
    rintro t v (_ | _ | _ | _ | ⟨_ | _⟩) <;> rfl
  induction d generalizing t v with
  | zero => exact Nat.le_of_eq (hs h)
  | succ d ih =>
    rcases h with h | h
    · rw [hs h]
      exact Nat.zero_le _
    · cases h with
      | emptyArray => exact Nat.succ_le_succ (Nat.zero_le d)
      | emptyObject => exact Nat.succ_le_succ (Nat.zero_le d)
      | array hr =>
        refine Nat.succ_le_succ (deepest_le_iff.mpr ?_)
        exact hr.forall fun ⟨_, hv, _⟩ => ih hv
      | @object _ ms _ hr settled =>
        have hm : ∀ m ∈ ms, m.2.depth ≤ d := hr.forall fun ⟨_, ⟨_, hv, _⟩⟩ => ih hv
        exact Nat.succ_le_succ (deepestMember_le_iff.mpr fun m h => hm m (settled.mem h))

theorem depth_le_of_document {s : Bytes} {v : Json} (h : Document s v) : v.depth ≤ 512 := by
  obtain ⟨_, ht, _⟩ := h
  exact depth_le ht

/-! ### Containers -/

variable {E : Denotation Json} {real : Binary64 → Bytes}

theorem Grammar.Padded.of {α : Type} {inner : Denotation α} {t : Bytes} {v : α} (h : inner t v) :
    Padded inner t v := by
  simpa using Padded.mk space_nil h space_nil

theorem row_items {vs : List Json} (hn : vs ≠ []) (h : ∀ v ∈ vs, E (renderWith real v) v) :
    Row (Padded E) (renderWith.items_ real vs) vs := by
  induction vs with
  | nil => exact absurd rfl hn
  | cons v vs ih =>
    obtain ⟨hv, hvs⟩ := List.forall_mem_cons.mp h
    cases vs with
    | nil => exact .last (.of hv)
    | cons w vs => exact .more (.of hv) (ih (by simp) hvs)

theorem row_members {ms : List (Bytes × Json)} (hn : ms ≠ [])
    (h : ∀ m ∈ ms, E (renderWith real m.2) m.2) :
    Row (Member E) (renderWith.members_ real ms) ms := by
  induction ms with
  | nil => exact absurd rfl hn
  | cons m ms ih =>
    obtain ⟨hm, hms⟩ := List.forall_mem_cons.mp h
    have hmember : Member E (quote m.1 ++ 58 :: renderWith real m.2) m :=
      .mk (.of (quoted_quote m.1)) (.of hm)
    cases ms with
    | nil => exact .last hmember
    | cons w ms =>
      rw [renderWith.members_]
      · exact .more hmember (ih (by simp) hms)
      · simp

/-- The values that a text holds exactly: no doubles, and distinct keys in every object. -/
inductive Exact : Json → Prop
  | null : Exact null
  | bool (b : Bool) : Exact (bool b)
  | int (n : Int64) : Exact (int n)
  | text (s : Bytes) : Exact (text s)
  | array {vs : List Json} (h : ∀ v ∈ vs, Exact v) : Exact (array vs)
  | object {ms : List (Bytes × Json)} (hk : (Table.keys ms).Nodup) (h : ∀ m ∈ ms, Exact m.2) :
      Exact (object ms)

theorem value_of_scalar {t : Bytes} {v : Json} (h : Scalar t v) (d : Nat) : Value d t v := by
  cases d with
  | zero => exact h
  | succ d => exact .inl h

/-- What is written for a value is a text of that value. -/
theorem value_render {v : Json} (h : Exact v) {d : Nat} (hd : v.depth ≤ d) : Value d (render v) v := by
  induction h generalizing d with
  | null => exact value_of_scalar .null d
  | bool b =>
    cases b with
    | false => exact value_of_scalar .false d
    | true => exact value_of_scalar .true d
  | int n => exact value_of_scalar (.number (number_decimalInt n)) d
  | text s => exact value_of_scalar (.text (quoted_quote s)) d
  | @array vs h ih =>
    cases d with
    | zero => simp [depth] at hd
    | succ d =>
      have hi : ∀ v ∈ vs, Value d (render v) v := fun v hv =>
        ih v hv (deepest_le_iff.mp (Nat.le_of_succ_le_succ hd) v hv)
      right
      cases vs with
      | nil => exact .emptyArray space_nil
      | cons v vs => exact .array (row_items (by simp) hi)
  | @object ms hk h ih =>
    cases d with
    | zero => simp [depth] at hd
    | succ d =>
      have hi : ∀ m ∈ ms, Value d (render m.2) m.2 := fun m hm =>
        ih m hm (deepestMember_le_iff.mp (Nat.le_of_succ_le_succ hd) m hm)
      right
      cases ms with
      | nil => exact .emptyObject space_nil
      | cons m ms =>
        have hs := Table.settles_ofPairs (m :: ms)
        rw [Table.ofPairs_of_nodup hk] at hs
        exact .object (row_members (by simp) hi) hs

/-! ### Objects as key-value maps -/

/-- Equal values, with objects compared as key-value maps. -/
inductive Same : Json → Json → Prop
  | null : Same null null
  | bool (b : Bool) : Same (bool b) (bool b)
  | int (n : Int64) : Same (int n) (int n)
  | real (x : Binary64) : Same (.real x) (.real x)
  | text (s : Bytes) : Same (text s) (text s)
  | array {vs ws : List Json} (hl : vs.length = ws.length)
      (h : ∀ (i : Nat) v w, vs[i]? = some v → ws[i]? = some w → Same v w) : Same (array vs) (array ws)
  | object {ms ns : List (Bytes × Json)} (hk : ∀ k, k ∈ Table.keys ms ↔ k ∈ Table.keys ns)
      (h : ∀ k v w, Table.get? k ms = some v → Table.get? k ns = some w → Same v w) :
      Same (object ms) (object ns)

theorem Same.symm {v w : Json} (h : Same v w) : Same w v := by
  induction h with
  | null => exact .null
  | bool b => exact .bool b
  | int n => exact .int n
  | real x => exact .real x
  | text s => exact .text s
  | array hl h ih => exact .array hl.symm fun i v w hv hw => ih i w v hw hv
  | object hk h ih => exact .object (fun k => (hk k).symm) fun k v w hv hw => ih k w v hw hv

theorem Same.depth_le {v w : Json} (h : Same v w) (hv : v.Exact) (hw : w.Exact) :
    v.depth ≤ w.depth := by
  induction h with
  | null => exact Nat.le_refl _
  | bool => exact Nat.le_refl _
  | int => exact Nat.le_refl _
  | real => exact Nat.le_refl _
  | text => exact Nat.le_refl _
  | @array vs ws hl h ih =>
    cases hv with | array hv =>
    cases hw with | array hw =>
    refine Nat.succ_le_succ (deepest_le_iff.mpr fun v hm => ?_)
    obtain ⟨i, hi⟩ := List.mem_iff_getElem?.mp hm
    obtain ⟨hlt, -⟩ := List.getElem?_eq_some_iff.mp hi
    obtain ⟨w, hwi⟩ : ∃ w, ws[i]? = some w := ⟨_, List.getElem?_eq_getElem (hl ▸ hlt)⟩
    have hmw := List.mem_of_getElem? hwi
    have hd := ih i v w hi hwi (hv v hm) (hw w hmw)
    exact Nat.le_trans hd (deepest_le_iff.mp (Nat.le_refl _) w hmw)
  | @object ms ns hk h ih =>
    cases hv with | object hn hv =>
    cases hw with | object hn' hw =>
    refine Nat.succ_le_succ (deepestMember_le_iff.mpr fun ⟨k, v⟩ hm => ?_)
    have hmk : k ∈ Table.keys ns := (hk k).mp (List.mem_map.mpr ⟨_, hm, rfl⟩)
    obtain ⟨⟨k', w⟩, hmw, hkk⟩ := List.mem_map.mp hmk
    obtain rfl : k' = k := hkk
    have hd := ih k' v w (Table.get?_of_mem hn hm) (Table.get?_of_mem hn' hmw) (hv _ hm) (hw _ hmw)
    exact Nat.le_trans hd (deepestMember_le_iff.mp (Nat.le_refl _) _ hmw)

theorem Exact.same {v : Json} (h : Exact v) : Same v v := by
  induction h with
  | null => exact .null
  | bool b => exact .bool b
  | int n => exact .int n
  | text s => exact .text s
  | array h ih =>
    refine .array rfl fun i v w hv hw => ?_
    obtain rfl : v = w := Option.some.inj (hv.symm.trans hw)
    exact ih v (List.mem_of_getElem? hv)
  | object hk h ih =>
    refine .object (fun _ => Iff.rfl) fun k v w hv hw => ?_
    obtain rfl : v = w := Option.some.inj (hv.symm.trans hw)
    exact ih (k, v) (Table.mem_of_get? hv)

/-! Another order of members makes the same object. -/

section

variable {ms ns : List (Bytes × Json)}

theorem Exact.perm (h : Exact (.object ms)) (hp : ns.Perm ms) : Exact (.object ns) := by
  cases h with
  | object hk h => exact .object ((hp.map _).nodup_iff.mpr hk) fun m hm => h m (hp.mem_iff.mp hm)

theorem Exact.same_perm (h : Exact (.object ms)) (hp : ns.Perm ms) :
    Same (.object ns) (.object ms) := by
  cases h with
  | object hk h =>
    refine .object (fun k => (hp.map _).mem_iff) fun k v w hv hw => ?_
    have hm := hp.mem_iff.mp (Table.mem_of_get? hv)
    obtain rfl : v = w := Option.some.inj ((Table.get?_of_mem hk hm).symm.trans hw)
    exact (h _ hm).same

end

/-! ### Reading back -/

theorem parse_render_of_le {v : Json} (h : v.Exact) (hd : v.depth ≤ 512) : parse (render v) = .ok v :=
  parse_document (.of (value_render h hd))

theorem parse_render_of_lt {v : Json} (h : v.Exact) (hd : 512 < v.depth) :
    ∃ o, parse (render v) = .error ⟨o, .nestingTooDeep⟩ := by
  rcases parse_delivers (.of (value_render h (Nat.le_refl _))) with hp | hp
  · exact absurd (depth_le_of_document (parse_ok hp)) (Nat.not_le.mpr hd)
  · exact hp.2

/-- Writing visits the members of an object in the order they stand, so `w` is `v` with the members
visited in any order at all. -/
theorem parse_render_same {v w : Json} (hv : v.Exact) (hw : w.Exact) (hs : Same w v) :
    (v.depth ≤ 512 → ∃ u, parse (render w) = .ok u ∧ u.Exact ∧ Same u v) ∧
      (512 < v.depth → ∃ o, parse (render w) = .error ⟨o, .nestingTooDeep⟩) := by
  have hd : w.depth = v.depth := Nat.le_antisymm (hs.depth_le hw hv) (hs.symm.depth_le hv hw)
  rw [← hd]
  exact ⟨fun h => ⟨w, parse_render_of_le hw h, hw, hs⟩, parse_render_of_lt hw⟩

def specimen : List (Bytes × Json) :=
  [([97], int Int64.minValue), ([], array [text [34, 0, 255], object []])]

theorem exact_specimen : Exact (object specimen) := by
  have hi : Exact (array [text [34, 0, 255], object []]) :=
    .array (by simp [Exact.text, Exact.object, Table.keys])
  exact .object (by decide) (by simp [specimen, Exact.int, hi])

/-- The least integer, and a string of a quote, a zero byte and a byte of no character, come back from
an object that is visited backwards. -/
theorem parse_render_same_reverse :
    (object specimen).Exact ∧ (object specimen.reverse).Exact ∧
      Same (object specimen.reverse) (object specimen) ∧ (object specimen).depth = 3 ∧
      ∃ u, parse (render (object specimen.reverse)) = .ok u ∧ u.Exact ∧ Same u (object specimen) := by
  have hp : specimen.reverse.Perm specimen := List.reverse_perm specimen
  have hr := exact_specimen.perm hp
  have hs := exact_specimen.same_perm hp
  exact ⟨exact_specimen, hr, hs, by decide, (parse_render_same exact_specimen hr hs).1 (by decide)⟩

end EditorSession.Json
