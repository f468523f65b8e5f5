import EditorSession.Proofs.Lsp.Shapes

/-! Reading the changes of a document. Main statement: params are accepted exactly if they have the shape
of document changes, anything else is refused as invalid, and what is read has every change in order,
without a range where none is given. A change that is refused would be lost for good, and one that is
accepted by mistake would spoil the text. -/

namespace EditorSession.Lsp

open Json

/-! ### The shape -/

/-- The range that a change gives. A null counts as none. -/
inductive RangeGiven (v : Json) : Option Range → Prop where
  | absent (h : v.member? (ascii "range") = none) : RangeGiven v none
  | null (h : v.member? (ascii "range") = some .null) : RangeGiven v none
  | spelled {r : Range} (h : HasMember "range" Range.Spelled v r) (hn : r.Nonneg) :
      RangeGiven v (some r)

/-- An object that gives a change. -/
structure Change.Given (v : Json) (change : Change) : Prop where
  range : RangeGiven v change.range
  text : HasMember "text" IsText v change.text

/-- An object that gives changes of a document. -/
structure DocumentChanges.Given (v : Json) (r : DocumentChanges) : Prop where
  uri : HasMember "textDocument" (HasMember "uri" IsText) v r.uri
  version : HasMember "textDocument" (HasMember "version" IsWhole) v r.version
  changes : HasMember "contentChanges" (HasItems Change.Given) v r.changes

/-! ### Reading a change -/

theorem not_spelled_null {r : Range} : ¬Range.Spelled .null r := fun h => nomatch h.start

theorem rangeGiven_spelled_iff {v value : Json} {range : Option Range}
    (h : v.member? (ascii "range") = some value) (hn : value ≠ .null) :
    RangeGiven v range ↔ ∃ r, range = some r ∧ Range.Spelled value r ∧ r.Nonneg := by
  constructor
  · intro hg
    cases hg with
    | absent ha => cases h.symm.trans ha
    | null ha => exact absurd (Option.some.inj (h.symm.trans ha)) hn
    | @spelled r hs hr => exact ⟨r, rfl, (hasMember_iff_of_member? h).mp hs, hr⟩
  · rintro ⟨r, rfl, hs, hr⟩
    exact .spelled ((hasMember_iff_of_member? h).mpr hs) hr

theorem Change.readRange_eq_ok_iff {v : Json} {range : Option Range} :
    readRange v = .ok range ↔ RangeGiven v range := by
  unfold readRange
  split
  case h_1 h =>
    constructor
    · intro hr
      obtain rfl := Except.ok.inj hr
      exact .absent h
    · intro hg
      cases hg with
      | absent | null => rfl
      | spelled hs => exact absurd (hasMember_iff.mp hs) (by simp [h])
  case h_2 h =>
    constructor
    · intro hr
      obtain rfl := Except.ok.inj hr
      exact .null h
    · intro hg
      cases hg with
      | absent | null => rfl
      | spelled hs => exact absurd ((hasMember_iff_of_member? h).mp hs) not_spelled_null
  case h_3 value hn h =>
    rw [rangeGiven_spelled_iff h hn]
    cases hr : Range.read value with
    | error flaw =>
      refine ⟨nofun, ?_⟩
      rintro ⟨r, -, hs⟩
      cases hr.symm.trans (Range.read_eq_ok_iff.mpr hs)
    | ok r =>
      have hs := Range.read_eq_ok_iff.mp hr
      constructor
      · intro he
        exact ⟨r, (Except.ok.inj he).symm, hs⟩
      · rintro ⟨r', rfl, hs'⟩
        rw [Range.read_eq_ok_iff.mpr hs'] at hr
        rw [Except.ok.inj hr]
        rfl

theorem Change.read_eq_ok_iff {v : Json} {change : Change} :
    Change.read v = .ok change ↔ Given v change := by
  cases v with
  | object members =>
    rw [Change.read, bind_eq_ok_iff]
    constructor
    · rintro ⟨range, hr, h⟩
      obtain ⟨text, ht, h⟩ := bind_eq_ok_iff.mp h
      obtain rfl := Except.ok.inj h
      exact ⟨readRange_eq_ok_iff.mp hr, requireText_eq_ok_iff.mp ht⟩
    · intro h
      exact ⟨change.range, readRange_eq_ok_iff.mpr h.range,
        bind_eq_ok_iff.mpr ⟨change.text, requireText_eq_ok_iff.mpr h.text, rfl⟩⟩
  | null | bool | int | real | text | array => exact ⟨nofun, fun h => nomatch h.text⟩

/-! ### Reading all of them -/

/-- The entries of the array are read one after the other. -/
theorem DocumentChanges.readEntries_eq_ok_iff {v : Json} {uri : Bytes} {version : Int64}
    {r : DocumentChanges} :
    (match v.member? (ascii "contentChanges") with
      | some (.array entries) => return ⟨uri, version, ← entries.mapM Change.read⟩
      | _ => .error .missingChanges : Reading DocumentChanges) = .ok r ↔
      r.uri = uri ∧ r.version = version ∧
        HasMember "contentChanges" (HasItems Change.Given) v r.changes := by
  rw [hasMember_iff]
  split
  case h_1 entries hm =>
    rw [bind_eq_ok_iff]
    constructor
    · rintro ⟨changes, hc, h⟩
      obtain rfl := Except.ok.inj h
      have hf := (mapM_eq_ok_iff.mp hc).imp fun _ _ => Change.read_eq_ok_iff.mp
      exact ⟨rfl, rfl, _, hm, .array hf⟩
    · rintro ⟨rfl, rfl, _, hm', ⟨hf⟩⟩
      obtain rfl := Json.array.inj (Option.some.inj (hm.symm.trans hm'))
      exact ⟨r.changes, mapM_eq_ok_iff.mpr (hf.imp fun _ _ => Change.read_eq_ok_iff.mpr), rfl⟩
  case h_2 hn =>
    refine ⟨nofun, ?_⟩
    rintro ⟨-, -, _, hm, ⟨_⟩⟩
    exact absurd hm (hn _)

theorem DocumentChanges.read_eq_ok_iff {params : Option Json} {r : DocumentChanges} :
    DocumentChanges.read params = .ok r ↔ ∃ v, params = some v ∧ Given v r := by
  rw [DocumentChanges.read, bind_eq_ok_iff]
  constructor
  · rintro ⟨v, hv, h⟩
    obtain ⟨document, hd, h⟩ := bind_eq_ok_iff.mp h
    obtain ⟨uri, hu, h⟩ := bind_eq_ok_iff.mp h
    obtain ⟨version, hn, h⟩ := bind_eq_ok_iff.mp h
    obtain ⟨rfl, rfl, hc⟩ := readEntries_eq_ok_iff.mp h
    have hm := (requireObject_eq_ok_iff.mp hd).1
    exact ⟨v, (requireParams_eq_ok_iff.mp hv).1,
      (hasMember_iff_of_member? hm).mpr (requireText_eq_ok_iff.mp hu),
      (hasMember_iff_of_member? hm).mpr (requireInteger_eq_ok_iff.mp hn), hc⟩
  · rintro ⟨v, rfl, h⟩
    obtain ⟨document, hm, hu⟩ := hasMember_iff.mp h.uri
    have hn := (hasMember_iff_of_member? hm).mp h.version
    refine ⟨v, requireParams_eq_ok_iff.mpr ⟨rfl, h.uri.isObject⟩,
      bind_eq_ok_iff.mpr ⟨document, requireObject_eq_ok_iff.mpr ⟨hm, hu.isObject⟩, ?_⟩⟩
    exact bind_eq_ok_iff.mpr ⟨r.uri, requireText_eq_ok_iff.mpr hu,
      bind_eq_ok_iff.mpr ⟨r.version, requireInteger_eq_ok_iff.mpr hn,
        readEntries_eq_ok_iff.mpr ⟨rfl, rfl, h.changes⟩⟩⟩

/-! ### What becomes of the changes -/

/-- A change as it is kept of its entry. -/
structure Change.Keeps (entry : Json) (change : Change) : Prop where
  text : HasMember "text" IsText entry change.text
  /-- It has no range exactly if the entry gives none. -/
  whole : change.range = none ↔
    entry.member? (ascii "range") = none ∨ entry.member? (ascii "range") = some .null
  range : ∀ r, change.range = some r → HasMember "range" Range.Spelled entry r
  /-- So no position is negative. -/
  nonneg : ∀ r, change.range = some r → r.Nonneg

theorem RangeGiven.eq_none_iff {entry : Json} {range : Option Range} (h : RangeGiven entry range) :
    range = none ↔
      entry.member? (ascii "range") = none ∨ entry.member? (ascii "range") = some .null := by
  cases h with
  | absent h => simp [h]
  | null h => simp [h]
  | @spelled r h hr =>
    obtain ⟨value, hm, hs⟩ := hasMember_iff.mp h
    have hn : value ≠ .null := by
      rintro rfl
      exact not_spelled_null hs
    simp [hm, hn]

theorem RangeGiven.spelled_of_some {entry : Json} {range : Option Range} (h : RangeGiven entry range)
    {r : Range} (hr : range = some r) : HasMember "range" Range.Spelled entry r ∧ r.Nonneg := by
  cases h with
  | absent | null => cases hr
  | spelled hs hn =>
    obtain rfl := Option.some.inj hr
    exact ⟨hs, hn⟩

theorem Change.Given.keeps {entry : Json} {change : Change} (h : Given entry change) :
    Keeps entry change where
  text := h.text
  whole := h.range.eq_none_iff
  range _ hr := (h.range.spelled_of_some hr).1
  nonneg _ hr := (h.range.spelled_of_some hr).2

/-- How document changes are read from params. -/
structure ReadsChanges (params : Option Json) (reading : Reading DocumentChanges) : Prop where
  /-- Accepted are the params that give changes of a document, and no others. -/
  accepts : ∀ r, reading = .ok r ↔ ∃ v, params = some v ∧ DocumentChanges.Given v r
  /-- All others are refused as invalid. -/
  refuses : (¬∃ v r, params = some v ∧ DocumentChanges.Given v r) →
    ∃ flaw, reading = .error flaw ∧ flaw.refusal.code = Rpc.Code.invalidParams
  /-- Every entry is kept, in order. -/
  keeps : ∀ r, reading = .ok r → ∃ v entries, params = some v ∧
    v.member? (ascii "contentChanges") = some (.array entries) ∧
      List.Forall₂ Change.Keeps entries r.changes

theorem readsChanges (params : Option Json) :
    ReadsChanges params (DocumentChanges.read params) where
  accepts _ := DocumentChanges.read_eq_ok_iff
  refuses h := by
    cases hr : DocumentChanges.read params with
    | ok r =>
      obtain ⟨v, hv, hg⟩ := DocumentChanges.read_eq_ok_iff.mp hr
      exact absurd ⟨v, r, hv, hg⟩ h
    | error flaw => exact ⟨flaw, rfl, rfl⟩
  keeps r h := by
    obtain ⟨v, hv, hg⟩ := DocumentChanges.read_eq_ok_iff.mp h
    obtain ⟨_, hm, ⟨hf⟩⟩ := hasMember_iff.mp hg.changes
    exact ⟨v, _, hv, hm, hf.imp fun _ _ => Change.Given.keeps⟩

/-- A ranged change and two of the whole text. The version is a double. -/
def mixedParams : Json :=
  .record [("textDocument", .record [("uri", .text (ascii "file:///a.vb")),
      ("version", .real ⟨0x4000000000000000⟩)]),
    ("contentChanges", .array
      [.record [("range", Range.toJson ⟨⟨0, 8⟩, ⟨0, 9⟩⟩), ("text", .text (ascii "2"))],
        .record [("text", .text [])],
        .record [("range", .null), ("text", .text (ascii "x"))]])]

theorem readsChanges_mixedParams :
    (∃ v, some mixedParams = some v ∧ DocumentChanges.Given v
      ⟨ascii "file:///a.vb", 2,
        [⟨some ⟨⟨0, 8⟩, ⟨0, 9⟩⟩, ascii "2"⟩, ⟨none, []⟩, ⟨none, ascii "x"⟩]⟩) :=
  ((readsChanges (some mixedParams)).accepts _).mp (by decide +kernel)

end EditorSession.Lsp
