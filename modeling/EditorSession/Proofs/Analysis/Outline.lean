import EditorSession.Feature
import EditorSession.Proofs.Dispatch.Wire
import EditorSession.Proofs.Lsp.Shapes

/-! The symbols of a document as an outline. An engine returns a forest of symbols, and the result of
the request is an array of objects with objects inside. Main statement: the array has the shape of the
forest, node by node and in order, so the forest can be read back from it, but for the kinds, of which
only the numbers are left. -/

namespace EditorSession

/-! ### Members of a record -/

namespace Json

variable {members : List (String × Json)} {key : String}

theorem member?_record {value : Json} (hn : (members.map fun m => ascii m.1).Nodup)
    (hm : (key, value) ∈ members) : (record members).member? (ascii key) = some value := by
  rw [record_of_nodup hn]
  refine Table.get?_of_mem ?_ (List.mem_map.mpr ⟨_, hm, rfl⟩)
  simpa [Table.keys, Function.comp_def] using hn

theorem member?_record_eq_none (hn : (members.map fun m => ascii m.1).Nodup)
    (hm : ascii key ∉ members.map fun m => ascii m.1) :
    (record members).member? (ascii key) = none := by
  rw [record_of_nodup hn]
  refine Table.get?_eq_none_of_not_mem_keys ?_
  simpa [Table.keys, Function.comp_def] using hm

end Json

/-! ### Ranges of either sign -/

namespace Lsp

open Json

theorem Position.spelled_toJson (p : Position) : Spelled p.toJson p :=
  ⟨.object rfl (.int _), .object rfl (.int _)⟩

theorem Range.spelled_toJson (r : Range) : Spelled r.toJson r :=
  ⟨.object rfl r.start.spelled_toJson, .object rfl r.stop.spelled_toJson⟩

/-- Reads a position whatever the signs of its members. -/
def Position.ofJson? (v : Json) : Option Position := do
  let line ← v.intMember? (ascii "line")
  let character ← v.intMember? (ascii "character")
  return ⟨line, character⟩

def Range.ofJson? (v : Json) : Option Range := do
  let start ← v.member? (ascii "start")
  let stop ← v.member? (ascii "end")
  return ⟨← Position.ofJson? start, ← Position.ofJson? stop⟩

theorem Position.Spelled.ofJson? {v : Json} {p : Position} (h : Spelled v p) :
    Position.ofJson? v = some p := by
  rw [Position.ofJson?, intMember?_eq_some_iff.mpr h.line, intMember?_eq_some_iff.mpr h.character]
  rfl

theorem Range.Spelled.ofJson? {v : Json} {r : Range} (h : Spelled v r) :
    Range.ofJson? v = some r := by
  obtain ⟨start, hs, hp⟩ := hasMember_iff.mp h.start
  obtain ⟨stop, ht, hq⟩ := hasMember_iff.mp h.stop
  simp [Range.ofJson?, hs, ht, hp.ofJson?, hq.ofJson?]

/-- An object that says a range. It is read as this range unless a member of it is negative. -/
structure Range.Shown (v : Json) (r : Range) : Prop where
  spelled : Spelled v r
  read : r.Nonneg → Range.read v = .ok r

theorem Range.shown_toJson (r : Range) : Shown r.toJson r :=
  ⟨r.spelled_toJson, fun hn => Range.read_eq_ok_iff.mpr ⟨r.spelled_toJson, hn⟩⟩

end Lsp

namespace Analysis

open Json

/-! ### The shape of an outline -/

/-- What an object says of a symbol, apart from its children. -/
structure Labels (v : Json) (name detail : Bytes) (kind : SymbolKind) (span nameSpan : Lsp.Range) :
    Prop where
  name : v.member? (ascii "name") = some (.text name)
  detail : v.member? (ascii "detail") = if detail = [] then none else some (.text detail)
  kind : v.member? (ascii "kind") = some (.int kind.symbolNumber)
  range : HasMember "range" Lsp.Range.Shown v span
  selectionRange : HasMember "selectionRange" Lsp.Range.Shown v nameSpan

/-- An object has the shape of a symbol: it says the same, and it has children exactly if the symbol
does, as many and in the same order, each with the shape of its symbol. -/
inductive Mirrors : DocumentSymbol → Json → Prop where
  | leaf {name detail kind span nameSpan v} (h : Labels v name detail kind span nameSpan)
      (hc : v.member? (ascii "children") = none) :
      Mirrors (.node name detail kind span nameSpan []) v
  | parent {name detail kind span nameSpan first rest v items}
      (h : Labels v name detail kind span nameSpan)
      (hc : v.member? (ascii "children") = some (.array items))
      (hm : List.Forall₂ Mirrors (first :: rest) items) :
      Mirrors (.node name detail kind span nameSpan (first :: rest)) v

namespace DocumentSymbol

/-- The member for the children of a symbol that has some. -/
def childrenMember : List DocumentSymbol → List (String × Json)
  | [] => []
  | first :: rest => [("children", .array (toJson.forest (first :: rest)))]

/-- The members of the object for a symbol. -/
def members (name detail : Bytes) (kind : SymbolKind) (span nameSpan : Lsp.Range)
    (children : List DocumentSymbol) : List (String × Json) :=
  [("name", .text name)] ++ Lsp.nonEmptyMember "detail" detail ++
    [("kind", .int kind.symbolNumber), ("range", span.toJson),
      ("selectionRange", nameSpan.toJson)] ++ childrenMember children

section

variable (name detail : Bytes) (kind : SymbolKind) (span nameSpan : Lsp.Range)
  (children : List DocumentSymbol)

theorem toJson_eq : (node name detail kind span nameSpan children).toJson =
    .record (members name detail kind span nameSpan children) := by
  cases children <;> rfl

theorem nodup_members :
    ((members name detail kind span nameSpan children).map fun m => ascii m.1).Nodup := by
  cases children <;> cases detail <;> simp [members, childrenMember, Lsp.nonEmptyMember, ascii]

theorem labels_toJson :
    Labels (node name detail kind span nameSpan children).toJson name detail kind span nameSpan := by
  have hn := nodup_members name detail kind span nameSpan children
  rw [toJson_eq]
  refine ⟨member?_record hn (by simp [members]), ?_, member?_record hn (by simp [members]),
    hasMember_iff.mpr ⟨_, member?_record hn (by simp [members]), span.shown_toJson⟩,
    hasMember_iff.mpr ⟨_, member?_record hn (by simp [members]), nameSpan.shown_toJson⟩⟩
  split
  case isTrue hd =>
    refine member?_record_eq_none hn ?_
    cases children <;> simp [members, childrenMember, Lsp.nonEmptyMember, hd, ascii]
  case isFalse hd => exact member?_record hn (by simp [members, Lsp.nonEmptyMember, hd])

theorem member?_children_nil :
    (node name detail kind span nameSpan []).toJson.member? (ascii "children") = none := by
  rw [toJson_eq]
  refine member?_record_eq_none (nodup_members name detail kind span nameSpan []) ?_
  cases detail <;> simp [members, childrenMember, Lsp.nonEmptyMember, ascii]

theorem member?_children_cons (first : DocumentSymbol) (rest : List DocumentSymbol) :
    (node name detail kind span nameSpan (first :: rest)).toJson.member? (ascii "children") =
      some (.array (toJson.forest (first :: rest))) := by
  rw [toJson_eq]
  exact member?_record (nodup_members name detail kind span nameSpan (first :: rest))
    (by simp [members, childrenMember])

end

theorem mirrors_toJson : ∀ symbol : DocumentSymbol, Mirrors symbol symbol.toJson
  | .node name detail kind span nameSpan [] =>
    .leaf (labels_toJson name detail kind span nameSpan [])
      (member?_children_nil name detail kind span nameSpan)
  | .node name detail kind span nameSpan (first :: rest) =>
    .parent (labels_toJson name detail kind span nameSpan (first :: rest))
      (member?_children_cons name detail kind span nameSpan first rest)
      (.cons (mirrors_toJson first) (forest rest))
where
  forest : ∀ symbols : List DocumentSymbol, List.Forall₂ Mirrors symbols (toJson.forest symbols)
    | [] => .nil
    | symbol :: rest => .cons (mirrors_toJson symbol) (forest rest)

end DocumentSymbol

/-! ### Reading an outline back -/

/-- A symbol with the number that the editor knows its kind by. -/
inductive Outline where
  | node (name detail : Bytes) (kind : Int64) (span nameSpan : Lsp.Range) (children : List Outline)

/-- What is left of a symbol. -/
def DocumentSymbol.outline : DocumentSymbol → Outline
  | .node name detail kind span nameSpan children =>
    .node name detail kind.symbolNumber span nameSpan (outlines children)
where
  outlines : List DocumentSymbol → List Outline
    | [] => []
    | symbol :: rest => symbol.outline :: outlines rest

namespace Outline

def ofJson? : Json → Option Outline
  | .object members => do
    let v := Json.object members
    let name ← v.textMember? (ascii "name")
    let detail := (v.textMember? (ascii "detail")).getD []
    let kind ← v.intMember? (ascii "kind")
    let span ← (v.member? (ascii "range")).bind Lsp.Range.ofJson?
    let nameSpan ← (v.member? (ascii "selectionRange")).bind Lsp.Range.ofJson?
    return .node name detail kind span nameSpan (← childrenOf members)
  | _ => none
where
  /-- The outlines under the first key for children. -/
  childrenOf : List (Bytes × Json) → Option (List Outline)
    | [] => some []
    | (key, value) :: rest => if key = ascii "children" then ofArray? value else childrenOf rest
  ofArray? : Json → Option (List Outline)
    | .array items => ofItems? items
    | _ => none
  ofItems? : List Json → Option (List Outline)
    | [] => some []
    | v :: rest => do return (← ofJson? v) :: (← ofItems? rest)

/-- The outlines in an array. -/
def forest? (v : Json) : Option (List Outline) := ofJson?.ofArray? v

theorem childrenOf_of_none {members : Table Json}
    (h : Table.get? (ascii "children") members = none) : ofJson?.childrenOf members = some [] := by
  induction members with
  | nil => rfl
  | cons entry members ih =>
    rw [Table.get?] at h
    split at h
    case isTrue => cases h
    case isFalse hk => rw [ofJson?.childrenOf, if_neg hk, ih h]

theorem childrenOf_of_some {members : Table Json} {items : List Json}
    (h : Table.get? (ascii "children") members = some (.array items)) :
    ofJson?.childrenOf members = ofJson?.ofItems? items := by
  induction members with
  | nil => cases h
  | cons entry members ih =>
    rw [Table.get?] at h
    split at h
    case isTrue hk =>
      obtain ⟨key, value⟩ := entry
      obtain rfl := Option.some.inj h
      rw [ofJson?.childrenOf, if_pos hk, ofJson?.ofArray?]
    case isFalse hk => rw [ofJson?.childrenOf, if_neg hk, ih h]

end Outline

theorem Labels.exists_members {v : Json} {name detail : Bytes} {kind : SymbolKind}
    {span nameSpan : Lsp.Range} (h : Labels v name detail kind span nameSpan) :
    ∃ members, v = .object members := by
  have hr := h.range
  cases hr with
  | object => exact ⟨_, rfl⟩

/-- What an object says of a symbol is read back. -/
theorem Labels.ofJson? {members : Table Json} {name detail : Bytes} {kind : SymbolKind}
    {span nameSpan : Lsp.Range} (h : Labels (.object members) name detail kind span nameSpan)
    {children : List Outline} (hc : Outline.ofJson?.childrenOf members = some children) :
    Outline.ofJson? (.object members) =
      some (.node name detail kind.symbolNumber span nameSpan children) := by
  obtain ⟨range, hr, hs⟩ := hasMember_iff.mp h.range
  obtain ⟨selection, hn, hm⟩ := hasMember_iff.mp h.selectionRange
  have hd : ((Json.object members).textMember? (ascii "detail")).getD [] = detail := by
    rw [textMember?, h.detail]
    by_cases hd : detail = [] <;> simp [hd]
  have ht : (Json.object members).textMember? (ascii "name") = some name := by
    rw [textMember?, h.name]
  have hk : (Json.object members).intMember? (ascii "kind") = some kind.symbolNumber := by
    rw [intMember?, h.kind]
  simp [Outline.ofJson?, ht, hd, hk, hr, hn, hs.spelled.ofJson?, hm.spelled.ofJson?, hc]

/-- Whatever has the shape of a symbol is read as this symbol. -/
theorem Mirrors.ofJson? : ∀ {symbol : DocumentSymbol} {v : Json}, Mirrors symbol v →
    Outline.ofJson? v = some symbol.outline
  | .node name detail kind span nameSpan children, v, h => by
    cases h with
    | leaf hl hc =>
      obtain ⟨members, rfl⟩ := hl.exists_members
      exact hl.ofJson? (Outline.childrenOf_of_none hc)
    | parent hl hc hm =>
      obtain ⟨members, rfl⟩ := hl.exists_members
      exact hl.ofJson? ((Outline.childrenOf_of_some hc).trans (items hm))
where
  items : ∀ {symbols : List DocumentSymbol} {vs : List Json}, List.Forall₂ Mirrors symbols vs →
      Outline.ofJson?.ofItems? vs = some (DocumentSymbol.outline.outlines symbols)
    | [], _, .nil => rfl
    | symbol :: rest, _, .cons h hr => by
      rw [Outline.ofJson?.ofItems?, h.ofJson?, items hr]
      rfl

theorem DocumentSymbol.outlines_eq_map (symbols : List DocumentSymbol) :
    outline.outlines symbols = symbols.map outline := by
  induction symbols with
  | nil => rfl
  | cons symbol symbols ih => rw [outline.outlines, ih, List.map_cons]

/-! ### The result of a request -/

/-- A result that has the shape of a forest, and from which the forest can be read back. -/
structure ShowsForest (symbols : List DocumentSymbol) (result : Json) : Prop where
  shape : ∃ items, result = .array items ∧ List.Forall₂ Mirrors symbols items
  recovered : Outline.forest? result = some (symbols.map DocumentSymbol.outline)

/-- What a request for the symbols of a document is answered when the engine has returned them and
nobody has asked to stop. -/
theorem documentSymbol_showsForest (symbols : List DocumentSymbol) :
    ∃ result, Feature.documentSymbol.respond false (.ok symbols) = (.ok result, []) ∧
      ShowsForest symbols result := by
  have hm := DocumentSymbol.mirrors_toJson.forest symbols
  refine ⟨.array (DocumentSymbol.toJson.forest symbols), rfl, ⟨_, rfl, hm⟩, ?_⟩
  rw [Outline.forest?, Outline.ofJson?.ofArray?, Mirrors.ofJson?.items hm, DocumentSymbol.outlines_eq_map]

end Analysis

end EditorSession
