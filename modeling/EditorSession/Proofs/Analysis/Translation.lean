import EditorSession.Analysis.Absent
import EditorSession.Proofs.Analysis.Outline
import EditorSession.Proofs.Analysis.Renames

/-! What the results of requests tell. For every feature it is said which members and items a result
has, given what the engine has returned: by looking members up, without the functions that write the
result. Main statements: every result tells the engine's answer, and the result of a request that has
nothing to report tells an empty answer. -/

namespace EditorSession

namespace Json

/-- There are no members besides the named ones. -/
def HasOnly (keys : List String) (v : Json) : Prop :=
  ∀ key, v.member? key ≠ none → ∃ k ∈ keys, ascii k = key

section

variable {members : List (String × Json)} {keys : List String} {key : String} {value : Json}

/-- A member of a record is the last of its name. -/
theorem member?_record_eq (members : List (String × Json)) (key : Bytes) :
    (record members).member? key =
      Table.get? key (members.map fun m => (ascii m.1, m.2)).reverse :=
  (Table.settles_ofPairs _).values key

theorem hasOnly_record (hs : ∀ m ∈ members, m.1 ∈ keys) : (record members).HasOnly keys := by
  intro key hk
  rw [member?_record_eq, Ne, Table.get?_eq_none_iff_not_mem_keys, not_not] at hk
  obtain ⟨entry, he, rfl⟩ := List.mem_map.mp hk
  obtain ⟨m, hm, rfl⟩ := List.mem_map.mp (List.mem_reverse.mp he)
  exact ⟨m.1, hs m hm, rfl⟩

theorem hasMember_record {α : Type} {shape : Json → α → Prop} {a : α}
    (hm : (record members).member? (ascii key) = some value) (hs : shape value a) :
    HasMember key shape (record members) a :=
  hasMember_iff.mpr ⟨value, hm, hs⟩

theorem hasItems_map {α : Type} {shape : Json → α → Prop} {write : α → Json}
    (hs : ∀ a, shape (write a) a) (items : List α) : HasItems shape (.array (items.map write)) items :=
  .array (List.forall₂_map_left_iff.mpr (List.forall₂_same.mpr fun a _ => hs a))

end

end Json

open Json

/-! ### Places and edits -/

namespace Lsp

/-- An object that says a location. -/
structure Location.Shown (v : Json) (l : Location) : Prop where
  uri : HasMember "uri" IsText v l.uri
  range : HasMember "range" Range.Shown v l.range
  only : v.HasOnly ["uri", "range"]

theorem Location.shown_toJson (l : Location) : Shown l.toJson l where
  uri := hasMember_record rfl (.text _)
  range := hasMember_record rfl l.range.shown_toJson
  only := hasOnly_record (by simp)

/-- An object that says an edit. -/
structure TextEdit.Shown (v : Json) (e : TextEdit) : Prop where
  range : HasMember "range" Range.Shown v e.range
  newText : HasMember "newText" IsText v e.newText
  only : v.HasOnly ["range", "newText"]

theorem TextEdit.shown_toJson (e : TextEdit) : Shown e.toJson e where
  range := hasMember_record rfl e.range.shown_toJson
  newText := hasMember_record rfl (.text _)
  only := hasOnly_record (by simp)

end Lsp

namespace Analysis

/-! ### Completions -/

/-- An item of a completion list. The text to insert is said if it is another than the one displayed. -/
structure Completion.Shown (v : Json) (c : Completion) : Prop where
  label : HasMember "label" IsText v c.display
  kind : v.member? (ascii "kind") = some (.int c.kind.completionNumber)
  detail : v.member? (ascii "detail") = if c.detail = [] then none else some (.text c.detail)
  insertText : v.member? (ascii "insertText") =
    if c.insert = [] ∨ c.insert = c.display then none else some (.text c.insert)
  only : v.HasOnly ["label", "kind", "detail", "insertText"]

theorem Completion.shown_toJson (c : Completion) : Shown c.toJson c := by
  unfold toJson Lsp.nonEmptyMember
  refine ⟨hasMember_record ?_ (.text _), ?_, ?_, ?_, hasOnly_record ?_⟩
  case refine_5 => split_ifs <;> simp
  -- which members there are is settled first, and then each is looked up
  all_goals
    rw [member?_record_eq]
    split_ifs <;> simp_all [Table.get?, ascii]

/-- A list of completions, which says that it is complete. -/
structure CompletionsShown (v : Json) (items : List Completion) : Prop where
  complete : v.member? (ascii "isIncomplete") = some (.bool false)
  items : HasMember "items" (HasItems Completion.Shown) v items
  only : v.HasOnly ["isIncomplete", "items"]

theorem completionsShown_completionList (items : List Completion) :
    CompletionsShown (completionList items) items where
  complete := rfl
  items := hasMember_record rfl (hasItems_map Completion.shown_toJson items)
  only := hasOnly_record (by simp)

/-! ### Hovers -/

/-- A text in markdown. -/
structure Markdown (v : Json) (s : Bytes) : Prop where
  kind : HasMember "kind" IsText v (ascii "markdown")
  value : HasMember "value" IsText v s
  only : v.HasOnly ["kind", "value"]

/-- A hover with a text says the text, and the range that it is about if there is one. -/
structure Hover.Shown (v : Json) (info : Hover) : Prop where
  contents : HasMember "contents" Markdown v info.markdown
  range : match info.span with
    | some span => HasMember "range" Lsp.Range.Shown v span
    | none => v.member? (ascii "range") = none
  only : v.HasOnly ["contents", "range"]

/-- Only a hover with a text is told. -/
inductive HoverShown : Json → Option Hover → Prop where
  | missing : HoverShown .null none
  | blank {info : Hover} (h : info.markdown = []) : HoverShown .null (some info)
  | text {v info} (h : info.markdown ≠ []) (hs : Hover.Shown v info) : HoverShown v (some info)

theorem markdown_record (s : Bytes) :
    Markdown (.record [("kind", .text (ascii "markdown")), ("value", .text s)]) s where
  kind := hasMember_record rfl (.text _)
  value := hasMember_record rfl (.text _)
  only := hasOnly_record (by simp)

theorem hoverShown_hoverJson (info : Option Hover) : HoverShown (hoverJson info) info := by
  cases info with
  | none => exact .missing
  | some info =>
    rw [hoverJson]
    split
    case isTrue h => exact .blank (List.isEmpty_iff.mp h)
    case isFalse h =>
      refine .text (mt List.isEmpty_iff.mpr h) ?_
      obtain ⟨markdown, span⟩ := info
      cases span with
      | none => exact ⟨hasMember_record rfl (markdown_record _), rfl, hasOnly_record (by simp)⟩
      | some span =>
        exact ⟨hasMember_record rfl (markdown_record _), hasMember_record rfl span.shown_toJson,
          hasOnly_record (by simp)⟩

/-! ### Edits -/

/-- An object with the edits of each document under its uri, as an array. They are those of the last
group that has edits for the document. -/
def ChangesShown (v : Json) (groups : List DocumentEdits) : Prop :=
  ∀ uri, match v.member? uri with
    | none => DocumentEdits.lastFor groups uri = []
    | some listed => DocumentEdits.lastFor groups uri ≠ [] ∧
      HasItems Lsp.TextEdit.Shown listed (DocumentEdits.lastFor groups uri)

/-- Only edits are told. -/
inductive EditsShown : Json → List DocumentEdits → Prop where
  | nothing {groups} (h : ∀ group ∈ groups, group.edits = []) : EditsShown .null groups
  | edits {v groups} (h : ¬∀ group ∈ groups, group.edits = [])
      (hc : HasMember "changes" ChangesShown v groups) (ho : v.HasOnly ["changes"]) :
      EditsShown v groups

theorem changesShown_editTable (groups : List DocumentEdits) :
    ChangesShown (.object (editTable groups)) groups := by
  intro uri
  rw [Json.member?, get?_editTable]
  by_cases h : DocumentEdits.lastFor groups uri = []
  · simp only [h, ↓reduceIte]
  · simp only [h, ↓reduceIte]
    exact ⟨h, hasItems_map Lsp.TextEdit.shown_toJson _⟩

theorem editsShown_workspaceEdit (groups : List DocumentEdits) :
    EditsShown (workspaceEdit groups) groups := by
  have hnil : editTable groups = [] ↔ ∀ group ∈ groups, group.edits = [] :=
    editTable_eq_nil_iff.trans DocumentEdits.lastFor_eq_nil_all_iff
  rw [workspaceEdit]
  split
  case h_1 he => exact .nothing (hnil.mp he)
  case h_2 he =>
    exact .edits (mt hnil.mpr he) (hasMember_record rfl (changesShown_editTable groups))
      (hasOnly_record (by simp))

/-! ### Symbols of a workspace -/

/-- An object that says a symbol of the workspace. -/
structure WorkspaceSymbol.Shown (v : Json) (s : WorkspaceSymbol) : Prop where
  name : HasMember "name" IsText v s.name
  kind : v.member? (ascii "kind") = some (.int s.kind.symbolNumber)
  location : HasMember "location" Lsp.Location.Shown v s.location
  container : v.member? (ascii "containerName") =
    if s.container = [] then none else some (.text s.container)
  only : v.HasOnly ["name", "kind", "location", "containerName"]

theorem WorkspaceSymbol.shown_toJson (s : WorkspaceSymbol) : Shown s.toJson s := by
  unfold toJson Lsp.nonEmptyMember
  refine ⟨hasMember_record ?_ (.text _), ?_, hasMember_record ?_ s.location.shown_toJson, ?_,
    hasOnly_record ?_⟩
  case refine_5 => split_ifs <;> simp
  all_goals
    rw [member?_record_eq]
    split_ifs <;> simp_all [Table.get?, ascii]

/-! ### Every feature -/

namespace Feature

/-- The result of a request tells what the engine has returned. -/
def Tells : (feature : Feature) → Json → feature.Result → Prop
  | completion, v, items => CompletionsShown v items
  | hover, v, info => HoverShown v info
  | definition, v, locations => HasItems Lsp.Location.Shown v locations
  | references, v, locations => HasItems Lsp.Location.Shown v locations
  | rename, v, groups => EditsShown v groups
  | documentSymbol, v, symbols => HasItems (fun v symbol => Mirrors symbol v) v symbols
  | workspaceSymbol, v, symbols => HasItems WorkspaceSymbol.Shown v symbols

theorem tells_resultJson (feature : Feature) (result : feature.Result) :
    feature.Tells (feature.resultJson result) result := by
  cases feature with
  | completion => exact completionsShown_completionList result
  | hover => exact hoverShown_hoverJson result
  | definition | references => exact hasItems_map Lsp.Location.shown_toJson result
  | rename => exact editsShown_workspaceEdit result
  | documentSymbol => exact .array (DocumentSymbol.mirrors_toJson.forest result).flip
  | workspaceSymbol => exact hasItems_map WorkspaceSymbol.shown_toJson result

/-- The result that has nothing to report is that of an empty answer. -/
theorem resultJson_absent (feature : Feature) :
    feature.resultJson (Absent.result feature) = feature.emptyResult := by
  cases feature <;> rfl

theorem tells_emptyResult (feature : Feature) :
    feature.Tells feature.emptyResult (Absent.result feature) :=
  feature.resultJson_absent ▸ feature.tells_resultJson _

end Feature

end Analysis

end EditorSession
