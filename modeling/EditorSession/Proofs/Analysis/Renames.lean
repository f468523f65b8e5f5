import EditorSession.Feature
import EditorSession.Proofs.Table

/-! What a rename answers. The engine returns its edits in groups, each for a document, and nothing
keeps it from returning several groups for one. The workspace edit has the edits of the last of them
only, so it has every edit exactly if no document comes in two groups with edits. -/

namespace EditorSession

namespace Table

theorem get?_eq_head? {α : Type} (key : Bytes) (table : Table α) :
    get? key table = ((table.filter fun entry => entry.1 = key).head?).map (·.2) := by
  induction table with
  | nil => rfl
  | cons entry rest ih =>
    by_cases hk : entry.1 = key
    · simp [get?, hk]
    · simp [get?, hk, ih]

/-- Of repeated keys the last one counts. -/
theorem get?_ofPairs {α : Type} (key : Bytes) (pairs : List (Bytes × α)) :
    get? key (ofPairs pairs) = ((pairs.filter fun entry => entry.1 = key).getLast?).map (·.2) := by
  rw [(settles_ofPairs pairs).values, get?_eq_head?, List.filter_reverse, List.head?_reverse]

end Table

namespace Analysis

/-! ### The edits for one document -/

namespace DocumentEdits

/-- All edits for a document, in the order of the engine. -/
def allFor (groups : List DocumentEdits) (uri : Bytes) : List Lsp.TextEdit :=
  (groups.filter fun group => group.uri = uri).flatMap (·.edits)

/-- The groups that have edits for a document. -/
def groupsFor (groups : List DocumentEdits) (uri : Bytes) : List DocumentEdits :=
  (groups.filter fun group => ¬group.edits.isEmpty).filter fun group => group.uri = uri

/-- The edits of the last of these groups. -/
def lastFor (groups : List DocumentEdits) (uri : Bytes) : List Lsp.TextEdit :=
  ((groupsFor groups uri).getLast?.map (·.edits)).getD []

/-- The edits of the groups before it. -/
def earlierFor (groups : List DocumentEdits) (uri : Bytes) : List Lsp.TextEdit :=
  (groupsFor groups uri).dropLast.flatMap (·.edits)

theorem edits_ne_nil {groups : List DocumentEdits} {uri : Bytes} {group : DocumentEdits}
    (h : group ∈ groupsFor groups uri) : group.edits ≠ [] := by
  simp only [groupsFor, List.mem_filter, decide_eq_true_eq, List.isEmpty_iff] at h
  exact h.1.2

/-- Groups without edits add nothing. -/
theorem allFor_eq_flatMap (groups : List DocumentEdits) (uri : Bytes) :
    allFor groups uri = (groupsFor groups uri).flatMap (·.edits) := by
  induction groups with
  | nil => rfl
  | cons group groups ih =>
    simp only [allFor, groupsFor, List.filter_cons] at ih ⊢
    by_cases hu : group.uri = uri <;> by_cases he : group.edits = [] <;> simp [hu, he, ih]

theorem allFor_eq (groups : List DocumentEdits) (uri : Bytes) :
    allFor groups uri = earlierFor groups uri ++ lastFor groups uri := by
  rw [allFor_eq_flatMap, earlierFor, lastFor]
  cases List.eq_nil_or_concat (groupsFor groups uri) with
  | inl h => simp [h]
  | inr h =>
    obtain ⟨front, last, h⟩ := h
    simp [h]

theorem earlierFor_eq_nil_iff {groups : List DocumentEdits} {uri : Bytes} :
    earlierFor groups uri = [] ↔ (groupsFor groups uri).length ≤ 1 := by
  have hd : earlierFor groups uri = [] ↔ (groupsFor groups uri).dropLast = [] := by
    constructor
    · intro h
      rw [List.eq_nil_iff_forall_not_mem]
      intro group hg
      exact edits_ne_nil (List.dropLast_subset _ hg) (List.flatMap_eq_nil_iff.mp h group hg)
    · intro h
      rw [earlierFor, h, List.flatMap_nil]
  rw [hd, ← List.length_eq_zero_iff, List.length_dropLast]
  omega

/-- Nothing is lost for a document exactly if at most one group has edits for it. -/
theorem lastFor_eq_allFor_iff {groups : List DocumentEdits} {uri : Bytes} :
    lastFor groups uri = allFor groups uri ↔ (groupsFor groups uri).length ≤ 1 := by
  rw [allFor_eq, List.self_eq_append_left]
  exact earlierFor_eq_nil_iff

theorem lastFor_eq_nil_iff {groups : List DocumentEdits} {uri : Bytes} :
    lastFor groups uri = [] ↔ groupsFor groups uri = [] := by
  rw [lastFor]
  cases List.eq_nil_or_concat (groupsFor groups uri) with
  | inl h => simp [h]
  | inr h =>
    obtain ⟨front, last, h⟩ := h
    have hm : last ∈ groupsFor groups uri := by simp [h]
    simp [h, edits_ne_nil hm]

theorem lastFor_eq_nil_all_iff {groups : List DocumentEdits} :
    (∀ uri, lastFor groups uri = []) ↔ ∀ group ∈ groups, group.edits = [] := by
  constructor
  · intro h group hg
    by_contra he
    have hm : group ∈ groupsFor groups group.uri := by simp [groupsFor, hg, he]
    rw [lastFor_eq_nil_iff.mp (h group.uri)] at hm
    cases hm
  · intro h uri
    rw [lastFor_eq_nil_iff, List.eq_nil_iff_forall_not_mem]
    intro group hg
    have hm : group ∈ groups := (List.mem_filter.mp (List.mem_filter.mp hg).1).1
    exact edits_ne_nil hg (h group hm)

end DocumentEdits

/-! ### The result of a rename -/

/-- A rename result that lists `edits`: those of each document under its uri. -/
structure ListsEdits (edits : Bytes → List Lsp.TextEdit) (result : Json) : Prop where
  null : result = .null ↔ ∀ uri, edits uri = []
  changes : result ≠ .null → ∃ table : Table Json, result = .record [("changes", .object table)] ∧
    table.keys.Nodup ∧ ∀ uri, table.get? uri =
      if edits uri = [] then none else some (.array ((edits uri).map Lsp.TextEdit.toJson))

open DocumentEdits

/-- The table has the edits of the last group of each document. -/
theorem get?_editTable (groups : List DocumentEdits) (uri : Bytes) :
    (editTable groups).get? uri = if lastFor groups uri = [] then none
      else some (.array ((lastFor groups uri).map Lsp.TextEdit.toJson)) := by
  have hg : (editTable groups).get? uri = (groupsFor groups uri).getLast?.map fun group =>
      .array (group.edits.map Lsp.TextEdit.toJson) := by
    rw [editTable, Table.get?_ofPairs, List.filter_map, List.getLast?_map, Option.map_map]
    rfl
  rw [hg]
  by_cases h : lastFor groups uri = []
  · rw [if_pos h, lastFor_eq_nil_iff.mp h]
    rfl
  · rw [if_neg h]
    cases hl : (groupsFor groups uri).getLast? with
    | none => simp [lastFor, hl] at h
    | some last => simp [lastFor, hl]

theorem editTable_eq_nil_iff {groups : List DocumentEdits} :
    editTable groups = [] ↔ ∀ uri, lastFor groups uri = [] := by
  constructor
  · intro h uri
    have hg := get?_editTable groups uri
    rw [h] at hg
    by_contra he
    rw [if_neg he] at hg
    cases hg
  · intro h
    rw [List.eq_nil_iff_forall_not_mem]
    rintro ⟨uri, value⟩ hm
    have hg : (editTable groups).get? uri = some value :=
      Table.get?_of_mem (Table.nodup_keys_ofPairs _) hm
    rw [get?_editTable, if_pos (h uri)] at hg
    cases hg

theorem listsEdits_lastFor (groups : List DocumentEdits) :
    ListsEdits (lastFor groups) (workspaceEdit groups) := by
  have hn : workspaceEdit groups = .null ↔ editTable groups = [] := by
    rw [workspaceEdit]
    cases editTable groups <;> simp [Json.record]
  refine ⟨hn.trans editTable_eq_nil_iff, fun h => ⟨editTable groups, ?_, ?_, ?_⟩⟩
  · rw [workspaceEdit]
    split
    case h_1 he => exact absurd (hn.mpr he) h
    case h_2 => rfl
  · exact Table.nodup_keys_ofPairs _
  · exact get?_editTable groups

/-- A result lists one set of edits only. -/
theorem ListsEdits.map_eq {edits other : Bytes → List Lsp.TextEdit} {result : Json}
    (h : ListsEdits edits result) (ho : ListsEdits other result) (uri : Bytes) :
    (edits uri).map Lsp.TextEdit.toJson = (other uri).map Lsp.TextEdit.toJson := by
  by_cases hr : result = .null
  · rw [h.null.mp hr, ho.null.mp hr]
  · obtain ⟨table, ht, -, hv⟩ := h.changes hr
    obtain ⟨table', ht', -, hv'⟩ := ho.changes hr
    obtain rfl : table = table' := by
      rw [ht] at ht'
      simpa [Json.record, Table.ofPairs, Table.set] using ht'
    have he := (hv uri).symm.trans (hv' uri)
    split at he <;> split at he <;> simp_all

/-- A rename lists the edits of the last group of each document. Those of the earlier groups are
lost, so it lists every edit exactly if no document comes in two groups with edits. -/
structure LastGroups (groups : List DocumentEdits) (result : Json) : Prop where
  lists : ListsEdits (lastFor groups) result
  null : result = .null ↔ ∀ group ∈ groups, group.edits = []
  /-- What is lost are whole groups, and all but the last. -/
  lost : ∀ uri, allFor groups uri = earlierFor groups uri ++ lastFor groups uri
  complete : ∀ uri, lastFor groups uri = allFor groups uri ↔ (groupsFor groups uri).length ≤ 1
  all : ListsEdits (allFor groups) result ↔ ∀ uri, (groupsFor groups uri).length ≤ 1

/-- What a rename answers when the engine has returned its edits and nobody has asked to stop. -/
theorem rename_lastGroups (groups : List DocumentEdits) :
    ∃ result, Feature.rename.respond false (.ok groups) = (.ok result, []) ∧
      LastGroups groups result := by
  have hl := listsEdits_lastFor groups
  refine ⟨workspaceEdit groups, rfl, hl, hl.null.trans lastFor_eq_nil_all_iff, allFor_eq groups,
    fun _ => lastFor_eq_allFor_iff, ?_, ?_⟩
  · intro ha uri
    have hlen := congrArg List.length (hl.map_eq ha uri)
    rw [List.length_map, List.length_map, allFor_eq, List.length_append] at hlen
    rw [← earlierFor_eq_nil_iff, ← List.length_eq_zero_iff]
    omega
  · intro h
    have he : lastFor groups = allFor groups := funext fun uri => lastFor_eq_allFor_iff.mpr (h uri)
    exact he ▸ hl

/-- Two edits of one document, each in a group of its own. -/
def splitGroups : List DocumentEdits :=
  [{ uri := ascii "a", edits := [{ range := ⟨⟨0, 4⟩, ⟨0, 5⟩⟩, newText := ascii "y" }] },
    { uri := ascii "a", edits := [{ range := ⟨⟨1, 0⟩, ⟨1, 1⟩⟩, newText := ascii "y" }] }]

/-- The first of them is lost. -/
theorem not_listsEdits_splitGroups :
    ¬ListsEdits (allFor splitGroups) (Feature.rename.resultJson splitGroups) := by
  intro h
  have he := congrArg List.length ((listsEdits_lastFor splitGroups).map_eq h (ascii "a"))
  rw [List.length_map, List.length_map] at he
  revert he
  decide

end Analysis

end EditorSession
