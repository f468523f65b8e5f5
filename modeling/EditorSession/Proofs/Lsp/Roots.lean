import EditorSession.Lsp.Handshake
import EditorSession.Proofs.Lsp.Shapes
import Mathlib.Data.List.Induction

/-! The roots of a workspace. The opening request may offer roots in two members, and in any shape.
Main statement: the roots are the distinct ones of those offered, in the order in which they are first
seen, so a folder that is malformed, or offers a root that has been seen before, changes nothing. -/

namespace EditorSession.Lsp

open Json

/-! ### What is offered -/

/-- The uris of those entries that are objects with one, in order. Any other entry is skipped. -/
inductive FolderUris : List Json → List Bytes → Prop where
  | nil : FolderUris [] []
  | named {folder uri folders uris} (h : HasMember "uri" IsText folder uri)
      (hf : FolderUris folders uris) : FolderUris (folder :: folders) (uri :: uris)
  | skipped {folder folders uris} (h : ∀ uri, ¬HasMember "uri" IsText folder uri)
      (hf : FolderUris folders uris) : FolderUris (folder :: folders) uris

/-- The root that is offered on its own. -/
inductive SingleRoot (v : Json) : List Bytes → Prop where
  | given {uri} (h : HasMember "rootUri" IsText v uri) : SingleRoot v [uri]
  | missing (h : ∀ uri, ¬HasMember "rootUri" IsText v uri) : SingleRoot v []

def IsFolderList (v : Json) (folders : List Json) : Prop :=
  HasMember "workspaceFolders" (fun w items => w = .array items) v folders

/-- The roots that are offered as folders. -/
inductive FolderRoots (v : Json) : List Bytes → Prop where
  | listed {folders uris} (h : IsFolderList v folders) (hf : FolderUris folders uris) :
      FolderRoots v uris
  | missing (h : ∀ folders, ¬IsFolderList v folders) : FolderRoots v []

/-- The roots that are offered, with repetitions and empty ones. -/
inductive OfferedRoots : Option Json → List Bytes → Prop where
  | nothing : OfferedRoots none []
  | params {v single folders} (hs : SingleRoot v single) (hf : FolderRoots v folders) :
      OfferedRoots (some v) (single ++ folders)

/-! ### Finding it -/

theorem textMember?_eq_none_iff {v : Json} {key : String} :
    v.textMember? (ascii key) = none ↔ ∀ s, ¬HasMember key IsText v s := by
  simp only [← textMember?_eq_some_iff]
  exact Option.eq_none_iff_forall_ne_some

theorem folderUris_iff {folders : List Json} {uris : List Bytes} :
    FolderUris folders uris ↔
      (folders.filterMap fun folder => folder.textMember? (ascii "uri")) = uris := by
  constructor
  · intro h
    induction h with
    | nil => rfl
    | named h _ ih => rw [List.filterMap_cons, textMember?_eq_some_iff.mpr h, ih]
    | skipped h _ ih => rw [List.filterMap_cons, textMember?_eq_none_iff.mpr h, ih]
  · rintro rfl
    induction folders with
    | nil => exact .nil
    | cons folder folders ih =>
      cases hu : folder.textMember? (ascii "uri") with
      | some uri =>
        rw [List.filterMap_cons, hu]
        exact .named (textMember?_eq_some_iff.mp hu) ih
      | none =>
        rw [List.filterMap_cons, hu]
        exact .skipped (textMember?_eq_none_iff.mp hu) ih

theorem singleRoot_iff {v : Json} {uris : List Bytes} :
    SingleRoot v uris ↔ (v.textMember? (ascii "rootUri")).toList = uris := by
  constructor
  · rintro (h | h)
    · rw [textMember?_eq_some_iff.mpr h, Option.toList_some]
    · rw [textMember?_eq_none_iff.mpr h, Option.toList_none]
  · rintro rfl
    cases hu : v.textMember? (ascii "rootUri") with
    | some uri => exact .given (textMember?_eq_some_iff.mp hu)
    | none => exact .missing (textMember?_eq_none_iff.mp hu)

theorem isFolderList_iff {v : Json} {folders : List Json} :
    IsFolderList v folders ↔ v.member? (ascii "workspaceFolders") = some (.array folders) := by
  rw [IsFolderList, hasMember_iff]
  simp

theorem folderRoots_iff {v : Json} {uris : List Bytes} : FolderRoots v uris ↔ folderUris v = uris := by
  unfold folderUris
  split
  case h_1 folders hm =>
    rw [← folderUris_iff]
    constructor
    · rintro (⟨h, hf⟩ | h)
      · obtain rfl := Json.array.inj (Option.some.inj ((isFolderList_iff.mp h).symm.trans hm))
        exact hf
      · exact absurd (isFolderList_iff.mpr hm) (h folders)
    · exact .listed (isFolderList_iff.mpr hm)
  case h_2 hn =>
    have hm : ∀ folders, ¬IsFolderList v folders := fun folders h => hn _ (isFolderList_iff.mp h)
    constructor
    · rintro (⟨h, -⟩ | h)
      · exact absurd h (hm _)
      · rfl
    · rintro rfl
      exact .missing hm

/-- The offered roots as they are read. -/
def offered : Option Json → List Bytes
  | none => []
  | some v => (v.textMember? (ascii "rootUri")).toList ++ folderUris v

theorem offeredRoots_iff {params : Option Json} {uris : List Bytes} :
    OfferedRoots params uris ↔ offered params = uris := by
  constructor
  · rintro (_ | ⟨hs, hf⟩)
    · rfl
    · rw [offered, singleRoot_iff.mp hs, folderRoots_iff.mp hf]
  · rintro rfl
    cases params with
    | none => exact .nothing
    | some v => exact .params (singleRoot_iff.mpr rfl) (folderRoots_iff.mpr rfl)

theorem roots_read (params : Option Json) :
    (Client.read params).roots = (offered params).foldl addRoot [] := by
  rcases params with _ | v
  · rfl
  · cases v <;> rfl

/-! ### Collecting roots -/

section

variable {roots : List Bytes} {uri : Bytes}

theorem addRoot_of_idle (h : uri = [] ∨ uri ∈ roots) : addRoot roots uri = roots := by
  rw [addRoot, if_pos (by simpa using h)]

theorem addRoot_of_new (hn : uri ≠ []) (hu : uri ∉ roots) : addRoot roots uri = roots ++ [uri] := by
  rw [addRoot, if_neg (by simp [hn, hu])]

end

theorem eraseDups_append_singleton (uris : List Bytes) (uri : Bytes) :
    (uris ++ [uri]).eraseDups = if uri ∈ uris then uris.eraseDups else uris.eraseDups ++ [uri] := by
  rw [List.eraseDups_append]
  by_cases h : uri ∈ uris <;> simp [h, List.removeAll, List.eraseDups_cons]

/-- Roots that are added one after the other are the distinct ones in the order of first sight. -/
theorem foldl_addRoot (uris : List Bytes) :
    uris.foldl addRoot [] = (uris.filter fun uri => uri ≠ []).eraseDups := by
  induction uris using List.reverseRecOn with
  | nil => rfl
  | append_singleton uris uri ih =>
    rw [List.foldl_append, List.foldl_cons, List.foldl_nil, ih, List.filter_append]
    by_cases hn : uri = []
    · rw [addRoot_of_idle (.inl hn), List.filter_singleton, hn]
      simp
    · have hs : ([uri].filter fun uri => uri ≠ []) = [uri] := by simp [hn]
      rw [hs, eraseDups_append_singleton]
      split
      case isTrue hu => exact addRoot_of_idle (.inr (List.mem_eraseDups.mpr hu))
      case isFalse hu => exact addRoot_of_new hn (mt List.mem_eraseDups.mp hu)

theorem foldl_addRoot_of_idle {roots uris : List Bytes} (h : ∀ uri ∈ uris, uri = [] ∨ uri ∈ roots) :
    uris.foldl addRoot roots = roots := by
  induction uris with
  | nil => rfl
  | cons uri uris ih =>
    obtain ⟨hu, h⟩ := List.forall_mem_cons.mp h
    rw [List.foldl_cons, addRoot_of_idle hu, ih h]

/-- Roots that are distinct and not empty. -/
def Proper (roots : List Bytes) : Prop := roots.Nodup ∧ [] ∉ roots

theorem Proper.addRoot {roots : List Bytes} (h : Proper roots) (uri : Bytes) :
    Proper (addRoot roots uri) := by
  by_cases hi : uri = [] ∨ uri ∈ roots
  · rwa [addRoot_of_idle hi]
  · obtain ⟨hn, hu⟩ := not_or.mp hi
    rw [addRoot_of_new hn hu]
    refine ⟨List.nodup_append.mpr ⟨h.1, by simp, ?_⟩,
      by simpa [h.2] using Ne.symm hn⟩
    rintro root hr _ hs rfl
    rw [List.mem_singleton.mp hs] at hr
    exact hu hr

theorem Proper.foldl_addRoot {roots : List Bytes} (h : Proper roots) (uris : List Bytes) :
    Proper (uris.foldl Lsp.addRoot roots) := by
  induction uris generalizing roots with
  | nil => exact h
  | cons uri uris ih => exact ih (h.addRoot uri)

/-! ### The roots that are read -/

/-- Params with these folders. -/
def withFolders (members : Table Json) (folders : List Json) : Option Json :=
  some (.object (Table.set (ascii "workspaceFolders") (.array folders) members))

theorem offered_withFolders (members : Table Json) (folders : List Json) :
    offered (withFolders members folders) =
      ((Json.object members).textMember? (ascii "rootUri")).toList ++
        folders.filterMap fun folder => folder.textMember? (ascii "uri") := by
  have hr : ascii "rootUri" ≠ ascii "workspaceFolders" := by decide
  rw [withFolders, offered, folderUris]
  simp only [textMember?, member?, Table.get?_set_ne hr, Table.get?_set_self]

/-- The roots are collected from what the params offer. -/
structure CollectsRoots (params : Option Json) (roots : List Bytes) : Prop where
  offers : ∃! uris, OfferedRoots params uris
  firstSeen : ∀ uris, OfferedRoots params uris →
    roots = (uris.filter fun uri => uri ≠ []).eraseDups
  nodup : roots.Nodup
  nonempty : [] ∉ roots

/-- Whatever the params are, they are read, and the roots are the distinct ones in the order of first
sight. Among the folders, entries without a uri may be added anywhere, and so may entries whose uri is
empty or has been offered before. -/
theorem collectsRoots :
    (∀ params, CollectsRoots params (Client.read params).roots) ∧
      ∀ (members : Table Json) (front extra back : List Json),
        (∀ folder ∈ extra, ∀ uri, HasMember "uri" IsText folder uri →
          uri = [] ∨ uri ∈ (Client.read (withFolders members front)).roots) →
        (Client.read (withFolders members (front ++ extra ++ back))).roots =
          (Client.read (withFolders members (front ++ back))).roots := by
  constructor
  · intro params
    have hp : Proper (Client.read params).roots := by
      rw [roots_read]
      exact Proper.foldl_addRoot ⟨List.nodup_nil, List.not_mem_nil⟩ _
    refine ⟨⟨offered params, offeredRoots_iff.mpr rfl, fun uris h => (offeredRoots_iff.mp h).symm⟩,
      fun uris h => ?_, hp.1, hp.2⟩
    rw [roots_read, offeredRoots_iff.mp h, foldl_addRoot]
  · intro members front extra back h
    simp only [roots_read, offered_withFolders, List.filterMap_append, List.foldl_append] at h ⊢
    congr 1
    refine foldl_addRoot_of_idle fun uri hu => ?_
    obtain ⟨folder, hf, hu⟩ := List.mem_filterMap.mp hu
    exact h folder hf uri (textMember?_eq_some_iff.mp hu)

def folder (uri : Json) : Json := .object [(ascii "uri", uri)]

/-- A root that is offered on its own, again as a folder, and between entries that count for nothing. -/
theorem collectsRoots_repeated :
    let members : Table Json := [(ascii "rootUri", .text (ascii "a"))]
    let front := [folder (.text (ascii "b"))]
    let extra := [.int 7, folder (.text (ascii "a")), folder .null, folder (.text []),
      folder (.text (ascii "b"))]
    let back := [folder (.text (ascii "c"))]
    (∀ f ∈ extra, ∀ uri, HasMember "uri" IsText f uri →
        uri = [] ∨ uri ∈ (Client.read (withFolders members front)).roots) ∧
      (Client.read (withFolders members (front ++ extra ++ back))).roots =
        [ascii "a", ascii "b", ascii "c"] := by
  intro members front extra back
  have hi : ∀ f ∈ extra, ∀ uri, f.textMember? (ascii "uri") = some uri →
      uri = [] ∨ uri ∈ (Client.read (withFolders members front)).roots := by
    decide
  have h : ∀ f ∈ extra, ∀ uri, HasMember "uri" IsText f uri →
      uri = [] ∨ uri ∈ (Client.read (withFolders members front)).roots :=
    fun f hf uri hu => hi f hf uri (textMember?_eq_some_iff.mpr hu)
  exact ⟨h, (collectsRoots.2 members front extra back h).trans (by decide)⟩

end EditorSession.Lsp
