import EditorSession.Proofs.Document.Attribution

/-! Once a document is open, the spelling of its uri does not matter. Two runs in which changes, saves,
closings and queries differ in the case of letters are the same run: whatever is answered, asked or
told is equal, and goes by the uri that the document was opened under. -/

namespace EditorSession.Document

open Analysis (Handle)

/-- The same byte, or the same ASCII letter in the two cases. -/
inductive SameLetter : UInt8 → UInt8 → Prop where
  | refl (b) : SameLetter b b
  | lower {b} (hl : 65 ≤ b) (hu : b ≤ 90) : SameLetter b (b + 32)
  | upper {b} (hl : 65 ≤ b) (hu : b ≤ 90) : SameLetter (b + 32) b

/-- The uris differ in nothing but the case of ASCII letters. -/
abbrev Respelled (u v : Bytes) : Prop := List.Forall₂ SameLetter u v

theorem lowerByte_letter {b : UInt8} (hl : 65 ≤ b) (hu : b ≤ 90) :
    Bytes.lowerByte b = b + 32 ∧ Bytes.lowerByte (b + 32) = b + 32 := by
  refine ⟨if_pos ⟨hl, hu⟩, if_neg ?_⟩
  rw [UInt8.le_iff_toNat_le] at hl hu
  rw [UInt8.le_iff_toNat_le, UInt8.le_iff_toNat_le, UInt8.toNat_add]
  simp only [UInt8.reduceToNat] at hl hu ⊢
  omega

theorem lowerByte_eq_iff {a b : UInt8} :
    Bytes.lowerByte a = Bytes.lowerByte b ↔ SameLetter a b := by
  constructor
  · intro h
    unfold Bytes.lowerByte at h
    by_cases ha : 65 ≤ a ∧ a ≤ 90
    · by_cases hb : 65 ≤ b ∧ b ≤ 90
      · rw [if_pos ha, if_pos hb] at h
        obtain rfl : a = b := by simpa using h
        exact .refl a
      · rw [if_pos ha, if_neg hb] at h
        exact h ▸ .lower ha.1 ha.2
    · by_cases hb : 65 ≤ b ∧ b ≤ 90
      · rw [if_neg ha, if_pos hb] at h
        exact h ▸ .upper hb.1 hb.2
      · rw [if_neg ha, if_neg hb] at h
        exact h ▸ .refl a
  · intro h
    cases h with
    | refl => rfl
    | lower hl hu =>
      obtain ⟨h, h'⟩ := lowerByte_letter hl hu
      exact h.trans h'.symm
    | upper hl hu =>
      obtain ⟨h, h'⟩ := lowerByte_letter hl hu
      exact h'.trans h.symm

/-- Two uris have one key when they differ in nothing but the case of letters, and only then. -/
theorem key_eq_iff {u v : Bytes} : key u = key v ↔ Respelled u v := by
  unfold key Bytes.lower
  induction u generalizing v with
  | nil =>
    cases v with
    | nil => simp [Respelled]
    | cons b v => exact ⟨nofun, nofun⟩
  | cons a u ih =>
    cases v with
    | nil => exact ⟨nofun, nofun⟩
    | cons b v =>
      rw [List.map_cons, List.map_cons, List.cons.injEq, lowerByte_eq_iff, ih, Respelled, Respelled,
        List.forall₂_cons]

/-! ### What can be done, and what it leads to -/

/-- What can be done to the documents from outside, and what can be asked of them. -/
inductive Stimulus where
  | start (operation : Operation)
  | answer (id : OperationId) (answer : ModelAnswer)
  | hear (id : OperationId) (failure : Option Bytes)
  | subscribe
  | unsubscribe (listener : ListenerId) (running : Option ListenerId)
  | document (uri : Bytes)
  | handle (uri : Bytes)
  | uris

inductive Response where
  /-- The operation is over, or it asks the project model or tells a listener. -/
  | stands (status : Status)
  /-- No operation waits for this. -/
  | unexpected
  | registered (id : ListenerId)
  | unregistered (waits : Bool)
  | document (d : Option OpenDocument)
  | handle (h : Option Handle)
  | uris (uris : List Bytes)

/-- The same is done, except that a document is found under another spelling. -/
inductive Stimulus.Alike : Stimulus → Stimulus → Prop where
  | same (x) : Alike x x
  | change {u v} (h : Respelled u v) (version changes) :
      Alike (.start (.changeDocument u version changes)) (.start (.changeDocument v version changes))
  | close {u v} (h : Respelled u v) :
      Alike (.start (.closeDocument u)) (.start (.closeDocument v))
  | save {u v} (h : Respelled u v) (text) :
      Alike (.start (.saveDocument u text)) (.start (.saveDocument v text))
  | document {u v} (h : Respelled u v) : Alike (.document u) (.document v)
  | handle {u v} (h : Respelled u v) : Alike (.handle u) (.handle v)

namespace Scene

def operation? (w : Scene) (id : OperationId) : Option Suspended :=
  (w.operations.find? fun entry => entry.1 = id).map (·.2)

/-- An operation takes a step, and others see how it stands. -/
def take (w : Scene) (id : OperationId) (step : Step) : Scene × Response :=
  (w.advance id step, .stands step.2.1)

def respond (w : Scene) : Stimulus → Scene × Response
  | .start operation => { w with begun := w.begun + 1 }.take w.begun (w.store.start operation)
  | .answer id answer =>
    match w.operation? id with
    | some (.lookup l) => w.take id (w.store.resumeLookup l answer)
    | _ => (w, .unexpected)
  | .hear id failure =>
    match w.operation? id with
    | some (.delivery d) => w.take id (w.store.resumeDelivery d failure)
    | _ => (w, .unexpected)
  | .subscribe => ({ w with store := w.store.addListener.1 }, .registered w.store.addListener.2)
  | .unsubscribe listener running =>
    ({ w with store := (w.store.removeListener listener running).1 },
      .unregistered (w.store.removeListener listener running).2)
  | .document uri => (w, .document (w.store.document? uri))
  | .handle uri => (w, .handle (w.store.handle? uri))
  | .uris => (w, .uris w.store.uris)

/-- One thing after another is done. -/
def play (w : Scene) : List Stimulus → Scene × List Response
  | [] => (w, [])
  | x :: xs =>
    let rest := (w.respond x).1.play xs
    (rest.1, (w.respond x).2 :: rest.2)

variable {trace : List Record} {w : Scene}

theorem mem_operations_of_operation? {id : OperationId} {t : Suspended}
    (h : w.operation? id = some t) : (id, t) ∈ w.operations := by
  obtain ⟨⟨i, _⟩, hf, rfl⟩ := Option.map_eq_some_iff.mp h
  obtain rfl : i = id := by simpa using List.find?_some hf
  exact List.mem_of_find?_eq_some hf

/-- Whatever is done, the run goes on. -/
theorem Run.respond (h : Run trace w) (x : Stimulus) :
    ∃ more, Run (trace ++ more) (w.respond x).1 := by
  have hstay : ∃ more, Run (trace ++ more) w := ⟨[], by rwa [List.append_nil]⟩
  cases x with
  | start operation => exact ⟨_, h.tail (.start w operation)⟩
  | answer id answer =>
    simp only [Scene.respond]
    split
    case h_1 l ho => exact ⟨_, h.tail (.answer answer (mem_operations_of_operation? ho))⟩
    case h_2 => exact hstay
  | hear id failure =>
    simp only [Scene.respond]
    split
    case h_1 d ho => exact ⟨_, h.tail (.hear failure (mem_operations_of_operation? ho))⟩
    case h_2 => exact hstay
  | subscribe => exact ⟨_, h.tail (.subscribe w)⟩
  | unsubscribe listener running => exact ⟨_, h.tail (.unsubscribe w listener running)⟩
  | document uri => exact hstay
  | handle uri => exact hstay
  | uris => exact hstay

theorem Run.play (h : Run trace w) (xs : List Stimulus) :
    ∃ more, Run (trace ++ more) (w.play xs).1 := by
  induction xs generalizing trace w with
  | nil => exact ⟨[], by rwa [List.append_nil]⟩
  | cons x xs ih =>
    obtain ⟨first, hx⟩ := h.respond x
    obtain ⟨rest, hxs⟩ := ih hx
    rw [List.append_assoc] at hxs
    exact ⟨first ++ rest, hxs⟩

/-! ### Two spellings -/

theorem take_congr (w : Scene) (id : OperationId) {step step' : Step} (hs : step.1 = step'.1)
    (ht : step.2.1 = step'.2.1) : w.take id step = w.take id step' := by
  unfold take advance
  rw [hs, ht]

end Scene

namespace Store

variable {s : Store} {u v : Bytes}

theorem find?_of_key (hk : key u = key v) : s.find? u = s.find? v := by
  unfold find?
  rw [hk]

/-- What an operation does is told by what it finds; only the log has the spelling of the call. -/
theorem startChange_of_key (hk : key u = key v) (version : Int64) (changes : List Lsp.Change) :
    (s.startChange u version changes).1 = (s.startChange v version changes).1 ∧
      (s.startChange u version changes).2.1 = (s.startChange v version changes).2.1 := by
  unfold startChange
  rw [find?_of_key hk]
  split
  case h_1 => exact ⟨rfl, rfl⟩
  case h_2 =>
    split
    case isTrue => exact ⟨rfl, rfl⟩
    case isFalse =>
      split
      case isTrue => exact ⟨rfl, rfl⟩
      case isFalse => exact ⟨rfl, rfl⟩

theorem startSave_of_key (hk : key u = key v) (text : Option Bytes) :
    (s.startSave u text).1 = (s.startSave v text).1 ∧
      (s.startSave u text).2.1 = (s.startSave v text).2.1 := by
  unfold startSave
  rw [find?_of_key hk]
  split
  case h_1 => exact ⟨rfl, rfl⟩
  case h_2 =>
    split
    case isTrue => exact ⟨rfl, rfl⟩
    case isFalse => exact ⟨rfl, rfl⟩

theorem startClose_of_key (hk : key u = key v) :
    (s.startClose u).1 = (s.startClose v).1 ∧ (s.startClose u).2.1 = (s.startClose v).2.1 := by
  unfold startClose
  rw [find?_of_key hk, hk]
  split
  case h_1 => exact ⟨rfl, rfl⟩
  case h_2 => exact ⟨rfl, rfl⟩

end Store

namespace Scene

variable {trace : List Record} {w : Scene}

theorem respond_alike {x y : Stimulus} (h : x.Alike y) : w.respond x = w.respond y := by
  cases h with
  | same => rfl
  | change h version changes =>
    obtain ⟨hs, ht⟩ := Store.startChange_of_key (s := w.store) (key_eq_iff.mpr h) version changes
    exact take_congr _ _ hs ht
  | close h =>
    obtain ⟨hs, ht⟩ := Store.startClose_of_key (s := w.store) (key_eq_iff.mpr h)
    exact take_congr _ _ hs ht
  | save h text =>
    obtain ⟨hs, ht⟩ := Store.startSave_of_key (s := w.store) (key_eq_iff.mpr h) text
    exact take_congr _ _ hs ht
  | document h => rw [respond, respond, Store.document?_of_key (key_eq_iff.mpr h)]
  | handle h =>
    rw [respond, respond, Store.handle?, Store.handle?, Store.document?_of_key (key_eq_iff.mpr h)]

theorem play_alike {xs ys : List Stimulus} (h : List.Forall₂ Stimulus.Alike xs ys) (w : Scene) :
    w.play xs = w.play ys := by
  induction h generalizing w with
  | nil => rfl
  | cons h _ ih => rw [play, play, respond_alike h, ih]

/-- Spellings do not matter. What is done from here on may be respelled without anyone noticing;
everything that is asked or told goes by the uri of an opening; and an entry is found under the
spellings of its uri, and no others. -/
structure SpellingFree (trace : List Record) (w : Scene) : Prop where
  alike : ∀ xs ys, List.Forall₂ Stimulus.Alike xs ys → w.play xs = w.play ys
  reached : ∀ xs, ∃ more, Run (trace ++ more) (w.play xs).1
  entries : w.store.entries.map (·.document.uri) = openings trace
  carried : ∀ id t, (id, t) ∈ w.operations →
    ∃ i, Concerns trace w id i ∧ (openings trace)[i]? = some t.uri
  found : ∀ uri i e, w.store.find? uri = some (i, e) → Respelled e.document.uri uri
  apart : ∀ u v i e e', w.store.find? u = some (i, e) → w.store.find? v = some (i, e') →
    Respelled u v

/-- In every run, spellings do not matter. -/
theorem Run.spellingFree (h : Run trace w) : w.SpellingFree trace := by
  have hfound : ∀ uri i e, w.store.find? uri = some (i, e) → key e.document.uri = key uri := by
    intro uri i e hf
    obtain ⟨hg, he⟩ := Store.find?_eq_some_iff.mp hf
    exact ((h.sound.get?_iff he uri).mp hg).2
  refine ⟨?_, h.play, h.spellings, ?_, ?_, ?_⟩
  · intro xs ys hxy
    exact play_alike hxy w
  · intro id t ht
    exact h.attributed ht
  · intro uri i e hf
    exact key_eq_iff.mp (hfound uri i e hf)
  · intro u v i e e' hu hv
    apply key_eq_iff.mp
    obtain rfl : e = e' := Option.some.inj ((Store.find?_eq_some_iff.mp hu).2.symm.trans
      (Store.find?_eq_some_iff.mp hv).2)
    exact (hfound u i e hu).symm.trans (hfound v i e hv)

/-- A document is opened and then changed under another spelling. -/
def respelledTrace : List Record :=
  [.began 0 (.openDocument (ascii "aB") (ascii "vb") 1 (ascii "x")),
    .replied 0 (.resolve (ascii "aB")) (.ok (some ⟨ascii "m", 1⟩)),
    .replied 0 (.update (ascii "aB") (ascii "x")) (.ok none),
    .began 1 (.changeDocument (ascii "Ab") 2 [⟨none, ascii "y"⟩])]

theorem Run.spellingFree_respelledTrace :
    ∃ w, Run respelledTrace w ∧ w.operations.map (fun o => (o.1, o.2.uri)) = [(1, ascii "aB")] ∧
      w.SpellingFree respelledTrace := by
  have h1 := Moves.refl.tail (.start {} (.openDocument (ascii "aB") (ascii "vb") 1 (ascii "x")))
  have h2 := h1.tail (@Move.answer _ 0 _ (.ok (some ⟨ascii "m", 1⟩)) (.head _))
  have h3 := h2.tail (@Move.answer _ 0 _ (.ok none) (.head _))
  have h4 := h3.tail (.start _ (.changeDocument (ascii "Ab") 2 [⟨none, ascii "y"⟩]))
  exact ⟨_, h4, rfl, Run.spellingFree h4⟩

end Scene

end EditorSession.Document
