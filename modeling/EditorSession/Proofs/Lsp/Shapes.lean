import EditorSession.Lsp.Params
import EditorSession.Proofs.Table
import Mathlib.Data.List.Forall2

/-! Shapes of JSON values: what a value has to be to stand for a text, a number, a position or a range,
said without reading it. Each reader of params finds what has the shape, and nothing else. -/

namespace EditorSession

/-! ### Values, members and items -/

namespace Json

inductive IsText : Json → Bytes → Prop where
  | text (s : Bytes) : IsText (.text s) s

/-- A whole number that fits 64 bits, as an integer or as a double. -/
inductive IsWhole : Json → Int64 → Prop where
  | int (n : Int64) : IsWhole (.int n) n
  | real {x : Binary64} {n : Int64} (h : x.toInt64? = some n) : IsWhole (.real x) n

/-- An object whose member under `key` has a shape. -/
inductive HasMember {α : Type} (key : String) (shape : Json → α → Prop) : Json → α → Prop where
  | object {members value a} (hm : Table.get? (ascii key) members = some value)
      (hs : shape value a) : HasMember key shape (.object members) a

/-- An array whose items have a shape, one after the other. -/
inductive HasItems {α : Type} (shape : Json → α → Prop) : Json → List α → Prop where
  | array {items as} (h : List.Forall₂ shape items as) : HasItems shape (.array items) as

section

variable {α : Type} {shape : Json → α → Prop} {key : String} {v w : Json} {a : α}

theorem HasMember.isObject (h : HasMember key shape v a) : v.isObject = true := by
  cases h
  rfl

theorem hasMember_iff : HasMember key shape v a ↔
    ∃ value, v.member? (ascii key) = some value ∧ shape value a := by
  constructor
  · rintro ⟨hm, hs⟩
    exact ⟨_, hm, hs⟩
  · rintro ⟨value, hm, hs⟩
    cases v with
    | object members => exact .object hm hs
    | null | bool | int | real | text | array => cases hm

theorem hasMember_iff_of_member? (h : v.member? (ascii key) = some w) :
    HasMember key shape v a ↔ shape w a := by
  rw [hasMember_iff, h]
  constructor
  · rintro ⟨value, hv, hs⟩
    rwa [Option.some.inj hv]
  · intro hs
    exact ⟨w, rfl, hs⟩

theorem textMember?_eq_some_iff {s : Bytes} :
    v.textMember? (ascii key) = some s ↔ HasMember key IsText v s := by
  rw [hasMember_iff, textMember?]
  constructor
  · intro h
    split at h
    case h_1 t hm =>
      obtain rfl := Option.some.inj h
      exact ⟨_, hm, .text t⟩
    case h_2 => cases h
  · rintro ⟨_, hm, ⟨⟩⟩
    rw [hm]

theorem intMember?_eq_some_iff {n : Int64} :
    v.intMember? (ascii key) = some n ↔ HasMember key IsWhole v n := by
  rw [hasMember_iff, intMember?]
  constructor
  · intro h
    split at h
    case h_1 m hm =>
      obtain rfl := Option.some.inj h
      exact ⟨_, hm, .int m⟩
    case h_2 x hm => exact ⟨_, hm, .real h⟩
    case h_3 => cases h
  · rintro ⟨_, hm, hs⟩
    rw [hm]
    cases hs with
    | int => rfl
    | real h => exact h

theorem objectMember?_eq_some_iff :
    v.objectMember? (ascii key) = some w ↔ v.member? (ascii key) = some w ∧ w.isObject = true := by
  rw [objectMember?]
  constructor
  · intro h
    split at h
    case h_1 members hm =>
      obtain rfl := Option.some.inj h
      exact ⟨hm, rfl⟩
    case h_2 => cases h
  · rintro ⟨hm, ho⟩
    rw [hm]
    cases w with
    | object members => rfl
    | null | bool | int | real | text | array => cases ho

end

end Json

namespace Lsp

open Json

/-! ### Readings in sequence -/

section

variable {α β : Type}

theorem bind_eq_ok_iff {x : Reading α} {f : α → Reading β} {b : β} :
    (x >>= f) = .ok b ↔ ∃ a, x = .ok a ∧ f a = .ok b := by
  cases x with
  | error flaw => exact ⟨nofun, nofun⟩
  | ok a =>
    constructor
    · intro h
      exact ⟨a, rfl, h⟩
    · rintro ⟨a', ha, h⟩
      rwa [Except.ok.inj ha]

theorem mapM_eq_ok_iff {read : α → Reading β} {xs : List α} {ys : List β} :
    xs.mapM read = .ok ys ↔ List.Forall₂ (fun x y => read x = .ok y) xs ys := by
  induction xs generalizing ys with
  | nil =>
    rw [List.mapM_nil, List.forall₂_nil_left_iff]
    exact ⟨fun h => (Except.ok.inj h).symm, fun h => congrArg _ h.symm⟩
  | cons x xs ih =>
    rw [List.mapM_cons, bind_eq_ok_iff]
    constructor
    · rintro ⟨y, hy, h⟩
      obtain ⟨ys, hys, h⟩ := bind_eq_ok_iff.mp h
      obtain rfl := Except.ok.inj h
      exact .cons hy (ih.mp hys)
    · rintro (_ | ⟨hy, hys⟩)
      exact ⟨_, hy, bind_eq_ok_iff.mpr ⟨_, ih.mpr hys, rfl⟩⟩

end

/-! ### Required members -/

section

variable {v w : Json} {key : String}

theorem requireParams_eq_ok_iff {params : Option Json} :
    requireParams params = .ok v ↔ params = some v ∧ v.isObject = true := by
  unfold requireParams
  split
  case h_1 members =>
    constructor
    · intro h
      obtain rfl := Except.ok.inj h
      exact ⟨rfl, rfl⟩
    · rintro ⟨h, -⟩
      rw [Option.some.inj h]
  case h_2 hn =>
    refine ⟨nofun, ?_⟩
    rintro ⟨rfl, ho⟩
    cases v with
    | object members => exact absurd rfl (hn members)
    | null | bool | int | real | text | array => cases ho

theorem requireObject_eq_ok_iff :
    requireObject v key = .ok w ↔ v.member? (ascii key) = some w ∧ w.isObject = true := by
  rw [← objectMember?_eq_some_iff, requireObject]
  cases v.objectMember? (ascii key) <;> simp

theorem requireText_eq_ok_iff {s : Bytes} :
    requireText v key = .ok s ↔ HasMember key IsText v s := by
  rw [← textMember?_eq_some_iff, requireText]
  cases v.textMember? (ascii key) <;> simp

theorem requireInteger_eq_ok_iff {n : Int64} :
    requireInteger v key = .ok n ↔ HasMember key IsWhole v n := by
  rw [← intMember?_eq_some_iff, requireInteger]
  cases v.intMember? (ascii key) <;> simp

/-- A member that has to be an object, and is then read. -/
theorem requireObject_bind_eq_ok_iff {α : Type} {read : Json → Reading α} {shape : Json → α → Prop}
    (hr : ∀ w a, read w = .ok a ↔ shape w a) (ho : ∀ w a, shape w a → w.isObject = true) {a : α} :
    (requireObject v key >>= read) = .ok a ↔ HasMember key shape v a := by
  rw [bind_eq_ok_iff, hasMember_iff]
  constructor
  · rintro ⟨w, hw, ha⟩
    exact ⟨w, (requireObject_eq_ok_iff.mp hw).1, (hr w a).mp ha⟩
  · rintro ⟨w, hw, hs⟩
    exact ⟨w, requireObject_eq_ok_iff.mpr ⟨hw, ho w a hs⟩, (hr w a).mpr hs⟩

end

/-! ### Positions and ranges -/

/-- No member is negative. -/
def Position.Nonneg (p : Position) : Prop := 0 ≤ p.line ∧ 0 ≤ p.character

def Range.Nonneg (r : Range) : Prop := r.start.Nonneg ∧ r.stop.Nonneg

/-- An object with the members of a position, of either sign. -/
structure Position.Spelled (v : Json) (p : Position) : Prop where
  line : HasMember "line" IsWhole v p.line
  character : HasMember "character" IsWhole v p.character

structure Range.Spelled (v : Json) (r : Range) : Prop where
  start : HasMember "start" Position.Spelled v r.start
  stop : HasMember "end" Position.Spelled v r.stop

/-- A position is read if both members are whole numbers and neither is negative. -/
theorem Position.read_eq_ok_iff {v : Json} {p : Position} :
    Position.read v = .ok p ↔ Spelled v p ∧ p.Nonneg := by
  rw [Position.read, bind_eq_ok_iff]
  constructor
  · rintro ⟨line, hl, h⟩
    obtain ⟨character, hc, h⟩ := bind_eq_ok_iff.mp h
    split at h
    case isTrue => cases h
    case isFalse hn =>
      obtain rfl := Except.ok.inj h
      obtain ⟨hn, hm⟩ := not_or.mp hn
      exact ⟨⟨requireInteger_eq_ok_iff.mp hl, requireInteger_eq_ok_iff.mp hc⟩,
        Int64.not_lt.mp hn, Int64.not_lt.mp hm⟩
  · rintro ⟨hs, hl, hc⟩
    refine ⟨p.line, requireInteger_eq_ok_iff.mpr hs.line,
      bind_eq_ok_iff.mpr ⟨p.character, requireInteger_eq_ok_iff.mpr hs.character, ?_⟩⟩
    rw [if_neg (not_or.mpr ⟨Int64.not_lt.mpr hl, Int64.not_lt.mpr hc⟩)]
    rfl

theorem Range.read_eq_ok_iff {v : Json} {r : Range} :
    Range.read v = .ok r ↔ Spelled v r ∧ r.Nonneg := by
  have member (key : String) (p : Position) :
      (requireObject v key >>= Position.read) = .ok p ↔
        HasMember key Position.Spelled v p ∧ p.Nonneg := by
    rw [requireObject_bind_eq_ok_iff (fun _ _ => Position.read_eq_ok_iff) fun _ _ h => h.1.line.isObject]
    simp only [hasMember_iff]
    constructor
    · rintro ⟨w, hw, hs, hn⟩
      exact ⟨⟨w, hw, hs⟩, hn⟩
    · rintro ⟨⟨w, hw, hs⟩, hn⟩
      exact ⟨w, hw, hs, hn⟩
  have hr : Range.read v = ((requireObject v "start" >>= Position.read) >>= fun start =>
      (requireObject v "end" >>= Position.read) >>= fun stop => pure ⟨start, stop⟩) := by
    simp only [Range.read, bind_assoc]
  rw [hr, bind_eq_ok_iff]
  constructor
  · rintro ⟨start, hs, h⟩
    obtain ⟨stop, ht, h⟩ := bind_eq_ok_iff.mp h
    obtain rfl := Except.ok.inj h
    obtain ⟨hs, hn⟩ := (member _ _).mp hs
    obtain ⟨ht, hm⟩ := (member _ _).mp ht
    exact ⟨⟨hs, ht⟩, hn, hm⟩
  · rintro ⟨hs, hn, hm⟩
    exact ⟨r.start, (member _ _).mpr ⟨hs.start, hn⟩,
      bind_eq_ok_iff.mpr ⟨r.stop, (member _ _).mpr ⟨hs.stop, hm⟩, rfl⟩⟩

end Lsp

end EditorSession
