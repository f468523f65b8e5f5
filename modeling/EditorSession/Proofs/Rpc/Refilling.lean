import EditorSession.Rpc.Slot

/-! Reading texts into one message object, one after the other. A text that denotes a message sets
every field to what it says, and any other text leaves every field as it is; so the object holds what
the last text that denotes a message says, and nothing of the texts before it. -/

namespace EditorSession.Rpc

/-! ### What a value says of a message -/

/-- The request that a value denotes. -/
structure Request.Denoted (v : Json) (r : Request) : Prop where
  method : v.textMember? (ascii "method") = some r.method
  id : (v.member? (ascii "id")).bind Id.ofJson? = some r.id
  params : v.member? (ascii "params") = r.params

structure Response.Denoted (v : Json) (r : Response) : Prop where
  outcome : r.result.isSome ∨ r.error.isSome
  /-- A missing id stands for the null id. -/
  id : (v.member? (ascii "id")).elim (some .null) Id.ofJson? = some r.id
  result : v.member? (ascii "result") = r.result
  error : v.member? (ascii "error") = r.error

structure Notification.Denoted (v : Json) (n : Notification) : Prop where
  method : v.textMember? (ascii "method") = some n.method
  id : v.member? (ascii "id") = none
  params : v.member? (ascii "params") = n.params

variable {v : Json}

theorem Request.ofJson?_eq_some_iff {r : Request} : ofJson? v = some r ↔ Denoted v r := by
  obtain ⟨id, method, params⟩ := r
  rw [ofJson?]
  constructor
  · intro h
    obtain ⟨method, hm, h⟩ := Option.bind_eq_some_iff.mp h
    obtain ⟨w, hw, h⟩ := Option.bind_eq_some_iff.mp h
    obtain ⟨id, hi, h⟩ := Option.bind_eq_some_iff.mp h
    cases h
    exact ⟨hm, by rw [hw]; exact hi, rfl⟩
  · rintro ⟨hm, hi, rfl⟩
    obtain ⟨w, hw, hi⟩ := Option.bind_eq_some_iff.mp hi
    simp [hm, hw, hi]

theorem Notification.ofJson?_eq_some_iff {n : Notification} : ofJson? v = some n ↔ Denoted v n := by
  obtain ⟨method, params⟩ := n
  rw [ofJson?]
  constructor
  · intro h
    obtain ⟨method, hm, h⟩ := Option.bind_eq_some_iff.mp h
    split at h
    · cases h
    case isFalse hi =>
      cases h
      exact ⟨hm, Option.not_isSome_iff_eq_none.mp hi, rfl⟩
  · rintro ⟨hm, hi, rfl⟩
    simp [hm, hi]

theorem Response.not_isNone_iff {result error : Option Json} :
    ¬(result.isNone ∧ error.isNone) ↔ result.isSome ∨ error.isSome := by
  cases result <;> cases error <;> simp

theorem Response.ofJson?_eq_some_iff {r : Response} : ofJson? v = some r ↔ Denoted v r := by
  obtain ⟨id, result, error⟩ := r
  rw [ofJson?]
  constructor
  · intro h
    split at h
    · cases h
    case isFalse ho =>
      have ho := not_isNone_iff.mp ho
      cases hi : v.member? (ascii "id") with
      | none =>
        rw [hi] at h
        cases h
        exact ⟨ho, by rw [hi]; rfl, rfl, rfl⟩
      | some w =>
        rw [hi] at h
        obtain ⟨id, hw, h⟩ := Option.map_eq_some_iff.mp h
        cases h
        exact ⟨ho, by rw [hi]; exact hw, rfl, rfl⟩
  · rintro ⟨ho, hi, rfl, rfl⟩
    rw [if_neg (not_isNone_iff.mpr ho)]
    cases hm : v.member? (ascii "id") with
    | none =>
      rw [hm] at hi
      obtain rfl : Id.null = id := Option.some.inj hi
      rfl
    | some w =>
      rw [hm] at hi
      have hw : Id.ofJson? w = some id := hi
      simp [hw]

/-! ### Setting the fields -/

/-- The fields are set one after the other, but only for a value that denotes a message. -/
theorem Request.fill_eq (v : Json) (slot : Request) :
    (fill v).run slot = ((ofJson? v).isSome, (ofJson? v).getD slot) := by
  rw [ofJson?, fill]
  cases v.textMember? (ascii "method") with
  | none => rfl
  | some method =>
    cases v.member? (ascii "id") with
    | none => rfl
    | some w => cases hw : Id.ofJson? w <;> simp [hw] <;> rfl

theorem Response.fill_eq (v : Json) (slot : Response) :
    (fill v).run slot = ((ofJson? v).isSome, (ofJson? v).getD slot) := by
  rw [ofJson?, fill]
  split
  case isTrue => rfl
  case isFalse =>
    cases v.member? (ascii "id") with
    | none => rfl
    | some w => cases hw : Id.ofJson? w <;> simp [hw] <;> rfl

theorem Notification.fill_eq (v : Json) (slot : Notification) :
    (fill v).run slot = ((ofJson? v).isSome, (ofJson? v).getD slot) := by
  rw [ofJson?, fill]
  cases v.textMember? (ascii "method") with
  | none => rfl
  | some method =>
    cases v.member? (ascii "id") <;> rfl

/-! ### One text after the other -/

section

variable {α : Type}

/-- The text is JSON for the message. -/
def Denotes (Denoted : Json → α → Prop) (text : Bytes) (m : α) : Prop :=
  ∃ v, Json.parse text = .ok v ∧ Denoted v m

/-- An object after texts were read into it, one after the other. -/
def refill (fill : Json → StateM α Bool) (slot : α) (texts : List Bytes) : α :=
  texts.foldl (fun slot text => ((readInto fill text).run slot).2) slot

/-- A further text is read into the object. -/
def reread (fill : Json → StateM α Bool) (slot : α) (before : List Bytes) (text : Bytes) :
    Reading Unit × α :=
  (readInto fill text).run (refill fill slot before)

/-- Reading texts into one object is all or nothing, and forgets what was read before. -/
structure AllOrNothing (fill : Json → StateM α Bool) (Denoted : Json → α → Prop) (fresh : α) :
    Prop where
  /-- Which readings succeed depends on their texts alone. -/
  succeeds_iff : ∀ slot before text,
    (reread fill slot before text).1.succeeded = true ↔ ∃ m, Denotes Denoted text m
  /-- One that fails leaves every field as it was. -/
  unchanged : ∀ slot before text, (reread fill slot before text).1.succeeded = false →
    (reread fill slot before text).2 = refill fill slot before
  /-- One that succeeds leaves the object as if it had been fresh before, -/
  forgets : ∀ slot before text, (reread fill slot before text).1.succeeded = true →
    (reread fill slot before text).2 = ((readInto fill text).run fresh).2
  /-- with every field as the text says. -/
  written : ∀ slot before text m, Denotes Denoted text m → (reread fill slot before text).2 = m
  /-- So the last text that denotes a message settles what the object holds, -/
  last : ∀ slot before text after m, Denotes Denoted text m →
    (∀ t ∈ after, ∀ m, ¬Denotes Denoted t m) → refill fill slot (before ++ text :: after) = m
  /-- and without such a text it stays what it was. -/
  never : ∀ slot texts, (∀ t ∈ texts, ∀ m, ¬Denotes Denoted t m) → refill fill slot texts = slot

variable {ofJson? : Json → Option α} {fill : Json → StateM α Bool} {Denoted : Json → α → Prop}
  {text : Bytes} {m : α}

theorem run_readInto_of_denotes
    (hf : ∀ v slot, (fill v).run slot = ((ofJson? v).isSome, (ofJson? v).getD slot))
    (hd : ∀ {v m}, ofJson? v = some m ↔ Denoted v m) (h : Denotes Denoted text m) (slot : α) :
    (readInto fill text).run slot = (.message (), m) := by
  obtain ⟨v, hv, hm⟩ := h
  have hr := hf v slot
  rw [hd.mpr hm] at hr
  simp [readInto, hv, hr]
  rfl

theorem run_readInto_of_not_denotes
    (hf : ∀ v slot, (fill v).run slot = ((ofJson? v).isSome, (ofJson? v).getD slot))
    (hd : ∀ {v m}, ofJson? v = some m ↔ Denoted v m) (h : ∀ m, ¬Denotes Denoted text m) (slot : α) :
    ((readInto fill text).run slot).1.succeeded = false ∧ ((readInto fill text).run slot).2 = slot := by
  cases hv : Json.parse text with
  | error e =>
    rw [readInto, hv]
    exact ⟨rfl, rfl⟩
  | ok v =>
    have hn : ofJson? v = none := Option.eq_none_iff_forall_ne_some.mpr fun m hm =>
      h m ⟨v, hv, hd.mp hm⟩
    have hr := hf v slot
    rw [hn] at hr
    have hs : (readInto fill text).run slot = (.unsuitable, slot) := by
      simp [readInto, hv, hr]
      rfl
    rw [hs]
    exact ⟨rfl, rfl⟩

/-- Each text either settles the object or leaves it alone. -/
theorem allOrNothing_of_fill (fresh : α)
    (hf : ∀ v slot, (fill v).run slot = ((ofJson? v).isSome, (ofJson? v).getD slot))
    (hd : ∀ {v m}, ofJson? v = some m ↔ Denoted v m) : AllOrNothing fill Denoted fresh := by
  have hsome {text m} (h : Denotes Denoted text m) := run_readInto_of_denotes hf hd h
  have hnone {text} (h : ∀ m, ¬Denotes Denoted text m) := run_readInto_of_not_denotes hf hd h
  have hiff : ∀ slot before text,
      (reread fill slot before text).1.succeeded = true ↔ ∃ m, Denotes Denoted text m := by
    intro slot before text
    rcases Classical.em (∃ m, Denotes Denoted text m) with ⟨m, h⟩ | hn
    · rw [reread, hsome h]
      exact iff_of_true rfl ⟨m, h⟩
    · rw [reread, (hnone (not_exists.mp hn) _).1]
      exact iff_of_false Bool.false_ne_true hn
  have hnever : ∀ slot texts, (∀ t ∈ texts, ∀ m, ¬Denotes Denoted t m) →
      refill fill slot texts = slot := by
    intro slot texts h
    induction texts generalizing slot with
    | nil => rfl
    | cons text texts ih =>
      obtain ⟨ht, hs⟩ := List.forall_mem_cons.mp h
      rw [refill, List.foldl_cons, (hnone ht slot).2]
      exact ih slot hs
  refine ⟨hiff, fun slot before text hs => ?_, fun slot before text hs => ?_,
    fun slot before text m h => ?_, fun slot before text after m h ha => ?_, hnever⟩
  · have hn : ¬∃ m, Denotes Denoted text m := fun he =>
      absurd (hs.symm.trans ((hiff slot before text).mpr he)) Bool.false_ne_true
    exact (hnone (not_exists.mp hn) _).2
  · obtain ⟨m, h⟩ := (hiff slot before text).mp hs
    rw [reread, hsome h, hsome h]
  · rw [reread, hsome h]
  · rw [refill, List.foldl_append, List.foldl_cons, hsome h]
    exact hnever m after ha

end

/-- So it is with requests, responses and notifications. -/
theorem messages_allOrNothing :
    AllOrNothing Request.fill Request.Denoted {} ∧ AllOrNothing Response.fill Response.Denoted {} ∧
      AllOrNothing Notification.fill Notification.Denoted {} :=
  ⟨allOrNothing_of_fill _ Request.fill_eq Request.ofJson?_eq_some_iff,
    allOrNothing_of_fill _ Response.fill_eq Response.ofJson?_eq_some_iff,
    allOrNothing_of_fill _ Notification.fill_eq Notification.ofJson?_eq_some_iff⟩

end EditorSession.Rpc
