import EditorSession.Proofs.Dispatch.Wire

/-! Messages survive the wire. A message comes back from its text as it was, whatever message it is
read over, and from a text with the members of its objects in another order it comes back with the
same members. An error comes back with its code, its text and its data, and no request can be taken
for a notification or the other way round. -/

namespace EditorSession

/-! ### Values that differ in the order of members only -/

namespace Json

variable {v w : Json}

theorem Same.member? (h : Same v w) (key : Bytes) :
    Option.Rel Same (v.member? key) (w.member? key) := by
  cases h with
  | @object ms ns hk h =>
    change Option.Rel Same (Table.get? key ms) (Table.get? key ns)
    cases hm : Table.get? key ms with
    | none =>
      have hn : key ∉ Table.keys ns := (hk key).not.mp (Table.get?_eq_none_iff_not_mem_keys.mp hm)
      rw [Table.get?_eq_none_iff_not_mem_keys.mpr hn]
      exact .none
    | some v =>
      cases hn : Table.get? key ns with
      | none =>
        have hn' : key ∉ Table.keys ms := (hk key).not.mpr (Table.get?_eq_none_iff_not_mem_keys.mp hn)
        rw [Table.get?_eq_none_iff_not_mem_keys.mpr hn'] at hm
        cases hm
      | some w => exact .some (h key v w hm hn)
  | null | bool | int | real | text | array => exact .none

theorem Same.textMember? (h : Same v w) (key : Bytes) : v.textMember? key = w.textMember? key := by
  have hm := h.member? key
  unfold Json.textMember?
  generalize v.member? key = x at hm
  generalize w.member? key = y at hm
  cases hm with
  | none => rfl
  | some h => cases h <;> rfl

theorem Same.intMember? (h : Same v w) (key : Bytes) : v.intMember? key = w.intMember? key := by
  have hm := h.member? key
  unfold Json.intMember?
  generalize v.member? key = x at hm
  generalize w.member? key = y at hm
  cases hm with
  | none => rfl
  | some h => cases h <;> rfl

theorem Same.id? (h : Same v w) : Rpc.Id.ofJson? v = Rpc.Id.ofJson? w := by
  cases h <;> rfl

/-- A text of the value, with the members of its objects in any order. -/
def Written (v : Json) (text : Bytes) : Prop := ∃ w : Json, w.Exact ∧ Same w v ∧ text = w.render

/-- What is read from a text of a value is that value, but for the order of members. -/
theorem Written.parse {text : Bytes} (h : Written v text) (hv : v.Exact) (hd : v.depth ≤ 512) :
    ∃ w, Json.parse text = .ok w ∧ Same w v := by
  obtain ⟨w, hw, hs, rfl⟩ := h
  exact ⟨w, parse_render_of_le hw (Nat.le_trans (hs.depth_le hw hv) hd), hs⟩

end Json

namespace Rpc

open Json (Same Written)

/-! ### Messages that differ in the order of members only -/

structure Request.Same (r' r : Request) : Prop where
  id : r'.id = r.id
  method : r'.method = r.method
  params : Option.Rel Json.Same r'.params r.params

structure Notification.Same (n' n : Notification) : Prop where
  method : n'.method = n.method
  params : Option.Rel Json.Same n'.params n.params

structure Response.Same (r' r : Response) : Prop where
  id : r'.id = r.id
  result : Option.Rel Json.Same r'.result r.result
  error : Option.Rel Json.Same r'.error r.error

structure Error.Same (e' e : Error) : Prop where
  code : e'.code = e.code
  message : e'.message = e.message
  data : Option.Rel Json.Same e'.data e.data

variable {v w : Json}

theorem Request.ofJson?_same (h : Json.Same w v) :
    Option.Rel Request.Same (ofJson? w) (ofJson? v) := by
  have hi := h.member? (ascii "id")
  unfold ofJson?
  rw [h.textMember?]
  cases v.textMember? (ascii "method") with
  | none => exact .none
  | some method =>
    generalize w.member? (ascii "id") = x at hi
    generalize v.member? (ascii "id") = y at hi
    cases hi with
    | none => exact .none
    | @some x y hs =>
      simp only [Option.bind_eq_bind, Option.bind_some, hs.id?]
      cases Id.ofJson? y with
      | none => exact .none
      | some id => exact .some ⟨rfl, rfl, h.member? _⟩

theorem Notification.ofJson?_same (h : Json.Same w v) :
    Option.Rel Notification.Same (ofJson? w) (ofJson? v) := by
  have hi := h.member? (ascii "id")
  unfold ofJson?
  rw [h.textMember?]
  cases v.textMember? (ascii "method") with
  | none => exact .none
  | some method =>
    generalize w.member? (ascii "id") = x at hi
    generalize v.member? (ascii "id") = y at hi
    cases hi with
    | none => exact .some ⟨rfl, h.member? _⟩
    | some => exact .none

theorem Error.ofJson?_same (h : Json.Same w v) : Option.Rel Error.Same (ofJson? w) (ofJson? v) := by
  unfold ofJson?
  rw [h.intMember?, h.textMember?]
  cases v.intMember? (ascii "code") with
  | none => exact .none
  | some code =>
    cases v.textMember? (ascii "message") with
    | none => exact .none
    | some message => exact .some ⟨rfl, rfl, h.member? _⟩

theorem Response.ofJson?_same (h : Json.Same w v) :
    Option.Rel Response.Same (ofJson? w) (ofJson? v) := by
  have hi := h.member? (ascii "id")
  have hr := h.member? (ascii "result")
  have he := h.member? (ascii "error")
  unfold ofJson?
  generalize w.member? (ascii "id") = x at hi
  generalize v.member? (ascii "id") = y at hi
  generalize w.member? (ascii "result") = r' at hr
  generalize v.member? (ascii "result") = r at hr
  generalize w.member? (ascii "error") = e' at he
  generalize v.member? (ascii "error") = e at he
  have hn : (r'.isNone ∧ e'.isNone) ↔ (r.isNone ∧ e.isNone) := by
    cases hr <;> cases he <;> rfl
  dsimp only
  by_cases hb : r.isNone ∧ e.isNone
  · rw [if_pos hb, if_pos (hn.mpr hb)]
    exact .none
  · rw [if_neg hb, if_neg (mt hn.mp hb)]
    cases hi with
    | none => exact .some ⟨rfl, hr, he⟩
    | @some x y hs =>
      simp only [hs.id?]
      cases Id.ofJson? y with
      | none => exact .none
      | some id => exact .some ⟨rfl, hr, he⟩

/-! ### What is read from the object of a message -/

theorem Request.ofJson?_toJson (r : Request) : ofJson? r.toJson = some r := by
  obtain ⟨id, method, params⟩ := r
  rw [toJson, Json.record_of_nodup (nodup_keys _)]
  cases params <;>
    simp [ofJson?, Json.textMember?, Json.member?, Table.get?, ascii, versionMember, optionalMember,
      id.ofJson?_toJson]

theorem Notification.ofJson?_toJson (n : Notification) : ofJson? n.toJson = some n := by
  obtain ⟨method, params⟩ := n
  rw [toJson, Json.record_of_nodup (nodup_keys _)]
  cases params <;>
    simp [ofJson?, Json.textMember?, Json.member?, Table.get?, ascii, versionMember, optionalMember]

/-- A request has an id, and a notification must have none. -/
theorem Notification.ofJson?_request (r : Request) : ofJson? r.toJson = none := by
  obtain ⟨id, method, params⟩ := r
  rw [Request.toJson, Json.record_of_nodup (Request.nodup_keys _)]
  cases params <;>
    simp [ofJson?, Json.textMember?, Json.member?, Table.get?, ascii, versionMember, optionalMember]

theorem Request.ofJson?_notification (n : Notification) : ofJson? n.toJson = none := by
  obtain ⟨method, params⟩ := n
  rw [Notification.toJson, Json.record_of_nodup (Notification.nodup_keys _)]
  cases params <;>
    simp [ofJson?, Json.textMember?, Json.member?, Table.get?, ascii, versionMember, optionalMember]

/-- A response with a result and no error, or with an error and no result. -/
def Response.Single (r : Response) : Prop := r.result.isSome ↔ r.error = none

/-- The last member of a response: its error if it has one, and else its result. -/
def Response.outcome (r : Response) : String × Json :=
  match r.error with
  | some e => ("error", e)
  | none => ("result", r.result.getD .null)

theorem Response.toJson_eq (r : Response) :
    r.toJson = .record [versionMember, ("id", r.id.toJson), r.outcome] := by
  obtain ⟨id, result, error⟩ := r
  cases error <;> rfl

theorem Response.nodup_keys (r : Response) :
    ([versionMember, ("id", r.id.toJson), r.outcome].map fun m => ascii m.1).Nodup := by
  obtain ⟨id, result, error⟩ := r
  cases error <;> simp [outcome, versionMember, ascii]

theorem Response.ofJson?_toJson {r : Response} (h : r.Single) : ofJson? r.toJson = some r := by
  obtain ⟨id, result, error⟩ := r
  rw [toJson_eq, Json.record_of_nodup (nodup_keys _)]
  cases error with
  | none =>
    obtain ⟨v, rfl⟩ := Option.isSome_iff_exists.mp (h.mpr rfl)
    simp [ofJson?, outcome, Json.member?, Table.get?, ascii, versionMember, id.ofJson?_toJson]
  | some e =>
    obtain rfl : result = none := Option.not_isSome_iff_eq_none.mp fun hr =>
      Option.some_ne_none e (h.mp hr)
    simp [ofJson?, outcome, Json.member?, Table.get?, ascii, versionMember, id.ofJson?_toJson]

/-- The members of an error object. -/
def Error.members (e : Error) : List (String × Json) :=
  [("code", .int e.code.toInt64), ("message", .text e.message)] ++ optionalMember "data" e.data

theorem Error.toJson_eq (e : Error) : e.toJson = .record e.members := by
  obtain ⟨code, message, data⟩ := e
  cases data <;> rfl

theorem Error.nodup_keys (e : Error) : (e.members.map fun m => ascii m.1).Nodup := by
  obtain ⟨code, message, data⟩ := e
  cases data <;> simp [members, optionalMember, ascii]

/-- A code has 32 bits, so that nothing of it is cut off. -/
theorem Error.ofJson?_toJson (e : Error) : ofJson? e.toJson = some e := by
  obtain ⟨code, message, data⟩ := e
  rw [toJson_eq, Json.record_of_nodup (nodup_keys _)]
  cases data <;>
    simp [ofJson?, members, Json.intMember?, Json.textMember?, Json.member?, Table.get?, ascii,
      optionalMember]

theorem Response.legible_toJson {r : Response} (hr : Legible r.result) (he : Legible r.error) :
    r.toJson.Exact ∧ r.toJson.depth ≤ 512 := by
  rw [r.toJson_eq]
  refine legible_record r.nodup_keys ?_
  simp only [List.forall_mem_cons, List.not_mem_nil, false_implies, implies_true, and_true]
  refine ⟨⟨.text _, Nat.zero_le _⟩, ⟨r.id.exact_toJson, by simp [r.id.depth_toJson]⟩, ?_⟩
  obtain ⟨id, result, error⟩ := r
  cases error with
  | some e => exact he e rfl
  | none =>
    cases result with
    | some v => exact hr v rfl
    | none => exact ⟨.null, Nat.zero_le _⟩

/-- The data of an error comes back when the error stands in a response, two levels down. -/
theorem Error.legible_toJson {e : Error} (h : ∀ v, e.data = some v → v.Exact ∧ v.depth ≤ 510) :
    e.toJson.Exact ∧ e.toJson.depth ≤ 511 := by
  rw [e.toJson_eq]
  refine legible_record e.nodup_keys ?_
  simp only [Error.members, List.forall_mem_append, List.forall_mem_cons, List.not_mem_nil,
    false_implies, implies_true, and_true]
  exact ⟨⟨⟨.int _, Nat.zero_le _⟩, ⟨.text _, Nat.zero_le _⟩⟩, legible_optionalMember h _⟩

/-! ### There and back -/

/-- The reading succeeds, and whatever message it is read over, the message is then as `P` says. -/
def Reading.Yields {α : Type} (reading : Reading α) (P : α → Prop) : Prop :=
  reading.succeeded = true ∧ ∀ slot, P (reading.into slot)

section

variable {α : Type} {ofJson? : Json → Option α} {text : Bytes} {P : α → Prop}

theorem readWith_yields {w : Json} {m : α} (hw : Json.parse text = .ok w) (hm : ofJson? w = some m)
    (hP : P m) : (readWith ofJson? text).Yields P := by
  simp [readWith, hw, hm, Reading.Yields, Reading.succeeded, Reading.into, hP]

/-- A kind of message whose reading does not depend on the order of members. -/
theorem yields_written {v : Json} {m : α} {Alike : α → α → Prop}
    (hv : v.Exact ∧ v.depth ≤ 512)
    (hj : ∀ w, Json.Same w v → Option.Rel Alike (ofJson? w) (ofJson? v)) (hm : ofJson? v = some m)
    (ht : Written v text) : (readWith ofJson? text).Yields (Alike · m) := by
  obtain ⟨w, hw, hs⟩ := ht.parse hv.1 hv.2
  have h := hj w hs
  rw [hm] at h
  generalize hu : ofJson? w = u at h
  obtain ⟨h⟩ := h
  exact readWith_yields hw hu h

/-- A text of an object that is no message of a kind is no message of the kind. -/
theorem unsuitable_written {v : Json} {Alike : α → α → Prop} (hv : v.Exact ∧ v.depth ≤ 512)
    (hj : ∀ w, Json.Same w v → Option.Rel Alike (ofJson? w) (ofJson? v)) (hm : ofJson? v = none)
    (ht : Written v text) : readWith ofJson? text = .unsuitable := by
  obtain ⟨w, hw, hs⟩ := ht.parse hv.1 hv.2
  have h := hj w hs
  rw [hm] at h
  generalize hu : ofJson? w = u at h
  obtain _ | _ := h
  simp [readWith, hw, hu]

end

/-- Messages survive the wire. -/
structure SurviveWire : Prop where
  /-- A request comes back as it was, absent params as absent and null params as null. -/
  request : ∀ r : Request, Legible r.params →
    (Request.read r.encode).Yields (· = r) ∧
      ∀ text, Written r.toJson text → (Request.read text).Yields (Request.Same · r)
  notification : ∀ n : Notification, Legible n.params →
    (Notification.read n.encode).Yields (· = n) ∧
      ∀ text, Written n.toJson text → (Notification.read text).Yields (Notification.Same · n)
  response : ∀ r : Response, r.Single → Legible r.result → Legible r.error →
    (Response.read r.encode).Yields (· = r) ∧
      ∀ text, Written r.toJson text → (Response.read text).Yields (Response.Same · r)
  /-- An error comes back out of the response made of it, in the category of its code. -/
  error : ∀ (id : Id) (e : Error), (∀ v, e.data = some v → v.Exact ∧ v.depth ≤ 510) →
    (Response.read (Response.ofError id e).encode).Yields (fun r =>
      r.id = id ∧ r.error? = some e ∧ r.error?.map Error.category = some (Category.ofCode e.code)) ∧
      ∀ text, Written (Response.ofError id e).toJson text →
        (Response.read text).Yields fun r => r.id = id ∧ ∃ e', r.error? = some e' ∧ e'.Same e ∧
          e'.category = Category.ofCode e.code
  /-- The object of a request is no notification, and no text of it is read as one. -/
  requestRefused : ∀ r : Request, Notification.ofJson? r.toJson = none ∧
    (Legible r.params → ∀ text, Written r.toJson text → Notification.read text = .unsuitable)
  notificationRefused : ∀ n : Notification, Request.ofJson? n.toJson = none ∧
    (Legible n.params → ∀ text, Written n.toJson text → Request.read text = .unsuitable)

theorem Response.single_ofError (id : Id) (e : Error) : (ofError id e).Single := by
  simp [Single, ofError]

theorem Response.legible_ofError (id : Id) {e : Error}
    (h : ∀ v, e.data = some v → v.Exact ∧ v.depth ≤ 510) :
    (ofError id e).toJson.Exact ∧ (ofError id e).toJson.depth ≤ 512 := by
  refine legible_toJson (fun v hv => nomatch hv) fun v hv => ?_
  obtain rfl : e.toJson = v := Option.some.inj hv
  exact Error.legible_toJson h

/-- The error of a response like one made of an error is that error, but for the order of members. -/
theorem Response.Same.error?_ofError {r : Response} {id : Id} {e : Error}
    (h : r.Same (ofError id e)) : ∃ e', r.error? = some e' ∧ e'.Same e := by
  have he : Option.Rel Json.Same r.error (some e.toJson) := h.error
  cases hr : r.error with
  | none => rw [hr] at he; cases he
  | some v =>
    rw [hr] at he
    obtain ⟨hs⟩ := he
    have hj := Error.ofJson?_same hs
    rw [e.ofJson?_toJson] at hj
    generalize hu : Error.ofJson? v = u at hj
    obtain ⟨hj⟩ := hj
    exact ⟨_, by rw [error?, hr]; exact hu, hj⟩

theorem surviveWire : SurviveWire where
  request r h := by
    have hj := r.ofJson?_toJson
    exact ⟨readWith_yields (r.parse_encode h) hj rfl,
      fun _ ht => yields_written (Request.legible_toJson h) (fun _ => Request.ofJson?_same) hj ht⟩
  notification n h := by
    have hj := n.ofJson?_toJson
    exact ⟨readWith_yields (n.parse_encode h) hj rfl, fun _ ht =>
      yields_written (Notification.legible_toJson h) (fun _ => Notification.ofJson?_same) hj ht⟩
  response r h hr he := by
    have hv := Response.legible_toJson hr he
    have hj := Response.ofJson?_toJson h
    exact ⟨readWith_yields (Json.parse_render_of_le hv.1 hv.2) hj rfl,
      fun _ ht => yields_written hv (fun _ => Response.ofJson?_same) hj ht⟩
  error id e h := by
    have hv := Response.legible_ofError id h
    have hj := Response.ofJson?_toJson (Response.single_ofError id e)
    have he : (Response.ofError id e).error? = some e := e.ofJson?_toJson
    refine ⟨readWith_yields (Json.parse_render_of_le hv.1 hv.2) hj ⟨rfl, he, by rw [he]; rfl⟩,
      fun text ht => ?_⟩
    obtain ⟨hok, hs⟩ := yields_written hv (fun _ => Response.ofJson?_same) hj ht
    refine ⟨hok, fun slot => ⟨(hs slot).id, ?_⟩⟩
    obtain ⟨e', he', hs'⟩ := (hs slot).error?_ofError
    exact ⟨e', he', hs', by rw [Error.category, hs'.code]⟩
  requestRefused r := by
    have hj := Notification.ofJson?_request r
    exact ⟨hj, fun h _ ht =>
      unsuitable_written (Request.legible_toJson h) (fun _ => Notification.ofJson?_same) hj ht⟩
  notificationRefused n := by
    have hj := Request.ofJson?_notification n
    exact ⟨hj, fun h _ ht =>
      unsuitable_written (Notification.legible_toJson h) (fun _ => Request.ofJson?_same) hj ht⟩

/-- A request with a zero byte for its method comes back with null params, and without any. -/
theorem surviveWire_nullParams :
    (Legible (some .null) ∧ Legible none) ∧
      (Request.read (Request.encode ⟨.null, [0], some .null⟩)).Yields (· = ⟨.null, [0], some .null⟩) ∧
      (Request.read (Request.encode ⟨.null, [0], none⟩)).Yields (· = ⟨.null, [0], none⟩) := by
  have hn : Legible (some .null) := by
    rintro _ ⟨⟩
    exact ⟨.null, Nat.zero_le _⟩
  have ha : Legible none := by rintro _ ⟨⟩
  exact ⟨⟨hn, ha⟩, (surviveWire.request _ hn).1, (surviveWire.request _ ha).1⟩

end Rpc

end EditorSession
