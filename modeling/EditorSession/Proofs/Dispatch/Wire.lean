import EditorSession.Dispatch.Incoming
import EditorSession.Proofs.Json.RoundTrip

/-! Messages on the wire. What is written for a request or a notification is received as that message,
and what is written for a response is never what is written for a notification. -/

namespace EditorSession

theorem Json.record_of_nodup {members : List (String × Json)}
    (h : (members.map fun m => ascii m.1).Nodup) :
    record members = object (members.map fun m => (ascii m.1, m.2)) := by
  rw [record, Table.ofPairs_of_nodup]
  simpa [Table.keys, Function.comp_def] using h

namespace Rpc

/-- The params come back from their text when they stand in a message. -/
def Legible (params : Option Json) : Prop := ∀ v, params = some v → v.Exact ∧ v.depth ≤ 511

theorem Id.exact_toJson (id : Id) : id.toJson.Exact := by
  cases id with
  | text s => exact .text s
  | number n => exact .int n
  | null => exact .null

theorem Id.depth_toJson (id : Id) : id.toJson.depth = 0 := by
  cases id <;> rfl

theorem Id.ofJson?_toJson (id : Id) : Id.ofJson? id.toJson = some id := by
  cases id <;> rfl

/-- A record is one level deeper than its members. -/
theorem legible_record {members : List (String × Json)} {n : Nat}
    (hk : (members.map fun m => ascii m.1).Nodup) (hm : ∀ m ∈ members, m.2.Exact ∧ m.2.depth ≤ n) :
    (Json.record members).Exact ∧ (Json.record members).depth ≤ n + 1 := by
  rw [Json.record_of_nodup hk]
  refine ⟨.object ?_ ?_, Nat.succ_le_succ (Json.deepestMember_le_iff.mpr ?_)⟩
  · simpa [Table.keys, Function.comp_def] using hk
  · exact List.forall_mem_map.mpr fun m h => (hm m h).1
  · exact List.forall_mem_map.mpr fun m h => (hm m h).2

theorem legible_optionalMember {v? : Option Json} {n : Nat}
    (h : ∀ v, v? = some v → v.Exact ∧ v.depth ≤ n) (key : String) :
    ∀ m ∈ optionalMember key v?, m.2.Exact ∧ m.2.depth ≤ n := by
  cases v? with
  | none => simp [optionalMember]
  | some v => simpa [optionalMember] using h v rfl

theorem Request.nodup_keys (r : Request) :
    (([versionMember, ("id", r.id.toJson), ("method", .text r.method)] ++
      optionalMember "params" r.params).map fun m => ascii m.1).Nodup := by
  cases r.params <;> simp [optionalMember, versionMember, ascii]

theorem Request.legible_toJson {r : Request} (h : Legible r.params) :
    r.toJson.Exact ∧ r.toJson.depth ≤ 512 := by
  refine legible_record r.nodup_keys ?_
  simp only [List.forall_mem_append, List.forall_mem_cons, List.not_mem_nil, false_implies,
    implies_true, and_true]
  exact ⟨⟨⟨.text _, Nat.zero_le _⟩, ⟨r.id.exact_toJson, by simp [r.id.depth_toJson]⟩,
    ⟨.text _, Nat.zero_le _⟩⟩, legible_optionalMember h _⟩

theorem Request.parse_encode (r : Request) (h : Legible r.params) :
    Json.parse r.encode = .ok r.toJson :=
  Json.parse_render_of_le (legible_toJson h).1 (legible_toJson h).2

theorem Notification.nodup_keys (n : Notification) :
    (([versionMember, ("method", .text n.method)] ++
      optionalMember "params" n.params).map fun m => ascii m.1).Nodup := by
  cases n.params <;> simp [optionalMember, versionMember, ascii]

theorem Notification.legible_toJson {n : Notification} (h : Legible n.params) :
    n.toJson.Exact ∧ n.toJson.depth ≤ 512 := by
  refine legible_record n.nodup_keys ?_
  simp only [List.forall_mem_append, List.forall_mem_cons, List.not_mem_nil, false_implies,
    implies_true, and_true]
  exact ⟨⟨⟨.text _, Nat.zero_le _⟩, ⟨.text _, Nat.zero_le _⟩⟩, legible_optionalMember h _⟩

theorem Notification.parse_encode (n : Notification) (h : Legible n.params) :
    Json.parse n.encode = .ok n.toJson :=
  Json.parse_render_of_le (legible_toJson h).1 (legible_toJson h).2

/-- No response is written like a notification: its id stands where the method would. -/
theorem Response.encode_ne_notification (r : Response) (n : Notification) : r.encode ≠ n.encode := by
  obtain ⟨id, result, error⟩ := r
  obtain ⟨method, params⟩ := n
  cases error <;> cases params <;>
    simp [Response.encode, Response.toJson, Notification.encode, Notification.toJson, Json.render,
      Json.record, Table.ofPairs, Table.set, versionMember, optionalMember, ascii, Json.renderWith,
      Json.renderWith.members_, Json.quote, Json.escapeByte]

end Rpc

namespace Dispatch.Incoming

theorem ofFrame_request (r : Rpc.Request) (h : Rpc.Legible r.params) :
    ofFrame r.encode = .request r := by
  obtain ⟨id, method, params⟩ := r
  rw [ofFrame, Rpc.Request.parse_encode _ h, Rpc.Request.toJson,
    Json.record_of_nodup (Rpc.Request.nodup_keys _)]
  cases params <;>
    simp [Json.isObject, Json.kind, ofJson, Json.member?, Table.get?, ascii, Rpc.versionMember,
      Rpc.optionalMember, Rpc.Request.ofJson?, Json.textMember?, id.ofJson?_toJson]

theorem ofFrame_notification (n : Rpc.Notification) (h : Rpc.Legible n.params)
    (hm : n.method ≠ cancelMethod) : ofFrame n.encode = .notification n := by
  obtain ⟨method, params⟩ := n
  rw [ofFrame, Rpc.Notification.parse_encode _ h, Rpc.Notification.toJson,
    Json.record_of_nodup (Rpc.Notification.nodup_keys _)]
  cases params <;>
    simp [Json.isObject, Json.kind, ofJson, Json.member?, Table.get?, ascii, Rpc.versionMember,
      Rpc.optionalMember, Rpc.Notification.ofJson?, Json.textMember?, ofNotification, hm]

end Dispatch.Incoming

end EditorSession
