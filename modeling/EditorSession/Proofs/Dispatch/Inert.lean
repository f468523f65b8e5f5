import EditorSession.Proofs.Dispatch.Cancellation
import EditorSession.Proofs.Dispatch.Notifications

/-! Frames that do nothing. Some of them no dispatcher makes anything of; of others it depends on the
handlers and the pending requests at the moment they are received. -/

namespace EditorSession.Dispatch

variable {H N : Type}

/-- A frame of which a dispatcher makes nothing. -/
inductive Inert (d : Dispatcher H N) (frame : Bytes) : Prop where
  | malformed {e} (h : Json.parse frame = .error e)
  | notObject {v} (h : Json.parse frame = .ok v) (hv : ∀ members, v ≠ .object members)
  /-- No method, no result and no error. -/
  | unrecognized {v} (h : Json.parse frame = .ok v) (hm : v.member? (ascii "method") = none)
      (hr : v.member? (ascii "result") = none) (he : v.member? (ascii "error") = none)
  /-- A result or an error, and no method. -/
  | response {v} (h : Json.parse frame = .ok v) (hm : v.member? (ascii "method") = none)
      (ho : v.member? (ascii "result") ≠ none ∨ v.member? (ascii "error") ≠ none)
  /-- A notification whose method is no text. -/
  | nameless {v m} (h : Json.parse frame = .ok v) (hm : v.member? (ascii "method") = some m)
      (ht : ∀ t, m ≠ .text t) (hi : v.member? (ascii "id") = none)
  /-- A notification without a registered handler. -/
  | unhandled {v method} (h : Json.parse frame = .ok v)
      (hm : v.member? (ascii "method") = some (.text method))
      (hi : v.member? (ascii "id") = none) (hc : method ≠ cancelMethod)
      (hn : Table.get? method d.notificationHandlers = none)
  /-- A cancellation whose params name no usable id. -/
  | unusable {v} (h : Json.parse frame = .ok v)
      (hm : v.member? (ascii "method") = some (.text cancelMethod))
      (hi : v.member? (ascii "id") = none)
      (hu : ∀ params target, v.member? (ascii "params") = some params →
        params.member? (ascii "id") = some target → Rpc.Id.ofJson? target = none)
  /-- A cancellation of an id that is not pending. -/
  | notPending {id} (h : Cancels frame id) (hp : ∀ n, (id.key, n) ∉ d.pending)

namespace Incoming

theorem isObject_eq_false {v : Json} (h : ∀ members, v ≠ .object members) : v.isObject = false := by
  cases v with
  | object members => exact absurd rfl (h members)
  | null | bool | int | real | text | array => rfl

theorem ofFrame_of_method {frame : Bytes} {v m : Json} (h : Json.parse frame = .ok v)
    (hm : v.member? (ascii "method") = some m) (hi : v.member? (ascii "id") = none) :
    ofFrame frame =
      match Rpc.Notification.ofJson? v with
      | some n => ofNotification n
      | none => .namelessNotification := by
  rw [ofFrame, h]
  dsimp only
  rw [if_pos (isObject_of_member? hm), ofJson]
  cases Rpc.Notification.ofJson? v <;> rw [hm, hi]

theorem ofFrame_of_text {frame method : Bytes} {v : Json} (h : Json.parse frame = .ok v)
    (hm : v.member? (ascii "method") = some (.text method)) (hi : v.member? (ascii "id") = none) :
    ofFrame frame = ofNotification ⟨method, v.member? (ascii "params")⟩ := by
  have hn : Rpc.Notification.ofJson? v = some ⟨method, v.member? (ascii "params")⟩ :=
    notification_ofJson?_eq_some_iff.mpr ⟨hm, hi, rfl⟩
  rw [ofFrame_of_method h hm hi, hn]

theorem cancelledId?_eq_none {params : Option Json}
    (h : ∀ v target, params = some v → v.member? (ascii "id") = some target →
      Rpc.Id.ofJson? target = none) : cancelledId? params = none := by
  cases params with
  | none => rfl
  | some v =>
    rw [cancelledId?, Option.bind_some]
    cases ht : v.member? (ascii "id") with
    | none => rfl
    | some target => exact h v target rfl ht

end Incoming

open Incoming

/-- An object without a method is sorted by whether it has a result or an error. -/
theorem receive_of_no_method (d : Dispatcher H N) {v : Json}
    (hm : v.member? (ascii "method") = none) :
    ∃ notices, d.receive (Incoming.ofJson v) = (d, none, notices) := by
  rw [Incoming.ofJson, hm]
  dsimp only
  split <;> exact ⟨_, rfl⟩

/-- A dispatcher that receives an inert frame stays as it is and writes nothing. -/
theorem Inert.receive {d : Dispatcher H N} {frame : Bytes} (h : Inert d frame) :
    ∃ notices, d.receive (.ofFrame frame) = (d, none, notices) := by
  cases h with
  | malformed h =>
    rw [ofFrame, h]
    exact ⟨_, rfl⟩
  | notObject h hv =>
    rw [ofFrame, h]
    dsimp only
    rw [isObject_eq_false hv]
    exact ⟨_, rfl⟩
  | unrecognized h hm | response h hm =>
    rw [ofFrame, h]
    dsimp only
    split
    · exact receive_of_no_method d hm
    · exact ⟨_, rfl⟩
  | @nameless v m h hm ht hi =>
    have hn : Rpc.Notification.ofJson? v = none := by
      rw [Option.eq_none_iff_forall_ne_some]
      intro n hn
      have hmn := (notification_ofJson?_eq_some_iff.mp hn).1
      exact ht _ (Option.some.inj (hm.symm.trans hmn))
    rw [ofFrame_of_method h hm hi, hn]
    exact ⟨_, rfl⟩
  | unhandled h hm hi hc hn =>
    rw [ofFrame_of_text h hm hi, ofNotification, if_neg hc]
    exact ⟨_, by rw [Dispatcher.receive, Dispatcher.receiveNotification, hn]⟩
  | unusable h hm hi hu =>
    rw [ofFrame_of_text h hm hi, ofNotification, if_pos rfl, cancelledId?_eq_none hu]
    exact ⟨_, rfl⟩
  | notPending h hp =>
    rw [ofFrame_eq_cancel_iff.mpr h]
    exact ⟨_, by rw [Dispatcher.receive, Dispatcher.cancel, Table.get?_eq_none_iff.mpr hp]⟩

theorem Inert.fate {d : Dispatcher H N} {frame : Bytes} (h : Inert d frame) :
    d.fate (.ofFrame frame) = .ignored := by
  obtain ⟨notices, hr⟩ := h.receive
  simp [Dispatcher.fate, hr]

theorem Inert.service {s : Service H N} {frame : Bytes} (h : Inert s.dispatcher frame) :
    ∃ notices, s.receive frame = (s, notices) := by
  obtain ⟨notices, hr⟩ := h.receive
  exact ⟨notices, by rw [Service.receive, hr]⟩

end EditorSession.Dispatch
