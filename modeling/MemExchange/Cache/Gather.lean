import MemExchange.Lib.Run

/-!
# The messages of a response

A response is a list of messages, for UDP of datagrams. `transmit` takes off what `sendmsg` has sent.
The arrays that hold the messages come with `Vectors`.
-/
namespace MemExchange.Gather

def iovMax : Nat := 1024

def udpMaxPayloadSize : Nat := 1400

def udpHeaderSize : Nat := 8

/-- The entries of a message. The first one of a datagram is for its header. -/
abbrev Message := List (List UInt8)

def udpHeader (requestId i msgused : Nat) : List UInt8 :=
  [requestId / 256, requestId % 256, i / 256, i % 256, msgused / 256, msgused % 256, 0, 0].map .ofNat

/-! ### Sending -/

/-- What is left of the messages, and what `sendmsg` has taken. -/
structure Sending where
  pending : List Message
  wire : List (List UInt8) := []

variable (s : Sending)

def Sending.bytes : List UInt8 := s.wire.flatten ++ s.pending.flatten.flatten

inductive Outcome where
  | sent (res : Nat)
  | wouldBlock
  | failed

variable (o : Outcome)

inductive TransmitResult where
  | complete
  | incomplete
  | softError
  | hardError

/-- The entries that were sent are taken off, and the sent part of the next one. -/
def trim : Message → Nat → Message
  | [], _ => []
  | v :: vs, res => if v.length ≤ res then trim vs (res - v.length) else v.drop res :: vs

def advance : List Message → List Message
  | [] :: rest => rest
  | pending => pending

def transmit : TransmitResult × Sending :=
  match advance s.pending with
  | [] => (.complete, { s with pending := [] })
  | m :: rest =>
    match o with
    | .sent res => (.incomplete, ⟨trim m res :: rest, s.wire ++ [m.flatten.take res]⟩)
    | .wouldBlock => (.softError, { s with pending := m :: rest })
    | .failed => (.hardError, { s with pending := m :: rest })

/-- A call of `transmit` that has something to send. -/
def step : Option Sending :=
  match advance s.pending, o with
  | [], _ => none
  | m :: _, .sent res => if 0 < res ∧ res ≤ m.flatten.length then some (transmit s o).2 else none
  | _, _ => some (transmit s o).2

theorem trim_flatten (m : Message) (res : Nat) : (trim m res).flatten = m.flatten.drop res := by
  induction m generalizing res with
  | nil => simp [trim]
  | cons v vs ih =>
    rw [trim, List.flatten_cons]
    split
    next whole => rw [ih, List.drop_append, List.drop_eq_nil_of_le whole, List.nil_append]
    next partly => rw [List.flatten_cons, List.drop_append_of_le_length (by omega)]

theorem advance_flatten (pending : List Message) : (advance pending).flatten = pending.flatten := by
  rcases pending with _ | ⟨_ | _, _⟩ <;> rfl

/-- A call sends a part of the current message, or nothing. -/
theorem step_cases {s s' : Sending} {o : Outcome} (called : step s o = some s') :
    s' = (transmit s o).2 ∧ ∃ m rest, advance s.pending = m :: rest ∧
      ((∃ res, o = .sent res ∧ 0 < res ∧ res ≤ m.flatten.length ∧
        s' = ⟨trim m res :: rest, s.wire ++ [m.flatten.take res]⟩) ∨
        s' = { s with pending := m :: rest }) := by
  unfold step at called
  unfold transmit at called ⊢
  cases ahead : advance s.pending with
  | nil => simp [ahead] at called
  | cons m rest =>
    cases o with
    | sent res =>
      simp only [ahead, Option.ite_none_right_eq_some, Option.some.injEq] at called
      exact ⟨called.2.symm, m, rest, rfl, .inl ⟨res, rfl, called.1.1, called.1.2, called.2.symm⟩⟩
    | wouldBlock | failed =>
      simp only [ahead, Option.some.injEq] at called
      exact ⟨called.symm, m, rest, rfl, .inr called.symm⟩

theorem step_bytes {s s' : Sending} {o : Outcome} (called : step s o = some s') :
    s'.bytes = s.bytes := by
  obtain ⟨-, m, rest, ahead, ⟨res, -, -, -, rfl⟩ | rfl⟩ := step_cases called <;>
    rw [Sending.bytes, Sending.bytes, ← advance_flatten s.pending, ahead]
  simp only [List.flatten_append, List.flatten_cons, List.flatten_nil, List.append_nil,
    List.append_assoc, trim_flatten]
  rw [← List.append_assoc (m.flatten.take res), List.take_append_drop]

theorem advance_of_complete {s : Sending} {o : Outcome} (complete : (transmit s o).1 = .complete) :
    advance s.pending = [] := by
  unfold transmit at complete
  cases ahead : advance s.pending with
  | nil => rfl
  | cons m rest => cases o <;> simp [ahead] at complete

/-- Whatever part of a message each `sendmsg` takes, what was sent is followed by what is left, and
the last call finds everything sent. -/
theorem sends_messages_in_order (msgs : List Message) (outcomes : List Outcome) :
    Run.Always step (fun s => s.bytes = msgs.flatten.flatten ∧
      ∀ o, (transmit s o).1 = .complete → s.wire.flatten = msgs.flatten.flatten)
      ⟨msgs, []⟩ outcomes := by
  have always : Run.Always step (fun s => s.bytes = msgs.flatten.flatten) ⟨msgs, []⟩ outcomes :=
    Run.always_of_step (fun _ _ _ sent called => (step_bytes called).trans sent) (by rfl) outcomes
  refine Run.always_mono (fun s sent => ⟨sent, fun o complete => ?_⟩) always
  rw [← sent, Sending.bytes, ← advance_flatten s.pending, advance_of_complete complete]
  simp

end MemExchange.Gather
