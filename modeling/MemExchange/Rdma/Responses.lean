import MemExchange.Rdma.Reads

/-!
# Responses that wait for their clients

A response to a remote GET points into the ring of the connection the item was read over, and the
lock of the ring is given up before the response is sent. The client may take its bytes late and in
parts, and reads that timed out may still be coming. The header and the flags, which are in the
client's own buffer, do not occur here.
-/
namespace MemExchange.Rdma

variable {ι κ : Type} [DecidableEq κ]

/-- A response that waits. `iov` is what is still to be sent, as places in the item and lengths, and
`content` is the item as `get_remote_item` returned it. -/
structure Response (κ : Type) extends Hold κ where
  content : Nat → UInt8
  iov : List (Nat × Nat)

def gather (bytes : Nat → UInt8) (iov : List (Nat × Nat)) : List UInt8 :=
  iov.flatMap fun (base, len) => (List.range len).map fun i => bytes (base + i)

/-- What `transmit` leaves of the iovecs when `res` bytes were taken -/
def dropSent : Nat → List (Nat × Nat) → List (Nat × Nat)
  | _, [] => []
  | res, (base, len) :: iov =>
    if len ≤ res then dropSent (res - len) iov else (base + res, len - res) :: iov

structure Server (ι κ : Type) extends Receiver ι κ where
  waiting : List (Response κ) := []

/-- `read` is a step of `get_remote_item` or of the adapter, and `iov` are the places in the item that
the response refers to if that returns one. `transmit` sends some bytes of a response, and `close`
gives it up. -/
inductive Event (ι : Type) where
  | read (a : Arrival ι) (iov : List (Nat × Nat))
  | transmit (i : Nat) (res : Nat)
  | close (i : Nat)

namespace Server

/-- The responses that wait, with how far the position goes on by a call. -/
def onward (remote : Remote ι κ) (w : Server ι κ) : Arrival ι → List (Response κ)
  | .call r _ => w.waiting.map fun q => { q with toHold := q.toHold.after w.ring (remote.read r) }
  | _ => w.waiting

def step (remote : Remote ι κ) (w : Server ι κ) : Event ι → Option (Server ι κ)
  | .read a iov =>
    (w.toReceiver.step remote a).bind fun s =>
      match w.returns a with
      | some f =>
        if ∀ v ∈ iov, v.1 + v.2 ≤ f.span.size then
          some ⟨s, w.waiting ++ [{ toHold := f.toHold, content := w.current f.span, iov := iov }]⟩
        else none
      | none => some ⟨s, w.onward remote a⟩
  | .transmit i res =>
    (w.waiting[i]?).bind fun q =>
      let left := dropSent res q.iov
      if 0 < res ∧ res ≤ (gather (w.current q.span) q.iov).length then
        if left = [] then some { w with waiting := w.waiting.eraseIdx i }
        else some { w with waiting := w.waiting.set i { q with iov := left } }
      else none
  | .close i => some { w with waiting := w.waiting.eraseIdx i }

end Server

open Server

variable {size : Nat} (remote : Remote ι κ) (w : Server ι κ)

/-- A call is given a place that no waiting response refers to, and the bytes that are sent are those
that `get_remote_item` returned. -/
def Undisturbed : Event ι → Prop
  | .read (.call r _) _ => ∀ q ∈ w.waiting,
      (w.ring.take (remote.read r).conn (remote.read r).size).1.Apart q.span
  | .transmit i res => ∀ q ∈ w.waiting[i]?,
      (gather (w.current q.span) q.iov).take res = (gather q.content q.iov).take res
  | _ => True

/-- When a call is made, the position has not gone on too far since the responses that wait, and the
reads are prompt. -/
def Roomy (remote : Remote ι κ) (w : Server ι κ) : Event ι → Prop
  | .read (.call r accepted) _ => Prompt remote w.toReceiver (.call r accepted) ∧
      ∀ q ∈ w.waiting, q.Roomy w.ring (remote.read r)
  | .read a _ => Prompt remote w.toReceiver a
  | _ => True

instance : ∀ a, Decidable (Roomy remote w a)
  | .read (.call _ _) _ => inferInstanceAs (Decidable (_ ∧ ∀ q ∈ w.waiting, _))
  | .read (.deposit j len) _ => inferInstanceAs (Decidable (Prompt remote w.toReceiver (.deposit j len)))
  | .read .poll _ | .read .timeout _ | .transmit _ _ | .close _ => isTrue trivial

instance : ∀ a, Decidable (Undisturbed remote w a)
  | .read (.call _ _) _ => inferInstanceAs (Decidable (∀ q ∈ w.waiting, _))
  | .transmit i _ => inferInstanceAs (Decidable (∀ q ∈ w.waiting[i]?, _))
  | .read (.deposit _ _) _ | .read .poll _ | .read .timeout _ | .close _ => isTrue trivial

/-! ### Responses that nothing comes to -/

/-- A response is as it was returned, the position has not come around to it, and the reads that are
still to come go elsewhere. -/
structure Response.Intact (s : Receiver ι κ) (q : Response κ) : Prop where
  ahead : q.Ahead s.ring
  iov : ∀ v ∈ q.iov, v.1 + v.2 ≤ q.span.size
  bytes : ∀ i < q.span.size, s.current q.span i = q.content i
  apart : ∀ f ∈ s.flights, f.Done ∨ f.span.Apart q.span

structure Server.Inv (remote : Remote ι κ) (w : Server ι κ) : Prop where
  reads : w.toReceiver.Inv remote
  intact : ∀ q ∈ w.waiting, q.Intact w.toReceiver

theorem gather_congr {bytes bytes' : Nat → UInt8} {iov : List (Nat × Nat)}
    (inside : ∀ v ∈ iov, v.1 + v.2 ≤ size) (same : ∀ i < size, bytes i = bytes' i) :
    gather bytes iov = gather bytes' iov := by
  unfold gather
  refine List.flatMap_congr fun v mem => List.map_congr_left fun i below => same _ ?_
  have := inside v mem
  have := List.mem_range.mp below
  omega

theorem dropSent_inside (res : Nat) (iov : List (Nat × Nat))
    (inside : ∀ v ∈ iov, v.1 + v.2 ≤ size) : ∀ v ∈ dropSent res iov, v.1 + v.2 ≤ size := by
  induction iov generalizing res with
  | nil => simp [dropSent]
  | cons head rest ih =>
    obtain ⟨base, len⟩ := head
    have here := inside (base, len) (by simp)
    have later := ih (res - len) fun v mem => inside v (by simp [mem])
    unfold dropSent
    split
    · exact later
    · intro v mem
      rcases List.mem_cons.mp mem with rfl | mem
      · dsimp only at here ⊢
        omega
      · exact inside v (by simp [mem])

section Steps

variable {remote w} {s t : Receiver ι κ} {q : Response κ}

theorem Response.Intact.call {r : ι} {accepted : Bool} (intact : q.Intact s)
    (roomy : q.Roomy s.ring (remote.read r)) (called : s.step remote (.call r accepted) = some t) :
    Response.Intact t { q with toHold := q.toHold.after s.ring (remote.read r) } := by
  obtain ⟨apart, ahead⟩ := intact.ahead.advance roomy
  have moved : ∀ f ∈ s.flights.map (·.after s.ring (remote.read r)), f.Done ∨ f.span.Apart q.span := by
    intro f member
    obtain ⟨f, old, rfl⟩ := List.mem_map.mp member
    have span : (f.after s.ring (remote.read r)).span = f.span := Hold.after_span
    rw [Flight.Done, span]
    exact intact.apart f old
  have bytes : ∀ i < q.span.size, write s.region
      (s.ring.take (remote.read r).conn (remote.read r).size).1 (fun _ => 0) q.span.conn
        (q.span.start + i) = q.content i := fun i below =>
    (write_outside apart below).trans (intact.bytes i below)
  unfold Receiver.step at called
  dsimp only at called
  split at called
  · cases called
  split at called <;> cases called
  · refine ⟨ahead, ?_, ?_, fun f member => ?_⟩
    · simpa using intact.iov
    · simpa [Receiver.current] using bytes
    · rw [Hold.after_span]
      rcases List.mem_append.mp member with old | new
      · exact moved f old
      · rw [List.mem_singleton.mp new]
        exact .inr apart
  · refine ⟨ahead, ?_, ?_, ?_⟩
    · simpa using intact.iov
    · simpa [Receiver.current] using bytes
    · rwa [Hold.after_span]

theorem Response.Intact.deposit {j len : Nat} (intact : q.Intact s)
    (called : s.step remote (.deposit j len) = some t) : q.Intact t := by
  obtain ⟨f, here, going, some, room, rfl⟩ := Receiver.step_deposit called
  have elsewhere := (intact.apart f (List.mem_of_getElem? here)).resolve_left going
  refine ⟨intact.ahead, intact.iov, fun i below => ?_, fun g member => ?_⟩
  · rw [← intact.bytes i below]
    unfold Receiver.current
    dsimp only
    exact write_outside (elsewhere.part _ len (Nat.le_add_right _ f.pos) (by omega)) below
  · rcases List.mem_or_eq_of_mem_set member with old | rfl
    · exact intact.apart g old
    · exact .inr elsewhere

/-- A step of a read leaves the responses that wait as they are. -/
theorem Server.Inv.onward (inv : w.Inv remote) {a : Arrival ι} {iov : List (Nat × Nat)}
    (roomy : Roomy remote w (.read a iov)) (called : w.toReceiver.step remote a = some t) :
    ∀ q ∈ w.onward remote a, q.Intact t := by
  cases a with
  | call r accepted =>
    intro _ image
    obtain ⟨q, member, rfl⟩ := List.mem_map.mp image
    exact (inv.intact q member).call (roomy.2 q member) called
  | deposit j len => exact fun q member => (inv.intact q member).deposit called
  | timeout =>
    obtain ⟨-, ⟨⟩⟩ := Option.ite_none_right_eq_some.mp called
    exact fun q member => ⟨(inv.intact q member).1, (inv.intact q member).2,
      (inv.intact q member).3, (inv.intact q member).4⟩
  | poll =>
    obtain ⟨-, called⟩ := Option.ite_none_right_eq_some.mp called
    obtain ⟨f, -, rfl⟩ := Option.map_eq_some_iff.mp called
    exact fun q member => ⟨(inv.intact q member).1, (inv.intact q member).2,
      (inv.intact q member).3, (inv.intact q member).4⟩

/-- The response to a call that returns begins as the item is. -/
theorem Server.Inv.respond (inv : w.Inv remote) {a : Arrival ι} {f : Flight ι κ}
    (returned : w.returns a = some f) (called : w.toReceiver.step remote a = some t)
    {iov : List (Nat × Nat)} (inside : ∀ v ∈ iov, v.1 + v.2 ≤ f.span.size) :
    Response.Intact t { toHold := f.toHold, content := w.current f.span, iov := iov } := by
  obtain ⟨rfl, last, waits, some⟩ := Receiver.returns_eq_some returned
  obtain ⟨g, last', awaited⟩ := inv.reads.awaited waits
  cases Option.mem_unique last last'
  obtain ⟨-, called⟩ := Option.ite_none_right_eq_some.mp called
  obtain ⟨-, -, rfl⟩ := Option.map_eq_some_iff.mp called
  refine ⟨awaited.ahead, inside, fun _ _ => rfl, fun g member => ?_⟩
  dsimp only at member
  rw [← List.dropLast_append_getLast? f last] at member
  rcases List.mem_append.mp member with before | this
  · exact awaited.apart g before
  · rw [List.mem_singleton.mp this]
    exact .inl (awaited.done some)

/-- Every step keeps the responses as they were returned. -/
theorem Server.inv_step (w : Server ι κ) (a : Event ι) (t : Server ι κ) (inv : w.Inv remote)
    (roomy : Roomy remote w a) (called : w.step remote a = some t) : t.Inv remote := by
  cases a with
  | read a iov =>
    obtain ⟨s, stepped, called⟩ := Option.bind_eq_some_iff.mp called
    have onward := inv.onward roomy stepped
    have reads : s.Inv remote := by
      refine Receiver.inv_step w.toReceiver a s inv.reads ?_ stepped
      cases a with
      | call r accepted => exact roomy.1
      | _ => exact roomy
    split at called
    next f returned =>
      obtain ⟨inside, ⟨⟩⟩ := Option.ite_none_right_eq_some.mp called
      refine ⟨reads, fun q member => ?_⟩
      rcases List.mem_append.mp member with old | new
      · obtain ⟨rfl, -⟩ := Receiver.returns_eq_some returned
        exact onward q old
      · rw [List.mem_singleton.mp new]
        exact inv.respond returned stepped inside
    next =>
      cases called
      exact ⟨reads, onward⟩
  | close i =>
    cases called
    exact ⟨inv.reads, fun q member => inv.intact q (List.mem_of_mem_eraseIdx member)⟩
  | transmit i res =>
    obtain ⟨q, here, called⟩ := Option.bind_eq_some_iff.mp called
    obtain ⟨-, called⟩ := Option.ite_none_right_eq_some.mp called
    obtain ⟨ahead, inside, bytes, apart⟩ := inv.intact q (List.mem_of_getElem? here)
    split at called
    · cases called
      exact ⟨inv.reads, fun q member => inv.intact q (List.mem_of_mem_eraseIdx member)⟩
    · cases called
      refine ⟨inv.reads, fun p member => ?_⟩
      rcases List.mem_or_eq_of_mem_set member with old | rfl
      · exact inv.intact p old
      · exact ⟨ahead, dropSent_inside res q.iov inside, bytes, apart⟩

theorem Server.Inv.undisturbed (inv : w.Inv remote) {a : Event ι} (roomy : Roomy remote w a) :
    Undisturbed remote w a := by
  cases a with
  | read a iov =>
    cases a with
    | call r accepted =>
      exact fun q member => ((inv.intact q member).ahead.advance (roomy.2 q member)).1
    | _ => trivial
  | close i => trivial
  | transmit i res =>
    intro q here
    have intact := inv.intact q (List.mem_of_getElem? here)
    rw [gather_congr intact.iov intact.bytes]

/-- As long as the position does not go on too far while a response waits or a read is to come, and
the adapter brings what begins with `nbytes` at once, every response is sent as it was read, and its
place is not given out again before. -/
theorem responses_sent_unchanged (remote : Remote ι κ) (as : List (Event ι))
    (roomy : Run.Along (Server.step remote) (Roomy remote) {} as) :
    Run.Along (Server.step remote) (Undisturbed remote) {} as :=
  Run.along_of_invariant Server.inv_step (fun _ _ inv => inv.undisturbed)
    ⟨Receiver.inv_initial remote, by simp⟩ roomy

end Steps

/-- Two slots of 1 MB in the memory of one peer, one with all bytes 65 and one with all bytes 66 -/
def bigItems : Remote Bool Unit where
  slot := fun r => ⟨(), if r then 0 else bufferSize, bufferSize⟩
  apart := by decide
  memory := fun _ x => if x < bufferSize then 65 else 66
  header := by decide
  fits := by decide

/-- A remote GET that posts read `j`, which comes at once -/
def bigGet (r : Bool) (j : Nat) : List (Event Bool) :=
  [.read (.call r true) [], .read (.deposit j bufferSize) [], .read .poll [(100, 2)]]

/-- The first response is sent in two parts. In between there are five GETs, and a read that times out
and comes after the next call. -/
def inTime : List (Event Bool) :=
  bigGet true 0 ++ [.transmit 0 1, .read (.call false true) [], .read .timeout []] ++
    bigGet false 2 ++ .read (.deposit 1 bufferSize) [] ::
      ((List.range 4).flatMap fun j => bigGet false (j + 3)) ++ [.transmit 0 1]

theorem responses_sent_in_time : Run.Along (Server.step bigItems) (Roomy bigItems) {} inTime ∧
      (Run.exec (Server.step bigItems) {} inTime).isSome ∧
      Run.Along (Server.step bigItems) (Undisturbed bigItems) {} inTime :=
  ⟨by decide +kernel, by decide +kernel, responses_sent_unchanged bigItems inTime (by decide +kernel)⟩

/-- The first response waits while nine more items are read. -/
def tooLate : List (Event Bool) :=
  bigGet true 0 ++ (List.range 9).flatMap fun j => bigGet false (j + 1)

/-- The tenth read goes where the first went, and the first client is sent the tenth item. -/
theorem late_response_overwritten :
    ¬ Run.Along (Server.step bigItems) (Undisturbed bigItems) {} (tooLate ++ [.transmit 0 2]) ∧
      (Run.exec (Server.step bigItems) {} tooLate).map
        (fun w => w.waiting[0]?.map fun q => (gather q.content q.iov, gather (w.current q.span) q.iov))
        = some (some ([65, 65], [66, 66])) := by
  decide +kernel

end MemExchange.Rdma
