import MemExchange.Lib.Run
import MemExchange.Tracker.Ops

/-!
# Completions

`poll_cq` fetches completions in batches of up to ten and goes through the array until an entry has
length zero: it stops too early at a completion without bytes, and too late at a full batch.
`on_completion` credits a page that arrives to the candidate of the shared tracker, while everything
else in the program takes the slot of a tenant from its own port.
-/
namespace MemExchange

/-- `(id - 11212) % 4`, with the sign of the first operand -/
def shareSlot (id : Int) : Int := (id - 11212).tmod 4

namespace Rdma

/-- `MSG_L_MR`, `MSG_R_MR` and `MSG_DONE` -/
inductive MessageType where
  | localMr
  | remoteMr
  | done
  deriving DecidableEq, Repr

structure MemRegion where
  addr : Nat
  rkey : Nat
  deriving DecidableEq, Repr

structure Message where
  type : MessageType
  mr : MemRegion
  deriving DecidableEq, Repr

inductive SendState where
  | init
  | mrSent
  | rdmaSent
  | doneSent
  deriving DecidableEq, Repr

inductive RecvState where
  | init
  | mrRecv
  | doneRecv
  deriving DecidableEq, Repr

/-- What `on_completion` writes of a connection -/
structure Endpoint where
  sendState : SendState := .init
  recvState : RecvState := .init
  peerMr : MemRegion := ⟨0, 0⟩
  shouldStopPolling : Bool := false
  disconnected : Bool := false
  deriving DecidableEq, Repr

/-- An `ibv_wc`; `wr_id` is the connection, and the status of success is zero. -/
structure Completion where
  conn : Nat
  status : UInt32
  opcode : UInt32
  byteLen : UInt32
  deriving DecidableEq, Repr

namespace Completion

/-- What `memset` leaves -/
def zero : Completion := ⟨0, 0, 0, 0⟩

variable (c : Completion)

/-- `wc->opcode & IBV_WC_RECV` -/
def received : Bool := c.opcode &&& 128 != 0

def present : Bool := c.byteLen != 0

end Completion

/-- What a call of `on_completion` finds: the two messages of the connection, and what other processes
have done to the tracker before it is read, and again before it is written -/
structure Setting where
  recvMsg : Message
  sendMsg : Message
  before : List TrackerOp := []
  between : List TrackerOp := []

/-- The connections of a tenant, `rdma_transfer_state == DONE`, and the tracker -/
structure Links where
  conns : Nat → Endpoint
  transferDone : Bool
  tracker : Tracker

def rdmaBufferSize : Nat := 1024 * 1024

namespace Links

variable (s : Links) (conn : Nat) (found : Setting)

def setConn (f : Endpoint → Endpoint) : Links :=
  { s with conns := Function.update s.conns conn (f (s.conns conn)) }

/-- A region of the peer has arrived: `receive_remote_mem` with the slot of the candidate -/
def acceptRegion : Links :=
  let s := s.setConn conn fun e => { e with recvState := .mrRecv, peerMr := found.recvMsg.mr }
  let read := runTracker s.tracker found.before
  let t := runTracker read found.between
  { s with tracker := t.receiveRemoteMem conn rdmaBufferSize (shareSlot read.maxId) }

def onReceived : Links :=
  match found.recvMsg.type with
  | .remoteMr => s.acceptRegion conn found
  | .done => s.setConn conn fun e => { e with recvState := .doneRecv }
  | .localMr => s

def onSent : Links :=
  match found.sendMsg.type with
  | .remoteMr => { s with transferDone := true }
  | .done => s.setConn conn fun e => { e with sendState := .doneSent }
  | .localMr => s

def onCompletion (c : Completion) (found : Setting) : Links :=
  let s := if c.status ≠ 0 then s.setConn c.conn fun e => { e with shouldStopPolling := true } else s
  let s := if c.received then s.onReceived c.conn found else s.onSent c.conn found
  let e := s.conns c.conn
  if e.sendState = .doneSent ∧ e.recvState = .doneRecv then
    s.setConn c.conn fun e => { e with disconnected := true, shouldStopPolling := true }
  else s

end Links

/-! ### The polling thread -/

/-- What one call of `ibv_poll_cq` fetches, and what the calls of `on_completion` for it find, the
`i`-th call at `i` -/
structure Batch where
  entries : List Completion
  settings : Nat → Setting
  bounded : entries.length ≤ 10

/-- `poll_cq` between two calls of `ibv_poll_cq`: the array of ten entries, what has become of the
connections, the calls of `on_completion` so far, and whether the loop has read behind the array or
the thread has ended -/
structure Poller where
  links : Links
  wc : List Completion := List.replicate 10 .zero
  calls : List Completion := []
  overrun : Bool := false
  ended : Bool := false

namespace Poller

/-- `while((wc + i)->byte_len != 0) on_completion(wc + (i++));` from the entry `i` on -/
def handle (settings : Nat → Setting) (s : Poller) (i : Nat) : List Completion → Poller
  | [] => { s with overrun := true }
  | c :: rest =>
    if c.present then
      handle settings
        { s with links := s.links.onCompletion c (settings i), calls := s.calls ++ [c] } (i + 1) rest
    else s

/-- A call of `ibv_poll_cq` with what follows: the batch is handled and the array cleared, or the
thread looks whether it should stop. -/
def step (own : Nat) (s : Poller) (b : Batch) : Option Poller :=
  if s.overrun ∨ s.ended then none
  else if b.entries = [] then some { s with ended := (s.links.conns own).shouldStopPolling }
  else
    let wc := b.entries ++ s.wc.drop b.entries.length
    some { s.handle b.settings 0 wc with wc := List.replicate 10 .zero }

/-- Every completion was handled once and in order, and no entry outside the array was read. -/
structure Complete (s : Poller) (polls : List Batch) : Prop where
  calls : s.calls = polls.flatMap Batch.entries
  inside : s.overrun = false

end Poller

/-- Fewer than ten completions, each with bytes -/
def Batch.Ends (b : Batch) : Prop := b.entries.length < 10 ∧ ∀ c ∈ b.entries, c.byteLen ≠ 0

namespace Poller

variable {s t : Poller} {own : Nat}

theorem handle_spec (settings : Nat → Setting) (s : Poller) (i : Nat) (l : List Completion) :
    (s.handle settings i l).calls = s.calls ++ l.takeWhile Completion.present ∧
      (s.handle settings i l).overrun = (s.overrun || l.all Completion.present) ∧
      (s.handle settings i l).ended = s.ended := by
  induction l generalizing s i with
  | nil => simp [handle]
  | cons c l ih =>
    cases present : c.present with
    | false => simp [handle, present]
    | true =>
      obtain ⟨calls, overrun, ended⟩ := ih
        { s with links := s.links.onCompletion c (settings i), calls := s.calls ++ [c] } (i + 1)
      simp [handle, present, calls, overrun, ended]

variable (b : Batch)

/-- The array when it is handled: what was fetched, and cleared entries behind that -/
def array : List Completion :=
  b.entries ++ List.replicate (10 - b.entries.length) Completion.zero

theorem takeWhile_array :
    (array b).takeWhile Completion.present = b.entries.takeWhile Completion.present := by
  have cleared : (List.replicate (10 - b.entries.length) Completion.zero).takeWhile
      Completion.present = [] := by
    cases 10 - b.entries.length <;> rfl
  rw [array, List.takeWhile_append, cleared]
  split
  · next whole =>
    rw [List.append_nil, (List.takeWhile_prefix _).eq_of_length whole]
  · rfl

theorem all_array : (array b).all Completion.present = true ↔
    b.entries.length = 10 ∧ ∀ c ∈ b.entries, c.present = true := by
  rw [array, List.all_append, Bool.and_eq_true, List.all_eq_true, and_comm]
  refine and_congr_left fun _ => ?_
  have bounded := b.bounded
  cases rest : 10 - b.entries.length with
  | zero => simp; omega
  | succ n =>
    have : ¬ b.entries.length = 10 := by omega
    simp [this, List.replicate_succ, Completion.zero, Completion.present]

variable (cleared : s.wc = List.replicate 10 .zero)
include cleared

/-- A batch is handled up to its first empty entry. A full one runs past `wc`. -/
theorem step_spec {b : Batch} (called : s.step own b = some t) :
    s.overrun = false ∧ t.wc = List.replicate 10 .zero ∧
      t.calls = s.calls ++ b.entries.takeWhile Completion.present ∧
      (t.overrun = true ↔ b.entries.length = 10 ∧ ∀ c ∈ b.entries, c.present = true) := by
  obtain ⟨running, called⟩ := Option.ite_none_left_eq_some.mp called
  have inside : s.overrun = false := by
    simp only [not_or, Bool.not_eq_true] at running
    exact running.1
  split at called
  · next none_ =>
    cases called
    simp [none_, cleared, inside]
  · cases called
    have filled : b.entries ++ s.wc.drop b.entries.length = array b := by
      rw [cleared, List.drop_replicate, array]
    obtain ⟨calls, overrun, -⟩ := handle_spec b.settings s 0 (array b)
    dsimp only
    rw [filled, calls, overrun, inside, Bool.false_or, takeWhile_array, all_array]
    exact ⟨rfl, rfl, rfl, Iff.rfl⟩

/-- What a sequence of polls has handled, and when it has read behind the array -/
theorem run_spec {polls : List Batch} (inside : s.overrun = false)
    (reached : Run.exec (step own) s polls = some t) :
    t.calls = s.calls ++ polls.flatMap (fun b => b.entries.takeWhile Completion.present) ∧
      (t.overrun = false ↔ ∀ b ∈ polls,
        ¬ (b.entries.length = 10 ∧ ∀ c ∈ b.entries, c.present = true)) := by
  induction polls generalizing s with
  | nil =>
    cases reached
    simp [inside]
  | cons b polls ih =>
    obtain ⟨u, called, onward⟩ := Option.bind_eq_some_iff.mp reached
    obtain ⟨-, cleared', calls, full⟩ := step_spec cleared called
    cases ran : u.overrun with
    | true =>
      -- nothing is done after the array was left
      cases polls with
      | nil =>
        cases onward
        simpa [calls, ran, (full.mp ran).1] using (full.mp ran).2
      | cons b' polls =>
        obtain ⟨v, called', -⟩ := Option.bind_eq_some_iff.mp onward
        have := (step_spec cleared' called').1
        simp [ran] at this
    | false =>
      obtain ⟨later, rest⟩ := ih cleared' ran onward
      refine ⟨?_, ?_⟩
      · rw [later, calls, List.flatMap_cons, List.append_assoc]
      · have here : ¬ (b.entries.length = 10 ∧ ∀ c ∈ b.entries, c.present = true) := by
          rw [← full, ran]
          simp
        rw [rest, List.forall_mem_cons]
        exact ⟨fun all => ⟨here, all⟩, fun all => all.2⟩

end Poller

theorem flatMap_takeWhile_eq_iff {α β : Type} {f : α → List β} {p : β → Bool} {l : List α} :
    (l.flatMap fun a => (f a).takeWhile p) = l.flatMap f ↔ ∀ a ∈ l, ∀ x ∈ f a, p x = true := by
  have short : ∀ l : List α,
      (l.flatMap fun a => (f a).takeWhile p).length ≤ (l.flatMap f).length := by
    intro l
    induction l with
    | nil => exact Nat.le_refl _
    | cons a l ih =>
      have := (List.takeWhile_prefix p (l := f a)).length_le
      simp only [List.flatMap_cons, List.length_append]
      omega
  induction l with
  | nil => simp
  | cons a l ih =>
    rw [List.forall_mem_cons, List.flatMap_cons, List.flatMap_cons, ← List.takeWhile_eq_self_iff]
    constructor
    · intro same
      have part := (List.takeWhile_prefix p (l := f a)).length_le
      have rest := short l
      have lengths := congrArg List.length same
      simp only [List.length_append] at lengths
      obtain ⟨here, later⟩ := List.append_inj same (by omega)
      exact ⟨here, ih.mp later⟩
    · rintro ⟨here, later⟩
      rw [here, ih.mpr later]

namespace Poller

variable {s : Poller} {own : Nat}

/-- The completions of a sequence of polls are all handled, without leaving the array, exactly if
each poll has fetched fewer than ten and none of length zero. -/
theorem all_handled_iff (links : Links) (own : Nat) (polls : List Batch) (s : Poller)
    (reached : Run.exec (step own) { links := links } polls = some s) :
    s.Complete polls ↔ ∀ b ∈ polls, b.Ends := by
  obtain ⟨calls, inside⟩ := run_spec rfl rfl reached
  rw [List.nil_append] at calls
  have whole : s.calls = polls.flatMap Batch.entries ↔
      ∀ b ∈ polls, ∀ c ∈ b.entries, c.present = true := by
    rw [calls]
    exact flatMap_takeWhile_eq_iff
  have ends : ∀ b : Batch, b.Ends ↔ (∀ c ∈ b.entries, c.present = true) ∧
      ¬ (b.entries.length = 10 ∧ ∀ c ∈ b.entries, c.present = true) := by
    intro b
    have bounded := b.bounded
    have present : ∀ c : Completion, c.present = true ↔ c.byteLen ≠ 0 := fun c => by
      simp [Completion.present]
    simp only [Batch.Ends, present]
    constructor
    · rintro ⟨few, all⟩
      exact ⟨all, fun full => by omega⟩
    · rintro ⟨all, notFull⟩
      have : b.entries.length ≠ 10 := fun full => notFull ⟨full, all⟩
      exact ⟨by omega, all⟩
  constructor
  · rintro ⟨same, clear⟩ b mem
    exact (ends b).mpr ⟨whole.mp same b mem, inside.mp clear b mem⟩
  · intro all
    exact ⟨whole.mpr fun b mem => ((ends b).mp (all b mem)).1,
      inside.mpr fun b mem => ((ends b).mp (all b mem)).2⟩

/-- A tenant before anything has happened -/
def idle : Links where
  conns _ := {}
  transferDone := true
  tracker := Tracker.initial 0 (fun _ => 0) 0

/-- What the calls find when nothing is exchanged any more -/
def quiet : Nat → Setting := fun _ => ⟨⟨.localMr, ⟨0, 0⟩⟩, ⟨.localMr, ⟨0, 0⟩⟩, [], []⟩

/-- Two received messages, and then an empty queue -/
theorem all_handled_two :
    let polls : List Batch :=
      [⟨[⟨1, 0, 128, 64⟩, ⟨2, 0, 128, 64⟩], quiet, by decide⟩, ⟨[], quiet, by decide⟩]
    ∃ s, Run.exec (step 1) { links := idle } polls = some s ∧
      (s.Complete polls ↔ ∀ b ∈ polls, b.Ends) := by
  intro polls
  have runs : (Run.exec (step 1) { links := idle } polls).isSome := by decide +kernel
  obtain ⟨s, reached⟩ := Option.isSome_iff_exists.mp runs
  exact ⟨s, reached, all_handled_iff idle 1 polls s reached⟩

/-- A write that is completed has length zero, and it and the message behind it are lost. Ten received
messages are handled, and then the entry behind the array is read. -/
theorem lost_completion_and_overrun :
    let lost : Batch := ⟨[⟨1, 0, 1, 0⟩, ⟨1, 0, 128, 64⟩], quiet, by decide⟩
    let full : Batch := ⟨List.replicate 10 ⟨1, 0, 128, 64⟩, quiet, by decide⟩
    ((Run.exec (step 1) { links := idle } [lost]).map fun s => (s.calls, s.overrun))
        = some ([], false) ∧
      ((Run.exec (step 1) { links := idle } [full]).map fun s => (s.calls, s.overrun))
        = some (full.entries, true) := by
  decide +kernel

end Poller

/-! ### Whose share grows -/

/-- The places at which an index into `preset_share` is computed -/
inductive ShareUse where
  | slabsInit
  | doSlabsNewslab
  | memoryAllocate
  | slabRebalanceFinish
  | calculateScores
  | onCompletion
  deriving DecidableEq, Repr

/-- The index, in a tenant that was started with the port, when the tracker is `t` -/
def ShareUse.index (port : Int) (t : Tracker) : ShareUse → Int
  | .onCompletion => shareSlot t.maxId
  | _ => shareSlot port

def ShareUse.Valid (i : Int) : Prop := 0 ≤ i ∧ i ≤ 3

variable (c : Completion) (id : Int)

/-- A received message with a region of the peer -/
def Delivers (found : Setting) : Prop :=
  c.received = true ∧ found.recvMsg.type = .remoteMr

instance (found : Setting) : Decidable (Delivers c found) :=
  inferInstanceAs (Decidable (_ ∧ _))

/-- The tracker when `on_completion` reads it -/
def Links.read (s : Links) (found : Setting) : Tracker := runTracker s.tracker found.before

/-- Every index is one of the array, and a page that arrives is credited to the tenant with the port,
in which it arrives. -/
structure SharesRight (port : Int) (s : Links) (c : Completion) (found : Setting) : Prop where
  valid : ∀ use : ShareUse, ShareUse.Valid (use.index port (s.read found))
  credited : ∀ i, (s.onCompletion c found).tracker.presetShare i =
    (runTracker (s.read found) found.between).presetShare i
      + if i = shareSlot port then (rdmaBufferSize : ℚ) else 0

/-- The remainder of the difference to 11212 is not negative. -/
def InOrder : Prop := 11212 ≤ id ∨ 4 ∣ id - 11212

instance : Decidable (InOrder id) := inferInstanceAs (Decidable (_ ∨ _))

theorem shareSlot_eq : shareSlot id = (id - 11212) % 4 - if InOrder id then 0 else 4 := by
  have sign : (0 ≤ id - 11212 ∨ 4 ∣ id - 11212) ↔ InOrder id := by
    unfold InOrder
    omega
  simp only [shareSlot, Int.tmod_eq_emod, sign]
  split <;> rfl

theorem shareSlot_valid_iff : ShareUse.Valid (shareSlot id) ↔ InOrder id := by
  rw [shareSlot_eq]
  unfold ShareUse.Valid
  split
  · next order => exact iff_of_true (by omega) order
  · next order => exact iff_of_false (by omega) order

theorem shareSlot_eq_iff {id port : Int} (hid : InOrder id) (hport : InOrder port) :
    shareSlot id = shareSlot port ↔ 4 ∣ id - port := by
  rw [shareSlot_eq, shareSlot_eq, if_pos hid, if_pos hport]
  omega

theorem presetShare_onCompletion {s : Links} {c : Completion} {found : Setting}
    (delivers : Delivers c found) (i : Int) : (s.onCompletion c found).tracker.presetShare i =
      (runTracker (s.read found) found.between).presetShare i
        + if i = shareSlot (s.read found).maxId then (rdmaBufferSize : ℚ) else 0 := by
  obtain ⟨received, region⟩ := delivers
  have accepted : ∀ s' : Links, s'.tracker = s.tracker →
      (s'.onReceived c.conn found).tracker = (runTracker (s.read found) found.between).receiveRemoteMem
        c.conn rdmaBufferSize (shareSlot (s.read found).maxId) := by
    intro s' same
    simp only [Links.onReceived, region, Links.acceptRegion, Links.setConn, Links.read, same]
  have tracker : (s.onCompletion c found).tracker =
      (runTracker (s.read found) found.between).receiveRemoteMem c.conn rdmaBufferSize
        (shareSlot (s.read found).maxId) := by
    simp only [Links.onCompletion, received, if_true]
    split <;> split <;> exact accepted _ rfl
  rw [tracker]
  simp only [Tracker.receiveRemoteMem]
  split <;> simp

/-- The shares are right exactly if neither the port nor the candidate gives a negative remainder, and
the candidate has the remainder of the port. -/
theorem shares_right_iff (port : Int) (s : Links) (c : Completion) (found : Setting)
    (delivers : Delivers c found) : SharesRight port s c found ↔
      InOrder port ∧ InOrder (s.read found).maxId ∧ 4 ∣ (s.read found).maxId - port := by
  have credit := presetShare_onCompletion (s := s) delivers
  constructor
  · rintro ⟨valid, credited⟩
    have hport := (shareSlot_valid_iff port).mp (valid .slabsInit)
    have hmax := (shareSlot_valid_iff _).mp (valid .onCompletion)
    refine ⟨hport, hmax, (shareSlot_eq_iff hmax hport).mp ?_⟩
    -- what is credited to the slot of the port is not zero
    by_contra other
    have same := (credit (shareSlot port)).symm.trans (credited (shareSlot port))
    rw [if_neg (Ne.symm other), if_pos rfl, add_left_cancel_iff] at same
    exact absurd same (by decide +kernel)
  · rintro ⟨hport, hmax, same⟩
    refine ⟨fun use => ?_, fun i => ?_⟩
    · cases use
      case onCompletion => exact (shareSlot_valid_iff _).mpr hmax
      all_goals exact (shareSlot_valid_iff _).mpr hport
    · rw [credit, (shareSlot_eq_iff hmax hport).mpr same]

/-- The page of a tenant that has listened on port 11212 and is the candidate when it arrives -/
theorem shares_right_of_candidate :
    let found : Setting := ⟨⟨.remoteMr, ⟨4096, 7⟩⟩, ⟨.localMr, ⟨0, 0⟩⟩,
      [.setScores ((10 : ℚ) : Score) dblMax 11212], []⟩
    let c : Completion := ⟨1, 0, 128, 64⟩
    Delivers c found ∧ (SharesRight 11212 Poller.idle c found ↔
      InOrder 11212 ∧ InOrder (Poller.idle.read found).maxId ∧
        4 ∣ (Poller.idle.read found).maxId - 11212) :=
  ⟨by decide, shares_right_iff 11212 _ _ _ (by decide)⟩

/-- On the default port every index is negative. A page for the tenant on port 11212 is credited to
the tenant on 11213, if that has become the candidate meanwhile; and if the request was withdrawn
meanwhile, to a slot outside of the array. -/
theorem page_credited_elsewhere :
    let started : List TrackerOp := [.setScores ((10 : ℚ) : Score) dblMax 11212,
      .setRdmaServerInfo 1 5, .setRdmaAccessPort 9000]
    let arrives (meanwhile : List TrackerOp) : Setting :=
      ⟨⟨.remoteMr, ⟨4096, 7⟩⟩, ⟨.localMr, ⟨0, 0⟩⟩, started ++ meanwhile, []⟩
    let c : Completion := ⟨1, 0, 128, 64⟩
    let overtaken := arrives [.setScores ((20 : ℚ) : Score) dblMax 11213]
    let withdrawn := arrives [.lockMaxScore, .unlockMaxScore]
    ShareUse.slabsInit.index 11211 (Poller.idle.read overtaken) = -1 ∧
      (Poller.idle.onCompletion c overtaken).tracker.presetShare (shareSlot 11212) = 0 ∧
      (Poller.idle.onCompletion c overtaken).tracker.presetShare (shareSlot 11213) = 1048576 ∧
      ShareUse.onCompletion.index 11212 (Poller.idle.read withdrawn) = -1 := by
  decide +kernel

end Rdma

end MemExchange
