import MemExchange.Mtc.Node

/-!
# What the threads of a tracker process can do

The transition functions of the two threads, inverted once: a constructor per outcome,
with the guard under which it happens.
-/
namespace MemExchange.Mtc

/-- The receiver thread has taken `min_score_lock` and has not yet sent the `s`. -/
def replying (n : Node) : Bool :=
  match n.recv with
  | .hReply .. | .hSend .. => true
  | _ => false

/-- The outcomes of one step of `recv_msg` in node `n`. -/
inductive RecvMove (codec : Codec) (self : Host) (n : Node) : Node → List Packet → Prop
  | hScores {src score mcId b} (here : n.recv = .hScores src score mcId b) :
    RecvMove codec self n
      { n with
        tracker := n.tracker.setScores score dblMax (senderId src)
        recv := .hPotential src score mcId b } []
  | hNoCandidates {src score mcId b} (here : n.recv = .hPotential src score mcId b)
    (none : n.tracker.victimPotential = false) :
    RecvMove codec self n { n with recv := .idle } []
  | hCandidates {src score mcId b} (here : n.recv = .hPotential src score mcId b)
    (some : n.tracker.victimPotential = true) :
    RecvMove codec self n { n with recv := .hCompare src score mcId b } []
  | hLower {src score mcId b} (here : n.recv = .hCompare src score mcId b) :
    RecvMove codec self n
      { n with tracker := (n.tracker.compareMaxID (senderId src) score).2, recv := .idle } []
  | hHigher {src score mcId b} (here : n.recv = .hCompare src score mcId b) :
    RecvMove codec self n
      { n with
        tracker := (n.tracker.compareMaxID (senderId src) score).2
        recv := .hLock src mcId b } []
  | hTaken {src mcId b} (here : n.recv = .hLock src mcId b)
    (candidate : n.tracker.minId ≠ -1) (free : n.tracker.minScoreLock = false) :
    RecvMove codec self n
      { n with
        tracker := { n.tracker with minScoreLock := true }
        recv := .hReply src mcId b
        history := { n.history with offeredTo := none, committed := [] } } []
  | hBlocked {src mcId b} (here : n.recv = .hLock src mcId b) : RecvMove codec self n n []
  | hOverflow {src mcId b} (here : n.recv = .hReply src mcId b) :
    RecvMove codec self n { n with recv := .idle } []
  | hReply {src mcId b} (here : n.recv = .hReply src mcId b) :
    RecvMove codec self n { n with recv := .hSend src n.tracker.minScore mcId b } []
  | hSend {src minScore mcId b} (here : n.recv = .hSend src minScore mcId b) :
    RecvMove codec self n
      { n with recv := .hWait, history := { n.history with offeredTo := some src } }
      [⟨self, src, .s (codec.candidateScore minScore) mcId b⟩]
  | hWait (here : n.recv = .hWait) :
    RecvMove codec self n { n with waiting := true, recv := .idle } []
  | sScores {src minScore mcId b} (here : n.recv = .sScores src minScore mcId b) :
    RecvMove codec self n
      { n with
        tracker := n.tracker.setScores ((-2147483648 : ℚ) : Score) minScore (senderId src)
        recv := .sCompare src minScore mcId b } []
  | sNotLowest {src minScore mcId b} (here : n.recv = .sCompare src minScore mcId b) :
    RecvMove codec self n
      { n with
        tracker := (n.tracker.compareMinID (senderId src) minScore).2
        recv := .sReply src false } []
  | sLowest {src minScore mcId b} (here : n.recv = .sCompare src minScore mcId b) :
    RecvMove codec self n
      { n with
        tracker := (n.tracker.compareMinID (senderId src) minScore).2
        recv := .sLock src mcId b } []
  | sAccept {src mcId b} (here : n.recv = .sLock src mcId b) (free : n.tracker.spareLock = false) :
    RecvMove codec self n
      { n with
        tracker := { n.tracker with spareLock := true }
        recv := .sAdvance src
        history := { n.history with accepted := true } } []
  | sRefuse {src mcId b} (here : n.recv = .sLock src mcId b) (held : n.tracker.spareLock = true) :
    RecvMove codec self n { n with recv := .sReply src false } []
  | sAdvance {src} (here : n.recv = .sAdvance src) :
    RecvMove codec self n
      { n with mcId := if n.mcId + 1 > 9 then 0 else n.mcId + 1, recv := .sReply src true } []
  | sReply {src accept} (here : n.recv = .sReply src accept) :
    RecvMove codec self n { n with recv := .idle } [⟨self, src, if accept then .x else .r⟩]
  | pInfo {src port} (here : n.recv = .pInfo src port) :
    RecvMove codec self n
      { n with tracker := n.tracker.setRdmaServerInfo src port, recv := .pClient src } []
  | pClient {src} (here : n.recv = .pClient src) :
    RecvMove codec self n { n with waiting := false, recv := .idle } []
  | pServer {src} (here : n.recv = .pClient src) :
    RecvMove codec self n { n with recv := .pListen src } []
  | pPoll {src} (here : n.recv = .pListen src) : RecvMove codec self n n []
  | pListen {src} (here : n.recv = .pListen src) :
    RecvMove codec self n { n with recv := .pSend src n.tracker.localAccessPortN } []
  | pSend {src port} (here : n.recv = .pSend src port) :
    RecvMove codec self n { n with recv := .pUnlock } [⟨self, src, .p (codec.port port)⟩]
  | pUnlock (here : n.recv = .pUnlock) :
    RecvMove codec self n { n with tracker := n.tracker.unlockMinScore, recv := .pReset } []
  | pReset (here : n.recv = .pReset) :
    RecvMove codec self n { n with tracker := n.tracker.resetMinScore, recv := .idle } []
  | xPort {src} (here : n.recv = .xPort src) :
    RecvMove codec self n { n with recv := .xSend src n.tracker.minId } []
  | xSend {src port} (here : n.recv = .xSend src port) :
    RecvMove codec self n
      { n with
        recv := .idle
        history := { n.history with committed := src :: n.history.committed } }
      [⟨self, src, .p (codec.port port)⟩]
  | rUnlock (here : n.recv = .rUnlock) :
    RecvMove codec self n { n with tracker := n.tracker.unlockMinScore, recv := .idle } []
  | bLower {src score} (here : n.recv = .bCompare src score) :
    RecvMove codec self n
      { n with tracker := (n.tracker.compareMaxID (senderId src) score).2, recv := .idle } []
  | bHigher {src score} (here : n.recv = .bCompare src score) :
    RecvMove codec self n
      { n with tracker := (n.tracker.compareMaxID (senderId src) score).2, recv := .bUnlock } []
  | bUnlock (here : n.recv = .bUnlock) :
    RecvMove codec self n { n with tracker := n.tracker.unlockMaxScore, recv := .idle } []

variable {codec : Codec} {self : Host} {n n' : Node} {out : List Packet}

/-- Every branch of the receiver is one of the moves. -/
theorem recvStep_move {fits : Bool} (acted : recvStep codec self fits n = some (n', out)) :
    RecvMove codec self n n' out := by
  unfold recvStep at acted
  split at acted
  case h_1 => cases acted
  case h_3 here =>
    cases acted
    split
    · next some => exact .hCandidates here some
    · next none => exact .hNoCandidates here (by simpa using none)
  case h_4 here => cases acted; split <;> [exact .hHigher here; exact .hLower here]
  case h_5 here =>
    rcases Tracker.lockMinScore_cases _ with ⟨called, candidate, free⟩ | ⟨refused, same⟩
    · rw [called] at acted
      cases acted
      exact .hTaken here candidate free
    · revert acted refused same
      generalize n.tracker.lockMinScore = answer
      obtain ⟨q, t⟩ := answer
      rintro acted refused rfl
      cases q <;> [skip; skip; exact absurd rfl refused]
      all_goals
        cases acted
        exact .hBlocked here
  case h_6 here => cases acted; split <;> [exact .hReply here; exact .hOverflow here]
  case h_10 here => cases acted; split <;> [exact .sLowest here; exact .sNotLowest here]
  case h_11 here =>
    unfold Tracker.lockSpare at acted
    split at acted <;> rename_i called <;> cases acted <;> split at called <;> cases called
    · next free => exact .sAccept here free
    · next held => exact .sRefuse here (by simpa using held)
  case h_15 here => split at acted <;> cases acted <;> [exact .pClient here; exact .pServer here]
  case h_16 here => split at acted <;> cases acted <;> [exact .pPoll here; exact .pListen here]
  case h_23 here => cases acted; split <;> [exact .bHigher here; exact .bLower here]
  all_goals
    rename_i here
    cases acted
    constructor
    exact here

/-- The outcomes of one step of `sender_routine` in node `n`. -/
inductive SendMove (hosts : List Host) (codec : Codec) (self : Host) (n : Node) :
    Node → List Packet → Prop
  | idle {send} (here : n.send = .top ∨ n.send = .hScore ∨ n.send = .finish ∨
      n.send = .fScore ∨ n.send = .timeout) :
    SendMove hosts codec self n { n with send } []
  | hStop (here : n.send = .hStop) :
    SendMove hosts codec self n
      { n with tracker := n.tracker.stopRDMABroadcast, send := .hClear } []
  | hClear (here : n.send = .hClear) :
    SendMove hosts codec self n { n with client := false, send := .hScore } []
  | hSend {score} (here : n.send = .hSend score) :
    SendMove hosts codec self n
      { n with
        send := .finish
        history := { n.history with
          broadcasts := n.history.broadcasts + 1
          current := n.history.requesting
          accepted := false } }
      (multicast hosts self (.H (codec.requestScore score) n.mcId (n.history.broadcasts + 1)))
  | fStop (here : n.send = .fStop) :
    SendMove hosts codec self n
      { n with tracker := n.tracker.stopRDMAFinishBroadcast, send := .fScore } []
  | fSend {score} (here : n.send = .fSend score) :
    SendMove hosts codec self n { n with send := .timeout }
      (multicast hosts self (.B (codec.finishScore score)))
  | tUnlock (here : n.send = .tUnlock) :
    SendMove hosts codec self n
      { n with tracker := n.tracker.unlockMinScore, send := .tClear } []
  | tClear (here : n.send = .tClear) :
    SendMove hosts codec self n { n with waiting := false, send := .top } []

/-- Every branch of the sender is one of the moves. -/
theorem sendStep_move (hosts : List Host) (codec : Codec) (self : Host) (timedOut : Bool)
    (n : Node) : SendMove hosts codec self n (sendStep hosts codec self timedOut n).1
      (sendStep hosts codec self timedOut n).2 := by
  unfold sendStep
  split
  case h_1 here => exact .idle (.inl here)
  case h_4 here => exact .idle (.inr (.inl here))
  case h_6 here => exact .idle (.inr (.inr (.inl here)))
  case h_8 here => exact .idle (.inr (.inr (.inr (.inl here))))
  case h_10 here => exact .idle (.inr (.inr (.inr (.inr here))))
  case h_5 here => exact .hSend here
  all_goals
    rename_i here
    constructor
    exact here

theorem act_cases {hosts : List Host} {b : Local}
    (acted : (protocol hosts codec).act self b n = some (n', out)) :
    (∃ id op, b = .tenant id op ∧ tenantCalls op = true ∧ out = [] ∧
      n' = { n with tracker := op.apply n.tracker, history := n.history.note n.tracker op }) ∨
    (∃ fits, b = .recv fits ∧ RecvMove codec self n n' out) ∨
    (∃ timedOut, b = .send timedOut ∧ SendMove hosts codec self n n' out) := by
  cases b with
  | tenant id op =>
    obtain ⟨m, called, same⟩ := Option.map_eq_some_iff.mp acted
    cases same
    obtain ⟨own, called⟩ := Option.ite_none_right_eq_some.mp called
    exact .inl ⟨id, op, rfl, own, rfl, (Option.some.inj called).symm⟩
  | recv fits => exact .inr (.inl ⟨fits, rfl, recvStep_move acted⟩)
  | send timedOut =>
    have moved := sendStep_move hosts codec self timedOut n
    rw [Option.some.inj acted] at moved
    exact .inr (.inr ⟨timedOut, rfl, moved⟩)

/-- The outcomes of taking a datagram: only the receiver thread moves. -/
inductive ReceiveMove (d : Packet) (n : Node) : Node → Prop
  | ignored {score mcId b} (kind : d.msg = .H score mcId b) : ReceiveMove d n n
  | request {score mcId b} (free : n.waiting = false) (kind : d.msg = .H score mcId b) :
    ReceiveMove d n { n with recv := .hScores d.src score mcId b }
  | foreign {minScore mcId b} (other : mcId ≠ n.mcId) (kind : d.msg = .s minScore mcId b) :
    ReceiveMove d n { n with recv := .sReply d.src false }
  | answer {minScore mcId b} (own : mcId = n.mcId) (kind : d.msg = .s minScore mcId b) :
    ReceiveMove d n { n with recv := .sScores d.src minScore mcId b }
  | port {port} (kind : d.msg = .p port) : ReceiveMove d n { n with recv := .pInfo d.src port }
  | accepted (kind : d.msg = .x) :
    ReceiveMove d n { n with client := true, recv := .xPort d.src }
  | rejected (kind : d.msg = .r) : ReceiveMove d n { n with waiting := false, recv := .rUnlock }
  | finish {score} (kind : d.msg = .B score) :
    ReceiveMove d n { n with recv := .bCompare d.src score }

theorem receive_move {d : Packet} (received : receive d n = some n') :
    n.recv = .idle ∧ ReceiveMove d n n' := by
  obtain ⟨idle, ⟨⟩⟩ := Option.ite_none_right_eq_some.mp received
  refine ⟨idle, ?_⟩
  split
  case h_1 kind => split <;> [exact .ignored kind; exact .request (by simp_all) kind]
  case h_2 kind => split <;> [exact .foreign ‹_› kind; exact .answer (by simp_all) kind]
  all_goals
    constructor
    assumption

end MemExchange.Mtc
