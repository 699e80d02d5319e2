import MemExchange.Tracker.Ops
import MemExchange.Lib.Net

/-!
# The MTC protocol of the tracker process

`receiver_routine` answers datagrams of other trackers, `sender_routine` multicasts requests and
gives up on an unanswered offer after five seconds. A thread can be overtaken between any two of its
tracker calls, so a step is one call with the local work around it.

| datagram | meaning                                                        |
|----------|----------------------------------------------------------------|
| `H`      | a tenant of the sender needs a page: its score, the sequence id |
| `s`      | the answer of a potential victim: its lowest score             |
| `x`, `r` | the requester takes or refuses that candidate                  |
| `p`      | a port to connect to                                           |
| `B`      | the sender's request is over                                   |
-/
namespace MemExchange.Mtc

/-- A tracker runs only on an interface whose address is `10.10.1.x`; `x` names it. -/
abbrev Host := Nat

/-- `atoll` of the address without its dots. -/
def senderId (h : Host) : Int := 10101 * 10 ^ (Nat.toDigits 10 h).length + h

/-- Numbers travel as text: what the receiver reads back when these values are sent. -/
structure Codec where
  requestScore : Score → Score
  finishScore : Score → Score
  candidateScore : Score → Score
  port : Int → Int

/-- A datagram. `broadcast` counts the sender's `H` multicasts; it is not part of the
text, no code reads it, and it only records which multicast an `s` answers. -/
inductive Msg
  | H (score : Score) (mcId broadcast : Nat)
  | s (minScore : Score) (mcId broadcast : Nat)
  | x
  | r
  | p (port : Int)
  | B (score : Score)
  deriving DecidableEq

abbrev Packet := Net.Packet Host Msg

/-- Where `recv_msg` stands: the call it makes next, with the local variables it still
needs. -/
inductive RecvPc
  | idle
  -- 'H': set_scores, victim_potential, compare_maxID, lock_min_score, get_tracker, sendto
  | hScores (src : Host) (score : Score) (mcId broadcast : Nat)
  | hPotential (src : Host) (score : Score) (mcId broadcast : Nat)
  | hCompare (src : Host) (score : Score) (mcId broadcast : Nat)
  | hLock (src : Host) (mcId broadcast : Nat)
  | hReply (src : Host) (mcId broadcast : Nat)
  | hSend (src : Host) (minScore : Score) (mcId broadcast : Nat)
  | hWait
  -- 's': set_scores, compare_minID, lock_spare, the next sequence id, sendto
  | sScores (src : Host) (minScore : Score) (mcId broadcast : Nat)
  | sCompare (src : Host) (minScore : Score) (mcId broadcast : Nat)
  | sLock (src : Host) (mcId broadcast : Nat)
  | sAdvance (src : Host)
  | sReply (src : Host) (accept : Bool)
  -- 'p': set_rdma_server_info, the listener port, sendto, unlock_min_score, reset_min_score
  | pInfo (src : Host) (port : Int)
  | pClient (src : Host)
  | pListen (src : Host)
  | pSend (src : Host) (port : Int)
  | pUnlock
  | pReset
  -- 'x': get_tracker, sendto
  | xPort (src : Host)
  | xSend (src : Host) (port : Int)
  -- 'r': unlock_min_score
  | rUnlock
  -- 'B': compare_maxID, unlock_max_score
  | bCompare (src : Host) (score : Score)
  | bUnlock
  deriving DecidableEq

/-- Where `sender_routine` stands in its loop. -/
inductive SendPc
  | top
  | hStop
  | hClear
  | hScore
  | hSend (score : Score)
  | finish
  | fStop
  | fScore
  | fSend (score : Score)
  | timeout
  | tUnlock
  | tClear
  deriving DecidableEq

/-- What an observer writes down about a tracker. No branch of the code reads it. -/
structure History where
  /-- `H` multicasts so far. -/
  broadcasts : Nat
  /-- A tenant's request is outstanding: made, and neither finished nor aborted. -/
  requesting : Bool
  /-- The latest multicast was sent for the outstanding request. -/
  current : Bool
  /-- An `s` answering the latest multicast was accepted. -/
  accepted : Bool
  /-- The requester that was sent `s` under the latest `min_score` lock. -/
  offeredTo : Option Host
  /-- The requesters that were sent `p` for their `x` since that lock was taken. -/
  committed : List Host

structure Node where
  tracker : Tracker
  mcId : Nat
  client : Bool
  waiting : Bool
  recv : RecvPc
  send : SendPc
  history : History

/-- `main`: a fresh tracker, the globals as initialised, both threads at their start. -/
def Node.initial (memAllocated : Nat) (shares : Int → ℚ) (slabStart : Int) : Node where
  tracker := .initial memAllocated shares slabStart
  mcId := 0
  client := false
  waiting := false
  recv := .idle
  send := .top
  history :=
    { broadcasts := 0, requesting := false, current := false, accepted := false
      offeredTo := none, committed := [] }

/-! ### Receiving -/

/-- `recv_msg` up to its first tracker call. An `H` that arrives while `waiting` matches
no branch, and an `s` with another sequence id is refused at once. -/
def receive (d : Packet) (n : Node) : Option Node :=
  if n.recv = .idle then
    some (match d.msg with
      | .H score mcId b => if n.waiting then n else { n with recv := .hScores d.src score mcId b }
      | .s minScore mcId b =>
        if mcId ≠ n.mcId then { n with recv := .sReply d.src false }
        else { n with recv := .sScores d.src minScore mcId b }
      | .p port => { n with recv := .pInfo d.src port }
      | .x => { n with client := true, recv := .xPort d.src }
      | .r => { n with waiting := false, recv := .rUnlock }
      | .B score => { n with recv := .bCompare d.src score })
  else none

section Threads

variable (hosts : List Host) (codec : Codec) (self : Host)

/-- The next step of `recv_msg`: the node after it and the datagrams sent. `fits` says
whether the text of an `s` fits the buffer; if not, the function returns without
sending and with the lock held. -/
def recvStep (fits : Bool) (n : Node) : Option (Node × List Packet) :=
  match n.recv with
  | .idle => none
  | .hScores src score mcId b =>
    some ({ n with
      tracker := n.tracker.setScores score dblMax (senderId src)
      recv := .hPotential src score mcId b }, [])
  | .hPotential src score mcId b =>
    some ({ n with
      recv := if n.tracker.victimPotential then .hCompare src score mcId b else .idle }, [])
  | .hCompare src score mcId b =>
    let (count, tracker) := n.tracker.compareMaxID (senderId src) score
    some ({ n with tracker, recv := if count > 0 then .hLock src mcId b else .idle }, [])
  | .hLock src mcId b =>
    match n.tracker.lockMinScore with
    | (.taken, tracker) =>
      some ({ n with
        tracker
        recv := .hReply src mcId b
        history := { n.history with offeredTo := none, committed := [] } }, [])
    | (_, tracker) => some ({ n with tracker }, [])
  | .hReply src mcId b =>
    some ({ n with
      recv := if fits then .hSend src n.tracker.minScore mcId b else .idle }, [])
  | .hSend src minScore mcId b =>
    some ({ n with recv := .hWait, history := { n.history with offeredTo := some src } },
      [⟨self, src, .s (codec.candidateScore minScore) mcId b⟩])
  | .hWait => some ({ n with waiting := true, recv := .idle }, [])
  | .sScores src minScore mcId b =>
    -- INT_MIN takes no maximum
    some ({ n with
      tracker := n.tracker.setScores ((-2147483648 : ℚ) : Score) minScore (senderId src)
      recv := .sCompare src minScore mcId b }, [])
  | .sCompare src minScore mcId b =>
    let (count, tracker) := n.tracker.compareMinID (senderId src) minScore
    some ({ n with tracker, recv := if count ≠ 0 then .sLock src mcId b else .sReply src false }, [])
  | .sLock src _ _ =>
    match n.tracker.lockSpare with
    | (true, tracker) =>
      some ({ n with
        tracker
        recv := .sAdvance src
        history := { n.history with accepted := true } }, [])
    | (false, tracker) => some ({ n with tracker, recv := .sReply src false }, [])
  | .sAdvance src =>
    some ({ n with
      mcId := if n.mcId + 1 > 9 then 0 else n.mcId + 1
      recv := .sReply src true }, [])
  | .sReply src accept =>
    some ({ n with recv := .idle }, [⟨self, src, if accept then .x else .r⟩])
  | .pInfo src port =>
    some ({ n with tracker := n.tracker.setRdmaServerInfo src port, recv := .pClient src }, [])
  | .pClient src =>
    if n.client then some ({ n with waiting := false, recv := .idle }, [])
    else some ({ n with recv := .pListen src }, [])
  | .pListen src =>
    if n.tracker.localAccessPortN = 0 then some (n, [])
    else some ({ n with recv := .pSend src n.tracker.localAccessPortN }, [])
  | .pSend src port => some ({ n with recv := .pUnlock }, [⟨self, src, .p (codec.port port)⟩])
  | .pUnlock => some ({ n with tracker := n.tracker.unlockMinScore, recv := .pReset }, [])
  | .pReset => some ({ n with tracker := n.tracker.resetMinScore, recv := .idle }, [])
  | .xPort src => some ({ n with recv := .xSend src n.tracker.minId }, [])
  | .xSend src port =>
    some ({ n with
      recv := .idle
      history := { n.history with committed := src :: n.history.committed } },
      [⟨self, src, .p (codec.port port)⟩])
  | .rUnlock => some ({ n with tracker := n.tracker.unlockMinScore, recv := .idle }, [])
  | .bCompare src score =>
    let (count, tracker) := n.tracker.compareMaxID (senderId src) score
    some ({ n with tracker, recv := if count > 0 then .bUnlock else .idle }, [])
  | .bUnlock => some ({ n with tracker := n.tracker.unlockMaxScore, recv := .idle }, [])

/-- A multicast reaches every other tracker; `IP_MULTICAST_LOOP` is off. -/
def multicast (msg : Msg) : List Packet :=
  (hosts.filter (· ≠ self)).map fun dst => ⟨self, dst, msg⟩

/-- The next step of `sender_routine`. `timedOut` is the answer of `check_timeout`. -/
def sendStep (timedOut : Bool) (n : Node) : Node × List Packet :=
  match n.send with
  | .top => ({ n with send := if n.tracker.rdmaBroadcast then .hStop else .finish }, [])
  | .hStop => ({ n with tracker := n.tracker.stopRDMABroadcast, send := .hClear }, [])
  | .hClear => ({ n with client := false, send := .hScore }, [])
  | .hScore => ({ n with send := .hSend n.tracker.maxScore }, [])
  | .hSend score =>
    ({ n with
      send := .finish
      history := { n.history with
        broadcasts := n.history.broadcasts + 1
        current := n.history.requesting
        accepted := false } },
      multicast hosts self (.H (codec.requestScore score) n.mcId (n.history.broadcasts + 1)))
  | .finish => ({ n with send := if n.tracker.finishBroadcastFlag then .fStop else .timeout }, [])
  | .fStop => ({ n with tracker := n.tracker.stopRDMAFinishBroadcast, send := .fScore }, [])
  | .fScore => ({ n with send := .fSend n.tracker.tempScore }, [])
  | .fSend score =>
    ({ n with send := .timeout }, multicast hosts self (.B (codec.finishScore score)))
  | .timeout => ({ n with send := if n.waiting && timedOut then .tUnlock else .top }, [])
  | .tUnlock => ({ n with tracker := n.tracker.unlockMinScore, send := .tClear }, [])
  | .tClear => ({ n with waiting := false, send := .top }, [])

/-! ### Tenants -/

/-- Tenants are known by their port number. -/
def IsPort (id : Int) : Prop := 0 < id ∧ id < remoteIdBase

instance : DecidablePred IsPort := fun _ => inferInstanceAs (Decidable (_ ∧ _))

/-- The tracker calls of tenants; the others are made by the tracker process alone.
Scores are reported under the tenant's own port. -/
def tenantCalls : TrackerOp → Bool
  | .setScores _ _ id | .compareMinID id _ | .compareMaxID id _ => decide (IsPort id)
  | .lockMinScore | .stopRDMABroadcast | .stopRDMAFinishBroadcast => false
  | .setRdmaServerInfo _ _ => false
  | _ => true

/-- What the observer notes at a tenant's call: the start and the end of a request. -/
def History.note (t : Tracker) (op : TrackerOp) (h : History) : History :=
  match op with
  | .reqRemSpare => if t.reqRemSpare.1 then { h with requesting := true } else h
  | .finishBroadcast => { h with requesting := false, current := false }
  | _ => h

def tenantStep (op : TrackerOp) (n : Node) : Option Node :=
  if tenantCalls op then
    some { n with tracker := op.apply n.tracker, history := n.history.note n.tracker op }
  else none

end Threads

/-! ### The network -/

/-- What a host can do by itself. A tenant is known by its port. -/
inductive Local
  | tenant (id : Int) (op : TrackerOp)
  | recv (fits : Bool)
  | send (timedOut : Bool)

def protocol (hosts : List Host) (codec : Codec) : Net.Protocol Host Node Msg Local where
  hosts := hosts
  receive := receive
  act self
    | .tenant _ op, n => (tenantStep op n).map fun n' => (n', [])
    | .recv fits, n => recvStep codec self fits n
    | .send timedOut, n => some (sendStep hosts codec self timedOut n)

abbrev World := Net.World Host Node Msg
abbrev Action := Net.Action Host Msg Local

/-- One step of the trackers `hosts`, their tenants and the network between them. -/
def step (hosts : List Host) (codec : Codec) : World → Action → Option World :=
  Net.step (protocol hosts codec)

/-- Every tracker freshly started, each with its own memory, and nothing in flight. -/
def World.initial (memAllocated : Host → Nat) (shares : Host → Int → ℚ) (slabStart : Host → Int) :
    World where
  node h := Node.initial (memAllocated h) (shares h) (slabStart h)
  wire := []

/-! ### Fragments of runs -/

/-- The codec on values whose text reads back exactly, such as small whole numbers. -/
def plainCodec : Codec where
  requestScore := id
  finishScore := id
  candidateScore := id
  port := id

/-- Trackers that share 64 MB among four tenants each. -/
def freshTrackers : World := .initial (fun _ => 64 * 1024 * 1024) (fun _ _ => 1 / 4) fun _ => 0

/-- The receiver thread of `h` takes this many steps. -/
def receiverSteps (h : Host) (steps : Nat) : List Action :=
  List.replicate steps (.act h (.recv true))

/-- Two tenants of `h` report: 11213 with score 3, and 11212 as a candidate with score 1. -/
def candidateReports (h : Host) : List Action :=
  [.act h (.tenant 11213 (.setScores ((3 : ℚ) : Score) dblMax 11213)),
    .act h (.tenant 11212 (.setScores ((0 : ℚ) : Score) ((1 : ℚ) : Score) 11212))]

/-- A tenant of `h` reports `score` and asks for a remote page, and the sender thread
multicasts the request. -/
def requestPage (h : Host) (score : ℚ) : List Action :=
  [.act h (.tenant 11212 (.setScores (score : Score) dblMax 11212)),
    .act h (.tenant 11212 .reqRemSpare)] ++ List.replicate 5 (.act h (.send false))

/-- The sender thread of `h`, at the top of its loop, finds that an offer timed out. -/
def offerTimesOut (h : Host) : List Action :=
  [.act h (.send false), .act h (.send false), .act h (.send true), .act h (.send true),
    .act h (.send true)]

/-- Tracker 1 has a candidate and offers it to tracker 2, which asked for a page. -/
def candidateOffered : List Action :=
  candidateReports 1 ++ requestPage 2 5 ++ [.deliver ⟨2, 1, .H ((5 : ℚ) : Score) 0 1⟩] ++
    receiverSteps 1 7

/-- Tracker 2 then takes the candidate: the `x` is in flight. -/
def offerTaken : List Action :=
  candidateOffered ++ [.deliver ⟨1, 2, .s ((1 : ℚ) : Score) 0 1⟩] ++ receiverSteps 2 5

end MemExchange.Mtc
