import MemExchange.Mtc.Commitment
import MemExchange.Mtc.Talks
import MemExchange.Tracker.Frozen

/-!
# The owner of the min-score lock

`min_score_lock` is a flag without an owner: the two threads of the tracker process and every local
tenant clear it, whoever set it. The proof reads a tracker as a small machine of the flag, `waiting`,
the negotiation and what the two threads are about to do with them, and follows the datagrams of
each negotiation.
-/
namespace MemExchange.Mtc

/-- The negotiation that holds the lock has come to this stage. -/
def Notes.inStage (stage : Stage) (g : Notes) : Bool := g.lease.any fun l => l.stage = stage

theorem Notes.inStage_iff {stage : Stage} {g : Notes} :
    g.inStage stage = true ↔ ∃ l ∈ g.lease, l.stage = stage := by
  cases lease : g.lease <;> simp [inStage, lease]

/-- `recv_msg` works on a `p` that answers one of this tracker. -/
def Notes.answered (g : Notes) : Bool :=
  match g.handling with
  | .answers _ => true
  | _ => false

/-- The lock is held exactly by a negotiation that has not ended, a tracker that waits
holds it (`sender_routine` clears `waiting` right after the unlock of a timeout), and a
negotiation whose `s` is out is waited for. -/
def OneOwner (hosts : List Host) (w : Watched) : Prop :=
  ∀ v ∈ hosts,
    (w.node v).1.tracker.minScoreLock = (w.node v).2.lease.isSome ∧
    ((w.node v).1.waiting = true →
      (w.node v).1.send = .tClear ∨ (w.node v).1.tracker.minScoreLock = true) ∧
    ((w.node v).2.inStage .offered = true → (w.node v).1.waiting = true ∨ (w.node v).1.recv = .hWait)

instance (hosts : List Host) : DecidablePred (OneOwner hosts) :=
  fun _ => inferInstanceAs (Decidable (∀ _ ∈ _, _))

/-! ### Datagrams of a negotiation -/

/-- The victim in whose negotiation a datagram has a part. -/
def talkOnWire (d : Net.Packet Host (Msg × Mark)) : Option (Host × Mark) :=
  match d.msg with
  | (.s .., mark) => some (d.src, mark)
  | (.x, mark) | (.r, mark) => some (d.dst, mark)
  | (.p _, .opens k) => some (d.src, .offer k)
  | (.p _, .answers k) => some (d.dst, .offer k)
  | _ => none

def talkHeld (h : Host) (s : Node × Notes) : Option (Host × Mark) :=
  match s.1.recv, s.2.handling with
  | .sScores src .., mark | .sCompare src .., mark | .sLock src .., mark => some (src, mark)
  | .sAdvance src, mark | .sReply src _, mark => some (src, mark)
  | .xPort _, mark | .xSend .., mark => some (h, mark)
  | .pInfo src _, .opens k | .pClient src, .opens k => some (src, .offer k)
  | .pListen src, .opens k | .pSend src _, .opens k => some (src, .offer k)
  | .pInfo .., .answers k | .pClient _, .answers k => some (h, .offer k)
  | _, _ => none

/-- The negotiations, by victim, whose datagrams are in flight or being handled. -/
def talks (hosts : List Host) (w : Watched) : List (Host × Mark) :=
  Net.carried talkOnWire talkHeld hosts w

/-! ### When the lock is safe -/

/-- `sender_routine` has decided on a timeout and not yet cleared `waiting`. -/
def timingOut (n : Node) : Bool :=
  match n.send with
  | .tUnlock | .tClear => true
  | _ => false

/-- The lock is taken by a tracker none of whose earlier negotiations has a datagram
under way and which is not timing out; the `s` fits its buffer; a `p` that the client
branch handles while an offer is out answers this tracker's own `p`; and the server
branch of `p` and the tenants unlock only what is not locked, apart from the candidate
that completes the page release of the negotiation. -/
def LockSafe (hosts : List Host) (w : Watched) : WatchedAction → Prop
  | .act v (.recv fits) =>
    match (w.node v).1.recv with
    | .hLock .. => acquires (w.node v).1 = true →
        (∀ o ∈ talks hosts w, o.1 ≠ v) ∧ timingOut (w.node v).1 = false
    | .hReply .. => fits = true
    | .pClient _ => (w.node v).1.client = true → (w.node v).2.inStage .offered = true →
        (w.node v).2.answered = true
    | .pUnlock => (w.node v).1.tracker.minScoreLock = false
    | _ => True
  | .act v (.tenant id .unlockMinScore) =>
    (w.node v).1.tracker.minScoreLock = false ∨ (w.node v).2.inStage (.released id) = true
  | _ => True

instance (hosts : List Host) (w : Watched) : DecidablePred (LockSafe hosts w) := by
  intro a
  delta LockSafe
  rcases a with _ | _ | ⟨v, ⟨_, op⟩ | _ | _⟩ <;> try infer_instance
  · rcases op with _ | _ <;> infer_instance
  · dsimp only
    rcases (w.node v).1.recv with _ | _ <;> infer_instance

/-! ### A tracker as a small machine -/

/-- What the receiver thread is doing with respect to the lock. -/
inductive Answering
  | elsewhere
  | considering   -- an `H`, up to `lock_min_score`
  | replying      -- the lock taken, the `s` not yet sent
  | sent          -- the `s` sent, `waiting` not yet set
  | refused       -- an `r`, before its `unlock_min_score`
  deriving DecidableEq

def answeringOf : RecvPc → Answering
  | .hScores .. | .hPotential .. | .hCompare .. | .hLock .. => .considering
  | .hReply .. | .hSend .. => .replying
  | .hWait => .sent
  | .rUnlock => .refused
  | _ => .elsewhere

/-- What `sender_routine` is doing with respect to the lock. -/
inductive Expiring
  | elsewhere
  | unlocking
  | clearing
  deriving DecidableEq

def expiringOf : SendPc → Expiring
  | .tUnlock => .unlocking
  | .tClear => .clearing
  | _ => .elsewhere

structure Tenure where
  lock : Bool
  waiting : Bool
  recv : Answering
  send : Expiring
  lease : Option Lease

def tenure (s : Node × Notes) : Tenure where
  lock := s.1.tracker.minScoreLock
  waiting := s.1.waiting
  recv := answeringOf s.1.recv
  send := expiringOf s.1.send
  lease := s.2.lease

/-- The moves of the machine, the `unlock_min_score` of each negotiation's own end among
them. -/
inductive TenureMove (t : Tenure) : Tenure → Prop
  | stays : TenureMove t t
  | considers (idle : t.recv = .elsewhere) (free : t.waiting = false) :
    TenureMove t { t with recv := .considering }
  | drops (here : t.recv = .considering) : TenureMove t { t with recv := .elsewhere }
  | takes (number : Nat) (here : t.recv = .considering) (free : t.lock = false)
    (calm : t.send = .elsewhere) :
    TenureMove t
      { t with
        lock := true
        recv := .replying
        lease := some { number, stage := .replying, expired := false } }
  | sends (here : t.recv = .replying) :
    TenureMove t { t with recv := .sent, lease := t.lease.map (Lease.moveTo .offered) }
  | waits (here : t.recv = .sent) :
    TenureMove t { t with waiting := true, recv := .elsewhere }
  | refused (idle : t.recv = .elsewhere) :
    TenureMove t
      { t with
        waiting := false
        recv := .refused
        lease := t.lease.map (Lease.moveTo .rejected) }
  | unlocks (here : t.recv = .refused) :
    TenureMove t
      { t with
        lock := false
        recv := .elsewhere
        lease := t.lease.filter fun l => !decide (l.stage = .rejected) }
  | connects (idle : t.recv = .elsewhere) :
    TenureMove t { t with waiting := false, lease := t.lease.map (Lease.moveTo .connected) }
  | forgets (idle : t.recv = .elsewhere) (closed : ∀ l ∈ t.lease, l.stage ≠ .offered) :
    TenureMove t { t with waiting := false }
  | expires (waits : t.waiting = true) (idle : t.send = .elsewhere) :
    TenureMove t
      { t with send := .unlocking, lease := t.lease.map fun l => { l with expired := true } }
  | timesOut (here : t.send = .unlocking) :
    TenureMove t
      { t with
        lock := false
        send := .clearing
        lease := t.lease.filter fun l => !l.expired }
  | clears (here : t.send = .clearing) :
    TenureMove t { t with waiting := false, send := .elsewhere }
  | gives (id : Int) : TenureMove t { t with lease := t.lease.map (Lease.release id) }
  | releases (id : Int) (own : t.lock = false ∨ ∃ l ∈ t.lease, l.stage = .released id) :
    TenureMove t
      { t with lock := false, lease := t.lease.filter fun l => !decide (l.stage = .released id) }

theorem TenureMove.to {t t' u : Tenure} (moved : TenureMove t u) (same : t' = u) :
    TenureMove t t' :=
  same ▸ moved

/-- The lives of a negotiation under the lock, from which no move leads out. A timeout
that `sender_routine` is carrying out is always that of the negotiation itself. -/
inductive Tenured : Tenure → Prop
  | free {waiting recv send} (idle : recv ≠ .replying ∧ recv ≠ .sent)
    (quiet : recv = .considering → waiting = false) (late : waiting = true → send = .clearing) :
    Tenured ⟨false, waiting, recv, send, none⟩
  | replying {number} :
    Tenured ⟨true, false, .replying, .elsewhere, some ⟨number, .replying, false⟩⟩
  | sent {number} : Tenured ⟨true, false, .sent, .elsewhere, some ⟨number, .offered, false⟩⟩
  | offered {send number expired}
    (own : send = .elsewhere ∨ (send = .unlocking ∧ expired = true)) :
    Tenured ⟨true, true, .elsewhere, send, some ⟨number, .offered, expired⟩⟩
  | rejected {send number expired}
    (own : send = .elsewhere ∨ (send = .unlocking ∧ expired = true)) :
    Tenured ⟨true, false, .refused, send, some ⟨number, .rejected, expired⟩⟩
  | connected {recv send number stage expired} (idle : recv = .elsewhere ∨ recv = .considering)
    (own : send = .elsewhere ∨ (send = .unlocking ∧ expired = true))
    (led : stage = .connected ∨ ∃ id, stage = .released id) :
    Tenured ⟨true, false, recv, send, some ⟨number, stage, expired⟩⟩

theorem expired_of_unlocking {send : Expiring} {expired : Bool}
    (own : send = .elsewhere ∨ (send = .unlocking ∧ expired = true)) (here : send = .unlocking) :
    expired = true := by
  rcases own with other | ⟨_, timedOut⟩
  · simp [other] at here
  · exact timedOut

theorem tenured_move {t t' : Tenure} (inv : Tenured t) (moved : TenureMove t t') : Tenured t' := by
  cases inv with
  | free idle quiet late =>
    cases moved
    case takes number _ _ calm => cases calm; cases quiet ‹_›; exact .replying
    case sends here => exact absurd here idle.1
    case waits here => exact absurd here idle.2
    all_goals exact .free (by simp_all) (by simp_all) (by simp_all)
  | replying =>
    cases moved
    case stays | gives => exact .replying
    case sends => exact .sent
    case releases own => simp at own
    all_goals contradiction
  | sent =>
    cases moved
    case stays | gives => exact .sent
    case waits => exact .offered (.inl rfl)
    case releases own => simp at own
    all_goals contradiction
  | offered own =>
    cases moved
    case stays | gives => exact .offered own
    case refused => exact .rejected own
    case connects => exact .connected (.inl rfl) own (.inl rfl)
    case forgets closed => simp at closed
    case expires => exact .offered (.inr ⟨rfl, rfl⟩)
    case timesOut here =>
      obtain rfl := expired_of_unlocking own here
      exact .free (by simp_all) (by simp_all) (by simp)
    case clears here => simp_all
    case releases own => simp at own
    all_goals contradiction
  | rejected own =>
    cases moved
    case stays | gives => exact .rejected own
    case unlocks => exact .free (by simp) (by simp) (by simp)
    case timesOut here =>
      obtain rfl := expired_of_unlocking own here
      exact .free (by simp_all) (by simp_all) (by simp)
    case clears here => simp_all
    case releases own => simp at own
    all_goals contradiction
  | connected idle own led =>
    cases moved
    case stays | forgets => exact .connected idle own led
    case connects => exact .connected idle own (.inl rfl)
    case gives id =>
      rcases led with rfl | ⟨_, rfl⟩
      · exact .connected idle own (.inr ⟨id, rfl⟩)
      · exact .connected idle own (.inr ⟨_, rfl⟩)
    case considers => exact .connected (.inr rfl) own led
    case drops => exact .connected (.inl rfl) own led
    case refused => exact .rejected own
    case timesOut here =>
      obtain rfl := expired_of_unlocking own here
      exact .free (by rcases idle with rfl | rfl <;> simp) (by simp) (by simp)
    case clears here => simp_all
    case releases id own =>
      obtain rfl : _ = Stage.released id := by simpa using own
      simp only [Option.filter_some, decide_true, Bool.not_true, Bool.false_eq_true, if_false]
      exact .free (by rcases idle with rfl | rfl <;> simp) (by simp) (by simp)
    all_goals simp_all

/-! ### Steps are moves of the machine -/

section Steps

variable {hosts : List Host} {codec : Codec} {h : Host} {s s' : Node × Notes}

/-- The negotiation that holds the lock, if any, has this number. -/
def Numbered (k : Nat) (g : Notes) : Prop := ∀ l ∈ g.lease, l.number = k

theorem Numbered.moveNumber {k : Nat} {g : Notes} (numbered : Numbered k g) (stage : Stage) :
    g.lease.map (Lease.moveNumber k stage) = g.lease.map (Lease.moveTo stage) := by
  refine Option.map_congr fun l member => ?_
  simp [Lease.moveNumber, Lease.moveTo, numbered l member]

variable {n n' : Node} {d : Net.Packet Host (Msg × Mark)} {b : Local}
  {out : List (Net.Packet Host (Msg × Mark))} {o : Host × Mark} (g : Notes)

theorem noteReceive_lease {d : Packet} {mark : Mark} {g : Notes} (other : d.msg ≠ .r) :
    (noteReceive d mark g).lease = g.lease := by
  unfold noteReceive
  split
  · next kind => exact absurd kind other
  · rfl

theorem receive_tenure (received : ((protocol hosts codec).watched observer).receive d s = some s')
    (own : d.msg.1 = .r → ∃ k, d.msg.2 = .offer k ∧ Numbered k s.2) :
    TenureMove (tenure s) (tenure s') := by
  obtain ⟨took, noted⟩ := Net.watched_receive received
  obtain ⟨n, g⟩ := s
  obtain ⟨n', g'⟩ := s'
  obtain ⟨idle, moved⟩ := receive_move took
  simp only at idle moved
  have elsewhere : (tenure (n, g)).recv = .elsewhere := by simp [tenure, answeringOf, idle]
  by_cases kind : d.bare.msg = .r
  · obtain ⟨k, mark, numbered⟩ := own kind
    have refused : n' = { n with waiting := false, recv := .rUnlock } := by
      cases moved <;> simp_all
    have lease : g'.lease = g.lease.map (Lease.moveTo .rejected) := by
      rw [← numbered.moveNumber, show g' = _ from noted]
      simp [observer, noteReceive, kind, mark, Notes.advance]
    exact (TenureMove.refused elsewhere).to (by simp [tenure, refused, lease, answeringOf])
  · have lease : g'.lease = g.lease := by
      rw [show g' = _ from noted]
      exact noteReceive_lease kind
    cases moved with
    | ignored => exact TenureMove.stays.to (by simp [tenure, lease])
    | request free =>
      exact (TenureMove.considers elsewhere free).to (by simp_all [tenure, answeringOf])
    | rejected refusal => exact absurd refusal kind
    | _ => exact TenureMove.stays.to (by simp [tenure, lease, answeringOf, idle])

theorem recv_tenure {fits : Bool} {g : Notes} {out : List Packet}
    (acted : recvStep codec h fits n = some (n', out))
    (calm : acquires n = true → timingOut n = false)
    (fitting : ∀ src mcId b, n.recv = .hReply src mcId b → fits = true)
    (answer : ∀ src, n.recv = .pClient src → n.client = true → g.inStage .offered = true →
      g.answered = true) (unlocked : n.recv = .pUnlock → n.tracker.minScoreLock = false)
    (own : ∀ src k, n.recv = .pClient src → g.handling = .answers k → Numbered k g) :
    TenureMove (tenure (n, g)) (tenure (n', noteRecv fits n g)) := by
  have moved := recvStep_move acted
  obtain ⟨t, mcId, client, waiting, recv, send, history⟩ := n
  cases moved
  case hNoCandidates here _ => cases here; exact .drops rfl
  case hLower here =>
    cases here
    exact (TenureMove.drops rfl).to (by simp [tenure, noteRecv, answeringOf])
  case hTaken here candidate free =>
    cases here
    have taken : t.lockMinScore.1 = .taken := by simp_all [Tracker.lockMinScore]
    have elsewhere : expiringOf send = .elsewhere := by
      have := calm (by simp [acquires, taken])
      cases send <;> simp_all [timingOut, expiringOf]
    exact (TenureMove.takes g.taken rfl free elsewhere).to
      (by simp [tenure, noteRecv, taken, answeringOf])
  case hBlocked here =>
    cases here
    -- a lock that was taken would show in the next program point
    have blocked : t.lockMinScore.1 ≠ .taken := by
      rcases Tracker.lockMinScore_cases t with ⟨taken, _⟩ | ⟨refused, _⟩
      · simp [recvStep, taken] at acted
      · exact refused
    exact TenureMove.stays.to (by simp [tenure, noteRecv, blocked])
  case hOverflow src mcId b here =>
    cases here
    simp [recvStep, fitting src mcId b rfl] at acted
  case hReply src mcId b here => cases here; obtain rfl := fitting src mcId b rfl; exact .stays
  case hSend here => cases here; exact .sends rfl
  case hWait here => cases here; exact .waits rfl
  case pClient src here =>
    cases here
    have client : client = true := by
      by_contra server
      simp [recvStep, server] at acted
    by_cases answered : g.answered = true
    · obtain ⟨k, mark⟩ : ∃ k, g.handling = .answers k := by
        unfold Notes.answered at answered
        split at answered
        · next k mark => exact ⟨k, mark⟩
        · cases answered
      exact (TenureMove.connects rfl).to (by simp [tenure, noteRecv, client, mark, Notes.advance,
        answeringOf, (own src k rfl mark).moveNumber])
    · refine (TenureMove.forgets rfl fun l member offered => answered
        (answer src rfl client (Notes.inStage_iff.mpr ⟨l, member, offered⟩))).to ?_
      cases mark : g.handling <;> simp_all [tenure, noteRecv, Notes.answered, answeringOf]
  case pServer here =>
    cases here
    have server : client = false := by
      by_contra client
      simp [recvStep, client] at acted
    exact TenureMove.stays.to (by simp [tenure, noteRecv, server, answeringOf])
  case pUnlock here =>
    cases here
    have free : t.minScoreLock = false := unlocked rfl
    exact TenureMove.stays.to (by simp [tenure, noteRecv, answeringOf, Tracker.unlockMinScore, free])
  case rUnlock here => cases here; exact .unlocks rfl
  case hCandidates here _ | sAccept here _ | sRefuse here _ => cases here; exact .stays
  all_goals
    rename_i here
    cases here
    first
      | exact .stays
      | exact TenureMove.stays.to (by simp [tenure, noteRecv, answeringOf])

theorem send_tenure (timedOut : Bool) (n : Node) (g : Notes) : TenureMove (tenure (n, g))
      (tenure ((sendStep hosts codec h timedOut n).1, noteSend timedOut n g)) := by
  obtain ⟨t, mcId, client, waiting, recv, send, history⟩ := n
  cases send with
  | timeout =>
    by_cases late : (waiting && timedOut) = true
    · refine (TenureMove.expires (by simp_all [tenure]) rfl).to ?_
      simp [tenure, sendStep, noteSend, late, expiringOf, Notes.advance]
    · exact TenureMove.stays.to (by simp [tenure, sendStep, noteSend, late, expiringOf])
  | tUnlock => exact .timesOut rfl
  | tClear => exact .clears rfl
  | top | finish =>
    refine TenureMove.stays.to ?_
    simp only [tenure, sendStep]
    split <;> rfl
  | _ => exact .stays

theorem noteTenant_lease (id : Int) (op : TrackerOp) (n : Node) (g : Notes)
    (other : op ≠ .unlockMinScore) : (noteTenant id op n g).lease = g.lease ∨
      (noteTenant id op n g).lease = g.lease.map (Lease.release id) := by
  unfold noteTenant
  split
  · split
    · exact .inr rfl
    · exact .inl rfl
  · exact absurd rfl other
  · exact .inl rfl

theorem tenant_tenure {id : Int} {op : TrackerOp} {g : Notes} {history : History}
    (calls : tenantCalls op = true) (own : op = .unlockMinScore →
      n.tracker.minScoreLock = false ∨ g.inStage (.released id) = true) :
    TenureMove (tenure (n, g))
      (tenure ({ n with tracker := op.apply n.tracker, history }, noteTenant id op n g)) := by
  by_cases unlocks : op = .unlockMinScore
  · subst unlocks
    exact (TenureMove.releases id ((own rfl).imp_right Notes.inStage_iff.mp)).to
      (by simp [tenure, noteTenant, Notes.finish, TrackerOp.apply, Tracker.unlockMinScore])
  · have lock : (op.apply n.tracker).minScoreLock = n.tracker.minScoreLock := by
      cases before : n.tracker.minScoreLock
      · by_contra other
        have taken := minScoreLock_set n.tracker op before (by simpa using other)
        rw [taken.1] at calls
        cases calls
      · exact minScoreLock_kept n.tracker op before unlocks
    rcases noteTenant_lease id op n g unlocks with kept | given
    · exact TenureMove.stays.to (by simp [tenure, kept, lock])
    · exact (TenureMove.gives id).to (by simp [tenure, given, lock])

theorem act_tenure {w : Watched}
    (acted : ((protocol hosts codec).watched observer).act h b (w.node h) = some (s', out))
    (safe : LockSafe hosts w (.act h b))
    (own : ∀ src k, (w.node h).1.recv = .pClient src → (w.node h).2.handling = .answers k →
      Numbered k (w.node h).2) : TenureMove (tenure (w.node h)) (tenure s') := by
  obtain ⟨sends, took, noted, -⟩ := Net.watched_act acted
  have after : s' = (s'.1, noteAct b (w.node h).1 (w.node h).2) := Prod.ext rfl noted
  rw [after]
  cases b with
  | recv fits =>
    refine recv_tenure took ?_ ?_ ?_ ?_ own
    · intro takes
      cases here : (w.node h).1.recv <;> simp only [acquires, here, Bool.false_eq_true] at takes
      simp only [LockSafe, here, acquires] at safe
      exact (safe takes).2
    · intro src mcId b here
      simpa [LockSafe, here] using safe
    · intro src here
      simpa [LockSafe, here] using safe
    · intro here
      simpa [LockSafe, here] using safe
  | send timedOut =>
    rw [show s'.1 = _ from (congrArg Prod.fst (Option.some.inj took)).symm]
    exact send_tenure timedOut _ _
  | tenant id op =>
    rcases act_cases took with ⟨_, _, same, calls, _, moved⟩ | ⟨_, same, _⟩ | ⟨_, same, _⟩
    · cases same
      rw [moved]
      exact tenant_tenure calls fun unlocks => by subst unlocks; exact safe
    · cases same
    · cases same

/-! ### Talks -/

theorem talkOnWire_refusal (kind : d.msg.1 = .r) : talkOnWire d = some (d.dst, d.msg.2) := by
  obtain ⟨src, dst, m, mark⟩ := d
  cases kind
  rfl

theorem receive_talk (received : ((protocol hosts codec).watched observer).receive d s = some s')
    (info : talkHeld d.dst s' = some o) : talkHeld d.dst s = some o ∨ talkOnWire d = some o := by
  obtain ⟨took, noted⟩ := Net.watched_receive received
  obtain ⟨src, dst, m, mark⟩ := d
  have handling : s'.2.handling = mark := by rw [noted]; exact noteReceive_handling ..
  obtain ⟨idle, moved⟩ := receive_move took
  obtain ⟨n', g'⟩ := s'
  simp only at handling moved
  right
  revert info
  clear received took noted
  cases moved <;> rename_i kind <;> cases kind <;> cases mark <;>
    simp [talkHeld, talkOnWire, idle, handling, Net.Packet.bare]

/-- A negotiation's first datagram is its `s`; every other step passes its part on or
ends it. -/
theorem recvMove_talk {g g' : Notes} {out : List Packet} (moved : RecvMove codec h n n' out)
    (same : g'.handling = g.handling)
    (info : talkHeld h (n', g') = some o ∨
      ∃ d ∈ out.map (Net.Packet.marked (markOf n g)), talkOnWire d = some o) :
    talkHeld h (n, g) = some o ∨ ((∃ r, Offers n r) ∧ o = (h, markOf n g)) := by
  cases moved
  case hSend src _ _ _ here =>
    right
    simp only [talkHeld, List.map_cons, List.map_nil, List.mem_singleton, exists_eq_left,
      Net.Packet.marked, talkOnWire, reduceCtorEq, false_or, Option.some.injEq] at info
    exact ⟨⟨src, _, _, _, here⟩, info.symm⟩
  case sReply src accept here =>
    left
    cases accept <;> simpa [talkHeld, Net.Packet.marked, talkOnWire, markOf, here] using info
  case xSend src port here | pSend src port here =>
    left
    cases mark : g.handling <;>
      simp_all [talkHeld, Net.Packet.marked, talkOnWire, markOf]
  case pInfo | pServer | pListen =>
    left
    rename_i here
    cases mark : g.handling <;> simp_all [talkHeld]
  case pPoll | hBlocked => left; simpa [talkHeld, same] using info
  all_goals
    left
    simp_all [talkHeld]

theorem act_talk (acted : ((protocol hosts codec).watched observer).act h b s = some (s', out))
    (info : talkHeld h s' = some o ∨ ∃ d ∈ out, talkOnWire d = some o) : talkHeld h s = some o ∨
      ((∃ fits, b = .recv fits) ∧ (∃ r, Offers s.1 r) ∧ o = (h, markOf s.1 s.2)) := by
  obtain ⟨sends, took, noted, rfl⟩ := Net.watched_act acted
  have same : s'.2.handling = s.2.handling := by rw [noted]; exact noteAct_handling b s.1 s.2
  obtain ⟨n, g⟩ := s
  obtain ⟨n', g'⟩ := s'
  simp only at same
  clear noted acted
  rcases act_cases took with ⟨_, op, rfl, _, rfl, moved⟩ | ⟨fits, rfl, moved⟩ | ⟨_, rfl, moved⟩
  · left
    cases moved
    simpa [talkHeld, same] using info
  · exact (recvMove_talk moved same info).imp_right fun made => ⟨⟨fits, rfl⟩, made⟩
  · left
    clear took
    cases moved <;>
      simpa [talkHeld, same, multicast, talkOnWire, Net.Packet.marked, observer] using info

theorem talks_step {w w' : Watched} {a : WatchedAction}
    (called : watchedStep hosts codec w a = some w') (after : o ∈ talks hosts w') :
    o ∈ talks hosts w ∨ ((∃ fits, a = .act o.1 (.recv fits)) ∧ (∃ r, Offers (w.node o.1).1 r) ∧
      o.2 = markOf (w.node o.1).1 (w.node o.1).2) := by
  rcases Net.carried_step
      (fun h b s o => (∃ fits, b = .recv fits) ∧ (∃ r, Offers s.1 r) ∧ o = (h, markOf s.1 s.2))
      (fun _ _ _ _ => receive_talk) (fun _ _ _ _ _ _ => act_talk) called after with
    still | ⟨h, b, rfl, ⟨fits, rfl⟩, offers, rfl⟩
  · exact .inl still
  · exact .inr ⟨⟨fits, rfl⟩, offers, rfl⟩

/-- What happens to a negotiation does not change its number. -/
def KeepsNumber (g g' : Notes) : Prop := ∀ l' ∈ g'.lease, ∃ l ∈ g.lease, l.number = l'.number

theorem KeepsNumber.refl : KeepsNumber g g := fun l' member => ⟨l', member, rfl⟩

theorem keepsNumber_advance {change : Lease → Lease} (same : ∀ l, (change l).number = l.number) :
    KeepsNumber g (g.advance change) := by
  intro l' member
  obtain ⟨l, before, rfl⟩ := Option.mem_map.mp member
  exact ⟨l, before, (same l).symm⟩

theorem keepsNumber_finish (ends : Lease → Bool) : KeepsNumber g (g.finish ends) := by
  intro l' member
  have before : g.lease = some l' ∧ ends l' = false := by
    simpa [Notes.finish, Option.filter_eq_some_iff] using member
  exact ⟨l', before.1, rfl⟩

theorem moveNumber_number (k : Nat) (stage : Stage) (l : Lease) :
    (l.moveNumber k stage).number = l.number := by
  unfold Lease.moveNumber
  split <;> rfl

theorem noteReceive_number (d : Packet) (mark : Mark) (g : Notes) :
    KeepsNumber g (noteReceive d mark g) := by
  unfold noteReceive
  split
  · exact keepsNumber_advance g (moveNumber_number _ _)
  · exact .refl g

theorem noteAct_number (b : Local) (n : Node) (g : Notes) :
    KeepsNumber g (noteAct b n g) ∨ ((∃ fits, b = .recv fits) ∧ acquires n = true) := by
  cases b with
  | recv fits =>
    cases here : n.recv
    case hLock =>
      by_cases taken : n.tracker.lockMinScore.1 = .taken
      · exact .inr ⟨⟨fits, rfl⟩, by simp [acquires, here, taken]⟩
      · exact .inl (by simpa [noteAct, noteRecv, here, taken] using KeepsNumber.refl g)
    all_goals
      left
      simp only [noteAct, noteRecv, here]
    case hReply =>
      split
      · exact .refl g
      · intro _ member
        cases member
    case hSend => exact keepsNumber_advance g fun _ => rfl
    case pClient =>
      split
      · exact keepsNumber_advance g (moveNumber_number _ _)
      · exact .refl g
    case rUnlock => exact keepsNumber_finish g _
    all_goals exact .refl g
  | send timedOut =>
    left
    simp only [noteAct, noteSend]
    split
    · split
      · exact keepsNumber_advance g fun _ => rfl
      · exact .refl g
    · exact keepsNumber_finish g _
    · exact .refl g
  | tenant id op =>
    left
    simp only [noteAct, noteTenant]
    split
    · split
      · refine keepsNumber_advance g fun l => ?_
        unfold Lease.release
        split <;> rfl
      · exact .refl g
    · exact keepsNumber_finish g _
    · exact .refl g

end Steps

/-! ### Whole runs -/

/-- Each tracker is somewhere in the life of a negotiation, and whatever is under way of
its negotiations belongs to the one that holds the lock. -/
structure OwnerInv (hosts : List Host) (w : Watched) : Prop where
  tenured : ∀ v, Tenured (tenure (w.node v))
  own : ∀ v mark, (v, mark) ∈ talks hosts w → ∃ k, mark = .offer k ∧ Numbered k (w.node v).2

variable {hosts : List Host} {w w' : Watched} {codec : Codec} {a : WatchedAction}

theorem oneOwner_of_ownerInv (inv : OwnerInv hosts w) : OneOwner hosts w := by
  intro v _
  have life := inv.tenured v
  generalize same : tenure (w.node v) = t at life
  have lock : (w.node v).1.tracker.minScoreLock = t.lock := by rw [← same]; rfl
  have waiting : (w.node v).1.waiting = t.waiting := by rw [← same]; rfl
  have lease : (w.node v).2.lease = t.lease := by rw [← same]; rfl
  have sends : t.send = .clearing → (w.node v).1.send = .tClear := by
    rw [← same]
    cases sending : (w.node v).1.send <;> simp [tenure, expiringOf, sending]
  have receives : t.recv = .sent → (w.node v).1.recv = .hWait := by
    rw [← same]
    cases receiving : (w.node v).1.recv <;> simp [tenure, answeringOf, receiving]
  rw [lock, waiting, Notes.inStage_iff, lease]
  cases life with
  | free idle quiet late => simp_all
  | connected idle own led => rcases led with rfl | ⟨_, rfl⟩ <;> simp_all
  | _ => simp_all

theorem ownerInv_initial (hosts : List Host) (memAllocated : Host → Nat) (shares : Host → Int → ℚ)
    (slabStart : Host → Int) : OwnerInv hosts (Watched.initial memAllocated shares slabStart) where
  tenured := fun _ => .free ⟨nofun, nofun⟩ (fun _ => rfl) nofun
  own := by
    intro v mark under
    rcases Net.mem_carried.mp under with ⟨d, sent, _⟩ | ⟨h, _, held⟩
    · cases sent
    · cases held

theorem tenure_step (inv : OwnerInv hosts w) (safe : LockSafe hosts w a)
    (called : watchedStep hosts codec w a = some w') :
    ∀ v, TenureMove (tenure (w.node v)) (tenure (w'.node v)) := by
  have carried : ∀ o, (∃ d ∈ w.wire, talkOnWire d = some o) ∨
      (∃ h ∈ hosts, talkHeld h (w.node h) = some o) →
      ∃ k, o.2 = .offer k ∧ Numbered k (w.node o.1).2 :=
    fun o under => inv.own o.1 o.2 (Net.mem_carried.mpr under)
  rcases Net.step_cases called with ⟨d, s, rfl, sent, runs, received, rfl⟩ | ⟨d, rfl, _, rfl⟩ |
    ⟨h, b, s, out, rfl, runs, acted, rfl⟩
  · intro v
    rcases eq_or_ne v d.dst with rfl | other
    · simp only [Function.update_self]
      refine receive_tenure received fun kind => ?_
      exact carried (d.dst, d.msg.2) (.inl ⟨d, sent, talkOnWire_refusal kind⟩)
    · simp only [Function.update_of_ne other]
      exact .stays
  · exact fun _ => .stays
  · intro v
    rcases eq_or_ne v h with rfl | other
    · simp only [Function.update_self]
      refine act_tenure acted safe fun src k here mark => ?_
      obtain ⟨_, same, numbered⟩ :=
        carried (v, .offer k) (.inr ⟨v, runs, by simp [talkHeld, here, mark]⟩)
      cases same
      exact numbered
    · simp only [Function.update_of_ne other]
      exact .stays

theorem number_step (called : watchedStep hosts codec w a = some w') :
    ∀ v, KeepsNumber (w.node v).2 (w'.node v).2 ∨
      ((∃ fits, a = .act v (.recv fits)) ∧ acquires (w.node v).1 = true) := by
  refine Net.forall_node_step (fun v s' => KeepsNumber (w.node v).2 s'.2 ∨
    ((∃ fits, a = .act v (.recv fits)) ∧ acquires (w.node v).1 = true)) called ?_ ?_ ?_
  · exact fun v => .inl (.refl _)
  · rintro d s' rfl _ received
    rw [(Net.watched_receive received).2]
    exact .inl (noteReceive_number _ _ _)
  · rintro h b s' out rfl acted
    obtain ⟨_, _, noted, _⟩ := Net.watched_act acted
    rw [noted]
    exact (noteAct_number b _ _).imp_right fun ⟨⟨fits, same⟩, takes⟩ => ⟨⟨fits, by rw [same]⟩, takes⟩

/-- The lock stays with the negotiation that took it. -/
theorem ownerInv_step (w : Watched) (a : WatchedAction) (w' : Watched) (inv : OwnerInv hosts w)
    (safe : LockSafe hosts w a) (called : watchedStep hosts codec w a = some w') :
    OwnerInv hosts w' where
  tenured := fun v => tenured_move (inv.tenured v) (tenure_step inv safe called v)
  own := by
    intro v mark after
    -- the numbers stay, and a lock that was just taken found nothing under way
    have known : ∀ k, Numbered k (w.node v).2 → Numbered k (w'.node v).2 ∨
        ((∃ fits, a = .act v (.recv fits)) ∧ acquires (w.node v).1 = true) := by
      intro k numbered
      refine (number_step called v).imp_left fun keeps l' member => ?_
      obtain ⟨l, before, same⟩ := keeps l' member
      rw [← same, numbered l before]
    rcases talks_step called after with before | ⟨⟨fits, rfl⟩, ⟨r, sc, mcId, b, here⟩, marked⟩
    · obtain ⟨k, rfl, numbered⟩ := inv.own v mark before
      refine ⟨k, rfl, (known k numbered).resolve_right ?_⟩
      rintro ⟨⟨fits, rfl⟩, takes⟩
      cases here : (w.node v).1.recv <;> simp only [acquires, here, Bool.false_eq_true] at takes
      simp only [LockSafe, here, acquires] at safe
      exact (safe takes).1 _ before rfl
    · simp only at here marked
      have life := inv.tenured v
      generalize same : tenure (w.node v) = t at life
      have replying : t.recv = .replying := by rw [← same]; simp [tenure, answeringOf, here]
      have lease : (w.node v).2.lease = t.lease := by rw [← same]; rfl
      cases life with
      | replying =>
        rename_i number
        simp only at lease
        have mine : mark = .offer number := by rw [marked]; simp [markOf, here, lease]
        refine ⟨number, mine, (known number ?_).resolve_right ?_⟩
        · intro l member
          rw [lease] at member
          cases member
          rfl
        · rintro ⟨_, takes⟩
          simp [acquires, here] at takes
      | free idle => exact absurd replying idle.1
      | connected idle => rcases idle with rfl | rfl <;> cases replying
      | _ => cases replying

end MemExchange.Mtc
