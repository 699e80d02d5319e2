import MemExchange.Cache.Gather

/-!
# The arrays of a response

The entries of all messages of a connection are in one array, and the header of a message points at
its first entry. When the array is full it grows and moves, and the headers are pointed at it again.
`transmit` edits headers and entries in place. Allocations succeed.
-/
namespace MemExchange.Gather

open Function (update update_self update_of_ne)

def iovListInitial : Nat := 400

/-- `msg_iov` is a place in one of the arrays that the connection has had. -/
structure Msghdr where
  array : Nat
  start : Nat
  iovlen : Nat := 0

/-- What a header leads to, if the array is still there. -/
def Msghdr.entries (array : Nat) (iov : Nat → List UInt8) (m : Msghdr) : Message :=
  if m.array = array then (List.range' m.start m.iovlen).map iov else []

/-- A connection with its present array, the headers of the messages it has filled and the header of
the one that it fills. -/
structure Vectors where
  udp : Bool
  array : Nat := 0
  iov : Nat → List UInt8 := fun _ => []
  iovsize : Nat
  iovused : Nat := 0
  filled : List Msghdr := []
  last : Msghdr := ⟨0, 0, 0⟩
  msgbytes : Nat := 0

/-- The headers are pointed at the new array. -/
def repoint (array : Nat) : Nat → List Msghdr → List Msghdr
  | _, [] => []
  | iovnum, m :: ms => { m with array, start := iovnum } :: repoint array (iovnum + m.iovlen) ms

namespace Vectors

variable (v : Vectors)

def earlier : List Message := v.filled.map (Msghdr.entries v.array v.iov)

def current : Message := v.last.entries v.array v.iov

def ensureIovSpace : Vectors :=
  if v.iovsize ≤ v.iovused then
    { v with
      array := v.array + 1
      iovsize := v.iovsize * 2
      filled := repoint (v.array + 1) 0 v.filled
      last := { v.last with
        array := v.array + 1
        start := (v.filled.map Msghdr.iovlen).sum } }
  else v

/-- An entry is written behind those of the last message. -/
def put (buf : List UInt8) : Vectors :=
  let i := v.last.start + v.last.iovlen
  { v with
    iov := if v.last.array = v.array ∧ i < v.iovsize then update v.iov i buf else v.iov
    iovused := v.iovused + 1
    last := { v.last with iovlen := v.last.iovlen + 1 }
    msgbytes := v.msgbytes + buf.length }

def append (buf : List UInt8) : Vectors := v.ensureIovSpace.put buf

/-- A datagram begins with an entry for its header. -/
def begins : Vectors := if v.udp then v.append (List.replicate udpHeaderSize 0) else v

def fresh : Vectors :=
  { v with filled := v.filled ++ [v.last], last := ⟨v.array, v.iovused, 0⟩, msgbytes := 0 }

def addMsghdr : Vectors := v.fresh.begins

def ready : Vectors :=
  if v.last.iovlen = iovMax ∨ (v.udp ∧ udpMaxPayloadSize ≤ v.msgbytes) then v.addMsghdr else v

def room : Nat := udpMaxPayloadSize - v.ready.msgbytes

theorem append_fields (buf : List UInt8) :
    (v.append buf).udp = v.udp ∧ (v.append buf).msgbytes = v.msgbytes + buf.length := by
  unfold append ensureIovSpace
  split <;> exact ⟨rfl, rfl⟩

theorem room_pos (udp : v.udp = true) : 0 < v.room := by
  unfold room ready
  split
  · simp [addMsghdr, begins, fresh, udp, append_fields, udpHeaderSize, udpMaxPayloadSize]
  · simp_all

def addIov (v : Vectors) (buf : List UInt8) : Vectors :=
  if v.udp ∧ v.room < buf.length then
    addIov (v.ready.append (buf.take v.room)) (buf.drop v.room)
  else v.ready.append buf
termination_by buf.length
decreasing_by
  rename_i long
  have := v.room_pos long.1
  simp only [List.length_drop]
  omega

end Vectors

/-- A response begins with the array as large as it has become. -/
def respond (udp : Bool) (grown : Nat) (bufs : List (List UInt8)) : Vectors :=
  bufs.foldl Vectors.addIov (.begins { udp, iovsize := iovListInitial * 2 ^ grown })

/-! ### Messages that follow each other in the array -/

/-- The entries of the messages are those of the array from `n` up to `e`. -/
def Laid (array : Nat) : Nat → List Msghdr → Nat → Prop
  | n, [], e => n = e
  | n, m :: ms, e => m.array = array ∧ m.start = n ∧ Laid array (n + m.iovlen) ms e

section Laid

variable {a n e : Nat} {ms : List Msghdr} {m : Msghdr} {f g : Nat → List UInt8}

theorem laid_concat : Laid a n (ms ++ [m]) e ↔
    Laid a n ms m.start ∧ m.array = a ∧ m.start + m.iovlen = e := by
  induction ms generalizing n with
  | nil => simp only [List.nil_append, Laid]; constructor <;> rintro ⟨rfl, rfl, rfl⟩ <;> simp
  | cons x ms ih => simp only [List.cons_append, Laid, ih, and_assoc]

theorem Laid.le (laid : Laid a n ms e) : n ≤ e := by
  induction ms generalizing n with
  | nil => exact le_of_eq laid
  | cons m ms ih => exact (Nat.le_add_right ..).trans (ih laid.2.2)

theorem map_range'_congr {n l : Nat} (same : ∀ x, n ≤ x → x < n + l → g x = f x) :
    (List.range' n l).map g = (List.range' n l).map f :=
  List.map_congr_left fun x inside =>
    same x (List.mem_range'_1.mp inside).1 (List.mem_range'_1.mp inside).2

theorem Laid.entries_congr (laid : Laid a n ms e) (same : ∀ x, n ≤ x → x < e → g x = f x) :
    ms.map (Msghdr.entries a g) = ms.map (Msghdr.entries a f) := by
  induction ms generalizing n with
  | nil => rfl
  | cons m ms ih =>
    obtain ⟨array, rfl, laid⟩ := laid
    have := laid.le
    rw [List.map_cons, List.map_cons, ih laid fun x low high => same x (by omega) high, Msghdr.entries,
      Msghdr.entries, map_range'_congr fun x low high => same x low (by omega)]

/-- Pointing the headers at a new array leads to the same entries. -/
theorem Laid.repoint (laid : Laid a n ms e) (a' : Nat) :
    Laid a' n (repoint a' n ms) e ∧ n + (ms.map Msghdr.iovlen).sum = e ∧
      (Gather.repoint a' n ms).map (Msghdr.entries a' f) = ms.map (Msghdr.entries a f) := by
  induction ms generalizing n with
  | nil => exact ⟨laid, laid, rfl⟩
  | cons m ms ih =>
    obtain ⟨array, rfl, laid⟩ := laid
    obtain ⟨after, sum, entries⟩ := ih laid
    refine ⟨⟨rfl, rfl, after⟩, by rw [List.map_cons, List.sum_cons]; omega, ?_⟩
    rw [Gather.repoint, List.map_cons, List.map_cons, entries]
    simp [Msghdr.entries, array]

end Laid

/-! ### Gathering -/

/-- The messages follow each other up to the end of what is used of the array. -/
structure Lays (v : Vectors) : Prop where
  laid : Laid v.array 0 v.filled v.last.start
  here : v.last.array = v.array
  used : v.last.start + v.last.iovlen = v.iovused
  fits : v.iovused ≤ v.iovsize
  sized : 0 < v.iovsize

/-- A message that `sendmsg` takes, for UDP in one datagram, with an entry for its header. -/
structure Fits (udp : Bool) (m : Message) : Prop where
  few : m.length ≤ iovMax
  small : udp = true → m.flatten.length ≤ udpMaxPayloadSize
  slot : udp = true → m.head? = some (List.replicate udpHeaderSize 0)

def body (udp : Bool) (m : Message) : Message := if udp then m.tail else m

/-- The messages of the arrays hold the bytes `sofar` in order. -/
structure Gathered (udp : Bool) (sofar : List UInt8) (v : Vectors) : Prop where
  kind : v.udp = udp
  lays : Lays v
  bytes : v.msgbytes = v.current.flatten.length
  earlier : ∀ m ∈ v.earlier, Fits udp m
  current : Fits udp v.current
  data : (v.earlier.map (body udp)).flatten.flatten ++ (body udp v.current).flatten = sofar

section Steps

variable {v : Vectors} {udp : Bool} {sofar : List UInt8}

theorem Lays.length (lays : Lays v) : v.current.length = v.last.iovlen := by
  simp [Vectors.current, Msghdr.entries, lays.here]

theorem Lays.ensureIovSpace (lays : Lays v) :
    Lays v.ensureIovSpace ∧ v.ensureIovSpace.iovused < v.ensureIovSpace.iovsize ∧
      v.ensureIovSpace.earlier = v.earlier ∧ v.ensureIovSpace.current = v.current := by
  obtain ⟨laid, here, used, fits, sized⟩ := lays
  unfold Vectors.ensureIovSpace
  split
  next full =>
    obtain ⟨after, sum, entries⟩ := laid.repoint (f := v.iov) (v.array + 1)
    rw [Nat.zero_add] at sum
    refine ⟨⟨by rwa [sum], rfl, by rwa [sum], ?_, ?_⟩, ?_, entries, ?_⟩
    · exact fits.trans (Nat.le_mul_of_pos_right _ (by omega))
    · exact Nat.mul_pos sized (by omega)
    · dsimp only
      omega
    · simp [Vectors.current, Msghdr.entries, here, sum]
  next free => exact ⟨⟨laid, here, used, fits, sized⟩, by omega, rfl, rfl⟩

theorem Lays.append (lays : Lays v) (buf : List UInt8) : Lays (v.append buf) ∧
    (v.append buf).earlier = v.earlier ∧ (v.append buf).current = v.current ++ [buf] := by
  obtain ⟨lays, free, earlier, current⟩ := lays.ensureIovSpace
  rw [← earlier, ← current, Vectors.append]
  generalize v.ensureIovSpace = v at lays free
  obtain ⟨laid, here, used, fits, sized⟩ := lays
  have inside : v.last.array = v.array ∧ v.last.start + v.last.iovlen < v.iovsize :=
    ⟨here, used ▸ free⟩
  refine ⟨⟨laid, here, by simp only [Vectors.put]; omega, free, sized⟩, ?_, ?_⟩
  · refine laid.entries_congr fun x _ below => ?_
    simp only [Vectors.put, if_pos inside]
    exact update_of_ne (by omega) ..
  · simp only [Vectors.current, Vectors.put, if_pos inside, Msghdr.entries, if_pos here,
      List.range'_1_concat, List.map_append, List.map_cons, List.map_nil, update_self]
    congr 1
    exact map_range'_congr fun x _ below => update_of_ne (by omega) ..

theorem Lays.fresh (lays : Lays v) :
    Lays v.fresh ∧ v.fresh.earlier = v.earlier ++ [v.current] ∧ v.fresh.current = [] := by
  refine ⟨⟨laid_concat.mpr ⟨lays.laid, lays.here, lays.used⟩, rfl, rfl, lays.fits, lays.sized⟩, ?_, ?_⟩
  · simp [Vectors.fresh, Vectors.earlier, Vectors.current]
  · simp [Vectors.fresh, Vectors.current, Msghdr.entries]

namespace Gathered

theorem extend (kind : v.udp = udp) (lays : Lays v) (bytes : v.msgbytes = v.current.flatten.length)
    (earlier : ∀ m ∈ v.earlier, Fits udp m) {buf : List UInt8} (fits : Fits udp (v.current ++ [buf]))
    (data : (v.earlier.map (body udp)).flatten.flatten ++ (body udp (v.current ++ [buf])).flatten
      = sofar) : Gathered udp sofar (v.append buf) := by
  obtain ⟨after, same, more⟩ := lays.append buf
  refine ⟨(v.append_fields buf).1.trans kind, after, ?_, by rwa [same], by rwa [more], by rwa [same, more]⟩
  simp [v.append_fields, more, bytes]

/-- A message that begins is empty, but for the header of a datagram. -/
theorem begins (kind : v.udp = udp) (lays : Lays v) (bytes : v.msgbytes = 0) (empty : v.current = [])
    (earlier : ∀ m ∈ v.earlier, Fits udp m)
    (data : (v.earlier.map (body udp)).flatten.flatten = sofar) :
    Gathered udp sofar v.begins ∧ v.begins.current.length < iovMax := by
  have bytes : v.msgbytes = v.current.flatten.length := by simp [bytes, empty]
  unfold Vectors.begins
  rw [kind]
  cases udp with
  | false =>
    refine ⟨⟨kind, lays, bytes, earlier, ?_, ?_⟩, ?_⟩ <;> simp only [empty, Bool.false_eq_true, if_false]
    · exact ⟨by simp, nofun, nofun⟩
    · simpa [body] using data
    · decide
  | true =>
    refine ⟨.extend kind lays bytes earlier ?_ ?_, ?_⟩
    · rw [empty]
      exact ⟨by decide, fun _ => by decide, fun _ => rfl⟩
    · simpa [empty, body] using data
    · rw [if_pos rfl, (lays.append _).2.2, empty]
      decide

variable (gathered : Gathered udp sofar v)
include gathered

theorem append (free : v.current.length < iovMax) (buf : List UInt8)
    (small : udp = true → v.msgbytes + buf.length ≤ udpMaxPayloadSize) :
    Gathered udp (sofar ++ buf) (v.append buf) := by
  obtain ⟨kind, lays, bytes, earlier, current, data⟩ := gathered
  refine .extend kind lays bytes earlier ⟨by simpa using free, fun isUdp => ?_, fun isUdp => ?_⟩ ?_
  · simpa [← bytes] using small isUdp
  · rw [List.head?_append, current.slot isUdp]
    rfl
  · rw [← data, List.append_assoc]
    cases udp with
    | false => simp [body]
    | true =>
      obtain ⟨tail, slot⟩ := List.head?_eq_some_iff.mp (current.slot rfl)
      simp [body, slot]

theorem ready : Gathered udp sofar v.ready ∧ v.ready.current.length < iovMax := by
  unfold Vectors.ready
  split
  · obtain ⟨lays, earlier, current⟩ := gathered.lays.fresh
    refine Gathered.begins gathered.kind lays rfl current ?_ ?_
    · rw [earlier]
      exact List.forall_mem_append.mpr ⟨gathered.earlier, List.forall_mem_singleton.mpr gathered.current⟩
    · simpa [earlier] using gathered.data
  next more =>
    rw [← gathered.lays.length] at more
    exact ⟨gathered, lt_of_le_of_ne gathered.current.few (not_or.mp more).1⟩

theorem addIov (buf : List UInt8) : Gathered udp (sofar ++ buf) (v.addIov buf) := by
  fun_induction Vectors.addIov v buf generalizing sofar with
  | case1 v buf long ih =>
    obtain ⟨ready, free⟩ := gathered.ready
    have room := v.room_pos long.1
    have added := ih (ready.append free (buf.take v.room) fun _ => by
      rw [List.length_take]
      unfold Vectors.room at room ⊢
      omega)
    rwa [List.append_assoc, List.take_append_drop] at added
  | case2 v buf short =>
    obtain ⟨ready, free⟩ := gathered.ready
    refine ready.append free buf fun isUdp => ?_
    have isUdp := gathered.kind.trans isUdp
    have room := v.room_pos isUdp
    have short := mt (And.intro isUdp) short
    unfold Vectors.room at room short
    omega

theorem all (bufs : List (List UInt8)) :
    Gathered udp (sofar ++ bufs.flatten) (bufs.foldl Vectors.addIov v) := by
  induction bufs generalizing sofar v with
  | nil => simpa using gathered
  | cons buf bufs ih =>
    rw [List.flatten_cons, ← List.append_assoc]
    exact ih (gathered.addIov buf)

end Gathered

theorem gathered_respond (udp : Bool) (grown : Nat) (bufs : List (List UInt8)) :
    Gathered udp bufs.flatten (respond udp grown bufs) := by
  have start : Lays { udp, iovsize := iovListInitial * 2 ^ grown } :=
    ⟨rfl, rfl, rfl, Nat.zero_le _, by simp [iovListInitial]⟩
  exact (Gathered.begins rfl start rfl rfl (by simp [Vectors.earlier]) rfl).1.all bufs

end Steps

/-! ### Sending -/

/-- `build_udp_headers`, from header `i` on. -/
def writeHeaders (header : Nat → List UInt8) :
    Nat → List Msghdr → (Nat → List UInt8) → Nat → List UInt8
  | _, [], iov => iov
  | i, m :: ms, iov => writeHeaders header (i + 1) ms (update iov m.start (header i))

/-- The entries that were sent are passed over, and the next one loses its sent part. -/
def consume (array : Nat) (iov : Nat → List UInt8) : Nat → Nat → Nat → Msghdr × (Nat → List UInt8)
  | start, 0, _ => (⟨array, start, 0⟩, iov)
  | start, n + 1, res =>
    if (iov start).length ≤ res then consume array iov (start + 1) n (res - (iov start).length)
    else (⟨array, start, n + 1⟩, update iov start ((iov start).drop res))

/-- A connection that sends, with the headers of its datagrams and the messages from `msgcurr` on. -/
structure Sender where
  udp : Bool
  header : Nat → List UInt8
  array : Nat
  iov : Nat → List UInt8
  pending : List Msghdr
  msgcurr : Nat := 0
  wire : List (List UInt8) := []

/-- A datagram is sent whole or not at all. -/
def Outcome.whole (pending : List Message) : Outcome → Bool
  | .sent res => (advance pending).head?.all fun m => m.flatten.length == res
  | _ => true

namespace Sender

variable (s : Sender)

def messages : List Message := s.pending.map (Msghdr.entries s.array s.iov)

/-- The headers are built again for each call that finds the first message the current one. -/
def headed : Sender :=
  if s.udp ∧ s.msgcurr = 0 then
    { s with iov := writeHeaders s.header 0 s.pending s.iov }
  else s

def next : Sender :=
  match s.pending with
  | [] => s
  | m :: rest => if m.iovlen = 0 then { s with pending := rest, msgcurr := s.msgcurr + 1 } else s

def send (o : Outcome) : TransmitResult × Sender :=
  match s.pending with
  | [] => (.complete, s)
  | m :: rest =>
    match o with
    | .sent res =>
      let (m', iov) := consume m.array s.iov m.start m.iovlen res
      (.incomplete, { s with
        iov
        pending := m' :: rest
        wire := s.wire ++ [(m.entries s.array s.iov).flatten.take res] })
    | .wouldBlock => (.softError, s)
    | .failed => (.hardError, s)

def transmit (o : Outcome) : TransmitResult × Sender := s.next.send o

/-- A turn of `conn_mwrite` that has something to send. -/
def step (o : Outcome) : Option Sender :=
  if (Gather.step ⟨s.headed.messages, s.wire⟩ o).isSome ∧ (s.udp → o.whole s.headed.messages) then
    some (s.headed.transmit o).2
  else none

end Sender

/-- The connection that is going to send a response. -/
def sender (udp : Bool) (grown requestId : Nat) (bufs : List (List UInt8)) : Sender :=
  let v := respond udp grown bufs
  { udp, header := (udpHeader requestId · (v.filled.length + 1)), array := v.array, iov := v.iov
    pending := v.filled ++ [v.last] }

/-! ### Headers -/

/-- The messages with their headers, from message `i` on. -/
def stamp (header : Nat → List UInt8) : Nat → List Message → List Message
  | _, [] => []
  | i, m :: ms => m.modifyHead (fun _ => header i) :: stamp header (i + 1) ms

section Headers

variable {a n e i : Nat} {f g h : Nat → List UInt8} {ms : List Msghdr}

/-- What is written into the entry of a message that was sent is written again for the next one. -/
theorem Laid.writeHeaders (laid : Laid a n ms e) (same : ∀ x, n < x → g x = f x) :
    (∀ x < n, writeHeaders h i ms g x = g x) ∧
      ms.map (Msghdr.entries a (Gather.writeHeaders h i ms g)) =
        stamp h i (ms.map (Msghdr.entries a f)) := by
  induction ms generalizing n i g with
  | nil => exact ⟨fun _ _ => rfl, rfl⟩
  | cons m ms ih =>
    obtain ⟨array, rfl, laid⟩ := laid
    have above : ∀ x, m.start < x → update g m.start (h i) x = f x :=
      fun x above => (update_of_ne above.ne' ..).trans (same x above)
    obtain ⟨low, rest⟩ := ih (i := i + 1) laid fun x high => above x (by omega)
    refine ⟨fun x below => (low x (by omega)).trans (update_of_ne below.ne ..), ?_⟩
    rw [Gather.writeHeaders, List.map_cons, List.map_cons, stamp, rest, Msghdr.entries, Msghdr.entries,
      if_pos array, if_pos array, map_range'_congr fun x _ high => low x high]
    congr 1
    cases m.iovlen with
    | zero => rfl
    | succ l =>
      simp only [List.range'_succ, List.map_cons, List.modifyHead_cons, update_self]
      congr 1
      exact map_range'_congr fun x high _ => above x high

theorem stamp_stamp (ms : List Message) : stamp h i (stamp h i ms) = stamp h i ms := by
  induction ms generalizing i with
  | nil => rfl
  | cons m ms ih =>
    rw [stamp, stamp, ih]
    cases m <;> rfl

end Headers

/-! ### Sending in place -/

section Sending

variable {a n e r : Nat} {f : Nat → List UInt8} {o : Outcome} {s : Sender}

/-- What `transmit` takes off in place is what `trim` takes off. -/
theorem consume_spec (start l : Nat) :
    (consume a f start l r).1.array = a ∧
      (consume a f start l r).1.start + (consume a f start l r).1.iovlen = start + l ∧
      (∀ x, start + l ≤ x → (consume a f start l r).2 x = f x) ∧
      (consume a f start l r).1.entries a (consume a f start l r).2 =
        trim ((List.range' start l).map f) r := by
  induction l generalizing start r with
  | zero => exact ⟨rfl, rfl, fun _ _ => rfl, by simp [consume, Msghdr.entries, trim]⟩
  | succ l ih =>
    rw [consume, List.range'_succ, List.map_cons, trim]
    split
    next whole =>
      obtain ⟨array, length, outside, trimmed⟩ := ih (r := r - (f start).length) (start + 1)
      exact ⟨array, by omega, fun x high => outside x (by omega), trimmed⟩
    next partly =>
      refine ⟨rfl, rfl, fun x high => update_of_ne (by omega) .., ?_⟩
      simp only [Msghdr.entries, if_true, List.range'_succ, List.map_cons, update_self]
      congr 1
      exact map_range'_congr fun x high _ => update_of_ne (by omega) ..

variable (laid : Laid s.array n s.pending e)
include laid

theorem headed_messages : s.headed.messages =
    if s.udp ∧ s.msgcurr = 0 then stamp s.header 0 s.messages else s.messages := by
  unfold Sender.headed
  split
  · exact (laid.writeHeaders fun _ _ => rfl).2
  · rfl

theorem headed_keeps : s.headed.udp = s.udp ∧ s.headed.header = s.header ∧ s.headed.wire = s.wire ∧
    s.headed.msgcurr = s.msgcurr ∧ Laid s.headed.array n s.headed.pending e := by
  unfold Sender.headed
  split <;> exact ⟨rfl, rfl, rfl, rfl, laid⟩

theorem next_messages : s.next.messages = advance s.messages ∧ s.next.wire = s.wire ∧
    ∃ n, Laid s.next.array n s.next.pending e := by
  unfold Sender.next Sender.messages
  split
  next none_ => exact ⟨by simp [none_, advance], rfl, n, laid⟩
  next m rest pending =>
    have ⟨array, start, laid'⟩ := pending ▸ laid
    split
    next sent =>
      refine ⟨?_, rfl, _, laid'⟩
      simp [pending, Msghdr.entries, sent, advance]
    next more =>
      obtain ⟨l, count⟩ := Nat.exists_eq_add_one_of_ne_zero more
      refine ⟨?_, rfl, n, laid⟩
      simp [pending, Msghdr.entries, array, count, List.range'_succ, advance]

/-- What is done to the arrays is what is done to the messages. -/
theorem send_messages {msgs : List Message} (ahead : s.messages = advance msgs) :
    ((s.send o).1, ⟨(s.send o).2.messages, (s.send o).2.wire⟩) = Gather.transmit ⟨msgs, s.wire⟩ o ∧
      ∃ n, Laid (s.send o).2.array n (s.send o).2.pending e := by
  obtain ⟨udp, header, array, iov, pending, msgcurr, wire⟩ := s
  unfold Gather.transmit
  rw [← ahead]
  cases pending with
  | nil => exact ⟨rfl, n, laid⟩
  | cons m rest =>
    obtain ⟨rfl, rfl, after⟩ := laid
    cases o with
    | sent res =>
      obtain ⟨array, length, outside, entries⟩ :=
        consume_spec (a := m.array) (f := iov) (r := res) m.start m.iovlen
      refine ⟨?_, _, array, rfl, by rwa [length]⟩
      have others := after.entries_congr fun x low _ => outside x low
      simp [Sender.messages, Sender.send, Msghdr.entries, others, ← entries]
    | wouldBlock | failed => exact ⟨rfl, m.start, rfl, rfl, after⟩

theorem transmit_messages :
    ((s.transmit o).1, ⟨(s.transmit o).2.messages, (s.transmit o).2.wire⟩)
        = Gather.transmit ⟨s.messages, s.wire⟩ o ∧
      ∃ n, Laid (s.transmit o).2.array n (s.transmit o).2.pending e := by
  obtain ⟨ahead, wire, n, laid⟩ := next_messages laid
  rw [← wire]
  exact send_messages laid ahead

omit laid

theorem transmit_keeps : (s.transmit o).2.udp = s.udp ∧ (s.transmit o).2.header = s.header ∧
    ((s.transmit o).2.msgcurr = 0 → s.msgcurr = 0 ∧ s.next = s) := by
  have next : s.next.udp = s.udp ∧ s.next.header = s.header ∧
      (s.next.msgcurr = 0 → s.msgcurr = 0 ∧ s.next = s) := by
    unfold Sender.next
    split <;> [skip; split] <;> exact ⟨rfl, rfl, by simp⟩
  unfold Sender.transmit Sender.send
  split <;> [skip; cases o] <;> exact next

end Sending

/-! ### Datagrams -/

section Datagrams

variable {h : Nat → List UInt8} {o : Outcome} {s s' : Sending} {all : List (List UInt8)}

theorem trim_whole (m : Message) : trim m m.flatten.length = [] := by
  induction m with
  | nil => rfl
  | cons v vs ih =>
    rw [trim, List.flatten_cons, List.length_append, if_pos (Nat.le_add_right ..),
      Nat.add_sub_cancel_left, ih]

theorem whole_cases (whole : o.whole s.pending) (called : step s o = some s') :
    ∃ m rest, advance s.pending = m :: rest ∧
      (m ≠ [] ∧ s' = ⟨[] :: rest, s.wire ++ [m.flatten]⟩ ∨ s' = { s with pending := m :: rest }) := by
  obtain ⟨-, m, rest, ahead, ⟨res, rfl, some_, fits, rfl⟩ | rfl⟩ := step_cases called
  · refine ⟨m, rest, ahead, .inl ⟨?_, ?_⟩⟩
    · rintro rfl
      exact absurd some_ (Nat.not_lt.mpr fits)
    · have all : m.flatten.length = res := by simpa [Outcome.whole, ahead] using whole
      rw [← all, trim_whole, List.take_length]
  · exact ⟨m, rest, ahead, .inr rfl⟩

/-- The messages that have entries are the datagrams that are not sent yet. -/
def Datagrams (all : List (List UInt8)) (s : Sending) : Prop :=
  s.wire ++ (s.pending.filter (· ≠ [])).map List.flatten = all

theorem filter_advance (p : List Message) : (advance p).filter (· ≠ []) = p.filter (· ≠ []) := by
  rcases p with _ | ⟨_ | _, _⟩ <;> rfl

/-- A datagram that is taken whole comes off the front. -/
theorem Datagrams.step (sent : Datagrams all s) (whole : o.whole s.pending)
    (called : step s o = some s') : Datagrams all s' := by
  obtain ⟨m, rest, ahead, moved⟩ := whole_cases whole called
  rw [Datagrams, ← filter_advance, ahead] at sent
  obtain ⟨some_, rfl⟩ | rfl := moved
  · simpa [Datagrams, some_] using sent
  · exact sent

/-- While the first message is the current one, building the headers again changes nothing. -/
theorem stamp_step (stamped : stamp h 0 s.pending = s.pending)
    (stays : advance s.pending = s.pending) (whole : o.whole s.pending)
    (called : step s o = some s') : stamp h 0 s'.pending = s'.pending := by
  obtain ⟨m, rest, ahead, moved⟩ := whole_cases whole called
  rw [← stays, ahead] at stamped
  obtain ⟨-, rfl⟩ | rfl := moved
  · exact congrArg ([] :: ·) (List.cons.inj stamped).2
  · exact stamped

end Datagrams

theorem Sender.step_messages {s s' : Sender} {o : Outcome} {n e : Nat}
    (laid : Laid s.array n s.pending e) (called : s.step o = some s') :
    (∃ n, Laid s'.array n s'.pending e) ∧ s'.udp = s.udp ∧
      Gather.step ⟨s.headed.messages, s.wire⟩ o = some ⟨s'.headed.messages, s'.wire⟩ ∧
      (s.udp → o.whole s.headed.messages) := by
  obtain ⟨⟨enabled, whole⟩, ⟨⟩⟩ := Option.ite_none_right_eq_some.mp called
  obtain ⟨t, taken⟩ := Option.isSome_iff_exists.mp enabled
  have stamped := headed_messages laid
  obtain ⟨udp, header, wire, msgcurr, laid₁⟩ := headed_keeps laid
  generalize s.headed = s₁ at *
  obtain ⟨sent, n, after⟩ := transmit_messages (o := o) laid₁
  obtain ⟨udp', header', again⟩ := transmit_keeps (s := s₁) (o := o)
  rw [wire] at sent
  rw [(step_cases taken).1, ← sent] at taken
  refine ⟨⟨n, after⟩, udp'.trans udp, ?_, whole⟩
  rw [taken, headed_messages after]
  split
  next first =>
    -- the first message is still the current one, so its headers were built
    obtain ⟨first', stays⟩ := again first.2
    have isUdp := udp'.trans udp ▸ first.1
    rw [if_pos ⟨isUdp, msgcurr.symm.trans first'⟩] at stamped
    have ahead := (next_messages laid₁).1
    rw [stays] at ahead
    rw [header', header]
    refine congrArg (fun p => some (Sending.mk p _)) (stamp_step ?_ ahead.symm (whole isUdp) taken).symm
    exact stamped ▸ stamp_stamp s.messages
  · rfl

/-! ### The response -/

/-- The parts of a response with their headers, from number `i` on. -/
def headedParts (header : Nat → List UInt8) : Nat → List (List UInt8) → List (List UInt8)
  | _, [] => []
  | i, part :: parts => (header i ++ part) :: headedParts header (i + 1) parts

def datagrams (requestId : Nat) (parts : List (List UInt8)) : List (List UInt8) :=
  headedParts (udpHeader requestId · parts.length) 0 parts

theorem stamp_fits {h : Nat → List UInt8} (size : ∀ i, (h i).length = udpHeaderSize) (i : Nat)
    {ms : List Message} (fits : ∀ m ∈ ms, Fits true m) :
    (stamp h i ms).map List.flatten = headedParts h i (ms.map fun m => (body true m).flatten) ∧
      ∀ m ∈ stamp h i ms, m.length ≤ iovMax ∧ m.flatten.length ≤ udpMaxPayloadSize ∧ m ≠ [] := by
  induction ms generalizing i with
  | nil => exact ⟨rfl, nofun⟩
  | cons m ms ih =>
    obtain ⟨⟨few, small, slot⟩, later⟩ := List.forall_mem_cons.mp fits
    obtain ⟨same, others⟩ := ih (i + 1) later
    obtain ⟨tail, rfl⟩ := List.head?_eq_some_iff.mp (slot rfl)
    refine ⟨by simp [stamp, headedParts, same, body], List.forall_mem_cons.mpr ⟨⟨few, ?_, by simp⟩, others⟩⟩
    simpa [size] using small rfl

section Response

variable (udp : Bool) (grown requestId : Nat) (bufs : List (List UInt8))

theorem sender_spec : ∃ parts : List (List UInt8), parts.flatten = bufs.flatten ∧
    (sender udp grown requestId bufs).headed.messages.map List.flatten =
      (if udp then datagrams requestId parts else parts) ∧
    (∀ m ∈ (sender udp grown requestId bufs).headed.messages, m.length ≤ iovMax ∧
      (udp = true → m.flatten.length ≤ udpMaxPayloadSize ∧ m ≠ [])) ∧
    ∃ e, Laid (sender udp grown requestId bufs).array 0 (sender udp grown requestId bufs).pending e := by
  obtain ⟨-, lays, -, earlier, current, data⟩ := gathered_respond udp grown bufs
  have laid := laid_concat.mpr ⟨lays.laid, lays.here, rfl⟩
  have headed := headed_messages (s := sender udp grown requestId bufs) laid
  let msgs := (respond udp grown bufs).earlier ++ [(respond udp grown bufs).current]
  have all : (sender udp grown requestId bufs).messages = msgs := List.map_append
  have fits : ∀ m ∈ msgs, Fits udp m :=
    List.forall_mem_append.mpr ⟨earlier, List.forall_mem_singleton.mpr current⟩
  refine ⟨msgs.map fun m => (body udp m).flatten, ?_, ?_⟩
  · rw [← data]
    simp [msgs, List.flatten_flatten, Function.comp_def]
  rw [headed, all, and_assoc.symm]
  refine ⟨?_, _, laid⟩
  cases udp with
  | false => exact ⟨rfl, fun m member => ⟨(fits m member).few, nofun⟩⟩
  | true =>
    obtain ⟨same, fits⟩ := stamp_fits (h := (udpHeader requestId · msgs.length)) (fun _ => rfl) 0 fits
    have count : (sender true grown requestId bufs).header = (udpHeader requestId · msgs.length) := by
      simp [sender, msgs, Vectors.earlier]
    rw [if_pos ⟨rfl, rfl⟩, if_pos rfl, count, datagrams, List.length_map]
    exact ⟨same, fun m member => ⟨(fits m member).1, fun _ => (fits m member).2⟩⟩

/-- The messages hold the buffers in order, none of them has too many entries, and no datagram is too
long. -/
theorem messages_hold_response : ∃ parts : List (List UInt8), parts.flatten = bufs.flatten ∧
    (sender udp grown requestId bufs).headed.messages.map List.flatten =
      (if udp then datagrams requestId parts else parts) ∧
    ∀ m ∈ (sender udp grown requestId bufs).headed.messages, m.length ≤ iovMax ∧
      (udp = true → m.flatten.length ≤ udpMaxPayloadSize) := by
  obtain ⟨parts, whole, same, fits, -⟩ := sender_spec udp grown requestId bufs
  exact ⟨parts, whole, same, fun m member =>
    ⟨(fits m member).1, fun isUdp => ((fits m member).2 isUdp).1⟩⟩

/-- `sent` is a part of `all` from its beginning, and all of it once `transmit` has said so. -/
def SentOf {α : Type} (s : Sender) (sent all : List α) : Prop :=
  sent <+: all ∧ ∀ o, (s.headed.transmit o).1 = .complete → sent = all

-- 1500 bytes go out in two datagrams
example : (Run.exec Sender.step (sender true 0 7 [List.replicate 1500 1])
    [.wouldBlock, .sent 1400, .sent 116]).map (fun s => (s.wire.map List.length,
      (s.headed.transmit .failed).1 matches .complete)) = some ([1400, 116], true) := by
  decide +kernel

end Response

end MemExchange.Gather
