import MemExchange.Lib.Run

/-!
# The ring of the remote reads

Every connection to a remote tenant has a region for the items it reads, and a position in it,
`last_used_addr`. `get_remote_item` goes on by the size of the item before or of the item it is going
to read, whichever is larger, and back to the start if the item would not fit. The size of the item
before is one variable for all connections.
-/
namespace MemExchange.Rdma

/-- `RDMA_BUFFER_SIZE` -/
def bufferSize : Nat := 1024 * 1024

/-- The positions are counted from the start of the region of each connection. -/
structure Ring (κ : Type) where
  lastUsed : κ → Nat := fun _ => 0
  prevsize : Nat := 0

structure Span (κ : Type) where
  conn : κ
  start : Nat
  size : Nat
  deriving DecidableEq, Repr

namespace Span

variable {κ : Type} (a : Span κ)

/-- The bytes are in the region. -/
def Inside : Prop := a.start + a.size ≤ 10 * bufferSize

/-- No byte belongs to both. -/
def Apart (b : Span κ) : Prop :=
  a.conn = b.conn → a.start + a.size ≤ b.start ∨ b.start + b.size ≤ a.start

instance : Decidable a.Inside := inferInstanceAs (Decidable (_ ≤ _))

instance [DecidableEq κ] (b : Span κ) : Decidable (a.Apart b) :=
  inferInstanceAs (Decidable (_ → _ ∨ _))

theorem Apart.symm {a b : Span κ} (apart : a.Apart b) : b.Apart a := fun same =>
  (apart same.symm).symm

theorem Apart.part {a b : Span κ} (apart : a.Apart b) (start size : Nat) (low : a.start ≤ start)
    (high : start + size ≤ a.start + a.size) : Span.Apart ⟨a.conn, start, size⟩ b := by
  intro same
  have := apart same
  dsimp only
  omega

end Span

/-! ### Bytes of a region -/

section Bytes

variable {κ : Type} [DecidableEq κ]

def write (region : κ → Nat → UInt8) (span : Span κ) (bytes : Nat → UInt8) : κ → Nat → UInt8 :=
  fun c x =>
    if c = span.conn ∧ span.start ≤ x ∧ x < span.start + span.size then bytes (x - span.start)
    else region c x

variable {i : Nat} {region : κ → Nat → UInt8}

theorem write_inside (region : κ → Nat → UInt8) (span : Span κ) (bytes : Nat → UInt8)
    (inside : i < span.size) : write region span bytes span.conn (span.start + i) = bytes i := by
  unfold write
  rw [if_pos ⟨rfl, Nat.le_add_right .., Nat.add_lt_add_left inside _⟩, Nat.add_sub_cancel_left]

theorem write_outside {span other : Span κ} {bytes : Nat → UInt8} (apart : span.Apart other)
    (inside : i < other.size) :
    write region span bytes other.conn (other.start + i) = region other.conn (other.start + i) := by
  refine if_neg fun ⟨same, low, high⟩ => ?_
  have := apart same.symm
  omega

theorem write_comm {a b : Span κ} (apart : a.Apart b) (x y : Nat → UInt8) :
    write (write region a x) b y = write (write region b y) a x := by
  funext c i
  unfold write
  by_cases inA : c = a.conn ∧ a.start ≤ i ∧ i < a.start + a.size
  · by_cases inB : c = b.conn ∧ b.start ≤ i ∧ i < b.start + b.size
    · have := apart (inA.1.symm.trans inB.1)
      omega
    · rw [if_neg inB, if_pos inA, if_pos inA]
  · rw [if_neg inA, if_neg inA]

end Bytes

namespace Ring

variable {κ : Type}

def stride (r : Ring κ) (size : Nat) : Nat := if r.prevsize < size then size else r.prevsize

theorem stride_eq_max (r : Ring κ) (size : Nat) : r.stride size = max size r.prevsize := by
  unfold stride
  split <;> omega

def advance (r : Ring κ) (c : κ) (size : Nat) : Nat :=
  let next := r.lastUsed c + r.stride size
  if 10 * bufferSize ≤ next + size then 0 else next

/-- The next item would not fit before the end of the region. -/
def Wraps (r : Ring κ) (c : κ) (size : Nat) : Prop :=
  10 * bufferSize ≤ r.lastUsed c + max size r.prevsize + size

instance (r : Ring κ) (c : κ) (size : Nat) : Decidable (r.Wraps c size) :=
  inferInstanceAs (Decidable (_ ≤ _))

variable {r : Ring κ} {c : κ} {size : Nat}

theorem advance_of_wraps (wraps : r.Wraps c size) : r.advance c size = 0 := by
  unfold Wraps at wraps
  unfold advance
  rw [stride_eq_max]
  exact if_pos wraps

theorem advance_of_not_wraps (on : ¬ r.Wraps c size) :
    r.advance c size = r.lastUsed c + max size r.prevsize := by
  unfold Wraps at on
  unfold advance
  rw [stride_eq_max]
  exact if_neg on

/-- The position goes back from the last two tenths of the region only. -/
theorem Wraps.late (wraps : r.Wraps c size) (fits : size ≤ bufferSize)
    (before : r.prevsize ≤ bufferSize) : 8 * bufferSize ≤ r.lastUsed c := by
  unfold Wraps at wraps
  omega

variable [DecidableEq κ]

def take (r : Ring κ) (c : κ) (size : Nat) : Span κ × Ring κ :=
  (⟨c, r.advance c size, size⟩,
    { lastUsed := Function.update r.lastUsed c (r.advance c size), prevsize := size })

theorem take_inside (r : Ring κ) (c : κ) (fits : size ≤ bufferSize) : (r.take c size).1.Inside := by
  unfold Span.Inside take advance
  dsimp only
  split <;> omega

end Ring

/-! ### Reads, one after the other -/

section Reads

variable {κ : Type} [DecidableEq κ]

/-- A read of an item of some class over a connection. The classes of the items are at most
`RDMA_BUFFER_SIZE` large, and none has size zero. -/
structure Read (κ : Type) where
  conn : κ
  size : Nat
  positive : 0 < size
  fits : size ≤ bufferSize

/-- The ring, and the last read of each connection -/
structure Reader (κ : Type) where
  ring : Ring κ := {}
  last : κ → Option (Span κ) := fun _ => none

variable (s : Reader κ) (a : Read κ)

def Reader.read : Option (Reader κ) :=
  let (span, ring) := s.ring.take a.conn a.size
  some { ring := ring, last := Function.update s.last a.conn (some span) }

/-- The destination of the read is in the region, and it is apart from the one before on the same
connection. -/
def Fresh : Prop :=
  let span := (s.ring.take a.conn a.size).1
  span.Inside ∧ ∀ before ∈ s.last a.conn, span.Apart before

/-- The item before on the same connection was not larger than both this one and the one before on
any connection, or there is no room for this one before the end of the region. -/
def Covered : Prop :=
  ∀ before ∈ s.last a.conn,
    before.size ≤ max a.size s.ring.prevsize ∨ s.ring.Wraps a.conn a.size

instance : Decidable (Covered s a) :=
  inferInstanceAs (Decidable (∀ before ∈ s.last a.conn, _))

instance : Decidable (Fresh s a) :=
  inferInstanceAs (Decidable (_ ∧ ∀ before ∈ s.last a.conn, _))

/-- The position of a connection is that of its last read. -/
structure Reader.Inv (s : Reader κ) : Prop where
  last : ∀ c, ∀ span ∈ s.last c, span.conn = c ∧ span.start = s.ring.lastUsed c ∧ 0 < span.size
  prevsize : s.ring.prevsize ≤ bufferSize

omit [DecidableEq κ] in
theorem Reader.inv_initial : Reader.Inv ({} : Reader κ) := ⟨by simp, Nat.zero_le _⟩

theorem Reader.inv_read (t : Reader κ) (inv : s.Inv) (called : s.read a = some t) : t.Inv := by
  cases called
  refine ⟨fun c span mem => ?_, a.fits⟩
  dsimp only at mem ⊢
  by_cases same : c = a.conn
  · subst same
    rw [Function.update_self] at mem ⊢
    cases mem
    exact ⟨rfl, rfl, a.positive⟩
  · rw [Function.update_of_ne same] at mem ⊢
    exact inv.last c span mem

/-- A read overlaps the one before on its connection exactly if the position went on by too little. -/
theorem Reader.Inv.fresh_iff {s : Reader κ} (inv : s.Inv) (a : Read κ) :
    Fresh s a ↔ Covered s a := by
  have inside := s.ring.take_inside a.conn a.fits
  have apart : ∀ before ∈ s.last a.conn, (s.ring.take a.conn a.size).1.Apart before ↔
      before.size ≤ max a.size s.ring.prevsize ∨ s.ring.Wraps a.conn a.size := by
    intro before mem
    obtain ⟨conn, start, positive⟩ := inv.last a.conn before mem
    have fits := a.fits
    have some := a.positive
    have position : (s.ring.take a.conn a.size).1.Apart before ↔
        s.ring.advance a.conn a.size + a.size ≤ before.start ∨
          before.start + before.size ≤ s.ring.advance a.conn a.size :=
      ⟨fun apart => apart conn.symm, fun either _ => either⟩
    rw [position, start]
    by_cases wraps : s.ring.Wraps a.conn a.size
    · -- the first tenth of the region is out of reach of the read before
      have late := wraps.late fits inv.prevsize
      rw [Ring.advance_of_wraps wraps]
      simp only [wraps, or_true, iff_true]
      omega
    · rw [Ring.advance_of_not_wraps wraps]
      simp only [wraps, or_false]
      omega
  constructor
  · exact fun fresh before mem => (apart before mem).mp (fresh.2 before mem)
  · exact fun covered => ⟨inside, fun before mem => (apart before mem).mpr (covered before mem)⟩

/-- Every read of a sequence stays in the region and off the read before on its connection exactly if
no item is read over a connection after a larger one with only smaller ones in between. -/
theorem ring_reads_apart_iff (as : List (Read κ)) : Run.Along Reader.read Fresh ({} : Reader κ) as ↔
      Run.Along Reader.read Covered ({} : Reader κ) as := by
  constructor
  · exact Run.along_of_invariant (fun s a t inv _ => Reader.inv_read s a t inv)
      (fun s a inv => (inv.fresh_iff a).mp) Reader.inv_initial
  · exact Run.along_of_invariant (fun s a t inv _ => Reader.inv_read s a t inv)
      (fun s a inv => (inv.fresh_iff a).mpr) Reader.inv_initial

/-- Two connections. The first reads an item of 2000 bytes, the second one of 100 bytes, and then the
first reads one of 100 bytes. -/
def interleaved : List (Read Bool) :=
  [⟨true, 2000, by decide, by decide⟩, ⟨false, 100, by decide, by decide⟩,
    ⟨true, 100, by decide, by decide⟩]

/-- The second item is put 100 bytes after the start of the first. -/
theorem interleaved_reads_overlap : ¬ Run.Along Reader.read Fresh ({} : Reader Bool) interleaved ∧
      (Run.exec Reader.read ({} : Reader Bool) (interleaved.take 2)).map
        (fun s => (s.last true, (s.ring.take true 100).1))
        = some (some ⟨true, 2000, 2000⟩, ⟨true, 2100, 100⟩) := by
  decide +kernel

end Reads

/-! ### Places in use -/

/-- A place that was given to a read and is in use, and by how much the position of its connection
was told to go on since. -/
structure Hold (κ : Type) where
  span : Span κ
  travelled : Nat := 0

namespace Hold

variable {κ : Type} [DecidableEq κ] {h : Hold κ} {ring : Ring κ} {a : Read κ}

def after (h : Hold κ) (ring : Ring κ) (a : Read κ) : Hold κ :=
  if h.span.conn = a.conn then { h with travelled := h.travelled + ring.stride a.size } else h

/-- With this read the position has gone on by no more than eight tenths of the region, and the first
read makes it go on by the size of the place at least. -/
def Roomy (h : Hold κ) (ring : Ring κ) (a : Read κ) : Prop :=
  h.span.conn = a.conn → h.travelled + max a.size ring.prevsize ≤ 8 * bufferSize ∧
    (h.travelled = 0 → h.span.size ≤ max a.size ring.prevsize)

instance : Decidable (h.Roomy ring a) := inferInstanceAs (Decidable (_ → _ ∧ _))

/-- The position is where the place is, or behind it; or it has gone back to the start of the region
once, and is before it. -/
structure Ahead (h : Hold κ) (ring : Ring κ) : Prop where
  inside : h.span.Inside
  positive : 0 < h.span.size
  reached : (ring.lastUsed h.span.conn = h.span.start + h.travelled ∧
      (h.travelled = 0 ∨ h.span.size ≤ h.travelled)) ∨
    ring.lastUsed h.span.conn + 9 * bufferSize ≤ h.span.start + h.travelled

@[simp] theorem after_span : (h.after ring a).span = h.span := by
  unfold after
  split <;> rfl

/-- The place of a read is apart from one that the position has not come around to, and the position
then has not come around to it either. -/
theorem Ahead.advance (ahead : h.Ahead ring) (roomy : h.Roomy ring a) :
    (ring.take a.conn a.size).1.Apart h.span ∧
      (h.after ring a).Ahead (ring.take a.conn a.size).2 := by
  obtain ⟨inside, positive, reached⟩ := ahead
  by_cases same : h.span.conn = a.conn
  · obtain ⟨room, first⟩ := roomy same
    have fits := a.fits
    rw [after, if_pos same]
    suffices both : (ring.advance a.conn a.size + a.size ≤ h.span.start ∨
          h.span.start + h.span.size ≤ ring.advance a.conn a.size) ∧
        ((ring.advance a.conn a.size = h.span.start + (h.travelled + ring.stride a.size) ∧
            (h.travelled + ring.stride a.size = 0 ∨ h.span.size ≤ h.travelled + ring.stride a.size)) ∨
          ring.advance a.conn a.size + 9 * bufferSize
            ≤ h.span.start + (h.travelled + ring.stride a.size)) by
      refine ⟨fun _ => both.1, inside, positive, ?_⟩
      rw [show (ring.take a.conn a.size).2.lastUsed h.span.conn = ring.advance a.conn a.size by
        rw [same]
        exact Function.update_self ..]
      exact both.2
    rw [same] at reached
    unfold Span.Inside at inside
    rw [Ring.stride_eq_max]
    by_cases wraps : ring.Wraps a.conn a.size
    · rw [Ring.advance_of_wraps wraps]
      unfold Ring.Wraps at wraps
      omega
    · rw [Ring.advance_of_not_wraps wraps]
      omega
  · rw [after, if_neg same]
    refine ⟨fun conn => absurd conn.symm same, inside, positive, ?_⟩
    rwa [show (ring.take a.conn a.size).2.lastUsed h.span.conn = ring.lastUsed h.span.conn from
      Function.update_of_ne same ..]

/-- The position has just come to the place of a read. -/
theorem ahead_take (ring : Ring κ) (a : Read κ) :
    Hold.Ahead ⟨(ring.take a.conn a.size).1, 0⟩ (ring.take a.conn a.size).2 :=
  ⟨ring.take_inside a.conn a.fits, a.positive, .inl ⟨Function.update_self .., .inl rfl⟩⟩

end Hold

end MemExchange.Rdma
