import MemExchange.Rdma.Writes

/-!
# Remote reads

`get_remote_item` posts a read to a place in the ring and waits until the field `nbytes` of the item
that is to come is not zero, or for 0.1 ms. The adapter puts the bytes there in increasing order, in
as many steps as it likes, also when nobody waits any more. Calls are made under one lock.
-/
namespace MemExchange.Rdma

variable {ι κ : Type} [DecidableEq κ]

/-- The remote items and the bytes in the memory of the peers. A slot holds an item, so it is not
smaller than the header of one. -/
structure Remote (ι κ : Type) extends Slots ι κ where
  memory : κ → Nat → UInt8
  header : ∀ r, 56 ≤ (slot r).size
  fits : ∀ r, (slot r).size ≤ bufferSize

namespace Remote

variable (remote : Remote ι κ) (r : ι)

def item (i : Nat) : UInt8 := remote.memory (remote.slot r).conn ((remote.slot r).start + i)

def read : Read κ where
  conn := (remote.slot r).conn
  size := (remote.slot r).size
  positive := Nat.lt_of_lt_of_le (by decide) (remote.header r)
  fits := remote.fits r

end Remote

/-- A read that was posted, and how many of its bytes have come -/
structure Flight (ι κ : Type) extends Hold κ where
  r : ι
  pos : Nat := 0

namespace Flight

variable (f : Flight ι κ)

def Done : Prop := f.pos = f.span.size

instance : Decidable f.Done := inferInstanceAs (Decidable (_ = _))

def after (f : Flight ι κ) (ring : Ring κ) (a : Read κ) : Flight ι κ :=
  { f with toHold := f.toHold.after ring a }

end Flight

/-- The rings and their bytes, all reads that were posted, and whether a call waits for the last of
them -/
structure Receiver (ι κ : Type) where
  ring : Ring κ := {}
  region : κ → Nat → UInt8 := fun _ _ => 0
  flights : List (Flight ι κ) := []
  waits : Bool := false

/-- `call` goes up to `ibv_post_send`, which may fail. `poll` is a look at `nbytes`, with which the
call returns if that is not zero, and with `timeout` it gives up. With `deposit` some bytes of a read
come. -/
inductive Arrival (ι : Type) where
  | call (r : ι) (accepted : Bool)
  | poll
  | timeout
  | deposit (j len : Nat)

namespace Receiver

variable (s : Receiver ι κ) (place : Span κ)

def current (i : Nat) : UInt8 :=
  s.region place.conn (place.start + i)

/-- `nbytes` of an item, the bytes 32 to 35 of it, is not zero. -/
def HasBytes : Prop := ∃ i < 4, s.current place (32 + i) ≠ 0

instance : Decidable (s.HasBytes place) :=
  inferInstanceAs (Decidable (∃ i < 4, _))

def returns : Arrival ι → Option (Flight ι κ)
  | .poll => s.flights.getLast?.filter fun f => s.waits ∧ s.HasBytes f.span
  | _ => none

def step (remote : Remote ι κ) (s : Receiver ι κ) : Arrival ι → Option (Receiver ι κ)
  | .call r accepted =>
    let a := remote.read r
    let (span, ring) := s.ring.take a.conn a.size
    let s' : Receiver ι κ := { s with
      ring := ring
      region := write s.region span fun _ => 0
      flights := s.flights.map (·.after s.ring a) }
    if s.waits then none
    else if accepted then
      some { s' with flights := s'.flights ++ [{ span := span, r := r }], waits := true }
    else some s'
  | .poll =>
    if s.waits then
      s.flights.getLast?.map fun f => { s with waits := ¬ s.HasBytes f.span }
    else none
  | .timeout => if s.waits then some { s with waits := false } else none
  | .deposit j len =>
    s.flights[j]?.bind fun f =>
      if 0 < len ∧ f.pos + len ≤ f.span.size then
        some { s with
          region := write s.region ⟨f.span.conn, f.span.start + f.pos, len⟩
            fun i => remote.item f.r (f.pos + i)
          flights := s.flights.set j { f with pos := f.pos + len } }
      else none

end Receiver

variable (remote : Remote ι κ) (s : Receiver ι κ) (a : Arrival ι)

/-- When a call returns an item, the bytes there are those of the slot, and no read before that has
not come whole goes there. -/
def Complete : Prop :=
  ∀ f ∈ s.returns a, (∀ i < f.span.size, s.current f.span i = remote.item f.r i) ∧
    ∀ g ∈ s.flights.dropLast, g.Done ∨ g.span.Apart f.span

/-- When a call is made, the position has not gone on too far since the reads that have not come
whole. While a call waits, the adapter stops before `nbytes` or not at all. -/
def Prompt : Arrival ι → Prop
  | .call r _ => ∀ f ∈ s.flights, f.Done ∨ f.Roomy s.ring (remote.read r)
  | .deposit j len => s.waits → j + 1 = s.flights.length →
      ∀ f ∈ s.flights[j]?, f.pos + len ≤ 32 ∨ f.pos + len = f.span.size
  | _ => True

instance : ∀ a, Decidable (Prompt remote s a)
  | .call _ _ => inferInstanceAs (Decidable (∀ f ∈ s.flights, _))
  | .deposit j _ => inferInstanceAs (Decidable (_ → _ → ∀ f ∈ s.flights[j]?, _))
  | .timeout | .poll => isTrue trivial

instance : Decidable (Complete remote s a) :=
  inferInstanceAs (Decidable (∀ f ∈ s.returns a, _ ∧ _))

/-! ### The read that is waited for -/

/-- What has come of a read is there, and the rest of its place is still zero. The reads that have
not come whole go elsewhere. -/
structure Awaited (remote : Remote ι κ) (s : Receiver ι κ) (f : Flight ι κ) : Prop where
  ahead : f.Ahead s.ring
  size : f.span.size = (remote.slot f.r).size
  stops : f.pos ≤ 32 ∨ f.Done
  bytes : ∀ i < f.span.size, s.current f.span i = if i < f.pos then remote.item f.r i else 0
  apart : ∀ g ∈ s.flights.dropLast, g.Done ∨ g.span.Apart f.span

structure Receiver.Inv (remote : Remote ι κ) (s : Receiver ι κ) : Prop where
  ahead : ∀ f ∈ s.flights, f.Done ∨ f.Ahead s.ring
  awaited : s.waits → ∃ f, s.flights.getLast? = some f ∧ Awaited remote s f

section Steps

variable {remote s} {t : Receiver ι κ} {f : Flight ι κ}

omit [DecidableEq κ] in
theorem Receiver.returns_eq_some {a : Arrival ι} (returned : s.returns a = some f) :
    a = .poll ∧ s.flights.getLast? = some f ∧ s.waits ∧ s.HasBytes f.span := by
  cases a with
  | poll => simpa [Receiver.returns, Option.filter_eq_some_iff] using returned
  | _ => cases returned

omit [DecidableEq κ] in
/-- When `nbytes` has come, everything has. -/
theorem Awaited.done (awaited : Awaited remote s f) (returned : s.HasBytes f.span) : f.Done := by
  have header := remote.header f.r
  rw [← awaited.size] at header
  refine awaited.stops.resolve_left fun early => ?_
  obtain ⟨i, small, some⟩ := returned
  rw [awaited.bytes (32 + i) (by omega), if_neg (by omega)] at some
  exact some rfl

variable {r : ι} {accepted : Bool}

section

variable (inv : s.Inv remote) (prompt : Prompt remote s (.call r accepted))
include inv prompt

/-- A call is given a place that is apart from those of the reads that have not come whole. -/
theorem Receiver.Inv.place_apart (member : f ∈ s.flights) :
    f.Done ∨ (s.ring.take (remote.read r).conn (remote.read r).size).1.Apart f.span ∧
      (f.after s.ring (remote.read r)).Ahead
        (s.ring.take (remote.read r).conn (remote.read r).size).2 := by
  rcases prompt f member with done | roomy
  · exact .inl done
  · exact (inv.ahead f member).imp_right fun ahead => ahead.advance roomy

theorem Receiver.Inv.call (called : s.step remote (.call r accepted) = some t) : t.Inv remote := by
  have moved : ∀ g ∈ s.flights.map (·.after s.ring (remote.read r)), g.Done ∨
      (s.ring.take (remote.read r).conn (remote.read r).size).1.Apart g.span ∧
        g.Ahead (s.ring.take (remote.read r).conn (remote.read r).size).2 := by
    intro g member
    obtain ⟨f, old, rfl⟩ := List.mem_map.mp member
    have span : (f.after s.ring (remote.read r)).span = f.span := Hold.after_span
    rw [Flight.Done, span]
    exact inv.place_apart prompt old
  unfold Receiver.step at called
  dsimp only at called
  split at called
  · cases called
  next idle =>
  split at called
  · cases called
    have ahead := Hold.ahead_take s.ring (remote.read r)
    refine ⟨fun g member => ?_, fun _ => ⟨_, List.getLast?_concat .., ahead, rfl, .inl (Nat.zero_le _),
      fun i inside => ?_, fun g member => ?_⟩⟩
    · rcases List.mem_append.mp member with old | new
      · exact (moved g old).imp_right And.right
      · rw [List.mem_singleton.mp new]
        exact .inr ahead
    · rw [if_neg (Nat.not_lt_zero i)]
      exact write_inside s.region _ (fun _ => 0) inside
    · rw [List.dropLast_concat] at member
      exact (moved g member).imp_right fun both => both.1.symm
  · cases called
    exact ⟨fun g member => (moved g member).imp_right And.right, fun waits => absurd waits idle⟩

end

/-- What a step of the adapter does -/
theorem Receiver.step_deposit {j len : Nat} (called : s.step remote (.deposit j len) = some t) :
    ∃ f, s.flights[j]? = some f ∧ ¬ f.Done ∧ 0 < len ∧ f.pos + len ≤ f.span.size ∧ t = { s with
      region := write s.region ⟨f.span.conn, f.span.start + f.pos, len⟩
        fun i => remote.item f.r (f.pos + i)
      flights := s.flights.set j { f with pos := f.pos + len } } := by
  obtain ⟨f, here, called⟩ := Option.bind_eq_some_iff.mp called
  obtain ⟨⟨some, room⟩, ⟨⟩⟩ := Option.ite_none_right_eq_some.mp called
  exact ⟨f, here, fun done => by unfold Flight.Done at done; omega, some, room, rfl⟩

theorem Receiver.Inv.deposit (inv : s.Inv remote) {j len : Nat}
    (prompt : Prompt remote s (.deposit j len)) (called : s.step remote (.deposit j len) = some t) :
    t.Inv remote := by
  obtain ⟨g, here, going, some, room, rfl⟩ := Receiver.step_deposit called
  refine ⟨fun q member => ?_, fun waits => ?_⟩
  · rcases List.mem_or_eq_of_mem_set member with old | rfl
    · exact inv.ahead q old
    · exact .inr ((inv.ahead g (List.mem_of_getElem? here)).resolve_left going)
  obtain ⟨f, last, ahead, size, stops, bytes, apart⟩ := inv.awaited waits
  have stops' := prompt waits
  have order := List.dropLast_append_getLast? f last
  generalize s.flights.dropLast = l at order apart
  rw [← order] at here stops' ⊢
  by_cases before : j < l.length
  · -- a read before, whose place is elsewhere
    rw [List.getElem?_append_left before] at here
    have elsewhere := (apart g (List.mem_of_getElem? here)).resolve_left going
    rw [List.set_append_left _ _ before]
    refine ⟨f, List.getLast?_concat .., ahead, size, stops, fun i inside => ?_, fun q member => ?_⟩
    · rw [← bytes i inside]
      unfold Receiver.current
      dsimp only
      exact write_outside (elsewhere.part _ len (Nat.le_add_right _ g.pos) (by omega)) inside
    · rw [List.dropLast_concat] at member
      rcases List.mem_or_eq_of_mem_set member with member | rfl
      · exact apart q member
      · exact .inr elsewhere
  · -- the read that is waited for
    have atEnd : j = l.length := by
      have := (List.getElem?_eq_some_iff.mp here).1
      simp only [List.length_append, List.length_singleton] at this
      omega
    subst atEnd
    replace stops' := stops' (by simp) g here
    rw [List.getElem?_concat_length] at here
    cases here
    rw [List.set_append_right _ _ (Nat.le_refl _), Nat.sub_self]
    refine ⟨_, List.getLast?_concat .., ahead, size, stops', fun i inside => ?_, ?_⟩
    · have earlier := bytes i inside
      unfold Receiver.current write at *
      dsimp only at *
      by_cases new : g.pos ≤ i ∧ i < g.pos + len
      · rw [if_pos ⟨rfl, by omega, by omega⟩, if_pos new.2]
        congr 1
        omega
      · rw [if_neg fun into => new ⟨by omega, by omega⟩, earlier]
        by_cases old : i < g.pos
        · rw [if_pos old, if_pos (by omega)]
        · rw [if_neg old, if_neg (by omega)]
    · rw [show [g].set 0 { g with pos := g.pos + len } = [{ g with pos := g.pos + len }] from rfl,
        List.dropLast_concat]
      exact apart

/-- Every step keeps the read that is waited for, and the places of those that have not come whole. -/
theorem Receiver.inv_step (s : Receiver ι κ) (a : Arrival ι) (t : Receiver ι κ) (inv : s.Inv remote)
    (prompt : Prompt remote s a) (called : s.step remote a = some t) : t.Inv remote := by
  cases a with
  | call r accepted => exact inv.call prompt called
  | deposit j len => exact inv.deposit prompt called
  | timeout =>
    obtain ⟨-, ⟨⟩⟩ := Option.ite_none_right_eq_some.mp called
    exact ⟨inv.ahead, fun waits => by cases waits⟩
  | poll =>
    obtain ⟨waits, called⟩ := Option.ite_none_right_eq_some.mp called
    obtain ⟨f, last, rfl⟩ := Option.map_eq_some_iff.mp called
    obtain ⟨g, last', ahead, size, stops, bytes, apart⟩ := inv.awaited waits
    exact ⟨inv.ahead, fun _ => ⟨g, last', ahead, size, stops, bytes, apart⟩⟩

omit [DecidableEq κ] in
theorem Receiver.Inv.complete (inv : s.Inv remote) (a : Arrival ι) : Complete remote s a := by
  intro f returned
  obtain ⟨-, last, waits, some⟩ := Receiver.returns_eq_some returned
  obtain ⟨g, last', awaited⟩ := inv.awaited waits
  cases Option.mem_unique last last'
  refine ⟨fun i inside => ?_, awaited.apart⟩
  rw [awaited.bytes i inside, if_pos (by rw [awaited.done some]; exact inside)]

omit [DecidableEq κ] in
theorem Receiver.inv_initial (remote : Remote ι κ) : Receiver.Inv remote {} :=
  ⟨by simp, fun waits => by cases waits⟩

/-- If the position has not come around to the reads that are still to come, and the adapter brings
what begins with `nbytes` at once, then all items are returned whole and stay as they are. -/
theorem reads_return_whole_items (remote : Remote ι κ) (as : List (Arrival ι))
    (prompt : Run.Along (Receiver.step remote) (Prompt remote) {} as) :
    Run.Along (Receiver.step remote) (Complete remote) {} as :=
  Run.along_of_invariant Receiver.inv_step (fun _ a inv _ => inv.complete a)
    (Receiver.inv_initial remote) prompt

end Steps

/-- Two slots of 96 bytes in the memory of one peer, one with all bytes 1 and one with all bytes 2 -/
def twoItems : Remote Bool Unit where
  toSlots := twoSlots
  memory := fun _ x => if x < 96 then 1 else 2
  header := by decide
  fits := by decide

/-- The first read times out, and its rest comes while the second is waited for. -/
def waitedFor : List (Arrival Bool) :=
  [.call true true, .deposit 0 32, .poll, .timeout, .call false true, .poll, .deposit 0 20,
    .deposit 1 96, .deposit 0 44, .poll]

theorem waited_read_whole : Run.Along (Receiver.step twoItems) (Prompt twoItems) {} waitedFor ∧
      (Run.exec (Receiver.step twoItems) {} waitedFor).map
        (fun s => (s.waits, (s.flights.map (·.span.start)), s.region () 191, s.region () 287))
        = some (false, [96, 192], 1, 2) ∧
      Run.Along (Receiver.step twoItems) (Complete twoItems) {} waitedFor :=
  ⟨by decide +kernel, by decide +kernel, reads_return_whole_items twoItems waitedFor (by decide +kernel)⟩

/-- The header has come, and the value has not. -/
def early : List (Arrival Bool) := [.call true true, .deposit 0 56]

/-- The call returns an item with the size that the header says, whose value is zeros. -/
theorem early_read_incomplete :
    ¬ Run.Along (Receiver.step twoItems) (Complete twoItems) {} (early ++ [.poll]) ∧
      (Run.exec (Receiver.step twoItems) {} (early ++ [.poll])).map
        (fun s => (s.waits, s.region () (96 + 55), s.region () (96 + 56), twoItems.item true 56))
        = some (false, 1, 0, 1) := by
  decide +kernel

end MemExchange.Rdma
