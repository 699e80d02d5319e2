import MemExchange.Rdma.Ring

/-!
# Remote writes

`set_remote_item` copies an item to the one write buffer of the connection, posts a write of it and
does not wait. The adapter reads the buffer when it likes, in parts and more than once, until the
write is complete. The writes of one connection complete in the order in which they were posted.
-/
namespace MemExchange.Rdma

variable {ι κ : Type} [DecidableEq κ]

/-- The slots of the remote items, in the memory of the peers. Slots are cut from the pages that the
peers gave, so no two of them overlap. -/
structure Slots (ι κ : Type) where
  slot : ι → Span κ
  apart : ∀ r q, r ≠ q → (slot r).Apart (slot q)

/-- A posted write. `payload` is what the adapter has read from the buffer so far, and `item` is what
was meant to be written. -/
structure Post (ι : Type) where
  r : ι
  item : Nat → UInt8
  payload : Nat → Option UInt8 := fun _ => none

/-- The write buffers, the writes that are not complete, the memory of the peers, and the item that
was last written to each remote item -/
structure Writer (ι κ : Type) where
  buffer : κ → Nat → UInt8 := fun _ _ => 0
  posted : List (Post ι) := []
  memory : κ → Nat → UInt8 := fun _ _ => 0
  last : ι → Option (Nat → UInt8) := fun _ => none

/-- `set` is a call of `set_remote_item`, and `accepted` says whether `ibv_post_send` took the write.
With `fetch` the adapter reads some bytes of the buffer for the write in that place of the queue, and
with `complete` it is done with it. -/
inductive Transfer (ι : Type) where
  | set (r : ι) (item : Nat → UInt8) (accepted : Bool)
  | fetch (j start len : Nat)
  | complete (j : Nat)

namespace Post

variable (slots : Slots ι κ)

/-- The adapter has read all that the write needs. -/
def Fetched (p : Post ι) : Prop := ∀ i < (slots.slot p.r).size, (p.payload i).isSome

instance (p : Post ι) : Decidable (p.Fetched slots) :=
  inferInstanceAs (Decidable (∀ i < _, _))

def conn (p : Post ι) : κ := (slots.slot p.r).conn

end Post

namespace Writer

variable (slots : Slots ι κ)

def step [DecidableEq ι] (s : Writer ι κ) : Transfer ι → Option (Writer ι κ)
  | .set r item accepted =>
    let span := slots.slot r
    let s := { s with buffer := write s.buffer ⟨span.conn, 0, span.size⟩ item }
    if accepted then
      some { s with
        posted := s.posted ++ [{ r := r, item := item }]
        last := Function.update s.last r (some item) }
    else some s
  | .fetch j start len =>
    s.posted[j]?.map fun p =>
      { s with posted := s.posted.set j { p with
        payload := fun i =>
          if start ≤ i ∧ i < start + len then some (s.buffer (p.conn slots) i) else p.payload i } }
  | .complete j =>
    s.posted[j]?.bind fun p =>
      if p.Fetched slots ∧ ∀ q ∈ s.posted.take j, q.conn slots ≠ p.conn slots then
        some { s with
          posted := s.posted.eraseIdx j
          memory := write s.memory (slots.slot p.r) fun i => (p.payload i).getD 0 }
      else none

end Writer

/-- When all writes are complete, every slot has the item that was last written to it. -/
def Delivered (slots : Slots ι κ) (s : Writer ι κ) : Prop :=
  s.posted = [] → ∀ r, ∀ item ∈ s.last r, ∀ i < (slots.slot r).size,
    s.memory (slots.slot r).conn ((slots.slot r).start + i) = item i

/-- An item is put into the buffer of a connection only when all that was posted there before is
complete. -/
def Unhurried (slots : Slots ι κ) (s : Writer ι κ) : Transfer ι → Prop
  | .set r _ _ => ∀ p ∈ s.posted, p.conn slots ≠ (slots.slot r).conn
  | _ => True

instance (slots : Slots ι κ) (s : Writer ι κ) : ∀ a, Decidable (Unhurried slots s a)
  | .set _ _ _ => inferInstanceAs (Decidable (∀ p ∈ s.posted, _))
  | .fetch _ _ _ | .complete _ => isTrue trivial

/-! ### What the memory will be -/

/-- The memory after some writes, each with its own item -/
def settle (slots : Slots ι κ) : (κ → Nat → UInt8) → List (Post ι) → κ → Nat → UInt8
  | memory, [] => memory
  | memory, p :: l => settle slots (write memory (slots.slot p.r) p.item) l

theorem settle_append (slots : Slots ι κ) (memory : κ → Nat → UInt8) (l : List (Post ι))
    (p : Post ι) :
    settle slots memory (l ++ [p]) = write (settle slots memory l) (slots.slot p.r) p.item := by
  induction l generalizing memory with
  | nil => rfl
  | cons q l ih => exact ih _

variable {slots : Slots ι κ} {memory : κ → Nat → UInt8} {l : List (Post ι)} {j : Nat} {p : Post ι}

theorem settle_set (here : l[j]? = some p) (payload : Nat → Option UInt8) :
    settle slots memory (l.set j { p with payload := payload }) = settle slots memory l := by
  induction l generalizing j memory with
  | nil => rfl
  | cons q l ih =>
    cases j with
    | zero =>
      cases here
      rfl
    | succ j => exact ih here

theorem settle_eraseIdx (here : l[j]? = some p)
    (first : ∀ q ∈ l.take j, q.conn slots ≠ p.conn slots) :
    settle slots (write memory (slots.slot p.r) p.item) (l.eraseIdx j) = settle slots memory l := by
  induction l generalizing j memory with
  | nil => simp at here
  | cons q l ih =>
    cases j with
    | zero =>
      cases here
      rfl
    | succ j =>
      have apart : (slots.slot p.r).Apart (slots.slot q.r) :=
        fun same => absurd same.symm (first q (by simp))
      have later : ∀ r ∈ l.take j, r.conn slots ≠ p.conn slots :=
        fun r mem => first r (by simp [mem])
      show settle slots (write (write memory _ p.item) (slots.slot q.r) q.item) (l.eraseIdx j) = _
      rw [write_comm apart]
      exact ih here later

/-- What the writes that are not complete will leave, if each carries its own item -/
def Writer.settled (slots : Slots ι κ) (s : Writer ι κ) : κ → Nat → UInt8 :=
  settle slots s.memory s.posted

/-- What the adapter has read of a write is of its own item, and so is what it will read. -/
structure Writer.Inv (slots : Slots ι κ) (s : Writer ι κ) : Prop where
  own : ∀ p ∈ s.posted, ∀ i < (slots.slot p.r).size, ∀ b ∈ p.payload i, b = p.item i
  staged : ∀ p ∈ s.posted, ∀ i < (slots.slot p.r).size, s.buffer (p.conn slots) i = p.item i
  last : ∀ r, ∀ item ∈ s.last r, ∀ i < (slots.slot r).size,
    s.settled slots (slots.slot r).conn ((slots.slot r).start + i) = item i

theorem Writer.inv_initial (slots : Slots ι κ) : Writer.Inv slots {} := by
  constructor <;> simp

theorem Writer.Inv.delivered {s : Writer ι κ} (inv : s.Inv slots) : Delivered slots s := by
  intro none r item written i inside
  have settled := inv.last r item written i inside
  rwa [Writer.settled, none] at settled

/-! ### The steps -/

section Steps

variable [DecidableEq ι] {s t : Writer ι κ}

theorem Writer.Inv.set (inv : s.Inv slots) {r : ι} {item : Nat → UInt8} {accepted : Bool}
    (unhurried : Unhurried slots s (.set r item accepted))
    (called : s.step slots (.set r item accepted) = some t) : t.Inv slots := by
  -- what was posted before is of other connections
  have staged : ∀ p ∈ s.posted, ∀ i < (slots.slot p.r).size,
      write s.buffer ⟨(slots.slot r).conn, 0, (slots.slot r).size⟩ item (p.conn slots) i
        = p.item i := by
    intro p mem i inside
    rw [write, if_neg fun here => unhurried p mem here.1]
    exact inv.staged p mem i inside
  unfold Writer.step at called
  dsimp only at called
  split at called
  · cases called
    refine ⟨fun p mem => ?_, fun p mem => ?_, fun q written mem i inside => ?_⟩
    · rcases List.mem_append.mp mem with old | new
      · exact inv.own p old
      · rw [List.mem_singleton.mp new]
        simp
    · rcases List.mem_append.mp mem with old | new
      · exact staged p old
      · rw [List.mem_singleton.mp new]
        intro i inside
        have here := write_inside s.buffer ⟨(slots.slot r).conn, 0, (slots.slot r).size⟩ item inside
        rwa [Nat.zero_add] at here
    · have settled : Writer.settled slots { s with
          buffer := write s.buffer ⟨(slots.slot r).conn, 0, (slots.slot r).size⟩ item
          posted := s.posted ++ [{ r := r, item := item }]
          last := Function.update s.last r (some item) }
          = write (s.settled slots) (slots.slot r) item := settle_append ..
      rw [settled]
      dsimp only at mem
      by_cases same : q = r
      · subst same
        rw [Function.update_self] at mem
        cases mem
        exact write_inside _ _ _ inside
      · rw [Function.update_of_ne same] at mem
        rw [write_outside (slots.apart r q (Ne.symm same)) inside]
        exact inv.last q written mem i inside
  · cases called
    exact ⟨inv.own, staged, inv.last⟩

theorem Writer.Inv.fetch {start len : Nat} (inv : s.Inv slots)
    (called : s.step slots (.fetch j start len) = some t) : t.Inv slots := by
  obtain ⟨p, here, rfl⟩ := Option.map_eq_some_iff.mp called
  have old := List.mem_of_getElem? here
  refine ⟨fun q mem => ?_, fun q mem => ?_, ?_⟩
  · rcases List.mem_or_eq_of_mem_set mem with mem | rfl
    · exact inv.own q mem
    · intro i inside b read
      dsimp only at inside read ⊢
      split at read
      · cases read
        exact inv.staged p old i inside
      · exact inv.own p old i inside b read
  · rcases List.mem_or_eq_of_mem_set mem with mem | rfl
    · exact inv.staged q mem
    · exact inv.staged p old
  · -- the items of the writes are the same
    unfold Writer.settled
    dsimp only
    rw [settle_set here]
    exact inv.last

theorem Writer.Inv.complete (inv : s.Inv slots)
    (called : s.step slots (.complete j) = some t) : t.Inv slots := by
  obtain ⟨p, here, called⟩ := Option.bind_eq_some_iff.mp called
  obtain ⟨⟨fetched, first⟩, ⟨⟩⟩ := Option.ite_none_right_eq_some.mp called
  have old := List.mem_of_getElem? here
  refine ⟨fun q mem => inv.own q (List.mem_of_mem_eraseIdx mem),
    fun q mem => inv.staged q (List.mem_of_mem_eraseIdx mem), ?_⟩
  -- what is written is the item
  have carried : write s.memory (slots.slot p.r) (fun i => (p.payload i).getD 0)
      = write s.memory (slots.slot p.r) p.item := by
    funext c x
    unfold write
    split
    · next inside =>
      obtain ⟨b, read⟩ := Option.isSome_iff_exists.mp (fetched (x - (slots.slot p.r).start) (by omega))
      dsimp only
      rw [read]
      exact inv.own p old _ (by omega) b read
    · rfl
  unfold Writer.settled
  dsimp only
  rw [carried, settle_eraseIdx here first]
  exact inv.last

/-- An unhurried transfer leaves every posted write its own item. -/
theorem Writer.inv_step (s : Writer ι κ) (a : Transfer ι) (t : Writer ι κ) (inv : s.Inv slots)
    (unhurried : Unhurried slots s a) (called : s.step slots a = some t) : t.Inv slots := by
  cases a with
  | set r item accepted => exact inv.set unhurried called
  | fetch j start len => exact inv.fetch called
  | complete j => exact inv.complete called

/-- If every write is complete before the next one of its connection is put into the buffer, all
slots have the items that were last written to them once no write is left. -/
theorem writes_carry_their_items (slots : Slots ι κ) (as : List (Transfer ι))
    (unhurried : Run.Along (Writer.step slots) (Unhurried slots) {} as) :
    Run.Always (Writer.step slots) (Delivered slots) {} as :=
  Run.always_mono (fun _ inv => inv.delivered)
    (Run.always_of_invariant Writer.inv_step (Writer.inv_initial slots) unhurried)

end Steps

/-- Two slots of 96 bytes in the memory of one peer -/
def twoSlots : Slots Bool Unit where
  slot := fun r => ⟨(), if r then 0 else 96, 96⟩
  apart := by decide

/-- Each item is written before the next is put into the buffer. -/
def oneByOne : List (Transfer Bool) :=
  [.set true (fun _ => 65) true, .fetch 0 0 48, .fetch 0 48 48, .complete 0,
    .set false (fun _ => 66) true, .fetch 0 0 96, .complete 0]

theorem one_by_one_delivered : Run.Along (Writer.step twoSlots) (Unhurried twoSlots) {} oneByOne ∧
      (Run.exec (Writer.step twoSlots) {} oneByOne).map
        (fun s => (s.posted.length, s.memory () 95, s.memory () 96)) = some (0, 65, 66) ∧
      Run.Always (Writer.step twoSlots) (Delivered twoSlots) {} oneByOne :=
  ⟨by decide +kernel, by decide +kernel,
    writes_carry_their_items twoSlots oneByOne (by decide +kernel)⟩

/-- The second item is put into the buffer before the adapter has read the first. -/
def overtaken : List (Transfer Bool) :=
  [.set true (fun _ => 65) true, .set false (fun _ => 66) true,
    .fetch 0 0 96, .complete 0, .fetch 0 0 96, .complete 0]

/-- The slot of the first item has the second one. -/
theorem overtaken_write_lost :
    ¬ Run.Always (Writer.step twoSlots) (Delivered twoSlots) {} overtaken ∧
      (Run.exec (Writer.step twoSlots) {} overtaken).map
        (fun s => (s.posted.length, s.memory () 0, (s.last true).map (· 0)))
        = some (0, 66, some 65) := by
  have reached : (Run.exec (Writer.step twoSlots) {} overtaken).map
      (fun s => (s.posted.length, s.memory () 0, (s.last true).map (· 0)))
      = some (0, 66, some 65) := by decide +kernel
  refine ⟨fun always => ?_, reached⟩
  obtain ⟨s, done, state⟩ := Option.map_eq_some_iff.mp reached
  simp only [Prod.mk.injEq, List.length_eq_zero_iff, Option.map_eq_some_iff] at state
  obtain ⟨none, memory, item, written, first⟩ := state
  have delivered := always.last done none true item written 0 (by decide)
  have memory' : s.memory () 0 = item 0 := delivered
  rw [memory, first] at memory'
  exact absurd memory' (by decide)

end MemExchange.Rdma
