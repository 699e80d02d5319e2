import MemExchange.Lib.Dll
import MemExchange.Lib.Run

/-!
# The list of connections

The links of the list go from structure to structure, and a structure knows its `rdma_cm_id`, while
`rdma_connections_head` is an id. So every function begins at the context of the head. Nothing is
assumed of the memory in which the structures lie; their links are arbitrary before they are added.
-/
namespace MemExchange.Rdma

open Function (update_of_ne update_self update_apply update)

variable {ι κ : Type} [DecidableEq ι] [DecidableEq κ]

/-- `rdma_connections_head`, and of `struct connection` the id and the links -/
structure Connections (ι κ : Type) where
  head : Option ι
  id : κ → ι
  prev : κ → Option κ
  next : κ → Option κ

/-- What a lookup compares: the address of the peer of an id, and `peer_identifier` -/
structure Peers (ι κ : Type) where
  addr : ι → UInt32
  identifier : κ → Int

def Peers.matches (peers : Peers ι κ) (addr : UInt32) (peer : Int) (id : ι) (conn : κ) : Bool :=
  peers.addr id == addr && peers.identifier conn == peer

namespace Connections

/-- `while(curr->next) curr = curr->next;` -/
def last (s : Connections ι κ) : Nat → κ → Option κ
  | 0, _ => none
  | fuel + 1, curr =>
    match s.next curr with
    | some next => s.last fuel next
    | none => some curr

variable (s : Connections ι κ) (curr : κ) (context : ι → κ)

/-- `curr->next = conn->context; curr->next->prev = curr; curr->next->next = NULL;` -/
def append (new : κ) : Connections ι κ :=
  let s := { s with next := update s.next curr (some new) }
  { s with
    prev := update s.prev new (some curr)
    next := update s.next new none }

def first (conn : ι) (new : κ) : Connections ι κ :=
  { s with
    head := some conn
    prev := update s.prev new none
    next := update s.next new none }

variable (fuel : Nat)

/-- `add_rdma_connection`. The walk fails if the fuel is not enough. -/
def addRdmaConnection (s : Connections ι κ) (conn : ι) : Option (Connections ι κ) :=
  match s.head with
  | some head => (s.last fuel (context head)).map fun curr => s.append curr (context conn)
  | none => some (s.first conn (context conn))

/-- The part of `build_connection` that concerns the list -/
def buildConnection (s : Connections ι κ) (conn : ι) : Option (Connections ι κ) :=
  addRdmaConnection context fuel { s with id := update s.id (context conn) conn } conn

/-- `while(curr->next && curr->id != conn) curr = curr->next;` -/
def seek (s : Connections ι κ) (conn : ι) : Nat → κ → Option κ
  | 0, _ => none
  | fuel + 1, curr =>
    match s.next curr with
    | some next => if s.id curr ≠ conn then s.seek conn fuel next else some curr
    | none => some curr

/-- `if(curr->prev) curr->prev->next = curr->next; if(curr->next) curr->next->prev = curr->prev;` -/
def join : Connections ι κ :=
  let s := match s.prev curr with
    | some prev => { s with next := update s.next prev (s.next curr) }
    | none => s
  match s.next curr with
  | some next => { s with prev := update s.prev next (s.prev curr) }
  | none => s

/-- `remove_rdma_connection`. An empty list has no head to follow. -/
def removeRdmaConnection (s : Connections ι κ) (conn : ι) : Option (Connections ι κ) := do
  let head ← s.head
  let curr := context head
  if s.id curr = conn then
    match s.next curr with
    | some next =>
      some { s with head := some (s.id next), prev := update s.prev next none }
    | none => some { s with head := none }
  else
    let curr ← s.seek conn fuel curr
    some (if s.id curr = conn then s.join curr else s)

/-- The loop of `lookup_rdma_connection` -/
def lookupBehind (peers : Peers ι κ) (addr : UInt32) (peer : Int) (s : Connections ι κ) :
    Nat → κ → Option (Option ι)
  | 0, _ => none
  | fuel + 1, curr =>
    match s.next curr with
    | none => some none
    | some next =>
      if peers.matches addr peer (s.id next) next then some (some (s.id next))
      else lookupBehind peers addr peer s fuel next

/-- `lookup_rdma_connection`; `some none` is the null pointer. -/
def lookupRdmaConnection (peers : Peers ι κ) (fuel : Nat) (s : Connections ι κ) (addr : UInt32)
    (peer : Int) : Option (Option ι) :=
  match s.head with
  | none => some none
  | some head =>
    let curr := context head
    if peers.matches addr peer head curr then some (some (s.id curr))
    else lookupBehind peers addr peer s fuel curr

end Connections

inductive ConnectionOp (ι : Type) where
  | add (conn : ι)
  | remove (conn : ι)
  deriving DecidableEq, Repr

variable (context : ι → κ)

def Connections.step (fuel : Nat) (s : Connections ι κ) :
    ConnectionOp ι → Option (Connections ι κ)
  | .add conn => s.buildConnection context fuel conn
  | .remove conn => s.removeRdmaConnection context fuel conn

/-- What they are for: the connections that are there, the earliest first. A connection may be added
if it is not in the list, and removed if it is. -/
def liveStep (live : List ι) : ConnectionOp ι → Option (List ι)
  | .add conn => if context conn ∉ live.map context then some (live ++ [conn]) else none
  | .remove conn => if conn ∈ live then some (live.erase conn) else none

namespace Connections

/-- The links, for what is known of doubly linked lists -/
def links (s : Connections ι κ) : Dll κ where
  prev := s.prev
  next := s.next

/-- From the head on the links form the list of the contexts of `live`, and each structure there has
its id. -/
structure Rep (context : ι → κ) (s : Connections ι κ) (live : List ι) : Prop where
  nodup : (live.map context).Nodup
  head : s.head = live.head?
  own : ∀ conn ∈ live, s.id (context conn) = conn
  linked : s.links.Linked none (live.map context) none

section Walks

omit [DecidableEq ι] [DecidableEq κ]
variable {context} {s : Connections ι κ} {p : Option κ} {fuel : Nat} {l : List ι}

theorem last_of_linked {a : κ} {l : List κ} (linked : s.links.Linked p (a :: l) none)
    (enough : l.length < fuel) : s.last fuel a = (a :: l).getLast? := by
  induction fuel generalizing a l p with
  | zero => exact absurd enough (Nat.not_lt_zero _)
  | succ fuel ih =>
    obtain ⟨-, after, rest⟩ := linked
    have next : s.next a = l.head? := after.trans (Option.or_none ..)
    rw [last, next]
    cases l with
    | nil => rfl
    | cons b l =>
      rw [List.getLast?_cons_cons]
      exact ih rest (Nat.lt_of_succ_lt_succ enough)

variable [DecidableEq ι]

theorem seek_of_linked {c conn : ι} (linked : s.links.Linked p ((c :: l).map context) none)
    (own : ∀ d ∈ c :: l, s.id (context d) = d) (mem : conn ∈ c :: l) (enough : l.length < fuel) :
    s.seek conn fuel (context c) = some (context conn) := by
  induction fuel generalizing c l p with
  | zero => exact absurd enough (Nat.not_lt_zero _)
  | succ fuel ih =>
    obtain ⟨-, after, rest⟩ := linked
    have next : s.next (context c) = (l.map context).head? := after.trans (Option.or_none ..)
    rw [seek, next, own c List.mem_cons_self]
    cases l with
    | nil =>
      rw [List.mem_singleton.mp mem]
      rfl
    | cons d l =>
      by_cases same : c = conn
      · simp [same]
      · have further : conn ∈ d :: l := (List.mem_cons.mp mem).resolve_left (Ne.symm same)
        simpa [same] using ih rest (fun e he => own e (List.mem_cons_of_mem _ he)) further
          (Nat.lt_of_succ_lt_succ enough)

variable {peers : Peers ι κ} {addr : UInt32} {peer : Int}

omit [DecidableEq ι] in
theorem lookupBehind_of_linked {c : ι} (linked : s.links.Linked p ((c :: l).map context) none)
    (own : ∀ d ∈ c :: l, s.id (context d) = d) (enough : l.length < fuel) :
    lookupBehind peers addr peer s fuel (context c)
      = some (l.find? fun d => peers.matches addr peer d (context d)) := by
  induction fuel generalizing c l p with
  | zero => exact absurd enough (Nat.not_lt_zero _)
  | succ fuel ih =>
    obtain ⟨-, after, rest⟩ := linked
    have next : s.next (context c) = (l.map context).head? := after.trans (Option.or_none ..)
    rw [lookupBehind, next]
    cases l with
    | nil => rfl
    | cons d l =>
      have known : s.id (context d) = d := own d (by simp)
      have further := ih rest (fun e he => own e (List.mem_cons_of_mem _ he))
        (Nat.lt_of_succ_lt_succ enough)
      simp only [List.map_cons, List.head?_cons, known]
      rw [further, List.find?_cons]
      cases peers.matches addr peer d (context d) <;> rfl

omit [DecidableEq ι] in
theorem Rep.lookup {live : List ι} (rep : Rep context s live) (enough : live.length ≤ fuel) :
    lookupRdmaConnection context peers fuel s addr peer
      = some (live.find? fun conn => peers.matches addr peer conn (context conn)) := by
  have head := rep.head
  cases live with
  | nil => simp [lookupRdmaConnection, head]
  | cons c l =>
    rw [List.head?_cons] at head
    simp only [lookupRdmaConnection, head]
    rw [lookupBehind_of_linked rep.linked rep.own enough, rep.own c List.mem_cons_self,
      List.find?_cons]
    cases peers.matches addr peer c (context c) <;> rfl

end Walks

section Changes

variable {context} {s : Connections ι κ} {live : List ι} {conn : ι} {fuel : Nat}

omit [DecidableEq ι] in
theorem Rep.setId (rep : Rep context s live) (new : context conn ∉ live.map context) :
    Rep context { s with id := update s.id (context conn) conn } live := by
  refine ⟨rep.nodup, rep.head, fun c mem => ?_, rep.linked⟩
  have other : context c ≠ context conn := fun same =>
    new (same ▸ List.mem_map_of_mem mem)
  simp only [update_of_ne other]
  exact rep.own c mem

omit [DecidableEq ι] in
theorem Rep.add (rep : Rep context s live) (new : context conn ∉ live.map context)
    (known : s.id (context conn) = conn) (enough : live.length ≤ fuel) :
    ∃ t, addRdmaConnection context fuel s conn = some t ∧ Rep context t (live ++ [conn]) := by
  have nodup : ((live ++ [conn]).map context).Nodup := by
    rw [List.map_append, List.map_singleton]
    exact rep.nodup.append (List.nodup_singleton _) (List.disjoint_singleton.mpr new)
  have own : ∀ c ∈ live ++ [conn], s.id (context c) = c := by
    intro c mem
    rcases List.mem_append.mp mem with mem | mem
    · exact rep.own c mem
    · rwa [List.mem_singleton.mp mem]
  have head := rep.head
  rcases List.eq_nil_or_concat live with rfl | ⟨front, z, rfl⟩
  · -- the list was empty
    rw [List.head?_nil] at head
    refine ⟨s.first conn (context conn), by simp [addRdmaConnection, head], nodup, rfl, own, ?_⟩
    exact ⟨update_self .., update_self .., trivial⟩
  · -- the last connection is followed by the new one
    rw [List.concat_eq_append] at *
    obtain ⟨h, rest, split⟩ : ∃ h rest, front ++ [z] = h :: rest :=
      List.exists_cons_of_ne_nil (by simp)
    have ending : s.last fuel (context h) = some (context z) := by
      have linked := rep.linked
      rw [split, List.map_cons] at linked
      rw [split, List.length_cons] at enough
      rw [last_of_linked linked (by rw [List.length_map]; exact enough), ← List.map_cons, ← split]
      simp
    have apart : ∀ a ∈ (front ++ [z]).map context, a ≠ context conn := fun a mem same =>
      new (same ▸ mem)
    have tail : context z ≠ context conn := apart _ (by simp)
    rw [split, List.head?_cons] at head
    refine ⟨s.append (context z) (context conn), by simp [addRdmaConnection, head, ending], nodup, ?_,
      own, ?_⟩
    · rwa [split]
    · have split : (front ++ [z] ++ [conn]).map context = (front ++ [z]).map context ++ [context conn] :=
        List.map_append ..
      rw [split, Dll.linked_append]
      refine ⟨rep.linked.redirect rep.nodup (fun a mem => ?_) (fun a last => ?_) fun a mem inner => ?_,
        ?_, ?_, trivial⟩
      · exact update_of_ne (apart a mem) ..
      · obtain rfl : context z = a := by simpa using last
        simp [links, append, update_of_ne tail]
      · have inside : a ≠ context z := fun same => inner (by simp [same])
        simp [links, append, update_of_ne (apart a mem), update_of_ne inside]
      · simp [links, append]
      · simp [links, append]

/-- The links as a list with both ends -/
def asDll (context : ι → κ) (s : Connections ι κ) (live : List ι) : Dll κ :=
  { s.links with head := (live.map context).head?, tail := (live.map context).getLast? }

omit [DecidableEq ι] [DecidableEq κ] in
theorem Rep.asDll (rep : Rep context s live) : (s.asDll context live).Rep (live.map context) :=
  ⟨rep.nodup, rfl, rfl, rep.linked.congr (fun _ _ => rfl) fun _ _ => rfl⟩

theorem Rep.erase (rep : Rep context s live) (mem : conn ∈ live) :
    (live.erase conn).map context = (live.map context).erase (context conn) := by
  obtain ⟨xs, ys, rfl⟩ := List.append_of_mem mem
  have nodup := rep.nodup
  rw [List.map_append, List.map_cons] at nodup ⊢
  have notX : context conn ∉ xs.map context := fun inside =>
    List.disjoint_of_nodup_append nodup inside List.mem_cons_self
  have notX' : conn ∉ xs := fun inside => notX (List.mem_map_of_mem inside)
  rw [List.erase_append_right _ notX', List.erase_append_right _ notX, List.erase_cons_head,
    List.erase_cons_head, List.map_append]

/-- It is enough that the neighbours of the removed connection are joined. -/
theorem Rep.unlink (rep : Rep context s live) (mem : conn ∈ live) {t : Connections ι κ}
    (id : t.id = s.id) (head : t.head = (live.erase conn).head?)
    (prev : ∀ a, a ≠ context conn →
      t.prev a = if s.next (context conn) = some a then s.prev (context conn) else s.prev a)
    (next : ∀ a, a ≠ context conn →
      t.next a = if s.prev (context conn) = some a then s.next (context conn) else s.next a) :
    Rep context t (live.erase conn) := by
  have mem' : context conn ∈ live.map context := List.mem_map_of_mem mem
  obtain ⟨before, after, -, -⟩ := rep.asDll.neighbours mem'
  obtain ⟨-, -, prev', next'⟩ := Dll.unlink_fields before after
  have taken := rep.asDll.unlink mem'
  rw [← rep.erase mem] at taken
  have other : ∀ a ∈ (live.erase conn).map context, a ≠ context conn := by
    rw [rep.erase mem]
    rintro a inside rfl
    exact (rep.nodup.mem_erase_iff.mp inside).1 rfl
  refine ⟨taken.nodup, head, fun c inside => ?_, taken.linked.congr (fun a inside => ?_)
    fun a inside => ?_⟩
  · rw [id]
    exact rep.own c (List.mem_of_mem_erase inside)
  · rw [prev' a (other a inside)]
    exact prev a (other a inside)
  · rw [next' a (other a inside)]
    exact next a (other a inside)

omit [DecidableEq ι] in
theorem join_fields {e : κ} (before : s.prev e ≠ some e) :
    (s.join e).head = s.head ∧ (s.join e).id = s.id ∧
    (∀ a, (s.join e).prev a = if s.next e = some a then s.prev e else s.prev a) ∧
    (∀ a, (s.join e).next a = if s.prev e = some a then s.next e else s.next a) := by
  unfold join
  cases hp : s.prev e with
  | none =>
    cases hn : s.next e with
    | none => simp [hn]
    | some n => simp [hn, hp, update_apply, eq_comm]
  | some p =>
    have other : e ≠ p := fun same => before (by rw [hp, same])
    have kept : update s.next p (s.next e) e = s.next e := update_of_ne other ..
    cases hn : s.next e with
    | none =>
      rw [hn] at kept
      simp [kept, update_apply, eq_comm]
    | some n =>
      rw [hn] at kept
      simp [kept, hp, update_apply, eq_comm]

theorem Rep.remove (rep : Rep context s live) (mem : conn ∈ live) (enough : live.length ≤ fuel) :
    ∃ t, removeRdmaConnection context fuel s conn = some t ∧ Rep context t (live.erase conn) := by
  obtain ⟨before, after, -, -⟩ := rep.asDll.neighbours (List.mem_map_of_mem mem)
  have head := rep.head
  cases live with
  | nil => cases mem
  | cons h l =>
    obtain ⟨front, behind, -⟩ := rep.linked
    rw [List.head?_cons] at head
    have own := rep.own h List.mem_cons_self
    by_cases same : h = conn
    · -- the head is removed
      subst same
      have front' : s.prev (context h) = none := front
      have behind' : s.next (context h) = (l.map context).head? := behind.trans (Option.or_none ..)
      cases l with
      | nil =>
        refine ⟨{ s with head := none }, ?_, rep.unlink mem rfl ?_ ?_ ?_⟩
        · simp [removeRdmaConnection, head, own, behind']
        · simp
        · intro a _
          simp [behind']
        · intro a _
          simp [front']
      | cons b l =>
        have own' : s.id (context b) = b := rep.own b (by simp)
        refine ⟨{ s with head := some b, prev := update s.prev (context b) none }, ?_,
          rep.unlink mem rfl ?_ ?_ ?_⟩
        · simp [removeRdmaConnection, head, own, behind', own']
        · simp
        · intro a _
          simp [behind', front', update_apply, eq_comm]
        · intro a _
          simp [front']
    · -- the walk stops at the connection
      have found : s.seek conn fuel (context h) = some (context conn) :=
        seek_of_linked rep.linked rep.own mem enough
      have own' := rep.own conn mem
      obtain ⟨head', id', prev', next'⟩ := join_fields before
      refine ⟨s.join (context conn), ?_, rep.unlink mem id' ?_ (fun a _ => prev' a) fun a _ => next' a⟩
      · simp [removeRdmaConnection, head, own, same, found, own']
      · rw [head', head, List.erase_cons_tail (by simpa using same), List.head?_cons]

/-- The linked list follows every allowed change of the live connections. -/
theorem Rep.step {op : ConnectionOp ι} {live' : List ι} (rep : Rep context s live)
    (allowed : liveStep context live op = some live') (enough : live.length ≤ fuel) :
    ∃ t, s.step context fuel op = some t ∧ Rep context t live' := by
  cases op with
  | add conn =>
    simp only [liveStep, Option.ite_none_right_eq_some, Option.some.injEq] at allowed
    obtain ⟨new, rfl⟩ := allowed
    exact (rep.setId new).add new (update_self ..) enough
  | remove conn =>
    simp only [liveStep, Option.ite_none_right_eq_some, Option.some.injEq] at allowed
    obtain ⟨mem, rfl⟩ := allowed
    exact rep.remove mem enough

variable {live' : List ι}

theorem length_liveStep {op : ConnectionOp ι} (allowed : liveStep context live op = some live') :
    live'.length ≤ live.length + 1 := by
  cases op with
  | add conn =>
    simp only [liveStep, Option.ite_none_right_eq_some, Option.some.injEq] at allowed
    obtain ⟨-, rfl⟩ := allowed
    simp
  | remove conn =>
    simp only [liveStep, Option.ite_none_right_eq_some, Option.some.injEq] at allowed
    obtain ⟨-, rfl⟩ := allowed
    exact Nat.le_succ_of_le (List.length_erase_le ..)

theorem Rep.run {ops : List (ConnectionOp ι)} (rep : Rep context s live)
    (allowed : Run.exec (liveStep context) live ops = some live')
    (enough : live.length + ops.length ≤ fuel) : live'.length ≤ fuel ∧
      ∃ t, Run.exec (Connections.step context fuel) s ops = some t ∧ Rep context t live' := by
  induction ops generalizing s live with
  | nil =>
    cases allowed
    exact ⟨enough, s, rfl, rep⟩
  | cons op ops ih =>
    obtain ⟨between, here, later⟩ := Option.bind_eq_some_iff.mp allowed
    have few : live.length ≤ fuel := by omega
    obtain ⟨u, called, after⟩ := rep.step here few
    have grown := length_liveStep here
    obtain ⟨short, t, reached, done⟩ := ih after later (by simp at enough; omega)
    exact ⟨short, t, by rw [Run.exec_cons, called]; exact reached, done⟩

end Changes

/-- No connection, in memory that may hold anything -/
def empty (id : κ → ι) (prev next : κ → Option κ) : Connections ι κ := ⟨none, id, prev, next⟩

omit [DecidableEq ι] [DecidableEq κ] in
theorem rep_empty (context : ι → κ) (id : κ → ι) (prev next : κ → Option κ) :
    Rep context (empty id prev next) [] :=
  ⟨List.nodup_nil, rfl, fun _ mem => absurd mem List.not_mem_nil, trivial⟩

/-- After any allowed operations the links form the list of the connections that are there, and a
lookup finds the earliest that has the address and the identifier. -/
theorem list_represents_connections (context : ι → κ) (id : κ → ι) (prev next : κ → Option κ)
    (ops : List (ConnectionOp ι)) (live : List ι)
    (allowed : Run.exec (liveStep context) [] ops = some live) (fuel : Nat)
    (enough : ops.length ≤ fuel) :
    ∃ s, Run.exec (step context fuel) (empty id prev next) ops = some s ∧ Rep context s live ∧
      ∀ (peers : Peers ι κ) (addr : UInt32) (peer : Int),
        lookupRdmaConnection context peers fuel s addr peer
          = some (live.find? fun conn => peers.matches addr peer conn (context conn)) := by
  have bound : ([] : List ι).length + ops.length ≤ fuel := by simpa using enough
  obtain ⟨short, s, reached, rep⟩ := (rep_empty context id prev next).run allowed bound
  exact ⟨s, reached, rep, fun peers addr peer => rep.lookup short⟩

/-- Three connections with two of the same peer, of which the first is removed -/
theorem list_represents_three_connections :
    let ops : List (ConnectionOp (Fin 4)) := [.add 2, .add 1, .add 3, .remove 2]
    Run.exec (liveStep fun c : Fin 4 => c) [] ops = some [1, 3] ∧
      ∃ s, Run.exec (step (fun c => c) 4) (empty (fun _ => 0) (fun _ => some 0) fun _ => some 0) ops
          = some s ∧ Rep (fun c => c) s [1, 3] ∧
        ∀ (peers : Peers (Fin 4) (Fin 4)) (addr : UInt32) (peer : Int),
          lookupRdmaConnection (fun c => c) peers 4 s addr peer
            = some ([1, 3].find? fun conn => peers.matches addr peer conn conn) :=
  ⟨by decide +kernel, list_represents_connections _ _ _ _ _ _ (by decide +kernel) 4 (by decide)⟩

end Connections

end MemExchange.Rdma
