import MemExchange.Lib.Dll

/-!
# Doubly linked lists that share their links

Many lists over elements that carry one pair of links. Putting an element into a list or taking it
out of one writes the links of its neighbours, which are in the same list, so the other lists do not
notice.
-/

structure Dlls (κ ι : Type) where
  heads : κ → Option ι := fun _ => none
  tails : κ → Option ι := fun _ => none
  prev : ι → Option ι := fun _ => none
  next : ι → Option ι := fun _ => none

namespace Dlls

open Function (update_of_ne update_self update)

variable {κ ι : Type} [DecidableEq κ] [DecidableEq ι]

def list (L : Dlls κ ι) (k : κ) : Dll ι := ⟨L.heads k, L.tails k, L.prev, L.next⟩

def put (L : Dlls κ ι) (k : κ) (d : Dll ι) : Dlls κ ι where
  heads := update L.heads k d.head
  tails := update L.tails k d.tail
  prev := d.prev
  next := d.next

def link (L : Dlls κ ι) (k : κ) (e : ι) : Dlls κ ι := L.put k ((L.list k).cons e)

def unlink (L : Dlls κ ι) (k : κ) (e : ι) : Dlls κ ι := L.put k ((L.list k).bridge e)

/-- The links form the lists `f`, and no element is in two of them. -/
structure Rep (L : Dlls κ ι) (f : κ → List ι) : Prop where
  list : ∀ k, (L.list k).Rep (f k)
  apart : ∀ {e i j}, e ∈ f i → e ∈ f j → i = j

variable {L L' : Dlls κ ι} {f : κ → List ι} {k : κ} {e : ι}

omit [DecidableEq κ] [DecidableEq ι] in
theorem rep_empty : ({} : Dlls κ ι).Rep fun _ => [] :=
  ⟨fun _ => Dll.rep_empty, fun inside => (by cases inside)⟩

omit [DecidableEq κ] [DecidableEq ι] in
theorem Rep.congr (rep : L.Rep f) (heads : L'.heads = L.heads) (tails : L'.tails = L.tails)
    (same : ∀ k, ∀ a ∈ f k, L'.prev a = L.prev a ∧ L'.next a = L.next a) : L'.Rep f :=
  ⟨fun k => (rep.list k).congr (congrFun heads k) (congrFun tails k) (fun a inside => (same k a inside).1)
    fun a inside => (same k a inside).2, rep.apart⟩

omit [DecidableEq ι] in
theorem Rep.put (rep : L.Rep f) {d : Dll ι} {l : List ι} (new : d.Rep l)
    (same : ∀ i, i ≠ k → ∀ a ∈ f i, a ∉ l ∧ d.prev a = L.prev a ∧ d.next a = L.next a) :
    (L.put k d).Rep (update f k l) := by
  refine ⟨fun i => ?_, fun {a i j} inI inJ => ?_⟩
  · by_cases equal : i = k
    · subst equal
      rw [update_self]
      exact new.congr (update_self ..) (update_self ..) (fun _ _ => rfl) fun _ _ => rfl
    · rw [update_of_ne equal]
      exact (rep.list i).congr (update_of_ne equal ..) (update_of_ne equal ..)
        (fun a inside => (same i equal a inside).2.1) fun a inside => (same i equal a inside).2.2
  · by_cases first : i = k <;> by_cases second : j = k
    · rw [first, second]
    · rw [first, update_self] at inI
      rw [update_of_ne second] at inJ
      exact absurd inI (same j second a inJ).1
    · rw [second, update_self] at inJ
      rw [update_of_ne first] at inI
      exact absurd inJ (same i first a inI).1
    · rw [update_of_ne first] at inI
      rw [update_of_ne second] at inJ
      exact rep.apart inI inJ

theorem Rep.link (rep : L.Rep f) (new : ∀ i, e ∉ f i) (k : κ) :
    (L.link k e).Rep (update f k (e :: f k)) := by
  have pushed : ((L.list k).cons e).Rep (e :: f k) := by
    rw [(rep.list k).cons_eq_push (new k)]
    exact (rep.list k).push (new k)
  refine rep.put pushed fun i other a inside => ?_
  have notE : a ≠ e := by
    rintro rfl
    exact new i inside
  have elsewhere : a ∉ f k := fun inK => other (rep.apart inside inK)
  refine ⟨by simp [notE, elsewhere], Dll.cons_links notE fun front => elsewhere ?_⟩
  rw [(rep.list k).head] at front
  exact List.mem_of_head? front

theorem Rep.unlink (rep : L.Rep f) (member : e ∈ f k) :
    (L.unlink k e).Rep (update f k ((f k).erase e)) := by
  refine rep.put ((rep.list k).bridge member) fun i other a inside => ?_
  have elsewhere : a ∉ f k := fun inK => other (rep.apart inside inK)
  obtain ⟨-, after, previous, following⟩ := (rep.list k).neighbours member
  obtain ⟨-, -, prev, next⟩ := Dll.bridge_fields after
  refine ⟨fun inK => elsewhere (List.mem_of_mem_erase inK), ?_, ?_⟩
  · rw [prev, if_neg fun isNext => elsewhere (following a isNext)]
    rfl
  · rw [next, if_neg fun isPrev => elsewhere (previous a isPrev)]
    rfl

end Dlls
