import Mathlib

/-!
# Doubly linked lists

A head, a tail and two maps of links. `push` and `unlink` write the links in the order an
implementation does, so they also say what happens to links that form no list.
-/

structure Dll (ι : Type) where
  head : Option ι := none
  tail : Option ι := none
  prev : ι → Option ι := fun _ => none
  next : ι → Option ι := fun _ => none

namespace Dll

variable {ι : Type} [DecidableEq ι]

/-- Write the next link of an element, if there is one. -/
def setNext (d : Dll ι) (a b : Option ι) : Dll ι :=
  match a with
  | some a => { d with next := Function.update d.next a b }
  | none => d

/-- Write the previous link of an element, if there is one. -/
def setPrev (d : Dll ι) (a b : Option ι) : Dll ι :=
  match a with
  | some a => { d with prev := Function.update d.prev a b }
  | none => d

def push (d : Dll ι) (e : ι) : Dll ι :=
  let old := d.head
  let d := (d.setPrev (some e) none).setNext (some e) old
  match old with
  | some h => { d.setPrev (some h) (some e) with head := some e }
  | none => { d with tail := some e, head := some e }

/-- Take an element out: bridge it in both directions, move the ends off it, clear its
links. -/
def unlink (d : Dll ι) (e : ι) : Dll ι :=
  let d := d.setNext (d.prev e) (d.next e)
  let d := d.setPrev (d.next e) (d.prev e)
  let d := { d with head := if d.head = some e then d.next e else d.head }
  let d := { d with tail := if d.tail = some e then d.prev e else d.tail }
  (d.setPrev (some e) none).setNext (some e) none

/-- Put an element in front, the way an implementation does that asks the tail whether the list is
empty. -/
def cons (d : Dll ι) (e : ι) : Dll ι :=
  let d := (d.setPrev (some e) none).setNext (some e) d.head
  let d := d.setPrev (d.next e) (some e)
  { d with head := some e, tail := if d.tail = none then some e else d.tail }

/-- Take an element out but leave it its links: move the ends off it, bridge it in both
directions. -/
def bridge (d : Dll ι) (e : ι) : Dll ι :=
  let d := { d with head := if d.head = some e then d.next e else d.head }
  let d := { d with tail := if d.tail = some e then d.prev e else d.tail }
  let d := d.setPrev (d.next e) (d.prev e)
  d.setNext (d.prev e) (d.next e)

section Fields

variable (d : Dll ι) (a b : Option ι) (x : ι)

@[simp] theorem setNext_head : (d.setNext a b).head = d.head := by cases a <;> rfl

@[simp] theorem setNext_tail : (d.setNext a b).tail = d.tail := by cases a <;> rfl

@[simp] theorem setNext_prev : (d.setNext a b).prev = d.prev := by cases a <;> rfl

@[simp] theorem setPrev_head : (d.setPrev a b).head = d.head := by cases a <;> rfl

@[simp] theorem setPrev_tail : (d.setPrev a b).tail = d.tail := by cases a <;> rfl

@[simp] theorem setPrev_next : (d.setPrev a b).next = d.next := by cases a <;> rfl

theorem setNext_next : (d.setNext a b).next x = if a = some x then b else d.next x := by
  cases a with
  | none => simp [setNext]
  | some a => simp [setNext, Function.update_apply, eq_comm]

theorem setPrev_prev : (d.setPrev a b).prev x = if a = some x then b else d.prev x := by
  cases a with
  | none => simp [setPrev]
  | some a => simp [setPrev, Function.update_apply, eq_comm]

end Fields

omit [DecidableEq ι] in
/-- Follow the links from an element, at most `count` times. -/
def walk (d : Dll ι) : Nat → Option ι → List ι
  | 0, _ => []
  | _ + 1, none => []
  | count + 1, some a => a :: walk d count (d.next a)

/-- The first `count` elements. -/
def toList (d : Dll ι) (count : Nat) : List ι := d.walk count d.head

/-- The links run through `l`, from `p` before it to `n` after it. -/
def Linked (d : Dll ι) : Option ι → List ι → Option ι → Prop
  | _, [], _ => True
  | p, a :: l, n => d.prev a = p ∧ d.next a = l.head?.or n ∧ d.Linked (some a) l n

/-- The links form the list `l`. -/
structure Rep (d : Dll ι) (l : List ι) : Prop where
  nodup : l.Nodup
  head : d.head = l.head?
  tail : d.tail = l.getLast?
  linked : d.Linked none l none

instance decidableLinked (d : Dll ι) : ∀ p l n, Decidable (d.Linked p l n)
  | _, [], _ => isTrue trivial
  | p, a :: l, n =>
    have := decidableLinked d (some a) l n
    inferInstanceAs (Decidable (d.prev a = p ∧ d.next a = l.head?.or n ∧ d.Linked (some a) l n))

instance (d : Dll ι) (l : List ι) : Decidable (d.Rep l) :=
  decidable_of_iff (l.Nodup ∧ d.head = l.head? ∧ d.tail = l.getLast? ∧ d.Linked none l none)
    ⟨fun ⟨nodup, head, tail, linked⟩ => ⟨nodup, head, tail, linked⟩,
      fun ⟨nodup, head, tail, linked⟩ => ⟨nodup, head, tail, linked⟩⟩

section Linked

omit [DecidableEq ι]
variable {d d' : Dll ι} {p n : Option ι} {l xs ys : List ι}

theorem linked_append : d.Linked p (xs ++ ys) n ↔
    d.Linked p xs (ys.head?.or n) ∧ d.Linked (xs.getLast?.or p) ys n := by
  induction xs generalizing p with
  | nil => simp [Linked]
  | cons a xs ih =>
    have last : ((a :: xs).getLast?.or p) = xs.getLast?.or (some a) := by
      rw [List.getLast?_cons]
      cases xs.getLast? <;> rfl
    have first : (xs ++ ys).head?.or n = xs.head?.or (ys.head?.or n) := by
      rw [List.head?_append, Option.or_assoc]
    simp only [List.cons_append, Linked, ih, last, first, and_assoc]

theorem Linked.congr (linked : d.Linked p l n) (same : ∀ a ∈ l, d'.prev a = d.prev a)
    (same' : ∀ a ∈ l, d'.next a = d.next a) : d'.Linked p l n := by
  induction l generalizing p with
  | nil => trivial
  | cons a l ih =>
    obtain ⟨before, after, rest⟩ := linked
    refine ⟨(same a (by simp)).trans before, (same' a (by simp)).trans after, ih rest ?_ ?_⟩
    · exact fun b member => same b (by simp [member])
    · exact fun b member => same' b (by simp [member])

theorem Rep.congr (rep : d.Rep l) (head : d'.head = d.head) (tail : d'.tail = d.tail)
    (same : ∀ a ∈ l, d'.prev a = d.prev a) (same' : ∀ a ∈ l, d'.next a = d.next a) : d'.Rep l :=
  ⟨rep.nodup, head.trans rep.head, tail.trans rep.tail, rep.linked.congr same same'⟩

theorem walk_of_linked (linked : d.Linked p l none) : d.walk l.length l.head? = l := by
  induction l generalizing p with
  | nil => rfl
  | cons a l ih =>
    obtain ⟨-, after, rest⟩ := linked
    rw [List.length_cons, List.head?_cons, walk, after, Option.or_none, ih rest]

theorem Rep.toList (rep : d.Rep l) : d.toList l.length = l := by
  rw [Dll.toList, rep.head, walk_of_linked rep.linked]

theorem walk_subset (linked : d.Linked p l none) (count : Nat) : d.walk count l.head? ⊆ l := by
  induction l generalizing p count with
  | nil => cases count <;> exact List.nil_subset _
  | cons a l ih =>
    obtain ⟨-, after, rest⟩ := linked
    cases count with
    | zero => exact List.nil_subset _
    | succ count =>
      rw [List.head?_cons, walk, after, Option.or_none]
      exact List.cons_subset_cons a (ih rest count)

theorem Rep.toList_subset (rep : d.Rep l) (count : Nat) : d.toList count ⊆ l := by
  rw [Dll.toList, rep.head]
  exact walk_subset rep.linked count

theorem rep_empty : ({} : Dll ι).Rep [] := ⟨List.nodup_nil, rfl, rfl, trivial⟩

end Linked

variable {d : Dll ι} {e : ι} {l : List ι}

/-! ### Pushing -/

theorem Rep.push (rep : d.Rep l) (new : e ∉ l) : (d.push e).Rep (e :: l) := by
  obtain ⟨nodup, head, tail, linked⟩ := rep
  cases l with
  | nil =>
    have empty : d.head = none := head
    simp only [Dll.push, empty]
    exact ⟨by simp, rfl, rfl, by simp [setPrev_prev], by simp [setNext_next], trivial⟩
  | cons h l =>
    have front : d.head = some h := head
    obtain ⟨-, after, rest⟩ := linked
    simp only [List.mem_cons, not_or] at new
    obtain ⟨other, elsewhere⟩ := new
    obtain ⟨once, -⟩ := List.nodup_cons.mp nodup
    simp only [Dll.push, front]
    refine ⟨by simp [nodup, other, elsewhere], rfl, ?_, ?_, ?_, ?_, ?_, ?_⟩
    · simpa [List.getLast?_cons_cons] using tail
    · simp [setPrev_prev, Ne.symm other]
    · simp [setNext_next]
    · simp [setPrev_prev]
    · simpa [setNext_next, other] using after
    · -- the links behind the old head are not written
      refine rest.congr (fun a member => ?_) fun a member => ?_
      · have notE : e ≠ a := fun same => elsewhere (same ▸ member)
        have notH : h ≠ a := fun same => once (same ▸ member)
        simp [setPrev_prev, notE, notH]
      · have notE : e ≠ a := fun same => elsewhere (same ▸ member)
        simp [setNext_next, notE]

theorem Rep.cons_eq_push (rep : d.Rep l) (new : e ∉ l) : d.cons e = d.push e := by
  obtain ⟨-, head, tail, -⟩ := rep
  cases l with
  | nil =>
    have front : d.head = none := head
    have back : d.tail = none := tail
    simp [cons, Dll.push, front, back, setNext, setPrev]
  | cons h l =>
    have front : d.head = some h := head
    have back : d.tail ≠ none := by rw [tail]; simp
    simp [cons, Dll.push, front, back, setNext, setPrev]

theorem cons_links {a : ι} (other : a ≠ e) (behind : d.head ≠ some a) :
    (d.cons e).prev a = d.prev a ∧ (d.cons e).next a = d.next a := by
  simp [cons, setPrev_prev, setNext_next, Ne.symm other, behind]

theorem Rep.pushAll (rep : d.Rep l) {es : List ι} (nodup : es.Nodup) (new : ∀ e ∈ es, e ∉ l) :
    (es.foldl Dll.push d).Rep (es.reverse ++ l) := by
  induction es generalizing d l with
  | nil => exact rep
  | cons e es ih =>
    obtain ⟨once, nodup⟩ := List.nodup_cons.mp nodup
    have next := ih (rep.push (new e List.mem_cons_self)) nodup fun a member inside => by
      rcases List.mem_cons.mp inside with rfl | old
      · exact once member
      · exact new a (List.mem_cons_of_mem _ member) old
    rwa [List.foldl_cons, List.reverse_cons, List.append_assoc, List.singleton_append]

/-! ### Unlinking -/

section Unlink

variable {p n n' : Option ι} {xs ys : List ι}

theorem unlink_fields (before : d.prev e ≠ some e) (after : d.next e ≠ some e) :
    (d.unlink e).head = (if d.head = some e then d.next e else d.head) ∧
    (d.unlink e).tail = (if d.tail = some e then d.prev e else d.tail) ∧
    (∀ a, a ≠ e → (d.unlink e).prev a = if d.next e = some a then d.prev e else d.prev a) ∧
    (∀ a, a ≠ e → (d.unlink e).next a = if d.prev e = some a then d.next e else d.next a) := by
  have kept : (d.setNext (d.prev e) (d.next e)).next e = d.next e := by
    rw [setNext_next, if_neg before]
  refine ⟨?_, ?_, fun a other => ?_, fun a other => ?_⟩
  · simp [unlink, kept]
  · simp [unlink, kept, setPrev_prev, after]
  · simp [unlink, kept, setPrev_prev, Ne.symm other]
  · simp [unlink, setNext_next, Ne.symm other]

omit [DecidableEq ι] in
theorem Linked.redirect {d' : Dll ι} (linked : d.Linked p xs n) (nodup : xs.Nodup)
    (same : ∀ a ∈ xs, d'.prev a = d.prev a)
    (last : ∀ a, xs.getLast? = some a → d'.next a = n')
    (rest : ∀ a ∈ xs, xs.getLast? ≠ some a → d'.next a = d.next a) : d'.Linked p xs n' := by
  rcases List.eq_nil_or_concat xs with rfl | ⟨zs, z, rfl⟩
  · trivial
  · rw [List.concat_eq_append] at *
    obtain ⟨front, before, -, -⟩ := linked_append.mp linked
    have once : z ∉ zs := fun member => by
      have := List.disjoint_of_nodup_append nodup member
      simp at this
    refine linked_append.mpr ⟨front.congr (fun a member => same a (by simp [member]))
      fun a member => rest a (by simp [member]) ?_, ?_, ?_, trivial⟩
    · have other : z ≠ a := fun eq => once (eq ▸ member)
      simpa using other
    · exact (same z (by simp)).trans before
    · simpa using last z (by simp)

omit [DecidableEq ι] in
theorem Linked.restart {d' : Dll ι} {p' : Option ι} (linked : d.Linked p ys n)
    (nodup : ys.Nodup) (same : ∀ a ∈ ys, d'.next a = d.next a)
    (first : ∀ a, ys.head? = some a → d'.prev a = p')
    (rest : ∀ a ∈ ys, ys.head? ≠ some a → d'.prev a = d.prev a) : d'.Linked p' ys n := by
  cases ys with
  | nil => trivial
  | cons y ys =>
    obtain ⟨-, after, behind⟩ := linked
    obtain ⟨once, -⟩ := List.nodup_cons.mp nodup
    refine ⟨first y rfl, (same y (by simp)).trans after, behind.congr (fun a member => ?_)
      fun a member => same a (by simp [member])⟩
    have other : y ≠ a := fun eq => once (eq ▸ member)
    exact rest a (by simp [member]) (by simpa using other)

theorem Rep.unlink (rep : d.Rep l) (member : e ∈ l) : (d.unlink e).Rep (l.erase e) := by
  obtain ⟨xs, ys, rfl⟩ := List.append_of_mem member
  obtain ⟨nodup, head, tail, linked⟩ := rep
  obtain ⟨front, before, after, back⟩ := linked_append.mp linked
  rw [Option.or_none] at before after
  obtain ⟨nodupX, nodupY, apart⟩ := List.nodup_append.mp nodup
  obtain ⟨notY, nodupY⟩ := List.nodup_cons.mp nodupY
  have notX : e ∉ xs := fun inside => apart e inside e (by simp) rfl
  have beforeNe : d.prev e ≠ some e := by
    rw [before]
    exact fun last => notX (List.mem_of_getLast? last)
  have afterNe : d.next e ≠ some e := by
    rw [after]
    exact fun first => notY (List.mem_of_head? first)
  obtain ⟨newHead, newTail, newPrev, newNext⟩ := unlink_fields beforeNe afterNe
  rw [List.erase_append_right _ notX, List.erase_cons_head]
  refine ⟨?_, ?_, ?_, ?_⟩
  · exact List.nodup_append.mpr
      ⟨nodupX, nodupY, fun a inX b inY => apart a inX b (by simp [inY])⟩
  · rw [newHead, head, after]
    cases xs with
    | nil => simp
    | cons x xs =>
      have other : x ≠ e := fun same => notX (by simp [same])
      simp [other]
  · rw [newTail, tail, before]
    rcases List.eq_nil_or_concat ys with rfl | ⟨zs, z, rfl⟩
    · simp
    · have other : z ≠ e := fun same => notY (by simp [same])
      simp [List.getLast?_append, List.getLast?_cons, other]
  · -- the two stretches around the element are redirected to each other
    refine linked_append.mpr ⟨?_, ?_⟩
    · refine front.redirect nodupX (fun a inX => ?_) (fun a last => ?_) fun a inX inner => ?_
      · have other : a ≠ e := fun same => notX (same ▸ inX)
        have elsewhere : d.next e ≠ some a := fun first =>
          apart a inX a (by simp [List.mem_of_head? (after.symm.trans first)]) rfl
        rw [newPrev a other, if_neg elsewhere]
      · have other : a ≠ e := fun same => notX (same ▸ List.mem_of_getLast? last)
        rw [newNext a other, if_pos (before.trans last), after, Option.or_none]
      · have other : a ≠ e := fun same => notX (same ▸ inX)
        rw [newNext a other, if_neg (before ▸ inner)]
    · refine back.restart nodupY (fun a inY => ?_) (fun a first => ?_) fun a inY inner => ?_
      · have other : a ≠ e := fun same => notY (same ▸ inY)
        have elsewhere : d.prev e ≠ some a := fun last =>
          apart a (List.mem_of_getLast? (before.symm.trans last)) a (by simp [inY]) rfl
        rw [newNext a other, if_neg elsewhere]
      · have other : a ≠ e := fun same => notY (same ▸ List.mem_of_head? first)
        rw [newPrev a other, if_pos (after.trans first), before, Option.or_none]
      · have other : a ≠ e := fun same => notY (same ▸ inY)
        rw [newPrev a other, if_neg (after ▸ inner)]

theorem bridge_fields (after : d.next e ≠ some e) :
    (d.bridge e).head = (if d.head = some e then d.next e else d.head) ∧
    (d.bridge e).tail = (if d.tail = some e then d.prev e else d.tail) ∧
    (∀ a, (d.bridge e).prev a = if d.next e = some a then d.prev e else d.prev a) ∧
    (∀ a, (d.bridge e).next a = if d.prev e = some a then d.next e else d.next a) := by
  refine ⟨?_, ?_, fun a => ?_, fun a => ?_⟩
  · simp [bridge]
  · simp [bridge]
  · simp [bridge, setPrev_prev]
  · simp [bridge, setNext_next, setPrev_prev, after]

omit [DecidableEq ι] in
theorem Rep.neighbours (rep : d.Rep l) (member : e ∈ l) :
    d.prev e ≠ some e ∧ d.next e ≠ some e ∧ (∀ a, d.prev e = some a → a ∈ l) ∧
      ∀ a, d.next e = some a → a ∈ l := by
  obtain ⟨xs, ys, rfl⟩ := List.append_of_mem member
  obtain ⟨nodup, -, -, linked⟩ := rep
  obtain ⟨-, before, after, -⟩ := linked_append.mp linked
  rw [Option.or_none] at before after
  obtain ⟨-, nodupY, apart⟩ := List.nodup_append.mp nodup
  obtain ⟨notY, -⟩ := List.nodup_cons.mp nodupY
  rw [before, after]
  refine ⟨fun last => apart e (List.mem_of_getLast? last) e (by simp) rfl,
    fun first => notY (List.mem_of_head? first), fun a last => ?_, fun a first => ?_⟩
  · simp [List.mem_of_getLast? last]
  · simp [List.mem_of_head? first]

theorem Rep.bridge (rep : d.Rep l) (member : e ∈ l) : (d.bridge e).Rep (l.erase e) := by
  obtain ⟨before, after, -, -⟩ := rep.neighbours member
  obtain ⟨head, tail, prev, next⟩ := bridge_fields after
  obtain ⟨head', tail', prev', next'⟩ := unlink_fields before after
  -- the two ways to take an element out differ in the links of the element only
  have notE : ∀ a ∈ l.erase e, a ≠ e := by
    rintro a inside rfl
    exact (rep.nodup.mem_erase_iff.mp inside).1 rfl
  refine (rep.unlink member).congr (head.trans head'.symm) (tail.trans tail'.symm)
    (fun a inside => ?_) fun a inside => ?_
  · rw [prev, prev' a (notE a inside)]
  · rw [next, next' a (notE a inside)]

end Unlink

end Dll
