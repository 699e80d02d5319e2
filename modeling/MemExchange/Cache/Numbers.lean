import MemExchange.Lib.Decimal
import MemExchange.Lib.Run

/-!
# Numbers in commands and values

`safe_strtoull` leaves the reading to `strtoull`, which takes a minus sign and negates modulo
`2 ^ 64`. Negative numbers are told by the highest bit of the result, and only then a minus sign is
looked for, in the whole string: what is left of a number below `-2 ^ 63` passes, and a large
number is refused for the minus sign of what follows.
-/
namespace MemExchange.Cache

open Decimal

/-! ### Reading -/

def isspace (c : Char) : Bool := c = ' ' || (9 ≤ c.toNat && c.toNat ≤ 13)

/-- What `strtoull` takes for a number: whether there is a minus sign, the number behind it, and
the rest of the string. -/
def scan (s : Text) : Option (Bool × Nat × Text) :=
  let (negative, t) := readSign (s.dropWhile isspace)
  let (ds, rest) := t.span Char.isDigit
  if ds = [] then none else some (negative, value ds, rest)

def Ends (rest : Text) : Prop := rest.head?.all isspace = true

instance : DecidablePred Ends := fun _ => by delta Ends; infer_instance

/-- What `strtoull` returns for a number that fits. -/
def wrapped (negative : Bool) (n : Nat) : Nat := if negative then (2 ^ 64 - n) % 2 ^ 64 else n

/-- `safe_strtoull`. A number that is too large is `ERANGE`. -/
def safeStrtoull (s : Text) : Option Nat :=
  match scan s with
  | none => none
  | some (negative, n, rest) =>
    if n < 2 ^ 64 ∧ Ends rest then
      if 2 ^ 63 ≤ wrapped negative n ∧ '-' ∈ s then none else some (wrapped negative n)
    else none

/-- The string is white space, a sign, digits that denote `n`, and then ends or goes on with white
space. A plus sign may be missing. -/
def Denotes (negative : Bool) (s : Text) (n : Nat) : Prop :=
  ∃ blank sign ds rest, s = blank ++ (sign ++ (ds ++ rest)) ∧ (∀ c ∈ blank, isspace c = true) ∧
    (if negative then sign = ['-'] else sign = [] ∨ sign = ['+']) ∧
    AllDigits ds ∧ ds ≠ [] ∧ value ds = n ∧ Ends rest

/-- The strings that are accepted are those that denote a number, and it is returned. -/
def ParsesRight (s : Text) : Prop :=
  ∀ n, safeStrtoull s = some n ↔ Denotes false s n ∧ n < 2 ^ 64

/-- The string does not denote a number below `-2 ^ 63` whose negation fits, and if it denotes a
number with the highest bit set there is no minus sign in it. -/
def SignTells (s : Text) : Prop :=
  (∀ n, Denotes true s n → n ≤ 2 ^ 63 ∨ 2 ^ 64 ≤ n) ∧
    ∀ n, Denotes false s n → 2 ^ 63 ≤ n → n < 2 ^ 64 → '-' ∉ s

theorem not_isspace {c : Char} (sign : c = '-' ∨ c = '+' ∨ c.isDigit = true) :
    isspace c = false := by
  rcases sign with rfl | rfl | digit
  · rfl
  · rfl
  · obtain ⟨d, small, rfl⟩ := exists_of_isDigit digit
    clear digit
    decide +revert

theorem Ends.stops {rest : Text} (ends : Ends rest) : Stops rest := by
  intro c head
  by_contra digit
  rw [Bool.not_eq_false] at digit
  simp [Ends, Option.mem_def.mp head, Option.all_some, not_isspace (.inr (.inr digit))] at ends

variable {negative : Bool} {s : Text} {n : Nat}

theorem scan_of_denotes (denotes : Denotes negative s n) :
    ∃ rest, scan s = some (negative, n, rest) ∧ Ends rest := by
  obtain ⟨blank, sign, ds, rest, rfl, spaces, signed, digits, some_, rfl, ends⟩ := denotes
  refine ⟨rest, ?_, ends⟩
  obtain ⟨c, ds, rfl⟩ := List.exists_cons_of_ne_nil some_
  have digit := digits c List.mem_cons_self
  have read : readSign ((sign ++ (c :: ds ++ rest)).dropWhile isspace) =
      (negative, c :: ds ++ rest) := by
    cases negative with
    | true =>
      subst signed
      rfl
    | false =>
      rcases signed with rfl | rfl
      · rw [List.nil_append, List.cons_append, List.dropWhile_cons,
          if_neg (by simp [not_isspace (.inr (.inr digit))]), readSign_digit digit]
      · rfl
  rw [scan, List.dropWhile_append_of_pos spaces, read]
  dsimp only
  rw [span_digits digits ends.stops]
  exact if_neg some_

theorem denotes_of_scan {rest : Text} (read : scan s = some (negative, n, rest))
    (ends : Ends rest) : Denotes negative s n := by
  rw [scan] at read
  cases signed : readSign (s.dropWhile isspace) with
  | mk minus t =>
    rw [signed] at read
    dsimp only at read
    rw [List.span_eq_takeWhile_dropWhile] at read
    dsimp only at read
    split at read
    · cases read
    next some_ =>
    simp only [Option.some.injEq, Prod.mk.injEq] at read
    obtain ⟨rfl, rfl, rfl⟩ := read
    obtain ⟨sign, split, kind⟩ : ∃ sign, s.dropWhile isspace = sign ++ t ∧
        (if minus then sign = ['-'] else sign = [] ∨ sign = ['+']) := by
      unfold readSign at signed
      split at signed <;> cases signed
      · next same => exact ⟨['-'], same, rfl⟩
      · next same => exact ⟨['+'], same, .inr rfl⟩
      · exact ⟨[], rfl, .inl rfl⟩
    refine ⟨s.takeWhile isspace, sign, t.takeWhile Char.isDigit, t.dropWhile Char.isDigit, ?_,
      fun c mem => List.mem_takeWhile_imp mem, kind, fun c mem => List.mem_takeWhile_imp mem, some_,
      rfl, ends⟩
    rw [List.takeWhile_append_dropWhile, ← split, List.takeWhile_append_dropWhile]

/-- A string denotes at most one number. -/
theorem Denotes.unique {negative' : Bool} {n' : Nat} (one : Denotes negative s n)
    (other : Denotes negative' s n') : negative' = negative ∧ n' = n := by
  obtain ⟨rest, read, -⟩ := scan_of_denotes one
  obtain ⟨rest', read', -⟩ := scan_of_denotes other
  rw [read] at read'
  cases read'
  exact ⟨rfl, rfl⟩

/-! ### Which strings are read right -/

theorem safeStrtoull_of_denotes (denotes : Denotes negative s n) (fits : n < 2 ^ 64) :
    safeStrtoull s = if 2 ^ 63 ≤ wrapped negative n ∧ '-' ∈ s then none
      else some (wrapped negative n) := by
  obtain ⟨rest, read, ends⟩ := scan_of_denotes denotes
  rw [safeStrtoull, read]
  exact if_pos ⟨fits, ends⟩

theorem denotes_of_safeStrtoull (accepted : safeStrtoull s = some n) :
    ∃ negative m, Denotes negative s m ∧ m < 2 ^ 64 ∧ n = wrapped negative m ∧
      ¬ (2 ^ 63 ≤ n ∧ '-' ∈ s) := by
  rw [safeStrtoull] at accepted
  split at accepted
  · cases accepted
  next negative m rest read =>
  obtain ⟨⟨fits, ends⟩, accepted⟩ := Option.ite_none_right_eq_some.mp accepted
  obtain ⟨free, same⟩ := Option.ite_none_left_eq_some.mp accepted
  cases same
  exact ⟨negative, m, denotes_of_scan read ends, fits, rfl, free⟩

theorem Denotes.minus_mem (denotes : Denotes true s n) : '-' ∈ s := by
  obtain ⟨blank, sign, ds, rest, rfl, -, rfl, -⟩ := denotes
  simp

theorem safeStrtoull_eq_some (denotes : Denotes false s n) (fits : n < 2 ^ 64)
    (unsigned : 2 ^ 63 ≤ n → '-' ∉ s) : safeStrtoull s = some n :=
  (safeStrtoull_of_denotes denotes fits).trans (if_neg fun both => unsigned both.1 both.2)

/-- **`safe_strtoull` reads unsigned decimals**, and nothing else, exactly where the sign bit tells.
Strings that denote minus zero are left out. -/
theorem safe_strtoull_right_iff (s : Text) (nonzero : ¬ Denotes true s 0) :
    ParsesRight s ↔ SignTells s := by
  constructor
  · intro right
    refine ⟨fun n denotes => ?_, fun n denotes large fits minus => ?_⟩
    · by_contra between
      have small : ¬ (2 ^ 63 ≤ wrapped true n ∧ '-' ∈ s) := by
        simp only [wrapped, if_true]
        omega
      have passed := (safeStrtoull_of_denotes denotes (by omega)).trans (if_neg small)
      exact absurd (denotes.unique ((right _).mp passed).1).1 (by decide)
    · have accepted := (right n).mpr ⟨denotes, fits⟩
      obtain ⟨-, -, -, -, -, free⟩ := denotes_of_safeStrtoull accepted
      exact free ⟨large, minus⟩
  · rintro ⟨negatives, positives⟩ n
    refine ⟨fun accepted => ?_, fun ⟨denotes, fits⟩ =>
      safeStrtoull_eq_some denotes fits fun large => positives n denotes large fits⟩
    obtain ⟨negative, m, denotes, fits, rfl, free⟩ := denotes_of_safeStrtoull accepted
    cases negative with
    | true =>
      -- the wrapped result has the highest bit, and the minus sign is found
      have small := (negatives m denotes).resolve_right (by omega)
      have some_ : m ≠ 0 := fun zero => nonzero (zero ▸ denotes)
      refine absurd ⟨?_, denotes.minus_mem⟩ free
      simp only [wrapped, if_true]
      omega
    | false => exact ⟨denotes, fits⟩

/-- `-2 ^ 63` is refused, as its negation has the highest bit. -/
theorem safe_strtoull_right_at_lowest :
    ¬ Denotes true "-9223372036854775808".toList 0 ∧ ParsesRight "-9223372036854775808".toList := by
  have lowest : Denotes true "-9223372036854775808".toList (2 ^ 63) :=
    ⟨[], ['-'], digits (2 ^ 63), [], by decide +kernel, by simp, rfl, allDigits_digits _,
      digits_ne_nil _, value_digits _, by decide⟩
  have nonzero : ¬ Denotes true "-9223372036854775808".toList 0 := fun zero =>
    absurd (lowest.unique zero).2 (by decide)
  refine ⟨nonzero, (safe_strtoull_right_iff _ nonzero).mpr ⟨fun n minus => ?_, fun n plus => ?_⟩⟩
  · exact .inl (lowest.unique minus).2.le
  · exact absurd (lowest.unique plus).1 (by decide)

theorem denotes_digits (n : Nat) {rest : Text} (ends : Ends rest) :
    Denotes false (digits n ++ rest) n :=
  ⟨[], [], digits n, rest, rfl, by simp, .inl rfl, allDigits_digits n, digits_ne_nil n,
    value_digits n, ends⟩

theorem denotes_minus_digits (n : Nat) {rest : Text} (ends : Ends rest) :
    Denotes true ('-' :: (digits n ++ rest)) n :=
  ⟨[], ['-'], digits n, rest, rfl, by simp, rfl, allDigits_digits n, digits_ne_nil n,
    value_digits n, ends⟩

/-- -9223372036854775809 is read as 9223372036854775807, and 9223372036854775808 is refused if a
minus sign comes later. -/
theorem negative_number_accepted :
    safeStrtoull ('-' :: (digits (2 ^ 63 + 1) ++ [])) = some (2 ^ 63 - 1) ∧
    safeStrtoull (digits (2 ^ 63) ++ [' ', '-']) = none ∧
    ¬ ParsesRight ('-' :: (digits (2 ^ 63 + 1) ++ [])) ∧
    ¬ ParsesRight (digits (2 ^ 63) ++ [' ', '-']) := by
  have minus := denotes_minus_digits (2 ^ 63 + 1) (show Ends [] by decide)
  have plus := denotes_digits (2 ^ 63) (show Ends [' ', '-'] by decide)
  generalize '-' :: (digits (2 ^ 63 + 1) ++ []) = s at minus ⊢
  have read : safeStrtoull s = some (2 ^ 63 - 1) := by
    rw [safeStrtoull_of_denotes minus (by decide)]
    exact if_neg fun both => absurd both.1 (by decide)
  have refused : safeStrtoull (digits (2 ^ 63) ++ [' ', '-']) = none := by
    rw [safeStrtoull_of_denotes plus (by decide)]
    exact if_pos ⟨by decide, by simp⟩
  refine ⟨read, refused, fun right => ?_, fun right => ?_⟩
  · exact absurd (minus.unique ((right _).mp read).1).1 (by decide)
  · rw [(right _).mpr ⟨plus, by decide⟩] at refused
    cases refused

/-! ### Increments and decrements -/

inductive Alloc
  | fails
  | flat
  | chunked
  deriving DecidableEq, Repr

inductive DeltaResult
  | ok (n : Nat)
  | nonNumeric
  | casMismatch
  | eom
  deriving DecidableEq, Repr

/-- A call of `do_add_delta` for an item that is there, and what it finds: whether another CAS number
is asked for, the bytes behind the item up to the next zero byte, how many others have a reference to
it, and what a replacement would be allocated as. -/
structure Call where
  incr : Bool
  delta : UInt64
  casDiffers : Bool
  behind : Text
  others : Nat
  alloc : Alloc

variable (c : Call)

/-- The new value. `delta` is an `int64_t`, but is converted back for the comparison. -/
def Call.result (c : Call) (value : Nat) : Nat :=
  if c.incr then (value + c.delta.toNat) % 2 ^ 64
  else if value < c.delta.toNat then 0 else value - c.delta.toNat

def Call.inPlace (c : Call) (text : Text) (value : Nat) : Prop :=
  (digits (c.result value)).length ≤ text.length ∧ c.others = 0

instance (c : Call) (text : Text) (value : Nat) : Decidable (c.inPlace text value) := by
  delta Call.inPlace; infer_instance

/-- The new value is written over the old one, or to a replacement. In one of several chunks it is
written over the header of a chunk. -/
def Call.write (c : Call) (text : Text) (value : Nat) : DeltaResult × Option Text :=
  let buf := digits (c.result value)
  if c.inPlace text value then
    (.ok (c.result value), some (buf ++ List.replicate (text.length - buf.length) ' '))
  else
    match c.alloc with
    | .fails => (.eom, some text)
    | .flat => (.ok (c.result value), some buf)
    | .chunked => (.ok (c.result value), none)

/-- `do_add_delta`, for the text that a flat item has in front of its line end: the answer and the
text afterwards. An item in chunks is refused before as not numeric. -/
def doAddDelta (c : Call) (text : Text) : DeltaResult × Option Text :=
  if text = [] then (.nonNumeric, some text)
  else if c.casDiffers then (.casMismatch, some text)
  else
    match safeStrtoull (text ++ '\r' :: '\n' :: c.behind) with
    | none => (.nonNumeric, some text)
    | some value => c.write text value

/-- A number has the highest bit set, and a minus sign comes behind it in memory. -/
def Call.Misread (c : Call) (number : Nat) : Prop := 2 ^ 63 ≤ number ∧ '-' ∈ c.behind

instance (c : Call) (number : Nat) : Decidable (c.Misread number) := by
  delta Call.Misread; infer_instance

/-- The text of an item, and the number that the calls so far amount to. -/
structure Tally where
  text : Text
  number : Nat

def Call.expected (c : Call) (number : Nat) : Nat :=
  if c.incr then (number + c.delta.toNat) % 2 ^ 64 else number - c.delta.toNat

def Tally.step (s : Tally) (c : Call) : Option Tally :=
  match doAddDelta c s.text with
  | (_, none) => none
  | (.ok _, some text) => some ⟨text, c.expected s.number⟩
  | (_, some text) => some ⟨text, s.number⟩

/-- The call answers with the new number, which the text of the item then denotes; or it is refused
for its CAS number or for want of memory, and the item is as before. -/
def DeltaRight (s : Tally) (c : Call) : Prop :=
  match doAddDelta c s.text with
  | (.ok n, data) =>
    n = c.expected s.number ∧ ∃ text ∈ data, safeStrtoull (text ++ ['\r', '\n']) = some n
  | (.nonNumeric, _) => False
  | (.casMismatch, data) => c.casDiffers = true ∧ data = some s.text
  | (.eom, data) => c.alloc = .fails ∧ data = some s.text

/-- The number is not misread, and a replacement has one chunk. -/
def DeltaSees (s : Tally) (c : Call) : Prop :=
  c.casDiffers = true ∨
    ¬ c.Misread s.number ∧ (c.inPlace s.text s.number ∨ c.alloc ≠ .chunked)

/-- The text is the number, with blanks behind it. -/
def Tally.Padded (s : Tally) : Prop :=
  s.number < 2 ^ 64 ∧ ∃ k, s.text = digits s.number ++ List.replicate k ' '

theorem Call.result_eq (n : Nat) : c.result n = c.expected n := by
  unfold Call.result Call.expected
  split
  · rfl
  · split <;> omega

theorem Call.expected_lt (fits : n < 2 ^ 64) : c.expected n < 2 ^ 64 := by
  unfold Call.expected
  split <;> omega

theorem safeStrtoull_padded (fits : n < 2 ^ 64) (k : Nat) (behind : Text) :
    safeStrtoull (digits n ++ List.replicate k ' ' ++ '\r' :: '\n' :: behind) =
      if 2 ^ 63 ≤ n ∧ '-' ∈ behind then none else some n := by
  have ends : Ends (List.replicate k ' ' ++ '\r' :: '\n' :: behind) := by
    cases k with
    | zero => exact rfl
    | succ k => exact rfl
  have minus : '-' ∉ digits n := fun mem => absurd (allDigits_digits n _ mem) (by decide)
  rw [List.append_assoc, safeStrtoull_of_denotes (denotes_digits n ends) fits]
  simp [wrapped, minus]

section Padded

variable {s : Tally} (padded : s.Padded) (c : Call)

include padded

theorem doAddDelta_padded : doAddDelta c s.text =
    if c.casDiffers then (.casMismatch, some s.text)
    else if c.Misread s.number then (.nonNumeric, some s.text)
    else c.write s.text s.number := by
  obtain ⟨fits, k, text⟩ := padded
  have read := safeStrtoull_padded fits k c.behind
  rw [← text] at read
  rw [doAddDelta, if_neg (by simp [text, digits_ne_nil]), read]
  by_cases misread : c.Misread s.number
  · rw [if_pos misread, if_pos (show _ ∧ _ from misread)]
  · rw [if_neg misread, if_neg (show ¬ (_ ∧ _) from misread)]

theorem deltaRight_iff : DeltaRight s c ↔ DeltaSees s c := by
  have reads : ∀ k, safeStrtoull (digits (c.expected s.number) ++
      (List.replicate k ' ' ++ ['\r', '\n'])) = some (c.expected s.number) := by
    intro k
    rw [← List.append_assoc, safeStrtoull_padded (c.expected_lt padded.1) k []]
    simp
  have flat := reads 0
  rw [List.replicate_zero, List.nil_append] at flat
  rw [DeltaRight, DeltaSees, doAddDelta_padded padded c]
  cases differs : c.casDiffers with
  | true => simp
  | false =>
    by_cases misread : c.Misread s.number
    · simp [misread]
    rw [if_neg (by simp), if_neg misread, Call.write, c.result_eq]
    by_cases place : c.inPlace s.text s.number
    · simp [place, reads, misread]
    · cases alloc : c.alloc <;> simp [place, flat, misread]

theorem Tally.Padded.step {t : Tally} (called : s.step c = some t) : t.Padded := by
  have fits := c.expected_lt padded.1
  rw [Tally.step, doAddDelta_padded padded c] at called
  split at called
  · cases called
  · next n text done =>
    cases called
    split at done
    · cases done
    split at done
    · cases done
    rw [Call.write, c.result_eq] at done
    split at done
    · cases done
      exact ⟨fits, _, rfl⟩
    · cases alloc : c.alloc <;> rw [alloc] at done <;> cases done
      exact ⟨fits, 0, (List.append_nil _).symm⟩
  · next result text other done =>
    cases called
    have same : text = s.text := by
      split at done
      · cases done; rfl
      split at done
      · cases done; rfl
      rw [Call.write] at done
      split at done
      · cases done
        exact absurd rfl (other _)
      · cases alloc : c.alloc <;> rw [alloc] at done <;> cases done
        · rfl
        · exact absurd rfl (other _)
    rwa [same]

end Padded

/-- **A sequence of increments and decrements is one on the number** as long as no large number is
followed by a minus sign in memory and replacements have one chunk: each call answers with the new
number, and leaves a text that denotes it. -/
theorem deltas_right_iff (v : UInt64) (k : Nat) (calls : List Call) :
    Run.Along Tally.step DeltaRight ⟨digits v.toNat ++ List.replicate k ' ', v.toNat⟩ calls ↔
      Run.Along Tally.step DeltaSees ⟨digits v.toNat ++ List.replicate k ' ', v.toNat⟩ calls := by
  have start : Tally.Padded ⟨digits v.toNat ++ List.replicate k ' ', v.toNat⟩ := ⟨v.toNat_lt, k, rfl⟩
  have keeps : ∀ {cond : Tally → Call → Prop} s c t, s.Padded → cond s c → s.step c = some t → t.Padded :=
    fun s c t padded _ called => padded.step c called
  exact ⟨Run.along_of_invariant keeps (fun s c padded => (deltaRight_iff padded c).mp) start,
    Run.along_of_invariant keeps (fun s c padded => (deltaRight_iff padded c).mpr) start⟩

/-- 9223372036854775808 is no number if the byte behind the item is a minus sign. -/
theorem increment_depends_on_memory :
    (doAddDelta ⟨true, 1, false, [], 0, .flat⟩ (digits (2 ^ 63))).1 = .ok (2 ^ 63 + 1) ∧
    (doAddDelta ⟨true, 1, false, ['-'], 0, .flat⟩ (digits (2 ^ 63))).1 = .nonNumeric := by
  decide +kernel

end MemExchange.Cache
