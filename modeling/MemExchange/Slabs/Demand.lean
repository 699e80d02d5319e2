import MemExchange.Lib.Best
import MemExchange.Lib.Double
import MemExchange.Slabs.Scoring

/-!
# The pages that are asked for

`calculate_scores` looks for the class, and the number of pages, for which an additional page would
have been hit most often. The counters have 32 bits, and their sum is an `int`. Averages are doubles;
two different ones are further apart than the doubles there, so rounding does not change their order.
-/
namespace MemExchange.Slabs

def shadowqHitThreshold : UInt32 := 256

/-- `shadowq_hits` of the classes -/
abbrev ShadowHits := Int → Nat → UInt32

/-- `temp` after the counters from `k` down to 0 were added. An `int` and a `uint32_t` are added as
unsigned numbers. -/
def addDown (hits : Nat → UInt32) : (k : Nat) → (temp : UInt32) → UInt32
  | 0, temp => temp + hits 0
  | k + 1, temp => addDown hits k (temp + hits (k + 1))

/-- `temp`, read as an `int` again -/
def prefixSum (hits : Nat → UInt32) (j : Nat) : Int := (addDown hits j 0).toBitVec.toInt

variable (cfg : Config) (w : World) (tables : ShadowHits) (p : Int × Nat)

/-- `mu = (double) temp / (j+1)` -/
def mu : ℚ :=
  Double.round (prefixSum (tables p.1) p.2 / (p.2 + 1))

/-- `highest_mu`, with `cls_id` and `shadow_page_id` -/
abbrev Highest := Best.Leader (Int × Nat) ℚ

/-- The shadow pages `n - 1` down to 0 of class `i` -/
def scanShadowPages (tables : ShadowHits) (i : Int) : (n : Nat) → Highest → Highest
  | 0, h => h
  | j + 1, h => scanShadowPages tables i j
      (if tables i j > shadowqHitThreshold then
        if mu tables (i, j) > h.key then ⟨mu tables (i, j), some (i, j)⟩ else h
      else h)

/-- The next `n` classes, from class `i` on -/
def World.scanShadows (w : World) (tables : ShadowHits) : (n : Nat) → Int → Highest → Highest
  | 0, _, h => h
  | n + 1, i, h => w.scanShadows tables n (i + 1)
      (if (w.pages i).slabs > 0 then scanShadowPages tables i 1000 h else h)

/-- The first loop of `calculate_scores` -/
def World.highestMu : Highest :=
  w.scanShadows tables cfg.powerLargest.toNat 1 ⟨0, none⟩

/-! ### What is looked for -/

/-- A shadow page with enough hits, in a class that has pages -/
structure Wanted (cfg : Config) (w : World) (tables : ShadowHits) (p : Int × Nat) : Prop where
  isClass : 1 ≤ p.1 ∧ p.1 ≤ cfg.powerLargest
  used : (w.pages p.1).slabs > 0
  index : p.2 ≤ 999
  hits : tables p.1 p.2 > shadowqHitThreshold

def total : Nat :=
  ∑ k ∈ Finset.range (p.2 + 1), (tables p.1 k).toNat

def average : ℚ := total tables p / (p.2 + 1)

/-- If the call is about to ask for pages, it is for those up to `p`. -/
def AsksUpTo (r : Scoring.Round) : Prop :=
  ∀ id, r.pc = .reassignWaiting id → id = p.1 ∧ r.pagesToRequest = p.2 + 1

/-- Whatever happens during a call with this finding, it asks for the pages up to `p` or for none. -/
def AsksFor (f : Scoring.Finding) (p : Int × Nat) : Prop :=
  ∀ (port : Int) (w : World) (rts : Tenant.Rts) (pagesToRequest : Int) (run : List Scoring.Action),
    Run.Always (Scoring.step cfg port) (AsksUpTo p) (.begin w rts pagesToRequest f) run

/-- The sums are computed without overflow, and the page that is chosen is wanted and has the highest
average; the pages up to it are asked for. -/
def ChoosesHighest : Prop :=
  (∀ q, Wanted cfg w tables q → prefixSum (tables q.1) q.2 = total tables q) ∧
    ∃ p, (w.highestMu cfg tables).candidate = some p ∧ Wanted cfg w tables p ∧
      (∀ q, Wanted cfg w tables q → average tables q ≤ average tables p) ∧
      ∀ f : Scoring.Finding, f.request = (w.highestMu cfg tables).candidate → AsksFor cfg f p

/-! ### Sums -/

theorem addDown_toNat (hits : Nat → UInt32) (k : Nat) (temp : UInt32) : (addDown hits k temp).toNat
      = (temp.toNat + ∑ i ∈ Finset.range (k + 1), (hits i).toNat) % 2 ^ 32 := by
  induction k generalizing temp with
  | zero => simp [addDown]
  | succ k ih =>
    rw [addDown, ih, Finset.sum_range_succ _ (k + 1), UInt32.toNat_add]
    omega

theorem prefixSum_eq_total_iff :
    prefixSum (tables p.1) p.2 = total tables p ↔ total tables p < 2 ^ 31 := by
  have nat : (addDown (tables p.1) p.2 0).toBitVec.toNat = total tables p % 2 ^ 32 := by
    rw [UInt32.toNat_toBitVec, addDown_toNat]
    simp [total]
  unfold prefixSum
  rw [BitVec.toInt_eq_toNat_cond, nat]
  constructor
  · intro same
    split at same <;> omega
  · intro small
    have whole : total tables p % 2 ^ 32 = total tables p := Nat.mod_eq_of_lt (by omega)
    rw [if_pos (by omega), whole]

section Rounding

variable {cfg w tables p} {q : Int × Nat}

/-- A sum of 31 bits over at most 1000 pages -/
structure Exact (tables : ShadowHits) (p : Int × Nat) : Prop where
  index : p.2 ≤ 999
  small : total tables p < 2 ^ 31

theorem Exact.mu_eq (exact_ : Exact tables p) : mu tables p = Double.round (average tables p) := by
  unfold mu average
  rw [(prefixSum_eq_total_iff tables p).mpr exact_.small]
  push_cast
  rfl

theorem average_nonneg : 0 ≤ average tables p := by
  unfold average
  positivity

theorem Exact.abs_average_lt (exact_ : Exact tables p) :
    |average tables p| < 2 ^ ((30 : ℤ) + 1) := by
  have small : (total tables p : ℚ) < 2 ^ 31 := by exact_mod_cast exact_.small
  have pages : (1 : ℚ) ≤ p.2 + 1 := by exact_mod_cast Nat.succ_pos p.2
  rw [abs_of_nonneg average_nonneg, average]
  calc (total tables p : ℚ) / (p.2 + 1) ≤ total tables p := div_le_self (by positivity) pages
    _ < 2 ^ 31 := small
    _ = 2 ^ ((30 : ℤ) + 1) := by norm_num

section

variable (hp : Exact tables p) (hq : Exact tables q) (less : average tables p < average tables q)
include hp hq less

theorem average_gap : (2 : ℚ) ^ ((30 : ℤ) - 52) < average tables q - average tables p := by
  have mpos : (0 : ℚ) < p.2 + 1 := by positivity
  have npos : (0 : ℚ) < q.2 + 1 := by positivity
  have mle : (p.2 : ℚ) + 1 ≤ 1000 := by exact_mod_cast Nat.succ_le_succ hp.index
  have nle : (q.2 : ℚ) + 1 ≤ 1000 := by exact_mod_cast Nat.succ_le_succ hq.index
  -- the numerator of the difference is a positive integer
  have cross : total tables p * (q.2 + 1) + 1 ≤ total tables q * (p.2 + 1) := by
    unfold average at less
    rw [div_lt_div_iff₀ mpos npos] at less
    exact_mod_cast less
  have cross' : (total tables p : ℚ) * (q.2 + 1) + 1 ≤ total tables q * (p.2 + 1) := by
    exact_mod_cast cross
  have difference : average tables q - average tables p
      = (total tables q * (p.2 + 1) - total tables p * (q.2 + 1)) / ((p.2 + 1) * (q.2 + 1)) := by
    unfold average
    field_simp
  rw [difference, lt_div_iff₀ (mul_pos mpos npos)]
  have product : ((p.2 : ℚ) + 1) * (q.2 + 1) ≤ 1000 * 1000 :=
    mul_le_mul mle nle npos.le (by norm_num)
  calc (2 : ℚ) ^ ((30 : ℤ) - 52) * ((p.2 + 1) * (q.2 + 1))
      ≤ 2 ^ ((30 : ℤ) - 52) * (1000 * 1000) := mul_le_mul_of_nonneg_left product (by positivity)
    _ < 1 := by norm_num
    _ ≤ total tables q * (p.2 + 1) - total tables p * (q.2 + 1) := by linarith

theorem mu_lt_mu : mu tables p < mu tables q := by
  rw [hp.mu_eq, hq.mu_eq]
  exact Double.round_lt_round (by norm_num) hp.abs_average_lt hq.abs_average_lt
    (average_gap hp hq less)

end

theorem Wanted.mu_pos (wanted : Wanted cfg w tables p) (small : total tables p < 2 ^ 31) :
    0 < mu tables p := by
  have exact_ : Exact tables p := ⟨wanted.index, small⟩
  have own : 257 ≤ (tables p.1 p.2).toNat := by
    have := UInt32.lt_iff_toNat_lt.mp wanted.hits
    exact this
  have sum : (257 : ℚ) ≤ total tables p := by
    have := Finset.single_le_sum (f := fun k => (tables p.1 k).toNat) (fun _ _ => Nat.zero_le _)
      (Finset.self_mem_range_succ p.2)
    exact_mod_cast own.trans this
  have pages : (p.2 : ℚ) + 1 ≤ 1000 := by exact_mod_cast Nat.succ_le_succ wanted.index
  have average_ge : 257 / 1000 ≤ average tables p := by
    unfold average
    exact div_le_div₀ (by positivity) sum (by positivity) pages
  have := Double.round_lt_round (x := 0) (e := 30) (by norm_num) (by norm_num) exact_.abs_average_lt
    (by norm_num; linarith)
  rwa [Double.round_zero, ← exact_.mu_eq] at this

end Rounding

/-! ### The search keeps the highest -/

section Search

variable {cfg w tables}

/-- The shadow pages of class `i` with enough hits, from `n - 1` down to 0 -/
def shadowPages (tables : ShadowHits) (i : Int) : Nat → List (Int × Nat)
  | 0 => []
  | j + 1 => if tables i j > shadowqHitThreshold then (i, j) :: shadowPages tables i j
      else shadowPages tables i j

variable {p} {i : Int} {n : Nat}

theorem mem_shadowPages :
    p ∈ shadowPages tables i n ↔ p.1 = i ∧ p.2 < n ∧ tables i p.2 > shadowqHitThreshold := by
  induction n with
  | zero => simp [shadowPages]
  | succ j ih =>
    rw [shadowPages]
    split
    · next enough =>
      rw [List.mem_cons, ih]
      constructor
      · rintro (rfl | ⟨here, less, hits⟩)
        · exact ⟨rfl, Nat.lt_succ_self j, enough⟩
        · exact ⟨here, Nat.lt_succ_of_lt less, hits⟩
      · rintro ⟨here, less, hits⟩
        by_cases last : p.2 = j
        · exact .inl (Prod.ext here last)
        · exact .inr ⟨here, by omega, hits⟩
    · next few =>
      rw [ih]
      constructor
      · rintro ⟨here, less, hits⟩
        exact ⟨here, Nat.lt_succ_of_lt less, hits⟩
      · rintro ⟨here, less, hits⟩
        have : p.2 ≠ j := fun last => few (last ▸ hits)
        exact ⟨here, by omega, hits⟩

theorem scanShadowPages_eq (i : Int) (n : Nat) (h : Highest) :
    scanShadowPages tables i n h = Best.scan (mu tables) h (shadowPages tables i n) := by
  induction n generalizing h with
  | zero => rfl
  | succ j ih =>
    rw [scanShadowPages, shadowPages, ih]
    split
    · rfl
    · rfl

/-- The shadow pages with enough hits of `n` classes, from class `i` on -/
def World.shadowPagesFrom (w : World) (tables : ShadowHits) : Nat → Int → List (Int × Nat)
  | 0, _ => []
  | n + 1, i => (if (w.pages i).slabs > 0 then shadowPages tables i 1000 else []) ++
      w.shadowPagesFrom tables n (i + 1)

theorem World.mem_shadowPagesFrom :
    p ∈ w.shadowPagesFrom tables n i ↔ i ≤ p.1 ∧ p.1 < i + n ∧ (w.pages p.1).slabs > 0 ∧
      p.2 ≤ 999 ∧ tables p.1 p.2 > shadowqHitThreshold := by
  induction n generalizing i with
  | zero =>
    refine ⟨fun mem => (nomatch mem), ?_⟩
    rintro ⟨low, high, -⟩
    omega
  | succ n ih =>
    have own : p ∈ (if (w.pages i).slabs > 0 then shadowPages tables i 1000 else []) ↔
        p.1 = i ∧ (w.pages i).slabs > 0 ∧ p.2 ≤ 999 ∧ tables i p.2 > shadowqHitThreshold := by
      split
      · next used =>
        rw [mem_shadowPages]
        exact ⟨fun ⟨here, less, hits⟩ => ⟨here, used, by omega, hits⟩,
          fun ⟨here, _, less, hits⟩ => ⟨here, by omega, hits⟩⟩
      · next unused => exact ⟨fun mem => (nomatch mem), fun ⟨_, used, _⟩ => absurd used unused⟩
    rw [World.shadowPagesFrom, List.mem_append, own, ih]
    constructor
    · rintro (⟨rfl, used, index, hits⟩ | ⟨low, high, rest⟩)
      · exact ⟨le_rfl, by push_cast; omega, used, index, hits⟩
      · exact ⟨by omega, by push_cast; omega, rest⟩
    · rintro ⟨low, high, rest⟩
      by_cases here : p.1 = i
      · rw [here] at rest
        exact .inl ⟨here, rest⟩
      · exact .inr ⟨by omega, by push_cast at high; omega, rest⟩

theorem World.mem_shadowPagesFrom_one :
    p ∈ w.shadowPagesFrom tables cfg.powerLargest.toNat 1 ↔ Wanted cfg w tables p := by
  rw [w.mem_shadowPagesFrom]
  constructor
  · rintro ⟨low, high, used, index, hits⟩
    exact ⟨⟨low, by omega⟩, used, index, hits⟩
  · rintro ⟨⟨low, high⟩, used, index, hits⟩
    exact ⟨low, by omega, used, index, hits⟩

theorem World.scanShadows_eq (n : Nat) (i : Int) (h : Highest) :
    w.scanShadows tables n i h = Best.scan (mu tables) h (w.shadowPagesFrom tables n i) := by
  induction n generalizing i h with
  | zero => rfl
  | succ n ih =>
    rw [World.scanShadows, World.shadowPagesFrom, Best.scan_append, ih]
    split
    · rw [scanShadowPages_eq]
    · rfl

end Search

/-! ### The pages that are requested -/

section Request

variable {cfg p} {port : Int} {f : Scoring.Finding} {r r' : Scoring.Round}

/-- What the call remembers of the finding at each of its points -/
def CarriesAt (f : Scoring.Finding) (p : Int × Nat) (pagesToRequest : Int) : Scoring.Pc → Prop
  | .enter g | .scores g | .spareNeeded g | .remoteSpareNeeded g => g = f
  | .compareMinID g | .newMemAvailable g | .compareMaxID g => g = f
  | .reqSpare id page | .lockMaxScore id page => (id, page) = p
  | .reassignWaiting id => id = p.1 ∧ pagesToRequest = p.2 + 1
  | _ => True

def Carries (f : Scoring.Finding) (p : Int × Nat) (r : Scoring.Round) : Prop :=
  CarriesAt f p r.pagesToRequest r.pc

theorem carriesAt_asVictim (pages : Int) : CarriesAt f p pages (r.asVictim f) := by
  unfold Scoring.Round.asVictim
  split <;> exact rfl

theorem Carries.next (carries : Carries f p r) (request : f.request = some p)
    (called : r.next cfg port = some r') : Carries f p r' := by
  have carries : CarriesAt f p r.pagesToRequest r.pc := carries
  cases here : r.pc <;> rw [here] at carries <;> simp only [Scoring.Round.next, here] at called
  case enter g =>
    cases carries
    cases called
    split <;> trivial
  case scores g =>
    cases carries
    cases called
    show CarriesAt f p _ (if _ then _ else _)
    split <;> rfl
  case spareNeeded g | remoteSpareNeeded g =>
    cases carries
    cases called
    show CarriesAt f p _ (if _ then _ else _)
    split
    · exact carriesAt_asVictim _
    · rfl
  case compareMinID g | newMemAvailable g =>
    cases carries
    cases called
    show CarriesAt f p _ (if _ then _ else _)
    split <;> trivial
  case lockSpare release =>
    split at called
    · split at called <;> cases called <;> trivial
    · cases called
      trivial
  case freeRemote | freeNeeded | pageRemote id =>
    cases called
    show CarriesAt f p _ (if _ then _ else _)
    split <;> trivial
  case newslab =>
    obtain ⟨w, -, rfl⟩ := Option.map_eq_some_iff.mp called
    trivial
  case compareMaxID g =>
    cases carries
    cases called
    -- this is where the request of the finding is taken over
    simp only [Carries, request]
    split <;> trivial
  case reqSpare id page =>
    cases carries
    cases called
    show CarriesAt f _ _ (if _ then _ else _)
    split <;> trivial
  case lockMaxScore id page =>
    cases carries
    cases called
    split
    · exact ⟨rfl, rfl⟩
    · trivial
  case ended moving => cases called
  all_goals
    cases called
    trivial

theorem Carries.step (carries : Carries f p r) (request : f.request = some p) {a : Scoring.Action}
    (called : Scoring.step cfg port r a = some r') : Carries f p r' := by
  cases a with
  | next => exact carries.next request called
  | other op | slabsReassign src dst | forceReassign d =>
    cases called
    exact carries
  | start =>
    obtain ⟨w, -, rfl⟩ := Option.map_eq_some_iff.mp called
    show CarriesAt f p _ (if _ then _ else _)
    split
    · trivial
    · exact carries

theorem Carries.asksUpTo (carries : Carries f p r) : AsksUpTo p r := by
  intro id here
  have carries : CarriesAt f p r.pagesToRequest r.pc := carries
  rwa [here] at carries

theorem asksFor_of_request (request : f.request = some p) : AsksFor cfg f p := by
  intro port w rts pagesToRequest run
  have start : Carries f p (.begin w rts pagesToRequest f) := rfl
  exact Run.always_mono (fun _ carries => carries.asksUpTo)
    (Run.always_of_step (fun _ _ _ carries called => carries.step request called) start run)

end Request

/-- If some shadow page is wanted, the one with the highest average is chosen exactly if the hits of
the pages up to each wanted one are less than `2^31` together. -/
theorem highest_demand_chosen_iff (cfg : Config) (w : World) (tables : ShadowHits)
    (wanted : ∃ p, Wanted cfg w tables p) :
    ChoosesHighest cfg w tables ↔ ∀ p, Wanted cfg w tables p → total tables p < 2 ^ 31 := by
  constructor
  · rintro ⟨sums, -⟩ p own
    exact (prefixSum_eq_total_iff tables p).mp (sums p own)
  · intro small
    obtain ⟨q, own⟩ := wanted
    refine ⟨fun q own => (prefixSum_eq_total_iff tables q).mpr (small q own), ?_⟩
    obtain ⟨p, mem, best, highest⟩ := Best.scan_picks (mu tables) ⟨0, none⟩
      ⟨q, World.mem_shadowPagesFrom_one.mpr own, own.mu_pos (small q own)⟩
    have chosen : (w.highestMu cfg tables).candidate = some p := by
      rw [World.highestMu, World.scanShadows_eq, best]
    have good := World.mem_shadowPagesFrom_one.mp mem
    refine ⟨p, chosen, good, fun r other => ?_, fun f request =>
      asksFor_of_request (request.trans chosen)⟩
    -- a higher average would have a higher double
    by_contra less
    have := mu_lt_mu ⟨good.index, small p good⟩ ⟨other.index, small r other⟩ (not_le.mp less)
    exact absurd (highest r (World.mem_shadowPagesFrom_one.mpr other)) (not_le.mpr this)

/-- A tenant with one page in each of its classes -/
def onePageEach : World :=
  { cls := fun _ => { pages := { slabs := 1 } }
    account := { memLimit := 0 }
    tracker := quarterOf 0 }

/-- Class 1 would have had 300 hits in its first additional page, and class 3 700 in two pages. -/
def someDemand : ShadowHits := fun i j =>
  if i = 1 ∧ j = 0 then 300 else if i = 3 ∧ j = 1 then 600 else if i = 3 ∧ j = 0 then 100 else 0

theorem two_pages_demanded : (∃ p, Wanted (halves true) onePageEach someDemand p) ∧
      ChoosesHighest (halves true) onePageEach someDemand ∧
      (onePageEach.highestMu (halves true) someDemand).candidate = some (3, 1) := by
  have wanted : Wanted (halves true) onePageEach someDemand (3, 1) :=
    ⟨by decide, by decide, by decide, by decide⟩
  refine ⟨⟨_, wanted⟩, (highest_demand_chosen_iff _ _ _ ⟨_, wanted⟩).mpr fun p own => ?_,
    by decide +kernel⟩
  have each : ∀ k ∈ Finset.range (p.2 + 1), (someDemand p.1 k).toNat ≤ 600 := by
    intro k _
    unfold someDemand
    split_ifs <;> decide
  have sum := Finset.sum_le_card_nsmul _ _ _ each
  rw [Finset.card_range, smul_eq_mul] at sum
  have index := own.index
  show ∑ k ∈ Finset.range (p.2 + 1), (someDemand p.1 k).toNat < 2 ^ 31
  omega

/-- Class 1 has a counter of `2^31`, and class 2 one of 300. -/
def hugeDemand : ShadowHits := fun i j =>
  if i = 1 ∧ j = 0 then 2147483648 else if i = 2 ∧ j = 0 then 300 else 0

/-- The sum of class 1 is negative, and a page for class 2 is asked for. -/
theorem huge_demand_overlooked : Wanted (halves true) onePageEach hugeDemand (1, 0) ∧
      prefixSum (hugeDemand 1) 0 = -2147483648 ∧ total hugeDemand (1, 0) = 2147483648 ∧
      (onePageEach.highestMu (halves true) hugeDemand).candidate = some (2, 0) ∧
      ¬ ChoosesHighest (halves true) onePageEach hugeDemand := by
  have wanted : Wanted (halves true) onePageEach hugeDemand (1, 0) :=
    ⟨by decide, by decide, by decide, by decide⟩
  refine ⟨wanted, by decide, by decide, by decide +kernel, ?_⟩
  rintro ⟨sums, -⟩
  exact absurd (sums _ wanted) (by decide)

end MemExchange.Slabs
