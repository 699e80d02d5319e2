import MemExchange.Lib.Decimal

/-!
# The keys of a get

`tokenize_command` cuts a line into at most seven words, and `process_get_command` calls it again
for what is left of the line.
-/
namespace MemExchange.Cache

open Decimal

/-- The loop of `tokenize_command`, with the tokens so far, what lies between `s` and `e`, and what
begins at `e`. The space behind a token is overwritten, and not read again. The result is the tokens
without the terminal one, and the value of that. -/
def tokenizeLoop (maxTokens : Nat) : List Text → Text → Text → List Text × Option Text
  | tokens, word, [] => (if word ≠ [] then tokens ++ [word] else tokens, none)
  | tokens, word, c :: rest =>
    if c = ' ' then
      if word ≠ [] then
        if tokens.length + 1 = maxTokens - 1 then
          (tokens ++ [word], if rest = [] then none else some rest)
        else tokenizeLoop maxTokens (tokens ++ [word]) [] rest
      else tokenizeLoop maxTokens tokens [] rest
    else tokenizeLoop maxTokens tokens (word ++ [c]) rest

def tokenizeCommand (command : Text) (maxTokens : Nat) : List Text × Option Text :=
  tokenizeLoop maxTokens [] [] (cString command)

theorem tokenizeLoop_left (m : Nat) (tokens : List Text) (word text : Text) :
    ∀ rest ∈ (tokenizeLoop m tokens word text).2, ∃ before, before ≠ [] ∧ text = before ++ rest := by
  induction text generalizing tokens word with
  | nil => simp [tokenizeLoop]
  | cons c text ih =>
    have longer : ∀ {tokens word}, ∀ rest ∈ (tokenizeLoop m tokens word text).2,
        ∃ before, before ≠ [] ∧ c :: text = before ++ rest := by
      intro tokens word rest here
      obtain ⟨before, -, rfl⟩ := ih tokens word rest here
      exact ⟨c :: before, by simp, rfl⟩
    rw [tokenizeLoop]
    split
    · split
      · split
        · intro rest here
          obtain ⟨-, ⟨⟩⟩ := Option.ite_none_left_eq_some.mp here
          exact ⟨[c], by simp, rfl⟩
        · exact longer
      · exact longer
    · exact longer

/-- The loops of `process_get_command`: the keys that are looked up. It returns at a key that is
longer than `KEY_MAX_LENGTH`, and goes on as long as the first token of the next batch, or the
terminal one, has a value. -/
def processGetCommand (keys : List Text) (left : Option Text) : List Text :=
  if keys.all (·.length ≤ 250) then
    keys ++ match left with
      | none => []
      | some text =>
        if tokenizeCommand text 8 = ([], none) then []
        else processGetCommand (tokenizeCommand text 8).1 (tokenizeCommand text 8).2
  else keys.takeWhile (·.length ≤ 250)
termination_by (left.map (·.length + 1)).getD 0
decreasing_by
  cases next : (tokenizeCommand text 8).2 with
  | none => simp
  | some rest =>
    obtain ⟨before, some_, eq⟩ := tokenizeLoop_left 8 [] [] (cString text) rest next
    have shorter := congrArg List.length eq
    have := (List.takeWhile_prefix (l := text) (· ≠ '\x00')).length_le
    have := List.length_pos_of_ne_nil some_
    simp only [List.length_append] at shorter
    simp only [Option.map_some, Option.getD_some]
    unfold cString at shorter
    omega

/-- `get`, `bget`, `gets` -/
def getCommands : List Text := [['g', 'e', 't'], ['b', 'g', 'e', 't'], ['g', 'e', 't', 's']]

/-- The part of `process_command` for them: the keys that are looked up. -/
def processCommand (line : Text) : List Text :=
  let (tokens, left) := tokenizeCommand line 8
  if 3 ≤ tokens.length + 1 ∧ ∃ command ∈ getCommands, tokens.head? = some command then
    processGetCommand tokens.tail left
  else []

/-- The maximal parts of a text that have no space. -/
def words (text : Text) : List Text := (text.splitOnP (· = ' ')).filter (· ≠ [])

theorem words_of_free {word : Text} (free : ∀ c ∈ word, c ≠ ' ') :
    words word = if word = [] then [] else [word] := by
  rw [words, List.splitOnP_eq_singleton (by simpa using free)]
  split <;> simp [*]

theorem words_space (word text : Text) : words (word ++ ' ' :: text) = words word ++ words text := by
  rw [words, List.splitOnP_append_cons _ _ (by simp), List.filter_append]
  rfl

/-- The tokens and the words of what is left are the words of the text, and something is left only
behind the last token that there is room for. -/
structure Cuts (m : Nat) (words₁ : List Text) (r : List Text × Option Text) : Prop where
  found : r.1 ++ (r.2.map words).getD [] = words₁
  few : r.1.length + 1 ≤ m
  full : r.2 ≠ none → r.1.length + 1 = m

/-- The loop cuts behind the tokens it has and the word it is in. -/
theorem tokenizeLoop_cuts {m : Nat} (tokens : List Text) (word text : Text)
    (free : ∀ c ∈ word, c ≠ ' ') (room : tokens.length + 1 < m) :
    Cuts m (tokens ++ words (word ++ text)) (tokenizeLoop m tokens word text) := by
  induction text generalizing tokens word with
  | nil =>
    rw [tokenizeLoop, List.append_nil, words_of_free free]
    by_cases none_ : word = [] <;> constructor <;> simp [none_] <;> omega
  | cons c text ih =>
    rw [tokenizeLoop]
    split
    next space =>
      rw [space, words_space, words_of_free free]
      by_cases none_ : word = []
      · rw [if_pos none_, if_neg (not_not.mpr none_)]
        exact ih tokens [] (by simp) room
      rw [if_neg none_, if_pos none_]
      split
      next full =>
        refine ⟨?_, by simp; omega, fun _ => by simp; omega⟩
        by_cases last : text = [] <;> simp [last, words]
      next =>
        have cuts := ih (tokens ++ [word]) [] (by simp) (by simp; omega)
        rwa [List.append_assoc] at cuts
    next other =>
      have cuts := ih tokens (word ++ [c]) (by simpa [or_imp, forall_and] using ⟨free, other⟩) room
      rwa [List.append_assoc] at cuts

/-- `tokenize_command` loses no word of the command. -/
theorem tokenizeCommand_cuts (text : Text) :
    Cuts 8 (words (cString text)) (tokenizeCommand text 8) ∧
      ∀ rest ∈ (tokenizeCommand text 8).2, Printable rest := by
  refine ⟨tokenizeLoop_cuts [] [] _ (by simp) (by simp), fun rest here c mem => ?_⟩
  obtain ⟨before, -, eq⟩ := tokenizeLoop_left 8 [] [] (cString text) rest here
  have inside : c ∈ cString text := by rw [eq]; exact List.mem_append_right _ mem
  simpa using List.mem_takeWhile_imp inside

/-- All keys are looked up, those of later calls too. -/
theorem processGetCommand_spec (keys : List Text) (left : Option Text)
    (plain : ∀ rest ∈ left, Printable rest)
    (short : ∀ key ∈ keys ++ (left.map words).getD [], key.length ≤ 250) :
    processGetCommand keys left = keys ++ (left.map words).getD [] := by
  have keysShort : keys.all (·.length ≤ 250) = true := by
    simpa using fun key mem => short key (List.mem_append_left _ mem)
  fun_induction processGetCommand keys left with
  | case1 keys left _ ih =>
    cases left with
    | none => rfl
    | some text =>
      obtain ⟨⟨found, -, -⟩, later⟩ := tokenizeCommand_cuts text
      rw [(plain text rfl).cString_eq] at found
      simp only [Option.map_some, Option.getD_some, List.append_cancel_left_eq] at short ⊢
      split
      next done =>
        rw [← found, done]
        rfl
      · rw [← found] at short ⊢
        refine ih later (fun key mem => short key (List.mem_append_right _ mem)) ?_
        simpa using fun key mem => short key (List.mem_append_right _ (List.mem_append_left _ mem))
  | case2 keys left long => exact absurd keysShort long

/-- **A get looks up all its keys.** For every line whose first word is `get`, `bget` or `gets` and
whose other words are not too long for a key, the keys that are looked up, over all batches, are these
words, in their order. And `tokenize_command` fills no more than `max_tokens` tokens. -/
theorem get_looks_up_every_key (line : Text)
    (isGet : ∃ command ∈ getCommands, (words (cString line)).head? = some command)
    (short : ∀ key ∈ (words (cString line)).tail, key.length ≤ 250) :
    processCommand line = (words (cString line)).tail ∧
      ∀ command maxTokens, 1 < maxTokens →
        (tokenizeCommand command maxTokens).1.length + 1 ≤ maxTokens := by
  refine ⟨?_, fun command m two => (tokenizeLoop_cuts [] [] _ (by simp) (by simpa using two)).few⟩
  obtain ⟨⟨found, few, full⟩, later⟩ := tokenizeCommand_cuts line
  rw [processCommand]
  cases cut : tokenizeCommand line 8 with
  | mk tokens left =>
    rw [cut] at found few full later
    rw [← found] at isGet short ⊢
    dsimp only at *
    cases tokens with
    | nil =>
      cases left with
      | none => simp at isGet
      | some rest => simp at full
    | cons word tokens =>
      split
      next => exact processGetCommand_spec tokens left later short
      next fails =>
        have one : ¬ 3 ≤ (word :: tokens).length + 1 := fun three => fails ⟨three, isGet⟩
        have none_ : left = none := by_contra fun some_ => one (by rw [full some_]; decide)
        cases tokens with
        | nil => rw [none_]; rfl
        | cons => exact absurd (by simp) one

/-- Seven keys, spaces on all sides: the second batch is one space and a key. -/
theorem get_looks_up_seven_keys :
    processCommand [' ', 'g', 'e', 't', ' ', ' ', 'a', ' ', 'b', ' ', 'c', ' ', 'd', ' ', 'e', ' ',
      'f', ' ', ' ', 'g', ' '] = [['a'], ['b'], ['c'], ['d'], ['e'], ['f'], ['g']] :=
  (get_looks_up_every_key _ (by decide) (by decide)).1.trans (by decide)

end MemExchange.Cache
