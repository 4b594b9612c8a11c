import Tarkib.Proofs.Json.Numeral

/-!
# The grammar of documents

A document is a list of words: brackets, commas and colons, strings, numbers and the three literals.
`Denotes` says which words stand for which value, and `Lays` that a text consists of given words,
with any blank space in front of each of them. So the blank space between the words is the one thing
about a document that can be changed freely.
-/

namespace Tarkib.Json

open List

variable {ws : List (List Char)} {word cs rest : List Char} {here : Cursor}

/-! ## Words and the space in front of them -/

/-- The text `cs` starts with the given words, with blank space in front of each of them, and goes
on with `rest`. -/
inductive Lays : List (List Char) → List Char → List Char → Prop where
  | nil (rest : List Char) : Lays [] rest rest
  | cons {gap word : List Char} {words : List (List Char)} {cs rest : List Char}
      (blank : ∀ c ∈ gap, Cursor.isBlank c = true) (later : Lays words cs rest) :
      Lays (word :: words) (gap ++ (word ++ cs)) rest

namespace Lays

variable {us : List (List Char)} {mid : List Char}

theorem append (first : Lays ws cs mid) (second : Lays us mid rest) : Lays (ws ++ us) cs rest := by
  induction first with
  | nil => exact second
  | cons blank _ ih => exact .cons blank (ih second)

theorem exists_of_append (laid : Lays (ws ++ us) cs rest) :
    ∃ mid, Lays ws cs mid ∧ Lays us mid rest := by
  induction ws generalizing cs with
  | nil => exact ⟨cs, .nil cs, laid⟩
  | cons word ws ih =>
    cases laid with
    | cons blank later =>
      obtain ⟨mid, first, second⟩ := ih later
      exact ⟨mid, .cons blank first, second⟩

theorem behindBlank (text : here.skipBlank.rest = word ++ mid) (later : Lays ws mid rest) :
    Lays (word :: ws) here.rest rest := by
  have parts : here.rest = here.rest.takeWhile Cursor.isBlank ++ (word ++ mid) := by
    rw [← text]
    exact takeWhile_append_dropWhile.symm
  rw [parts]
  exact .cons (fun _ member => mem_takeWhile_imp member) later

theorem of_skipBlank (laid : Lays ws here.skipBlank.rest rest) (some : ws ≠ []) :
    Lays ws here.rest rest := by
  generalize text : here.skipBlank.rest = behind at laid
  cases laid with
  | nil => exact absurd rfl some
  | @cons gap word words cs rest blank later =>
    have parts : here.rest = here.rest.takeWhile Cursor.isBlank ++ gap ++ (word ++ cs) := by
      rw [append_assoc, ← text]
      exact takeWhile_append_dropWhile.symm
    rw [parts]
    refine .cons (forall_mem_append.mpr ⟨?_, blank⟩) later
    exact fun _ member => mem_takeWhile_imp member

end Lays

variable {c : Char} {depth : Nat} {after : Cursor} {v : Value} {text : List Char}
  {items : List Value} {members : List (String × Value)} {first : Bool}

theorem skipBlank_append {gap : List Char} (blank : ∀ c ∈ gap, Cursor.isBlank c = true)
    (solid : Cursor.isBlank c = false) (cs : List Char) (offset : Nat) :
    (Cursor.mk (gap ++ c :: cs) offset).skipBlank = ⟨c :: cs, offset + gap.length⟩ := by
  unfold Cursor.skipBlank
  rw [takeWhile_append_of_pos blank, dropWhile_append_of_pos blank,
    takeWhile_cons_of_neg (by simp [solid]), dropWhile_cons_of_neg (by simp [solid]),
    append_nil]

/-! ## What words stand for -/

/-- What a stretch of words stands for: a value, the items of an array up to its end, the members of
an object up to its end, or these members if there is at least one. `first` says that no item or
member came before. -/
inductive Phrase where
  | value (v : Value)
  | items (first : Bool) (items : List Value)
  | members (first : Bool) (members : List (String × Value))
  | entries (members : List (String × Value))

variable {phrase : Phrase}

def comma (first : Bool) : List (List Char) :=
  if first then [] else [[',']]

def literals : List (List Char × Value) :=
  [(['n', 'u', 'l', 'l'], .null), (['t', 'r', 'u', 'e'], .bool true),
    (['f', 'a', 'l', 's', 'e'], .bool false)]

def quotation (text : List Char) : List Char :=
  '\x22' :: (text ++ ['\x22'])

def signed (negative : Bool) (n : Numeral) : List Char :=
  if negative then '-' :: n.text else n.text

/-- The words stand for the phrase. Arrays and objects may stand inside one another less than
`depth` times. -/
inductive Denotes : Nat → Phrase → List (List Char) → Prop where
  | literal {depth : Nat} {word : List Char} {v : Value} (known : (word, v) ∈ literals) :
      Denotes depth (.value v) [word]
  | number {depth : Nat} {negative : Bool} {n : Numeral} {x : Number}
      (value : n.value? negative = some x) :
      Denotes depth (.value (.number x)) [signed negative n]
  | string {depth : Nat} {text : List Char} {s : String} (inside : Inside text s.toList) :
      Denotes depth (.value (.string s)) [quotation text]
  | array {depth : Nat} {items : List Value} {ws : List (List Char)} (below : 0 < depth)
      (parts : Denotes depth (.items true items) ws) :
      Denotes (depth + 1) (.value (.array items)) (['['] :: ws)
  | object {depth : Nat} {members : List (String × Value)} {ws : List (List Char)}
      (below : 0 < depth) (parts : Denotes depth (.members true members) ws) :
      Denotes (depth + 1) (.value (.ofMembers members)) (['\x7b'] :: ws)
  | noItems {depth : Nat} {first : Bool} : Denotes depth (.items first []) [[']']]
  | item {depth : Nat} {first : Bool} {v : Value} {items : List Value} {ws us : List (List Char)}
      (here : Denotes depth (.value v) ws) (later : Denotes depth (.items false items) us) :
      Denotes depth (.items first (v :: items)) (comma first ++ (ws ++ us))
  | noMembers {depth : Nat} {first : Bool} : Denotes depth (.members first []) [['\x7d']]
  | members {depth : Nat} {first : Bool} {members : List (String × Value)}
      {ws : List (List Char)} (here : Denotes depth (.entries members) ws) :
      Denotes depth (.members first members) (comma first ++ ws)
  | entry {depth : Nat} {text : List Char} {key : String} {v : Value}
      {members : List (String × Value)} {ws us : List (List Char)}
      (inside : Inside text key.toList) (here : Denotes depth (.value v) ws)
      (later : Denotes depth (.members false members) us) :
      Denotes depth (.entries ((key, v) :: members)) (quotation text :: [':'] :: (ws ++ us))

theorem Denotes.ne_nil (denotes : Denotes depth phrase ws) : ws ≠ [] := by
  induction denotes with
  | item _ _ ih _ => simp [ih]
  | members _ ih => simp [ih]
  | _ => exact cons_ne_nil _ _

/-! ## What is read is denoted -/

theorem rest_of_readWord (found : readWord word here = .ok after) :
    here.rest = word ++ after.rest := by
  induction word generalizing here with
  | nil =>
    cases found
    rfl
  | cons w word ih =>
    rw [readWord] at found
    split at found
    · cases found
    · next c rest text =>
        split at found
        · next same =>
            have later : rest = word ++ after.rest := by
              simpa only [Cursor.next, text] using ih found
            rw [text, eq_of_beq same, later, cons_append]
        · cases found

theorem rest_of_readColon (found : readColon here = .ok after) :
    here.skipBlank.rest = [':'] ++ after.rest := by
  unfold readColon at found
  dsimp only at found
  split at found
  · cases found
  · next c rest text =>
      split at found
      · next same =>
          cases found
          rw [Cursor.next, text, eq_of_beq same]
          rfl
      · cases found

theorem denotes_of_literal {w : Value} {d : Char} (known : (d :: word, v) ∈ literals)
    (first : (c == d) = true) (behind : here.skipBlank.rest = c :: here.skipBlank.next.rest)
    (found : (do return (v, ← readWord word here.skipBlank.next)) = Except.ok (w, after)) :
    ∃ ws, Denotes depth (.value w) ws ∧ Lays ws here.rest after.rest := by
  obtain ⟨_, read, found⟩ := bind_eq_ok found
  cases found
  rw [eq_of_beq first, rest_of_readWord read] at behind
  exact ⟨[d :: word], .literal known, .behindBlank behind (.nil _)⟩

/-- What is read with the given fuel is denoted by the words that were taken. -/
structure ReadsDenoted (fuel : Nat) : Prop where
  value : ∀ {depth here v after}, readValue fuel depth here = .ok (v, after) →
    ∃ ws, Denotes depth (.value v) ws ∧ Lays ws here.rest after.rest
  items : ∀ {depth first here items after}, readItems fuel depth first here = .ok (items, after) →
    ∃ ws, Denotes depth (.items first items) ws ∧ Lays ws here.rest after.rest
  members : ∀ {depth first here members after},
    readMembers fuel depth first here = .ok (members, after) →
      ∃ ws, Denotes depth (.members first members) ws ∧ Lays ws here.rest after.rest
  entries : ∀ {depth here members after}, here.rest.head? = some '\x22' →
    readMember fuel depth here = .ok (members, after) →
      ∃ ws, Denotes depth (.entries members) ws ∧ Lays ws here.rest after.rest

namespace ReadsDenoted

variable {fuel : Nat} (less : ReadsDenoted fuel)
include less

theorem value_succ {v : Value} (found : readValue (fuel + 1) depth here = .ok (v, after)) :
    ∃ ws, Denotes depth (.value v) ws ∧ Lays ws here.rest after.rest := by
  unfold readValue at found
  dsimp only at found
  split at found
  · cases found
  next c cs text =>
  have behind : here.skipBlank.rest = c :: here.skipBlank.next.rest := by rw [Cursor.next, text]
  split at found
  · next first => exact denotes_of_literal (by simp [literals]) first behind found
  split at found
  · next first => exact denotes_of_literal (by simp [literals]) first behind found
  split at found
  · next first => exact denotes_of_literal (by simp [literals]) first behind found
  split at found
  · next first =>
      obtain ⟨⟨x, _⟩, number, found⟩ := bind_eq_ok found
      cases found
      obtain ⟨n, left, value⟩ := numeral_of_readNumber number
      rw [left, eq_of_beq first] at behind
      exact ⟨[signed true n], .number value, .behindBlank behind (.nil _)⟩
  split at found
  · obtain ⟨⟨x, _⟩, number, found⟩ := bind_eq_ok found
    cases found
    obtain ⟨n, left, value⟩ := numeral_of_readNumber number
    exact ⟨[signed false n], .number value, .behindBlank left (.nil _)⟩
  split at found
  · next first =>
      obtain ⟨⟨s, _⟩, string, found⟩ := bind_eq_ok found
      cases found
      obtain ⟨text, left, inside⟩ := inside_of_readString string
      refine ⟨[quotation text], .string inside, .behindBlank ?_ (.nil _)⟩
      rw [behind, left, eq_of_beq first]
      simp [quotation]
  split at found
  · next first =>
      split at found
      · cases found
      · next below =>
          obtain ⟨⟨items, _⟩, parts, found⟩ := bind_eq_ok found
          cases found
          obtain ⟨ws, denotes, laid⟩ := less.items parts
          obtain ⟨depth, rfl⟩ : ∃ below, depth = below + 1 := ⟨depth - 1, by omega⟩
          refine ⟨['['] :: ws, .array (by omega) denotes, .behindBlank ?_ laid⟩
          rw [behind, eq_of_beq first]
          rfl
  split at found
  · next first =>
      split at found
      · cases found
      · next below =>
          obtain ⟨⟨members, _⟩, parts, found⟩ := bind_eq_ok found
          cases found
          obtain ⟨ws, denotes, laid⟩ := less.members parts
          obtain ⟨depth, rfl⟩ : ∃ below, depth = below + 1 := ⟨depth - 1, by omega⟩
          refine ⟨['\x7b'] :: ws, .object (by omega) denotes, .behindBlank ?_ laid⟩
          rw [behind, eq_of_beq first]
          rfl
  · cases found

theorem items_succ {items : List Value}
    (found : readItems (fuel + 1) depth first here = .ok (items, after)) :
    ∃ ws, Denotes depth (.items first items) ws ∧ Lays ws here.rest after.rest := by
  unfold readItems at found
  dsimp only at found
  split at found
  · cases found
  next c cs text =>
  have behind : here.skipBlank.rest = c :: here.skipBlank.next.rest := by rw [Cursor.next, text]
  split at found
  · next last =>
      cases found
      refine ⟨[[']']], .noItems, .behindBlank ?_ (.nil _)⟩
      rw [behind, eq_of_beq last]
      rfl
  split at found
  · next isFirst =>
      obtain ⟨⟨v, _⟩, value, found⟩ := bind_eq_ok found
      obtain ⟨⟨items, _⟩, rest, found⟩ := bind_eq_ok found
      cases found
      obtain ⟨ws, item, laid⟩ := less.value value
      obtain ⟨us, later, further⟩ := less.items rest
      refine ⟨ws ++ us, ?_, (laid.of_skipBlank item.ne_nil).append further⟩
      rw [isFirst]
      exact .item item later
  · next notFirst =>
      split at found
      · next isComma =>
          split at found
          · cases found
          · cases found
          · obtain ⟨⟨v, _⟩, value, found⟩ := bind_eq_ok found
            obtain ⟨⟨items, _⟩, rest, found⟩ := bind_eq_ok found
            cases found
            obtain ⟨ws, item, laid⟩ := less.value value
            obtain ⟨us, later, further⟩ := less.items rest
            rw [eq_of_beq isComma] at behind
            refine ⟨[','] :: (ws ++ us), ?_,
              .behindBlank behind ((laid.of_skipBlank item.ne_nil).append further)⟩
            rw [eq_false_of_ne_true notFirst]
            exact .item item later
      · cases found

theorem members_succ (found : readMembers (fuel + 1) depth first here = .ok (members, after)) :
    ∃ ws, Denotes depth (.members first members) ws ∧ Lays ws here.rest after.rest := by
  unfold readMembers at found
  dsimp only at found
  split at found
  · cases found
  next c cs text =>
  have behind : here.skipBlank.rest = c :: here.skipBlank.next.rest := by rw [Cursor.next, text]
  split at found
  · next last =>
      cases found
      refine ⟨[['\x7d']], .noMembers, .behindBlank ?_ (.nil _)⟩
      rw [behind, eq_of_beq last]
      rfl
  split at found
  · next isFirst =>
      split at found
      · next quote =>
          rw [eq_of_beq quote] at text
          obtain ⟨ws, entries, laid⟩ := less.entries (by rw [text]; rfl) found
          refine ⟨ws, ?_, laid.of_skipBlank entries.ne_nil⟩
          rw [isFirst]
          exact .members entries
      · cases found
  · next notFirst =>
      split at found
      · next isComma =>
          split at found
          · cases found
          · next rest text =>
              obtain ⟨ws, entries, laid⟩ := less.entries (by rw [text]; rfl) found
              rw [eq_of_beq isComma] at behind
              refine ⟨[','] :: ws, ?_, .behindBlank behind (laid.of_skipBlank entries.ne_nil)⟩
              rw [eq_false_of_ne_true notFirst]
              exact .members entries
          · cases found
          · cases found
      · cases found

theorem entries_succ (quote : here.rest.head? = some '\x22')
    (found : readMember (fuel + 1) depth here = .ok (members, after)) :
    ∃ ws, Denotes depth (.entries members) ws ∧ Lays ws here.rest after.rest := by
  obtain ⟨rest, text⟩ := head?_eq_some_iff.mp quote
  unfold readMember at found
  obtain ⟨⟨key, behind⟩, string, found⟩ := bind_eq_ok found
  obtain ⟨_, colon, found⟩ := bind_eq_ok found
  obtain ⟨⟨v, _⟩, value, found⟩ := bind_eq_ok found
  obtain ⟨⟨members, _⟩, more, found⟩ := bind_eq_ok found
  cases found
  obtain ⟨quoted, left, inside⟩ := inside_of_readString string
  obtain ⟨ws, item, laid⟩ := less.value value
  obtain ⟨us, later, further⟩ := less.members more
  have whole : here.rest = [] ++ (quotation quoted ++ behind.rest) := by
    simp only [Cursor.next, text] at left
    simp [text, left, quotation]
  refine ⟨_, .entry inside item later, ?_⟩
  rw [whole]
  exact .cons (forall_mem_nil _)
    (.behindBlank (rest_of_readColon colon) (laid.append further))

end ReadsDenoted

/-- What is read with some fuel is denoted by the words that it was read from. -/
theorem denoted_read (fuel : Nat) : ReadsDenoted fuel := by
  induction fuel with
  | zero => exact ⟨by simp [readValue], by simp [readItems], by simp [readMembers],
      by simp [readMember]⟩
  | succ fuel less =>
    exact ⟨less.value_succ, less.items_succ, less.members_succ, less.entries_succ⟩

/-! ## What is denoted is read -/

theorem readWord_append (word rest : List Char) (offset : Nat) :
    ∃ offset', readWord word ⟨word ++ rest, offset⟩ = .ok ⟨rest, offset'⟩ := by
  induction word generalizing offset with
  | nil => exact ⟨offset, rfl⟩
  | cons c word ih =>
    obtain ⟨offset', found⟩ := ih (offset + c.utf8Size)
    refine ⟨offset', ?_⟩
    rw [cons_append, readWord]
    simpa [Cursor.next] using found

def startsValue (c : Char) : Bool :=
  c.isDigit || ['n', 't', 'f', '-', '\x22', '[', '\x7b'].contains c

theorem isBlank_of_startsValue (starts : startsValue c = true) : Cursor.isBlank c = false := by
  rw [← Bool.not_eq_true]
  intro blank
  have none := all_of_isBlank (p := fun c => !startsValue c) (by decide) blank
  rw [starts] at none
  cases none

/-- The first word of a value starts with a character that tells what the value is. -/
theorem Denotes.exists_start (denotes : Denotes depth (.value v) ws) :
    ∃ c word us, ws = (c :: word) :: us ∧ startsValue c = true := by
  cases denotes with
  | literal known =>
    simp only [literals, mem_cons, Prod.mk.injEq, not_mem_nil, or_false] at known
    rcases known with ⟨rfl, _⟩ | ⟨rfl, _⟩ | ⟨rfl, _⟩ <;> exact ⟨_, _, [], rfl, rfl⟩
  | @number _ negative n x value =>
    obtain ⟨c, body, text, digit, _⟩ := n.exists_read
    cases negative with
    | true => exact ⟨'-', n.text, [], rfl, rfl⟩
    | false => exact ⟨c, body, [], by rw [← text]; rfl, by simp [startsValue, digit]⟩
  | string inside => exact ⟨_, _, [], rfl, rfl⟩
  | array below parts | object below parts => exact ⟨_, _, _, rfl, rfl⟩

theorem Denotes.exists_divider (denotes : Denotes depth phrase ws)
    (further : (∃ items, phrase = .items false items) ∨
      ∃ members, phrase = .members false members) :
    ∃ c us, ws = [c] :: us ∧ c ∈ dividers := by
  rcases further with ⟨items, rfl⟩ | ⟨members, rfl⟩
  · cases denotes with
    | noItems => exact ⟨']', [], rfl, by decide⟩
    | item here later => exact ⟨',', _, rfl, by decide⟩
  · cases denotes with
    | noMembers => exact ⟨'\x7d', [], rfl, by decide⟩
    | members here => exact ⟨',', _, rfl, by decide⟩

/-- A text that starts with a divider, or blank space in front of it, is divided from the word
before. -/
theorem Lays.divided (laid : Lays ([c] :: ws) cs rest) (divider : c ∈ dividers) : Divided cs := by
  cases laid with
  | @cons gap _ _ behind _ blank later =>
    cases gap with
    | nil =>
      intro d first
      cases first
      exact divider
    | cons b gap =>
      intro d first
      cases first
      exact mem_dividers_of_isBlank (blank b mem_cons_self)

/-- Skipping blank space leads to the first word. -/
theorem Lays.exists_skipBlank (laid : Lays ((c :: word) :: ws) cs rest)
    (solid : Cursor.isBlank c = false) :
    ∃ mid, Lays ws mid rest ∧ ∀ offset, ∃ offset',
      (Cursor.mk cs offset).skipBlank = ⟨c :: (word ++ mid), offset'⟩ := by
  cases laid with
  | @cons gap _ _ mid _ blank later =>
    exact ⟨mid, later, fun offset => ⟨_, skipBlank_append blank solid _ offset⟩⟩

/-- The words are read as `x` with as much fuel as there are words, if the text behind them is
divided from them. -/
def Takes {α : Type} (read : Nat → Cursor → Except Problem (α × Cursor)) (ws : List (List Char))
    (x : α) : Prop :=
  ∀ fuel, ws.length ≤ fuel → ∀ cs rest, Lays ws cs rest → Divided rest →
    Gives (read fuel) cs x rest

/-- A step that skips the blank space in front of the first word. -/
theorem takes_cons {α : Type} {read : Nat → Cursor → Except Problem (α × Cursor)} {x : α}
    (solid : Cursor.isBlank c = false)
    (step : ∀ fuel mid rest, ws.length ≤ fuel → Lays ws mid rest → Divided rest →
      ∀ here between, here.skipBlank = ⟨c :: (word ++ mid), between⟩ →
        ∃ offset, read (fuel + 1) here = .ok (x, ⟨rest, offset⟩)) :
    Takes read ((c :: word) :: ws) x := by
  intro fuel enough cs rest laid divided offset
  obtain ⟨fuel, rfl⟩ := Nat.exists_eq_add_one_of_ne_zero
    (Nat.ne_of_gt (Nat.lt_of_lt_of_le (Nat.zero_lt_succ _) enough))
  obtain ⟨mid, behind, skips⟩ := laid.exists_skipBlank solid
  obtain ⟨between, skipped⟩ := skips offset
  exact step fuel mid rest (Nat.le_of_succ_le_succ enough) behind divided _ between skipped

/-- The words are read as the phrase. -/
def Phrase.Reads (depth : Nat) (ws : List (List Char)) : Phrase → Prop
  | .value v => Takes (readValue · depth) ws v
  | .items first vs => Takes (readItems · depth first) ws vs
  | .members first ms => Takes (readMembers · depth first) ws ms
  | .entries ms => ∀ fuel, ws.length ≤ fuel + 1 → ∀ cs rest, Lays ws cs rest →
      Divided rest → cs.head? = some '\x22' → Gives (readMember fuel depth) cs ms rest

theorem reads_literal (known : (word, v) ∈ literals) : (Phrase.value v).Reads depth [word] := by
  simp only [literals, mem_cons, Prod.mk.injEq, not_mem_nil, or_false] at known
  rcases known with ⟨rfl, rfl⟩ | ⟨rfl, rfl⟩ | ⟨rfl, rfl⟩
  all_goals
    refine takes_cons rfl fun fuel rest _ _ behind _ here between skipped => ?_
    cases behind
    rw [readValue]
    simp only [skipped, Char.reduceBEq, Bool.false_eq_true, if_false, if_true, Cursor.next]
  · obtain ⟨offset', found⟩ := readWord_append ['u', 'l', 'l'] rest (between + 'n'.utf8Size)
    exact ⟨offset', by rw [found]; rfl⟩
  · obtain ⟨offset', found⟩ := readWord_append ['r', 'u', 'e'] rest (between + 't'.utf8Size)
    exact ⟨offset', by rw [found]; rfl⟩
  · obtain ⟨offset', found⟩ := readWord_append ['a', 'l', 's', 'e'] rest (between + 'f'.utf8Size)
    exact ⟨offset', by rw [found]; rfl⟩

theorem reads_number {negative : Bool} {n : Numeral} {x : Number}
    (value : n.value? negative = some x) :
    (Phrase.value (.number x)).Reads depth [signed negative n] := by
  obtain ⟨c, body, text, digit, _⟩ := n.exists_read
  cases negative with
  | true =>
    refine takes_cons rfl fun fuel mid rest _ behind divided here between skipped => ?_
    cases behind
    obtain ⟨offset', found⟩ := gives_readNumber value divided (between + '-'.utf8Size)
    refine ⟨offset', ?_⟩
    rw [readValue]
    simp only [skipped, Char.reduceBEq, Bool.false_eq_true, if_false, if_true, Cursor.next, found]
    rfl
  | false =>
    have word : signed false n = c :: body := text
    rw [word]
    refine takes_cons (isBlank_of_startsValue (by simp [startsValue, digit]))
      fun fuel mid rest _ behind divided here between skipped => ?_
    cases behind
    obtain ⟨offset', found⟩ := gives_readNumber value divided between
    rw [text, cons_append] at found
    have other {d : Char} (noDigit : d.isDigit = false) : (c == d) = false := by
      rw [beq_eq_false_iff_ne]
      rintro rfl
      rw [digit] at noDigit
      cases noDigit
    refine ⟨offset', ?_⟩
    rw [readValue]
    simp only [skipped, other (d := 'n') rfl, other (d := 't') rfl, other (d := 'f') rfl,
      other (d := '-') rfl, digit, Bool.false_eq_true, if_false, if_true, found]
    rfl

theorem reads_string {s : String} (inside : Inside text s.toList) :
    (Phrase.value (.string s)).Reads depth [quotation text] := by
  refine takes_cons rfl fun fuel rest _ _ behind _ here between skipped => ?_
  cases behind
  obtain ⟨offset', found⟩ := gives_readString_of_inside inside rest (between + '\x22'.utf8Size)
  refine ⟨offset', ?_⟩
  rw [readValue]
  simp only [skipped, Char.reduceBEq, Bool.false_eq_true, if_false, if_true, Cursor.next,
    append_assoc, singleton_append, found, (by decide : Char.isDigit '\x22' = false)]
  rfl

theorem reads_array (below : 0 < depth) (parts : (Phrase.items true items).Reads depth ws) :
    (Phrase.value (.array items)).Reads (depth + 1) (['['] :: ws) := by
  refine takes_cons rfl fun fuel mid rest enough behind divided here between skipped => ?_
  obtain ⟨offset', found⟩ := parts fuel enough mid rest behind divided (between + '['.utf8Size)
  refine ⟨offset', ?_⟩
  rw [readValue]
  simp only [skipped, Char.reduceBEq, Bool.false_eq_true, if_false, if_true, Cursor.next,
    nil_append, (by decide : Char.isDigit '[' = false), if_neg (show ¬depth + 1 ≤ 1 by omega),
    Nat.add_sub_cancel, found]
  rfl

theorem reads_object (below : 0 < depth) (parts : (Phrase.members true members).Reads depth ws) :
    (Phrase.value (.ofMembers members)).Reads (depth + 1) (['\x7b'] :: ws) := by
  refine takes_cons rfl fun fuel mid rest enough behind divided here between skipped => ?_
  obtain ⟨offset', found⟩ := parts fuel enough mid rest behind divided (between + '\x7b'.utf8Size)
  refine ⟨offset', ?_⟩
  rw [readValue]
  simp only [skipped, Char.reduceBEq, Bool.false_eq_true, if_false, if_true, Cursor.next,
    nil_append, (by decide : Char.isDigit '\x7b' = false),
    if_neg (show ¬depth + 1 ≤ 1 by omega), Nat.add_sub_cancel, found]
  rfl

theorem reads_noItems : (Phrase.items first []).Reads depth [[']']] := by
  refine takes_cons rfl fun fuel rest _ _ behind _ here between skipped => ?_
  cases behind
  refine ⟨between + ']'.utf8Size, ?_⟩
  rw [readItems]
  simp only [skipped, Char.reduceBEq, if_true, Cursor.next, nil_append]

theorem reads_item {ws us : List (List Char)} (value : Denotes depth (.value v) ws)
    (later : Denotes depth (.items false items) us) (here : (Phrase.value v).Reads depth ws)
    (further : (Phrase.items false items).Reads depth us) :
    (Phrase.items first (v :: items)).Reads depth (comma first ++ (ws ++ us)) := by
  intro fuel enough cs rest laid divided offset
  beta_reduce
  obtain ⟨c, word, vs, rfl, starts⟩ := value.exists_start
  obtain ⟨d, ds, rfl, divider⟩ := later.exists_divider (.inl ⟨items, rfl⟩)
  obtain ⟨fuel, rfl⟩ : ∃ less, fuel = less + 1 := ⟨fuel - 1, by simp at enough; omega⟩
  have solid := isBlank_of_startsValue starts
  have noEnd : (c == ']') = false := by
    rw [beq_eq_false_iff_ne]
    rintro rfl
    cases starts
  -- Behind the comma and the blank space the value is read, and then the further items.
  have reads {text : List Char} (laid : Lays ((c :: word) :: vs ++ [d] :: ds) text rest) :
      ∃ front mid,
        (∀ offset, ∃ offset', (Cursor.mk text offset).skipBlank = ⟨c :: front, offset'⟩) ∧
        Gives (readValue fuel depth) (c :: front) v mid ∧
        Gives (readItems fuel depth false) mid items rest := by
    obtain ⟨front, behind, skips⟩ := laid.exists_skipBlank solid
    have close : Lays ((c :: word) :: vs ++ [d] :: ds) ([] ++ (c :: word ++ front)) rest :=
      .cons (forall_mem_nil _) behind
    obtain ⟨mid, value, more⟩ := close.exists_of_append
    refine ⟨word ++ front, mid, skips, here fuel ?_ _ mid value (more.divided divider),
      further fuel ?_ mid rest more divided⟩
    · simp at enough ⊢
      omega
    · simp at enough ⊢
      omega
  cases first with
  | true =>
    obtain ⟨front, mid, skips, valueRead, itemsRead⟩ := reads laid
    obtain ⟨between, skipped⟩ := skips offset
    obtain ⟨o, first⟩ := valueRead between
    obtain ⟨offset', second⟩ := itemsRead o
    refine ⟨offset', ?_⟩
    rw [readItems]
    simp only [skipped, noEnd, Bool.false_eq_true, if_false, if_true, first, second, bind,
      Except.bind]
    rfl
  | false =>
    have word : Lays ([','] :: ((c :: word) :: vs ++ [d] :: ds)) cs rest := laid
    obtain ⟨text, behind, toComma⟩ := word.exists_skipBlank rfl
    obtain ⟨front, mid, skips, valueRead, itemsRead⟩ := reads behind
    obtain ⟨atComma, comma⟩ := toComma offset
    obtain ⟨between, skipped⟩ := skips (atComma + ','.utf8Size)
    obtain ⟨o, first⟩ := valueRead between
    obtain ⟨offset', second⟩ := itemsRead o
    refine ⟨offset', ?_⟩
    rw [readItems]
    simp only [comma, Char.reduceBEq, Bool.false_eq_true, if_false, if_true, Cursor.next,
      nil_append, skipped]
    split
    · next same => cases same
    · next same =>
        cases same
        cases noEnd
    · simp only [first, second, bind, Except.bind]
      rfl

theorem reads_noMembers : (Phrase.members first []).Reads depth [['\x7d']] := by
  refine takes_cons rfl fun fuel rest _ _ behind _ here between skipped => ?_
  cases behind
  refine ⟨between + '\x7d'.utf8Size, ?_⟩
  rw [readMembers]
  simp only [skipped, Char.reduceBEq, if_true, Cursor.next, nil_append]

theorem reads_members (entries : Denotes depth (.entries members) ws)
    (here : (Phrase.entries members).Reads depth ws) :
    (Phrase.members first members).Reads depth (comma first ++ ws) := by
  intro fuel enough cs rest laid divided offset
  beta_reduce
  cases entries with
  | @entry _ text key v members vs us inside value later =>
    obtain ⟨fuel, rfl⟩ : ∃ less, fuel = less + 1 := ⟨fuel - 1, by simp at enough; omega⟩
    have reads {cs : List Char} (laid : Lays (quotation text :: [':'] :: (vs ++ us)) cs rest) :
        ∃ front,
          (∀ offset, ∃ offset', (Cursor.mk cs offset).skipBlank = ⟨'\x22' :: front, offset'⟩) ∧
          Gives (readMember fuel depth) ('\x22' :: front) ((key, v) :: members) rest := by
      obtain ⟨front, behind, skips⟩ := laid.exists_skipBlank rfl
      have close : Lays (quotation text :: [':'] :: (vs ++ us))
          ([] ++ (quotation text ++ front)) rest := .cons (forall_mem_nil _) behind
      exact ⟨_, skips, here fuel (by simp at enough ⊢; omega) _ rest close divided rfl⟩
    cases first with
    | true =>
      obtain ⟨front, skips, entriesRead⟩ := reads laid
      obtain ⟨between, skipped⟩ := skips offset
      obtain ⟨offset', found⟩ := entriesRead between
      refine ⟨offset', ?_⟩
      rw [readMembers]
      simp only [skipped, Char.reduceBEq, Bool.false_eq_true, if_false, if_true, found]
    | false =>
      have word : Lays ([','] :: (quotation text :: [':'] :: (vs ++ us))) cs rest := laid
      obtain ⟨text, behind, toComma⟩ := word.exists_skipBlank rfl
      obtain ⟨front, skips, entriesRead⟩ := reads behind
      obtain ⟨atComma, comma⟩ := toComma offset
      obtain ⟨between, skipped⟩ := skips (atComma + ','.utf8Size)
      obtain ⟨offset', found⟩ := entriesRead between
      refine ⟨offset', ?_⟩
      rw [readMembers]
      simp only [comma, Char.reduceBEq, Bool.false_eq_true, if_false, if_true, Cursor.next,
        nil_append, skipped, found]

theorem reads_entry {key : String} {ws us : List (List Char)} (inside : Inside text key.toList)
    (later : Denotes depth (.members false members) us) (here : (Phrase.value v).Reads depth ws)
    (further : (Phrase.members false members).Reads depth us) :
    (Phrase.entries ((key, v) :: members)).Reads depth
      (quotation text :: [':'] :: (ws ++ us)) := by
  intro fuel enough cs rest laid divided quote offset
  obtain ⟨d, ds, rfl, divider⟩ := later.exists_divider (.inr ⟨members, rfl⟩)
  obtain ⟨fuel, rfl⟩ : ∃ less, fuel = less + 1 := ⟨fuel - 1, by simp at enough; omega⟩
  cases laid with
  | @cons gap _ _ behind _ blank laid =>
    -- There is no blank space in front of a quote that comes first.
    obtain rfl : gap = [] := by
      cases gap with
      | nil => rfl
      | cons b gap =>
        cases quote
        cases blank _ mem_cons_self
    obtain ⟨value, laid, toColon⟩ := laid.exists_skipBlank rfl
    obtain ⟨mid, front, more⟩ := laid.exists_of_append
    obtain ⟨o, key⟩ := gives_readString_of_inside inside behind (offset + '\x22'.utf8Size)
    obtain ⟨atColon, colon⟩ := toColon o
    obtain ⟨p, first⟩ := here fuel (by simp at enough; omega) value mid front
      (more.divided divider) (atColon + ':'.utf8Size)
    obtain ⟨offset', second⟩ := further fuel (by simp at enough ⊢; omega) mid rest more divided p
    refine ⟨offset', ?_⟩
    rw [readMember]
    simp only [quotation, nil_append, cons_append, append_assoc, Cursor.next, key,
      bind, Except.bind, readColon, colon, beq_self_eq_true, if_true, first, second]
    rfl

/-- What is denoted is read with as much fuel as there are words. -/
theorem Denotes.reads (denotes : Denotes depth phrase ws) :
    phrase.Reads depth ws := by
  induction denotes with
  | literal known => exact reads_literal known
  | number value => exact reads_number value
  | string inside => exact reads_string inside
  | array below _ parts => exact reads_array below parts
  | object below _ parts => exact reads_object below parts
  | noItems => exact reads_noItems
  | item value later here further => exact reads_item value later here further
  | noMembers => exact reads_noMembers
  | members entries here => exact reads_members entries here
  | entry inside _ later here further => exact reads_entry inside later here further

/-! ## Documents -/

/-- A text that neither starts nor ends with a blank character. -/
def Solid (text : List Char) : Prop :=
  (∃ c ∈ text.head?, Text.isBlank c = false) ∧ ∃ c ∈ text.getLast?, Text.isBlank c = false

instance (text : List Char) : Decidable (Solid text) :=
  decidable_of_iff (text.head?.any (!Text.isBlank ·) && text.getLast?.any (!Text.isBlank ·)) <| by
    simp [Solid, Option.any_eq_true]

theorem noBlank_of_isDigit (digit : c.isDigit = true) : Text.isBlank c = false :=
  (Bool.or_eq_false_iff.mp (noSpace_of_isDigit digit)).1

theorem Digits.exists_getLast? (front : List Char) (ds : Digits) :
    ∃ c ∈ (front ++ ds.chars).getLast?, c.isDigit = true := by
  refine ⟨ds.chars.getLast ds.present, ?_, ds.all _ (getLast_mem ds.present)⟩
  rw [getLast?_append, getLast?_eq_some_getLast ds.present]
  rfl

theorem Numeral.exists_getLast? (n : Numeral) : ∃ c ∈ n.text.getLast?, c.isDigit = true := by
  obtain ⟨whole, noZeros, fraction, exponent⟩ := n
  cases exponent with
  | some e =>
    have last := e.digits.exists_getLast?
      (whole.chars ++ (fraction.elim [] fun ds => '.' :: ds.chars) ++ e.mark :: e.sign)
    rwa [append_assoc] at last
  | none =>
    cases fraction with
    | some ds =>
      have last := ds.exists_getLast? (whole.chars ++ ['.'])
      rwa [append_assoc, singleton_append, ← append_nil (whole.chars ++ _)]
        at last
    | none =>
      have last := whole.exists_getLast? []
      rwa [nil_append, ← append_nil whole.chars, ← append_nil (_ ++ [])] at last

theorem solid_signed (negative : Bool) (n : Numeral) : Solid (signed negative n) := by
  obtain ⟨c, body, text, digit, _⟩ := n.exists_read
  obtain ⟨last, ends, lastDigit⟩ := n.exists_getLast?
  cases negative with
  | false =>
    exact ⟨⟨c, by simp [signed, text], noBlank_of_isDigit digit⟩,
      ⟨last, ends, noBlank_of_isDigit lastDigit⟩⟩
  | true =>
    refine ⟨⟨'-', rfl, by decide⟩, ⟨last, ?_, noBlank_of_isDigit lastDigit⟩⟩
    simp [signed, getLast?_cons, Option.mem_def.mp ends]

theorem solid_quotation (text : List Char) : Solid (quotation text) :=
  ⟨⟨'\x22', rfl, by decide⟩, ⟨'\x22', by simp [quotation, getLast?_cons], by decide⟩⟩

/-- Words neither start nor end with blank space. -/
theorem Denotes.solid (denotes : Denotes depth phrase ws) :
    ∀ word ∈ ws, Solid word := by
  have isComma (first : Bool) : ∀ word ∈ comma first, Solid word := by
    cases first <;> decide
  induction denotes with
  | literal known =>
    have each : ∀ known ∈ literals, Solid known.1 := by decide
    exact forall_mem_singleton.mpr (each _ known)
  | number value => exact forall_mem_singleton.mpr (solid_signed _ _)
  | string inside => exact forall_mem_singleton.mpr (solid_quotation _)
  | array _ _ ih | object _ _ ih => exact forall_mem_cons.mpr ⟨by decide, ih⟩
  | noItems | noMembers => decide
  | item _ _ here later =>
    exact forall_mem_append.mpr ⟨isComma _, forall_mem_append.mpr ⟨here, later⟩⟩
  | members _ ih => exact forall_mem_append.mpr ⟨isComma _, ih⟩
  | entry _ _ _ here later =>
    exact forall_mem_cons.mpr ⟨solid_quotation _, forall_mem_cons.mpr
      ⟨by decide, forall_mem_append.mpr ⟨here, later⟩⟩⟩

/-- There are no more words than characters, so the fuel is enough. -/
theorem Lays.length_le (laid : Lays ws cs rest) (solid : ∀ word ∈ ws, Solid word) :
    ws.length ≤ cs.length := by
  induction laid with
  | nil => exact Nat.zero_le _
  | @cons gap word words cs rest blank _ ih =>
    obtain ⟨⟨c, first, _⟩, later⟩ := forall_mem_cons.mp solid |>.imp And.left id
    have := ih later
    obtain ⟨more, rfl⟩ := head?_eq_some_iff.mp first
    simp
    omega

theorem divided_of_blank {rest : List Char} (blank : ∀ c ∈ rest, Cursor.isBlank c = true) :
    Divided rest :=
  fun c first => mem_dividers_of_isBlank (blank c (mem_of_mem_head? first))

theorem parse_eq_ok_iff {source : String} :
    parse source = .ok v ↔ ∃ ws rest, Denotes depthLimit (.value v) ws ∧
      Lays ws source.toList rest ∧ ∀ c ∈ rest, Cursor.isBlank c = true := by
  constructor
  · intro parsed
    unfold parse at parsed
    obtain ⟨⟨v, after⟩, found, parsed⟩ := bind_eq_ok parsed
    dsimp only at parsed
    split at parsed
    · next blank =>
        cases parsed
        obtain ⟨ws, denotes, laid⟩ := (denoted_read _).value found
        refine ⟨ws, after.rest, denotes, laid, ?_⟩
        exact dropWhile_eq_nil_iff.mp (List.isEmpty_iff.mp blank)
    · cases parsed
  · rintro ⟨ws, rest, denotes, laid, blank⟩
    have enough : ws.length ≤ 3 * source.length + 3 := by
      have := laid.length_le denotes.solid
      rw [String.length_toList] at this
      omega
    obtain ⟨offset, found⟩ := denotes.reads _ enough _ _ laid (divided_of_blank blank) 0
    have ended : (Cursor.mk rest offset).skipBlank.rest.isEmpty = true :=
      List.isEmpty_iff.mpr (dropWhile_eq_nil_iff.mpr blank)
    unfold parse
    simp only [found, bind, Except.bind, ended, if_true]
    rfl

end Tarkib.Json
