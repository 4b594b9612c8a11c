import Tarkib.Proofs.Text.LineFeeds
import Tarkib.Proofs.Token.Read

/-!
# The tokens of a source

All that can reach over several lines are literals, comments, blank space and what is never closed.
-/

namespace Tarkib.Token

open Tarkib.Text

variable {start : Nat} {tokens : List Token} {cs : List Char} {kind : Kind}

/-! ## Places -/

/-- The tokens stand one behind the other, the first of them at the given offset, and none of them
is empty. -/
def Placed : Nat → List Token → Prop
  | _, [] => True
  | start, t :: ts => t.start = start ∧ t.text ≠ "" ∧ Placed t.stop ts

/-- The tokens of a source stand one behind the other. -/
theorem placed_scanFrom (operand : Bool) (start : Nat) (cs : List Char) :
    Placed start (scanFrom operand start cs) := by
  fun_induction scanFrom operand start cs with
  | case1 => trivial
  | case2 operand start c cs reading token operand' ih =>
    refine ⟨rfl, ?_, ih⟩
    simp [token]

theorem placed_scan (source : String) : Placed 0 (scan source) :=
  placed_scanFrom true 0 source.toList

theorem start_lt_stop {t : Token} (some : t.text ≠ "") : t.start < t.stop := by
  have := mt String.utf8ByteSize_eq_zero_iff.mp some
  unfold stop
  omega

theorem Placed.le_start (placed : Placed start tokens) : ∀ t ∈ tokens, start ≤ t.start := by
  induction tokens generalizing start with
  | nil => simp
  | cons t ts ih =>
    obtain ⟨here, some, rest⟩ := placed
    have := start_lt_stop some
    intro u member
    rcases List.mem_cons.mp member with rfl | member
    · omega
    · have := ih rest u member
      omega

theorem Placed.pairwise (placed : Placed start tokens) :
    tokens.Pairwise fun t u => t.start < u.start := by
  induction tokens generalizing start with
  | nil => exact List.Pairwise.nil
  | cons t ts ih =>
    obtain ⟨_, some, rest⟩ := placed
    refine List.pairwise_cons.mpr ⟨fun u member => ?_, ih rest⟩
    exact Nat.lt_of_lt_of_le (start_lt_stop some) (rest.le_start u member)

/-- So no two of them are equal. -/
theorem nodup_significant_scan (source : String) : (significant (scan source)).Nodup := by
  have pairwise := (placed_scan source).pairwise.filter isSignificant
  refine pairwise.imp fun {t u} before same => ?_
  rw [same] at before
  exact Nat.lt_irrefl _ before

/-! ## Plain words

Names, operators and characters that start nothing are what their text spells. -/

def Kind.isPlain : Kind → Bool
  | .identifier _ | .punct _ | .stray _ => true
  | _ => false

theorem Kind.isPlain_of_unreadable (unreadable : kind.isReadable = false) :
    kind.isPlain = false := by
  cases kind with
  | identifier | punct | stray => cases unreadable
  | _ => rfl

/-- The kind of what is read from a character and those taken behind it, with its spelling if it is
plain. -/
inductive Spelling (c : Char) (taken : List Char) : Kind → Prop where
  | name (noSpace : isSpace c = false) (parts : ∀ d ∈ taken, isIdentifierPart d = true) :
      Spelling c taken (.identifier (String.ofList (c :: taken)))
  | operator (noSpace : isSpace c = false)
      (known : taken = [] ∨ String.ofList (c :: taken) ∈ operators) :
      Spelling c taken (.punct (String.ofList (c :: taken)))
  | stray (noSpace : isSpace c = false) (alone : taken = []) : Spelling c taken (.stray c)
  | other {kind : Kind} (notPlain : kind.isPlain = false) : Spelling c taken kind

/-- Names, operators and characters that start nothing are what their text spells. -/
theorem spelling_read (operand : Bool) (c : Char) (cs : List Char) :
    Spelling c (cs.take (read operand c cs).size) (read operand c cs).value := by
  cases opening operand c cs with
  | blank space =>
    refine .other ?_
    simp [read, space, Kind.isPlain]
  | comment slash opens =>
    subst slash
    exact .other (Kind.isPlain_of_unreadable (isReadable_read_comment opens))
  | regex slash operand apart =>
    subst slash operand
    refine .other ?_
    rw [read_regex apart.1 apart.2]
    cases closed : (readRegex false cs).value <;> simp [closed, Kind.isPlain]
  | string quote =>
    refine .other ?_
    rw [read_string quote]
    cases closed : (readString c cs).value <;> simp [closed, Kind.ofString, Kind.isPlain]
  | template mark =>
    subst mark
    refine .other ?_
    rw [read_template]
    cases closed : (readTemplate .text [] cs).value <;>
      simp [closed, Kind.ofTemplate, Kind.isPlain]
  | number noSpace digit =>
    rw [read_number noSpace digit]
    exact .other rfl
  | identifier noSpace noDigit start =>
    rw [read_identifier noSpace noDigit start, take_length_takeWhile]
    exact .name noSpace fun d member => List.mem_takeWhile_imp member
  | punct opens punct slash point =>
    have spec := readPunct_spec c cs
    rw [read_punct opens punct slash point, spec.value]
    refine .operator opens.noSpace (spec.operator.imp_left fun none => ?_)
    rw [none, List.take_zero]
  | stray opens noPunct =>
    rw [read_stray opens noPunct]
    exact .stray opens.noSpace List.take_zero

/-! ## Tokens on one line -/

/-- The text of a name, an operator or a character that starts nothing has no line feed, nor has the
name. -/
def StaysOnLine (kind : Kind) (text : String) : Prop :=
  match kind with
  | .identifier name => lineFeedCount text = 0 ∧ lineFeedCount name = 0
  | .punct _ | .stray _ => lineFeedCount text = 0
  | _ => True

theorem lineFeedCount_of_mem_operators : ∀ op ∈ operators, lineFeedCount op = 0 := by
  decide

theorem lineFeedCount_ofList_cons {c : Char} (noSpace : isSpace c = false) (rest : '\n' ∉ cs) :
    lineFeedCount (String.ofList (c :: cs)) = 0 := by
  have noFeed : '\n' ≠ c := by
    rintro rfl
    exact absurd noSpace (by decide)
  rw [lineFeedCount_eq_zero_iff, String.toList_ofList, List.mem_cons]
  exact fun h => h.elim noFeed rest

theorem Spelling.staysOnLine {c : Char} {taken : List Char} (spelling : Spelling c taken kind) :
    StaysOnLine kind (String.ofList (c :: taken)) := by
  cases spelling with
  | name noSpace parts =>
    have feed : isIdentifierPart '\n' = false := by decide +kernel
    have rest : '\n' ∉ taken := by
      intro member
      rw [parts _ member] at feed
      cases feed
    exact ⟨lineFeedCount_ofList_cons noSpace rest, lineFeedCount_ofList_cons noSpace rest⟩
  | operator noSpace known =>
    rcases known with rfl | member
    · exact lineFeedCount_ofList_cons noSpace (by simp)
    · exact lineFeedCount_of_mem_operators _ member
  | stray noSpace alone =>
    subst alone
    exact lineFeedCount_ofList_cons noSpace (by simp)
  | other notPlain =>
    cases kind with
    | identifier | punct | stray => cases notPlain
    | _ => trivial

/-- Such tokens stay on one line. -/
theorem staysOnLine_of_mem_scanFrom {operand : Bool} :
    ∀ t ∈ scanFrom operand start cs, StaysOnLine t.kind t.text := by
  fun_induction scanFrom operand start cs with
  | case1 => simp
  | case2 operand start c cs reading token operand' ih =>
    intro t member
    rcases List.mem_cons.mp member with rfl | member
    · exact (spelling_read operand c cs).staysOnLine
    · exact ih t member

end Tarkib.Token
