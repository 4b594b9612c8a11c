import Tarkib.Proofs.Compile.Binding
import Tarkib.Proofs.Compile.Translation

/-!
# Names that an exported declaration exports

The names of an exported declaration of variables are read off its words in one pass. Outside
brackets a name is taken at the start and behind each comma, and a line break ends the declaration
unless a comma or an equals sign stands on one of its sides.

**What is taken.** A name that is a target is taken. In the place of a pattern the first name of its
value outside brackets is taken, if there is one (`Declarator.taken`). If a line ends behind a name
that was taken, nothing of the declarators that follow is read (`Declarator.isBroken`).
-/

namespace Tarkib.Compile

open Tarkib.Token Export Tarkib.Compile.Bracket List

variable {names others : List String} {ls : List Lexeme} {d : Declaration}

/-! ## Words inside brackets -/

theorem contains_opening (s : String) :
    ["(", "[", "\x7b"].contains s = (openedBy? (.punct s)).isSome := by
  rw [Bool.eq_iff_iff]
  simp [openedBy?, find?_isSome, Bracket.opening]

theorem contains_closing (s : String) :
    [")", "]", "\x7d"].contains s = (closedBy? (.punct s)).isSome := by
  rw [Bool.eq_iff_iff]
  simp [closedBy?, find?_isSome, Bracket.closing]

section Effect

variable {t : Token} {b : Bracket} (depth : Nat) (expecting : Bool)

theorem effect_opening (opens : t.kind = .punct b.opening) :
    effect depth expecting t = .go none (depth + 1) expecting := by
  rw [effect, opens]
  simp only [contains_opening, openedBy?_opening]
  rfl

theorem effect_closing (closes : t.kind = .punct b.closing) :
    effect (depth + 1) expecting t = .go none depth expecting := by
  rw [effect, closes]
  simp only [contains_opening, contains_closing, openedBy?_closing, closedBy?_closing]
  rfl

theorem effect_inside (plain : isPlain t.kind = true) :
    effect (depth + 1) expecting t = .go none (depth + 1) expecting := by
  unfold effect
  split
  · simp
  · next kind =>
      obtain ⟨opens, closes⟩ := isPlain_iff.mp (kind ▸ plain)
      simp only [contains_opening, contains_closing, opens, closes]
      simp
  · rfl

theorem effect_word (plain : isPlain t.kind = true)
    (inner : t.kind ≠ .punct "," ∧ t.kind ≠ .punct ";") :
    effect 0 expecting t =
      .go (if expecting then t.name? else none) 0 (expecting && t.name?.isNone) := by
  unfold effect
  split
  · next kind => cases expecting <;> simp [name?, kind]
  · next symbol kind =>
      obtain ⟨opens, closes⟩ := isPlain_iff.mp (kind ▸ plain)
      have noComma : symbol ≠ "," := fun same => inner.1 (by rw [kind, same])
      have noStop : symbol ≠ ";" := fun same => inner.2 (by rw [kind, same])
      simp only [contains_opening, contains_closing, opens, closes]
      simp [noComma, noStop, name?, kind]
  · next noName noPunct =>
      have none : t.name? = none := by
        unfold name?
        split
        · next name kind => exact absurd kind (noName name)
        · rfl
      simp [none]

end Effect

/-- Between brackets nothing is taken. -/
theorem declaredNames_inside (depth : Nat) (expecting : Bool) {stack stack' : List Bracket}
    (closed : openAfter stack (ls.map fun l => l.token.kind) = some stack') (rest : List Lexeme) :
    declaredNames (stack.length + depth + 1) expecting (ls ++ rest) =
      declaredNames (stack'.length + depth + 1) expecting rest := by
  induction ls generalizing stack with
  | nil =>
    obtain rfl : stack = stack' := Option.some.inj closed
    rfl
  | cons l ls ih =>
    rw [map_cons] at closed
    rw [cons_append, declaredNames]
    cases opens : openedBy? l.token.kind with
    | some b =>
      have kind := eq_of_openedBy? opens
      rw [kind, openAfter_opening] at closed
      have later := ih closed
      rw [length_cons, Nat.add_right_comm stack.length 1] at later
      rw [effect_opening _ _ kind]
      simpa using later
    | none =>
      cases closes : closedBy? l.token.kind with
      | some b =>
        have kind := eq_of_closedBy? closes
        rw [kind] at closed
        obtain ⟨stack, rfl, later⟩ := exists_of_openAfter_closing closed
        rw [effect_closing _ _ kind, length_cons, Nat.add_right_comm stack.length 1]
        simpa using ih later
      | none =>
        have plain := isPlain_iff.mpr ⟨opens, closes⟩
        rw [openAfter_plain _ _ plain] at closed
        rw [effect_inside _ _ plain]
        simpa using ih closed

/-! ## Phrases -/

theorem declaredNames_phrase (p : Phrase) (expecting : Bool) (rest : List Lexeme) :
    declaredNames 0 expecting (p.lexemes ++ rest) =
      (if expecting then p.name? else none).toList ++
        if !(expecting && p.name?.isNone) && endsAfter p.last.token rest then []
        else declaredNames 0 (expecting && p.name?.isNone) rest := by
  cases p with
  | word l plain inner =>
    simp only [Phrase.lexemes, Phrase.name?, Phrase.last, singleton_append]
    rw [declaredNames, effect_word _ plain inner]
    simp
  | group b opening closing inside opens closes balanced =>
    have skipped := declaredNames_inside 0 expecting (balanced.openAfter_eq []) (closing :: rest)
    simp only [length_nil, Nat.zero_add] at skipped
    simp only [Phrase.lexemes, Phrase.name?, Phrase.last, cons_append, append_assoc]
    rw [declaredNames, effect_opening _ _ opens]
    simp only [Nat.zero_add, Nat.add_one_ne_zero, decide_false, Bool.false_and,
      Bool.false_eq_true, if_false, Option.toList_none, nil_append, skipped]
    rw [declaredNames, effect_closing _ _ closes]
    simp

/-- A line break between two of the phrases ends the declaration. -/
def breaks : List Phrase → Bool
  | p :: q :: ps => endsBetween p.last.token q.first || breaks (q :: ps)
  | _ => false

/-- The phrases from the first name outside brackets on. -/
def chain (ps : List Phrase) : List Phrase :=
  ps.dropWhile (·.name?.isNone)

theorem chain_cons (p : Phrase) (ps : List Phrase) :
    chain (p :: ps) = if p.name?.isNone then chain ps else p :: ps :=
  dropWhile_cons

theorem endsAfter_lexemes (t : Token) (p : Phrase) (rest : List Lexeme) :
    endsAfter t (p.lexemes ++ rest) = endsBetween t p.first := by
  obtain ⟨more, spelled⟩ := p.lexemes_eq_cons
  rw [spelled]
  rfl

/-- What follows a declarator: reading goes on in the same way whether a name is due or not, and if
the end of a line in front of it ends the declaration, nothing is read there anyway. -/
structure Follows (sep : Lexeme) (rest : List Lexeme) (names : List String) : Prop where
  read : ∀ expecting, declaredNames 0 expecting (sep :: rest) = names
  ends : ∀ t, endsBetween t sep = true → names = []

theorem follows_comma {comma : Lexeme} (divides : comma.token.kind = .punct ",")
    (rest : List Lexeme) : Follows comma rest (declaredNames 0 true rest) where
  read expecting := by
    rw [declaredNames, effect, divides]
    simp
  ends t broken := by
    simp [endsBetween, isPunct, divides] at broken

theorem follows_stop {stop : Lexeme} (ends : stop.token.kind = .punct ";")
    (rest : List Lexeme) : Follows stop rest [] where
  read expecting := by
    rw [declaredNames, effect, ends]
    simp
  ends _ _ := rfl

section Follows

variable {sep : Lexeme} {rest : List Lexeme} (follows : Follows sep rest names)
include follows

theorem declaredNames_taken (p : Phrase) (ps : List Phrase) :
    declaredNames 0 false (flatten (p :: ps) ++ sep :: rest) =
      if breaks (p :: ps) then [] else names := by
  induction ps generalizing p with
  | nil =>
    rw [flatten_cons, flatten_nil, append_nil, declaredNames_phrase, Bool.false_and, follows.read]
    cases broken : endsBetween p.last.token sep with
    | true => simp [endsAfter, broken, breaks, follows.ends _ broken]
    | false => simp [endsAfter, broken, breaks]
  | cons q ps ih =>
    rw [flatten_cons, append_assoc, declaredNames_phrase, Bool.false_and, ih, flatten_cons,
      append_assoc, endsAfter_lexemes]
    cases broken : endsBetween p.last.token q.first <;> simp [broken, breaks]

theorem declaredNames_phrases (ps : List Phrase) :
    declaredNames 0 true (flatten ps ++ sep :: rest) =
      ((chain ps).head?.bind Phrase.name?).toList ++
        if breaks (chain ps) then [] else names := by
  induction ps with
  | nil => simp [chain, breaks, follows.read]
  | cons p ps ih =>
    cases named : p.name? with
    | none =>
      rw [flatten_cons, append_assoc, declaredNames_phrase, chain_cons, named]
      exact ih
    | some name =>
      -- Behind the name the text is read as if none had been due in front of it.
      have behind := declaredNames_taken follows p ps
      rw [flatten_cons, append_assoc, declaredNames_phrase, named] at behind ⊢
      have here : chain (p :: ps) = p :: ps := by rw [chain_cons, named]; rfl
      rw [here, ← behind, head?_cons, Option.bind_some, named]
      rfl

end Follows

/-! ## Declarations -/

namespace Declarator

/-- The name that is taken for a declarator. -/
def taken (d : Declarator) : List String :=
  ((chain d.phrases).head?.bind Phrase.name?).toList

/-- A line break behind the name that is taken ends the declaration. -/
def isBroken (d : Declarator) : Bool :=
  breaks (chain d.phrases)

end Declarator

namespace Declaration

/-- The names that are read off a declaration. -/
def exported : Declaration → List String
  | last d _ _ => d.taken
  | more d _ _ rest => d.taken ++ if d.isBroken then [] else rest.exported

/-- The names that are read are those of `Declaration.exported`. -/
theorem declaredNames_lexemes (d : Declaration) : declaredNames 0 true d.lexemes = d.exported := by
  induction d with
  | last d stop ends =>
    rw [lexemes, Declarator.lexemes, declaredNames_phrases (follows_stop ends []), ite_self,
      append_nil]
    rfl
  | more d comma divides rest ih =>
    rw [lexemes, Declarator.lexemes, declaredNames_phrases (follows_comma divides _), ih]
    rfl

theorem mentions_exported (d : Declaration) : ∀ name ∈ d.exported, Mentions d.lexemes name := by
  have read : d.exported ⊆ d.declarators.flatMap Declarator.taken := by
    induction d with
    | last d stop ends => simp [exported, declarators]
    | more d comma divides rest ih =>
      rw [exported, declarators, flatMap_cons]
      refine append_subset.mpr ⟨subset_append_left _ _, ?_⟩
      split
      · exact nil_subset _
      · exact subset_append_of_subset_right _ ih
  intro name member
  refine d.mentions_of_declarators (fun d name member => ?_) name (read member)
  obtain ⟨p, head, named⟩ := Option.bind_eq_some_iff.mp (Option.mem_toList.mp member)
  have listed : p ∈ d.phrases := (dropWhile_sublist _).subset (mem_of_mem_head? head)
  exact (p.mentions_name named).mono fun l found => mem_flatMap.mpr ⟨p, listed, found⟩

/-- All targets are names. -/
def namesOnly : Declaration → Bool
  | last d _ _ => d.target.name?.isSome
  | more d _ _ rest => d.target.name?.isSome && rest.namesOnly

/-- A declarator in front of another one is broken. -/
def breaksEarly : Declaration → Bool
  | last _ _ _ => false
  | more d _ _ rest => d.isBroken || rest.breaksEarly

theorem bound_ne_nil (named : d.namesOnly = true) : d.bound ≠ [] := by
  cases d with
  | last d stop ends =>
    obtain ⟨name, found⟩ := Option.isSome_iff_exists.mp named
    simp [bound, d.name?_target found]
  | more d comma divides rest =>
    obtain ⟨name, found⟩ := Option.isSome_iff_exists.mp (Bool.and_eq_true_iff.mp named).1
    simp [bound, d.name?_target found]

/-- If all targets are names, the exported ones are the bound ones up to the first broken
declarator. -/
theorem exported_of_namesOnly (named : d.namesOnly = true) :
    d.exported <+: d.bound ∧ (d.exported = d.bound ↔ d.breaksEarly = false) := by
  have taken (d : Declarator) (named : d.target.name?.isSome = true) : d.taken = d.names := by
    obtain ⟨name, found⟩ := Option.isSome_iff_exists.mp named
    have here : chain d.phrases = d.phrases := by
      rw [Declarator.phrases, chain_cons, found]
      rfl
    rw [Declarator.taken, here, d.name?_target found]
    simp [Declarator.phrases, found]
  induction d with
  | last d stop ends => simp [exported, bound, breaksEarly, taken d named]
  | more d comma divides rest ih =>
    obtain ⟨first, later⟩ := Bool.and_eq_true_iff.mp named
    obtain ⟨front, whole⟩ := ih later
    rw [exported, bound, breaksEarly, taken d first, append_cancel_left_eq, prefix_append_right_inj]
    cases broken : d.isBroken with
    | true => simp [(bound_ne_nil later).symm]
    | false => simpa using ⟨front, whole⟩

end Declaration

/-! ## Modules -/

/-- The exports at the end of a code. -/
def bindingLines (bindings : List Binding) : String :=
  String.join (bindings.map fun b => s!"\nexports.{b.outer} = {b.inner};")

/-- A name that is exported under itself. -/
def same (name : String) : Binding :=
  ⟨name, name⟩

/-- The exports at the end of a code, for names that are exported under themselves. -/
def exportLines (names : List String) : String :=
  bindingLines (names.map same)

theorem not_isWord_of_isWord {t : Token} (apart : ∀ name ∈ names, others.contains name = false)
    (word : t.isWord names = true) : t.isWord others = false := by
  unfold isWord at word ⊢
  split at word
  · next name kind => exact apart name (contains_iff_mem.mp word)
  · cases word

theorem parse?_variableWords {k : Lexeme} (keyword : k.token.isWord variableWords = true)
    (rest : List Lexeme) :
    Export.parse? (k :: rest) = some ⟨.declared (declaredNames 0 true rest), 0⟩ := by
  have noDefault : k.token.isWord defaultWords = false := not_isWord_of_isWord (by decide) keyword
  have noFunction : k.token.isWord functionWords = false := not_isWord_of_isWord (by decide) keyword
  have noClass : k.token.isWord classWords = false := not_isWord_of_isWord (by decide) keyword
  have noAsync : k.token.isWord asyncWords = false := not_isWord_of_isWord (by decide) keyword
  simp only [Export.parse?, noDefault, noFunction, noClass, noAsync, keyword]
  rfl

theorem splitExports_same (seen names : List String) :
    (splitExports seen (names.map same)).1 =
      ((names.filter fun name => !seen.contains name).eraseDups).map same := by
  induction names generalizing seen with
  | nil => rfl
  | cons name names ih =>
    rw [map_cons, splitExports]
    cases known : seen.contains name with
    | true =>
      rw [if_pos (by exact known), filter_cons_of_neg (by rw [known]; decide)]
      exact ih seen
    | false =>
      have later : (fun b => !(b == name) && !seen.contains b) =
          fun b => !(name :: seen).contains b := by
        funext b
        rw [contains_cons, Bool.not_or]
      rw [if_neg (by rw [same, known]; decide), filter_cons_of_pos (by rw [known]; rfl),
        eraseDups_cons, filter_filter, later, map_cons, ← ih (name :: seen)]
      rfl

def exportLine (name : String) : String :=
  "exports." ++ name ++ " = " ++ name ++ ";"

theorem exportLines_cons (name : String) (names : List String) :
    (exportLines (name :: names)).toList =
      '\n' :: (exportLine name).toList ++ (exportLines names).toList := by
  have feed : "\n".toList = ['\n'] := rfl
  have line : s!"\nexports.{name} = {name};" = "\n" ++ exportLine name := by
    have front : "\nexports." = "\n" ++ "exports." := rfl
    show "\nexports." ++ name ++ " = " ++ name ++ ";" = _
    rw [front, exportLine]
    simp only [String.append_assoc]
  rw [exportLines, bindingLines, map_cons, map_cons, String.join_cons]
  simp only [same]
  rw [line, String.toList_append, String.toList_append, feed]
  rfl

theorem exportLine_injective {name other : String} (equal : exportLine name = exportLine other) :
    name = other := by
  have chars := congrArg String.toList equal
  simp only [exportLine, String.toList_append, append_assoc, append_cancel_left_eq]
    at chars
  have size : name.toList.length = other.toList.length := by
    have sizes := congrArg List.length chars
    simp only [length_append] at sizes
    omega
  exact String.toList_inj.mp (append_inj chars size).1

theorem takeWhile_exportLines {name : String} (free : '\n' ∉ name.toList) (names : List String) :
    ((exportLine name).toList ++ (exportLines names).toList).takeWhile (· != '\n') =
      (exportLine name).toList := by
  have line : ∀ c ∈ (exportLine name).toList, (c != '\n') = true := by
    have literals : "exports.".toList.all (· != '\n') = true ∧
        " = ".toList.all (· != '\n') = true ∧ ";".toList.all (· != '\n') = true := by
      decide
    simp only [all_eq_true] at literals
    have here : ∀ c ∈ name.toList, (c != '\n') = true := by
      intro c member
      rw [bne_iff_ne]
      rintro rfl
      exact free member
    simp only [exportLine, String.toList_append, forall_mem_append]
    exact ⟨⟨⟨⟨literals.1, here⟩, literals.2.1⟩, here⟩, literals.2.2⟩
  rw [takeWhile_append_of_pos line]
  cases names with
  | nil => exact append_nil _
  | cons other names =>
    rw [exportLines_cons, cons_append, takeWhile_cons_of_neg (by decide),
      append_nil]

/-- The lines at the end tell which names are exported. -/
theorem exportLines_injective (free : ∀ name ∈ names, '\n' ∉ name.toList)
    (free' : ∀ name ∈ others, '\n' ∉ name.toList) (equal : exportLines names = exportLines others) :
    names = others := by
  have none {name : String} {names : List String}
      (equal : exportLines [] = exportLines (name :: names)) : False := by
    have chars := congrArg String.toList equal
    rw [exportLines_cons] at chars
    cases chars
  induction names generalizing others with
  | nil =>
    cases others with
    | nil => rfl
    | cons other others => exact absurd equal none
  | cons name names ih =>
    cases others with
    | nil => exact absurd equal.symm none
    | cons other others =>
      obtain ⟨here, later⟩ := forall_mem_cons.mp free
      obtain ⟨here', later'⟩ := forall_mem_cons.mp free'
      have chars := congrArg String.toList equal
      rw [exportLines_cons, exportLines_cons, cons_append, cons_append, cons_inj_right] at chars
      have first := congrArg (List.takeWhile (· != '\n')) chars
      rw [takeWhile_exportLines here, takeWhile_exportLines here'] at first
      obtain rfl := exportLine_injective (String.toList_inj.mp first)
      rw [ih later later' (String.toList_inj.mp (append_cancel_left chars))]

theorem eraseDups_of_nodup {names : List String} (distinct : names.Nodup) :
    names.eraseDups = names := by
  induction names with
  | nil => rfl
  | cons name names ih =>
    obtain ⟨fresh, distinct⟩ := nodup_cons.mp distinct
    have others : names.filter (fun b => !(b == name)) = names := by
      rw [filter_eq_self]
      intro other member
      rw [Bool.not_eq_true', beq_eq_false_iff_ne]
      rintro rfl
      exact fresh member
    rw [eraseDups_cons, others, ih distinct]

theorem exports_lowerFrom (ctx : Context) (before : List Token) (number : Nat) (ls : List Lexeme)
    (none : ∀ t ∈ ls.map Lexeme.token, t.isWord exportWords = false) :
    (lowerFrom ctx before number ls).flatMap Item.exports = [] := by
  fun_induction lowerFrom ctx before number ls with
  | case1 => rfl
  | case2 before number l rest step before' number' rest' ih =>
    rw [map_cons, forall_mem_cons] at none
    have here : step.item.exports = [] := by
      unfold step lowerFirst
      split
      · unfold lowerImport
        split <;> rfl
      · rw [none.1, Bool.and_false]
        exact (exports_lowerToken _).1
    have tokens : rest'.map Lexeme.token = (rest.map Lexeme.token).drop step.size := by
      unfold rest'
      split
      · rw [token_dropLead, map_drop]
      · rw [map_drop]
    rw [flatMap_cons, here, ih, append_nil]
    intro t member
    rw [tokens] at member
    exact none.2 t (mem_of_mem_drop member)

theorem notMem_feed_of_identifier {source name : String} {l : Lexeme}
    (inside : l ∈ (Lexeme.split (scan source)).1) (kind : l.token.kind = .identifier name) :
    '\n' ∉ name.toList := by
  have listed : l.token ∈ significant (scan source) := by
    rw [← Lexeme.token_splitFrom ""]
    exact mem_map_of_mem inside
  have stays := staysOnLine_of_mem_scanFrom l.token (mem_of_mem_filter listed)
  rw [kind] at stays
  exact Text.lineFeedCount_eq_zero_iff.mp stays.2

/-- What the export declarations behind a keyword export. -/
def innerExports (options : Options) (source : String) (e : Lexeme) (ls : List Lexeme) :
    List Binding :=
  (lowerFrom ⟨source, options.target, options.kind == .somon⟩ [e.token] 0 (dropLead ls)).flatMap
    Item.exports

theorem exports_moduleItems (options : Options) {source : String} {e k : Lexeme}
    (form : (Lexeme.split (scan source)).1 = e :: k :: ls)
    (exports : e.token.isWord exportWords = true) (keyword : k.token.isWord variableWords = true) :
    (moduleItems options source).flatMap Item.exports =
      (declaredNames 0 true ls).map same ++ innerExports options source e (k :: ls) := by
  have noImport : e.token.isWord importWords = false := not_isWord_of_isWord (by decide) exports
  rw [Lexeme.split] at form
  rw [moduleItems, form, lowerFrom, lowerFirst, startsImport, noImport, exports, lowerExport,
    parse?_variableWords keyword]
  rfl

/-- **What an exported declaration exports.** The code of a module that is an exported declaration
of variables exports the names that are read off the declaration, and those of further export
declarations inside it. If there are none, these are the names that the declaration binds, each once
and in order, exactly if the names that are read are. If all targets are different names this is so
exactly if no line break behind a declarator's name ends the declaration before its last
declarator. -/
theorem trailer_exported {options : Options} {source : String} {e k : Lexeme} {d : Declaration}
    (form : (Lexeme.split (scan source)).1 = e :: k :: d.lexemes)
    (exports : e.token.isWord exportWords = true)
    (keyword : k.token.isWord variableWords = true) :
    (lowerModule options source).trailer = bindingLines (splitExports []
        (d.exported.map same ++ innerExports options source e (k :: d.lexemes))).1 ∧
      ((∀ l ∈ d.lexemes, l.token.isWord exportWords = false) →
        (lowerModule options source).trailer = exportLines d.exported.eraseDups ∧
        ((lowerModule options source).trailer = exportLines d.bound.eraseDups ↔
          d.exported.eraseDups = d.bound.eraseDups) ∧
        (d.namesOnly = true → d.bound.Nodup →
          ((lowerModule options source).trailer = exportLines d.bound ↔
            d.breaksEarly = false))) := by
  have all := exports_moduleItems options form exports keyword
  rw [d.declaredNames_lexemes] at all
  refine ⟨by rw [trailer_lowerModule, all]; rfl, fun alone => ?_⟩
  have tokens : ∀ t ∈ (dropLead (k :: d.lexemes)).map Lexeme.token,
      t.isWord exportWords = false := by
    rw [token_dropLead, map_cons, forall_mem_cons]
    refine ⟨not_isWord_of_isWord (by decide) keyword, fun t member => ?_⟩
    obtain ⟨l, inside, rfl⟩ := mem_map.mp member
    exact alone l inside
  have trailer : (lowerModule options source).trailer = exportLines d.exported.eraseDups := by
    have all_kept : (d.exported.filter fun name => !([] : List String).contains name) =
        d.exported := by
      simp
    rw [trailer_lowerModule, all, innerExports, exports_lowerFrom _ _ _ _ tokens, append_nil,
      splitExports_same, all_kept]
    rfl
  have plain (name : String) (found : Mentions d.lexemes name) : '\n' ∉ name.toList := by
    obtain ⟨l, member, kind⟩ := found
    have inside : l ∈ (Lexeme.split (scan source)).1 := by rw [form]; simp [member]
    exact notMem_feed_of_identifier inside kind
  have free := fun name member => plain name (d.mentions_bound name member)
  have free' := fun name member => plain name (d.mentions_exported name member)
  refine ⟨trailer, ?_, fun named distinct => ?_⟩
  · rw [trailer]
    constructor
    · intro equal
      refine exportLines_injective ?_ ?_ equal
      · intro name member
        exact free' name (mem_eraseDups.mp member)
      · intro name member
        exact free name (mem_eraseDups.mp member)
    · intro equal
      rw [equal]
  · obtain ⟨front, whole⟩ := d.exported_of_namesOnly named
    rw [trailer, eraseDups_of_nodup (distinct.sublist front.sublist), ← whole]
    exact ⟨exportLines_injective free' free, fun equal => by rw [equal]⟩

/-- The declaration `{ a } = obj, b = 1;` behind the first two words of the source below. -/
def patternDeclaration : Declaration :=
  let a : Lexeme := ⟨" ", .identifier "a", "a", 15⟩
  .more
    { target := .group .curly ⟨" ", .punct "\x7b", "\x7b", 13⟩ ⟨" ", .punct "\x7d", "\x7d", 17⟩
        [a] rfl rfl (.plain rfl .nil)
      names := ["a"]
      binds := .pattern (.inl rfl) rfl rfl (.last (.short rfl isInitializer_nil))
      value := [.word ⟨" ", .punct "=", "=", 19⟩ rfl (by decide),
        .word ⟨" ", .identifier "obj", "obj", 21⟩ rfl (by decide)]
      initial := by simp [IsInitializer, Phrase.lexemes] }
    ⟨"", .punct ",", ",", 24⟩ rfl
    (.last
      { target := .word ⟨" ", .identifier "b", "b", 26⟩ rfl (by decide)
        names := ["b"]
        binds := .name rfl
        value := [.word ⟨" ", .punct "=", "=", 28⟩ rfl (by decide),
          .word ⟨" ", .number, "1", 30⟩ rfl (by decide)]
        initial := by simp [IsInitializer, Phrase.lexemes] }
      ⟨"", .punct ";", ";", 31⟩ rfl)

theorem trailer_exported_pattern :
    (Lexeme.split (scan "export const \x7b a \x7d = obj, b = 1;")).1 =
        ⟨"", .identifier "export", "export", 0⟩ :: ⟨" ", .identifier "const", "const", 7⟩ ::
          patternDeclaration.lexemes ∧
      patternDeclaration.bound = ["a", "b"] ∧
      (lowerModule {} "export const \x7b a \x7d = obj, b = 1;").trailer =
        exportLines ["obj", "b"] ∧
      (lowerModule {} "export const \x7b a \x7d = obj, b = 1;").trailer ≠
        exportLines ["a", "b"] := by
  have form : (Lexeme.split (scan "export const \x7b a \x7d = obj, b = 1;")).1 =
      ⟨"", .identifier "export", "export", 0⟩ :: ⟨" ", .identifier "const", "const", 7⟩ ::
        patternDeclaration.lexemes := by
    decide +kernel
  have alone : ∀ l ∈ patternDeclaration.lexemes, l.token.isWord exportWords = false := by decide
  have names : patternDeclaration.exported = ["obj", "b"] := rfl
  obtain ⟨trailer, right, _⟩ := (trailer_exported form rfl rfl).2 alone
  rw [names] at trailer right
  exact ⟨form, rfl, trailer, fun same => absurd (right.mp same) (by decide)⟩

end Tarkib.Compile
