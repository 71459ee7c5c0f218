import Krl.Language
import Krl.Proofs.Grammar.Unambiguity

/-!
# Letters of the language

The letters by which the productions of rulesets tell tokens apart. Reserved words
and marks have letters of their own, and so have the few other words that decide
something. The name of an aggregator has one letter right after a group of events,
where it must be an aggregator, and another one elsewhere.
-/

namespace Krl

namespace Letter

/-- The set of some letters. -/
def set (letters : List Nat) : Nat :=
  letters.foldr (fun letter known => 1 <<< letter ||| known) 0

/-- The letter of the end of the text. -/
def finish : Nat := 1

def number : Nat := 2

def string : Nat := 3

def regexp : Nat := 4

def chevron : Nat := 5

def domainName : Nat := 6

def persistent : Nat := 7

/-- The letter of words that decide nothing. -/
def identifier : Nat := 8

/-- The letter of the name of an aggregator right after a group of events. -/
def aggregator : Nat := 9

/-- The letter of the name of an aggregator elsewhere. -/
def aggregatorName : Nat := 10

/-- Words that decide something though they are not reserved. -/
def tellingWords : List String :=
  ["on", "final", "raise", "schedule", "log", "error", "warn", "info", "debug", "for",
    "version", "alias", "with"]

/-- The words with letters of their own. -/
def words : List String :=
  reservedWords ++ tellingWords

/-- The letter of a word other than the name of an aggregator. -/
def ofWord (text : String) : Nat :=
  match words.idxOf? text with
  | some index => 11 + index
  | none => identifier

/-- The letter of a delimiter or an operator. -/
def ofPunct (mark : Punct) : Nat :=
  63 + Punct.all.idxOf mark

/-- The letter of a token. -/
def ofToken (afterGroup : Bool) : Token → Nat
  | .number _ => number
  | .string _ => string
  | .regexp _ _ => regexp
  | .chevron _ => chevron
  | .domainName domain _ => if isPersistentDomain domain then persistent else domainName
  | .symbol text =>
      if isAggregatorName (.symbol text) then
        if afterGroup then aggregator else aggregatorName
      else
        ofWord text
  | .punct mark => ofPunct mark
  | .whitespace | .lineComment | .blockComment => identifier

/-- Number of letters. -/
def count : Nat := 92

/-- The letters of words that can be identifiers. -/
def identifiers : Nat :=
  set ([identifier, aggregator, aggregatorName] ++ tellingWords.map ofWord)

end Letter

/-- The letters that tokens of a class may have. -/
def Terminal.letters : Terminal → Nat
  | .punct mark => Letter.set [Letter.ofPunct mark]
  | .word text =>
      if isAggregatorName (.symbol text) then
        Letter.set [Letter.aggregator, Letter.aggregatorName]
      else
        Letter.set [Letter.ofWord text]
  | .identifier => Letter.identifiers
  | .symbol => Letter.identifiers ||| Letter.set (reservedWords.map Letter.ofWord)
  | .number => Letter.set [Letter.number]
  | .string => Letter.set [Letter.string]
  | .regexp => Letter.set [Letter.regexp]
  | .chevron => Letter.set [Letter.chevron]
  | .domainName => Letter.set [Letter.domainName, Letter.persistent]
  | .persistent => Letter.set [Letter.persistent]

/-- What a delimiter does to the nesting of groups. -/
def Punct.turn : Punct → Turn
  | .leftParen | .leftBracket | .leftBrace => .opens
  | .rightParen | .rightBracket | .rightBrace => .closes
  | _ => .stays

/-- What a delimiter does to the nesting of parentheses. -/
def Punct.parenTurn : Punct → Turn
  | .leftParen => .opens
  | .rightParen => .closes
  | _ => .stays

/-- What tokens of a class do to a nesting, given what delimiters do. -/
def Terminal.turn (effect : Punct → Turn) : Terminal → Turn
  | .punct mark => effect mark
  | _ => .stays

/-- What a token does to a nesting, given what delimiters do. -/
def Token.turn (effect : Punct → Turn) : Token → Turn
  | .punct mark => effect mark
  | _ => .stays

theorem Terminal.token_of_punct {expected : Punct} {leaf : Leaf}
    (accepted : ((Terminal.punct expected).read leaf).isSome = true) :
    leaf.lexeme.token = .punct expected := by
  rcases leaf with ⟨⟨token, start, stop⟩, parts⟩
  cases token <;> try cases accepted
  rw [read, Option.isSome_ite] at accepted
  rw [accepted]

theorem Terminal.token_of_word {expected : String} {leaf : Leaf}
    (accepted : ((Terminal.word expected).read leaf).isSome = true) :
    leaf.lexeme.token = .symbol expected := by
  rcases leaf with ⟨⟨token, start, stop⟩, parts⟩
  cases token <;> try cases accepted
  rw [read, Option.isSome_ite] at accepted
  rw [accepted]

theorem Terminal.turnsAgree (effect : Punct → Turn) :
    language.grammar.TurnsAgree (Terminal.turn effect)
      fun leaf => leaf.lexeme.token.turn effect := by
  intro expected leaf accepted
  cases expected with
  | punct mark =>
      show leaf.lexeme.token.turn effect = effect mark
      rw [Terminal.token_of_punct accepted]
      rfl
  | _ =>
      rcases leaf with ⟨⟨token, start, stop⟩, parts⟩
      cases token <;> first | rfl | cases accepted

namespace Letter

theorem testBit_set {letters : List Nat} {letter : Nat} :
    (set letters).testBit letter = true ↔ letter ∈ letters := by
  induction letters with
  | nil => simp [set]
  | cons first others ih =>
      rw [set, List.foldr_cons, Nat.testBit_or, Bool.or_eq_true, List.mem_cons]
      apply or_congr
      · rw [Nat.one_shiftLeft, Nat.testBit_two_pow, decide_eq_true_eq, eq_comm]
      · exact ih

theorem ofWord_pos (text : String) : 0 < ofWord text := by
  rw [ofWord]
  split
  · omega
  · decide

theorem ofWord_lt (text : String) : ofWord text < count := by
  rw [ofWord]
  split
  next index found =>
      have bound := (List.findIdx?_eq_some_iff_findIdx_eq.mp found).1
      have few : words.length = 52 := by decide
      rw [count]
      omega
  next => decide

theorem ofPunct_pos (mark : Punct) : 0 < ofPunct mark :=
  Nat.lt_of_lt_of_le (by decide) (Nat.le_add_right 63 _)

theorem ofPunct_lt (mark : Punct) : ofPunct mark < count := by
  have bound := List.idxOf_lt_length_of_mem mark.mem_all
  have few : Punct.all.length = 29 := rfl
  rw [ofPunct, count]
  omega

theorem ofToken_pos (afterGroup : Bool) (token : Token) : 0 < ofToken afterGroup token := by
  cases token with
  | symbol text =>
      rw [ofToken]
      split
      · split <;> decide
      · exact ofWord_pos text
  | domainName domain name =>
      rw [ofToken]
      split <;> decide
  | punct mark => exact ofPunct_pos mark
  | _ => exact of_decide_eq_true rfl

theorem ofToken_lt (afterGroup : Bool) (token : Token) : ofToken afterGroup token < count := by
  cases token with
  | symbol text =>
      rw [ofToken]
      split
      · split <;> decide
      · exact ofWord_lt text
  | domainName domain name =>
      rw [ofToken]
      split <;> decide
  | punct mark => exact ofPunct_lt mark
  | _ => exact of_decide_eq_true rfl

/-- A word without a letter of its own decides nothing. -/
theorem ofWord_cases (text : String) : ofWord text = identifier ∨ text ∈ words := by
  rw [ofWord]
  split
  next index found =>
      right
      rw [List.idxOf?, List.findIdx?_eq_some_iff_getElem] at found
      obtain ⟨inside, same, _⟩ := found
      rw [beq_iff_eq] at same
      rw [← same]
      exact List.getElem_mem inside
  next => exact .inl rfl

theorem ofWord_not_aggregator (text : String) : ofWord text ∉ [aggregator, aggregatorName] := by
  rw [ofWord]
  split
  · simp only [aggregator, aggregatorName, List.mem_cons, List.not_mem_nil, or_false]
    omega
  · decide

/-- Only the names of aggregators have one of the two letters, and their place says which. -/
theorem of_ofToken_mem {afterGroup : Bool} {token : Token}
    (among : ofToken afterGroup token ∈ [aggregator, aggregatorName]) :
    isAggregatorName token = true ∧
      ofToken afterGroup token = if afterGroup then aggregator else aggregatorName := by
  cases token with
  | symbol text =>
      rw [ofToken] at among ⊢
      split at among
      next named => exact ⟨named, if_pos named⟩
      next => exact absurd among (ofWord_not_aggregator text)
  | domainName domain name =>
      rw [ofToken] at among
      split at among <;> exact absurd among (by decide)
  | punct mark =>
      have far : 63 ≤ ofPunct mark := Nat.le_add_right 63 _
      rw [ofToken] at among
      simp only [aggregator, aggregatorName, List.mem_cons, List.not_mem_nil, or_false] at among
      omega
  | _ =>
      rw [ofToken] at among
      exact absurd among (by decide)

/-- The letter of an aggregator is that of names of aggregators in its place only. -/
theorem of_ofToken_eq_aggregator {afterGroup : Bool} {token : Token}
    (same : ofToken afterGroup token = aggregator) :
    isAggregatorName token = true ∧ afterGroup = true := by
  obtain ⟨named, place⟩ := of_ofToken_mem (by rw [same]; exact List.mem_cons_self)
  rw [same] at place
  cases afterGroup with
  | true => exact ⟨named, rfl⟩
  | false => cases place

theorem of_ofToken_eq_aggregatorName {afterGroup : Bool} {token : Token}
    (same : ofToken afterGroup token = aggregatorName) : afterGroup = false := by
  obtain ⟨_, place⟩ :=
    of_ofToken_mem (by rw [same]; exact List.mem_cons_of_mem _ List.mem_cons_self)
  rw [same] at place
  cases afterGroup with
  | true => cases place
  | false => rfl

/-- The name of an aggregator has one of two letters. -/
theorem ofToken_aggregator (afterGroup : Bool) {text : String}
    (named : isAggregatorName (.symbol text) = true) :
    ofToken afterGroup (.symbol text) ∈ [aggregator, aggregatorName] := by
  rw [ofToken, if_pos named]
  split <;> decide

theorem ofToken_other (afterGroup : Bool) {text : String}
    (other : isAggregatorName (.symbol text) = false) :
    ofToken afterGroup (.symbol text) = ofWord text := by
  rw [ofToken, other]
  rfl

theorem mem_identifiers_of_aggregator {letter : Nat}
    (named : letter ∈ [aggregator, aggregatorName]) : identifiers.testBit letter = true := by
  rw [identifiers, testBit_set]
  exact List.mem_append_left _ (List.mem_cons_of_mem _ named)

/-- The letter of a word that can be an identifier is among those of identifiers. -/
theorem ofToken_identifier (afterGroup : Bool) {text : String} (free : isIdentifier text = true) :
    identifiers.testBit (ofToken afterGroup (.symbol text)) = true := by
  cases named : isAggregatorName (.symbol text) with
  | true => exact mem_identifiers_of_aggregator (ofToken_aggregator afterGroup named)
  | false =>
      rw [ofToken_other afterGroup named, identifiers, testBit_set]
      rcases ofWord_cases text with same | listed
      · rw [same]
        decide
      · rw [words, List.mem_append] at listed
        rcases listed with reserved | telling
        · rw [isIdentifier, List.contains_iff_mem.mpr reserved] at free
          cases free
        · exact List.mem_append_right _ (List.mem_map_of_mem telling)

theorem ofToken_word (afterGroup : Bool) (text : String) :
    (Terminal.word text).letters.testBit (ofToken afterGroup (.symbol text)) = true := by
  rw [Terminal.letters]
  cases named : isAggregatorName (.symbol text) with
  | true => exact testBit_set.mpr (ofToken_aggregator afterGroup named)
  | false =>
      rw [ofToken_other afterGroup named]
      exact testBit_set.mpr (List.mem_singleton_self _)

theorem ofToken_symbol (afterGroup : Bool) (text : String) :
    Terminal.symbol.letters.testBit (ofToken afterGroup (.symbol text)) = true := by
  rw [Terminal.letters, Nat.testBit_or, Bool.or_eq_true]
  cases named : isAggregatorName (.symbol text) with
  | true => exact .inl (mem_identifiers_of_aggregator (ofToken_aggregator afterGroup named))
  | false =>
      cases free : isIdentifier text with
      | true => exact .inl (ofToken_identifier afterGroup free)
      | false =>
          right
          rw [isIdentifier, Bool.not_eq_false', List.contains_iff_mem] at free
          rw [ofToken_other afterGroup named, testBit_set]
          exact List.mem_map_of_mem free

end Letter

/-- The letter of a token is among those of every class that the token belongs to. -/
theorem Terminal.letters_of_read {expected : Terminal} {leaf : Leaf} (afterGroup : Bool)
    (accepted : (expected.read leaf).isSome = true) :
    expected.letters.testBit (Letter.ofToken afterGroup leaf.lexeme.token) = true := by
  rcases leaf with ⟨⟨token, start, stop⟩, parts⟩
  cases expected <;> cases token <;> try cases accepted
  case punct.punct expected mark =>
      cases token_of_punct accepted
      exact Letter.testBit_set.mpr (List.mem_singleton_self _)
  case word.symbol expected text =>
      cases token_of_word accepted
      exact Letter.ofToken_word afterGroup expected
  case identifier.symbol text =>
      rw [read, Option.isSome_ite] at accepted
      exact Letter.ofToken_identifier afterGroup accepted
  case symbol.symbol text => exact Letter.ofToken_symbol afterGroup text
  case domainName.domainName domain name =>
      rw [letters, Letter.testBit_set, Letter.ofToken]
      split <;> decide
  case persistent.domainName domain name =>
      rw [read, Option.isSome_ite] at accepted
      rw [letters, Letter.testBit_set, Letter.ofToken, if_pos accepted]
      decide
  all_goals exact Letter.testBit_set.mpr (List.mem_singleton_self _)

end Krl
