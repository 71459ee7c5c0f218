import Krl.Proofs.Json.Finite
import Krl.Proofs.Language.Storable
import Krl.Proofs.Parse.Operands
import Krl.Proofs.Parse.Spans
import Krl.Proofs.Token.Numerals

/-!
# Which parsed trees can be stored

A parsed tree comes back unchanged from a text of it just if all of its numbers are finite, as
no text says that a number is infinite. Its numbers are those among its tokens, so that the
number literals of the source decide.
-/

namespace Krl

open Productions

section Numbers

/-- All numbers among some operands are finite. -/
def FiniteNumbers (operands : List Expr) : Prop :=
  ∀ operand ∈ operands, ∀ value, operand.kind = .number value → value.isFinite = true

theorem finiteNumbers_nil : FiniteNumbers [] :=
  List.forall_mem_nil _

theorem finiteNumbers_append {operands others : List Expr} :
    FiniteNumbers (operands ++ others) ↔ FiniteNumbers operands ∧ FiniteNumbers others :=
  List.forall_mem_append

theorem finiteNumbers_number {value : Binary64} {span : Span} :
    FiniteNumbers [⟨.number value, span⟩] ↔ value.isFinite = true := by
  simp [FiniteNumbers]

theorem finiteNumbers_other {kind : ExprKind} {span : Span}
    (other : ∀ value, kind ≠ .number value) : FiniteNumbers [⟨kind, span⟩] := by
  rw [FiniteNumbers, List.forall_mem_singleton]
  intro value same
  exact absurd same (other value)

theorem finiteNumbers_wordOperands (word : String) (span : Span) :
    FiniteNumbers (wordOperands word span) := by
  rw [wordOperands]
  split_ifs
  · exact finiteNumbers_nil
  · exact finiteNumbers_other (by simp)
  · exact finiteNumbers_other (by simp)
  · exact finiteNumbers_other (by simp)

/-- The value of a part of a template can be stored just if the numbers in the part are finite,
as long as the part ends at a word. -/
def TellingPart (part : TemplatePart) (value : Expr) : Prop :=
  ∀ low high, PartsOrderly low high [part] → high < wordLimit →
    (value.Storable ↔ FiniteNumbers part.operands)

theorem storable_of_forall₂ {parts : List TemplatePart} {values : List Expr} {low high : Nat}
    (orderly : PartsOrderly low high parts) (bound : high < wordLimit)
    (tells : List.Forall₂ TellingPart parts values) :
    (∀ value ∈ values, value.Storable) ↔ FiniteNumbers (partsOperands parts) := by
  induction tells generalizing low with
  | nil => exact iff_of_true (List.forall_mem_nil _) finiteNumbers_nil
  | cons first _ ih =>
      obtain ⟨middle, starts, rest⟩ := orderly.exists_middle
      have below := Nat.lt_of_le_of_lt (PartsOrderly.le _ rest) bound
      rw [List.forall_mem_cons, partsOperands, finiteNumbers_append, first low middle starts below,
        ih rest]

/-- What a token means can be stored just if the numbers in the token are finite. -/
theorem tells_of_means {start stop : Nat} {token : Token} {tokens : Terminal}
    {datum : tokens.Datum} (place : Span.Storable ⟨start, stop⟩)
    (orderly : token.Orderly (start + 1) stop) (parts : PartsRelated TellingPart token)
    (means : Means start stop token tokens datum) :
    tokens.Tells datum (FiniteNumbers (token.operands ⟨start, stop⟩)) := by
  cases means with
  | punct => exact finiteNumbers_nil
  | word | identifier | symbol => exact ⟨place, finiteNumbers_wordOperands _ _⟩
  | number value => exact (and_iff_left place).trans finiteNumbers_number.symm
  | string | regexp | domainName | persistent =>
      exact ⟨⟨trivial, place⟩, finiteNumbers_other (by simp)⟩
  | chevron texts ends =>
      intro value yields
      obtain ⟨values, yielded, rfl⟩ := ends value yields
      have inside := storable_of_forall₂ orderly place.2 (parts values yielded)
      rw [Expr.storable_iff, and_iff_left place, ExprKind.Storable, exprsStorable_iff, inside,
        Token.operands]

end Numbers

section Phrases

variable {lexemes : List Lexeme} {first last stop : Nat}

/-- Phrases can be stored just if the numbers in the tokens that they cover are finite. -/
def telling (lexemes : List Lexeme) : Invariant where
  value := fun name first last value => ∃ operands,
    name.Tells value (FiniteNumbers operands) ∧ Spells lexemes first operands last
  datum := fun tokens index datum => ∃ token start stop,
    lexemes[index]? = some ⟨token, start, stop⟩ ∧
      tokens.Tells datum (FiniteNumbers (token.operands ⟨start, stop⟩))

theorem storable_spanBetween (places : ∀ lexeme ∈ lexemes, lexeme.span.Storable)
    (bound : stop < wordLimit) :
    (language.spanBetween ⟨leavesOf lexemes, stop⟩ first last).Storable := by
  have found {index : Nat} {leaf : Leaf} (present : (leavesOf lexemes)[index]? = some leaf) :
      (language.span leaf).Storable := by
    obtain ⟨lexeme, listed, rfl⟩ := getElem?_leavesOf_iff.mp present
    have place := places lexeme (List.mem_of_getElem? listed)
    rwa [← lexeme_ofLexeme lexeme] at place
  rw [Language.spanBetween]
  split
  next => exact ⟨bound, bound⟩
  next opening opens =>
    split
    next =>
      split
      next closing closes => exact ⟨(found opens).1, (found closes).2⟩
      next => exact ⟨bound, bound⟩
    next => exact ⟨(found opens).1, (found opens).1⟩

/-- A production that keeps numbers makes what can be stored just if the numbers in the tokens it
covers are finite. -/
theorem tells_of_keepsNumbers {entry : Entry} (keeps : KeepsNumbers entry)
    (places : ∀ lexeme ∈ lexemes, lexeme.span.Storable) (bound : stop < wordLimit)
    {computation : Traced entry.lhs.Value} {value : entry.lhs.Value}
    (supplies : (telling lexemes).Supplies entry.rhs first last
      (entry.action (language.spanBetween ⟨leavesOf lexemes, stop⟩ first last)) computation)
    (yields : Traced.Yields computation value) :
    (telling lexemes).value entry.lhs first last value := by
  let reached (finite : Prop) (index : Nat) : Prop :=
    ∃ operands, finite = FiniteNumbers operands ∧ Spells lexemes first operands index
  have phrases : ∀ name here next value before, (telling lexemes).value name here next value →
      reached before here → ∃ after, tellsPhrase name value before after ∧ reached after next := by
    rintro name here next value _ ⟨added, tells, spells⟩ ⟨operands, rfl, spelled⟩
    exact ⟨_, ⟨_, tells, propext finiteNumbers_append⟩, _, rfl, spelled.append spells⟩
  have tokens : ∀ tokens index datum before, (telling lexemes).datum tokens index datum →
      reached before index →
        ∃ after, tellsToken tokens datum before after ∧ reached after (index + 1) := by
    rintro tokens index datum _ ⟨token, start, stop, found, tells⟩ ⟨operands, rfl, spelled⟩
    exact ⟨_, ⟨_, tells, propext finiteNumbers_append⟩, _, rfl, spelled.append (spells_succ found)⟩
  have begins : reached True first :=
    ⟨[], (eq_true finiteNumbers_nil).symm, List.append_nil _⟩
  obtain ⟨_, ⟨operands, rfl, spells⟩, made⟩ := supplies.threads phrases tokens begins (keeps _)
  exact ⟨operands, made value yields (storable_spanBetween places bound), spells⟩

/-- What some tokens are parsed to can be stored just if the numbers among them are finite. The
induction behind it is on their derivation. -/
theorem tells_parseLeaves {start : StartSymbol} {low high : Nat} {atEnd : Option Nat}
    {value : start.nonterminal.Value} (orderly : LexemesOrderly low high lexemes)
    (bound : high < wordLimit)
    (parts : ∀ lexeme ∈ lexemes, PartsRelated TellingPart lexeme.token)
    (yields : Traced.Yields (parseLeaves start (leavesOf lexemes) high atEnd) value) :
    start.nonterminal.Tells value (FiniteNumbers (lexemesOperands lexemes)) := by
  have places : ∀ lexeme ∈ lexemes, lexeme.span.Storable := by
    intro lexeme member
    obtain ⟨inside, ends⟩ := orderly.of_mem member
    have stop : lexeme.stop < wordLimit := Nat.lt_of_le_of_lt ends bound
    exact ⟨Nat.lt_trans (Token.Orderly.le _ inside) stop, stop⟩
  have known : (telling (significant lexemes)).value start.nonterminal 0
      (significant lexemes).length value := by
    refine Invariant.holds_parseLeaves ?_ ?_ yields
    · rintro index ⟨token, start, stop⟩ found tokens datum read
      have member : ⟨token, start, stop⟩ ∈ lexemes :=
        (List.mem_filter.mp (List.mem_of_getElem? found)).1
      exact ⟨_, _, _, found, tells_of_means (places _ member) (orderly.of_mem member).1
        (parts _ member) (means_of_read read)⟩
    · intro entry listed first last tree computation value _ supplies yields
      refine tells_of_keepsNumbers (keepsNumbers_of_mem entry listed) ?_ bound supplies yields
      exact fun lexeme member => places lexeme (List.mem_filter.mp member).1
  obtain ⟨operands, tells, spells⟩ := known
  rw [Spells, operandsBefore, operandsBefore, List.take_zero, List.take_length] at spells
  rwa [← lexemesOperands_significant, ← spells]

end Phrases

theorem relatesParts_telling : RelatesParts TellingPart where
  text := by
    intro value start stop low high orderly bound
    have above := Nat.lt_of_le_of_lt (PartsOrderly.le [] orderly.2.2) bound
    refine iff_of_true ⟨trivial, Nat.lt_of_le_of_lt orderly.2.1 above, above⟩ ?_
    exact finiteNumbers_other (by simp)
  interpolation := by
    intro tokens start close value parts yields low high orderly bound
    have above := Nat.lt_of_le_of_lt (PartsOrderly.le [] orderly.2) bound
    exact tells_parseLeaves orderly.1 (Nat.lt_of_succ_lt above) parts yields

section Literals

variable {source : String}

/-- A number among some operands is that of a numeral of the source. -/
def IsLiteral (source : String) (operand : Expr) : Prop :=
  ∀ value, operand.kind = .number value → ∃ text, Span.slice? source operand.span = some text ∧
    Token.IsNumeral text.toList ∧ value = Token.Literal.number text.toList

theorem isLiteral_wordOperands (word : String) (span : Span) :
    ∀ operand ∈ wordOperands word span, IsLiteral source operand := by
  rw [wordOperands]
  split_ifs <;> simp [IsLiteral]

theorem isLiteral_other {kind : ExprKind} {span : Span} (other : ∀ value, kind ≠ .number value) :
    ∀ operand ∈ [(⟨kind, span⟩ : Expr)], IsLiteral source operand := by
  rw [List.forall_mem_singleton]
  intro value same
  exact absurd same (other value)

theorem isLiteral_plain {cursor : Cursor} (inside : cursor.In source) {token : Token.PlainToken}
    {length : Nat} (longest : Token.Pattern.longest? cursor.rest = some (.plain token, length)) :
    ∀ operand ∈ (token.read (cursor.rest.take length)).operands
      ⟨cursor.offset, (cursor.advance length).offset⟩, IsLiteral source operand := by
  have numeral := Token.isNumeral_of_longest? longest
  have slice := inside.slice?_eq length
  cases token with
  | number | fraction =>
      refine List.forall_mem_singleton.mpr ?_
      rintro value ⟨⟩
      refine ⟨_, slice, ?_⟩
      rw [String.toList_ofList]
      exact ⟨numeral (by decide), rfl⟩
  | word => exact isLiteral_wordOperands _ _
  | domainWord => exact isLiteral_other (by simp)
  | spaces | lineComment | punct => exact List.forall_mem_nil _

theorem partsOperands_append (parts others : List TemplatePart) :
    partsOperands (parts ++ others) = partsOperands parts ++ partsOperands others := by
  induction parts with
  | nil => rfl
  | cons part parts ih =>
      rw [List.cons_append, partsOperands, partsOperands, ih, List.append_assoc]

theorem isLiteral_textPart (cursor : Cursor) :
    ∀ operand ∈ partsOperands (Token.textPart cursor), IsLiteral source operand := by
  rw [Token.textPart, Token.templateText]
  split
  · exact List.forall_mem_nil _
  · exact isLiteral_other (by simp)

mutual

/-- All numbers in a token that is read in a source are numerals there. The induction is on the
reading. -/
theorem Token.Reads.isLiteral {cursor next : Cursor} {lexeme : Lexeme} :
    Token.Reads cursor lexeme next → cursor.In source →
      ∀ operand ∈ lexeme.token.operands lexeme.span, IsLiteral source operand
  | .plain longest, inside => isLiteral_plain inside longest
  | .blockComment _ _, _ => List.forall_mem_nil _
  | .string _ _, _ | .regexp _ _ _, _ => isLiteral_other (by simp)
  | .chevron _ parts, inside => parts.isLiteral (inside.advance _)

theorem Token.ReadsParts.isLiteral {cursor next : Cursor} {parts : List TemplatePart} :
    Token.ReadsParts cursor parts next → cursor.In source →
      ∀ operand ∈ partsOperands parts, IsLiteral source operand
  | .close _, _ => isLiteral_textPart cursor
  | @Token.ReadsParts.interpolation cursor _ _ _ _ _ _ _ body more, inside => by
      have behind := (inside.advance (Token.Literal.template cursor.rest).2).advance 2
      have inner := body.isLiteral behind
      have others := more.isLiteral (behind.of_advances body.advances)
      rw [partsOperands_append, partsOperands, TemplatePart.operands]
      exact List.forall_mem_append.mpr
        ⟨isLiteral_textPart cursor, List.forall_mem_append.mpr ⟨inner, others⟩⟩

theorem Token.ReadsBody.isLiteral {depth : Nat} {cursor next : Cursor} {tokens : List Lexeme}
    {close : Nat} : Token.ReadsBody depth cursor tokens close next → cursor.In source →
      ∀ operand ∈ lexemesOperands tokens, IsLiteral source operand
  | .close _, _ => List.forall_mem_nil _
  | @Token.ReadsBody.inner _ _ _ _ ⟨_, _, _⟩ _ _ first _ more, inside => by
      have here := first.isLiteral inside
      have behind := more.isLiteral (inside.of_advances first.advances)
      rw [lexemesOperands]
      exact List.forall_mem_append.mpr ⟨here, behind⟩

end

theorem Token.ReadsAll.isLiteral {cursor final : Cursor} {lexemes : List Lexeme}
    (reads : Token.ReadsAll cursor lexemes final) (inside : cursor.In source) :
    ∀ operand ∈ lexemesOperands lexemes, IsLiteral source operand := by
  induction reads with
  | nil => exact List.forall_mem_nil _
  | @cons _ _ _ lexeme _ first _ ih =>
      obtain ⟨token, start, stop⟩ := lexeme
      rw [lexemesOperands]
      exact List.forall_mem_append.mpr
        ⟨first.isLiteral inside, ih (inside.of_advances first.advances)⟩

/-- The numbers among some expressions, and where they stand. -/
def numbersOf (expressions : List Expr) : List (Binary64 × Span) :=
  expressions.filterMap fun expr =>
    match expr.kind with
    | .number value => some (value, expr.span)
    | _ => none

theorem mem_numbersOf {expressions : List Expr} {value : Binary64} {span : Span} :
    (value, span) ∈ numbersOf expressions ↔ ⟨.number value, span⟩ ∈ expressions := by
  rw [numbersOf, List.mem_filterMap]
  constructor
  · rintro ⟨⟨kind, place⟩, member, same⟩
    cases kind <;> cases same
    exact member
  · intro member
    exact ⟨_, member, rfl⟩

/-- Where the number literals of a source stand, those within templates too. -/
def numerals (lexemes : List Lexeme) : List Span :=
  (numbersOf (lexemesOperands lexemes)).map Prod.snd

theorem mem_numerals {lexemes : List Lexeme} {span : Span} :
    span ∈ numerals lexemes ↔ ∃ value, ⟨.number value, span⟩ ∈ lexemesOperands lexemes := by
  simp [numerals, mem_numbersOf]

/-- The digits of a numeral before its point write a number below the limit from which on
doubles are infinite. -/
def FitsDouble (source : String) (span : Span) : Prop :=
  ∃ text, Span.slice? source span = some text ∧
    Token.Literal.number.digitsValue (text.toList.takeWhile Token.isDigit) < Binary64.overflow

theorem finiteNumbers_iff_fitsDouble {lexemes : List Lexeme}
    (literal : ∀ operand ∈ lexemesOperands lexemes, IsLiteral source operand) :
    FiniteNumbers (lexemesOperands lexemes) ↔ ∀ span ∈ numerals lexemes, FitsDouble source span := by
  have fits (value : Binary64) (span : Span)
      (member : ⟨.number value, span⟩ ∈ lexemesOperands lexemes) :
      value.isFinite = true ↔ FitsDouble source span := by
    obtain ⟨text, slice, numeral, rfl⟩ := literal _ member value rfl
    rw [Token.Literal.isFinite_number_iff numeral.places, FitsDouble, slice]
    simp
  constructor
  · intro finite span member
    obtain ⟨value, member⟩ := mem_numerals.mp member
    exact (fits value span member).mp (finite _ member value rfl)
  · rintro all ⟨_, span⟩ member value rfl
    exact (fits value span member).mpr (all span (mem_numerals.mpr ⟨value, member⟩))

end Literals

/-- A parsed tree comes back from what it is stored as just if all of its numbers are finite,
which they are just if the number literals of the source, at any depth, are below the limit of
doubles. A source is a text in memory, so that it has fewer bytes than there are words. -/
theorem parse_comesBack_iff {Written : Type} {format : Json.Format Written} (sound : format.Sound)
    (finite : format.ReadsFinite) {source : String} {options : ParseOptions} {program : Program}
    (short : Text.byteLength source.toList < wordLimit)
    (parsed : parse source options = .ok program) :
    (format.load? Program.ofJson? (format.store Program.toJson program) = some program ↔
      program.Storable) ∧
    ∃ lexemes, Token.tokenize source = .ok lexemes ∧
      (program.Storable ↔ ∀ span ∈ numerals lexemes, FitsDouble source span) := by
  refine ⟨sound.loads_iff finite Program.inverts program, ?_⟩
  rw [parse_eq] at parsed
  obtain ⟨lexemes, read, yields⟩ := exists_yields_of_parseSource parsed
  obtain ⟨final, reads, _⟩ := Token.tokenize_eq_ok_iff.mp read
  have literal := reads.isLiteral ⟨0, rfl⟩
  have settled := Token.settled_of_tokenize read
  have tells := tells_parseLeaves settled.orderly short (relatesParts_telling.inside lexemes) yields
  exact ⟨lexemes, read, Iff.trans tells (finiteNumbers_iff_fitsDouble literal)⟩

/-- A declaration with a number and one in a template. -/
theorem parse_comesBack_template :
    ∃ program lexemes, parse "x = 1.5 + <<#\x7b2\x7d>>" .none = .ok program ∧
      Token.tokenize "x = 1.5 + <<#\x7b2\x7d>>" = .ok lexemes ∧
      numerals lexemes = [⟨4, 7⟩, ⟨14, 15⟩] ∧
      Json.Format.nulls.load? Program.ofJson? (Json.Format.nulls.store Program.toJson program) =
        some program := by
  have accepted : (valueOfLeftParse? "x = 1.5 + <<#\x7b2\x7d>>"
      [1, 277, 279, 282, 54, 55, 204, 207, 209, 220, 221, 223, 227, 231, 232, 239, 227, 231, 232,
        242]).isSome = true := by
    decide +kernel
  have places : (Token.tokenize "x = 1.5 + <<#\x7b2\x7d>>").toOption.map numerals =
      some [⟨4, 7⟩, ⟨14, 15⟩] := by decide +kernel
  obtain ⟨program, parsed⟩ := exists_ok_of_isSome accepted
  obtain ⟨comesBack, lexemes, read, fits⟩ :=
    parse_comesBack_iff Json.Format.nulls_sound Json.Format.nulls_readsFinite (by decide) parsed
  rw [read] at places
  have places := Option.some.inj places
  refine ⟨program, lexemes, parsed, read, places, comesBack.mpr (fits.mpr ?_)⟩
  rw [places]
  refine List.forall_mem_cons.mpr ⟨⟨"1.5", rfl, by decide +kernel⟩, ?_⟩
  exact List.forall_mem_singleton.mpr ⟨"2", rfl, by decide +kernel⟩

/-- A number of 310 digits is read as infinity, and is not read back. -/
theorem parse_infinity :
    ∃ program, parse (String.ofList ('1' :: List.replicate 309 '0')) .none = .ok program ∧
      numbersOf program.nodes = [(.infinity, ⟨0, 310⟩)] ∧ Binary64.infinity.isFinite = false ∧
      Json.Format.nulls.load? Program.ofJson? (Json.Format.nulls.store Program.toJson program) =
        none := by
  have longest : Token.Pattern.longest? ('1' :: List.replicate 309 '0') =
      some (.plain .number, 310) := by decide +kernel
  have value : Token.Literal.number ('1' :: List.replicate 309 '0') = .infinity := by
    decide +kernel
  have length : Text.byteLength ('1' :: List.replicate 309 '0') = 310 := by decide +kernel
  have read : Token.tokenize (String.ofList ('1' :: List.replicate 309 '0')) =
      .ok [⟨.number .infinity, 0, 310⟩] := by
    have whole : ('1' :: List.replicate 309 '0').take 310 = '1' :: List.replicate 309 '0' :=
      List.take_of_length_le (by rw [List.length_cons, List.length_replicate])
    have first := @Token.Reads.plain ⟨0, '1' :: List.replicate 309 '0'⟩ .number 310 longest
    rw [Cursor.advance, Token.PlainToken.read] at first
    simp only [whole, value, length, Nat.zero_add] at first
    have atEnd : ('1' :: List.replicate 309 '0').drop 310 = [] := by decide +kernel
    rw [atEnd] at first
    rw [Token.tokenize_eq_ok_iff, String.toList_ofList]
    exact ⟨_, .cons first .nil, rfl⟩
  have outcome : ((parseLeaves .main (leavesOf [⟨.number .infinity, 0, 310⟩]) 310 none).outcomeFrom
      ([.parsing 310 none] ++ [.tokenized 1])).1.toOption.map
      (fun program => (numbersOf (Program.nodes program), (Json.Format.nulls.load? Program.ofJson?
        (Json.Format.nulls.store Program.toJson program)).isNone)) =
        some ([(.infinity, ⟨0, 310⟩)], true) := by decide +kernel
  rw [parse_eq, outcomeFrom_parseSource_of_ok read, String.toList_ofList, length]
  obtain ⟨program, parsed, told⟩ := exists_ok_of_toOption_map outcome
  obtain ⟨numbers, missing⟩ := Prod.mk.inj told
  refine ⟨program, ?_, numbers, by decide, Option.isNone_iff_eq_none.mp missing⟩
  exact congrArg (Except.mapError _) parsed

end Krl
