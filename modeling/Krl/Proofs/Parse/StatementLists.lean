import Krl.Proofs.Parse.Ambiguity
import Krl.Proofs.Parse.EventPrecedence
import Krl.Proofs.Parse.Slices
import Krl.Proofs.Token.Gaps

/-!
# Lists of expressions

Expressions with semicolons between them are the statements of a source. Each of them has the
value that it has by itself, at the offset where it stands.
-/

namespace Krl

open Grammar Productions Token

namespace Productions

/-- The productions of statements. -/
theorem statements_mem :
    rule .main [the .statements] (fun _ items => .statements items) ∈ rulesetRules ∧
    same .statements .statementSequence id ∈ statements ∧
    rule .statements [the .statementSequence, mark .semicolon] (fun _ items _ => items) ∈
      statements ∧
    rule .statementSequence [the .statement] (fun _ item => [item]) ∈ statements ∧
    rule .statementSequence [the .statementSequence, mark .semicolon, the .statement]
      (fun _ items _ item => items ++ [item]) ∈ statements ∧
    rule .statement [the .expression] (fun _ value => ⟨.expression value, value.span⟩) ∈
      statements := by
  simp only [rulesetRules, rulesets, statements, List.mem_append, List.mem_cons, eq_self,
    true_or, or_true, and_self]

theorem mem_of_statements {entry : Entry} (listed : entry ∈ statements) :
    entry ∈ language.reductions :=
  List.mem_append_right _ (List.mem_append_right _ listed)

end Productions

/-- A text that is an expression by itself has the same value where its tokens stand in a
source. -/
theorem phrase_of_parseExpression {text : String} {lexemes : List Lexeme} {value : Expr}
    (read : tokenize text = .ok lexemes) (parsed : parseExpression text = .ok value) {base : Nat}
    {input : Input Leaf} {first last : Nat}
    (stand : Stand input first ((significant lexemes).map (Lexeme.shift base)) last) :
    Phrase input .expression first last (value.placed (· + base)) := by
  rw [parseExpression_eq] at parsed
  obtain ⟨lexemes', read', yields⟩ := exists_yields_of_parseSource parsed
  cases read.symm.trans read'
  obtain ⟨tree, derivation, yields⟩ := exists_derivation_of_parseLeaves yields
  have among : ∀ symbol ∈ [Symbol.nonterminal Nonterminal.expression],
      symbol.Among (T := Terminal) expressionNames := by decide
  have shifted := lexemesAlike_shift base lexemes
  have alike := shifted.leavesAlike (shifted.leaves (placement_shift base))
  rw [leavesOf_eq_map ((significant lexemes).map (Lexeme.shift base)), ← stand.piece_eq] at alike
  have long := stand.last_eq
  rw [List.length_map] at long
  have place : (significant lexemes).length = last - first := by omega
  rw [place] at derivation
  have whole := (alike.indistinct.derives derivation).of_piece independent_expressions among
  rw [Nat.zero_add, Nat.sub_add_cancel stand.le] at whole
  have covers := Distinction.expression_nonempty whole
  have agrees := agrees_evaluate (whole.stop_le_of_lt covers) alike derivation
    (Text.byteLength text.toList) input.stop
  refine ⟨_, whole, fun trace => ?_⟩
  obtain ⟨result, same, outcome⟩ := agrees.symm.exists_of_yields yields trace
  have same : value.placed (· + base) = result.placed id := same
  rw [same, Expr.placed_id]
  exact outcome

/-- An expression in a list, with space around it. -/
structure Listed where
  before : String
  text : String
  behind : String
  value : Expr

namespace Listed

/-- The text is that of an expression, and does not end in a comment that would go on. -/
structure Sound (item : Listed) : Prop where
  before : IsGap item.before.toList
  parsed : parseExpression item.text = .ok item.value
  ended : ∀ lexemes, tokenize item.text = .ok lexemes →
    ∀ lexeme ∈ lexemes.getLast?, lexeme.token ≠ .lineComment
  behind : IsGap item.behind.toList

/-- The text with the space around it. -/
def written (item : Listed) : String :=
  item.before ++ item.text ++ item.behind

variable (item : Listed) (offset : Nat)

/-- Where the expression begins. -/
def start : Nat :=
  offset + Text.byteLength item.before.toList

/-- Where the space behind the expression ends. -/
def stop : Nat :=
  offset + Text.byteLength item.written.toList

/-- The statement that is the expression, at its place. -/
def statement : Stmt :=
  let value := item.value.placed (· + item.start offset)
  ⟨.expression value, value.span⟩

/-- The tokens of the expression that the grammar sees, at their places. -/
def lexemes : List Lexeme :=
  match tokenize item.text with
  | .ok lexemes => (significant lexemes).map (Lexeme.shift (item.start offset))
  | .error _ => []

variable {item} {offset}

theorem toList_written :
    item.written.toList = item.before.toList ++ (item.text.toList ++ item.behind.toList) := by
  rw [written, String.toList_append, String.toList_append, List.append_assoc]

theorem lexemes_eq {own : List Lexeme} (read : tokenize item.text = .ok own) :
    item.lexemes offset = (significant own).map (Lexeme.shift (item.start offset)) := by
  rw [lexemes, read]

/-- An expression has tokens. -/
theorem Sound.exists_tokens (sound : item.Sound) :
    ∃ own, tokenize item.text = .ok own ∧ significant own ≠ [] := by
  have parsed := sound.parsed
  rw [parseExpression_eq] at parsed
  obtain ⟨own, read, yields⟩ := exists_yields_of_parseSource parsed
  obtain ⟨_, derivation, _⟩ := exists_derivation_of_parseLeaves yields
  refine ⟨own, read, fun none_ => ?_⟩
  have covers := Distinction.expression_nonempty derivation
  rw [none_] at covers
  exact Nat.lt_irrefl _ covers

/-- The tokens of an expression are read up to its end, if nothing goes on there. -/
theorem Sound.exists_readsAll (sound : item.Sound) {behind : List Char} (apart : Apart behind)
    (ends : ∀ char ∈ behind.head?, isSpace char = false) (offset : Nat) :
    ∃ lexemes, ReadsAll ⟨offset, item.written.toList ++ behind⟩ lexemes ⟨item.stop offset, behind⟩ ∧
      significant lexemes = item.lexemes offset := by
  obtain ⟨own, read, some_⟩ := sound.exists_tokens
  rw [stop, lexemes_eq read, toList_written, List.append_assoc, List.append_assoc]
  exact exists_readsAll_padded read some_ (sound.ended own read) sound.before sound.behind apart
    ends offset

/-- The tokens of an expression form a statement. -/
theorem Sound.phrase (sound : item.Sound) {input : Input Leaf} {first last : Nat}
    (stand : Stand input first (item.lexemes offset) last) :
    Phrase input .statement first last (item.statement offset) := by
  obtain ⟨own, read, _⟩ := sound.exists_tokens
  rw [lexemes_eq read] at stand
  exact phrase_of_rule (mem_of_statements statements_mem.2.2.2.2.2)
    (supplies_phrase (phrase_of_parseExpression read sound.parsed stand) .nil)

end Listed

/-- The token between two expressions. -/
def semicolon (offset : Nat) : Lexeme :=
  (Fixed.mark .semicolon).lexeme ⟨offset, offset + 1⟩

/-- Expressions as statements, each behind the semicolon of the one before it. -/
def statementsFrom (offset : Nat) : List Listed → List Stmt
  | [] => []
  | item :: others => item.statement offset :: statementsFrom (item.stop offset + 1) others

/-- What is written behind an expression, each other one with a semicolon before it. -/
def writtenBehind (others : List Listed) : List Char :=
  others.flatMap fun other => ';' :: other.written.toList

/-- The tokens behind an expression. -/
def lexemesBehind (offset : Nat) : List Listed → List Lexeme
  | [] => []
  | other :: others => semicolon offset ::
      (other.lexemes (offset + 1) ++ lexemesBehind (other.stop (offset + 1)) others)

/-- What may end a list: nothing, or a semicolon with space behind it. -/
def Closes (closing : List Char) : Prop :=
  closing = [] ∨ ∃ gap, IsGap gap ∧ closing = ';' :: gap

section Lists

variable {item : Listed} {others : List Listed} {closing : List Char} {offset : Nat}

theorem writtenBehind_cons (other : Listed) (others : List Listed) (closing : List Char) :
    writtenBehind (other :: others) ++ closing =
      ';' :: (other.written.toList ++ (writtenBehind others ++ closing)) := by
  rw [writtenBehind, List.flatMap_cons, List.cons_append, List.cons_append, List.append_assoc]
  rfl

theorem toList_intercalate_written (item : Listed) (others : List Listed) :
    (";".intercalate ((item :: others).map Listed.written)).toList =
      item.written.toList ++ writtenBehind others := by
  induction others generalizing item with
  | nil => rw [List.map_singleton, String.intercalate_singleton, writtenBehind, List.flatMap_nil,
      List.append_nil]
  | cons other others ih =>
      rw [List.map_cons, List.map_cons, String.intercalate_cons_cons, ← List.map_cons,
        String.toList_append, String.toList_append, ih, List.append_assoc]
      rw [← List.append_nil (writtenBehind (other :: others)), writtenBehind_cons, List.append_nil]
      rfl

/-- A semicolon is read by itself. -/
theorem longest?_semicolon (behind : List Char) :
    Pattern.longest? (';' :: behind) = some (.plain (.punct .semicolon), 1) := by
  have bound (other : Pattern) : other.extent (';' :: behind) ≤ 1 := by
    cases other with
    | opened token => cases token <;> exact Nat.le_of_ble_eq_true rfl
    | plain token =>
        cases token with
        | punct mark => cases mark <;> exact Nat.le_of_ble_eq_true rfl
        | _ => exact Nat.le_of_ble_eq_true rfl
  exact Pattern.longest?_of_extent_le (List.prefix_append [';'] behind) .text bound

theorem reads_semicolon (offset : Nat) (behind : List Char) :
    Reads ⟨offset, ';' :: behind⟩ (semicolon offset) ⟨offset + 1, behind⟩ := by
  have one : Text.byteLength [';'] = 1 := by decide
  have stops : Cursor.advance ⟨offset, ';' :: behind⟩ 1 =
      ⟨offset + Text.byteLength [';'], behind⟩ :=
    Cursor.advance_append offset [';'] behind
  have reads : Reads ⟨offset, ';' :: behind⟩ _ _ := .plain (longest?_semicolon behind)
  rw [stops, one] at reads
  exact reads

theorem begins_behind (closes : Closes closing) (others : List Listed) :
    ∀ char ∈ (writtenBehind others ++ closing).head?, char = ';' := by
  cases others with
  | nil =>
      rcases closes with rfl | ⟨gap, _, rfl⟩
      · exact nofun
      · rintro _ ⟨⟩
        rfl
  | cons other others =>
      rintro _ ⟨⟩
      rfl

/-- The tokens of an expression in a list. -/
theorem Listed.Sound.exists_readsAll_behind (sound : item.Sound) (closes : Closes closing)
    (others : List Listed) (offset : Nat) :
    ∃ lexemes, ReadsAll ⟨offset, item.written.toList ++ (writtenBehind others ++ closing)⟩ lexemes
        ⟨item.stop offset, writtenBehind others ++ closing⟩ ∧
      significant lexemes = item.lexemes offset := by
  have begins := begins_behind closes others
  refine sound.exists_readsAll (fun char first => ?_) (fun char first => ?_) offset
  · rw [begins char first]
    decide
  · rw [begins char first]
    decide

/-- The tokens behind an expression are read to the end of the list. -/
theorem exists_readsAll_behind (closes : Closes closing) (sound : ∀ other ∈ others, other.Sound)
    (offset : Nat) :
    ∃ lexemes final ending, ReadsAll ⟨offset, writtenBehind others ++ closing⟩ lexemes final ∧
      final.rest = [] ∧ significant lexemes = lexemesBehind offset others ++ ending ∧
        (ending = [] ∨ ∃ place, ending = [semicolon place]) := by
  induction others generalizing offset with
  | nil =>
      rcases closes with rfl | ⟨gap, blank, rfl⟩
      · exact ⟨[], _, [], .nil, rfl, rfl, .inl rfl⟩
      · obtain ⟨space, reads, none_⟩ := @exists_readsAll_of_gap gap [] blank nofun (offset + 1)
        rw [List.append_nil] at reads
        refine ⟨_, _, _, .cons (reads_semicolon offset gap) reads, rfl, ?_, .inr ⟨offset, rfl⟩⟩
        exact congrArg (semicolon offset :: ·) none_
  | cons other others ih =>
      obtain ⟨first, rest⟩ := List.forall_mem_cons.mp sound
      obtain ⟨own, reads, seen⟩ := first.exists_readsAll_behind closes others (offset + 1)
      obtain ⟨lexemes, final, ending, reads', atEnd, seen', ends⟩ :=
        ih rest (other.stop (offset + 1))
      rw [writtenBehind_cons]
      refine ⟨_, final, ending, .cons (reads_semicolon offset _) (reads.append reads'), atEnd, ?_,
        ends⟩
      show semicolon offset :: significant (own ++ lexemes) = _
      rw [significant_append, seen, seen', lexemesBehind, List.cons_append, List.append_assoc]

/-- Statements go on with the expressions behind them. -/
theorem phrase_behind (sound : ∀ other ∈ others, other.Sound) {input : Input Leaf}
    {first here last : Nat} {values : List Stmt}
    (phrase : Phrase input .statementSequence first here values)
    (stand : Stand input here (lexemesBehind offset others) last) :
    Phrase input .statementSequence first last (values ++ statementsFrom (offset + 1) others) := by
  induction others generalizing offset here values with
  | nil =>
      cases stand
      rw [statementsFrom, List.append_nil]
      exact phrase
  | cons other others ih =>
      obtain ⟨head, rest⟩ := List.forall_mem_cons.mp sound
      obtain ⟨found, stand⟩ := stand
      obtain ⟨middle, own, behind⟩ := stand_append_iff.mp stand
      obtain ⟨_, between⟩ := Fixed.exists_datum found
      have longer := phrase_of_rule (mem_of_statements statements_mem.2.2.2.2.1)
        (supplies_joined phrase between (head.phrase own))
      rw [statementsFrom, List.append_cons]
      exact ih rest longer behind

theorem length_statementsFrom (offset : Nat) (items : List Listed) :
    (statementsFrom offset items).length = items.length := by
  induction items generalizing offset with
  | nil => rfl
  | cons item others ih => rw [statementsFrom, List.length_cons, List.length_cons, ih]

/-- Each statement is the expression in its place, at the offset of all that is written before. -/
theorem getElem?_statementsFrom (offset : Nat) (front : List Listed) (item : Listed)
    (back : List Listed) :
    (statementsFrom offset (front ++ item :: back))[front.length]? = some (item.statement
      (offset + Text.byteLength (front.flatMap fun other => other.written.toList ++ [';']))) := by
  induction front generalizing offset with
  | nil => rfl
  | cons other others ih =>
      rw [List.cons_append, statementsFrom, List.length_cons, List.getElem?_cons_succ, ih,
        List.flatMap_cons, Text.byteLength_append, Text.byteLength_append, Listed.stop]
      simp only [Nat.add_assoc]
      rfl

/-- Expressions with semicolons between them, and perhaps one behind the last of them, form
statements. -/
theorem phrase_statements (sound : item.Sound) (rest : ∀ other ∈ others, other.Sound)
    {ending : List Lexeme} (ends : ending = [] ∨ ∃ place, ending = [semicolon place])
    {input : Input Leaf} {first last : Nat}
    (stand : Stand input first
      (item.lexemes offset ++ (lexemesBehind (item.stop offset) others ++ ending)) last) :
    Phrase input .statements first last (statementsFrom offset (item :: others)) := by
  obtain ⟨here, own, stand⟩ := stand_append_iff.mp stand
  obtain ⟨middle, behind, closed⟩ := stand_append_iff.mp stand
  have one := phrase_of_rule (mem_of_statements statements_mem.2.2.2.1)
    (supplies_phrase (sound.phrase own) .nil)
  have sequence := phrase_behind rest one behind
  rcases ends with rfl | ⟨place, rfl⟩
  · cases closed
    exact phrase_of_same (mem_of_statements statements_mem.2.1) sequence
  · obtain ⟨found, rfl⟩ := closed
    obtain ⟨_, between⟩ := Fixed.exists_datum found
    exact phrase_of_rule (mem_of_statements statements_mem.2.2.1)
      (supplies_phrase sequence (.terminal between .nil))

/-- Expressions with semicolons between them have one derivation, whose value is the list of
them. -/
theorem outcome_expressions (sound : item.Sound) (rest : ∀ other ∈ others, other.Sound)
    (closing : String) (closes : Closes closing.toList) (trace : List TraceEvent) :
    ((parseSource .main
        (";".intercalate ((item :: others).map Listed.written) ++ closing)).outcomeFrom trace).1 =
      .ok (.statements (statementsFrom 0 (item :: others))) := by
  obtain ⟨own, reads, seen⟩ := sound.exists_readsAll_behind closes others 0
  obtain ⟨lexemes, final, ending, reads', atEnd, seen', ends⟩ :=
    exists_readsAll_behind closes rest (item.stop 0)
  have whole : significant (own ++ lexemes) =
      item.lexemes 0 ++ (lexemesBehind (item.stop 0) others ++ ending) := by
    rw [significant_append, seen, seen']
  have read : tokenize (";".intercalate ((item :: others).map Listed.written) ++ closing) =
      .ok (own ++ lexemes) := by
    refine tokenize_eq_ok_iff.mpr ⟨final, ?_, atEnd⟩
    rw [String.toList_append, toList_intercalate_written, List.append_assoc]
    exact reads.append reads'
  have stand := stand_leavesOf (item.lexemes 0 ++ (lexemesBehind (item.stop 0) others ++ ending))
    (Text.byteLength (";".intercalate ((item :: others).map Listed.written) ++ closing).toList)
  have statements := phrase_statements sound rest ends stand
  have ⟨_, derivation, _⟩ := statements
  exact outcome_of_phrase .main read whole (main_subsingleton_of_statements derivation)
    (phrase_of_rule (mem_of_rulesetRules statements_mem.1) (supplies_phrase statements .nil)) trace

end Lists

/-- Lists of statements and single expressions go together. Any texts that are expressions by
themselves are the statements of a source when semicolons stand between them, with space around
them or not, unless one ends in a comment that would go on. There may be a semicolon behind the last
one. Each statement holds the value of its text, with all places shifted by the offset at which the
text stands, and covers the bytes of the expression. -/
theorem parse_expressions (items : List Listed) (nonempty : items ≠ [])
    (sound : ∀ item ∈ items, item.Sound) (closing : String) (closes : Closes closing.toList)
    (options : ParseOptions) :
    ∃ statements, parse (";".intercalate (items.map Listed.written) ++ closing) options =
        .ok (.statements statements) ∧
      statements.length = items.length ∧
      ∀ front item back, items = front ++ item :: back →
        statements[front.length]? = some (item.statement
          (Text.byteLength (front.flatMap fun other => other.written.toList ++ [';']))) := by
  obtain ⟨first, others, rfl⟩ := List.exists_cons_of_ne_nil nonempty
  obtain ⟨head, rest⟩ := List.forall_mem_cons.mp sound
  refine ⟨statementsFrom 0 (first :: others), ?_, length_statementsFrom _ _, ?_⟩
  · rw [parse_eq, outcome_expressions head rest closing closes]
    rfl
  · intro front item back same
    rw [same, getElem?_statementsFrom, Nat.zero_add]

/-- A name twice, with a comment behind it that ends with its line. -/
theorem parse_expressions_two :
    ∃ statements, parse "b // c\n; b // c\n;" .none = .ok (.statements statements) ∧
      statements.map Stmt.span = [⟨0, 1⟩, ⟨9, 10⟩] := by
  have covers : (parseExpression "b // c\n").toOption.map Expr.span = some ⟨0, 1⟩ := by
    decide +kernel
  have ends : ((tokenize "b // c\n").toOption.all fun lexemes =>
      lexemes.getLast?.all fun lexeme => lexeme.token.display != "comment") = true := by
    decide +kernel
  have ended : ∀ lexemes, tokenize "b // c\n" = .ok lexemes →
      ∀ lexeme ∈ lexemes.getLast?, lexeme.token ≠ .lineComment := by
    intro lexemes read lexeme last comment
    rw [read, Except.toOption, Option.all_some, last, Option.all_some, comment] at ends
    cases ends
  obtain ⟨value, parsed, span⟩ := exists_ok_of_toOption_map covers
  have blank : IsGap " ".toList := List.forall_mem_singleton.mpr rfl
  have sound : ∀ item ∈ [(⟨"", "b // c\n", "", value⟩ : Listed), ⟨" ", "b // c\n", "", value⟩],
      item.Sound :=
    List.forall_mem_cons.mpr ⟨⟨List.forall_mem_nil _, parsed, ended, List.forall_mem_nil _⟩,
      List.forall_mem_singleton.mpr ⟨blank, parsed, ended, List.forall_mem_nil _⟩⟩
  obtain ⟨statements, outcome, two, each⟩ := parse_expressions _ (List.cons_ne_nil _ _) sound
    ";" (.inr ⟨[], List.forall_mem_nil _, rfl⟩) .none
  refine ⟨statements, outcome, ?_⟩
  obtain ⟨one, other, rfl⟩ := List.length_eq_two.mp two
  cases each [] _ _ rfl
  cases each [_] _ _ rfl
  simp only [List.map_cons, List.map_nil, Listed.statement, Listed.start, Expr.span_placed,
    span, List.flatMap_cons, List.flatMap_nil, Listed.toList_written]
  decide

end Krl
