import Krl.Proofs.Token.Blanks

/-!
# Words that are joined

Words with a dot or a dash between each two of them, and nothing else, are read as these words and
marks. What stands behind has to begin with a character that goes on with no word.
-/

namespace Krl.Token

/-- The marks that join words. -/
def joints : List Punct :=
  [.dot, .minus]

/-- The characters that join words. -/
def isJoint (char : Char) : Bool :=
  char == '.' || char == '-'

theorem exists_joint {char : Char} (joint : isJoint char = true) :
    ∃ mark ∈ joints, mark.chars = [char] := by
  rw [isJoint, Bool.or_eq_true, beq_iff_eq, beq_iff_eq] at joint
  rcases joint with rfl | rfl
  · exact ⟨.dot, List.mem_cons_self, rfl⟩
  · exact ⟨.minus, List.mem_cons_of_mem _ List.mem_cons_self, rfl⟩

theorem isJoint_of_mem {mark : Punct} (joint : mark ∈ joints) :
    ∃ char, isJoint char = true ∧ mark.chars = [char] := by
  rw [joints, List.mem_cons, List.mem_singleton] at joint
  rcases joint with rfl | rfl
  · exact ⟨_, rfl, rfl⟩
  · exact ⟨_, rfl, rfl⟩

namespace Regex

/-- One word, or several with marks that join them: `word((.|-)word)*`. -/
def joined : Regex :=
  .join .name (.many (.join (.one isJoint) .name))

theorem Matches.snoc {inner : Regex} {chars others : List Char} (first : (many inner).Matches chars)
    (last : inner.Matches others) : (many inner).Matches (chars ++ others) := by
  generalize same : many inner = regex at first
  induction first with
  | none =>
      rw [List.nil_append, ← List.append_nil others, ← same]
      exact .more last .none
  | more begins _ _ ih =>
      cases same
      rw [List.append_assoc]
      exact .more begins (ih rfl)
  | _ => cases same

theorem joined_name {name : List Char} (named : Regex.name.Matches name) : joined.Matches name := by
  rw [← List.append_nil name]
  exact .join named .none

theorem Matches.joined_snoc {chars name : List Char} {joint : Char} (before : joined.Matches chars)
    (joins : isJoint joint = true) (named : Regex.name.Matches name) :
    joined.Matches (chars ++ joint :: name) := by
  obtain ⟨first, others, word, rest, rfl⟩ := matches_join_iff.mp before
  rw [List.append_assoc]
  exact .join word (rest.snoc (.join (.one joins) named))

/-- Joined words are taken from the left. -/
@[elab_as_elim]
theorem Matches.joined_induction {motive : List Char → Prop} {chars : List Char}
    (matched : joined.Matches chars) (word : ∀ name, Regex.name.Matches name → motive name)
    (join : ∀ chars joint name, joined.Matches chars → motive chars → isJoint joint = true →
      Regex.name.Matches name → motive (chars ++ joint :: name)) : motive chars := by
  obtain ⟨first, others, named, rest, rfl⟩ := matches_join_iff.mp matched
  clear matched
  have begins := joined_name named
  have holds := word first named
  clear named
  generalize same : many (.join (.one isJoint) .name) = regex at rest
  induction rest generalizing first with
  | none =>
      rw [List.append_nil]
      exact holds
  | more next _ _ ih =>
      cases same
      obtain ⟨_, name, left, named', rfl⟩ := matches_join_iff.mp next
      obtain ⟨joint, joins, rfl⟩ := matches_one_iff.mp left
      rw [← List.append_assoc]
      exact ih _ (begins.joined_snoc joins named') (join _ _ _ begins holds joins named') rfl
  | _ => cases same

theorem not_joint_of_name {name : List Char} (named : Regex.name.Matches name) :
    ∀ char ∈ name, isJoint char = false := by
  obtain ⟨first, others, starts, accepted, rfl⟩ := matches_name_iff.mp named
  have parts : ∀ char ∈ first :: others, isWordPart char = true :=
    List.forall_mem_cons.mpr ⟨Pattern.isWordPart_of_isWordStart starts, accepted⟩
  intro char member
  refine Bool.eq_false_iff.mpr fun joint => ?_
  have part := parts char member
  rw [isJoint, Bool.or_eq_true, beq_iff_eq, beq_iff_eq] at joint
  rcases joint with rfl | rfl <;> cases part

/-- Before a mark that joins and behind it there are joined words. -/
theorem Matches.joined_split {before behind : List Char} {joint : Char}
    (matched : joined.Matches (before ++ joint :: behind)) (joins : isJoint joint = true) :
    joined.Matches before ∧ joined.Matches behind := by
  generalize same : before ++ joint :: behind = chars at matched
  suffices every : ∀ behind, before ++ joint :: behind = chars →
      joined.Matches before ∧ joined.Matches behind from every behind same
  refine matched.joined_induction ?_ ?_
  · intro name named behind same
    have member : joint ∈ name := same ▸ List.mem_append_right _ List.mem_cons_self
    rw [not_joint_of_name named joint member] at joins
    cases joins
  · intro chars other name first ih joins' named behind same
    rcases List.append_eq_append_iff.mp same with ⟨rest, rfl, ends⟩ | ⟨rest, rfl, ends⟩
    · cases rest with
      | nil =>
          cases ends
          rw [List.append_nil] at first
          exact ⟨first, joined_name named⟩
      | cons char rest =>
          cases ends
          obtain ⟨left, right⟩ := ih _ rfl
          exact ⟨left, right.joined_snoc joins' named⟩
    · cases rest with
      | nil =>
          cases ends
          rw [List.append_nil]
          exact ⟨first, joined_name named⟩
      | cons char rest =>
          cases ends
          have member : joint ∈ rest ++ joint :: behind :=
            List.mem_append_right _ List.mem_cons_self
          rw [not_joint_of_name named joint member] at joins
          cases joins

end Regex

namespace Pattern

variable {word behind : List Char}

/-- The text is empty, or begins with a character that does not go on with a word. -/
def EndsWord (behind : List Char) : Prop :=
  ∀ char ∈ behind.head?, isWordPart char = false ∧ char ≠ ':' ∧ char ≠ '#'

/-- All that can begin like a word consists of the characters of words, colons and hashes. -/
theorem wordly_of_matches {first : Char} {others : List Char} (starts : isWordStart first = true)
    {pattern : Pattern} (matched : pattern.regex.Matches (first :: others)) :
    ∀ char ∈ others, isWordPart char = true ∨ char = ':' ∨ char = '#' := by
  have told := ofText?_of_matches pattern matched
  rw [ofText?_name starts] at told
  split_ifs at told <;> cases told
  · obtain ⟨rfl, rfl⟩ := List.cons.inj (Regex.matches_text_iff.mp matched)
    exact List.forall_mem_cons.mpr ⟨.inl rfl, List.forall_mem_singleton.mpr (.inr (.inr rfl))⟩
  · obtain ⟨domain, _, left, right, same⟩ := Regex.matches_join_iff.mp matched
    obtain ⟨_, name, colon, named, rfl⟩ := Regex.matches_join_iff.mp right
    obtain rfl := Regex.matches_text_iff.mp colon
    obtain ⟨_, inside, _, accepted, rfl⟩ := Regex.matches_name_iff.mp left
    obtain ⟨start, inside', starts', accepted', rfl⟩ := Regex.matches_name_iff.mp named
    obtain ⟨rfl, rfl⟩ := List.cons.inj same
    have part := isWordPart_of_isWordStart starts'
    show ∀ char ∈ inside ++ ([':'] ++ start :: inside'), _
    simp only [List.mem_append, List.mem_cons, List.not_mem_nil, or_false]
    rintro char (member | rfl | rfl | member)
    · exact .inl (accepted char member)
    · exact .inr (.inl rfl)
    · exact .inl part
    · exact .inl (accepted' char member)
  · obtain ⟨_, _, _, accepted, same⟩ := Regex.matches_name_iff.mp matched
    obtain ⟨rfl, rfl⟩ := List.cons.inj same
    exact fun char member => .inl (accepted char member)

/-- A word is read up to where it ends. -/
theorem longest?_word (named : Regex.name.Matches word) (ends : EndsWord behind) :
    longest? (word ++ behind) = some (plain .word, word.length) := by
  refine longest?_of_longest ⟨List.prefix_append _ _, named, fun other further begins matched => ?_⟩
  by_contra longer
  obtain ⟨tail, rfl⟩ := List.prefix_of_prefix_length_le (List.prefix_append word behind) begins
    (Nat.le_of_lt (Nat.lt_of_not_le longer))
  obtain ⟨first, others, starts, _, rfl⟩ := Regex.matches_name_iff.mp named
  cases tail with
  | nil => exact longer (Nat.le_of_eq (congrArg List.length (List.append_nil _)))
  | cons char more =>
      have rest := (List.prefix_append_right_inj _).mp begins
      obtain ⟨last, rfl⟩ := rest
      have wordly := wordly_of_matches starts matched char
        (List.mem_append_right _ List.mem_cons_self)
      obtain ⟨notPart, notColon, notHash⟩ := ends char rfl
      simp [notPart, notColon, notHash] at wordly

/-- A mark that joins is read alone. A dot must not have digits behind it. -/
theorem longest?_joint {mark : Punct} (joint : mark ∈ joints)
    (ends : ∀ char ∈ behind.head?, isDigit char = false) :
    longest? (mark.chars ++ behind) = some (plain (.punct mark), mark.chars.length) := by
  refine longest?_of_extent_le (List.prefix_append _ _) .text ?_
  have digits : run isDigit behind = 0 := run_eq_length (List.forall_mem_nil _) ends
  have bound (other : Pattern) : other.extent (mark.chars ++ behind) ≤ 1 := by
    rw [joints, List.mem_cons, List.mem_singleton] at joint
    rcases joint with rfl | rfl <;> cases other with
    | opened token => cases token <;> exact Nat.le_of_ble_eq_true rfl
    | plain token =>
        cases token with
        | punct mark => cases mark <;> exact Nat.le_of_ble_eq_true rfl
        | fraction =>
            first
            | exact Nat.le_of_ble_eq_true rfl
            | refine Nat.le_trans (Nat.le_of_eq (if_pos digits)) (Nat.zero_le _)
        | _ => exact Nat.le_of_ble_eq_true rfl
  intro other
  exact Nat.le_trans (bound other) (List.length_pos_iff.mpr mark.chars_ne_nil)

end Pattern

theorem ends_joint {char : Char} {behind : List Char} (joins : isJoint char = true) :
    Pattern.EndsWord (char :: behind) := by
  rw [isJoint, Bool.or_eq_true, beq_iff_eq, beq_iff_eq] at joins
  rintro _ ⟨⟩
  rcases joins with rfl | rfl <;> decide

/-- Some tokens are words and the marks that join them, and spell the text. -/
inductive Joins : List Lexeme → List Char → Prop where
  | word {word : String} {start stop : Nat} : Joins [⟨.symbol word, start, stop⟩] word.toList
  | join {lexemes : List Lexeme} {chars : List Char} {mark : Punct} {word : String}
      {start middle middle' stop : Nat} (before : Joins lexemes chars) (joint : mark ∈ joints) :
      Joins (lexemes ++ [⟨.punct mark, start, middle⟩, ⟨.symbol word, middle', stop⟩])
        (chars ++ (mark.chars ++ word.toList))

section Reading

variable {word : String} {chars behind : List Char}

theorem reads_word (named : Regex.name.Matches word.toList) (ends : Pattern.EndsWord behind)
    (offset : Nat) :
    Reads ⟨offset, word.toList ++ behind⟩
      ⟨.symbol word, offset, offset + Text.byteLength word.toList⟩
      ⟨offset + Text.byteLength word.toList, behind⟩ := by
  have reads : Reads ⟨offset, word.toList ++ behind⟩ _ _ :=
    .plain (Pattern.longest?_word named ends)
  rw [Cursor.advance_append, List.take_left, PlainToken.read, String.ofList_toList] at reads
  exact reads

theorem reads_joint {mark : Punct} (joint : mark ∈ joints)
    (ends : ∀ char ∈ behind.head?, isDigit char = false) (offset : Nat) :
    Reads ⟨offset, mark.chars ++ behind⟩
      ⟨.punct mark, offset, offset + Text.byteLength mark.chars⟩
      ⟨offset + Text.byteLength mark.chars, behind⟩ := by
  have reads : Reads ⟨offset, mark.chars ++ behind⟩ _ _ :=
    .plain (Pattern.longest?_joint joint ends)
  rw [Cursor.advance_append] at reads
  exact reads

theorem exists_toList (chars : List Char) : ∃ text : String, chars = text.toList :=
  ⟨String.ofList chars, String.toList_ofList.symm⟩

/-- Joined words are read as words and the marks that join them. -/
theorem exists_joins (matched : Regex.joined.Matches chars) (offset : Nat)
    (ends : Pattern.EndsWord behind) :
    ∃ lexemes, Joins lexemes chars ∧
      ReadsAll ⟨offset, chars ++ behind⟩ lexemes ⟨offset + Text.byteLength chars, behind⟩ := by
  suffices every : ∀ behind, Pattern.EndsWord behind → ∃ lexemes, Joins lexemes chars ∧
      ReadsAll ⟨offset, chars ++ behind⟩ lexemes ⟨offset + Text.byteLength chars, behind⟩ from
    every behind ends
  refine matched.joined_induction ?_ ?_
  · intro name named behind ends
    obtain ⟨word, rfl⟩ := exists_toList name
    exact ⟨_, .word, .cons (reads_word named ends offset) .nil⟩
  · intro chars char name _ ih joins named behind ends
    obtain ⟨word, rfl⟩ := exists_toList name
    obtain ⟨mark, joint, same⟩ := exists_joint joins
    have apart : Pattern.EndsWord (mark.chars ++ (word.toList ++ behind)) := by
      rw [same]
      exact ends_joint joins
    obtain ⟨lexemes, before, reads⟩ := ih _ apart
    have noDigit : ∀ char ∈ (word.toList ++ behind).head?, isDigit char = false := by
      obtain ⟨first, others, starts, _, same⟩ := Regex.matches_name_iff.mp named
      rw [same]
      rintro char ⟨⟩
      exact Pattern.isDigit_of_isWordStart starts
    have more := (reads_joint joint noDigit (offset + Text.byteLength chars))
    have last := reads_word named ends
      (offset + Text.byteLength chars + Text.byteLength mark.chars)
    have whole := reads.append (.cons more (.cons last .nil))
    have spelled : chars ++ char :: word.toList = chars ++ (mark.chars ++ word.toList) := by
      rw [same, List.singleton_append]
    rw [spelled, List.append_assoc, List.append_assoc, Text.byteLength_append,
      Text.byteLength_append, ← Nat.add_assoc, ← Nat.add_assoc]
    exact ⟨_, .join before joint, whole⟩

/-- A mark is read from the characters that write it. -/
theorem Reads.rest_of_punct {cursor next : Cursor} {mark : Punct} {start stop : Nat}
    (reads : Reads cursor ⟨.punct mark, start, stop⟩ next) :
    cursor.rest = mark.chars ++ next.rest := by
  generalize same : (⟨.punct mark, start, stop⟩ : Lexeme) = lexeme at reads
  cases reads with
  | @plain _ token _ longest =>
      obtain ⟨read, rfl, rfl⟩ := Lexeme.mk.inj same
      cases token <;> cases read
      obtain ⟨rfl, behind, here⟩ := Pattern.eq_append_of_longest? longest rfl
      rw [Cursor.advance, here, List.drop_left]
  | _ => cases same

/-- A word is read from the characters that write it. -/
theorem Reads.rest_of_symbol {cursor next : Cursor} {word : String} {start stop : Nat}
    (reads : Reads cursor ⟨.symbol word, start, stop⟩ next) :
    Regex.name.Matches word.toList ∧ cursor.rest = word.toList ++ next.rest := by
  generalize same : (⟨.symbol word, start, stop⟩ : Lexeme) = lexeme at reads
  cases reads with
  | @plain _ token length longest =>
      obtain ⟨read, rfl, rfl⟩ := Lexeme.mk.inj same
      cases token <;> cases read
      rw [String.toList_ofList]
      exact ⟨(Pattern.longest_of_longest? longest).matched, (List.take_append_drop _ _).symm⟩
  | _ => cases same

/-- Words and marks that are read one right after another are read from joined words. -/
theorem Joins.rest_of_readsAll {lexemes : List Lexeme} {cursor final : Cursor}
    (joins : Joins lexemes chars) (reads : ReadsAll cursor lexemes final) :
    Regex.joined.Matches chars ∧ cursor.rest = chars ++ final.rest := by
  induction joins generalizing final with
  | word =>
      cases reads with
      | cons first done =>
          cases done
          obtain ⟨named, here⟩ := first.rest_of_symbol
          exact ⟨Regex.joined_name named, here⟩
  | @join lexemes chars mark word _ _ _ _ _ joint ih =>
      obtain ⟨middle, before, reads⟩ := reads.split lexemes
      cases reads with
      | cons second reads =>
          cases reads with
          | cons last done =>
              cases done
              obtain ⟨matched, here⟩ := ih before
              obtain ⟨named, rest⟩ := last.rest_of_symbol
              rw [second.rest_of_punct, rest] at here
              obtain ⟨char, joins, same⟩ := isJoint_of_mem joint
              refine ⟨?_, ?_⟩
              · rw [same, List.singleton_append]
                exact matched.joined_snoc joins named
              · simpa only [List.append_assoc] using here

/-- Joined words have no braces, and are not trivia. -/
theorem Joins.forall_mem {lexemes : List Lexeme} (joins : Joins lexemes chars) :
    ∀ lexeme ∈ lexemes, lexeme.token.isTrivia = false ∧ lexeme.token ≠ .punct .leftBrace := by
  induction joins with
  | word => simp [isTrivia]
  | join _ joint ih =>
      rw [List.forall_mem_append]
      refine ⟨ih, ?_⟩
      have other : ∀ mark ∈ joints, mark ≠ .leftBrace := by decide
      simp [isTrivia, other _ joint]

theorem significant_of_forall {lexemes : List Lexeme}
    (visible : ∀ lexeme ∈ lexemes, lexeme.token.isTrivia = false) :
    significant lexemes = lexemes := by
  rw [significant, List.filter_eq_self]
  intro lexeme member
  rw [visible lexeme member]
  rfl

end Reading

section Fragments

variable {chars behind : List Char}

/-- The text is empty, or begins like space or a comment. -/
def BeginsBlank (behind : List Char) : Prop :=
  ∀ char ∈ behind.head?, isSpace char = true ∨ char = '/'

theorem BeginsBlank.endsWord (begins : BeginsBlank behind) : Pattern.EndsWord behind := by
  intro char first
  rcases begins char first with space | rfl
  · rcases eq_of_isSpace space with rfl | rfl | rfl | rfl | rfl <;> decide
  · decide

theorem BeginsBlank.not_isDigit (begins : BeginsBlank behind) :
    ∀ char ∈ behind.head?, isDigit char = false := by
  intro char first
  have other := (begins.endsWord char first).1
  rw [isWordPart, Bool.or_eq_false_iff] at other
  exact other.2

/-- Trivia begins with a space or a slash. -/
theorem Reads.beginsBlank {cursor next : Cursor} {lexeme : Lexeme}
    (reads : Reads cursor lexeme next)
    (trivia : lexeme.token.isTrivia = true) : BeginsBlank cursor.rest := by
  have begins {char : Char} {others : List Char} (here : char :: others = cursor.rest)
      (known : isSpace char = true ∨ char = '/') : BeginsBlank cursor.rest := by
    rw [← here]
    rintro _ ⟨⟩
    exact known
  cases reads with
  | @plain _ token length longest =>
      obtain ⟨⟨rest, whole⟩, matched, _⟩ := Pattern.longest_of_longest? longest
      cases token with
      | spaces =>
          obtain ⟨char, others, space, _, same⟩ := Regex.matches_repeated_one_iff.mp matched
          rw [same] at whole
          exact begins whole (.inl space)
      | lineComment =>
          obtain ⟨_, others, opens, _, same⟩ := Regex.matches_join_iff.mp matched
          rw [same, Regex.matches_text_iff.mp opens] at whole
          exact begins whole (.inr rfl)
      | _ => cases trivia
  | blockComment longest _ =>
      obtain ⟨_, rest, here⟩ := Pattern.eq_append_of_longest? longest rfl
      exact begins here.symm (.inr rfl)
  | string | regexp | chevron => cases trivia

/-- A text that is read as space and comments begins like these. -/
theorem IsBlank.begins (blank : IsBlank chars) (nonempty : chars ≠ []) :
    BeginsBlank (chars ++ behind) := by
  obtain ⟨lexemes, read, none_⟩ := blank
  obtain ⟨final, reads, atEnd⟩ := tokenize_eq_ok_iff.mp read
  rw [String.toList_ofList] at reads
  cases reads with
  | nil => exact absurd atEnd nonempty
  | @cons _ _ _ lexeme _ first _ =>
      have trivia : lexeme.token.isTrivia = true := by
        rw [significant, List.filter_eq_nil_iff] at none_
        simpa using none_ lexeme List.mem_cons_self
      obtain ⟨char, others, rfl⟩ := List.exists_cons_of_ne_nil nonempty
      exact first.beginsBlank trivia

/-- A text without space that is read alike before space, comments and the end. -/
structure Fragment (chars : List Char) : Prop where
  nonempty : chars ≠ []
  solid : ∀ char ∈ chars, isSpace char = false
  reads : ∀ (behind : List Char), BeginsBlank behind → ∀ offset, ∃ lexemes, lexemes ≠ [] ∧
    (∀ lexeme ∈ lexemes, lexeme.token.isTrivia = false ∧ lexeme.token ≠ .punct .leftBrace) ∧
      ReadsAll ⟨offset, chars ++ behind⟩ lexemes ⟨offset + Text.byteLength chars, behind⟩

theorem Joins.ne_nil {lexemes : List Lexeme} (joins : Joins lexemes chars) : lexemes ≠ [] := by
  cases joins <;> simp

theorem isSpace_of_joint {char : Char} (joins : isJoint char = true) : isSpace char = false := by
  rw [isJoint, Bool.or_eq_true, beq_iff_eq, beq_iff_eq] at joins
  rcases joins with rfl | rfl <;> rfl

theorem isSpace_of_name {name : List Char} (named : Regex.name.Matches name) :
    ∀ char ∈ name, isSpace char = false := by
  obtain ⟨first, others, starts, accepted, rfl⟩ := Regex.matches_name_iff.mp named
  have parts : ∀ char ∈ first :: others, isWordPart char = true :=
    List.forall_mem_cons.mpr ⟨Pattern.isWordPart_of_isWordStart starts, accepted⟩
  intro char member
  refine Bool.eq_false_iff.mpr fun space => ?_
  have part := parts char member
  rcases eq_of_isSpace space with rfl | rfl | rfl | rfl | rfl <;> cases part

theorem isSpace_of_joined (matched : Regex.joined.Matches chars) :
    ∀ char ∈ chars, isSpace char = false := by
  refine matched.joined_induction (fun _ named => isSpace_of_name named) ?_
  intro chars joint name _ ih joins named
  rw [List.forall_mem_append, List.forall_mem_cons]
  exact ⟨ih, isSpace_of_joint joins, isSpace_of_name named⟩

/-- Joined words begin with the first character of a word. -/
theorem starts_of_joined (matched : Regex.joined.Matches chars) :
    ∃ first others, chars = first :: others ∧ isWordStart first = true := by
  obtain ⟨_, rest, named, _, rfl⟩ := Regex.matches_join_iff.mp matched
  obtain ⟨first, others, starts, _, rfl⟩ := Regex.matches_name_iff.mp named
  exact ⟨first, others ++ rest, rfl, starts⟩

variable {char : Char}

theorem fragment_joined (matched : Regex.joined.Matches chars) : Fragment chars where
  nonempty := by
    obtain ⟨_, _, rfl, _⟩ := starts_of_joined matched
    exact List.cons_ne_nil _ _
  solid := isSpace_of_joined matched
  reads := by
    intro behind begins offset
    obtain ⟨lexemes, joins, reads⟩ := exists_joins matched offset begins.endsWord
    exact ⟨lexemes, joins.ne_nil, joins.forall_mem, reads⟩

theorem brace_of_joint {mark : Punct} (joint : mark ∈ joints) {start stop : Nat} :
    ∀ lexeme ∈ [(⟨.punct mark, start, stop⟩ : Lexeme)],
      lexeme.token.isTrivia = false ∧ lexeme.token ≠ .punct .leftBrace := by
  have other : ∀ mark ∈ joints, mark ≠ .leftBrace := by decide
  simp [isTrivia, other _ joint]

/-- Joined words with another mark behind them. -/
theorem fragment_snoc (matched : Regex.joined.Matches chars) (joins : isJoint char = true) :
    Fragment (chars ++ [char]) where
  nonempty := by simp
  solid := List.forall_mem_append.mpr
    ⟨isSpace_of_joined matched, List.forall_mem_singleton.mpr (isSpace_of_joint joins)⟩
  reads := by
    intro behind begins offset
    obtain ⟨mark, joint, same⟩ := exists_joint joins
    have ends : Pattern.EndsWord (mark.chars ++ behind) := by
      rw [same]
      exact ends_joint joins
    obtain ⟨lexemes, words, reads⟩ := exists_joins matched offset ends
    have last := reads_joint joint begins.not_isDigit (offset + Text.byteLength chars)
    rw [← same, List.append_assoc, Text.byteLength_append, ← Nat.add_assoc]
    exact ⟨_, by simp, List.forall_mem_append.mpr ⟨words.forall_mem, brace_of_joint joint⟩,
      reads.append (.cons last .nil)⟩

/-- Joined words with another mark before them. -/
theorem fragment_cons (joins : isJoint char = true) (matched : Regex.joined.Matches chars) :
    Fragment (char :: chars) where
  nonempty := List.cons_ne_nil _ _
  solid := List.forall_mem_cons.mpr ⟨isSpace_of_joint joins, isSpace_of_joined matched⟩
  reads := by
    intro behind begins offset
    obtain ⟨mark, joint, same⟩ := exists_joint joins
    have noDigit : ∀ char ∈ (chars ++ behind).head?, isDigit char = false := by
      obtain ⟨first, others, rfl, starts⟩ := starts_of_joined matched
      rintro char ⟨⟩
      exact Pattern.isDigit_of_isWordStart starts
    have first := reads_joint joint noDigit offset
    obtain ⟨lexemes, words, reads⟩ :=
      exists_joins matched (offset + Text.byteLength mark.chars) begins.endsWord
    rw [← List.singleton_append (x := char), ← same, List.append_assoc, Text.byteLength_append,
      ← Nat.add_assoc]
    exact ⟨_, by simp, List.forall_mem_append.mpr ⟨brace_of_joint joint, words.forall_mem⟩,
      .cons first reads⟩

end Fragments

end Krl.Token
