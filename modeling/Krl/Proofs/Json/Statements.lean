import Krl.Proofs.Json.Expressions

/-!
# Statements as documents

Statements and what they are made of, and with them the trees of expressions and statements
as a whole: their readers undo their writers up to every depth, by induction on the depth.
-/

namespace Krl

open Json

section Words

variable (bound : Nat)

theorem BlockType.inverts : Inverts bound (fun _ => True)
    (fun blockType => Json.string (BlockType.name blockType))
    (oneOf? BlockType.all BlockType.name) :=
  inverts_oneOf bound fun blockType => by cases blockType <;> rfl

theorem LogLevel.inverts : Inverts bound (fun _ => True)
    (fun level => Json.string (LogLevel.name level)) (oneOf? LogLevel.all LogLevel.name) :=
  inverts_oneOf bound fun level => by cases level <;> rfl

end Words

section Parts

variable {bound : Nat} {expr? : Json → Option Expr} {stmt? : Json → Option Stmt}
  (expr : Inverts bound Expr.Storable Expr.toJson expr?)
  (stmt : Inverts bound Stmt.Storable Stmt.toJson stmt?)
include expr

theorem Action.inverts : Inverts bound Action.Storable Action.toJson (Action.ofJson? expr?) :=
  inverts_record (Nat.le_succ _) [⟨"label", (Identifier.inverts bound).optional⟩,
      ⟨"action", expr.required⟩, ⟨"args", (Arguments.inverts expr).required⟩,
      ⟨"setting", (Identifier.inverts bound).list.required⟩,
      ⟨"span", (Span.inverts bound).required⟩] Action.mk (by simp)
    (fun value => by cases value; exact ⟨(_, _, _, _, _, ()), rfl⟩) (fun _ => rfl)
    (fun _ => by simp [Action.Storable]) fun _ _ _ _ _ => rfl

theorem ActionBlock.inverts :
    Inverts bound ActionBlock.Storable ActionBlock.toJson (ActionBlock.ofJson? expr?) :=
  inverts_record (Nat.le_succ _) [⟨"condition", expr.optional⟩,
      ⟨"block_type", (BlockType.inverts bound).required⟩, ⟨"discriminant", expr.optional⟩,
      ⟨"actions", (Action.inverts expr).list.required⟩, ⟨"span", (Span.inverts bound).required⟩]
    ActionBlock.mk (by simp) (fun value => by cases value; exact ⟨(_, _, _, _, _, ()), rfl⟩)
    (fun _ => by simp [ActionBlock.toJson]) (fun _ => by simp [ActionBlock.Storable])
    fun _ _ _ _ _ => rfl

theorem ScheduleTiming.inverts :
    Inverts bound ScheduleTiming.Storable ScheduleTiming.toJson (ScheduleTiming.ofJson? expr?) where
  solid value := by cases value <;> nofun
  returns value isStorable shallow := by
    cases value <;>
      simp only [ScheduleTiming.Storable, ScheduleTiming.toJson] at isStorable shallow ⊢ <;>
      refine And.imp_left plain_variant ?_ <;>
      replace shallow := (throughout_variant.1 shallow).2
    case «at» time => exact returns_bare expr.required ScheduleTiming.at isStorable shallow
    case «repeat» timespec =>
      exact returns_bare expr.required ScheduleTiming.repeat isStorable shallow
  sound document value finite decoded := by
    obtain ⟨alternative, finite, decoded⟩ := finite_variant finite decoded
    split at decoded
    · obtain ⟨time, isStorable, rfl⟩ := storable_bare expr.required finite decoded
      exact isStorable
    · obtain ⟨timespec, isStorable, rfl⟩ := storable_bare expr.required finite decoded
      exact isStorable
    · contradiction

theorem GuardCondition.inverts :
    Inverts bound GuardCondition.Storable GuardCondition.toJson (GuardCondition.ofJson? expr?) where
  solid value := by cases value <;> nofun
  returns value isStorable shallow := by
    cases value <;>
      simp only [GuardCondition.Storable, GuardCondition.toJson] at isStorable shallow ⊢
    case onFinal => exact ⟨(throughout_scalar rfl).2 trivial, rfl⟩
    case «if» test =>
      refine And.imp_left plain_variant ?_
      exact returns_bare expr.required GuardCondition.if isStorable (throughout_variant.1 shallow).2
  sound document value finite decoded := by
    obtain ⟨alternative, finite, decoded⟩ := finite_variant finite decoded
    split at decoded
    · exact unit_eq decoded ▸ trivial
    · obtain ⟨test, isStorable, rfl⟩ := storable_bare expr.required finite decoded
      exact isStorable
    · contradiction

include stmt

theorem DefAction.inverts :
    Inverts bound DefAction.Storable DefAction.toJson (DefAction.ofJson? expr? stmt?) :=
  inverts_record (Nat.le_succ _) [⟨"id", (Identifier.inverts bound).required⟩,
      ⟨"params", (Parameters.inverts expr).required⟩, ⟨"body", stmt.list.required⟩,
      ⟨"action_block", (ActionBlock.inverts expr).required⟩, ⟨"returns", expr.list.required⟩]
    DefAction.mk (by simp) (fun value => by cases value; exact ⟨(_, _, _, _, _, ()), rfl⟩)
    (fun _ => by simp [DefAction.toJson]) (fun _ => by simp [DefAction.Storable])
    fun _ _ _ _ _ => rfl

theorem StmtKind.inverts :
    Inverts bound StmtKind.Storable StmtKind.toJson (StmtKind.ofJson? expr? stmt?) where
  solid value := by cases value <;> nofun
  returns value isStorable shallow := by
    have word := Identifier.inverts bound
    cases value
    case last => exact ⟨(throughout_scalar rfl).2 trivial, rfl⟩
    all_goals
      simp only [StmtKind.Storable, StmtKind.toJson, optionalExprStorable_iff,
        optionalExprToJson_eq] at isStorable shallow ⊢
      refine And.imp_left plain_variant ?_
      replace shallow := (throughout_variant.1 shallow).2
    case expression value => exact returns_bare expr.required StmtKind.expression isStorable shallow
    case declaration left right =>
      exact returns_object [⟨"left", expr.required⟩, ⟨"right", expr.required⟩] StmtKind.declaration
        (by simp) (left, right, ()) ⟨isStorable.1, isStorable.2, trivial⟩ shallow
    case defaction definition =>
      exact returns_bare (DefAction.inverts expr stmt).required StmtKind.defaction isStorable
        shallow
    case persistent left path right =>
      exact returns_object [⟨"left", expr.required⟩, ⟨"path_expression", expr.optional⟩,
          ⟨"right", expr.required⟩] StmtKind.persistent (by simp) (left, path, right, ())
        ⟨isStorable.1, isStorable.2.1, isStorable.2.2, trivial⟩ shallow
    case clear name =>
      exact returns_object [⟨"variable", expr.required⟩] StmtKind.clear (by simp) (name, ())
        ⟨isStorable, trivial⟩ shallow
    case raise eventDomain eventType forRid attributes =>
      exact returns_object [⟨"event_domain", word.required⟩, ⟨"event_type", expr.required⟩,
          ⟨"for_rid", expr.optional⟩, ⟨"event_attrs", expr.optional⟩] StmtKind.raise (by simp)
        (eventDomain, eventType, forRid, attributes, ())
        ⟨isStorable.1, isStorable.2.1, isStorable.2.2.1, isStorable.2.2.2, trivial⟩ shallow
    case schedule timing eventDomain eventType attributes setting =>
      exact returns_object [⟨"timing", (ScheduleTiming.inverts expr).required⟩,
          ⟨"event_domain", word.required⟩, ⟨"event_type", expr.required⟩,
          ⟨"event_attrs", expr.optional⟩, ⟨"setting", word.optional⟩] StmtKind.schedule (by simp)
        (timing, eventDomain, eventType, attributes, setting, ())
        ⟨isStorable.1, isStorable.2.1, isStorable.2.2.1, isStorable.2.2.2.1, isStorable.2.2.2.2,
          trivial⟩ shallow
    case log level value =>
      exact returns_object [⟨"level", (LogLevel.inverts bound).required⟩,
          ⟨"expression", expr.required⟩] StmtKind.log (by simp) (level, value, ())
        ⟨trivial, isStorable, trivial⟩ shallow
    case error level value =>
      exact returns_object [⟨"level", (LogLevel.inverts bound).required⟩,
          ⟨"expression", expr.required⟩] StmtKind.error (by simp) (level, value, ())
        ⟨trivial, isStorable, trivial⟩ shallow
    case guarded condition statement =>
      exact returns_object [⟨"condition", (GuardCondition.inverts expr).required⟩,
          ⟨"statement", stmt.required⟩] StmtKind.guarded (by simp) (condition, statement, ())
        ⟨isStorable.1, isStorable.2, trivial⟩ shallow
  sound document kind finite decoded := by
    have word := Identifier.inverts bound
    obtain ⟨alternative, finite, decoded⟩ := finite_variant finite decoded
    split at decoded
    · obtain ⟨value, isStorable, rfl⟩ := storable_bare expr.required finite decoded
      exact isStorable
    · obtain ⟨⟨left, right, _⟩, areStorable, rfl⟩ := storable_object
        [⟨"left", expr.required⟩, ⟨"right", expr.required⟩] StmtKind.declaration (finite _ rfl)
        decoded fun _ _ => rfl
      exact ⟨areStorable.1, areStorable.2.1⟩
    · obtain ⟨definition, isStorable, rfl⟩ :=
        storable_bare (DefAction.inverts expr stmt).required finite decoded
      exact isStorable
    · obtain ⟨⟨left, path, right, _⟩, areStorable, rfl⟩ := storable_object
        [⟨"left", expr.required⟩, ⟨"path_expression", expr.optional⟩, ⟨"right", expr.required⟩]
        StmtKind.persistent (finite _ rfl) decoded fun _ _ _ => rfl
      simpa [StmtKind.Storable] using areStorable
    · obtain ⟨⟨name, _⟩, areStorable, rfl⟩ := storable_object [⟨"variable", expr.required⟩]
        StmtKind.clear (finite _ rfl) decoded fun _ => rfl
      exact areStorable.1
    · obtain ⟨⟨eventDomain, eventType, forRid, attributes, _⟩, areStorable, rfl⟩ := storable_object
        [⟨"event_domain", word.required⟩, ⟨"event_type", expr.required⟩,
          ⟨"for_rid", expr.optional⟩, ⟨"event_attrs", expr.optional⟩] StmtKind.raise
        (finite _ rfl) decoded fun _ _ _ _ => rfl
      simpa [StmtKind.Storable] using areStorable
    · obtain ⟨⟨timing, eventDomain, eventType, attributes, setting, _⟩, areStorable, rfl⟩ :=
        storable_object [⟨"timing", (ScheduleTiming.inverts expr).required⟩,
          ⟨"event_domain", word.required⟩, ⟨"event_type", expr.required⟩,
          ⟨"event_attrs", expr.optional⟩, ⟨"setting", word.optional⟩] StmtKind.schedule
        (finite _ rfl) decoded fun _ _ _ _ _ => rfl
      simpa [StmtKind.Storable] using areStorable
    · obtain ⟨⟨level, value, _⟩, areStorable, rfl⟩ := storable_object
        [⟨"level", (LogLevel.inverts bound).required⟩, ⟨"expression", expr.required⟩]
        StmtKind.log (finite _ rfl) decoded fun _ _ => rfl
      exact areStorable.2.1
    · obtain ⟨⟨level, value, _⟩, areStorable, rfl⟩ := storable_object
        [⟨"level", (LogLevel.inverts bound).required⟩, ⟨"expression", expr.required⟩]
        StmtKind.error (finite _ rfl) decoded fun _ _ => rfl
      exact areStorable.2.1
    · obtain ⟨⟨condition, statement, _⟩, areStorable, rfl⟩ := storable_object
        [⟨"condition", (GuardCondition.inverts expr).required⟩, ⟨"statement", stmt.required⟩]
        StmtKind.guarded (finite _ rfl) decoded fun _ _ => rfl
      exact ⟨areStorable.1, areStorable.2.1⟩
    · exact unit_eq decoded ▸ trivial
    · contradiction

end Parts

section Trees

/-- A node of a tree is deeper than what kind of node it is, so that its reader can look
one step further. -/
theorem inverts_spanned {bound : Nat} {Kind : Type} {storable : Kind → Prop}
    {encode : Kind → Json} {kind? : Json → Option Kind}
    (kind : Inverts bound storable encode kind?) :
    Inverts (bound + 1) (fun node : Kind × Span => storable node.1 ∧ node.2.Storable)
      (fun node => .object [("node", encode node.1), ("span", node.2.toJson)])
      (spannedOfJson? kind?) :=
  inverts_record (Nat.le_refl _) [⟨"node", kind.required⟩, ⟨"span", (Span.inverts bound).required⟩]
    Prod.mk (by simp) (fun _ => ⟨(_, _, ()), rfl⟩) (fun _ => rfl) (fun _ => by simp)
    fun _ _ => rfl

/-- Trees are read as far as a depth by readers that look into smaller trees up to one less. -/
theorem inverts_within (bound : Nat) :
    Inverts bound Expr.Storable Expr.toJson (Expr.ofJsonWithin? bound) ∧
      Inverts bound Stmt.Storable Stmt.toJson (Stmt.ofJsonWithin? bound) := by
  induction bound with
  | zero =>
      refine ⟨.none fun expr => ?_, .none fun stmt => ?_⟩
      · cases expr
        exact Nat.succ_pos _
      · cases stmt
        exact Nat.succ_pos _
  | succ bound ih =>
      obtain ⟨expr, stmt⟩ := ih
      refine ⟨(inverts_spanned (ExprKind.inverts expr stmt)).map (fun expr => ?_) (fun _ => rfl)
          fun _ => .rfl,
        (inverts_spanned (StmtKind.inverts expr stmt)).map (fun stmt => ?_) (fun _ => rfl)
          fun _ => .rfl⟩
      · cases expr
        exact ⟨(_, _), rfl⟩
      · cases stmt
        exact ⟨(_, _), rfl⟩

variable (bound : Nat)

theorem Expr.inverts : Inverts bound Expr.Storable Expr.toJson Expr.ofJson? :=
  .unbounded fun bound => (inverts_within bound).1

theorem Stmt.inverts : Inverts bound Stmt.Storable Stmt.toJson Stmt.ofJson? :=
  .unbounded fun bound => (inverts_within bound).2

end Trees

end Krl
