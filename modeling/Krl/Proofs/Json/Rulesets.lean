import Krl.Proofs.Json.Statements

/-!
# Rulesets as documents

Event expressions nest and are read like expressions, up to a depth. Everything else in a
ruleset is made of a fixed number of parts, and so are locations and options.
-/

namespace Krl

open Json

variable (bound : Nat)

section Words

theorem AggregateOp.inverts : Inverts bound (fun _ => True)
    (fun op => Json.string (AggregateOp.name op)) (oneOf? AggregateOp.all AggregateOp.name) :=
  inverts_oneOf bound fun op => by cases op <;> rfl

theorem EventOp.inverts : Inverts bound (fun _ => True)
    (fun op => Json.string (EventOp.name op)) (oneOf? EventOp.all EventOp.name) :=
  inverts_oneOf bound fun op => by cases op <;> rfl

theorem GroupOp.inverts : Inverts bound (fun _ => True)
    (fun op => Json.string (GroupOp.name op)) (oneOf? GroupOp.all GroupOp.name) :=
  inverts_oneOf bound fun op => by cases op <;> rfl

theorem RuleState.inverts : Inverts bound (fun _ => True)
    (fun state => Json.string (RuleState.name state)) (oneOf? RuleState.all RuleState.name) :=
  inverts_oneOf bound fun state => by cases state <;> rfl

end Words

section Events

theorem AttributeMatch.inverts :
    Inverts bound AttributeMatch.Storable AttributeMatch.toJson AttributeMatch.ofJson? :=
  inverts_record (Nat.le_succ _) [⟨"key", (Identifier.inverts bound).required⟩,
      ⟨"value", (Expr.inverts bound).required⟩, ⟨"span", (Span.inverts bound).required⟩]
    AttributeMatch.mk (by simp) (fun _ => ⟨(_, _, _, ()), rfl⟩) (fun _ => rfl)
    (fun _ => by simp [AttributeMatch.Storable]) fun _ _ _ => rfl

theorem EventAggregator.inverts :
    Inverts bound EventAggregator.Storable EventAggregator.toJson EventAggregator.ofJson? :=
  inverts_record (Nat.le_succ _) [⟨"op", (AggregateOp.inverts bound).required⟩,
      ⟨"args", (Identifier.inverts bound).list.required⟩,
      ⟨"span", (Span.inverts bound).required⟩] EventAggregator.mk (by simp)
    (fun _ => ⟨(_, _, _, ()), rfl⟩) (fun _ => rfl)
    (fun _ => by simp [EventAggregator.Storable]) fun _ _ _ => rfl

theorem EventExpression.inverts :
    Inverts bound EventExpression.Storable EventExpression.toJson EventExpression.ofJson? :=
  inverts_record (Nat.le_succ _) [⟨"event_domain", (Identifier.inverts bound).required⟩,
      ⟨"event_type", (Identifier.inverts bound).required⟩,
      ⟨"event_attrs", (AttributeMatch.inverts bound).list.required⟩,
      ⟨"where_clause", (Expr.inverts bound).optional⟩,
      ⟨"setting", (Identifier.inverts bound).list.required⟩,
      ⟨"aggregator", (EventAggregator.inverts bound).optional⟩] EventExpression.mk (by simp)
    (fun _ => ⟨(_, _, _, _, _, _, ()), rfl⟩) (fun _ => rfl)
    (fun _ => by simp [EventExpression.Storable]) fun _ _ _ _ _ _ => rfl

@[simp] theorem array_eventsToJson (items : List Event) :
    Json.array (eventsToJson items) = ofList Event.toJson items :=
  array_eq_ofList rfl (fun _ _ => rfl) items

variable {bound} in
theorem EventKind.inverts {event? : Json → Option Event}
    (event : Inverts bound Event.Storable Event.toJson event?) :
    Inverts bound EventKind.Storable EventKind.toJson (EventKind.ofJson? event?) where
  solid value := by cases value <;> nofun
  returns value isStorable shallow := by
    have expr := Expr.inverts bound
    cases value <;>
      simp only [EventKind.Storable, EventKind.toJson, eventsStorable_iff, array_eventsToJson]
        at isStorable shallow ⊢ <;>
      refine And.imp_left plain_variant ?_ <;>
      replace shallow := (throughout_variant.1 shallow).2
    case expression value =>
      exact returns_bare (EventExpression.inverts bound).required EventKind.expression isStorable
        shallow
    case operator op operands =>
      exact returns_object [⟨"op", (EventOp.inverts bound).required⟩,
          ⟨"args", event.list.required⟩] EventKind.operator (by simp) (op, operands, ())
        ⟨trivial, isStorable, trivial⟩ shallow
    case any count operands =>
      exact returns_object [⟨"count", expr.required⟩, ⟨"args", event.list.required⟩] EventKind.any
        (by simp) (count, operands, ()) ⟨isStorable.1, isStorable.2, trivial⟩ shallow
    case group op times inner =>
      exact returns_object [⟨"op", (GroupOp.inverts bound).required⟩, ⟨"n", expr.required⟩,
          ⟨"event", event.required⟩] EventKind.group (by simp) (op, times, inner, ())
        ⟨trivial, isStorable.1, isStorable.2, trivial⟩ shallow
  sound document kind finite decoded := by
    have expr := Expr.inverts bound
    obtain ⟨alternative, finite, decoded⟩ := finite_variant finite decoded
    split at decoded
    · obtain ⟨value, isStorable, rfl⟩ :=
        storable_bare (EventExpression.inverts bound).required finite decoded
      exact isStorable
    · obtain ⟨⟨op, operands, _⟩, areStorable, rfl⟩ := storable_object
        [⟨"op", (EventOp.inverts bound).required⟩, ⟨"args", event.list.required⟩]
        EventKind.operator (finite _ rfl) decoded fun _ _ => rfl
      exact eventsStorable_iff.2 areStorable.2.1
    · obtain ⟨⟨count, operands, _⟩, areStorable, rfl⟩ := storable_object
        [⟨"count", expr.required⟩, ⟨"args", event.list.required⟩] EventKind.any (finite _ rfl)
        decoded fun _ _ => rfl
      exact ⟨areStorable.1, eventsStorable_iff.2 areStorable.2.1⟩
    · obtain ⟨⟨op, times, inner, _⟩, areStorable, rfl⟩ := storable_object
        [⟨"op", (GroupOp.inverts bound).required⟩, ⟨"n", expr.required⟩,
          ⟨"event", event.required⟩] EventKind.group (finite _ rfl) decoded
        fun _ _ _ => rfl
      exact ⟨areStorable.2.1, areStorable.2.2.1⟩
    · contradiction

theorem Event.inverts_within :
    Inverts bound Event.Storable Event.toJson (Event.ofJsonWithin? bound) := by
  induction bound with
  | zero =>
      refine .none fun event => ?_
      cases event
      exact Nat.succ_pos _
  | succ bound event =>
      refine (inverts_spanned (EventKind.inverts event)).map (fun event => ?_) (fun _ => rfl)
        fun _ => .rfl
      cases event
      exact ⟨(_, _), rfl⟩

theorem Event.inverts : Inverts bound Event.Storable Event.toJson Event.ofJson? :=
  .unbounded Event.inverts_within

end Events

section Rules

theorem EventWithin.inverts :
    Inverts bound EventWithin.Storable EventWithin.toJson EventWithin.ofJson? :=
  inverts_record (Nat.le_succ _) [⟨"expression", (Expr.inverts bound).required⟩,
      ⟨"time_period", (inverts_string bound).required⟩, ⟨"span", (Span.inverts bound).required⟩]
    EventWithin.mk (by simp) (fun _ => ⟨(_, _, _, ()), rfl⟩) (fun _ => rfl)
    (fun _ => by simp [EventWithin.Storable]) fun _ _ _ => rfl

theorem RuleSelect.inverts :
    Inverts bound RuleSelect.Storable RuleSelect.toJson RuleSelect.ofJson? :=
  inverts_record (Nat.le_succ _) [⟨"event", (Event.inverts bound).required⟩,
      ⟨"within", (EventWithin.inverts bound).optional⟩, ⟨"span", (Span.inverts bound).required⟩]
    RuleSelect.mk (by simp) (fun _ => ⟨(_, _, _, ()), rfl⟩) (fun _ => rfl)
    (fun _ => by simp [RuleSelect.Storable]) fun _ _ _ => rfl

theorem RuleForEach.inverts :
    Inverts bound RuleForEach.Storable RuleForEach.toJson RuleForEach.ofJson? :=
  inverts_record (Nat.le_succ _) [⟨"expression", (Expr.inverts bound).required⟩,
      ⟨"setting", (Identifier.inverts bound).list.required⟩,
      ⟨"span", (Span.inverts bound).required⟩] RuleForEach.mk (by simp)
    (fun _ => ⟨(_, _, _, ()), rfl⟩) (fun _ => rfl)
    (fun _ => by simp [RuleForEach.Storable]) fun _ _ _ => rfl

theorem RulePostlude.inverts :
    Inverts bound RulePostlude.Storable RulePostlude.toJson RulePostlude.ofJson? :=
  inverts_record (Nat.le_succ _) [⟨"fired", (Stmt.inverts bound).list.optional⟩,
      ⟨"notfired", (Stmt.inverts bound).list.optional⟩,
      ⟨"always", (Stmt.inverts bound).list.optional⟩, ⟨"span", (Span.inverts bound).required⟩]
    RulePostlude.mk (by simp) (fun _ => ⟨(_, _, _, _, ()), rfl⟩) (fun _ => rfl)
    (fun _ => by simp [RulePostlude.Storable]) fun _ _ _ _ => rfl

theorem Rule.inverts : Inverts bound Rule.Storable Rule.toJson Rule.ofJson? :=
  inverts_record (Nat.le_succ _) [⟨"name", (Identifier.inverts bound).required⟩,
      ⟨"rule_state", (RuleState.inverts bound).required⟩,
      ⟨"select", (RuleSelect.inverts bound).optional⟩,
      ⟨"foreach", (RuleForEach.inverts bound).list.required⟩,
      ⟨"prelude", (Stmt.inverts bound).list.required⟩,
      ⟨"action_block", (ActionBlock.inverts (Expr.inverts bound)).optional⟩,
      ⟨"postlude", (RulePostlude.inverts bound).optional⟩,
      ⟨"span", (Span.inverts bound).required⟩] Rule.mk (by simp)
    (fun _ => ⟨(_, _, _, _, _, _, _, _, ()), rfl⟩) (fun _ => rfl)
    (fun _ => by simp [Rule.Storable]) fun _ _ _ _ _ _ _ _ => rfl

end Rules

section Properties

theorem MetaValue.inverts :
    Inverts bound MetaValue.Storable MetaValue.toJson MetaValue.ofJson? where
  solid value := by cases value <;> nofun
  returns value isStorable shallow := by
    have expr := Expr.inverts bound
    have word := Identifier.inverts bound
    have keyword := Keyword.inverts bound
    have ruleset := RulesetId.inverts bound
    have stmts := (Stmt.inverts bound).list
    cases value <;>
      simp only [MetaValue.Storable, MetaValue.toJson] at isStorable shallow ⊢ <;>
      refine And.imp_left plain_variant ?_ <;>
      replace shallow := (throughout_variant.1 shallow).2
    case expr value => exact returns_bare expr.required MetaValue.expr isStorable shallow
    case key name value =>
      exact returns_object [⟨"name", keyword.required⟩, ⟨"value", expr.required⟩] MetaValue.key
        (by simp) (name, value, ()) ⟨isStorable.1, isStorable.2, trivial⟩ shallow
    case use kind rid version localName bindings =>
      exact returns_object [⟨"kind", keyword.required⟩, ⟨"rid", ruleset.required⟩,
          ⟨"version", expr.optional⟩, ⟨"alias", word.optional⟩, ⟨"with", stmts.optional⟩]
        MetaValue.use (by simp) (kind, rid, version, localName, bindings, ())
        ⟨isStorable.1, isStorable.2.1, isStorable.2.2.1, isStorable.2.2.2.1, isStorable.2.2.2.2,
          trivial⟩ shallow
    case errors rid version =>
      exact returns_object [⟨"rid", ruleset.required⟩, ⟨"version", expr.optional⟩]
        MetaValue.errors (by simp) (rid, version, ()) ⟨isStorable.1, isStorable.2, trivial⟩ shallow
    case provides operator names rulesets =>
      exact returns_object [⟨"operator", keyword.optional⟩, ⟨"ids", word.list.required⟩,
          ⟨"rulesets", ruleset.list.required⟩] MetaValue.provides (by simp)
        (operator, names, rulesets, ()) ⟨isStorable.1, isStorable.2.1, isStorable.2.2, trivial⟩
        shallow
    case shares names =>
      exact returns_object [⟨"ids", word.list.required⟩] MetaValue.shares (by simp) (names, ())
        ⟨isStorable, trivial⟩ shallow
    case configure declarations =>
      exact returns_object [⟨"declarations", stmts.required⟩] MetaValue.configure (by simp)
        (declarations, ()) ⟨isStorable, trivial⟩ shallow
  sound document value finite decoded := by
    have expr := Expr.inverts bound
    have word := Identifier.inverts bound
    have keyword := Keyword.inverts bound
    have ruleset := RulesetId.inverts bound
    have stmts := (Stmt.inverts bound).list
    obtain ⟨alternative, finite, decoded⟩ := finite_variant finite decoded
    split at decoded
    · obtain ⟨value, isStorable, rfl⟩ := storable_bare expr.required finite decoded
      exact isStorable
    · obtain ⟨⟨name, value, _⟩, areStorable, rfl⟩ := storable_object
        [⟨"name", keyword.required⟩, ⟨"value", expr.required⟩] MetaValue.key (finite _ rfl)
        decoded fun _ _ => rfl
      exact ⟨areStorable.1, areStorable.2.1⟩
    · obtain ⟨⟨kind, rid, version, localName, bindings, _⟩, areStorable, rfl⟩ := storable_object
        [⟨"kind", keyword.required⟩, ⟨"rid", ruleset.required⟩, ⟨"version", expr.optional⟩,
          ⟨"alias", word.optional⟩, ⟨"with", stmts.optional⟩] MetaValue.use (finite _ rfl)
        decoded fun _ _ _ _ _ => rfl
      simpa [MetaValue.Storable] using areStorable
    · obtain ⟨⟨rid, version, _⟩, areStorable, rfl⟩ := storable_object
        [⟨"rid", ruleset.required⟩, ⟨"version", expr.optional⟩] MetaValue.errors (finite _ rfl)
        decoded fun _ _ => rfl
      exact ⟨areStorable.1, areStorable.2.1⟩
    · obtain ⟨⟨operator, names, rulesets, _⟩, areStorable, rfl⟩ := storable_object
        [⟨"operator", keyword.optional⟩, ⟨"ids", word.list.required⟩,
          ⟨"rulesets", ruleset.list.required⟩] MetaValue.provides (finite _ rfl) decoded
        fun _ _ _ => rfl
      simpa [MetaValue.Storable] using areStorable
    · obtain ⟨⟨names, _⟩, areStorable, rfl⟩ := storable_object [⟨"ids", word.list.required⟩]
        MetaValue.shares (finite _ rfl) decoded fun _ => rfl
      exact areStorable.1
    · obtain ⟨⟨declarations, _⟩, areStorable, rfl⟩ := storable_object
        [⟨"declarations", stmts.required⟩] MetaValue.configure (finite _ rfl) decoded
        fun _ => rfl
      exact areStorable.1
    · contradiction

theorem MetaProperty.inverts :
    Inverts bound MetaProperty.Storable MetaProperty.toJson MetaProperty.ofJson? :=
  inverts_record (Nat.le_succ _) [⟨"key", (Keyword.inverts bound).required⟩,
      ⟨"value", (MetaValue.inverts bound).required⟩, ⟨"span", (Span.inverts bound).required⟩]
    MetaProperty.mk (by simp) (fun _ => ⟨(_, _, _, ()), rfl⟩) (fun _ => rfl)
    (fun _ => by simp [MetaProperty.Storable]) fun _ _ _ => rfl

theorem RulesetMeta.inverts :
    Inverts bound RulesetMeta.Storable RulesetMeta.toJson RulesetMeta.ofJson? :=
  inverts_record (Nat.le_succ _) [⟨"properties", (MetaProperty.inverts bound).list.required⟩,
      ⟨"span", (Span.inverts bound).required⟩] RulesetMeta.mk (by simp)
    (fun _ => ⟨(_, _, ()), rfl⟩) (fun _ => rfl) (fun _ => by simp [RulesetMeta.Storable])
    fun _ _ => rfl

end Properties

section Programs

theorem Ruleset.inverts : Inverts bound Ruleset.Storable Ruleset.toJson Ruleset.ofJson? :=
  inverts_record (Nat.le_succ _) [⟨"rid", (RulesetId.inverts bound).required⟩,
      ⟨"meta", (RulesetMeta.inverts bound).optional⟩,
      ⟨"global", (Stmt.inverts bound).list.required⟩,
      ⟨"rules", (Rule.inverts bound).list.required⟩, ⟨"span", (Span.inverts bound).required⟩]
    Ruleset.mk (by simp) (fun _ => ⟨(_, _, _, _, _, ()), rfl⟩) (fun _ => rfl)
    (fun _ => by simp [Ruleset.Storable]) fun _ _ _ _ _ => rfl

theorem Program.inverts : Inverts bound Program.Storable Program.toJson Program.ofJson? where
  solid value := by cases value <;> nofun
  returns value isStorable shallow := by
    cases value <;>
      simp only [Program.Storable, Program.toJson] at isStorable shallow ⊢ <;>
      refine And.imp_left plain_variant ?_ <;>
      replace shallow := (throughout_variant.1 shallow).2
    case ruleset value =>
      exact returns_bare (Ruleset.inverts bound).required Program.ruleset isStorable shallow
    case statements items =>
      exact returns_bare (Stmt.inverts bound).list.required Program.statements isStorable shallow
  sound document program finite decoded := by
    obtain ⟨alternative, finite, decoded⟩ := finite_variant finite decoded
    split at decoded
    · obtain ⟨value, isStorable, rfl⟩ :=
        storable_bare (Ruleset.inverts bound).required finite decoded
      exact isStorable
    · obtain ⟨items, isStorable, rfl⟩ :=
        storable_bare (Stmt.inverts bound).list.required finite decoded
      exact isStorable
    · contradiction

end Programs

theorem Location.inverts : Inverts bound Location.Storable Location.toJson Location.ofJson? :=
  inverts_record (Nat.le_succ _) [⟨"filename", (inverts_string bound).optional⟩,
      ⟨"line", (inverts_nat bound).required⟩, ⟨"col", (inverts_nat bound).required⟩,
      ⟨"excerpt", (inverts_string bound).required⟩] Location.mk (by simp)
    (fun _ => ⟨(_, _, _, _, ()), rfl⟩) (fun _ => rfl)
    (fun _ => by simp [Location.Storable]) fun _ _ _ _ => rfl

/-- Options can all be stored, as they are made of texts. They are read from fewer fields
than other records, even from none. -/
theorem ParseOptions.inverts :
    Inverts bound (fun _ => True) ParseOptions.toJson ParseOptions.ofJson? where
  solid _ := nofun
  returns := by
    rintro ⟨filename⟩ - shallow
    exact returns_object [⟨"filename", (inverts_string bound).optional⟩] ParseOptions.mk (by simp)
      (filename, ()) (by simp) shallow
  sound _ _ _ _ := trivial

end Krl
