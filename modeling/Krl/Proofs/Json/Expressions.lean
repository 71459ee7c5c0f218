import Krl.Json.Decode
import Krl.Json.Encode
import Krl.Proofs.Json.Records
import Krl.Proofs.Syntax.Storable

/-!
# Expressions as documents

What reads a part of an expression undoes what writes it, up to some depth, as soon as the
readers of smaller expressions and statements do. Each record is given by its fields, and
each alternative by what it carries.
-/

namespace Krl

open Json

section Words

variable (bound : Nat)

theorem Span.inverts : Inverts bound Span.Storable Span.toJson Span.ofJson? :=
  inverts_record (Nat.le_succ _) [⟨"start", (inverts_nat bound).required⟩,
      ⟨"end", (inverts_nat bound).required⟩] Span.mk (by simp)
    (fun _ => ⟨(_, _, ()), rfl⟩) (fun _ => rfl)
    (fun _ => by simp [Span.Storable]) fun _ _ => rfl

theorem inverts_word : Inverts bound (fun word : String × Span => word.2.Storable)
    (fun word => wordToJson word.1 word.2) wordOfJson? :=
  inverts_record (Nat.le_succ _) [⟨"value", (inverts_string bound).required⟩,
      ⟨"span", (Span.inverts bound).required⟩] Prod.mk (by simp)
    (fun _ => ⟨(_, _, ()), rfl⟩) (fun _ => rfl) (fun _ => by simp) fun _ _ => rfl

theorem Identifier.inverts :
    Inverts bound Identifier.Storable Identifier.toJson Identifier.ofJson? :=
  (inverts_word bound).map (fun _ => ⟨(_, _), rfl⟩) (fun _ => rfl) fun _ => .rfl

theorem Keyword.inverts : Inverts bound Keyword.Storable Keyword.toJson Keyword.ofJson? :=
  (inverts_word bound).map (fun _ => ⟨(_, _), rfl⟩) (fun _ => rfl) fun _ => .rfl

theorem RulesetId.inverts :
    Inverts bound RulesetId.Storable RulesetId.toJson RulesetId.ofJson? :=
  (inverts_word bound).map (fun _ => ⟨(_, _), rfl⟩) (fun _ => rfl) fun _ => .rfl

theorem UnaryOp.inverts : Inverts bound (fun _ => True) (fun op => Json.string (UnaryOp.name op))
    (oneOf? UnaryOp.all UnaryOp.name) :=
  inverts_oneOf bound fun op => by cases op <;> rfl

theorem BinaryOp.inverts : Inverts bound (fun _ => True)
    (fun op => Json.string (BinaryOp.name op)) (oneOf? BinaryOp.all BinaryOp.name) :=
  inverts_oneOf bound fun op => by cases op <;> rfl

theorem MemberMethod.inverts : Inverts bound (fun _ => True)
    (fun method => Json.string (MemberMethod.name method))
    (oneOf? MemberMethod.all MemberMethod.name) :=
  inverts_oneOf bound fun method => by cases method <;> rfl

end Words

section Lists

@[simp] theorem optionalExprToJson_eq (value : Option Expr) :
    optionalExprToJson value = ofOption Expr.toJson value := by
  cases value <;> rfl

@[simp] theorem array_exprsToJson (items : List Expr) :
    Json.array (exprsToJson items) = ofList Expr.toJson items :=
  array_eq_ofList rfl (fun _ _ => rfl) items

@[simp] theorem array_mapPairsToJson (items : List MapPair) :
    Json.array (mapPairsToJson items) = ofList MapPair.toJson items :=
  array_eq_ofList rfl (fun _ _ => rfl) items

@[simp] theorem array_argumentsToJson (items : List Argument) :
    Json.array (argumentsToJson items) = ofList Argument.toJson items :=
  array_eq_ofList rfl (fun _ _ => rfl) items

@[simp] theorem array_parametersToJson (items : List Parameter) :
    Json.array (parametersToJson items) = ofList Parameter.toJson items :=
  array_eq_ofList rfl (fun _ _ => rfl) items

@[simp] theorem array_stmtsToJson (items : List Stmt) :
    Json.array (stmtsToJson items) = ofList Stmt.toJson items :=
  array_eq_ofList rfl (fun _ _ => rfl) items

@[simp] theorem array_actionsToJson (items : List Action) :
    Json.array (actionsToJson items) = ofList Action.toJson items :=
  array_eq_ofList rfl (fun _ _ => rfl) items

end Lists

variable {bound : Nat} {expr? : Json → Option Expr} {stmt? : Json → Option Stmt}
  (expr : Inverts bound Expr.Storable Expr.toJson expr?)
  (stmt : Inverts bound Stmt.Storable Stmt.toJson stmt?)
include expr

theorem MapPair.inverts : Inverts bound MapPair.Storable MapPair.toJson (MapPair.ofJson? expr?) :=
  inverts_record (Nat.le_succ _) [⟨"key", expr.required⟩, ⟨"value", expr.required⟩,
      ⟨"span", (Span.inverts bound).required⟩] MapPair.mk (by simp)
    (fun value => by cases value; exact ⟨(_, _, _, ()), rfl⟩) (fun _ => rfl)
    (fun _ => by simp [MapPair.Storable]) fun _ _ _ => rfl

theorem NamedArgument.inverts :
    Inverts bound NamedArgument.Storable NamedArgument.toJson (NamedArgument.ofJson? expr?) :=
  inverts_record (Nat.le_succ _) [⟨"id", (Identifier.inverts bound).required⟩,
      ⟨"value", expr.required⟩, ⟨"span", (Span.inverts bound).required⟩] NamedArgument.mk (by simp)
    (fun value => by cases value; exact ⟨(_, _, _, ()), rfl⟩) (fun _ => rfl)
    (fun _ => by simp [NamedArgument.Storable]) fun _ _ _ => rfl

theorem Argument.inverts :
    Inverts bound Argument.Storable Argument.toJson (Argument.ofJson? expr?) where
  solid value := by cases value <;> nofun
  returns value isStorable shallow := by
    cases value <;>
      simp only [Argument.Storable, Argument.toJson] at isStorable shallow ⊢ <;>
      refine And.imp_left plain_variant ?_ <;>
      replace shallow := (throughout_variant.1 shallow).2
    case positional value => exact returns_bare expr.required Argument.positional isStorable shallow
    case named argument =>
      exact returns_bare (NamedArgument.inverts expr).required Argument.named isStorable shallow
  sound document value finite decoded := by
    obtain ⟨alternative, finite, decoded⟩ := finite_variant finite decoded
    split at decoded
    · obtain ⟨value, isStorable, rfl⟩ := storable_bare expr.required finite decoded
      exact isStorable
    · obtain ⟨argument, isStorable, rfl⟩ :=
        storable_bare (NamedArgument.inverts expr).required finite decoded
      exact isStorable
    · contradiction

theorem Arguments.inverts :
    Inverts bound Arguments.Storable Arguments.toJson (Arguments.ofJson? expr?) :=
  inverts_record (Nat.le_succ _) [⟨"args", (Argument.inverts expr).list.required⟩,
      ⟨"span", (Span.inverts bound).required⟩] Arguments.mk (by simp)
    (fun value => by cases value; exact ⟨(_, _, ()), rfl⟩) (fun _ => by simp [Arguments.toJson])
    (fun _ => by simp [Arguments.Storable]) fun _ _ => rfl

theorem Parameter.inverts :
    Inverts bound Parameter.Storable Parameter.toJson (Parameter.ofJson? expr?) :=
  inverts_record (Nat.le_succ _) [⟨"id", (Identifier.inverts bound).required⟩,
      ⟨"default", expr.optional⟩, ⟨"span", (Span.inverts bound).required⟩] Parameter.mk (by simp)
    (fun value => by cases value; exact ⟨(_, _, _, ()), rfl⟩) (fun _ => by simp [Parameter.toJson])
    (fun _ => by simp [Parameter.Storable]) fun _ _ _ => rfl

theorem Parameters.inverts :
    Inverts bound Parameters.Storable Parameters.toJson (Parameters.ofJson? expr?) :=
  inverts_record (Nat.le_succ _) [⟨"params", (Parameter.inverts expr).list.required⟩,
      ⟨"span", (Span.inverts bound).required⟩] Parameters.mk (by simp)
    (fun value => by cases value; exact ⟨(_, _, ()), rfl⟩) (fun _ => by simp [Parameters.toJson])
    (fun _ => by simp [Parameters.Storable]) fun _ _ => rfl

include stmt

theorem ExprKind.inverts :
    Inverts bound ExprKind.Storable ExprKind.toJson (ExprKind.ofJson? expr? stmt?) where
  solid value := by cases value <;> nofun
  returns value isStorable shallow := by
    have text := (inverts_string bound).required
    cases value <;>
      simp only [ExprKind.Storable, ExprKind.toJson, exprsStorable_iff, mapPairsStorable_iff,
        stmtsStorable_iff, array_exprsToJson, array_mapPairsToJson, array_stmtsToJson]
        at isStorable shallow ⊢ <;>
      refine And.imp_left plain_variant ?_ <;>
      replace shallow := (throughout_variant.1 shallow).2
    case identifier name => exact returns_bare text ExprKind.identifier trivial shallow
    case domainIdentifier domain name =>
      exact returns_object [⟨"domain", text⟩, ⟨"value", text⟩] ExprKind.domainIdentifier (by simp)
        (domain, name, ()) ⟨trivial, trivial, trivial⟩ shallow
    case string value => exact returns_bare text ExprKind.string trivial shallow
    case number value =>
      exact returns_bare (inverts_double bound).required ExprKind.number isStorable shallow
    case boolean value =>
      exact returns_bare (inverts_bool bound).required ExprKind.boolean trivial shallow
    case regexp pattern flags =>
      exact returns_object [⟨"pattern", text⟩, ⟨"flags", text⟩] ExprKind.regexp (by simp)
        (pattern, flags, ()) ⟨trivial, trivial, trivial⟩ shallow
    case chevron parts => exact returns_bare expr.list.required ExprKind.chevron isStorable shallow
    case array items => exact returns_bare expr.list.required ExprKind.array isStorable shallow
    case map pairs =>
      exact returns_bare (MapPair.inverts expr).list.required ExprKind.map isStorable shallow
    case unary op operand =>
      exact returns_object [⟨"op", (UnaryOp.inverts bound).required⟩, ⟨"arg", expr.required⟩]
        ExprKind.unary (by simp) (op, operand, ()) ⟨trivial, isStorable, trivial⟩ shallow
    case binary op left right =>
      exact returns_object [⟨"op", (BinaryOp.inverts bound).required⟩, ⟨"left", expr.required⟩,
          ⟨"right", expr.required⟩] ExprKind.binary (by simp) (op, left, right, ())
        ⟨trivial, isStorable.1, isStorable.2, trivial⟩ shallow
    case conditional test consequent alternate =>
      exact returns_object [⟨"test", expr.required⟩, ⟨"consequent", expr.required⟩,
          ⟨"alternate", expr.required⟩] ExprKind.conditional (by simp)
        (test, consequent, alternate, ())
        ⟨isStorable.1, isStorable.2.1, isStorable.2.2, trivial⟩ shallow
    case member object property method =>
      exact returns_object [⟨"object", expr.required⟩, ⟨"property", expr.required⟩,
          ⟨"method", (MemberMethod.inverts bound).required⟩] ExprKind.member (by simp)
        (object, property, method, ()) ⟨isStorable.1, isStorable.2, trivial, trivial⟩ shallow
    case application callee arguments =>
      exact returns_object [⟨"callee", expr.required⟩,
          ⟨"args", (Arguments.inverts expr).required⟩] ExprKind.application (by simp)
        (callee, arguments, ()) ⟨isStorable.1, isStorable.2, trivial⟩ shallow
    case function parameters body =>
      exact returns_object [⟨"params", (Parameters.inverts expr).required⟩,
          ⟨"body", stmt.list.required⟩] ExprKind.function (by simp) (parameters, body, ())
        ⟨isStorable.1, isStorable.2, trivial⟩ shallow
  sound document kind finite decoded := by
    have text := (inverts_string bound).required
    obtain ⟨alternative, finite, decoded⟩ := finite_variant finite decoded
    split at decoded
    · obtain ⟨name, -, rfl⟩ := storable_bare text finite decoded
      trivial
    · obtain ⟨⟨domain, name, _⟩, -, rfl⟩ := storable_object
        [⟨"domain", text⟩, ⟨"value", text⟩] ExprKind.domainIdentifier (finite _ rfl) decoded
        fun _ _ => rfl
      trivial
    · obtain ⟨value, -, rfl⟩ := storable_bare text finite decoded
      trivial
    · obtain ⟨value, isFinite, rfl⟩ := storable_bare (inverts_double bound).required finite decoded
      exact isFinite
    · obtain ⟨value, -, rfl⟩ := storable_bare (inverts_bool bound).required finite decoded
      trivial
    · obtain ⟨⟨pattern, flags, _⟩, -, rfl⟩ := storable_object
        [⟨"pattern", text⟩, ⟨"flags", text⟩] ExprKind.regexp (finite _ rfl) decoded
        fun _ _ => rfl
      trivial
    · obtain ⟨parts, areStorable, rfl⟩ := storable_bare expr.list.required finite decoded
      exact exprsStorable_iff.2 areStorable
    · obtain ⟨items, areStorable, rfl⟩ := storable_bare expr.list.required finite decoded
      exact exprsStorable_iff.2 areStorable
    · obtain ⟨pairs, areStorable, rfl⟩ :=
        storable_bare (MapPair.inverts expr).list.required finite decoded
      exact mapPairsStorable_iff.2 areStorable
    · obtain ⟨⟨op, operand, _⟩, ⟨-, isStorable, -⟩, rfl⟩ := storable_object
        [⟨"op", (UnaryOp.inverts bound).required⟩, ⟨"arg", expr.required⟩] ExprKind.unary
        (finite _ rfl) decoded fun _ _ => rfl
      exact isStorable
    · obtain ⟨⟨op, left, right, _⟩, ⟨-, leftStorable, rightStorable, -⟩, rfl⟩ := storable_object
        [⟨"op", (BinaryOp.inverts bound).required⟩, ⟨"left", expr.required⟩,
          ⟨"right", expr.required⟩] ExprKind.binary (finite _ rfl) decoded
        fun _ _ _ => rfl
      exact ⟨leftStorable, rightStorable⟩
    · obtain ⟨⟨test, consequent, alternate, _⟩, areStorable, rfl⟩ := storable_object
        [⟨"test", expr.required⟩, ⟨"consequent", expr.required⟩, ⟨"alternate", expr.required⟩]
        ExprKind.conditional (finite _ rfl) decoded fun _ _ _ => rfl
      exact ⟨areStorable.1, areStorable.2.1, areStorable.2.2.1⟩
    · obtain ⟨⟨object, property, method, _⟩, areStorable, rfl⟩ := storable_object
        [⟨"object", expr.required⟩, ⟨"property", expr.required⟩,
          ⟨"method", (MemberMethod.inverts bound).required⟩] ExprKind.member (finite _ rfl) decoded
        fun _ _ _ => rfl
      exact ⟨areStorable.1, areStorable.2.1⟩
    · obtain ⟨⟨callee, arguments, _⟩, areStorable, rfl⟩ := storable_object
        [⟨"callee", expr.required⟩, ⟨"args", (Arguments.inverts expr).required⟩]
        ExprKind.application (finite _ rfl) decoded fun _ _ => rfl
      exact ⟨areStorable.1, areStorable.2.1⟩
    · obtain ⟨⟨parameters, body, _⟩, areStorable, rfl⟩ := storable_object
        [⟨"params", (Parameters.inverts expr).required⟩, ⟨"body", stmt.list.required⟩]
        ExprKind.function (finite _ rfl) decoded fun _ _ => rfl
      exact ⟨areStorable.1, stmtsStorable_iff.2 areStorable.2.1⟩
    · contradiction

end Krl
