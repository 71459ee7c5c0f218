import Krl.Fragment.Declarations
import Krl.Fragment.Events
import Krl.Fragment.Rules
import Krl.Grammar.Assembly
import Krl.Language

/-!
# The language by fragments

The productions of the language once more, with reducers that make fragments in place of
actions that make values of the type that belongs to a phrase.
-/

namespace Krl

/-- How errors name a kind of phrase. -/
def Nonterminal.label : Nonterminal → String
  | main => "Main"
  | ruleset => "Ruleset"
  | rulesetId => "RulesetId"
  | ridWords => "RidParts"
  | metaOpt => "MetaOpt"
  | metaBlock => "Meta"
  | metaProperties => "MetaProps"
  | metaProperty => "MetaProp"
  | metaText => "MetaText"
  | versionOpt => "VersionOpt"
  | aliasOpt => "AliasOpt"
  | withOpt => "WithOpt"
  | withSpaced => "WithSpaced"
  | withJoined => "WithAnded"
  | withBinding => "WithDecl"
  | configuration => "ConfigDecls"
  | identifiers => "IdList"
  | rulesetIds => "RidList"
  | globalOpt => "GlobalOpt"
  | declarations => "DeclList"
  | declarationItem => "DeclItem"
  | declarationOrDefaction => "DeclOrDef"
  | declaration => "Declaration"
  | declarationLeft => "DeclLhs"
  | defaction => "DefAction"
  | plainDeclarations => "PlainDecls"
  | plainDeclaration => "PlainDeclItem"
  | returnsOpt => "ReturnsOpt"
  | expressions => "ExprList"
  | rules => "Rules"
  | rule => "Rule"
  | ruleState => "RuleStateOpt"
  | selectOpt => "SelectOpt"
  | ruleSelect => "RuleSelect"
  | withinOpt => "WithinOpt"
  | timePeriod => "TimePeriod"
  | loops => "ForEachs"
  | loop => "ForEach"
  | preludeOpt => "PreludeOpt"
  | actionBlockOpt => "ActionBlockOpt"
  | postludeOpt => "PostludeOpt"
  | postlude => "Postlude"
  | postludeBody => "PostBody"
  | postludeStatements => "PostStmts"
  | postludeSequence => "PostSeq"
  | postludeStatement => "PostStmt"
  | postludeCore => "PostCore"
  | persistentAssignment => "PersistentAssign"
  | clearStatement => "ClearStmt"
  | raiseStatement => "RaiseStmt"
  | forOpt => "ForOpt"
  | attributesOpt => "AttributesOpt"
  | scheduleStatement => "ScheduleStmt"
  | scheduleSettingOpt => "ScheduleSettingOpt"
  | logStatement => "LogStmt"
  | errorStatement => "ErrorStmt"
  | logLevel => "LogLevel"
  | actionBlock => "ActionBlock"
  | actionSet => "ActionSet"
  | actions => "ActionList"
  | actionItem => "ActionItem"
  | action => "Action"
  | actionCore => "ActionCore"
  | actionName => "ActionName"
  | settingOpt => "SettingOpt"
  | eventOr => "EventOr"
  | eventAnd => "EventAnd"
  | eventSequence => "EventSeq"
  | eventBetween => "EventBetween"
  | eventPrimary => "EventPrimary"
  | eventBase => "EventBase"
  | events => "EventList"
  | attributeMatches => "AttrMatches"
  | attributeMatch => "AttrMatch"
  | whereOpt => "WhereOpt"
  | eventGroup => "EventGroup"
  | aggregatorOpt => "AggregatorOpt"
  | aggregator => "Aggregator"
  | expression => "Expression"
  | disjunction => "OrExpr"
  | conjunction => "AndExpr"
  | comparison => "CmpExpr"
  | sum => "AddExpr"
  | product => "MulExpr"
  | unary => "Unary"
  | suffixed => "Postfix"
  | primary => "Primary"
  | arrayLiteral => "ArrayLit"
  | arrayItems => "ExprItems"
  | mapLiteral => "MapLit"
  | mapPairs => "MapPairs"
  | mapPair => "MapPair"
  | function => "Function"
  | parameters => "Params"
  | parameterList => "ParamList"
  | parameter => "Param"
  | arguments => "Arguments"
  | argumentList => "ArgList"
  | argumentSequence => "ArgSeq"
  | argument => "Arg"
  | statements => "StatementList"
  | statementSequence => "StmtSeq"
  | statement => "Statement"

/-- The reducers of all productions, in the order of the table. -/
def Reducers.all : List Reducer :=
  rulesetRules ++ declarationRules ++ ruleRules ++ eventRules ++ expressionRules

/-- A production with its reducer. -/
def Reducer.assembling (production : Production Nonterminal Terminal Leaf) (reducer : Reducer) :
    Assembling Nonterminal Terminal Leaf Fragment Traced :=
  { production with reduce := fun span parts => (reducer span).on parts }

/-- The productions of the language with their reducers. -/
def assembly : Assembly Nonterminal Terminal Leaf Fragment Traced where
  productions := List.zipWith Reducer.assembling language.grammar.productions Reducers.all
  accepts := language.grammar.accepts
  token := Fragment.piece .token
  internal := fun message => throw (.internal message)
  label := Nonterminal.label

end Krl
