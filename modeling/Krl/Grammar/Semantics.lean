import Krl.Grammar.Forest
import Krl.Span
import Krl.Word

/-!
# The meaning of derivations

Every nonterminal has a type of values and every class of tokens a type of data.
A production comes with an action that takes one argument for each symbol on its
right side, of the type that belongs to the symbol, so that an action cannot ask
for what its production does not supply. The value of a derivation is the fold of
the actions over it, children before their parent and left before right.
-/

namespace Krl

section Meaning

variable {N T : Type} (Value : N → Type) (Datum : T → Type)

/-- The type of what a symbol stands for. -/
@[reducible] def Symbol.Meaning : Symbol N T → Type
  | .nonterminal name => Value name
  | .terminal tokens => Datum tokens

/-- Functions that take what each of some symbols stands for, in order. -/
@[reducible] def Curried : List (Symbol N T) → Type → Type
  | [], Result => Result
  | symbol :: others, Result => symbol.Meaning Value Datum → Curried others Result

/-- Apply a function to the result of a curried one. -/
def Curried.map {Value : N → Type} {Datum : T → Type} {Middle Result : Type}
    (after : Middle → Result) :
    (symbols : List (Symbol N T)) → Curried Value Datum symbols Middle →
      Curried Value Datum symbols Result
  | [], value => after value
  | _ :: others, function => fun argument => Curried.map after others (function argument)

/-- A production with the action that makes a phrase out of its parts. The action
is also told which bytes the phrase covers. -/
structure Reduction (K : Type) (m : Type → Type) extends Production N T K where
  action : Span → Curried Value Datum rhs (m (Value lhs))

end Meaning

/-- A grammar with a meaning. -/
structure Language (N T K : Type) (m : Type → Type) where
  Value : N → Type
  Datum : T → Type
  /-- What a token means as a member of a class, if it is one. -/
  read : (tokens : T) → K → Option (Datum tokens)
  /-- The bytes a token was read from. -/
  span : K → Span
  reductions : List (Reduction Value Datum K m)
  /-- What a tree means that the productions do not admit. The derivations of a
  chart are not such. -/
  misshapen : {α : Type} → m α

/-- The tokens of one text, and the byte offset where the text ends. -/
structure Input (K : Type) where
  tokens : List K
  stop : Nat

/-- What becomes of a text: no derivation, or a number of them along with the
value of one. -/
inductive Verdict (α : Type) where
  | rejected (reason : Rejection)
  | derived (count : Nat) (value : α)

/-- Counts are reported as 64-bit words; larger ones show as the largest word. -/
def Tally.reported (tally : Tally) : Nat :=
  min tally.count (wordLimit - 1)

namespace Grammar

variable {N T K : Type} [DecidableEq N]

/-- The derivations of the start symbol over all tokens. -/
def survey (grammar : Grammar N T K) (start : N) (tokens : List K) : Except Rejection Tally :=
  match grammar.recognize start tokens with
  | .error reason => .error reason
  | .ok chart => .ok (grammar.derivations chart start 0 tokens.length .empty).1

end Grammar

namespace Language

variable {N T K : Type} {m : Type → Type}

/-- The grammar without its meaning. -/
def grammar (language : Language N T K m) : Grammar N T K where
  productions := language.reductions.map Reduction.toProduction
  accepts := fun tokens token => (language.read tokens token).isSome

/-- The bytes that some tokens cover. A phrase without tokens stands where the
next token begins, or at the end of the text. -/
def spanBetween (language : Language N T K m) (input : Input K) (start stop : Nat) : Span :=
  match input.tokens[start]? with
  | none => .emptyAt input.stop
  | some first =>
      if start < stop then
        match input.tokens[stop - 1]? with
        | some last => ⟨(language.span first).start, (language.span last).stop⟩
        | none => .emptyAt input.stop
      else
        .emptyAt (language.span first).start

section Evaluate

variable [DecidableEq N] [Monad m]

mutual

/-- The value of a derivation of a nonterminal. -/
def evaluate (language : Language N T K m) (input : Input K) (name : N) :
    Derivation → m (language.Value name)
  | .leaf _ => language.misshapen
  | .node production start stop children =>
      match language.reductions[production]? with
      | none => language.misshapen
      | some reduction =>
          if same : reduction.lhs = name then
            same ▸ apply language input (language.Value reduction.lhs) reduction.rhs
              (reduction.action (language.spanBetween input start stop)) children
          else
            language.misshapen

/-- Apply an action to the values of the children of a node. -/
def apply (language : Language N T K m) (input : Input K) (Result : Type)
    (symbols : List (Symbol N T))
    (action : Curried language.Value language.Datum symbols (m Result)) :
    List Derivation → m Result
  | [] =>
      match symbols, action with
      | [], result => result
      | _ :: _, _ => language.misshapen
  | child :: children =>
      match symbols, action with
      | .terminal tokens :: others, action =>
          match child with
          | .leaf token =>
              match (input.tokens[token]?).bind (language.read tokens) with
              | some datum => apply language input Result others (action datum) children
              | none => language.misshapen
          | .node .. => language.misshapen
      | .nonterminal name :: others, action => do
          let value ← evaluate language input name child
          apply language input Result others (action value) children
      | [], _ => language.misshapen

end

/-- Derive the tokens of a text from the start symbol, and evaluate a derivation. -/
def judge (language : Language N T K m) (start : N) (input : Input K) :
    Verdict (m (language.Value start)) :=
  match language.grammar.survey start input.tokens with
  | .error reason => .rejected reason
  | .ok tally =>
      .derived tally.reported
        (match tally.sample with
        | derivation :: _ => language.evaluate input start derivation
        | [] => language.misshapen)

end Evaluate

end Language

end Krl
