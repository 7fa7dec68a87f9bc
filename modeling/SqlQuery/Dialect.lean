import SqlQuery.Grammar.Statement
import SqlQuery.Token.Variable

/-!
# Dialects

The dialects known by name.  The generic dialect is the shared grammar as it
is.  The MySQL dialect adds user variables and system variables, as operands
and as sources; the rule for the latter outranks the former, so that `@@name`
is not read as a user variable.
-/

namespace SqlQuery

/-- A dialect known by name. -/
inductive Dialect where
  | generic
  | mysql
deriving DecidableEq, Repr

/-- A name that no dialect bears. -/
structure UnknownDialect where
  name : String
deriving DecidableEq, Repr

def UnknownDialect.message (e : UnknownDialect) : String :=
  "unknown dialect \x60" ++ e.name ++ "\x60 (expected one of: generic, mysql)"

/-- The token rules for variables. -/
def RuleSet.variables : RuleSet :=
  .ofRules
    [ .scanned "SYSTEM_VARIABLE" 35 Token.systemVariableLength? Token.readSystemVariable,
      .scanned "USER_VARIABLE" 34 Token.userVariableLength? Token.readUserVariable ]

/-- A variable in the place of an operand or a source. -/
def Production.variableName (symbol : Symbol) : Production where
  symbol := symbol
  name := "variable"
  starts
    | .userVariable _ | .systemVariable _ => true
    | _ => false
  reduce _ := do
    match (← Parser.current).kind with
    | .userVariable name =>
      let _ ← Parser.advance
      return .ofForm (.variableName name false)
    | .systemVariable name =>
      let _ ← Parser.advance
      return .ofForm (.variableName name true)
    | _ => Parser.unexpected "variable"

namespace Grammar

/-- A grammar extended by variables. -/
def withVariables (grammar : Grammar) : Grammar :=
  grammar
    |>.withTokens .variables
    |>.withProduction (.variableName .operand)
    |>.withProduction (.variableName .source)

/-- The grammar of the generic dialect. -/
def generic : Grammar := base "generic"

/-- The grammar of the MySQL dialect. -/
def mysql : Grammar := (base "mysql").withVariables

end Grammar

namespace Dialect

/-- Every dialect once. -/
def all : List Dialect := [.generic, .mysql]

def name : Dialect → String
  | .generic => "generic"
  | .mysql => "mysql"

def grammar : Dialect → Grammar
  | .generic => .generic
  | .mysql => .mysql

/-- The dialect with a given name, in any case. -/
def ofName (name : String) : Except UnknownDialect Dialect :=
  match all.find? (fun dialect => Text.sameWord dialect.name.toList name.toList) with
  | some dialect => .ok dialect
  | none => .error ⟨name⟩

/-- A dialect's own name leads back to it. -/
theorem ofName_name (dialect : Dialect) : ofName dialect.name = .ok dialect := by
  cases dialect <;> rfl

end Dialect

/-- The tree of a query text under a dialect. -/
def parse (source : String) (dialect : Dialect) : Except ParseError Node :=
  dialect.grammar.parse source

end SqlQuery
