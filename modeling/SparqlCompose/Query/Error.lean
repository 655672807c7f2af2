import SparqlCompose.Term.Basic

/-!
# Errors of queries

What can keep an operation on a query from being carried out.
-/

namespace SparqlCompose

/-- The slots of a triple pattern. -/
inductive Slot where
  | subject
  | predicate
  | object
deriving DecidableEq, Repr

/-- The word for a slot. -/
def Slot.word : Slot → String
  | .subject => "subject"
  | .predicate => "predicate"
  | .object => "object"

/-- Why two queries cannot be joined. -/
inductive JoinFault where
  | noVariable (query variableName : String)
  | sameInstance (id : String)
  | noEndpoint (query : String)
deriving DecidableEq, Repr

/-- What is wrong with the operands of a join. -/
def JoinFault.reason : JoinFault → String
  | .noVariable query variableName => query ++ " has no variable " ++ variableName
  | .sameInstance id => "cannot join instance " ++ id ++ " with itself"
  | .noEndpoint query => query ++ " has no endpoint"

/-- Why an operation would break a query, or cannot be carried out on a broken one. -/
inductive QueryError where
  | unknownVariable (name : String)
  | unknownId (id : VarId)
  | duplicateVariable (name : String)
  | invalidName (name : String)
  | literalIn (slot : Slot)
  | projectionMismatch (name : String)
  | orderExpression (text : String)
  | invalidIri (text : String)
  | noValue (placeholder : String)
  | join (fault : JoinFault)
  /-- The query refers to a place that its variable table does not have. -/
  | dangling (id : VarId)
deriving DecidableEq, Repr

/-- The wording of a query error. -/
def QueryError.message : QueryError → String
  | .unknownVariable name => "Unknown variable: " ++ name
  | .unknownId id => "Variable id " ++ toString id ++ " is not in the variable table"
  | .duplicateVariable name => "Duplicate variable name: " ++ name
  | .invalidName name => "Invalid variable name: " ++ name
  | .literalIn slot => "A literal cannot be used as " ++ slot.word
  | .projectionMismatch name => "Variable name not in new ordering: " ++ name
  | .orderExpression text => "Order expression is not a variable of the query: " ++ text
  | .invalidIri text => "Invalid IRI: " ++ text
  | .noValue placeholder => "Template placeholder has no value: " ++ placeholder
  | .join fault => "Cannot join: " ++ fault.reason
  | .dangling id => "Variable id " ++ toString id ++ " is dangling"

end SparqlCompose
