import SparqlCompose.Query.Basic

/-!
# Joining two queries

A join makes one query of two, on one variable of each.  The variables of the left query keep
their places and names.  The joined variables become one; a variable of the right query that
is the same as one of the left, by its URI, becomes that one, and every other is added, under
a new name where its own is taken.  The clauses of the right query follow those of the left,
or stand in a block for the endpoint of the right query.
-/

namespace SparqlCompose

/-- How the clauses of the right query enter the composite. -/
inductive JoinMode where
  /-- Beside those of the left query. -/
  | inline
  /-- In a block for the endpoint of the right query. -/
  | service
deriving DecidableEq, Repr

/-- The word for a mode. -/
def JoinMode.word : JoinMode → String
  | .inline => "substitution"
  | .service => "service"

/-- A query with the name of the variable to join on. -/
structure JoinOperand where
  query : Query
  variableName : String

namespace JoinOperand

/-- The place of the variable to join on. -/
def variableId (o : JoinOperand) : Except QueryError VarId :=
  match o.query.resolve o.variableName with
  | .ok id => .ok id
  | .error _ => .error (.join (.noVariable o.query.uri o.variableName))

end JoinOperand

namespace Query

/-- The mode in which a join is carried out.  A right query without an endpoint has no block
to stand in, and one with another endpoint than the left needs one. -/
def effectiveMode (left right : Query) (requested : JoinMode) : JoinMode :=
  match right.activeEndpoint with
  | none => .inline
  | some e => if left.activeEndpoint = some e then requested else .service

/-- The variable that stands for both joined ones. -/
def sharedVariable (left right : Query) (l r : Variable) : Variable where
  uri := l.uri
  name := l.name
  label := l.label <|> r.label
  comment := l.comment <|> r.comment
  bound := l.bound <|> r.bound
  origin := .joined ⟨left.uri, l.name⟩ ⟨right.uri, r.name⟩

/-- Adds variables of a query to a composite one by one; `f` gives the variable to add for
each and its place.  The answer lists the places in the composite. -/
def addLeft (left right : Query) (leftId rightId : VarId) :
    VarId → List Variable → Query → Except QueryError (List VarId × Query)
  | _, [], q => .ok ([], q)
  | id, v :: vs, q => do
    let copy ← if id = leftId then (right.var rightId).map (sharedVariable left right v)
      else pure v
    let (newId, q) ← q.addVariable copy
    let (ids, q) ← addLeft left right leftId rightId (id + 1) vs q
    return (newId :: ids, q)

/-- The first of the first `limit` entries of the table that has the URI. -/
def idOfUri? (q : Query) (uri : String) (limit : Nat) : Option VarId :=
  (q.table.values.take limit).findIdx? fun v => v.uri == uri

/-- The variable of the left query that a variable of the right query becomes: the first with
its URI, unless that one is taken already. -/
def unified? (q : Query) (leftSize : Nat) (claimed : List VarId) (v : Variable) :
    Option VarId :=
  (q.idOfUri? v.uri leftSize).filter fun id => !claimed.contains id

/-- Brings the variables of the right query into a composite that holds those of the left.
`claimed` lists the places that may not be given away again.  The answer lists the places in
the composite. -/
def addRight (leftSize : Nat) (shared rightId : VarId) :
    VarId → List VarId → List Variable → Query → Except QueryError (List VarId × Query)
  | _, _, [], q => .ok ([], q)
  | id, claimed, v :: vs, q =>
    if id = rightId then do
      let (ids, q) ← addRight leftSize shared rightId (id + 1) claimed vs q
      return (shared :: ids, q)
    else match q.unified? leftSize claimed v with
    | some found => do
      let (ids, q) ← addRight leftSize shared rightId (id + 1) (found :: claimed) vs q
      return (found :: ids, q)
    | none => do
      let name := uniqueName v.name q.table.keys
      let (newId, q) ← q.addVariable { v with name := name }
      let (ids, q) ← addRight leftSize shared rightId (id + 1) claimed vs q
      return (newId :: ids, q)

/-- The place in a composite of a place in an operand. -/
def mappedId (ids : List VarId) (id : VarId) : Except QueryError VarId :=
  match ids[id]? with
  | some i => .ok i
  | none => .error (.unknownId id)

/-- Adds the result columns at places of an operand, those that are wanted. -/
def projectMapped (ids : List VarId) (wanted : VarId → VarId → Bool) (q : Query)
    (id : VarId) : Except QueryError Query := do
  let mapped ← mappedId ids id
  if wanted id mapped then return (← q.project mapped).2
  return q

/-- A clause of an operand with its places changed to those in the composite. -/
def mapClause (ids : List VarId) (c : Clause) : Except QueryError Clause := do
  c.patterns.forM fun p => p.varIds.forM fun id => do let _ ← mappedId ids id
  return c.mapVar fun id => ids.getD id id

/-- Adds the order keys of an operand. -/
def pushMappedOrder (ids : List VarId) (q : Query) (k : OrderKey) : Except QueryError Query :=
  match ids[k.variableId]? with
  | some id => q.pushOrder { k with variableId := id }
  | none => .error (.orderExpression ("VarId(" ++ toString k.variableId ++ ")"))

/-- A composite with the clauses of the right query, beside the others or in a block. -/
def pushRight (right : Query) (mode : JoinMode) (cs : List Clause) (q : Query) :
    Except QueryError Query :=
  match mode with
  | .inline => cs.foldlM pushClause q
  | .service =>
    match right.activeEndpoint with
    | some e => q.pushClause (.block e cs)
    | none => .error (.join (.noEndpoint right.uri))

/-- Joins two queries; the answer is the composite and the mode that was used. -/
def join (left right : JoinOperand) (requested : JoinMode) :
    Except QueryError (Query × JoinMode) := do
  let l := left.query
  let r := right.query
  let leftId ← left.variableId
  let rightId ← right.variableId
  let mode := effectiveMode l r requested
  let q : Query :=
    { uri := "join(" ++ l.uri ++ "," ++ r.uri ++ ")"
      label := some (l.displayLabel ++ " ⋈ " ++ r.displayLabel) }
  let (leftIds, q) ← addLeft l r leftId rightId 0 l.table.values q
  let shared ← match leftIds[leftId]? with
    | some id => pure id
    | none => throw (.unknownVariable left.variableName)
  let leftSize := q.table.size
  let (rightIds, q) ← addRight leftSize shared rightId 0 [shared] r.table.values q
  let q ← l.projections.foldlM (projectMapped leftIds fun _ _ => true) q
  let q ← r.projections.foldlM
    (projectMapped rightIds fun id mapped => id != rightId && leftSize ≤ mapped) q
  let q ← l.clauses.foldlM (fun q c => do q.pushClause (← mapClause leftIds c)) q
  let q ← pushRight r mode (← r.clauses.mapM (mapClause rightIds)) q
  let q ← l.order.foldlM (pushMappedOrder leftIds) q
  let q ← r.order.foldlM (pushMappedOrder rightIds) q
  let q := match l.activeEndpoint with | some e => q.activate e | none => q
  let q := match r.activeEndpoint with | some e => q.addEndpoint e | none => q
  return (q, mode)

end Query

end SparqlCompose
