import SparqlCompose.Canvas.Id
import SparqlCompose.Catalog.Concept
import SparqlCompose.Catalog.Query
import SparqlCompose.Digest.Sha256
import SparqlCompose.Query.Join
import SparqlCompose.Query.Template

/-!
# The canvas

The canvas holds working copies of queries, called instances, and the catalogs from which
they come.  An instance lives in a slot of the bucket of its source.  A slot is never used
again: when its instance goes, the slot stays empty, so an id means one instance for ever.

An operation is a step of `CanvasM`.  A step that fails leaves the canvas as it is at that
point, so an operation has to check first and write afterwards if its failure is to change
nothing.  Each operation that succeeds takes a note of what happened in `Canvas.events`.
-/

namespace SparqlCompose

/-- What happened on a canvas. -/
inductive CanvasEvent where
  | instantiated (id source : String)
  | destroyed (id : String)
  | variableAdded (id variableName : String)
  | projectionChanged (id : String) (columns : List String)
  | patternAdded (id : String)
  | variableBound (id variableName : String) (value : Option Constant)
  /-- The instance `oldId` goes on as `newId`, which took up `removedId`. -/
  | joined (oldId newId removedId : String)
deriving DecidableEq, Repr

/-- Why an operation on a canvas fails. -/
inductive CanvasError where
  | unknownInstance (id : String)
  | invalidId (text : String)
  | unknownSource (uri : String)
  | query (fault : QueryError)
  | name (fault : PrefixError)
deriving DecidableEq, Repr

/-- The wording of a canvas error. -/
def CanvasError.message : CanvasError → String
  | .unknownInstance id => "No query instance with id " ++ id
  | .invalidId text => "Malformed instance id: " ++ text
  | .unknownSource uri => "Not a known query or concept: " ++ uri
  | .query fault => fault.message
  | .name fault => fault.message

/-- Instances, and the catalogs from which they come. -/
structure Canvas where
  /-- The bucket of a source. -/
  sourceHash : String → String := Sha256.shortHex
  prefixes : PrefixTable := .standard
  queries : QueryCatalog := ∅
  endpoints : EndpointCatalog := ∅
  concepts : ConceptList := ∅
  /-- The slots of each bucket; an instance that is gone leaves `none`. -/
  buckets : OrderedMap (List (Option Query)) := ∅
  /-- What has happened, oldest first. -/
  events : List CanvasEvent := []

/-- A step on a canvas. -/
abbrev CanvasM := ExceptT CanvasError (StateM Canvas)

namespace Canvas

/-! ### Slots -/

/-- The instance in a slot. -/
def instance? (c : Canvas) (id : InstanceId) : Option Query := do
  let bucket ← c.buckets.get? id.hash
  (← bucket[id.slot]?)

/-- Writes a slot that a bucket has. -/
def setSlot (c : Canvas) (id : InstanceId) (q : Option Query) : Canvas :=
  match c.buckets.get? id.hash with
  | some bucket => { c with buckets := c.buckets.insert id.hash (bucket.set id.slot q) }
  | none => c

/-- The ids of the slots of a bucket that hold an instance. -/
def liveIds (hash : String) (bucket : List (Option Query)) : List String :=
  (bucket.zipIdx.filter fun e => e.1.isSome).map fun e => (⟨hash, e.2⟩ : InstanceId).text

/-- The ids of all instances, bucket by bucket. -/
def ids (c : Canvas) : List String :=
  c.buckets.entries.flatMap fun (hash, bucket) => liveIds hash bucket

/-- The id that a text names. -/
def parseId (text : String) : Except CanvasError InstanceId :=
  match InstanceId.ofText? text with
  | some id => .ok id
  | none => .error (.invalidId text)

/-- The instance with an id. -/
def find (c : Canvas) (text : String) : Except CanvasError (InstanceId × Query) := do
  let id ← parseId text
  match c.instance? id with
  | some q => .ok (id, q)
  | none => .error (.unknownInstance text)

end Canvas

namespace CanvasM

/-- Takes a note of what happened. -/
def emit (e : CanvasEvent) : CanvasM Unit := modify fun c => { c with events := c.events ++ [e] }

/-- A step on a query, where a canvas is at work. -/
def ofQuery {α : Type} (r : Except QueryError α) : CanvasM α := .mk (pure (r.mapError .query))

/-- The instance with an id. -/
def find (text : String) : CanvasM (InstanceId × Query) := do
  .mk (pure ((← get).find text))

/-- Changes the instance with an id, unless the step on it fails. -/
def edit {α : Type} (text : String) (f : Query → Except QueryError (α × Query)) : CanvasM α := do
  let (id, q) ← find text
  let (a, q) ← ofQuery (f q)
  modify fun c => c.setSlot id (some q)
  return a

/-! ### Instances come and go -/

/-- Puts a query into a new slot of the bucket of its source; the answer is the id of the
slot.  The variables of the query are scoped to the id, so instances of one source do not
share variables. -/
def insert (source : String) (q : Query) : CanvasM String := do
  let c ← get
  let hash := c.sourceHash source
  let bucket := (c.buckets.get? hash).getD []
  let id := (⟨hash, bucket.length⟩ : InstanceId).text
  set { c with buckets := c.buckets.insert hash (bucket ++ [some (q.scopeTo id)]) }
  emit (.instantiated id source)
  return id

/-- The query of a source: the template of a concept, or else a query of the catalog. -/
def source (uri : String) : CanvasM Query := do
  let c ← get
  match c.concepts.get? uri with
  | some concept => ofQuery concept.template
  | none =>
    match c.queries.get? uri with
    | some q => return q
    | none => throw (.unknownSource uri)

/-- Makes an instance of a source; the answer is its id. -/
def instantiate (uri : String) (endpoint : Option String) : CanvasM String := do
  let q ← source uri
  insert uri (match endpoint with
    | some e => q.activate e
    | none => q)

/-- Removes an instance; the answer is the query. -/
def destroy (text : String) : CanvasM Query := do
  let (id, q) ← find text
  modify fun c => c.setSlot id none
  emit (.destroyed text)
  return q

/-- Joins two instances on one variable of each.  The composite takes a slot of its own, and
both operands go; the answer is the new id. -/
def join (left right : String × String) (mode : JoinMode) : CanvasM String := do
  if left.1 = right.1 then throw (.query (.join (.sameInstance left.1)))
  let (leftId, l) ← find left.1
  let (rightId, r) ← find right.1
  let (q, _) ← ofQuery (Query.join ⟨l, left.2⟩ ⟨r, right.2⟩ mode)
  modify fun c => (c.setSlot leftId none).setSlot rightId none
  let newId ← insert q.uri q
  emit (.joined left.1 newId right.1)
  return newId

/-! ### Edits of an instance -/

/-- The result columns of an instance, with a note that they changed. -/
def emitColumns (text : String) : CanvasM Unit := do
  let (_, q) ← find text
  emit (.projectionChanged text (← ofQuery q.projectedNames))

/-- Adds a variable named after `base`; the answer is its name. -/
def addVariable (text base : String) : CanvasM String := do
  let v ← edit text fun q => do
    let (id, q) ← q.freshVariable base
    return (← q.var id, q)
  emit (.variableAdded text v.name)
  return v.name

/-- Adds a result column, or removes it. -/
def project (text variableName : String) (on : Bool) : CanvasM Unit := do
  let changed ← edit text fun q => do
    let id ← q.resolve variableName
    if on then q.project id else return q.unproject id
  if changed then emitColumns text

/-- Puts the result columns into the given order. -/
def reorder (text : String) (order : List String) : CanvasM Unit := do
  edit text fun q => return ((), ← q.reorder order)
  emitColumns text

/-- Binds a variable to a constant, or clears it; the answer is the value that it had. -/
def setBound (text variableName : String) (value : Option Constant) :
    CanvasM (Option Constant) := do
  let (old, v) ← edit text fun q => do
    let id ← q.resolve variableName
    let (old, q) ← q.setBound id value
    return ((old, ← q.var id), q)
  emit (.variableBound text v.name value)
  return old

end CanvasM

end SparqlCompose
