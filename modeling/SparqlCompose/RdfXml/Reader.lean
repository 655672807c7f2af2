import SparqlCompose.Graph.Format
import SparqlCompose.Graph.Labels
import SparqlCompose.Iri.Resolve
import SparqlCompose.LanguageTag
import SparqlCompose.Term.NameChars
import SparqlCompose.Xml.Entity
import SparqlCompose.Xml.Reader

/-!
# Reading RDF/XML

The elements of a document are nodes and properties by turns: a node element stands for the
subject of its children, a property element for a triple with what it contains.  Triples are
collected in the order in which they are complete; a property is complete at the end of its
element.

Each node element takes a label for a blank node when it begins, whether it needs one or not.
-/

namespace SparqlCompose.RdfXml

/-- What an element says about all that is inside of it. -/
structure Scope where
  base : Option String
  language : Option String := none
  /-- The namespaces of the prefixes, latest first; the empty prefix has the default one. -/
  namespaces : List (String × String) := Xml.reservedNamespaces

/-- How far the reading of a document has come. -/
structure Reading where
  entities : Xml.Entities := []
  /-- The number of blank nodes that were given a label. -/
  labels : Nat := 0
  /-- The IRIs that were given to elements, each of which may be given once. -/
  ids : List String := []
  /-- The triples so far, latest first. -/
  found : List Triple := []

/-- A step of reading a document. -/
abbrev Reader := StateT Reading (Except DocumentError)

/-- Refuses the document. -/
def refuse {α : Type} : Reader α := throw (.malformed .xml)

/-- The value, if there is one; without one the document is refused. -/
def require {α : Type} : Option α → Reader α
  | some a => pure a
  | none => refuse

/-- Refuses the document unless a condition holds. -/
def check (condition : Bool) : Reader Unit := if condition then pure () else refuse

/-- Adds a triple to those found.  One that a graph cannot hold ends the reading. -/
def emit (s : Resource) (p : String) (o : Constant) : Reader Unit :=
  match Triple.checked ⟨s, p, o⟩ with
  | .ok t => modify fun r => { r with found := t :: r.found }
  | .error _ => throw .unfit

/-- A blank node with a label of its own. -/
def freshNode : Reader Resource :=
  modifyGet fun r => (.blank (generatedLabel (r.labels + 1)), { r with labels := r.labels + 1 })

/-- A text with its references replaced. -/
def resolved (raw : List Char) : Reader String := do
  return String.ofList (← require (Xml.resolved? (← get).entities raw))

/-- Takes the declarations of a document type. -/
def declare (raw : List Char) : Reader Unit := do
  let r ← get
  set { r with entities := ← require (r.entities.declareAll? raw) }

/-! ### Names -/

/-- Whether a text is a name without a colon. -/
def isNcName (text : String) : Bool :=
  match text.toList with
  | c :: cs => NameChars.isLetterU c && cs.all fun c => NameChars.isInner c || c == '.'
  | [] => false

/-- The namespaces that the attributes of an element declare. -/
def declaredNamespaces (attributes : List (String × String)) : List (String × String) :=
  (attributes.filterMap fun (name, value) =>
    if name = "xmlns" then some ("", value)
    else (dropLead? "xmlns:".toList name.toList).map fun p => (String.ofList p, value)).reverse

/-- The name in full: the namespace of its prefix and its local part.  The default namespace
does not count for attributes, and a name without a namespace is refused.  The name in full need
not be an IRI; a triple with it is checked where it is added. -/
def expandName (scope : Scope) (isAttribute : Bool) (name : String) : Reader String := do
  let (p, stem) ← match cutFirst (· == ':') name.toList with
    | some (p, stem) => pure (String.ofList p, stem)
    | none => do
      check !isAttribute
      pure ("", name.toList)
  let ns ← require (scope.namespaces.lookup p)
  check !ns.isEmpty
  resolved (ns.toList ++ stem)

/-- A text as an absolute IRI. -/
def absolute (text : String) : Reader String := do
  check (Iri.isAbsolute text)
  return text

/-- A reference as an IRI. -/
def reference (scope : Scope) (text : String) : Reader String :=
  require (Iri.resolveAgainst scope.base text)

/-- Names that no element may have where a node or a property is expected. -/
def reservedElements : List String :=
  ["about", "aboutEach", "aboutEachPrefix", "bagID", "datatype", "ID", "li", "nodeID", "parseType",
    "RDF", "resource"].map Vocabulary.rdf

/-- Names that no attribute may have. -/
def reservedAttributes : List String :=
  ["aboutEach", "aboutEachPrefix", "li", "RDF"].map Vocabulary.rdf

/-! ### Attributes -/

/-- How the content of a property element is to be read. -/
inductive Content where
  | resource
  | collection
  /-- As a text with its markup. -/
  | markup
  /-- In a way that has no meaning here. -/
  | unknown

/-- What the attributes of an element say. -/
structure Attributes where
  scope : Scope
  id : Option String := none
  nodeId : Option Resource := none
  about : Option String := none
  resource : Option String := none
  datatype : Option String := none
  type : Option String := none
  content : Option Content := none
  /-- The properties that are written as attributes. -/
  properties : List (String × String) := []

/-- Takes an attribute of the language itself: a base or a natural language. -/
def xmlAttribute (a : Attributes) (name value : String) : Reader Attributes := do
  if name = "xml:lang" then
    let tag := (← resolved value.toList).map Char.toLower
    check (LanguageTag.isWellFormed tag)
    return { a with scope := { a.scope with language := some tag } }
  else if name = "xml:base" then
    let base ← absolute (← resolved value.toList)
    return { a with scope := { a.scope with base := some base } }
  else return a

/-- Takes an attribute that says how to read the element, or a property. -/
def graphAttribute (a : Attributes) (name value : String) : Reader Attributes := do
  let iri ← expandName a.scope true name
  let raw := value.toList
  if iri = Vocabulary.rdf "ID" then
    let id ← resolved raw
    check (isNcName id)
    return { a with id := some id }
  else if iri = Vocabulary.rdf "bagID" then
    check (isNcName (← resolved raw))
    return a
  else if iri = Vocabulary.rdf "nodeID" then
    let id ← resolved raw
    check (isNcName id)
    return { a with nodeId := some (.blank id) }
  else if iri = Vocabulary.rdf "about" then return { a with about := some value }
  else if iri = Vocabulary.rdf "resource" then return { a with resource := some value }
  else if iri = Vocabulary.rdf "datatype" then return { a with datatype := some value }
  else if iri = Vocabulary.rdfType then return { a with type := some value }
  else if iri = Vocabulary.rdf "parseType" then
    let content : Content :=
      if value = "Resource" then .resource
      else if value = "Collection" then .collection
      else if value = "Literal" then .markup
      else .unknown
    return { a with content := some content }
  else
    check (iri ∉ reservedAttributes)
    return { a with properties := a.properties ++ [(iri, ← resolved raw)] }

/-- An identifier of an element, as an IRI that no other element has. -/
def uniqueId (scope : Scope) (id : String) : Reader String := do
  let iri ← reference scope ("#" ++ id)
  check (iri ∉ (← get).ids)
  modify fun r => { r with ids := iri :: r.ids }
  return iri

/-- Takes the attributes of an element.  References are read against the base that the element
itself may set. -/
def takeAttributes (outer : Scope) (attributes : List (String × String)) : Reader Attributes := do
  let scope := { outer with namespaces := declaredNamespaces attributes ++ outer.namespaces }
  let a ← attributes.foldlM take { scope := scope }
  let ref (raw : String) : Reader String := do reference a.scope (← resolved raw.toList)
  return { a with
    id := ← a.id.mapM (uniqueId a.scope)
    about := ← a.about.mapM ref
    resource := ← a.resource.mapM ref
    datatype := ← a.datatype.mapM ref
    type := ← a.type.mapM ref }
where
  take (a : Attributes) : String × String → Reader Attributes
    | (name, value) =>
      if (dropLead? "xml".toList name.toList).isSome then xmlAttribute a name value
      else graphAttribute a name value

/-! ### Nodes and properties -/

/-- A text in the language of its element. -/
def plainLiteral (scope : Scope) (text : String) : Literal :=
  match scope.language with
  | some tag => .inLanguage text tag
  | none => .plain text

/-- Adds the properties and the type that the attributes of an element give to a node. -/
def emitAttributes (a : Attributes) (node : Resource) : Reader Unit := do
  for (p, value) in a.properties do
    emit node p (.literal (plainLiteral a.scope value))
  if let some t := a.type then emit node Vocabulary.rdfType (.iri t)

/-- Begins a node element; the answer is what it says for all inside, and its node. -/
def openNode (outer : Scope) (name : String) (attributes : List (String × String)) :
    Reader (Scope × Resource) := do
  let a ← takeAttributes outer attributes
  let iri ← expandName a.scope false name
  check (iri ∉ reservedElements)
  let fresh ← freshNode
  let node ← match a.id, a.nodeId, a.about with
    | some id, none, none => pure (.iri id)
    | none, some node, none => pure node
    | none, none, some iri => pure (.iri iri)
    | none, none, none => pure fresh
    | _, _, _ => refuse
  emitAttributes a node
  if iri ≠ Vocabulary.rdf "Description" then emit node Vocabulary.rdfType (.iri iri)
  return (a.scope, node)

/-- The predicate of a property element, where `members` members of the node have been counted,
and their number after it. -/
def predicateOf (scope : Scope) (members : Nat) (name : String) : Reader (String × Nat) := do
  let iri ← expandName scope false name
  if iri = Vocabulary.rdf "li" then
    return (Vocabulary.rdf ("_" ++ toString (members + 1)), members + 1)
  else
    check (iri ∉ Vocabulary.rdf "Description" :: reservedElements)
    return (iri, members)

/-- Adds a triple, and before it the statement about it if its element has an identifier. -/
def emitProperty (a : Attributes) (s : Resource) (p : String) (o : Constant) : Reader Unit := do
  if let some id := a.id then
    let statement : Resource := .iri id
    emit statement Vocabulary.rdfType (.iri (Vocabulary.rdf "Statement"))
    emit statement (Vocabulary.rdf "subject") (.resource s)
    emit statement (Vocabulary.rdf "predicate") (.iri p)
    emit statement (Vocabulary.rdf "object") o
  emit s p o

/-- The object that the attributes of a property element name, if they do. -/
def namedObject (a : Attributes) : Reader (Option Constant) := do
  if a.resource.isNone && a.nodeId.isNone && a.properties.isEmpty then return none
  else
    let node ← match a.resource, a.nodeId with
      | some iri, none => pure (.iri iri)
      | none, some node => pure node
      | none, none => freshNode
      | some _, some _ => refuse
    emitAttributes a node
    return some (.resource node)

/-- The literal of a text in a property element. -/
def literalObject (a : Attributes) (text : String) : Constant :=
  match a.datatype with
  | some d => .literal (.ofType text d)
  | none => .literal (plainLiteral a.scope text)

/-- Adds the cells of a list, from the last one to the first; the answer is the first. -/
def emitCells (rest : Resource) : List Resource → Reader Resource
  | [] => return rest
  | item :: items => do
    let next ← emitCells rest items
    let cell ← freshNode
    emit cell Vocabulary.rdfFirst (.resource item)
    emit cell Vocabulary.rdfRest (.resource next)
    return cell

/-- Refuses a text that is not white space, where elements are expected. -/
def checkBlank (raw : List Char) : Reader Unit := do
  let _ ← resolved raw
  check (raw.all Xml.isSpace)

mutual

/-- The markup of a part of the content of a property. -/
def markup : Xml.Node → Reader (List Char)
  | .text raw => do
    let text ← resolved raw
    return text.toList.flatMap Xml.escapedChar
  | .doctype raw => do
    declare raw
    return []
  | .element name attributes children _ => do
    let inner ← markupAll children
    let shown := attributes.flatMap fun (n, v) =>
      ' ' :: (n.toList ++ '=' :: '"' :: (v.toList ++ ['"']))
    return '<' :: (name.toList ++ shown ++ '>' :: (inner ++ '<' :: '/' :: (name.toList ++ ['>'])))

/-- The markup of the content of a property. -/
def markupAll : List Xml.Node → Reader (List Char)
  | [] => return []
  | n :: rest => do
    let front ← markup n
    return front ++ (← markupAll rest)

end

mutual

/-- Reads a node element; the answer is its node, if it ends. -/
def nodeElement (scope : Scope) : Xml.Node → Reader (Option Resource)
  | .text raw => do
    checkBlank raw
    return none
  | .doctype raw => do
    declare raw
    return none
  | .element name attributes children isClosed => do
    let (inner, node) ← openNode scope name attributes
    propertyElements inner node 0 children
    return if isClosed then some node else none

/-- Reads node elements; the answer has the nodes of those that end. -/
def nodeElements (scope : Scope) : List Xml.Node → Reader (List Resource)
  | [] => return []
  | n :: rest => do
    let node ← nodeElement scope n
    let more ← nodeElements scope rest
    return node.toList ++ more

/-- Reads a part of the content of a property element, which may be its object; `object` is
the object so far. -/
def objectPart (a : Attributes) (object : Option Constant) : Xml.Node → Reader (Option Constant)
  | .text raw => do
    let text ← resolved raw
    return if raw.all Xml.isSpace then object else some (literalObject a text)
  | .doctype raw => do
    declare raw
    return object
  | .element name attributes children isClosed => do
    let (inner, node) ← openNode a.scope name attributes
    propertyElements inner node 0 children
    return if isClosed then some (.resource node) else object

/-- Reads the content of a property element: the last text or node element in it is its
object, if there is one. -/
def objectOf (a : Attributes) (object : Option Constant) : List Xml.Node → Reader (Option Constant)
  | [] => return object
  | n :: rest => do
    let object ← objectPart a object n
    objectOf a object rest

/-- Reads a property element of a node, of which `members` members have been counted; the answer
is their number after it. -/
def propertyElement (scope : Scope) (subject : Resource) (members : Nat) : Xml.Node → Reader Nat
  | .text raw => do
    checkBlank raw
    return members
  | .doctype raw => do
    declare raw
    return members
  | .element name attributes children isClosed => do
    let a ← takeAttributes scope attributes
    let (p, members) ← predicateOf a.scope members name
    match a.content with
    | some .resource =>
      let node ← freshNode
      emitProperty a subject p (.resource node)
      propertyElements a.scope node 0 children
    | some .collection =>
      let items ← nodeElements a.scope children
      if isClosed then
        let list ← emitCells (.iri Vocabulary.rdfNil) items
        emitProperty a subject p (.resource list)
    | some .markup =>
      let text ← markupAll children
      if isClosed then
        check !text.isEmpty
        let literal := Literal.ofType (String.ofList text) (Vocabulary.rdf "XMLLiteral")
        emitProperty a subject p (.literal literal)
    | some .unknown =>
      let _ ← markupAll children
    | none =>
      let object ← namedObject a
      let object ← objectOf a object children
      if isClosed then emitProperty a subject p (object.getD (literalObject a ""))
    return members

/-- Reads the property elements of a node, of which `members` members have been counted. -/
def propertyElements (scope : Scope) (subject : Resource) (members : Nat) :
    List Xml.Node → Reader Unit
  | [] => return ()
  | n :: rest => do
    let members ← propertyElement scope subject members n
    propertyElements scope subject members rest

end

/-! ### Documents -/

/-- Reads a part of the highest level of a document: an element for the whole graph, or a
node. -/
def topElement (scope : Scope) : Xml.Node → Reader Unit
  | .element name attributes children isClosed => do
    let namespaces := declaredNamespaces attributes ++ scope.namespaces
    let iri ← expandName { scope with namespaces := namespaces } false name
    if iri = Vocabulary.rdf "RDF" then
      let a ← takeAttributes scope attributes
      let _ ← nodeElements a.scope children
    else
      let _ ← nodeElement scope (.element name attributes children isClosed)
  | n => do let _ ← nodeElement scope n

/-- The triples of an RDF/XML document, in the order in which they are complete. -/
def read (text : String) (base : Option String) : Except DocumentError (List Triple) := do
  let (nodes, isComplete) := Xml.read text
  let ((), r) ← (nodes.forM (topElement { base := base })).run {}
  if isComplete then return r.found.reverse else throw (.malformed .xml)

end SparqlCompose.RdfXml
