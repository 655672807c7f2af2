import Std.Data.HashMap
import SparqlCompose.Term.Canonical

/-!
# Graphs

A graph holds triples in the order in which they were added, each once.  Two indices answer
the questions that readers of a graph ask: which objects a subject has under a predicate, and
which subjects have an object under a predicate.  `Graph.insert` writes all three; a triple
that is already present is refused and changes nothing.
-/

namespace SparqlCompose

/-- A triple. -/
structure Triple where
  subject : Resource
  predicate : String
  object : Constant
deriving DecidableEq, Repr, Inhabited

/-- The canonical text of a triple. -/
def Triple.canonical (t : Triple) : String :=
  t.subject.canonical ++ " <" ++ t.predicate ++ "> " ++ t.object.canonical ++ " ."

/-- The triple is already in the graph. -/
structure DuplicateTriple where
  triple : Triple
deriving DecidableEq, Repr

/-- The wording of the refusal. -/
def DuplicateTriple.message (e : DuplicateTriple) : String :=
  "Duplicate triple: " ++ e.triple.canonical

/-- A set of triples with its two indices. -/
structure Graph where
  /-- The triples, oldest first. -/
  triples : Array Triple := #[]
  /-- The objects of a subject under a predicate, oldest first. -/
  objectIndex : Std.HashMap (Resource × String) (Array Constant) := ∅
  /-- The subjects of an object under a predicate, oldest first. -/
  subjectIndex : Std.HashMap (String × Constant) (Array Resource) := ∅

namespace Graph

instance : EmptyCollection Graph := ⟨{}⟩

instance : Inhabited Graph := ⟨∅⟩

/-- The objects of a subject under a predicate, oldest first. -/
def objects (g : Graph) (s : Resource) (p : String) : List Constant :=
  (g.objectIndex.getD (s, p) #[]).toList

/-- The oldest object of a subject under a predicate. -/
def object? (g : Graph) (s : Resource) (p : String) : Option Constant :=
  (g.objects s p).head?

/-- The subjects of an object under a predicate, oldest first. -/
def subjects (g : Graph) (p : String) (o : Constant) : List Resource :=
  (g.subjectIndex.getD (p, o) #[]).toList

/-- Whether the triple is in the graph. -/
def contains (g : Graph) (t : Triple) : Bool :=
  (g.objects t.subject t.predicate).contains t.object

/-- The number of triples. -/
def size (g : Graph) : Nat := g.triples.size

/-- The triples, oldest first. -/
def toList (g : Graph) : List Triple := g.triples.toList

/-- Adds a triple that is not yet in the graph. -/
def insert (g : Graph) (t : Triple) : Except DuplicateTriple Graph :=
  if g.contains t then .error ⟨t⟩
  else .ok {
    triples := g.triples.push t
    objectIndex := g.objectIndex.insert (t.subject, t.predicate)
      ((g.objectIndex.getD (t.subject, t.predicate) #[]).push t.object)
    subjectIndex := g.subjectIndex.insert (t.predicate, t.object)
      ((g.subjectIndex.getD (t.predicate, t.object) #[]).push t.subject) }

/-- Adds a triple, unless it is there already. -/
def add (g : Graph) (t : Triple) : Graph :=
  match g.insert t with
  | .ok g' => g'
  | .error _ => g

/-- Adds the triples one after the other. -/
def addAll (g : Graph) (ts : List Triple) : Graph := ts.foldl add g

/-- The graph of a list of triples. -/
def ofList (ts : List Triple) : Graph := (∅ : Graph).addAll ts

/-- The text of the oldest object, if that is a literal. -/
def literal? (g : Graph) (s : Resource) (p : String) : Option String :=
  (g.object? s p).bind Constant.literalText?

end Graph

end SparqlCompose
