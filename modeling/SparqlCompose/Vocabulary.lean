/-!
# Names of the vocabularies

The IRIs that queries, their SPIN descriptions and the catalogs give a meaning of their own.
-/

namespace SparqlCompose.Vocabulary

/-- A name of the RDF vocabulary. -/
def rdf (name : String) : String := "http://www.w3.org/1999/02/22-rdf-syntax-ns#" ++ name

/-- A name of the RDF Schema vocabulary. -/
def rdfs (name : String) : String := "http://www.w3.org/2000/01/rdf-schema#" ++ name

/-- A datatype of XML Schema. -/
def xsd (name : String) : String := "http://www.w3.org/2001/XMLSchema#" ++ name

/-- A name of the OWL vocabulary. -/
def owl (name : String) : String := "http://www.w3.org/2002/07/owl#" ++ name

/-- A name of the SPIN vocabulary. -/
def sp (name : String) : String := "http://spinrdf.org/sp#" ++ name

/-- A name of the service description vocabulary. -/
def sd (name : String) : String := "http://www.w3.org/ns/sparql-service-description#" ++ name

/-- The class membership predicate. -/
def rdfType : String := rdf "type"

/-- The first member of a list cell. -/
def rdfFirst : String := rdf "first"

/-- The list after a list cell. -/
def rdfRest : String := rdf "rest"

/-- The empty list. -/
def rdfNil : String := rdf "nil"

/-- A label for people. -/
def rdfsLabel : String := rdfs "label"

/-- A remark for people. -/
def rdfsComment : String := rdfs "comment"

/-- The datatype of plain texts. -/
def xsdString : String := xsd "string"

end SparqlCompose.Vocabulary
