import SparqlCompose.Graph.Basic

/-!
# Writing Turtle

Triples are written in the given order.  One with the subject of the triple before it leaves
the subject out, and one with the same subject and predicate leaves out both.  IRIs are
written in full.
-/

namespace SparqlCompose.Turtle

/-- A character of a literal. -/
def literalChar (c : Char) : List Char :=
  if c = '\n' then ['\\', 'n']
  else if c = '\r' then ['\\', 'r']
  else if c = '"' then ['\\', '"']
  else if c = '\\' then ['\\', '\\']
  else [c]

/-- A constant. -/
def constantText : Constant → String
  | .resource r => r.canonical
  | .literal l =>
    let text := "\"" ++ String.ofList (l.value.toList.flatMap literalChar) ++ "\""
    match l.kind with
    | .simple => text
    | .typed d => text ++ "^^<" ++ d ++ ">"
    | .tagged t => text ++ "@" ++ t

/-- A triple after the triple before it. -/
def tripleText (previous : Option Triple) (t : Triple) : String :=
  let predicateObject := "<" ++ t.predicate ++ "> " ++ constantText t.object
  match previous with
  | none => t.subject.canonical ++ " " ++ predicateObject
  | some p =>
    if p.subject = t.subject then
      if p.predicate = t.predicate then " , " ++ constantText t.object
      else " ;\n\t" ++ predicateObject
    else " .\n" ++ t.subject.canonical ++ " " ++ predicateObject

/-- The triples after the triple before them, up to the end of the last statement. -/
def textAfter (previous : Option Triple) : List Triple → String
  | [] => if previous.isSome then " .\n" else ""
  | t :: ts => tripleText previous t ++ textAfter (some t) ts

/-- The Turtle document of a list of triples. -/
def write (ts : List Triple) : String := textAfter none ts

end SparqlCompose.Turtle
