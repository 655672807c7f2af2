import SparqlCompose.Text.Cut

/-!
# Well-formed language tags

The grammar of BCP 47 on subtags: a language with up to three extended subtags, then script,
region, variants, extensions and a private part, each optional and in this order; or a
private tag; or one of the tags that are older than the grammar.
-/

namespace SparqlCompose.LanguageTag

/-- Tags that are well formed although they do not follow the grammar. -/
def grandfathered : List String := [
  "art-lojban", "cel-gaulish", "en-gb-oed", "i-ami", "i-bnn", "i-default", "i-enochian",
  "i-hak", "i-klingon", "i-lux", "i-mingo", "i-navajo", "i-pwn", "i-tao", "i-tay", "i-tsu",
  "no-bok", "no-nyn", "sgn-be-fr", "sgn-be-nl", "sgn-ch-de", "zh-guoyu", "zh-hakka",
  "zh-min", "zh-min-nan", "zh-xiang"]

/-- How far the grammar has got when the next subtag is read. -/
inductive Stage where
  | start
  /-- After a short language and the given number of extended subtags. -/
  | language (extended : Nat)
  | afterExtended
  | afterScript
  | afterRegion
  /-- In an extension; a subtag has to follow if the flag is set. -/
  | extension (expected : Bool)
  /-- In the private part; a subtag has to follow if the flag is set. -/
  | privateUse (expected : Bool)
deriving DecidableEq, Repr

/-- Whether a script may follow. -/
def Stage.beforeScript : Stage → Bool
  | .language _ | .afterExtended => true
  | _ => false

/-- Whether a region may follow. -/
def Stage.beforeRegion (s : Stage) : Bool := s.beforeScript || s == .afterScript

/-- Whether a variant may follow. -/
def Stage.beforeVariant (s : Stage) : Bool := s.beforeRegion || s == .afterRegion

/-- Whether a subtag has the form of a variant. -/
def isVariant (sub : List Char) : Bool :=
  match sub with
  | c :: _ =>
    sub.all Char.isAlphanum &&
      ((sub.length ≥ 5 && c.isAlpha) || (sub.length ≥ 4 && c.isDigit))
  | [] => false

/-- Whether a subtag has the form of a private one. -/
def isPrivate (sub : List Char) : Bool :=
  0 < sub.length && sub.length ≤ 8 && sub.all Char.isAlphanum

/-- The stage after a subtag that begins an extension or the private part. -/
def Stage.open? (s next : Stage) : Option Stage :=
  if s = .extension true then none else some next

/-- The stage after one more subtag. -/
def Stage.step (s : Stage) (sub : List Char) : Option Stage :=
  let n := sub.length
  if n = 0 ∨ n > 8 then none
  else match s with
  | .start =>
    if n < 2 ∨ !sub.all Char.isAlpha then none
    else some (if n < 4 then .language 0 else .afterExtended)
  | .privateUse _ => if sub.all Char.isAlphanum then some (.privateUse false) else none
  | s =>
    if sub = ['x'] ∨ sub = ['X'] then s.open? (.privateUse true)
    else if n = 1 ∧ sub.all Char.isAlphanum then s.open? (.extension true)
    else match s with
    | .extension _ => if sub.all Char.isAlphanum then some (.extension false) else none
    | s =>
      match s, n == 3 && sub.all Char.isAlpha with
      | .language k, true => if k < 3 then some (.language (k + 1)) else none
      | s, _ =>
        if s.beforeScript && n == 4 && sub.all Char.isAlpha then some .afterScript
        else if s.beforeRegion &&
            (n == 2 && sub.all Char.isAlpha || n == 3 && sub.all Char.isDigit) then
          some .afterRegion
        else if s.beforeVariant && isVariant sub then some .afterRegion
        else none

/-- Whether a tag may end here. -/
def Stage.mayEnd : Stage → Bool
  | .start => false
  | .extension expected | .privateUse expected => !expected
  | _ => true

/-- Whether a text is a well-formed language tag. -/
def isWellFormed (tag : String) : Bool :=
  let cs := tag.toList
  let lower := cs.map Char.toLower
  grandfathered.any (fun t => t.toList == lower) ||
    match lower with
    | 'x' :: '-' :: rest => (splitAll (· == '-') rest).all isPrivate
    | _ =>
      match (splitAll (· == '-') cs).foldlM Stage.step .start with
      | some s => s.mayEnd
      | none => false

end SparqlCompose.LanguageTag
