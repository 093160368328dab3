import CodeAtlas.Pattern
import CodeAtlas.Symbol.Basic
import CodeAtlas.Text.Cut

/-!
The heritage of a class: the types that its header names after `extends`, `with` and `implements`.
A clause runs to the next clause word or to the class body; a constraint given by `on` relates the
class to nothing.
-/
namespace CodeAtlas.Heritage

open Pattern in
/-- A clause word as a whole word at its start, with the blanks behind it. Group 1 is the word. -/
def clauseWord : Pattern :=
  wordEdge ++ group 1 (words ["extends", "with", "implements", "on"]) ++ gap

/-- Splits at the commas outside of angle brackets. `depth` counts the brackets left open. -/
def splitNames (depth : Int) : List Char → List (List Char)
  | [] => [[]]
  | c :: rest =>
    if c = ',' ∧ depth = 0 then [] :: splitNames depth rest
    else
      let depth := if c = '<' then depth + 1 else if c = '>' then depth - 1 else depth
      match splitNames depth rest with
      | [] => [[c]]
      | name :: names => (c :: name) :: names

/-- The names in the text of a clause, without blanks around them. -/
def namesOf (clause : List Char) : List RelationTarget :=
  ((splitNames 0 clause).map Text.trim).filterMap fun name =>
    if name.isEmpty then none else some (.named (String.ofList name))

/-- Adds what a clause says. The last clause that names a superclass counts. -/
def addClause (r : Relations) (keyword : List Char) (names : List RelationTarget) : Relations :=
  if keyword = "extends".toList then { r with superclass := names.head? <|> r.superclass }
  else if keyword = "with".toList then { r with mixins := r.mixins ++ names }
  else if keyword = "implements".toList then { r with implements := r.implements ++ names }
  else r

/-- Adds the clauses that follow one another: each begins at its clause word. -/
def addClauses (r : Relations) : List (Cursor × Cursor) → Relations
  | [] => r
  | (_, stop) :: rest =>
    let length := match rest with
      -- the clause runs to the next clause word, the last one to the end
      | [] => stop.rest.length
      | (next, _) :: _ => next.offset - stop.offset
    addClauses (addClause r (stop.group 1) (namesOf (stop.rest.take length))) rest

/-- The relations that a class declaration states in its header. -/
def parse (detail : List Char) : Relations :=
  addClauses {} (clauseWord.findAll (Text.beforeFirst '{' detail))

end CodeAtlas.Heritage
