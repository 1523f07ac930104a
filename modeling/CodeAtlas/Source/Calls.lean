import CodeAtlas.Pattern.Match
import CodeAtlas.Record

/-!
# Calls

A call is a name with an opening bracket after it, found in the body of a function or method. Calls between the declarations of one
file become edges here.
-/

namespace CodeAtlas.Calls

/-- Longer names come first, equally long ones in the order of their code points. -/
def longerFirst (a b : String) : Bool := decide (b.length < a.length) || (a.length == b.length && decide (a ≤ b))

/-- The names in the order in which they are tried at a place. -/
def ordered (names : List String) : List String := names.mergeSort longerFirst

/-- One of the names at the edge of a word, with an opening bracket after it. -/
def site (names : List String) : Pattern :=
  Pattern.edge ++ .part .name (Pattern.oneOfWords (ordered names)) ++ Pattern.blanks ++ "("

/-- The names called in a text, in the order of the calls. -/
def called (pattern : Pattern) (body : Text) : List String :=
  (pattern.findAll body).map fun m => String.ofList (m.get .name)

/-- Names and what they stand for, each name with the first entity that bears it. -/
def firstByName (entities : List Entity) : List (String × Entity) :=
  entities.foldl (fun table e => if table.any (·.1 == e.name) then table else table ++ [(e.name, e)]) []

/-- The entity that a name stands for. -/
def target? (table : List (String × Entity)) (name : String) : Option Entity := (table.find? fun p => p.1 == name).map (·.2)

/-- A body that calls may be found in. -/
def callerBody? (e : Entity) : Option Text :=
  match e.body with
  | some b => if e.kind.isCallable && !b.isEmpty then some b.text else none
  | none => none

/-- The items whose key differs from the keys of all items before them. -/
def firstByKey {α β : Type} [BEq β] (key : α → β) (xs : List α) : List α :=
  xs.foldl (fun out x => if out.any fun y => key y == key x then out else out ++ [x]) []

/-- The calls of one entity: those of the names it mentions, other than its own, that do not lead back to it. -/
def callsOf (pattern : Pattern) (table : List (String × Entity)) (caller : Entity) : List Edge :=
  match callerBody? caller with
  | none => []
  | some body =>
    (called pattern body).filterMap fun name =>
      match target? table name with
      | some callee =>
        if callee.id = caller.id ∨ name = caller.name then none
        else some { fromId := caller.id, toId := callee.id, kind := .calls, repoId := caller.repoId }
      | none => none

/-- The calls between the entities of one file, each pair once. What is called is a declaration of one of `kinds` whose name has at
least two characters; of several with one name it is the first. -/
def withinFile (kinds : List EntityKind) (entities : List Entity) : List Edge :=
  let table := firstByName (entities.filter fun e => kinds.contains e.kind && decide (1 < e.name.length))
  if table.isEmpty then []
  else firstByKey (fun e => (e.fromId, e.toId)) (entities.flatMap (callsOf (site (table.map (·.1))) table))

/-- The edges without those that repeat an earlier link. -/
def distinctLinks (edges : List Edge) : List Edge := firstByKey Edge.link edges

end CodeAtlas.Calls
