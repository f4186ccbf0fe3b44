import BuildOrder.Session

/-! # Histories of a session

The operations on a session as values, and what a session is after a list of them.
-/

namespace BuildOrder

/-- Something that is done with a session.  To add one unit or to name one entry point is to do
    so with a list of one. -/
inductive Operation
  | addMains (units : List SourceUnit)
  | addCandidates (units : List SourceUnit)
  | addEntryPoints (names : List Namespace)
  | setKeepAllUnits (keep : Bool)
  | setKeepMoochers (keep : Bool)
  | setKeepOriginalOrder (keep : Bool)
  | setStrategy (strategy : Strategy)
  | setPolicy (policy : Policy)
  | manifest

/-- What an operation answers. -/
inductive Answer
  | done
  | manifest (units : List SourceUnit)
  | failed (fault : Fault)
deriving DecidableEq

namespace Session

/-- The answer of an operation that has no answer but a possible fault. -/
def Result.answer (r : Result) : Session × Answer :=
  match r with
  | (s, none) => (s, .done)
  | (s, some fault) => (s, .failed fault)

/-- Carries out an operation. -/
def apply (s : Session) : Operation → Session × Answer
  | .addMains units => Result.answer (addEach addMain s units)
  | .addCandidates units => Result.answer (addEach addCandidate s units)
  | .addEntryPoints names => (names.foldl addEntryPoint s, .done)
  | .setKeepAllUnits keep => (s.setPolicy { s.policy with keepAllUnits := keep }, .done)
  | .setKeepMoochers keep => (s.setPolicy { s.policy with keepMoochers := keep }, .done)
  | .setKeepOriginalOrder keep => (s.setPolicy { s.policy with keepOriginalOrder := keep }, .done)
  | .setStrategy strategy => (s.setPolicy { s.policy with strategy }, .done)
  | .setPolicy policy => (s.setPolicy policy, .done)
  | .manifest =>
    match s.manifest with
    | (next, .ok units) => (next, .manifest units)
    | (next, .error fault) => (next, .failed fault)

/-- Carries out operations one after the other and gives all answers. -/
def runAll (s : Session) : List Operation → Session × List Answer
  | [] => (s, [])
  | op :: rest =>
    let (next, answer) := s.apply op
    let (last, answers) := next.runAll rest
    (last, answer :: answers)

end Session

end BuildOrder
