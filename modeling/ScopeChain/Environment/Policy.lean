/-
ScopeChain.Environment.Policy — how deep scopes may nest.

A policy either caps the number of scopes in a chain or leaves it open.
It is asked before a scope is opened, with the depth that the chain would
have afterwards, and names that depth and the cap when it refuses.
-/

namespace ScopeChain

/-- Why a scope was not opened. -/
inductive NestingError where
  /-- The chain would have `depth` scopes and may have `limit`. -/
  | depthExceeded (depth limit : Nat)
deriving DecidableEq

namespace NestingError

/-- The message of the error. -/
def message : NestingError → String
  | depthExceeded depth limit =>
    "scope nesting depth " ++ depth.repr ++ " exceeds the limit of " ++ limit.repr

/-- The debug text of the error. -/
def debug : NestingError → String
  | depthExceeded depth limit =>
    "DepthExceeded \x7b depth: " ++ depth.repr ++ ", limit: " ++ limit.repr ++ " \x7d"

end NestingError

/-- The greatest number of scopes in a chain, if there is one. -/
structure Policy where
  maxDepth : Option Nat
deriving DecidableEq

/-- How a policy is changed when it is put together from a list of choices. -/
inductive PolicyChoice where
  | standard
  | unbounded
  | bounded
  | maxDepth (limit : Nat)

namespace Policy

/-- Scopes nest without limit. -/
def unbounded : Policy := ⟨none⟩

/-- The cap of the bounded policy. -/
def boundedDepth : Nat := 200

/-- At most 200 scopes. -/
def bounded : Policy := ⟨some boundedDepth⟩

/-- The policy where none is given: no limit. -/
def standard : Policy := unbounded

/-- The policy with another cap. -/
def withMaxDepth (p : Policy) (limit : Nat) : Policy := { p with maxDepth := some limit }

/-- Applies one choice. -/
def choose (p : Policy) : PolicyChoice → Policy
  | .standard => standard
  | .unbounded => unbounded
  | .bounded => bounded
  | .maxDepth limit => p.withMaxDepth limit

/-- The standard policy changed by choices from left to right. -/
def ofChoices (choices : List PolicyChoice) : Policy := choices.foldl choose standard

/-- What stands against a chain of `depth` scopes. -/
def objection? (p : Policy) (depth : Nat) : Option NestingError :=
  match p.maxDepth with
  | some limit => if limit < depth then some (.depthExceeded depth limit) else none
  | none => none

/-- The debug text of a policy. -/
def debug (p : Policy) : String :=
  let cap := match p.maxDepth with
    | some limit => "Some(" ++ limit.repr ++ ")"
    | none => "None"
  "EnvConfig \x7b max_depth: " ++ cap ++ " \x7d"

end Policy

end ScopeChain
