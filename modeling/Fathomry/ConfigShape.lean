import Fathomry.Utf8

/-!
# The types of a configuration

A project declares its configuration as a Go type. The types that are admitted are
plain data – scalars, pointers, slices, maps with texts for keys, structs with named
fields – and a *shape* is what is left of one: a tree, since a type may not contain
itself.
-/

namespace ConfigSource

/-- The codes of the failures of this package. -/
inductive Code where
  | input
  | limit
  | read
  | decode
  deriving DecidableEq, Repr

/-- A failure: its code and the operation that it names. -/
structure Failure where
  code : Code
  operation : String
  deriving DecidableEq, Repr

def maxDepth : ℕ := 64

/-- A type of a configuration. A struct has its fields by their names, in order. -/
inductive Shape where
  | bool
  | string
  | int (bits : ℕ)
  | uint (bits : ℕ)
  | float (bits : ℕ)
  | pointer (element : Shape)
  | slice (element : Shape)
  | map (element : Shape)
  | struct (names : List Bytes) (field : Bytes → Shape)

/-- What a pointer points to in the end. -/
def Shape.target : Shape → Shape
  | .pointer element => element.target
  | shape => shape

end ConfigSource
