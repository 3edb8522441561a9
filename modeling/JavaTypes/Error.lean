/-!
The ways in which asking for a type can fail.
-/
namespace JavaTypes

inductive ReflectionError where
  /-- No class has the binary name. -/
  | notFound (name : String)
  /-- A declaration holds a type of a form this library has no types for. -/
  | unsupported (shape : String)
  deriving DecidableEq, Inhabited

def ReflectionError.message : ReflectionError → String
  | .notFound name => "`" ++ name ++ "` is not found"
  | .unsupported shape => "`" ++ shape ++ "` is not supported"

end JavaTypes
