import JavaTypes.QualifiedName

/-!
Import sets and the names they shorten. A class is imported by its canonical name or through its
package; a package covers its direct members only.
-/
namespace JavaTypes

structure Imports where
  classes : List String := []
  packages : List String := []
  deriving Inhabited

namespace Imports

/-- Adds a class name, or a package in the form `pkg.*`. -/
def add (i : Imports) (name : String) : Imports :=
  match name.toList.reverse with
  | '*' :: '.' :: package => { i with packages := String.ofList package.reverse :: i.packages }
  | _ => { i with classes := name :: i.classes }

def ofList (names : List String) : Imports := names.foldl add {}

def covers (i : Imports) (name : String) : Bool :=
  i.classes.contains name ||
    match QualifiedName.qualifier? name with
    | some package => i.packages.contains package
    | none => false

/-- What to write for the segments of a class name inside a package: the longest imported prefix
lets the name start at its last segment. -/
def shorten? (i : Imports) (package : String) (segments : List String) : Option String :=
  (List.range segments.length).reverse.findSome? fun k =>
    let head := ".".intercalate (segments.take (k + 1))
    let name := if package.isEmpty then head else package ++ "." ++ head
    if i.covers name then some (".".intercalate (segments.drop k)) else none

end Imports

/-- The part of a canonical name behind its package, if it begins with the package. -/
def QualifiedName.behindPackage? (package canonical : String) : Option (List Char) :=
  if package.isEmpty then some canonical.toList
  else dropStart? (package.toList ++ ['.']) canonical.toList

def Imports.write (i : Imports) (package canonical : String) : String :=
  let short := (QualifiedName.behindPackage? package canonical).bind fun rest =>
    i.shorten? package ((QualifiedName.segments '.' rest).map String.ofList)
  short.getD canonical

end JavaTypes
