/-!
Modifier sets of classes and members: sixteen flag bits, the eleven of them that have a keyword,
and the order in which keywords are written.
-/
namespace JavaTypes

/-- A set of modifier flags, one bit each. -/
structure Modifiers where
  bits : UInt16
  deriving DecidableEq, Inhabited

namespace Modifiers

def empty : Modifiers := ⟨0⟩

def union (a b : Modifiers) : Modifiers := ⟨a.bits ||| b.bits⟩

def inter (a b : Modifiers) : Modifiers := ⟨a.bits &&& b.bits⟩

instance : OrOp Modifiers := ⟨union⟩

instance : AndOp Modifiers := ⟨inter⟩

/-- Every flag of `b` is in `a`. -/
def contains (a b : Modifiers) : Bool := a.bits &&& b.bits == b.bits

inductive Flag where
  | isPublic
  | isPrivate
  | isProtected
  | isStatic
  | isFinal
  | isSynchronized
  | isVolatile
  | isTransient
  | isNative
  | isInterface
  | isAbstract
  | isStrict
  deriving DecidableEq

/-- Flags take the bits from the lowest up, in the order they are listed. -/
def Flag.set : Flag → Modifiers
  | .isPublic => ⟨0x0001⟩
  | .isPrivate => ⟨0x0002⟩
  | .isProtected => ⟨0x0004⟩
  | .isStatic => ⟨0x0008⟩
  | .isFinal => ⟨0x0010⟩
  | .isSynchronized => ⟨0x0020⟩
  | .isVolatile => ⟨0x0040⟩
  | .isTransient => ⟨0x0080⟩
  | .isNative => ⟨0x0100⟩
  | .isInterface => ⟨0x0200⟩
  | .isAbstract => ⟨0x0400⟩
  | .isStrict => ⟨0x0800⟩

def ofFlags (flags : List Flag) : Modifiers := flags.foldl (fun m f => m ||| f.set) empty

def has (m : Modifiers) (f : Flag) : Bool := m.contains f.set

def isPublic (m : Modifiers) : Bool := m.has .isPublic

def isStatic (m : Modifiers) : Bool := m.has .isStatic

/-- Only the access flags: public, private and protected. -/
def access (m : Modifiers) : Modifiers := m &&& ⟨0x0007⟩

/-- The flags with a keyword, in the order keywords are written. Being an interface is a kind of
class and has no keyword here. -/
def keywordTable : List (Flag × String) :=
  [(.isPublic, "public"), (.isProtected, "protected"), (.isPrivate, "private"),
    (.isAbstract, "abstract"), (.isStatic, "static"), (.isFinal, "final"),
    (.isTransient, "transient"), (.isVolatile, "volatile"), (.isSynchronized, "synchronized"),
    (.isNative, "native"), (.isStrict, "strictfp")]

/-- The keywords of the set, separated by blanks; empty for a member without keywords. -/
def keywords (m : Modifiers) : String :=
  " ".intercalate ((keywordTable.filter fun entry => m.has entry.1).map (·.2))

def lead (m : Modifiers) : String :=
  if m.keywords.isEmpty then "" else m.keywords ++ " "

end Modifiers

end JavaTypes
