import JavaTypes.Loading.Elements

/-!
Queries: expressions that denote types and members, made from names, declared types, the
operations on types and selectors. A query fails where resolving fails and denotes nothing where
something it mentions is absent.
-/
namespace JavaTypes

inductive Query where
  /-- A value that was kept under a name. -/
  | kept (name : String)
  /-- The class of a binary name. -/
  | named (name : String)
  | resolved (t : DeclType)
  | classType (c : ClassId)
  /-- A class applied to arguments. -/
  | applied (c : Query) (args : List Query)
  /-- A class with the given bindings, whatever variables they are for. -/
  | withBindings (c : Query) (bindings : List Query)
  | substituted (raw : RawClasses) (t : Query) (bindings : List Query)
  /-- A variable bound to a value. -/
  | bound (v value : Query)
  | unbound (v : Query)
  | wildcard (upper lower : List Query)
  | array (element : Query)
  | selected (of : Query) (s : Selector)
  /-- In a list of variables, all variables of a type. -/
  | allVariables (of : Query)
  deriving Inhabited

structure Environment where
  within : Universe
  skipBridges : Bool
  kept : List (String × Element) := []

/-- An answer that may be absent or fail; on the way to it classes are loaded. -/
abbrev Answer := OptionT Loading

namespace Answer

def ofOption {α : Type} (o : Option α) : Answer α := OptionT.mk (pure o)

def ofLoading {α : Type} (way : Loading α) : Answer α := OptionT.lift way

end Answer

namespace Element

def asType? : Element → Option Ty
  | type t => some t
  | _ => none

def asVariable? (e : Element) : Option TyVar := e.asType?.bind Ty.asVariable?

def asClass? : Element → Option ClassId
  | type (.ofClass c) => some c
  | _ => none

end Element

namespace Query

mutual

/-- What a query denotes. Its parts are answered from left to right. -/
def eval (env : Environment) : Query → Answer Element
  | kept name => .ofOption (env.kept.lookup name)
  | named name => do
    let t ← Answer.ofLoading (Loading.resolveName env.within name)
    return .type t
  | resolved t => do
    let t ← Answer.ofLoading (Loading.answer (Loading.resolve env.within t) (t.resolve env.within))
    return .type t
  | classType c => do
    Answer.ofLoading (Loading.load c)
    return .type (.ofClass c)
  | applied c args => do
    let e ← eval env c
    let c ← Answer.ofOption e.asClass?
    let args ← evalTypes env args
    Answer.ofLoading (Loading.classVariables env.within c)
    return .type (.apply env.within c args)
  | withBindings c bindings => do
    let e ← eval env c
    let c ← Answer.ofOption e.asClass?
    let bindings ← evalVars env bindings
    return .type (.applied c bindings)
  | substituted raw t bindings => do
    let e ← eval env t
    let t ← Answer.ofOption e.asType?
    let bindings ← evalVars env bindings
    Answer.ofLoading (Loading.substitute env.within bindings t)
    return .type (t.subst env.within raw bindings)
  | bound v value => do
    let e ← eval env v
    let v ← Answer.ofOption e.asVariable?
    let e ← eval env value
    let value ← Answer.ofOption e.asType?
    return .type (.variable (v.bindTo env.within value))
  | unbound v => do
    let e ← eval env v
    let v ← Answer.ofOption e.asVariable?
    return .type (.variable v.unbound)
  | wildcard upper lower => do
    let upper ← evalTypes env upper
    let lower ← evalTypes env lower
    Answer.ofLoading Loading.loadRoot
    return .type (.wildcard upper lower)
  | array element => do
    let e ← eval env element
    let element ← Answer.ofOption e.asType?
    Answer.ofLoading Loading.loadRoot
    return .type (.array element)
  | selected of s => do
    let e ← eval env of
    let found ← Answer.ofLoading (Loading.select env.within env.skipBridges e s)
    Answer.ofOption found
  | allVariables _ => .ofOption none

def evalTypes (env : Environment) : List Query → Answer (List Ty)
  | [] => return []
  | q :: rest => do
    let e ← eval env q
    let t ← Answer.ofOption e.asType?
    let types ← evalTypes env rest
    return t :: types

/-- Variables, where an entry may stand for all variables of a type. -/
def evalVars (env : Environment) : List Query → Answer (List TyVar)
  | [] => return []
  | allVariables of :: rest => do
    let e ← eval env of
    let t ← Answer.ofOption e.asType?
    Answer.ofLoading (Loading.typeVariables env.within t)
    let vars ← evalVars env rest
    return t.typeVariables env.within ++ vars
  | q :: rest => do
    let e ← eval env q
    let v ← Answer.ofOption e.asVariable?
    let vars ← evalVars env rest
    return v :: vars

end

end Query

end JavaTypes
