import JavaTypes.Proofs.Walks

/-!
Public methods over a whole hierarchy. Where all ways up from a type end, its listing is made of its
own methods and of the listings of its super types, has one method for each override key, shows only
methods that are declared on the ways up, and misses none that is handed on along one of them.
-/
namespace JavaTypes

variable {u : Universe} {skipBridges : Bool}

section unanchored

def unanchoredAll (methods : List Method) : List Method := methods.map Method.unanchored

theorem unanchoredAll_flatten (listings : List (List Method)) :
    unanchoredAll listings.flatten = (listings.map unanchoredAll).flatten := List.map_flatten

theorem unanchoredAll_filter {p : Method → Bool} (kept : ∀ m, p m.unanchored = p m)
    (methods : List Method) : unanchoredAll (methods.filter p) = (unanchoredAll methods).filter p := by
  rw [unanchoredAll, unanchoredAll, List.filter_map]
  congr 2
  exact funext fun m => (kept m).symm

/-- Which ways led to methods makes no difference to what is listed. -/
theorem unanchoredAll_publicListing (own : List Method) (fromSuper fromInterfaces : List (List Method)) :
    unanchoredAll (publicListing own fromSuper fromInterfaces) =
      publicListing (unanchoredAll own) (fromSuper.map unanchoredAll)
        (fromInterfaces.map unanchoredAll) := by
  have kept (m : Method) : m.unanchored.overrideKey = m.overrideKey := rfl
  -- The table, the order and what is handed on depend on keys, signatures and modifiers alone.
  have table (methods : List Method) (entries : List (String × Method)) :=
    Keyed.map_insertAll kept methods entries
  have handed (listings : List (List Method)) :
      (handedOn listings).map Method.unanchored = handedOn (listings.map unanchoredAll) := by
    rw [handedOn, handedOn, ← unanchoredAll_flatten]
    exact unanchoredAll_filter (fun _ => rfl) _
  have shown : (own.filter (·.isPublic)).map Method.unanchored =
      (unanchoredAll own).filter (·.isPublic) := unanchoredAll_filter (fun _ => rfl) own
  have whole : (publicTable own fromSuper fromInterfaces).map (Prod.map id Method.unanchored) =
      publicTable (unanchoredAll own) (fromSuper.map unanchoredAll)
        (fromInterfaces.map unanchoredAll) := by
    rw [publicTable, table, table, table, handed, handed, shown]
    rfl
  have sorted (methods : List Method) :
      unanchoredAll (sortBySignature methods) = sortBySignature (unanchoredAll methods) :=
    List.map_mergeSort fun _ _ _ _ => rfl
  rw [publicListing, publicListing, ← whole, sorted, unanchoredAll, List.map_map, List.map_map]
  rfl

end unanchored

namespace Declarer

theorem above_of_superType {d : Declarer} {superType : Option Ty}
    (found : d.superType u = .ok superType) {t : Ty} (member : t ∈ superType.toList) :
    d.Above u t.methodDeclarer := by
  obtain ⟨super, resolved, rfl⟩ := superType_eq_ok.1 found
  unfold Universe.classSuperType at resolved
  split at resolved
  · rename_i clause written
    obtain ⟨r, clauseResolved, same⟩ := bind_eq_ok.1 resolved
    cases same
    cases List.mem_singleton.1 member
    exact ⟨clause, List.mem_append_left _ (by simp [written]), r, clauseResolved, rfl⟩
  · cases resolved
    cases member

theorem above_of_interfaces {d : Declarer} {interfaces : List Ty}
    (found : d.interfaces u = .ok interfaces) {t : Ty} (member : t ∈ interfaces) :
    d.Above u t.methodDeclarer := by
  obtain ⟨types, resolved, rfl⟩ := interfaces_eq_ok.1 found
  obtain ⟨r, inside, rfl⟩ := List.mem_map.1 member
  obtain ⟨clause, written, clauseResolved⟩ :=
    exists_left_of_mem (resolveAll_eq_ok.1 resolved) inside
  exact ⟨clause, List.mem_append_right _ written, r, clauseResolved, rfl⟩

theorem above_iff {d e : Declarer} {interfaces : List Ty} {superType : Option Ty}
    (found : d.interfaces u = .ok interfaces) (foundSuper : d.superType u = .ok superType) :
    d.Above u e ↔ ∃ t ∈ interfaces ++ superType.toList, t.methodDeclarer = e := by
  constructor
  · rintro ⟨clause, member, r, resolved, rfl⟩
    obtain ⟨t, resolved', super⟩ := sees_mem_supers found foundSuper member
    cases resolved.symm.trans resolved'
    exact ⟨_, super, rfl⟩
  · rintro ⟨t, super, rfl⟩
    rcases List.mem_append.1 super with inside | inside
    · exact above_of_interfaces found inside
    · exact above_of_superType foundSuper inside

/-- Where super types list the same methods on other ways, so does the type. -/
theorem Collects.reached {anchored : Bool} {d : Declarer}
    {methodsOf others : Ty → Except ReflectionError (List Method)} {own : List Method}
    {fromSuper fromInterfaces : List (List Method)}
    (collects : d.Collects u skipBridges anchored methodsOf own fromSuper fromInterfaces)
    (each : ∀ t, d.Above u t.methodDeclarer → ∀ methods, methodsOf t = .ok methods →
      ∃ methods', others t = .ok methods' ∧ unanchoredAll methods' = unanchoredAll methods)
    (other : Bool) : ∃ own' fromSuper' fromInterfaces',
      d.Collects u skipBridges other others own' fromSuper' fromInterfaces' ∧
        unanchoredAll own' = unanchoredAll own ∧
        fromSuper'.map unanchoredAll = fromSuper.map unanchoredAll ∧
        fromInterfaces'.map unanchoredAll = fromInterfaces.map unanchoredAll := by
  have all {types : List Ty} {listings : List (List Method)}
      (above : ∀ t ∈ types, d.Above u t.methodDeclarer)
      (listed : List.Forall₂ (fun t methods => methodsOf t = .ok methods) types listings) :
      ∃ listings', List.Forall₂ (fun t methods => others t = .ok methods) types listings' ∧
        listings'.map unanchoredAll = listings.map unanchoredAll := by
    induction listed with
    | nil => exact ⟨[], .nil, rfl⟩
    | cons first _ ih =>
      obtain ⟨here, later⟩ := List.forall_mem_cons.1 above
      obtain ⟨methods', found, same⟩ := each _ here _ first
      obtain ⟨listings', rest, agree⟩ := ih later
      exact ⟨methods' :: listings', .cons found rest, by rw [List.map_cons, List.map_cons, same, agree]⟩
  obtain ⟨superType, foundSuper, listedSuper⟩ := collects.superType
  obtain ⟨interfaces, found, listed⟩ := collects.interfaces
  obtain ⟨own', declared, sameOwn⟩ := declaredMethods_reanchored collects.declared other
  obtain ⟨fromSuper', listedSuper', sameSuper⟩ :=
    all (fun _ => above_of_superType foundSuper) listedSuper
  obtain ⟨fromInterfaces', listed', same⟩ := all (fun _ => above_of_interfaces found) listed
  exact ⟨own', fromSuper', fromInterfaces',
    ⟨declared, ⟨superType, foundSuper, listedSuper'⟩, interfaces, found, listed'⟩, sameOwn,
    sameSuper, same⟩

end Declarer

/-- Neither the limit of a walk that reaches the ends of all ways nor the way to a type makes a
difference to what is listed. -/
theorem publicMethodsWithin_reached {limit more : Nat} {anchored : Bool} {t : Ty}
    {methods : List Method} (ends : t.methodDeclarer.EndsWithin u limit)
    (ends' : t.methodDeclarer.EndsWithin u more)
    (listed : publicMethodsWithin u skipBridges limit anchored t = .ok methods) (other : Bool) :
    ∃ methods', publicMethodsWithin u skipBridges more other t = .ok methods' ∧
      unanchoredAll methods' = unanchoredAll methods := by
  induction limit generalizing more anchored t methods other with
  | zero => exact ends.elim
  | succ limit ih =>
    cases more with
    | zero => exact ends'.elim
    | succ more =>
      rw [publicMethodsWithin_succ] at listed ⊢
      obtain ⟨own, fromSuper, fromInterfaces, collects, rfl⟩ :=
        Declarer.publicMethods_eq_ok.1 listed
      obtain ⟨own', fromSuper', fromInterfaces', collects', same, sameSuper, sameInterfaces⟩ :=
        collects.reached (fun s above _ found => ih (ends _ above) (ends' _ above) found _) _
      refine ⟨_, Declarer.publicMethods_eq_ok.2 ⟨own', fromSuper', fromInterfaces', collects', rfl⟩, ?_⟩
      rw [unanchoredAll_publicListing, unanchoredAll_publicListing, same, sameSuper, sameInterfaces]

namespace Declarer

/-- A type declares a method, which counts as the same whatever way led to the type. Bridges are left
out as configured. -/
def Lists (u : Universe) (skipBridges : Bool) (d : Declarer) (m : Method) : Prop :=
  ∃ own, d.toTy.declaredMethods u skipBridges = .ok own ∧ m.unanchored ∈ unanchoredAll own

/-- A type takes methods with a key from one above it: it declares no public static one itself. -/
def Inherits (u : Universe) (skipBridges : Bool) (key : String) (d e : Declarer) : Prop :=
  d.Above u e ∧ ∀ m, d.Lists u skipBridges m → m.isPublic = true → m.overrideKey = key →
    m.isStatic = false

/-- What is true of the public methods a type lists. -/
structure PublicMethods (u : Universe) (skipBridges : Bool) (d : Declarer) (methods : List Method) :
    Prop where
  distinct : (methods.map Method.overrideKey).Nodup
  ascending : methods.Pairwise fun a b => a.signature ≤ b.signature
  sound : ∀ m ∈ methods, m.isPublic = true ∧
    (∃ e, Relation.ReflTransGen (Above u) d e ∧ e.Lists u skipBridges m) ∧
      (m.isStatic = true → d.Lists u skipBridges m)
  /-- A public method at the end of a way that hands on its key is listed or replaced, unless it is
  inherited from a type where a static one stands behind it. -/
  complete : ∀ e own m, Relation.ReflTransGen (Inherits u skipBridges m.overrideKey) d e →
    e.toTy.declaredMethods u skipBridges = .ok own → m ∈ own → m.isPublic = true →
    (e = d ∨ ∀ last,
      (own.findRev? fun x => x.isPublic && x.overrideKey == m.overrideKey) = some last →
        last.isStatic = false) →
    ∃ x ∈ methods, x.overrideKey = m.overrideKey
  /-- Under each key stands the last own public method, or else what the super type lists, or else
  what the last interface that has it lists; static methods of super types do not count. -/
  origin : ∃ own fromSuper fromInterfaces,
    d.Collects u skipBridges d.anchors (fun t => t.publicMethods u skipBridges) own fromSuper
        fromInterfaces ∧
      ∀ key, (methods.find? fun m => m.overrideKey == key).map Method.unanchored =
        ((own.findRev? fun m => m.isPublic && m.overrideKey == key).or
          ((fromSuper.flatten.findRev? fun m => !m.isStatic && m.overrideKey == key).or
            (fromInterfaces.flatten.findRev? fun m => !m.isStatic && m.overrideKey == key))).map
          Method.unanchored

theorem declaredMethods_toTy (d : Declarer) :
    d.toTy.declaredMethods u skipBridges = d.declaredMethods u skipBridges d.anchors := by
  rw [Ty.declaredMethods, methodDeclarer_toTy]

theorem lists_of_declaredMethods {anchored : Bool} {d : Declarer} {own : List Method}
    (declared : d.declaredMethods u skipBridges anchored = .ok own) {m : Method} (member : m ∈ own) :
    d.Lists u skipBridges m := by
  obtain ⟨seen, found, same⟩ := declaredMethods_reanchored declared d.anchors
  refine ⟨seen, d.declaredMethods_toTy.trans found, ?_⟩
  rw [unanchoredAll, same]
  exact List.mem_map_of_mem member

theorem findRev?_reanchored {anchored other : Bool} {d : Declarer} {own seen : List Method}
    (declared : d.declaredMethods u skipBridges anchored = .ok own)
    (declared' : d.declaredMethods u skipBridges other = .ok seen) {p : Method → Bool}
    (kept : ∀ m, p m.unanchored = p m) {m : Method} (last : own.findRev? p = some m) :
    ∃ x, seen.findRev? p = some x ∧ x.unanchored = m.unanchored := by
  obtain ⟨seen', found, agree⟩ := declaredMethods_reanchored declared other
  cases declared'.symm.trans found
  have same : (seen.findRev? p).map Method.unanchored = (own.findRev? p).map Method.unanchored :=
    Keyed.map_findRev?_congr kept agree
  rw [last] at same
  exact Option.map_eq_some_iff.1 same

/-- The public methods of a super type are among those a listing is made of. -/
theorem Collects.above {anchored : Bool} {d e : Declarer}
    {methodsOf : Ty → Except ReflectionError (List Method)} {own : List Method}
    {fromSuper fromInterfaces : List (List Method)}
    (collects : d.Collects u skipBridges anchored methodsOf own fromSuper fromInterfaces)
    (above : d.Above u e) : ∃ t methods, t.methodDeclarer = e ∧ methodsOf t = .ok methods ∧
      (methods ∈ fromSuper ∨ methods ∈ fromInterfaces) := by
  obtain ⟨superType, foundSuper, listedSuper⟩ := collects.superType
  obtain ⟨interfaces, found, listed⟩ := collects.interfaces
  obtain ⟨t, super, same⟩ := (above_iff found foundSuper).1 above
  rcases List.mem_append.1 super with inside | inside
  · obtain ⟨methods, listing, found⟩ := exists_right_of_mem listed inside
    exact ⟨t, methods, same, found, .inr listing⟩
  · obtain ⟨methods, listing, found⟩ := exists_right_of_mem listedSuper inside
    exact ⟨t, methods, same, found, .inl listing⟩

/-- What a listing is made of, seen from the other side. -/
theorem Collects.below {anchored : Bool} {d : Declarer}
    {methodsOf : Ty → Except ReflectionError (List Method)} {own : List Method}
    {fromSuper fromInterfaces : List (List Method)}
    (collects : d.Collects u skipBridges anchored methodsOf own fromSuper fromInterfaces)
    {methods : List Method} (listing : methods ∈ fromSuper ∨ methods ∈ fromInterfaces) :
    ∃ t, d.Above u t.methodDeclarer ∧ methodsOf t = .ok methods := by
  rcases listing with inside | inside
  · obtain ⟨superType, foundSuper, listedSuper⟩ := collects.superType
    obtain ⟨t, member, found⟩ := exists_left_of_mem listedSuper inside
    exact ⟨t, above_of_superType foundSuper member, found⟩
  · obtain ⟨interfaces, found, listed⟩ := collects.interfaces
    obtain ⟨t, member, found'⟩ := exists_left_of_mem listed inside
    exact ⟨t, above_of_interfaces found member, found'⟩

end Declarer

/-- Each listed method is public and declared by a type on a way up; a static one by the type
itself. -/
theorem publicMethodsWithin_sound {limit : Nat} {anchored : Bool} {t : Ty} {methods : List Method}
    (listed : publicMethodsWithin u skipBridges limit anchored t = .ok methods) {m : Method}
    (member : m ∈ methods) : m.isPublic = true ∧
      (∃ e, Relation.ReflTransGen (Declarer.Above u) t.methodDeclarer e ∧ e.Lists u skipBridges m) ∧
        (m.isStatic = true → t.methodDeclarer.Lists u skipBridges m) := by
  induction limit generalizing anchored t methods with
  | zero =>
    cases listed
    cases member
  | succ limit ih =>
    rw [publicMethodsWithin_succ] at listed
    obtain ⟨own, fromSuper, fromInterfaces, collects, rfl⟩ := Declarer.publicMethods_eq_ok.1 listed
    rcases mem_publicListing member with ⟨inside, shown⟩ | ⟨inherited, listing, inside, instance_⟩
    · have lists := Declarer.lists_of_declaredMethods collects.declared inside
      exact ⟨shown, ⟨_, .refl, lists⟩, fun _ => lists⟩
    · obtain ⟨s, above, found⟩ := collects.below listing
      obtain ⟨shown, ⟨e, way, lists⟩, -⟩ := ih found inside
      exact ⟨shown, ⟨e, .head above way, lists⟩, fun isStatic => by simp [isStatic] at instance_⟩

theorem exists_of_find? {methods : List Method} {key : String} {x : Method}
    (found : methods.find? (fun x => x.overrideKey == key) = some x) (instance_ : x.isStatic = false) :
    ∃ x ∈ methods, x.overrideKey = key ∧ x.isStatic = false :=
  ⟨x, List.mem_of_find?_eq_some found, by simpa using List.find?_some found, instance_⟩

/-- Along a way that hands on a key, each type lists a method with it that is not static. -/
theorem publicMethodsWithin_complete {key : String} {d e : Declarer}
    (way : Relation.ReflTransGen (Declarer.Inherits u skipBridges key) d e) {own : List Method}
    (declared : e.toTy.declaredMethods u skipBridges = .ok own) {m : Method}
    (last : (own.findRev? fun x => x.isPublic && x.overrideKey == key) = some m)
    (instance_ : m.isStatic = false) {limit : Nat} {anchored : Bool} {t : Ty} {methods : List Method}
    (same : t.methodDeclarer = d) (ends : d.EndsWithin u limit)
    (listed : publicMethodsWithin u skipBridges limit anchored t = .ok methods) :
    ∃ x ∈ methods, x.overrideKey = key ∧ x.isStatic = false := by
  -- From the end of the way downwards: each type takes the method over or has one of its own.
  induction way using Relation.ReflTransGen.head_induction_on
    generalizing limit anchored t methods with
  | refl =>
    cases limit with
    | zero => exact ends.elim
    | succ limit =>
      rw [publicMethodsWithin_succ, same] at listed
      obtain ⟨seen, fromSuper, fromInterfaces, collects, rfl⟩ :=
        Declarer.publicMethods_eq_ok.1 listed
      obtain ⟨x, last', alike⟩ := Declarer.findRev?_reanchored
        (e.declaredMethods_toTy.symm.trans declared) collects.declared (fun _ => rfl) last
      refine exists_of_find? (x := x) ?_ ((congrArg Method.isStatic alike).trans instance_)
      rw [find?_publicListing, last']
      rfl
  | @head d f inherits _ ih =>
    cases limit with
    | zero => exact ends.elim
    | succ limit =>
      rw [publicMethodsWithin_succ, same] at listed
      obtain ⟨seen, fromSuper, fromInterfaces, collects, rfl⟩ :=
        Declarer.publicMethods_eq_ok.1 listed
      obtain ⟨s, inherited, same', found, listing⟩ := collects.above inherits.1
      obtain ⟨x, inside, keyed, handed⟩ := ih same' (ends f inherits.1) found
      obtain ⟨y, looked⟩ := exists_find?_publicListing seen listing inside handed
      rw [keyed] at looked
      -- What replaces the method is an own one, which is not static here, or was handed on too.
      refine exists_of_find? looked ?_
      rcases mem_publicListing (List.mem_of_find?_eq_some looked) with ⟨member, shown⟩ |
        ⟨_, -, -, instance_⟩
      · exact inherits.2 y (Declarer.lists_of_declaredMethods collects.declared member) shown
          (by simpa using List.find?_some looked)
      · exact instance_

namespace Declarer

section ends

variable {d : Declarer} (ends : d.Ends u) {methods : List Method}
  (listed : d.toTy.publicMethods u skipBridges = .ok methods)

include ends

theorem Ends.endsWithin : d.EndsWithin u (u.walkLimit d.toTy) := by
  have within := Ty.endsWithin_walkLimit d.toTy (by rwa [methodDeclarer_toTy])
  rwa [methodDeclarer_toTy] at within

include listed

theorem Ends.exists_of_declared {e : Declarer} {own : List Method} {m : Method}
    (way : Relation.ReflTransGen (Inherits u skipBridges m.overrideKey) d e)
    (declared : e.toTy.declaredMethods u skipBridges = .ok own) (member : m ∈ own)
    (shown : m.isPublic = true)
    (handed : e = d ∨ ∀ last,
      (own.findRev? fun x => x.isPublic && x.overrideKey == m.overrideKey) = some last →
        last.isStatic = false) : ∃ x ∈ methods, x.overrideKey = m.overrideKey := by
  rcases handed with rfl | handed
  · obtain ⟨own', declared', each⟩ := Ty.publicMethods_own listed
    cases declared.symm.trans declared'
    obtain ⟨x, -, only⟩ := each m member shown
    have inside : x ∈ methods.filter fun y => y.overrideKey == m.overrideKey := by simp [only]
    obtain ⟨inside, keyed⟩ := List.mem_filter.1 inside
    exact ⟨x, inside, by simpa using keyed⟩
  · obtain ⟨last, found⟩ := Keyed.exists_findRev?
      (p := fun x => x.isPublic && x.overrideKey == m.overrideKey) member (by simp [shown])
    obtain ⟨x, inside, keyed, -⟩ := publicMethodsWithin_complete way declared found
      (handed last found) (methodDeclarer_toTy d) ends.endsWithin listed
    exact ⟨x, inside, keyed⟩

/-- The listing is made of the listings of super types as those are asked for themselves. -/
theorem Ends.exists_collects : ∃ own fromSuper fromInterfaces,
    d.Collects u skipBridges d.anchors (fun t => t.publicMethods u skipBridges) own fromSuper
        fromInterfaces ∧
      unanchoredAll methods = unanchoredAll (publicListing own fromSuper fromInterfaces) := by
  have within := ends.endsWithin
  obtain ⟨limit, steps⟩ := Nat.exists_eq_add_of_lt (Nat.zero_lt_of_lt (size_lt_walkLimit u d.toTy))
  rw [steps] at within
  rw [Ty.publicMethods, steps, publicMethodsWithin_succ, methodDeclarer_toTy, Bool.false_or] at listed
  obtain ⟨own, fromSuper, fromInterfaces, collects, rfl⟩ := publicMethods_eq_ok.1 listed
  obtain ⟨own', fromSuper', fromInterfaces', collects', same, sameSuper, sameInterfaces⟩ :=
    collects.reached (fun t above _ found => publicMethodsWithin_reached (within _ above)
      (Ty.endsWithin_walkLimit t (ends.inv above)) found false) d.anchors
  refine ⟨own', fromSuper', fromInterfaces', collects', ?_⟩
  rw [unanchoredAll_publicListing, unanchoredAll_publicListing, same, sameSuper, sameInterfaces]

/-- Where all ways up from a type end, its public methods are sound, complete, without repetition and
in order. -/
theorem Ends.publicMethods : d.PublicMethods u skipBridges methods := by
  obtain ⟨own, fromSuper, fromInterfaces, collects, same⟩ := ends.exists_collects listed
  have sound {m : Method} (member : m ∈ methods) := publicMethodsWithin_sound listed member
  rw [methodDeclarer_toTy] at sound
  have looked (key : String) (methods : List Method) :
      (unanchoredAll methods).find? (fun m => m.overrideKey == key) =
        (methods.find? fun m => m.overrideKey == key).map Method.unanchored := List.find?_map
  have keys (methods : List Method) :
      methods.map Method.overrideKey = (unanchoredAll methods).map Method.overrideKey := by
    rw [unanchoredAll, List.map_map]
    rfl
  have signatures {methods : List Method} : (methods.Pairwise fun a b => a.signature ≤ b.signature) ↔
      (unanchoredAll methods).Pairwise fun a b => a.signature ≤ b.signature := by
    rw [unanchoredAll, List.pairwise_map]
    rfl
  constructor
  case distinct =>
    rw [keys, same, ← keys]
    exact nodup_publicListing own fromSuper fromInterfaces
  case ascending =>
    rw [signatures, same, ← signatures]
    exact pairwise_publicListing own fromSuper fromInterfaces
  case sound => exact fun m => sound
  case complete => exact fun e own m => ends.exists_of_declared listed
  case origin =>
    refine ⟨own, fromSuper, fromInterfaces, collects, fun key => ?_⟩
    rw [← looked, same, looked, find?_publicListing]

end ends

end Declarer

namespace Diamond

/-- `interface Top<X>` declares `put(X)`, `interface Left<L> extends Top<L>` and
`interface Right extends Top<Object>` declare nothing, and `class Bottom implements Left<Object>, Right`
declares `put(Object)`. -/
def top : ClassId := ⟨10⟩
def left : ClassId := ⟨11⟩
def right : ClassId := ⟨12⟩
def bottom : ClassId := ⟨13⟩

def object : DeclType := .ofClass Universe.object

def put (m : Modifiers) (t : DeclType) : ClassEdit :=
  .method "put" m [.executable (.param { name := "element", type := t })]

def classes : Universe :=
  let u := (Universe.initial.defineClass "Top" [.kind .interface, .typeParam "X" [],
    put Modifiers.Flag.isPublic.set (.variable ⟨.ofClass top, 0⟩)]).2
  let u := (u.defineClass "Left" [.kind .interface, .typeParam "L" [],
    .interface (.applied top [.variable ⟨.ofClass left, 0⟩])]).2
  let u := (u.defineClass "Right" [.kind .interface, .interface (.applied top [object])]).2
  (u.defineClass "Bottom" [.interface (.applied left [object]), .interface (.ofClass right),
    put Modifiers.Flag.isPublic.set object]).2

/-- However many ways lead to it, `Bottom` lists one `put`. -/
theorem publicMethods_bottom : (Declarer.ofClass bottom).Ends classes ∧
    ∃ methods, (Declarer.ofClass bottom).toTy.publicMethods classes true = .ok methods ∧
      methods.map Method.overrideKey = ["put(java.lang.Object)"] ∧
      (Declarer.ofClass bottom).PublicMethods classes true methods := by
  have acyclic : classes.Acyclic := Universe.acyclic_of_earlier (by decide)
  have ends : (Declarer.ofClass bottom).Ends classes := acyclic.ends (by decide) _
  have keys : ((Declarer.ofClass bottom).toTy.publicMethods classes true).toOption.map
      (List.map Method.overrideKey) = some ["put(java.lang.Object)"] := by
    decide +kernel
  obtain ⟨methods, listed, keys⟩ := Option.map_eq_some_iff.1 keys
  have listed := toOption_eq_some.1 listed
  exact ⟨ends, methods, listed, keys, ends.publicMethods listed⟩

end Diamond

def Ty.Under (u : Universe) (t s : Ty) : Prop :=
  t.superType u = .ok (some s) ∨ ∃ interfaces, t.interfaces u = .ok interfaces ∧ s ∈ interfaces

namespace Pipes

open Diamond (object put)

/-- `Object` implements `interface Seen`, which declares `seen()`; `interface Sink<X>` declares
`put(X)` and a static `put(Object)`, and `class Pipe<T> extends T implements Sink<Object>` nothing. -/
def seen : ClassId := ⟨10⟩
def sink : ClassId := ⟨11⟩
def pipe : ClassId := ⟨12⟩

def classes : Universe :=
  let u := (Universe.initial.defineClass "Seen" [.kind .interface,
    .method "seen" Modifiers.Flag.isPublic.set []]).2
  let u := (u.defineClass Universe.objectName [.interface (.ofClass seen)]).2
  let u := (u.defineClass "Sink" [.kind .interface, .typeParam "X" [],
    put Modifiers.Flag.isPublic.set (.variable ⟨.ofClass sink, 0⟩),
    put (.ofFlags [.isPublic, .isStatic]) object]).2
  (u.defineClass "Pipe" [.typeParam "T" [], .superclass (.variable ⟨.ofClass pipe, 0⟩),
    .interface (.applied sink [object])]).2

def element : Ty := .variable (.free ⟨.ofClass pipe, 0⟩)

def sinkOfObject : Ty := .apply classes sink [.ofClass Universe.object]

theorem ends_pipe : (Declarer.ofClass pipe).Ends classes := by
  have sinkEnds : sinkOfObject.methodDeclarer.Ends classes :=
    Declarer.ends_of_clauses_eq_nil rfl
  have objectEnds : (Declarer.ofClass Universe.object).Ends classes := by
    refine ⟨_, ?_⟩
    rintro e ⟨clause, member, r, resolved, rfl⟩
    cases List.mem_singleton.1 (show clause ∈ [DeclType.ofClass seen] from member)
    cases resolved
    exact Declarer.ends_of_clauses_eq_nil rfl
  refine ⟨_, ?_⟩
  rintro e ⟨clause, member, r, resolved, rfl⟩
  have either : clause = .variable ⟨.ofClass pipe, 0⟩ ∨ clause = .applied sink [object] := by
    simpa using show clause ∈ [.variable ⟨.ofClass pipe, 0⟩, .applied sink [object]] from member
  rcases either with rfl | rfl
  · cases resolved
    exact objectEnds
  · cases resolved
    exact sinkEnds

theorem under_pipe {t : Ty} (way : Relation.ReflTransGen (Ty.Under classes) (.ofClass pipe) t) :
    t = .ofClass pipe ∨ t = element ∨ t = sinkOfObject := by
  induction way with
  | refl => exact .inl rfl
  | tail _ last ih =>
    rcases ih with rfl | rfl | rfl <;> rcases last with superType | ⟨interfaces, found, member⟩
    · cases superType
      exact .inr (.inl rfl)
    · cases found
      exact .inr (.inr (List.mem_singleton.1 member))
    · cases superType
    · cases found
      cases member
    · cases superType
    · cases found
      cases member

/-- `Pipe` lists `seen`, which no type it reaches declares, and it does not list the `put` that
`Sink<Object>` declares, as a static one stands behind it there. -/
theorem keys_pipe : (Declarer.ofClass pipe).Ends classes ∧ ∃ methods own,
    (Ty.ofClass pipe).publicMethods classes true = .ok methods ∧
    (Ty.ofClass pipe).declaredMethods classes true = .ok [] ∧
    (∃ m ∈ methods, ∀ t, Relation.ReflTransGen (Ty.Under classes) (.ofClass pipe) t →
      ∀ declared, t.declaredMethods classes true = .ok declared →
        m.overrideKey ∉ declared.map Method.overrideKey) ∧
    Ty.Under classes (.ofClass pipe) sinkOfObject ∧
    sinkOfObject.declaredMethods classes true = .ok own ∧
    ∃ m ∈ own, m.isPublic = true ∧ m.isStatic = false ∧
      ∀ x ∈ methods, x.overrideKey ≠ m.overrideKey := by
  have keys : ((Ty.ofClass pipe).publicMethods classes true).toOption.map
      (List.map Method.overrideKey) = some ["seen()"] := by
    decide +kernel
  have noneOwn : ((Ty.ofClass pipe).declaredMethods classes true).toOption.map
      (List.map Method.overrideKey) = some [] := by
    decide +kernel
  have noneOfElement : (element.declaredMethods classes true).toOption.map
      (List.map Method.overrideKey) = some [] := by
    decide +kernel
  have ofSink : (sinkOfObject.declaredMethods classes true).toOption.map
      (List.map fun m => (m.overrideKey, m.isPublic, m.isStatic)) =
        some [("put(java.lang.Object)", true, false), ("put(java.lang.Object)", true, true)] := by
    decide +kernel
  obtain ⟨methods, listed, keys⟩ := Option.map_eq_some_iff.1 keys
  obtain ⟨own, ownListed, noneOwn⟩ := Option.map_eq_some_iff.1 noneOwn
  obtain ⟨others, othersListed, noneOfElement⟩ := Option.map_eq_some_iff.1 noneOfElement
  obtain ⟨puts, putsListed, ofSink⟩ := Option.map_eq_some_iff.1 ofSink
  obtain ⟨s, unlisted, rfl, key, -⟩ := List.map_eq_cons_iff.1 keys
  obtain ⟨m, hidden, rfl, found, -⟩ := List.map_eq_cons_iff.1 ofSink
  obtain ⟨putKey, isPublic, instance_⟩ : m.overrideKey = "put(java.lang.Object)" ∧
      m.isPublic = true ∧ m.isStatic = false := by simpa using found
  have putKeys : (m :: hidden).map Method.overrideKey =
      ["put(java.lang.Object)", "put(java.lang.Object)"] := by
    simpa using congrArg (List.map Prod.fst) ofSink
  cases List.map_eq_nil_iff.1 noneOwn
  refine ⟨ends_pipe, _, _, toOption_eq_some.1 listed, toOption_eq_some.1 ownListed,
    ⟨s, List.mem_cons_self, fun t way declared declares => ?_⟩, .inr ⟨_, rfl, List.mem_cons_self⟩,
    toOption_eq_some.1 putsListed, m, List.mem_cons_self, isPublic, instance_, fun x inside same => ?_⟩
  · rw [key]
    rcases under_pipe way with rfl | rfl | rfl
    · cases (toOption_eq_some.1 ownListed).symm.trans declares
      simp
    · cases (toOption_eq_some.1 othersListed).symm.trans declares
      rw [noneOfElement]
      simp
    · cases (toOption_eq_some.1 putsListed).symm.trans declares
      rw [putKeys]
      decide
  · have listedKey : x.overrideKey ∈ (s :: unlisted).map Method.overrideKey := List.mem_map_of_mem inside
    rw [keys, same, putKey] at listedKey
    revert listedKey
    decide

end Pipes

end JavaTypes
