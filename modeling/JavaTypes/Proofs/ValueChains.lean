import JavaTypes.Proofs.NormalForms
import JavaTypes.Rendering

/-!
Chains of bound variables. Writing a type follows each chain to its end, and substituting nothing
cuts each chain short; so writing does not see whether this has been done. Where a variable is bound
to a chain that ends in itself the chain is dropped altogether, and only its id tells that this is so.
-/
namespace JavaTypes

variable {u : Universe} {raw : RawClasses}

/-- No variable of an applied class has a chain of values that ends in another variable of its id. -/
def Ty.Unmixed (u : Universe) (t : Ty) : Prop :=
  ∀ c bindings, Part (.applied c bindings) t → ∀ v s, .bound v s ∈ bindings →
    ∀ r, s.structural = .variable (.free r) → u.varKey r = u.varKey v → r = v

section chains

theorem Ty.subst_ofClass_nil (c : ClassId) : (Ty.ofClass c).subst u raw [] = .ofClass c :=
  subst_ofClass_of_free fun _ _ => rfl

/-- A chain that is cut short to a free variable ends in it. -/
theorem Ty.structural_of_subst_nil {t : Ty} {r : VarRef} :
    t.subst u raw [] = .variable (.free r) → t.structural = .variable (.free r) := by
  induction t using Ty.inductionOn with
  | ofClass c =>
    rw [Ty.subst_ofClass_nil]
    exact nofun
  | free v => exact id
  | bound v t ih => exact ih
  | applied | wildcard | array => exact nofun

theorem Ty.mem_mentioned_of_structural {t : Ty} {r : VarRef} :
    t.structural = .variable (.free r) → r ∈ t.mentioned := by
  induction t using Ty.inductionOn with
  | free v =>
    intro same
    cases same
    exact List.mem_singleton.2 rfl
  | bound v t ih => exact fun same => List.mem_cons_of_mem v (ih same)
  | ofClass | applied | wildcard | array => exact nofun

theorem Ty.Part.mentioned_subset {s t : Ty} (part : Part s t) : s.mentioned ⊆ t.mentioned := by
  induction part with
  | self => exact List.Subset.refl _
  | @argument s _ bindings v member _ ih =>
    intro w occurs
    rw [Ty.mentioned, Ty.gather_applied]
    exact List.mem_flatMap.2 ⟨_, member, List.mem_cons_of_mem v (ih occurs)⟩
  | value _ ih => exact List.subset_cons_of_subset _ ih
  | upper member _ ih =>
    intro w occurs
    rw [Ty.mentioned, Ty.gather_wildcard]
    exact List.mem_append_left _ (List.mem_flatMap.2 ⟨_, member, ih occurs⟩)
  | lower member _ ih =>
    intro w occurs
    rw [Ty.mentioned, Ty.gather_wildcard]
    exact List.mem_append_right _ (List.mem_flatMap.2 ⟨_, member, ih occurs⟩)
  | element _ ih => exact ih

/-- Where ids differ, no chain ends in another variable of the id it starts with. -/
theorem Ty.Declared.unmixed {t : Ty} (declared : t.Declared u)
    (ids : Set.InjOn u.varKey u.declaredVars) : t.Unmixed u := by
  intro c bindings part v s member r ends key
  have inside : ∀ w ∈ (Ty.variable (.bound v s)).mentioned, w ∈ u.declaredVars := fun w occurs =>
    declared w (part.mentioned_subset (by
      rw [Ty.mentioned, Ty.gather_applied]
      exact List.mem_flatMap.2 ⟨_, member, occurs⟩))
  exact ids (inside r (List.mem_cons_of_mem v (Ty.mem_mentioned_of_structural ends)))
    (inside v List.mem_cons_self) key

end chains

section write

variable {naming : Naming} {withVars : Bool} {bounds : VarRef → Rendering String}

theorem writeAll_map_congr {α : Type} {f g : α → Ty} {items : List α}
    (each : ∀ x ∈ items, (f x).write u naming withVars bounds = (g x).write u naming withVars bounds) :
    writeAll u naming withVars bounds (items.map f) =
      writeAll u naming withVars bounds (items.map g) := by
  induction items with
  | nil => rfl
  | cons x rest ih =>
    obtain ⟨first, others⟩ := List.forall_mem_cons.1 each
    simp only [List.map_cons, writeAll, first, ih others]

theorem Ty.write_subst_nil {t : Ty} : t.Unmixed u →
    (t.subst u raw []).write u naming withVars bounds = t.write u naming withVars bounds := by
  induction t using Ty.inductionOn with
  | ofClass c => exact fun _ => by rw [Ty.subst_ofClass_nil]
  | free v => exact fun _ => rfl
  | bound v t ih => exact fun unmixed => ih fun c vars part => unmixed c vars (.value part)
  | array t ih =>
    intro unmixed
    rw [Ty.subst_array, Ty.write, Ty.write, ih fun c vars part => unmixed c vars (.element part)]
  | wildcard upper lower ihUpper ihLower =>
    intro unmixed
    have uppers := writeAll_map_congr (g := id) fun s member =>
      ihUpper s member fun c vars part => unmixed c vars (.upper member part)
    have lowers := writeAll_map_congr (g := id) fun s member =>
      ihLower s member fun c vars part => unmixed c vars (.lower member part)
    rw [List.map_id] at uppers lowers
    rw [Ty.subst_wildcard, Ty.write, Ty.write, uppers, lowers]
  | applied c vars ih =>
    intro unmixed
    have shown : ∀ b ∈ vars, (b.rebind u raw []).shown.write u naming withVars bounds =
        b.shown.write u naming withVars bounds := by
      intro b member
      cases b with
      | free v =>
        have free : (TyVar.free v).rebind u raw [] = .free v := TyVar.bindTo_own rfl
        rw [free]
      | bound v s =>
        have value := ih v s member fun d vars part => unmixed d vars (.argument member part)
        have made : (TyVar.bound v s).rebind u raw [] =
          (TyVar.free v).bindTo u (s.subst u raw []) := rfl
        rcases TyVar.bindTo_cases (u := u) (.free v) (s.subst u raw []) with
          ⟨r, ends, key, dropped⟩ | kept
        · -- The chain has ended in a variable of the id of `v`, and this is `v`.
          have self : r = v :=
            unmixed c vars (.self _) v s member r (Ty.structural_of_subst_nil ends) key
          subst self
          rw [made, dropped, TyVar.shown_bound, ← value, ends]
          rfl
        · rw [made, kept]
          exact value
    rw [Ty.subst_applied, Ty.write, Ty.write, writeVars_eq_writeAll, writeVars_eq_writeAll,
      List.map_map]
    have all := writeAll_map_congr (f := TyVar.shown ∘ TyVar.rebind u raw []) shown
    rw [all]

/-- To follow chains while writing is to cut them short first: the text or the error is the same, and
so are the variables that are defined then. -/
theorem Ty.render_subst_nil {t : Ty} (unmixed : t.Unmixed u) (raw : RawClasses) (ctx : RenderContext)
    (withVars : Bool) : (t.subst u raw []).render u ctx withVars = t.render u ctx withVars := by
  simp only [Ty.render, Rendering.type, Ty.write_subst_nil unmixed]

end write

namespace Doubled

/-- `class Twice<T extends A, T extends B>`, the variables of which have one id, and `class Box<X>`. -/
def classes : Universe :=
  ((((Universe.initial.declare "A").2.declare "B").2.defineClass "Box" [.typeParam "X" []]).2.defineClass
    "Twice" [.typeParam "T" [.ofClass ⟨10⟩], .typeParam "T" [.ofClass ⟨11⟩]]).2

def box : ClassId := ⟨12⟩
def twice : ClassId := ⟨13⟩
def x : VarRef := ⟨.ofClass box, 0⟩
def t : VarRef := ⟨.ofClass twice, 0⟩

/-- `Twice<Object, X>`, where `X` is bound to the first variable of `Twice`. -/
def chained : Ty :=
  .apply classes twice [.ofClass Universe.object, .variable (.bound x (.variable (.free t)))]

/-- The chain from the second variable ends in the first one and is dropped as if it ended in the
second one, which has another bound. -/
theorem render_chained :
    (chained.render classes {} true).1 = .ok "Twice<java.lang.Object, T extends A>" ∧
      ((chained.substitute classes []).render classes {} true).1 =
        .ok "Twice<java.lang.Object, T extends B>" := by
  constructor <;> decide +kernel

end Doubled

namespace Pairs

/-- `Pair<A, A[]>[]`, where each argument is given through variables that are bound to it. -/
def woundPair : Ty :=
  .array (.applied pair [.bound a (.variable (.bound b (.variable (.free a)))),
    .bound b (.variable (.bound a (.array (.variable (.bound b (.variable (.free a)))))))])

/-- The first chain ends in the variable itself and the second one in an array. -/
theorem render_woundPair :
    (woundPair.substitute classes []).render classes {} true = woundPair.render classes {} true ∧
      (woundPair.resolveInScope classes []).render classes {} true =
        woundPair.render classes {} true ∧
      woundPair.resolveInScope classes [] =
        .array (.applied pair [.free a, .bound b (.array (.variable (.free a)))]) := by
  have ids : Set.InjOn classes.varKey classes.declaredVars := injOn_varKey (by decide)
  have declared : woundPair.Declared classes := by
    have each : ∀ v ∈ woundPair.mentioned, (classes.typeParam? v).isSome := by decide
    exact each
  have unmixed := declared.unmixed ids
  exact ⟨Ty.render_subst_nil unmixed .filled {} true, Ty.render_subst_nil unmixed .kept {} true, rfl⟩

end Pairs

end JavaTypes
