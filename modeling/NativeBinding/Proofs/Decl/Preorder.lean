import NativeBinding.Decl.Type

/-!
Addresses in a type. An address is a list of indices that leads from a type to one inside it. In the
order of addresses a type stands before those inside it and these stand from left to right, and
`parts` lists them in that order: what it finds first is at the least address.
-/

namespace NativeBinding.TypeExpr

def children : TypeExpr → List TypeExpr
  | path _ _ args _ => args
  | ref _ _ target _ => [target]
  | tuple items _ => items
  | slice item _ _ => [item]
  | object _ bounds _ _ => bounds
  | inferred _ => []

def node? : List Nat → TypeExpr → Option TypeExpr
  | [], t => some t
  | i :: rest, t => t.children[i]?.bind (node? rest)

theorem sizeOf_lt_of_mem_children {t c : TypeExpr} (h : c ∈ t.children) : sizeOf c < sizeOf t := by
  cases t with
  | path _ _ args _ | tuple args _ | object _ args _ _ =>
    have hsize : sizeOf c < sizeOf args := List.sizeOf_lt_of_mem h
    simp
    omega
  | ref _ _ target _ | slice target _ _ =>
    obtain rfl := List.mem_singleton.1 h
    simp
    omega
  | inferred _ => cases h

/-- What holds of a type if it holds of those right inside it holds of every type. -/
theorem induction_children {motive : TypeExpr → Prop}
    (step : ∀ t, (∀ c ∈ t.children, motive c) → motive t) (t : TypeExpr) : motive t :=
  step t fun c hc =>
    have := sizeOf_lt_of_mem_children hc
    induction_children step c
termination_by sizeOf t

theorem partsAll_eq_flatMap (ts : List TypeExpr) : partsAll ts = ts.flatMap parts := by
  induction ts with
  | nil => rfl
  | cons t ts ih => rw [partsAll, ih, List.flatMap_cons]

theorem parts_eq_cons (t : TypeExpr) : t.parts = t :: t.children.flatMap parts := by
  cases t <;> simp [parts, children, partsAll_eq_flatMap]

theorem mem_parts_of_node? {address : List Nat} {t u : TypeExpr} (h : node? address t = some u) :
    u ∈ t.parts := by
  induction address generalizing t with
  | nil =>
    rw [← Option.some.inj h, parts_eq_cons]
    exact List.mem_cons_self
  | cons i rest ih =>
    obtain ⟨c, hc, hu⟩ := Option.bind_eq_some_iff.1 h
    rw [parts_eq_cons]
    exact List.mem_cons_of_mem _ (List.mem_flatMap.2 ⟨c, List.mem_of_getElem? hc, ih hu⟩)

/-- The first node with a property, in the order of addresses. -/
def IsFirst (q : TypeExpr → Bool) (t u : TypeExpr) : Prop :=
  ∃ address, node? address t = some u ∧ q u ∧
    ∀ other v, node? other t = some v → q v → other = address ∨ List.Lex (· < ·) address other

variable {q : TypeExpr → Bool}

theorem isFirst_of_find? {t u : TypeExpr} (h : t.parts.find? q = some u) : IsFirst q t u := by
  induction t using induction_children generalizing u with
  | step t ih =>
    rw [parts_eq_cons, List.find?_cons] at h
    split at h
    · next hq =>
      cases h
      refine ⟨[], rfl, hq, ?_⟩
      rintro (_ | ⟨j, other⟩) v - -
      · exact Or.inl rfl
      · exact Or.inr .nil
    · next hq =>
      rw [List.find?_flatMap] at h
      obtain ⟨before, c, after, hchildren, hc, hbefore⟩ := List.findSome?_eq_some_iff.1 h
      obtain ⟨address, hu, hqu, hleast⟩ := ih c (by simp [hchildren]) hc
      refine ⟨before.length :: address, by simp [node?, hchildren, hu], hqu, ?_⟩
      rintro (_ | ⟨j, other⟩) v hv hqv
      · cases Option.some.inj hv
        simp [hqv] at hq
      · obtain ⟨d, hd, hv⟩ := Option.bind_eq_some_iff.1 hv
        -- The node is in a child before `c`, in `c` or in one after it.
        rcases Nat.lt_trichotomy before.length j with hj | rfl | hj
        · exact Or.inr (.rel hj)
        · obtain rfl : c = d := by simpa [hchildren] using hd
          rcases hleast other v hv hqv with rfl | hother
          · exact Or.inl rfl
          · exact Or.inr (.cons hother)
        · have hmem : d ∈ before := by
            rw [hchildren, List.getElem?_append_left hj] at hd
            exact List.mem_of_getElem? hd
          have hnone := List.find?_eq_none.1 (hbefore d hmem) v (mem_parts_of_node? hv)
          exact absurd hqv hnone

theorem not_of_find?_eq_none {t : TypeExpr} (h : t.parts.find? q = none) {address : List Nat}
    {u : TypeExpr} (hu : node? address t = some u) : ¬ q u :=
  List.find?_eq_none.1 h u (mem_parts_of_node? hu)

end NativeBinding.TypeExpr
