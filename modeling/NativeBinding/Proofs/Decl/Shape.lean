import NativeBinding.Proofs.Decl.Respan

/-!
Types without their places, and the lists they are spelled with: spellings with separators, and
lifetimes next to types, as in angle brackets and among bounds.
-/

namespace NativeBinding

namespace TypeExpr

def shape (t : TypeExpr) : TypeExpr :=
  t.respan fun _ => {}

theorem respanAll_eq_map (μ : Span → Span) (ts : List TypeExpr) :
    respanAll μ ts = ts.map (respan μ) := by
  induction ts with
  | nil => rfl
  | cons t ts ih => rw [respanAll, ih, List.map_cons]

theorem shape_path (segments lifetimes : List String) (args : List TypeExpr) (s : Span) :
    (path segments lifetimes args s).shape = path segments lifetimes (args.map shape) {} := by
  rw [shape, respan, respanAll_eq_map]
  rfl

theorem shape_ref (lifetime : Option String) (mutable : Bool) (target : TypeExpr) (s : Span) :
    (ref lifetime mutable target s).shape = ref lifetime mutable target.shape {} := rfl

theorem shape_tuple (items : List TypeExpr) (s : Span) :
    (tuple items s).shape = tuple (items.map shape) {} := by
  rw [shape, respan, respanAll_eq_map]
  rfl

theorem shape_slice (item : TypeExpr) (length : Option String) (s : Span) :
    (slice item length s).shape = slice item.shape length {} := rfl

theorem shape_object (kind : ObjectKind) (bounds : List TypeExpr) (lifetimes : List String)
    (s : Span) :
    (object kind bounds lifetimes s).shape = object kind (bounds.map shape) lifetimes {} := by
  rw [shape, respan, respanAll_eq_map]
  rfl

theorem renderAll_eq_map (ts : List TypeExpr) : renderAll ts = ts.map render := by
  induction ts with
  | nil => rfl
  | cons t ts ih => rw [renderAll, ih, List.map_cons]

mutual

theorem render_shape (t : TypeExpr) : t.shape.render = t.render := by
  cases t with
  | path segments lifetimes args s => rw [shape_path, render, render, renderAll_shape args]
  | ref lifetime mutable target s => simp only [shape_ref, render, render_shape target]
  | tuple items s => rw [shape_tuple, render, render, renderAll_shape items]
  | slice item length s => simp only [shape_slice, render, render_shape item]
  | object kind bounds lifetimes s => rw [shape_object, render, render, renderAll_shape bounds]
  | inferred s => rfl

theorem renderAll_shape (ts : List TypeExpr) : renderAll (ts.map shape) = renderAll ts := by
  cases ts with
  | nil => rfl
  | cons t ts => rw [List.map_cons, renderAll, renderAll, render_shape t, renderAll_shape ts]

end

end TypeExpr

/-- What stands in angle brackets or among bounds. -/
abbrev Inner := String ⊕ TypeExpr

namespace Inner

def text : Inner → String
  | .inl lifetime => lifetime
  | .inr t => t.render

def lifetimes (is : List Inner) : List String :=
  is.filterMap Sum.getLeft?

def shapes (is : List Inner) : List TypeExpr :=
  (is.filterMap Sum.getRight?).map TypeExpr.shape

theorem lifetimes_inl (ls : List String) (ts : List TypeExpr) :
    lifetimes (ls.map .inl ++ ts.map .inr) = ls := by
  simp [lifetimes, List.filterMap_map, Function.comp_def]

theorem shapes_inl (ls : List String) (ts : List TypeExpr) :
    shapes (ls.map .inl ++ ts.map .inr) = ts.map TypeExpr.shape := by
  simp [shapes, List.filterMap_map, Function.comp_def]

theorem lifetimes_inr (ts : List TypeExpr) (ls : List String) :
    lifetimes (ts.map .inr ++ ls.map .inl) = ls := by
  simp [lifetimes, List.filterMap_map, Function.comp_def]

theorem shapes_inr (ts : List TypeExpr) (ls : List String) :
    shapes (ts.map .inr ++ ls.map .inl) = ts.map TypeExpr.shape := by
  simp [shapes, List.filterMap_map, Function.comp_def]

def Listed (ls : List String) (ts : List TypeExpr) (is : List Inner) : Prop :=
  ls = lifetimes is ∧ ts.map TypeExpr.shape = shapes is

theorem Listed.append {ls ls' : List String} {ts ts' : List TypeExpr} {is is' : List Inner}
    (h : Listed ls ts is) (h' : Listed ls' ts' is') :
    Listed (ls ++ ls') (ts ++ ts') (is ++ is') := by
  constructor
  · rw [h.1, h'.1, lifetimes, lifetimes, lifetimes, List.filterMap_append]
  · rw [List.map_append, h.2, h'.2, shapes, shapes, shapes, List.filterMap_append, List.map_append]

theorem listed_lifetime {l l' : String} (h : l' = l) : Listed [l'] [] [.inl l] := by
  subst h
  exact ⟨rfl, rfl⟩

theorem listed_type {t t' : TypeExpr} (h : t'.shape = t.shape) : Listed [] [t'] [.inr t] :=
  ⟨rfl, congrArg (fun shape => [shape]) h⟩

end Inner

theorem toList_intercalate_cons (sep first : String) (rest : List String) :
    (sep.intercalate (first :: rest)).toList =
      first.toList ++ rest.flatMap fun s => sep.toList ++ s.toList := by
  rw [String.toList_intercalate, List.map_cons]
  induction rest generalizing first with
  | nil => simp
  | cons second rest ih =>
    rw [List.map_cons, List.intercalate_cons_cons, ih]
    simp

end NativeBinding
