/-!
Computations that may fail. When a sequence of them, or one over each item of a list, succeeds, so
does each of its steps.
-/

namespace NativeBinding

variable {ε α β : Type}

theorem bind_eq_ok_iff {x : Except ε α} {f : α → Except ε β} {b : β} :
    (x >>= f) = .ok b ↔ ∃ a, x = .ok a ∧ f a = .ok b := by
  cases x with
  | error e => simp [bind, Except.bind]
  | ok a => simp [bind, Except.bind]

variable {f : α → Except ε β} {bs : List β}

theorem mapM_nil_eq_ok (h : [].mapM f = .ok bs) : bs = [] := by
  cases h
  rfl

theorem mapM_cons_eq_ok {a : α} {as : List α} (h : (a :: as).mapM f = .ok bs) :
    ∃ b bs', f a = .ok b ∧ as.mapM f = .ok bs' ∧ bs = b :: bs' := by
  rw [List.mapM_cons] at h
  obtain ⟨b, hb, h⟩ := bind_eq_ok_iff.1 h
  obtain ⟨bs', hbs', h⟩ := bind_eq_ok_iff.1 h
  cases h
  exact ⟨b, bs', hb, hbs', rfl⟩

theorem exists_of_mem_mapM {as : List α} (h : as.mapM f = .ok bs) {b : β} (hb : b ∈ bs) :
    ∃ a ∈ as, f a = .ok b := by
  induction as generalizing bs with
  | nil =>
    rw [mapM_nil_eq_ok h] at hb
    cases hb
  | cons a as ih =>
    obtain ⟨b', bs', hb', hbs', rfl⟩ := mapM_cons_eq_ok h
    rcases List.mem_cons.1 hb with rfl | hb
    · exact ⟨a, List.mem_cons_self, hb'⟩
    · obtain ⟨a', ha', hf⟩ := ih hbs' hb
      exact ⟨a', List.mem_cons_of_mem _ ha', hf⟩

theorem exists_mem_of_mapM {as : List α} (h : as.mapM f = .ok bs) {a : α} (ha : a ∈ as) :
    ∃ b ∈ bs, f a = .ok b := by
  induction as generalizing bs with
  | nil => cases ha
  | cons a' as ih =>
    obtain ⟨b, bs', hb, hbs', rfl⟩ := mapM_cons_eq_ok h
    rcases List.mem_cons.1 ha with rfl | ha
    · exact ⟨b, List.mem_cons_self, hb⟩
    · obtain ⟨b', hb', hf⟩ := ih hbs' ha
      exact ⟨b', List.mem_cons_of_mem _ hb', hf⟩

theorem mapM_eq_error_iff {as : List α} :
    (∃ e, as.mapM f = .error e) ↔ ∃ a ∈ as, ∃ e, f a = .error e := by
  induction as with
  | nil => simp [pure, Except.pure]
  | cons a as ih =>
    simp only [List.mapM_cons, List.mem_cons, or_and_right, exists_or, exists_eq_left]
    rw [← ih]
    cases f a <;> cases as.mapM f <;> simp [bind, Except.bind, pure, Except.pure]

theorem pairwise_of_mapM {R : α → α → Prop} {S : β → β → Prop}
    (hstep : ∀ a b a' b', f a = .ok b → f a' = .ok b' → R a a' → S b b') {as : List α}
    (h : as.mapM f = .ok bs) (hR : as.Pairwise R) : bs.Pairwise S := by
  induction as generalizing bs with
  | nil =>
    rw [mapM_nil_eq_ok h]
    exact .nil
  | cons a as ih =>
    obtain ⟨b, bs', hb, hbs', rfl⟩ := mapM_cons_eq_ok h
    obtain ⟨hhead, htail⟩ := List.pairwise_cons.1 hR
    refine List.pairwise_cons.2 ⟨fun b' hb' => ?_, ih hbs' htail⟩
    obtain ⟨a', ha', hab'⟩ := exists_of_mem_mapM hbs' hb'
    exact hstep a b a' b' hb hab' (hhead a' ha')

theorem map_of_mapM {γ : Type} {g : α → γ} {h : β → γ} (hstep : ∀ a b, f a = .ok b → h b = g a)
    {as : List α} (hmap : as.mapM f = .ok bs) : bs.map h = as.map g := by
  induction as generalizing bs with
  | nil =>
    rw [mapM_nil_eq_ok hmap]
    rfl
  | cons a as ih =>
    obtain ⟨b, bs', hb, hbs', rfl⟩ := mapM_cons_eq_ok hmap
    rw [List.map_cons, List.map_cons, hstep a b hb, ih hbs']

@[simp] theorem toOption_ok (a : α) : (Except.ok a : Except ε α).toOption = some a :=
  rfl

@[simp] theorem toOption_pure (a : α) : (pure a : Except ε α).toOption = some a :=
  rfl

@[simp] theorem toOption_error (e : ε) : (Except.error e : Except ε α).toOption = none :=
  rfl

theorem eq_ok_of_toOption {x : Except ε α} {a : α} (h : x.toOption = some a) : x = .ok a := by
  cases x with
  | error e => cases h
  | ok b => exact congrArg _ (Option.some.inj h)

@[simp] theorem toOption_bind (x : Except ε α) (f : α → Except ε β) :
    (x >>= f).toOption = x.toOption.bind fun a => (f a).toOption := by
  cases x <;> rfl

@[simp] theorem toOption_map (x : Except ε α) (f : α → β) :
    (f <$> x).toOption = x.toOption.map f := by
  cases x <;> rfl

theorem mapM_toOption {γ : Type} {f : α → Except ε β} {g : γ → Option β} {e : α → γ}
    (h : ∀ a, g (e a) = (f a).toOption) (as : List α) :
    (as.map e).mapM g = (as.mapM f).toOption := by
  induction as with
  | nil => rfl
  | cons a as ih =>
    simp only [List.map_cons, List.mapM_cons, toOption_bind, h, ih]
    rfl

theorem map_toOption_of_mapM {as : List α} (h : as.mapM f = .ok bs) :
    (as.map fun a => (f a).toOption) = bs.map some := by
  induction as generalizing bs with
  | nil =>
    rw [mapM_nil_eq_ok h]
    rfl
  | cons a as ih =>
    obtain ⟨b, bs', hb, hbs', rfl⟩ := mapM_cons_eq_ok h
    rw [List.map_cons, hb, ih hbs', toOption_ok, List.map_cons]

def error? : Except ε α → Option ε
  | .error e => some e
  | .ok _ => none

@[simp] theorem error?_error (e : ε) : error? (.error e : Except ε α) = some e :=
  rfl

@[simp] theorem error?_ok (a : α) : error? (.ok a : Except ε α) = none :=
  rfl

@[simp] theorem error?_pure (a : α) : error? (pure a : Except ε α) = none :=
  rfl

theorem error?_eq_some_iff {x : Except ε α} {e : ε} : error? x = some e ↔ x = .error e := by
  cases x <;> simp

theorem error?_eq_none_iff {x : Except ε α} : error? x = none ↔ ∃ a, x = .ok a := by
  cases x <;> simp

theorem error?_bind {x : Except ε α} {f : α → Except ε β} {o : Option ε}
    (h : ∀ a, error? (f a) = o) : error? (x >>= f) = (error? x).or o := by
  cases x with
  | error e => rfl
  | ok a => exact h a

@[simp] theorem error?_map (x : Except ε α) (f : α → β) : error? (f <$> x) = error? x := by
  cases x <;> rfl

theorem error?_mapM (as : List α) : error? (as.mapM f) = as.findSome? fun a => error? (f a) := by
  induction as with
  | nil => rfl
  | cons a as ih =>
    have htail (b : β) : error? (as.mapM f >>= fun bs => pure (b :: bs)) =
        as.findSome? fun a => error? (f a) := by
      rw [error?_bind fun bs => error?_pure (b :: bs), Option.or_none, ih]
    rw [List.mapM_cons, error?_bind htail, List.findSome?_cons]
    cases error? (f a) <;> rfl

section

variable {α' β' : Type} {e : ε → ε} {g : α → α'} {h : β → β'}

/-- A computation whose error and result are replaced. -/
def mapBoth (e : ε → ε) (g : α → β) : Except ε α → Except ε β
  | .error x => .error (e x)
  | .ok a => .ok (g a)

@[simp] theorem mapBoth_error (x : ε) : mapBoth e g (.error x) = .error (e x) := rfl

@[simp] theorem mapBoth_ok (a : α) : mapBoth e g (.ok a) = .ok (g a) := rfl

theorem bind_mapBoth {k : α → Except ε β} {k' : α' → Except ε β'}
    (hk : ∀ a, k' (g a) = mapBoth e h (k a)) (x : Except ε α) :
    (mapBoth e g x >>= k') = mapBoth e h (x >>= k) := by
  cases x with
  | error x => rfl
  | ok a => exact hk a

theorem mapM_mapBoth {k : α → Except ε β} {k' : α' → Except ε β'} {as : List α}
    (hk : ∀ a ∈ as, k' (g a) = mapBoth e h (k a)) :
    (as.map g).mapM k' = mapBoth e (List.map h) (as.mapM k) := by
  induction as with
  | nil => rfl
  | cons a as ih =>
    rw [List.map_cons, List.mapM_cons, List.mapM_cons, hk a List.mem_cons_self]
    apply bind_mapBoth
    intro b
    rw [ih fun a ha => hk a (List.mem_cons_of_mem _ ha)]
    exact bind_mapBoth (fun _ => by rfl) _

end

end NativeBinding
