import NativeBinding.Proofs.Decl.Legible
import NativeBinding.Proofs.Decl.Shape
import NativeBinding.Proofs.Grammar.Reaches

/-!
Reading a spelled type. The spelling of a legible type leads, wherever a type may stand, to a state
in which a type of the same shape is complete. The cases follow the forms of types; a list in
brackets is read item by item, and a path segment by segment with all arguments behind the last.
-/

namespace NativeBinding

open Grammar

variable (file : Option String)

def TypeDone (place : TypePlace) (t : TypeExpr) (s : State) : Prop :=
  ∃ tree, Ready s typeEnd (place.close tree) ∧ (TypeExpr.ofTree file tree).shape = t.shape

def PathDone (place : PathPlace) (t : TypeExpr) (s : State) : Prop :=
  ∃ tree, Ready s (.plus :: typeEnd) (place.close tree) ∧
    (TypeExpr.ofTree file (.path tree)).shape = t.shape

def Readable (lead : Lead) (t : TypeExpr) : Prop :=
  match lead with
  | .bound => ∀ (place : BoundPlace) (rest : List Char), Stops rest →
      Reaches (.bound place) (t.render.toList ++ rest) (PathDone file (.bound place) t) rest
  | lead => ∀ (place : TypePlace) (rest : List Char), place.lead = lead → Stops rest →
      Reaches (.type place) (t.render.toList ++ rest) (TypeDone file place t) rest

section

variable {file} {rest : List Char}

theorem typeStart_subset (place : TypePlace) : typeStart ⊆ place.expects := by
  unfold TypePlace.expects
  split <;> simp [typeStart]

/-- What the items in front of the next one mean. -/
def FrontMeans {α ι : Type} {mark : Terminal} (means : α → List ι → Prop) (is : List ι) :
    Option (α × Lexeme mark) → Prop
  | none => is = []
  | some (front, _) => means front is

theorem frontMeans_none {α ι : Type} {mark : Terminal} {means : α → List ι → Prop} :
    FrontMeans means [] (none : Option (α × Lexeme mark)) := rfl

def SegmentsDone (file : Option String) (place : PathPlace) (names : List String) (s : State) :
    Prop :=
  ∃ front l, s = .path front (.plain l) place ∧ (addSegment front (.plain l)).names = names ∧
    (addSegment front (.plain l)).lifetimes = [] ∧
    TypeExpr.argsOfPath file (addSegment front (.plain l)) = []

theorem free_of_unspelled {expected : List Terminal}
    (h : expected.all fun k => k.spelling?.isNone) {w : List Char} :
    ∀ k ∈ expected, ¬ k.Spells w := by
  rintro k hk ⟨word, hword, -⟩
  have hnone := List.all_eq_true.1 h k hk
  rw [hword] at hnone
  cases hnone

theorem SegmentsDone.step {place : PathPlace} {names : List String} {s : State}
    (h : SegmentsDone file place names s) {name : String} (hname : IsIdent name.toList)
    (hrest : Stops rest) :
    Reaches s ("::".toList ++ name.toList ++ rest)
      (SegmentsDone file place (names ++ [name])) rest := by
  obtain ⟨front, l, rfl, hnames, hlifetimes, hargs⟩ := h
  rw [List.append_assoc]
  refine .lexeme (k := .colons) rfl fun mark _ => ⟨_, rfl, ?_⟩
  refine .name (List.mem_singleton.2 rfl) hname (free_of_unspelled rfl) hrest
    fun l' hl' => ⟨_, rfl, .done ?_⟩
  obtain rfl : l'.text = name := String.toList_inj.1 hl'
  refine ⟨_, _, rfl, ?_, ?_, ?_⟩
  · rw [addSegment, PathTree.names, hnames]
    rfl
  · rw [addSegment, PathTree.lifetimes, hlifetimes]
    rfl
  · rw [addSegment, TypeExpr.argsOfPath, hargs]
    rfl

def ArgList.Means (file : Option String) (as : ArgList) (is : List Inner) : Prop :=
  Inner.Listed as.lifetimes (TypeExpr.ofArgs file as) is

theorem addArg_means {is : List Inner} {front : Option (ArgList × Lexeme .comma)}
    (hfront : FrontMeans (ArgList.Means file) is front) {a : ArgTree} {i : Inner}
    (ha : Inner.Listed a.lifetimes (TypeExpr.ofArg file a) [i]) :
    ArgList.Means file (addArg front a) (is ++ [i]) := by
  cases front with
  | none =>
    obtain rfl : is = [] := hfront
    exact ha
  | some f => exact Inner.Listed.append hfront ha

def ArgsDone (file : Option String) (path : Option (PathTree × Lexeme .colons))
    (name : Lexeme .ident) (opens : Lexeme .less) (outer : PathPlace) (is : List Inner)
    (s : State) : Prop :=
  ∃ front arg, Ready s [.comma, .greater] ((ArgPlace.mk path name opens front).close arg outer) ∧
    ArgList.Means file (addArg front arg) is

def ReadableArg (file : Option String) (i : Inner) : Prop :=
  match i with
  | .inl l => IsLifetime l.toList
  | .inr t => Readable file .type t

section

variable {path : Option (PathTree × Lexeme .colons)} {name : Lexeme .ident} {opens : Lexeme .less}
  {outer : PathPlace} {is : List Inner} {i : Inner}

theorem reaches_arg (hi : ReadableArg file i)
    {front : Option (ArgList × Lexeme .comma)} (hfront : FrontMeans (ArgList.Means file) is front)
    (hrest : Stops rest) :
    Reaches (.type (.arg ⟨path, name, opens, front⟩ outer)) (i.text.toList ++ rest)
      (ArgsDone file path name opens outer (is ++ [i])) rest := by
  cases i with
  | inl l =>
    have hexpects : .lifetime ∈ (State.type (.arg ⟨path, name, opens, front⟩ outer)).expects := by
      cases front <;> simp [State.expects, TypePlace.expects]
    refine .lifetime hexpects hi hrest fun l' hl' => ⟨_, rfl, .done ?_⟩
    exact ⟨front, _, ready_argLifetime _ _ _,
      addArg_means hfront (Inner.listed_lifetime (String.toList_inj.1 hl'))⟩
  | inr t =>
    refine (hi (.arg ⟨path, name, opens, front⟩ outer) rest rfl hrest).imp ?_
    rintro s ⟨tree, hready, hshape⟩
    exact ⟨front, .type tree, hready.mono (by simp [typeEnd]),
      addArg_means hfront (Inner.listed_type hshape)⟩

theorem ArgsDone.step {s : State} (h : ArgsDone file path name opens outer is s)
    (hi : ReadableArg file i) (hopens : Opens i.text.toList) (hrest : Stops rest) :
    Reaches s (", ".toList ++ i.text.toList ++ rest)
      (ArgsDone file path name opens outer (is ++ [i])) rest := by
  obtain ⟨front, arg, hready, hmeans⟩ := h
  refine hready.mark .comma (by simp) fun sep => ⟨_, rfl, ?_⟩
  refine .space (hopens.append rest) ?_
  exact reaches_arg hi hmeans hrest

def bracketed : List Inner → List Char
  | [] => []
  | i :: is =>
      '<' :: (i.text.toList ++ (is.flatMap (fun i => ", ".toList ++ i.text.toList) ++ ['>']))

theorem SegmentsDone.args {place : PathPlace} {names : List String} {s : State}
    (h : SegmentsDone file place names s) {is : List Inner}
    (his : ∀ i ∈ is, ReadableArg file i ∧ Opens i.text.toList) :
    Reaches s (bracketed is ++ rest) (fun s' => ∃ tree,
      Ready s' (.plus :: typeEnd) (place.close tree) ∧ tree.names = names ∧
        tree.lifetimes = Inner.lifetimes is ∧
        (TypeExpr.argsOfPath file tree).map TypeExpr.shape = Inner.shapes is) rest := by
  obtain ⟨front, l, rfl, hnames, hlifetimes, hargs⟩ := h
  cases is with
  | nil => exact .done ⟨_, ready_path _ _ _, hnames, hlifetimes, by rw [hargs]; rfl⟩
  | cons i is =>
    have hopen : .less ∈ (State.path front (.plain l) place).expects := by
      simp [State.expects]
    rw [bracketed, List.cons_append, List.append_assoc, List.append_assoc]
    refine .mark .less hopen fun opens => ⟨_, rfl, ?_⟩
    refine (Reaches.separated (ArgsDone file front l opens place) (fun i => i.text.toList)
      (fun _ => reaches_arg (his i List.mem_cons_self).1 frontMeans_none) ?_
      (fun _ => stops_mark (by decide) _)
      (stops_mark (by decide) _)).trans ?_
    · intro j hj done s hs rest hrest
      obtain ⟨hreadable, hopens⟩ := his j (List.mem_cons_of_mem _ hj)
      exact hs.step hreadable hopens hrest
    · rintro s ⟨f, arg, hready, hmeans⟩
      refine hready.mark .greater (by simp) fun closes => ⟨_, rfl, .done ?_⟩
      refine ⟨_, ready_path _ _ _, ?_, ?_, ?_⟩
      · rw [names_generic, hnames]
      · rw [lifetimes_generic, hlifetimes, hmeans.1]
        rfl
      · rw [argsOfPath_generic, hargs]
        exact hmeans.2

end

theorem toList_render_path (segments lifetimes : List String) (args : List TypeExpr) (span : Span) :
    (TypeExpr.path segments lifetimes args span).render.toList =
      ("::".intercalate segments).toList ++ bracketed (lifetimes.map .inl ++ args.map .inr) := by
  have htexts : lifetimes ++ TypeExpr.renderAll args =
      (lifetimes.map .inl ++ args.map .inr : List Inner).map Inner.text := by
    simp [TypeExpr.renderAll_eq_map, Inner.text, Function.comp_def]
  rw [TypeExpr.render, htexts, String.toList_append]
  cases (lifetimes.map .inl ++ args.map .inr : List Inner) with
  | nil => rfl
  | cons i is =>
    rw [List.map_cons, if_neg (by simp), String.toList_append, String.toList_append,
      toList_intercalate_cons, bracketed, List.flatMap_map]
    simp

theorem reaches_path {s : State} {place : PathPlace} {segments lifetimes : List String}
    {args : List TypeExpr} {span : Span} (hne : segments ≠ [])
    (hnames : ∀ s ∈ segments, IsIdent s.toList) (hlifetimes : ∀ l ∈ lifetimes, IsLifetime l.toList)
    (hargs : ∀ a ∈ args, Readable file .type a ∧ Opens a.render.toList)
    (hexpects : .ident ∈ s.expects)
    (hfree : ∀ name ∈ segments.head?, ∀ k ∈ s.expects, ¬ k.Spells name.toList)
    (hfeed : ∀ l : Lexeme .ident, s.feed ⟨.ident, l⟩ = some (.path none (.plain l) place))
    (hrest : Stops rest) :
    Reaches s ((TypeExpr.path segments lifetimes args span).render.toList ++ rest)
      (PathDone file place (.path segments lifetimes args span)) rest := by
  obtain ⟨first, more, rfl⟩ := List.exists_cons_of_ne_nil hne
  have hnext : Stops (bracketed (lifetimes.map .inl ++ args.map .inr) ++ rest) := by
    cases (lifetimes.map .inl ++ args.map .inr : List Inner) with
    | nil => exact hrest
    | cons i is => exact stops_mark (by decide) _
  rw [toList_render_path, toList_intercalate_cons, List.append_assoc, List.append_assoc]
  refine (Reaches.separated (SegmentsDone file place) (fun name => name.toList) ?_ ?_
    (fun _ => stops_mark (by decide) _) hnext).trans fun s hs => ?_
  · intro rest hrest
    refine .name hexpects (hnames first List.mem_cons_self) (hfree first rfl) hrest
      fun l hl => ⟨_, hfeed l, .done ?_⟩
    obtain rfl : l.text = first := String.toList_inj.1 hl
    exact ⟨none, l, rfl, rfl, rfl, rfl⟩
  · exact fun name hname _ _ hs _ hrest =>
      hs.step (hnames name (List.mem_cons_of_mem _ hname)) hrest
  · refine (hs.args ?_).imp ?_
    · intro i hi
      rcases List.mem_append.1 hi with hi | hi
      · obtain ⟨l, hl, rfl⟩ := List.mem_map.1 hi
        exact ⟨hlifetimes l hl, (hlifetimes l hl).opens⟩
      · obtain ⟨a, ha, rfl⟩ := List.mem_map.1 hi
        exact hargs a ha
    · rintro s' ⟨tree, hready, hnames', hlifetimes', hshapes⟩
      refine ⟨tree, hready, ?_⟩
      rw [TypeExpr.ofTree, TypeExpr.shape_path, TypeExpr.shape_path, hnames', hlifetimes', hshapes,
        Inner.lifetimes_inl, Inner.shapes_inl]

def BoundList.Means (file : Option String) (bs : BoundList) (is : List Inner) : Prop :=
  Inner.Listed bs.lifetimes (TypeExpr.ofBounds file bs) is

theorem addBound_means {is : List Inner} {front : Option (BoundList × Lexeme .plus)}
    (hfront : FrontMeans (BoundList.Means file) is front) {b : BoundTree} {i : Inner}
    (hb : Inner.Listed b.lifetimes (TypeExpr.ofBound file b) [i]) :
    BoundList.Means file (addBound front b) (is ++ [i]) := by
  cases front with
  | none =>
    obtain rfl : is = [] := hfront
    exact hb
  | some f => exact Inner.Listed.append hfront hb

def BoundsDone (file : Option String) (word : ObjectWord) (place : TypePlace) (is : List Inner)
    (s : State) : Prop :=
  ∃ front b, Ready s (.plus :: typeEnd) ((BoundPlace.object word front place).close b) ∧
    BoundList.Means file (addBound front b) is

def ReadableBound (file : Option String) (i : Inner) : Prop :=
  match i with
  | .inl l => IsLifetime l.toList
  | .inr t => Readable file .bound t

section

variable {word : ObjectWord} {place : TypePlace} {is : List Inner} {i : Inner}

theorem reaches_bound (hi : ReadableBound file i) {front : Option (BoundList × Lexeme .plus)}
    (hfront : FrontMeans (BoundList.Means file) is front) (hrest : Stops rest) :
    Reaches (.bound (.object word front place)) (i.text.toList ++ rest)
      (BoundsDone file word place (is ++ [i])) rest := by
  cases i with
  | inl l =>
    refine .lifetime (by simp [State.expects]) hi hrest fun l' hl' => ⟨_, rfl, .done ?_⟩
    exact ⟨front, _, ready_boundLifetime _ _,
      addBound_means hfront (Inner.listed_lifetime (String.toList_inj.1 hl'))⟩
  | inr t =>
    refine (hi (.object word front place) rest hrest).imp ?_
    rintro s ⟨tree, hready, hshape⟩
    exact ⟨front, .path tree, hready, addBound_means hfront (Inner.listed_type hshape)⟩

theorem BoundsDone.step {s : State} (h : BoundsDone file word place is s)
    (hi : ReadableBound file i) (hopens : Opens i.text.toList) (hrest : Stops rest) :
    Reaches s (" + ".toList ++ i.text.toList ++ rest)
      (BoundsDone file word place (is ++ [i])) rest := by
  obtain ⟨front, b, hready, hmeans⟩ := h
  refine .space ⟨'+', _, rfl, by decide⟩ ?_
  refine hready.mark .plus (by simp) fun sep => ⟨_, rfl, ?_⟩
  exact .space (hopens.append rest) (reaches_bound hi hmeans hrest)

theorem reaches_bounds (hne : is ≠ []) (his : ∀ i ∈ is, ReadableBound file i ∧ Opens i.text.toList)
    (hrest : Stops rest) :
    Reaches (.bound (.object word none place))
      ((" + ".intercalate (is.map Inner.text)).toList ++ rest) (BoundsDone file word place is)
      rest := by
  obtain ⟨i, is, rfl⟩ := List.exists_cons_of_ne_nil hne
  rw [List.map_cons, toList_intercalate_cons, List.flatMap_map, List.append_assoc]
  refine Reaches.separated (BoundsDone file word place) (fun i => i.text.toList)
    (fun _ => reaches_bound (his i List.mem_cons_self).1 frontMeans_none) ?_
    (fun _ => stops_space _) hrest
  intro j hj done s hs rest hrest
  obtain ⟨hreadable, hopens⟩ := his j (List.mem_cons_of_mem _ hj)
  exact hs.step hreadable hopens hrest

theorem BoundsDone.typeDone {s : State} (h : BoundsDone file word place is s)
    {bounds : List TypeExpr} {lifetimes : List String} {span : Span}
    (his : is = bounds.map .inr ++ lifetimes.map .inl) :
    TypeDone file place (.object word.kind bounds lifetimes span) s := by
  obtain ⟨front, b, hready, hlifetimes, hshapes⟩ := h
  refine ⟨.object word (addBound front b), ⟨fun k hk => ?_, fun t ht => ?_⟩, ?_⟩
  · exact hready.expects (List.mem_cons_of_mem _ hk)
  · rw [hready.feed t (List.mem_cons_of_mem _ ht)]
    obtain ⟨kind, l⟩ := t
    rw [BoundPlace.close.eq_def]
    cases kind <;> first
      | rfl
      | simp [typeEnd] at ht
  · rw [TypeExpr.ofTree, TypeExpr.shape_object, TypeExpr.shape_object, hlifetimes, hshapes, his,
      Inner.lifetimes_inr, Inner.shapes_inr]

theorem reaches_object {kind : ObjectKind} {bounds : List TypeExpr} {lifetimes : List String}
    {span : Span} (hne : bounds ≠ [] ∨ lifetimes ≠ [])
    (hbounds : ∀ b ∈ bounds, Readable file .bound b ∧ Opens b.render.toList)
    (hlifetimes : ∀ l ∈ lifetimes, IsLifetime l.toList) (hrest : Stops rest) :
    Reaches (.type place) ((TypeExpr.object kind bounds lifetimes span).render.toList ++ rest)
      (TypeDone file place (.object kind bounds lifetimes span)) rest := by
  generalize his : (bounds.map .inr ++ lifetimes.map .inl : List Inner) = is
  have hreadable : ∀ i ∈ is, ReadableBound file i ∧ Opens i.text.toList := by
    subst his
    intro i hi
    rcases List.mem_append.1 hi with hi | hi
    · obtain ⟨b, hb, rfl⟩ := List.mem_map.1 hi
      exact hbounds b hb
    · obtain ⟨l, hl, rfl⟩ := List.mem_map.1 hi
      exact ⟨hlifetimes l hl, (hlifetimes l hl).opens⟩
  have hne' : is ≠ [] := by
    subst his
    simpa [or_iff_not_imp_left] using hne
  have htexts : TypeExpr.renderAll bounds ++ lifetimes = is.map Inner.text := by
    subst his
    simp [TypeExpr.renderAll_eq_map, Inner.text, Function.comp_def]
  have hopens : Opens (" + ".intercalate (is.map Inner.text)).toList := by
    obtain ⟨i, is, rfl⟩ := List.exists_cons_of_ne_nil hne'
    rw [List.map_cons, toList_intercalate_cons]
    exact (hreadable i List.mem_cons_self).2.append _
  have hexpects {k : Terminal} (hk : k ∈ typeStart) : k ∈ (State.type place).expects :=
    typeStart_subset place hk
  rw [TypeExpr.render, htexts, String.toList_append, String.toList_append, List.append_assoc,
    List.append_assoc]
  cases kind with
  | impl =>
    refine Reaches.word (k := .implWord) (hexpects (by decide)) (hexpects (by decide))
      ⟨"impl", rfl, rfl⟩ (isIdent_of_all (by decide)) (stops_space _) fun l =>
        ⟨_, rfl, .space (hopens.append _) ?_⟩
    exact (reaches_bounds hne' hreadable hrest).imp fun s hs => hs.typeDone his.symm
  | dyn =>
    refine Reaches.word (k := .dynWord) (hexpects (by decide)) (hexpects (by decide))
      ⟨"dyn", rfl, rfl⟩ (isIdent_of_all (by decide)) (stops_space _) fun l =>
        ⟨_, rfl, .space (hopens.append _) ?_⟩
    exact (reaches_bounds hne' hreadable hrest).imp fun s hs => hs.typeDone his.symm

end

def TypeList.Means (file : Option String) (ts : TypeList) (is : List TypeExpr) : Prop :=
  (TypeExpr.ofList file ts).map TypeExpr.shape = is.map TypeExpr.shape

theorem addType_means {is : List TypeExpr} {front : Option (TypeList × Lexeme .comma)}
    (hfront : FrontMeans (TypeList.Means file) is front) {tree : TypeTree} {t : TypeExpr}
    (hshape : (TypeExpr.ofTree file tree).shape = t.shape) :
    TypeList.Means file (addType front tree) (is ++ [t]) := by
  cases front with
  | none =>
    obtain rfl : is = [] := hfront
    exact congrArg (fun shape => [shape]) hshape
  | some f =>
    have hfront : (TypeExpr.ofList file f.1).map TypeExpr.shape = is.map TypeExpr.shape := hfront
    simp [TypeList.Means, addType, TypeExpr.ofList, hfront, hshape]

def ComponentsDone (file : Option String) (opens : Lexeme .lparen) (place : TypePlace)
    (is : List TypeExpr) (s : State) : Prop :=
  ∃ front tree, Ready s typeEnd ((TypePlace.component opens front place).close tree) ∧
    TypeList.Means file (addType front tree) is

section

variable {opens : Lexeme .lparen} {place : TypePlace} {is : List TypeExpr} {t : TypeExpr}

theorem reaches_component (ht : Readable file .type t)
    {front : Option (TypeList × Lexeme .comma)} (hfront : FrontMeans (TypeList.Means file) is front)
    (hrest : Stops rest) :
    Reaches (.type (.component opens front place)) (t.render.toList ++ rest)
      (ComponentsDone file opens place (is ++ [t])) rest := by
  refine (ht (.component opens front place) rest rfl hrest).imp ?_
  rintro s ⟨tree, hready, hshape⟩
  exact ⟨front, tree, hready, addType_means hfront hshape⟩

theorem ComponentsDone.step {s : State} (h : ComponentsDone file opens place is s)
    (ht : Readable file .type t) (hopens : Opens t.render.toList) (hrest : Stops rest) :
    Reaches s (", ".toList ++ t.render.toList ++ rest)
      (ComponentsDone file opens place (is ++ [t])) rest := by
  obtain ⟨front, tree, hready, hmeans⟩ := h
  refine hready.mark .comma (by decide) fun sep => ⟨_, rfl, ?_⟩
  exact .space (hopens.append rest) (reaches_component ht hmeans hrest)

theorem reaches_tuple {items : List TypeExpr} {span : Span}
    (hitems : ∀ t ∈ items, Readable file .type t ∧ Opens t.render.toList) :
    Reaches (.type place) ((TypeExpr.tuple items span).render.toList ++ rest)
      (TypeDone file place (.tuple items span)) rest := by
  have hopen : .lparen ∈ (State.type place).expects := typeStart_subset place (by decide)
  have hclose : Stops (')' :: rest) := stops_mark (by decide) _
  rw [TypeExpr.render, TypeExpr.renderAll_eq_map]
  rcases items with _ | ⟨t, _ | ⟨t', ts⟩⟩
  · refine .mark .lparen hopen fun opens => ⟨_, rfl, ?_⟩
    refine .mark .rparen (by simp [State.expects, TypePlace.expects]) fun closes => ⟨_, rfl, ?_⟩
    exact .done ⟨_, ready_typeDone _ _, rfl⟩
  · -- The comma tells a tuple of one component from a type in parentheses.
    obtain ⟨ht, -⟩ := hitems t List.mem_cons_self
    change Reaches _ (("(" ++ t.render ++ ",)").toList ++ rest) _ _
    rw [String.toList_append, String.toList_append, List.append_assoc, List.append_assoc]
    refine .mark .lparen hopen fun opens => ⟨_, rfl, ?_⟩
    refine (reaches_component ht frontMeans_none (stops_mark (by decide) _)).trans ?_
    rintro s ⟨front, tree, hready, hmeans⟩
    refine hready.mark .comma (by decide) fun sep => ⟨_, rfl, ?_⟩
    refine .mark .rparen (by simp [State.expects, TypePlace.expects]) fun closes => ⟨_, rfl, ?_⟩
    refine .done ⟨_, ready_typeDone _ _, ?_⟩
    rw [TypeExpr.ofTree, TypeExpr.shape_tuple, TypeExpr.shape_tuple, hmeans]
    rfl
  · obtain ⟨ht, -⟩ := hitems t List.mem_cons_self
    change Reaches _
      (("(" ++ ", ".intercalate (t.render :: (t' :: ts).map TypeExpr.render) ++ ")").toList ++ rest)
      _ _
    rw [String.toList_append, String.toList_append, toList_intercalate_cons, List.flatMap_map,
      List.append_assoc, List.append_assoc, List.append_assoc]
    refine .mark .lparen hopen fun opens => ⟨_, rfl, ?_⟩
    refine (Reaches.separated (ComponentsDone file opens place) (fun t => t.render.toList)
      (fun _ => reaches_component ht frontMeans_none) ?_ (fun _ => stops_mark (by decide) _)
      hclose).trans ?_
    · intro j hj done s hs rest hrest
      obtain ⟨hreadable, hopens⟩ := hitems j (List.mem_cons_of_mem _ hj)
      exact hs.step hreadable hopens hrest
    · rintro s ⟨front, tree, hready, hmeans⟩
      refine hready.mark .rparen (by decide) fun closes => ⟨_, rfl, ?_⟩
      refine .done ⟨_, ready_typeDone _ _, ?_⟩
      rw [TypeExpr.ofTree, TypeExpr.shape_tuple, TypeExpr.shape_tuple, hmeans]

theorem reaches_slice {item : TypeExpr} {length : Option String} {span : Span}
    (hitem : Readable file .type item)
    (hlength : ∀ n ∈ length, IsIdent n.toList ∨ IsNumber n.toList) :
    Reaches (.type place) ((TypeExpr.slice item length span).render.toList ++ rest)
      (TypeDone file place (.slice item length span)) rest := by
  have hopen : .lbracket ∈ (State.type place).expects := typeStart_subset place (by decide)
  cases length with
  | none =>
    change Reaches _ (("[" ++ item.render ++ "" ++ "]").toList ++ rest) _ _
    rw [String.append_empty, String.toList_append, String.toList_append, List.append_assoc,
      List.append_assoc]
    refine .mark .lbracket hopen fun opens => ⟨_, rfl, ?_⟩
    refine (hitem (.element opens place) _ rfl (stops_mark (by decide) _)).trans ?_
    rintro s ⟨tree, hready, hshape⟩
    refine hready.mark .rbracket (by decide) fun closes => ⟨_, rfl, ?_⟩
    refine .done ⟨_, ready_typeDone _ _, ?_⟩
    rw [TypeExpr.ofTree, TypeExpr.shape_slice, TypeExpr.shape_slice, hshape]
  | some n =>
    have hclose : Stops ("]".toList ++ rest) := stops_mark (by decide) _
    change Reaches _ (("[" ++ item.render ++ ("; " ++ n) ++ "]").toList ++ rest) _ _
    rw [String.toList_append, String.toList_append, String.toList_append, String.toList_append,
      List.append_assoc, List.append_assoc, List.append_assoc, List.append_assoc]
    change Reaches _
      ('[' :: (item.render.toList ++ ';' :: ' ' :: (n.toList ++ ("]".toList ++ rest)))) _ _
    refine .mark .lbracket hopen fun opens => ⟨_, rfl, ?_⟩
    refine (hitem (.element opens place) _ rfl (stops_mark (by decide) _)).trans ?_
    rintro s ⟨tree, hready, hshape⟩
    refine hready.mark .semicolon (by decide) fun semi => ⟨_, rfl, ?_⟩
    have hend (length : ArrayLength) (htext : length.text.toList = n.toList) :
        Reaches (.arrayLength opens tree semi length place) ("]".toList ++ rest)
          (TypeDone file place (.slice item (some n) span)) rest := by
      refine .mark .rbracket (List.mem_singleton.2 rfl) fun closes => ⟨_, rfl, ?_⟩
      refine .done ⟨_, ready_typeDone _ _, ?_⟩
      rw [TypeExpr.ofTree, TypeExpr.shape_slice, TypeExpr.shape_slice, hshape,
        String.toList_inj.1 htext]
    rcases hlength n rfl with hn | hn
    · refine .space (hn.opens.append _) ?_
      exact .name (by simp [State.expects]) hn (free_of_unspelled rfl) hclose
        fun l hl => ⟨_, rfl, hend (.ident l) hl⟩
    · refine .space (hn.opens.append _) ?_
      exact .number (by simp [State.expects]) hn hclose fun l hl => ⟨_, rfl, hend (.number l) hl⟩

theorem reaches_target {amp : Lexeme .amp} {life : Option (Lexeme .lifetime)} {mutable : Bool}
    {target : TypeExpr} (htarget : Readable file (.ofTarget mutable) target)
    (hopens : Opens target.render.toList) (hrest : Stops rest) {span : Span} :
    Reaches (.type (.target amp life none place))
      ((if mutable then "mut " else "").toList ++ (target.render.toList ++ rest))
      (TypeDone file place (.ref (life.map (·.text)) mutable target span)) rest := by
  cases mutable with
  | false =>
    refine (htarget (.target amp life none place) rest rfl hrest).imp ?_
    rintro s ⟨tree, hready, hshape⟩
    refine ⟨.ref amp life none tree, hready, ?_⟩
    rw [TypeExpr.ofTree, TypeExpr.shape_ref, TypeExpr.shape_ref, hshape]
    rfl
  | true =>
    have hexpects : .mutWord ∈ (State.type (.target amp life none place)).expects ∧
        .ident ∈ (State.type (.target amp life none place)).expects := by
      cases life <;> simp [State.expects, TypePlace.expects, typeStart]
    change Reaches _ ("mut".toList ++ ' ' :: (target.render.toList ++ rest)) _ _
    refine Reaches.word (k := .mutWord) hexpects.2 hexpects.1 ⟨"mut", rfl, rfl⟩
      (isIdent_of_all (by decide)) (stops_space _) fun l =>
        ⟨_, rfl, .space (hopens.append rest) ?_⟩
    refine (htarget (.target amp life (some l) place) rest rfl hrest).imp ?_
    rintro s ⟨tree, hready, hshape⟩
    refine ⟨.ref amp life (some l) tree, hready, ?_⟩
    rw [TypeExpr.ofTree, TypeExpr.shape_ref, TypeExpr.shape_ref, hshape]
    rfl

theorem reaches_ref {lifetime : Option String} {mutable : Bool} {target : TypeExpr} {span : Span}
    (hlifetime : ∀ l ∈ lifetime, IsLifetime l.toList)
    (htarget : Readable file (.ofTarget mutable) target) (hopens : Opens target.render.toList)
    (hrest : Stops rest) :
    Reaches (.type place) ((TypeExpr.ref lifetime mutable target span).render.toList ++ rest)
      (TypeDone file place (.ref lifetime mutable target span)) rest := by
  have hopen : .amp ∈ (State.type place).expects := typeStart_subset place (by decide)
  cases lifetime with
  | none =>
    change Reaches _
      (("&" ++ "" ++ (if mutable then "mut " else "") ++ target.render).toList ++ rest) _ _
    rw [String.append_empty, String.toList_append, String.toList_append, List.append_assoc,
      List.append_assoc]
    exact .mark .amp hopen fun amp => ⟨_, rfl, reaches_target htarget hopens hrest⟩
  | some l =>
    have hl := hlifetime l rfl
    have htarget' : Opens ((if mutable then "mut " else "").toList ++
        (target.render.toList ++ rest)) := by
      cases mutable with
      | false => exact hopens.append rest
      | true => exact ⟨'m', _, rfl, by decide⟩
    change Reaches _
      (("&" ++ (l ++ " ") ++ (if mutable then "mut " else "") ++ target.render).toList ++ rest) _ _
    rw [String.toList_append, String.toList_append, String.toList_append, String.toList_append,
      List.append_assoc, List.append_assoc, List.append_assoc, List.append_assoc]
    change Reaches _ ('&' :: (l.toList ++ ' ' :: ((if mutable then "mut " else "").toList ++
      (target.render.toList ++ rest)))) _ _
    refine .mark .amp hopen fun amp => ⟨_, rfl, ?_⟩
    refine .lifetime (by simp [State.expects, TypePlace.expects]) hl (stops_space _) fun l' hl' =>
      ⟨_, rfl, .space htarget' ?_⟩
    obtain rfl : l'.text = l := String.toList_inj.1 hl'
    exact reaches_target htarget hopens hrest

end

theorem TypeExpr.Legible.opens {lead : Lead} {t : TypeExpr} (h : t.Legible lead) :
    Opens t.render.toList := by
  have start {c : Char} {cs : List Char} (hc : isGapSpace c = false) (rest : List Char) :
      Opens (c :: cs ++ rest) := ⟨c, _, rfl, hc⟩
  cases h with
  | @path _ segments lifetimes args span hne hnames _ _ _ =>
    obtain ⟨first, more, rfl⟩ := List.exists_cons_of_ne_nil hne
    rw [toList_render_path, toList_intercalate_cons, List.append_assoc]
    exact (hnames first List.mem_cons_self).opens.append _
  | @ref _ lifetime mutable target span _ _ _ =>
    cases lifetime <;>
      rw [TypeExpr.render, String.toList_append, String.toList_append, String.toList_append,
        List.append_assoc, List.append_assoc] <;>
      exact start (by decide) _
  | @tuple _ items _ _ _ =>
    rw [TypeExpr.render]
    split <;> rw [String.toList_append, String.toList_append, List.append_assoc] <;>
      exact start (c := '(') (by decide) _
  | @slice _ item length _ _ _ _ =>
    cases length <;>
      rw [TypeExpr.render, String.toList_append, String.toList_append, String.toList_append,
        List.append_assoc, List.append_assoc] <;>
      exact start (by decide) _
  | @object _ kind _ _ _ _ _ _ _ =>
    rw [TypeExpr.render, String.toList_append, String.toList_append, List.append_assoc]
    cases kind with
    | impl => exact start (c := 'i') (by decide) _
    | dyn => exact start (c := 'd') (by decide) _
  | inferred _ =>
    rw [TypeExpr.render]
    exact ⟨'_', [], rfl, by decide⟩

/-- Where a type stands, a name is one unless it is one of the words there. -/
theorem Grammar.TypePlace.free_of_words (place : TypePlace) {w : List Char} (hw : IsIdent w)
    (h : ∀ k ∈ place.lead.words, ¬ k.Spells w) : ∀ k ∈ place.expects, ¬ k.Spells w := by
  have hwords : place.expects.all fun k =>
      place.lead.words.contains k || !k.spelling?.any (·.toList.head?.any isIdentStart) := by
    cases place with
    | subject place generics => cases generics <;> rfl
    | target amp life mutable outer => cases life <;> cases mutable <;> rfl
    | arg place outer =>
      obtain ⟨path, name, opens, front⟩ := place
      cases front <;> rfl
    | _ => rfl
  intro k hk hspells
  have hk' := List.all_eq_true.1 hwords k hk
  obtain ⟨word, hword, rfl⟩ := hspells
  rw [hword, Option.any_some, hw.head, Bool.not_true, Bool.or_false, List.contains_iff_mem] at hk'
  exact h k hk' ⟨word, hword, rfl⟩

theorem readable_of_type {lead : Lead} {t : TypeExpr} (hlead : lead ≠ .bound)
    (h : ∀ (place : TypePlace) (rest : List Char), place.lead = lead → Stops rest →
      Reaches (.type place) (t.render.toList ++ rest) (TypeDone file place t) rest) :
    Readable file lead t := by
  cases lead with
  | bound => exact absurd rfl hlead
  | type | target => exact h

theorem TypeExpr.Legible.readable {lead : Lead} {t : TypeExpr} (h : t.Legible lead) :
    Readable file lead t := by
  induction h with
  | @path lead segments lifetimes args span hne hnames hlead hlifetimes hargs ih =>
    have hargs' : ∀ a ∈ args, Readable file .type a ∧ Opens a.render.toList :=
      fun a ha => ⟨ih a ha, (hargs a ha).opens⟩
    by_cases hbound : lead = .bound
    · subst hbound
      intro place rest hrest
      exact reaches_path hne hnames hlifetimes hargs' List.mem_cons_self
        (fun _ _ => free_of_unspelled rfl) (fun _ => rfl) hrest
    · refine readable_of_type hbound fun place rest hplace hrest => ?_
      subst hplace
      refine (reaches_path hne hnames hlifetimes hargs' (typeStart_subset place (by decide)) ?_
        (fun _ => rfl) hrest).imp ?_
      · intro name hname
        exact place.free_of_words (hnames name (List.mem_of_mem_head? hname)) (hlead name hname)
      · rintro s ⟨tree, hready, hshape⟩
        exact ⟨.path tree, hready.mono (List.subset_cons_self _ _), hshape⟩
  | ref hlead hlifetime htarget ih =>
    refine readable_of_type hlead fun place rest _ hrest => ?_
    exact reaches_ref hlifetime ih htarget.opens hrest
  | tuple hlead hitems ih =>
    refine readable_of_type hlead fun place rest _ _ => ?_
    exact reaches_tuple fun t ht => ⟨ih t ht, (hitems t ht).opens⟩
  | slice hlead hitem hlength ih =>
    exact readable_of_type hlead fun place rest _ _ => reaches_slice ih hlength
  | object hlead hne hbounds hlifetimes ih =>
    refine readable_of_type hlead fun place rest _ hrest => ?_
    exact reaches_object hne (fun b hb => ⟨ih b hb, (hbounds b hb).opens⟩) hlifetimes hrest
  | inferred hlead =>
    refine readable_of_type hlead fun place rest _ hrest => ?_
    rw [TypeExpr.render]
    change Reaches _ (['_'] ++ rest) _ _
    refine Reaches.word (k := .wildcard) (typeStart_subset place (by decide))
      (typeStart_subset place (by decide)) ⟨"_", rfl, rfl⟩ (isIdent_of_all (by decide)) hrest
      fun l => ⟨_, rfl, .done ⟨_, ready_typeDone _ _, rfl⟩⟩

end

end NativeBinding
