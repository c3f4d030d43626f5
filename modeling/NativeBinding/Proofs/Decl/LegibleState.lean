import NativeBinding.Proofs.Decl.Legible
import NativeBinding.Proofs.Decl.Source

/-!
Reading builds legible types only. A token that fits where it is read keeps the invariant, so all
declared types of a text that parses are legible.
-/

namespace NativeBinding

open Grammar

namespace Grammar

variable {file : Option String} {s s' : State} {t : Token}

theorem Scope.add_types {scope : Scope} {attrs : List AttrTree} {body : MemberBody} :
    (scope.add attrs body).types = scope.types ++ body.types := by
  cases scope <;> simp [Scope.add, Scope.types, ItemTree.types]

theorem ResultPlace.add_types (p : ResultPlace) (result : Option (Lexeme .arrow × TypeTree))
    (ending : FnEnd) : (p.add result ending).types = p.types ++ (result.map (·.2)).toList := by
  simp [ResultPlace.add, Scope.add_types, ResultPlace.types, MemberBody.types]

theorem ResultPlace.close_legible {p : ResultPlace} (result : Option (Lexeme .arrow × TypeTree))
    (h : Declared file (p.types ++ (result.map (·.2)).toList))
    (hclose : p.close result t = some s) : s.Legible file := by
  obtain ⟨kind, l⟩ := t
  cases kind <;> simp only [ResultPlace.close, reduceCtorEq, Option.some.injEq] at hclose
  · subst hclose
    rwa [State.Legible, p.add_types]
  · subst hclose
    exact h

theorem ParamPlace.close_legible {p : ParamPlace} {body : ParamBody} (h : Declared file p.types)
    (hbody : ∀ t ∈ ParamTree.type? ⟨p.attrs, body⟩, (TypeExpr.ofTree file t).Legible .type)
    (hclose : p.close body t = some s) : s.Legible file := by
  have hadd : Declared file (p.fn.decl.scope.types ++
      (p.front.add ⟨p.attrs, body⟩).toList.filterMap ParamTree.type?) := by
    rw [Front.add_toList, List.filterMap_append, ← List.append_assoc]
    refine declared_append.2 ⟨h, ?_⟩
    cases hp : ParamTree.type? ⟨p.attrs, body⟩ with
    | none => simp [hp, declared_nil]
    | some tree => simpa [hp, Declared] using hbody tree hp
  obtain ⟨kind, l⟩ := t
  cases kind <;> simp only [ParamPlace.close, reduceCtorEq, Option.some.injEq] at hclose
  all_goals subst hclose
  all_goals exact hadd

theorem GenericPlace.finish_legible {p : GenericPlace} (h : Declared file p.owner.types)
    (params : Series GenericTree) (closes : Lexeme .greater) :
    (p.finish params closes).Legible file := by
  rw [GenericPlace.finish]
  cases howner : p.owner <;> rw [howner] at h <;> exact h

theorem GenericPlace.close_legible {p : GenericPlace} {param : GenericTree}
    (h : Declared file p.owner.types) (hclose : p.close param t = some s) : s.Legible file := by
  obtain ⟨kind, l⟩ := t
  cases kind <;> simp only [GenericPlace.close, reduceCtorEq, Option.some.injEq] at hclose
  all_goals subst hclose
  · exact h
  · exact finish_legible h _ _

theorem ArgPlace.close_legible {p : ArgPlace} {arg : ArgTree} {outer : PathPlace}
    (houter : outer.Legible file) (h : p.Legible file outer.lead)
    (hargs : ∀ t ∈ TypeExpr.ofArg file arg, t.Legible .type)
    (hlifetimes : ∀ l ∈ arg.lifetimes, IsLifetime l.toList)
    (hclose : p.close arg outer t = some s) : s.Legible file := by
  have hadd := addArg_legible h.front hargs hlifetimes
  obtain ⟨kind, l⟩ := t
  cases kind <;> simp only [ArgPlace.close, reduceCtorEq, Option.some.injEq] at hclose
  all_goals subst hclose
  · refine ⟨houter, h.path, ?_⟩
    rintro _ ⟨⟩
    exact hadd
  · exact ⟨houter, h.finish hadd _ _⟩

mutual

theorem TypePlace.close_legible {p : TypePlace} {tree : TypeTree} (h : p.Legible file)
    (htree : (TypeExpr.ofTree file tree).Legible p.lead) (hclose : p.close tree t = some s) :
    s.Legible file := by
  cases p with
  | const place colon =>
    obtain ⟨kind, l⟩ := t
    cases kind <;> simp only [TypePlace.close, reduceCtorEq, Option.some.injEq] at hclose
    subst hclose
    exact declared_append.2 ⟨h, declared_cons.2 ⟨htree, declared_nil⟩⟩
  | param place pattern colon =>
    refine ParamPlace.close_legible h ?_ hclose
    rintro _ ⟨⟩
    exact htree
  | result place arrow =>
    refine ResultPlace.close_legible (some (arrow, tree)) ?_ hclose
    exact declared_append.2 ⟨h, declared_cons.2 ⟨htree, declared_nil⟩⟩
  | subject place generics =>
    obtain ⟨kind, l⟩ := t
    cases kind <;> simp only [TypePlace.close, reduceCtorEq, Option.some.injEq] at hclose
    subst hclose
    exact declared_append.2 ⟨h, declared_cons.2 ⟨htree, declared_nil⟩⟩
  | generic place word name colon => exact GenericPlace.close_legible h hclose
  | target amp life mutable outer =>
    refine TypePlace.close_legible h.1 ?_ hclose
    refine .ref outer.lead_ne_bound ?_ ?_
    · intro l hl
      obtain ⟨life, hlife, rfl⟩ := Option.map_eq_some_iff.1 hl
      exact h.2 life hlife
    · cases mutable <;> exact htree
  | component opens front outer =>
    have hadd := addType_legible h.2 htree
    obtain ⟨kind, l⟩ := t
    cases kind <;> simp only [TypePlace.close, reduceCtorEq, Option.some.injEq] at hclose
    all_goals subst hclose
    · exact ⟨h.1, .tuple outer.lead_ne_bound hadd⟩
    · refine ⟨h.1, ?_⟩
      rintro _ ⟨⟩
      exact hadd
  | element opens outer =>
    obtain ⟨kind, l⟩ := t
    cases kind <;> simp only [TypePlace.close, reduceCtorEq, Option.some.injEq] at hclose
    all_goals subst hclose
    · exact ⟨h, htree⟩
    · exact ⟨h, .slice outer.lead_ne_bound htree (by simp)⟩
  | arg place outer =>
    refine ArgPlace.close_legible h.1 h.2 ?_ (by simp [ArgTree.lifetimes]) hclose
    intro a ha
    obtain rfl := List.mem_singleton.1 ha
    exact htree

theorem BoundPlace.close_legible {p : BoundPlace} {b : BoundTree} (h : p.Legible file)
    (hbounds : ∀ t ∈ TypeExpr.ofBound file b, t.Legible .bound)
    (hlifetimes : ∀ l ∈ b.lifetimes, IsLifetime l.toList) (hclose : p.close b t = some s) :
    s.Legible file := by
  cases p with
  | object word front outer =>
    have hadd := addBound_legible h.2 hbounds hlifetimes
    rw [BoundPlace.close.eq_def] at hclose
    dsimp only at hclose
    split at hclose
    · cases hclose
      refine ⟨h.1, ?_⟩
      rintro _ ⟨⟩
      exact hadd
    · refine TypePlace.close_legible h.1 ?_ hclose
      exact .object outer.lead_ne_bound (BoundList.nonempty _) hadd.bounds hadd.lifetimes
  | generic place name colon front =>
    rw [BoundPlace.close.eq_def] at hclose
    dsimp only at hclose
    split at hclose
    · cases hclose
      exact h
    · exact GenericPlace.close_legible h hclose

end

theorem PathPlace.close_legible {p : PathPlace} {tree : PathTree} (h : p.Legible file)
    (htree : tree.Legible file p.lead) (hclose : p.close tree t = some s) : s.Legible file := by
  cases p with
  | type outer => exact TypePlace.close_legible h htree.expr hclose
  | bound outer =>
    refine BoundPlace.close_legible h ?_ (by simp [BoundTree.lifetimes]) hclose
    intro b hb
    obtain rfl := List.mem_singleton.1 hb
    exact htree.expr

theorem TypePlace.feed_legible {p : TypePlace} (h : p.Legible file) (hfits : t.Fits p.expects)
    (hfeed : p.feed t = some s) : s.Legible file := by
  obtain ⟨kind, l⟩ := t
  rw [TypePlace.feed.eq_def] at hfeed
  cases kind <;> dsimp only at hfeed
  case ident =>
    cases hfeed
    obtain ⟨hident, hwords⟩ := hfits.ident rfl
    exact ⟨h, PathTree.legible_name hident fun k hk => hwords k (p.words_subset hk)⟩
  case lifetime =>
    have hl := hfits.lifetime rfl
    split at hfeed
    · cases hfeed
      refine ⟨h.1, ?_⟩
      rintro _ ⟨⟩
      exact hl
    · cases hfeed
      exact ⟨h.1, h.2, hl⟩
    · cases hfeed
  case mutWord =>
    split at hfeed <;> cases hfeed
    exact h
  case less =>
    split at hfeed <;> cases hfeed
    exact h
  case rparen =>
    split at hfeed
    · cases hfeed
      exact ⟨h.1, .tuple (lead_ne_bound _) (by simp)⟩
    · cases hfeed
      exact ⟨h.1, .tuple (lead_ne_bound _) (h.2 _ rfl)⟩
    · cases hfeed
  case greater =>
    split at hfeed
    · next args outer =>
      obtain ⟨f, hf, rfl⟩ := Option.map_eq_some_iff.1 hfeed
      exact ⟨h.1, h.2.finish (h.2.front f hf) _ _⟩
    · cases hfeed
  all_goals cases hfeed
  case amp => exact ⟨h, by simp⟩
  case lparen => exact ⟨h, by simp⟩
  case lbracket => exact h
  case wildcard => exact ⟨h, .inferred p.lead_ne_bound⟩
  case dynWord | implWord => exact ⟨h, by simp⟩

theorem ParamPlace.feed_legible {p : ParamPlace} (h : Declared file p.types)
    (hfeed : p.feed t = some s) : s.Legible file := by
  obtain ⟨kind, l⟩ := t
  rw [ParamPlace.feed.eq_def] at hfeed
  cases kind <;> dsimp only at hfeed
  case rparen =>
    split at hfeed <;> cases hfeed
    cases hfront : p.front <;>
      simpa [State.Legible, ParamPlace.finish, ParamPlace.types, ResultPlace.types, hfront,
        Front.toList, Group.toList, Series.toList] using h
  all_goals cases hfeed
  all_goals exact h

theorem PatternPlace.close_legible {p : PatternPlace} {tree : PatternTree} (h : p.Legible file)
    (hclose : p.close tree t = some s) : s.Legible file := by
  obtain ⟨kind, l⟩ := t
  cases p <;> cases kind <;>
    simp only [PatternPlace.close, reduceCtorEq, Option.some.injEq] at hclose
  all_goals subst hclose
  all_goals exact h

theorem feedComponent_legible {opens : Lexeme .lparen}
    {front : Option (PatternList × Lexeme .comma)} {outer : PatternPlace} (h : outer.Legible file)
    (hfeed : feedComponent opens front outer t = some s) : s.Legible file := by
  obtain ⟨kind, l⟩ := t
  rw [feedComponent.eq_def] at hfeed
  cases kind <;> dsimp only at hfeed
  all_goals try split at hfeed
  all_goals cases hfeed
  all_goals exact h

theorem feedSelf_legible {p : ParamPlace} {amp : Lexeme .amp} {life : Option (Lexeme .lifetime)}
    {mutable : Option (Lexeme .mutWord)} (h : Declared file p.types)
    (hfeed : feedSelf p amp life mutable t = some s) : s.Legible file := by
  obtain ⟨kind, l⟩ := t
  rw [feedSelf.eq_def] at hfeed
  cases kind <;> dsimp only at hfeed
  all_goals try split at hfeed
  all_goals cases hfeed
  all_goals exact h

theorem AttrPlace.finish_legible {p : AttrPlace} (h : p.Legible file) (content : Meta)
    (closes : Lexeme .rbracket) : (p.finish content closes).Legible file := by
  cases p <;> exact h

theorem MetaPlace.close_legible {p : MetaPlace} {entry : MetaItem} (h : p.attr.Legible file)
    (hclose : p.close entry t = some s) : s.Legible file := by
  obtain ⟨kind, l⟩ := t
  cases kind <;> simp only [MetaPlace.close, reduceCtorEq, Option.some.injEq] at hclose
  all_goals subst hclose
  all_goals exact h

theorem RoutePlace.close_legible {p : RoutePlace} {r : Route} (h : p.Legible file)
    (hclose : p.close r t = some s) : s.Legible file := by
  obtain ⟨kind, l⟩ := t
  cases p with
  | content place =>
    cases kind <;> simp only [RoutePlace.close, reduceCtorEq, Option.some.injEq] at hclose
    case rbracket =>
      subst hclose
      exact AttrPlace.finish_legible h _ _
    all_goals subst hclose
    all_goals exact h
  | item place =>
    rw [RoutePlace.close.eq_def] at hclose
    cases kind <;> dsimp only at hclose
    case equals =>
      cases hclose
      exact h
    all_goals exact MetaPlace.close_legible h hclose

theorem MetaPlace.feed_legible {p : MetaPlace} (h : p.attr.Legible file)
    (hfeed : p.feed t = some s) : s.Legible file := by
  obtain ⟨kind, l⟩ := t
  rw [MetaPlace.feed.eq_def] at hfeed
  cases kind <;> dsimp only at hfeed
  case ident | rparen =>
    cases hfeed
    exact h
  all_goals
    obtain ⟨value, -, rfl⟩ := Option.map_eq_some_iff.1 hfeed
    exact h

theorem DeclPlace.feed_legible {p : DeclPlace} (h : Declared file p.scope.types)
    (hfeed : p.feed t = some s) : s.Legible file := by
  obtain ⟨kind, l⟩ := t
  cases kind <;> simp only [DeclPlace.feed, reduceCtorEq, Option.some.injEq] at hfeed
  all_goals subst hfeed
  all_goals exact h

theorem Scope.feed_legible {scope : Scope} {attrs : List AttrTree} (h : Declared file scope.types)
    (hfeed : scope.feed attrs t = some s) : s.Legible file := by
  obtain ⟨kind, l⟩ := t
  rw [Scope.feed.eq_def] at hfeed
  cases kind <;> dsimp only at hfeed
  case hash | docComment | pubWord =>
    cases hfeed
    exact h
  case implWord =>
    cases scope <;> cases hfeed
    exact h
  case rbrace =>
    split at hfeed <;> cases hfeed
    simpa [State.Legible, Scope.types, ItemTree.types] using h
  all_goals exact DeclPlace.feed_legible h hfeed

theorem State.feed_legible (h : s.Legible file) (hfits : t.Fits s.expects)
    (hfeed : s.feed t = some s') : s'.Legible file := by
  rw [State.feed.eq_def] at hfeed
  -- One case for each line of `feed`, in its order.
  split at hfeed
  case h_1 => exact Scope.feed_legible h hfeed
  case h_8 => exact RoutePlace.close_legible h hfeed
  case h_10 | h_13 =>
    obtain ⟨value, hvalue, rfl⟩ := Option.map_eq_some_iff.1 hfeed
    exact h
  case h_11 =>
    cases hfeed
    exact AttrPlace.finish_legible h _ _
  case h_12 => exact MetaPlace.feed_legible h hfeed
  case h_14 => exact MetaPlace.close_legible h hfeed
  case h_16 =>
    refine DeclPlace.feed_legible ?_ hfeed
    exact h
  case h_25 =>
    refine ResultPlace.close_legible _ ?_ hfeed
    exact declared_append.2 ⟨h, declared_nil⟩
  case h_34 place l =>
    obtain ⟨f, hf, rfl⟩ := Option.map_eq_some_iff.1 hfeed
    exact GenericPlace.finish_legible h _ _
  case h_36 | h_39 | h_41 => exact GenericPlace.close_legible h hfeed
  case h_44 => exact ParamPlace.feed_legible h hfeed
  case h_47 => exact feedSelf_legible h hfeed
  case h_48 => exact ParamPlace.close_legible h (by simp [ParamTree.type?]) hfeed
  case h_49 => exact feedComponent_legible h hfeed
  case h_51 => exact PatternPlace.close_legible h hfeed
  case h_52 => exact TypePlace.feed_legible h hfits hfeed
  case h_53 => exact TypePlace.close_legible h.1 h.2 hfeed
  case h_59 => exact PathPlace.close_legible h.1 h.2 hfeed
  case h_61 =>
    refine ArgPlace.close_legible h.1 h.2.1 (by simp [TypeExpr.ofArg]) ?_ hfeed
    simpa [ArgTree.lifetimes] using h.2.2
  case h_64 =>
    refine BoundPlace.close_legible h.1 (by simp [TypeExpr.ofBound]) ?_ hfeed
    simpa [BoundTree.lifetimes] using h.2
  all_goals cases hfeed
  case h_22 | h_23 =>
    change Declared file _
    rw [ParamPlace.types]
    exact declared_append.2 ⟨h, declared_nil⟩
  case h_26 => rwa [Legible, ResultPlace.add_types]
  case h_30 => rwa [Legible, ConstPlace.add, Scope.add_types]
  case h_54 => exact ⟨h.1, h.2, Or.inl (hfits.ident rfl).1⟩
  case h_55 => exact ⟨h.1, h.2, Or.inr (hfits.number rfl)⟩
  case h_56 =>
    refine ⟨h.1, .slice (TypePlace.lead_ne_bound _) h.2.1 ?_⟩
    rintro _ ⟨⟩
    exact h.2.2
  case h_58 => exact ⟨h.1, h.2, by simp⟩
  case h_60 => exact ⟨h.1, h.2.add _ (hfits.ident rfl).1⟩
  case h_62 =>
    refine ⟨h, PathTree.legible_name (hfits.ident rfl).1 ?_⟩
    simp [PathPlace.lead, Lead.words]
  case h_63 => exact ⟨h, hfits.lifetime rfl⟩
  all_goals exact h

theorem State.start_legible : start.Legible file :=
  declared_nil

end Grammar

variable {file : Option String}

theorem Param.type?_ofTree {t : Grammar.ParamTree} {p : Param} (h : Param.ofTree file t = .ok p) :
    p.type? = t.type?.map (TypeExpr.ofTree file) := by
  obtain ⟨attrs, -, h⟩ := bind_eq_ok_iff.1 h
  rw [ParamTree.type?]
  cases hbody : t.body <;> rw [hbody] at h <;> cases h <;> rfl

theorem Decl.exists_of_mem_types {b : Option ImplHeader} {attrs : List AttrTree} {m : MemberBody}
    {d : Decl} (h : Decl.ofTree file b attrs m = .ok d) {t : TypeExpr} (ht : t ∈ d.types) :
    ∃ tree ∈ m.types, TypeExpr.ofTree file tree = t := by
  obtain ⟨as, -, h⟩ := bind_eq_ok_iff.1 h
  cases m with
  | const c =>
    cases h
    obtain rfl := List.mem_singleton.1 ht
    exact ⟨c.type, List.mem_singleton.2 rfl, rfl⟩
  | fn f =>
    obtain ⟨d, hd, h⟩ := bind_eq_ok_iff.1 h
    cases h
    obtain ⟨params, hparams, hd⟩ := bind_eq_ok_iff.1 hd
    cases hd
    rcases List.mem_append.1 ht with ht | ht
    · obtain ⟨p, hp, hpt⟩ := List.mem_filterMap.1 ht
      obtain ⟨pt, hpt', hof⟩ := exists_of_mem_mapM hparams hp
      rw [Param.type?_ofTree hof] at hpt
      obtain ⟨tree, htree, heq⟩ := Option.map_eq_some_iff.1 hpt
      exact ⟨tree, List.mem_append_left _ (List.mem_filterMap.2 ⟨pt, hpt', htree⟩), heq⟩
    · obtain ⟨r, hr, heq⟩ := Option.map_eq_some_iff.1 (Option.mem_toList.1 ht)
      refine ⟨r.2, List.mem_append_right _ ?_, heq⟩
      simp [hr]

theorem SourceItem.exists_of_mem_types {t : ItemTree} {i : SourceItem}
    (h : SourceItem.ofTree file t = .ok i) {type : TypeExpr} (htype : type ∈ i.types) :
    ∃ tree ∈ t.types, TypeExpr.ofTree file tree = type := by
  obtain ⟨m, d, hbody, rfl, hd⟩ | ⟨u, b, hbody, rfl, hb⟩ := ofTree_cases h
  · rw [ItemTree.types, hbody]
    exact Decl.exists_of_mem_types hd htype
  · rw [ItemTree.types, hbody]
    rcases List.mem_cons.1 htype with rfl | htype
    · refine ⟨u.head.subject, List.mem_cons_self, ?_⟩
      rw [hb.header]
      rfl
    · obtain ⟨d, hd, htype⟩ := List.mem_flatMap.1 htype
      obtain ⟨m, hm, hd⟩ := exists_of_mem_mapM hb.members hd
      obtain ⟨tree, htree, heq⟩ := Decl.exists_of_mem_types hd htype
      exact ⟨tree, List.mem_cons_of_mem _ (List.mem_flatMap.2 ⟨m, hm, htree⟩), heq⟩

theorem SourceFile.legible_of_parse {text : String} {f : SourceFile}
    (h : SourceFile.parse text file = .ok f) : ∀ t ∈ f.types, t.Legible .type := by
  obtain ⟨ts, s, p, items, hreads, hfinish, -, hitems⟩ := SourceFile.exists_reads_of_parse h
  have hlegible : s.Legible file :=
    hreads.induct (fun _ _ _ => Grammar.State.feed_legible) Grammar.State.start_legible
  have hdeclared : Declared file (items.flatMap ItemTree.types) := by
    rw [State.finish?.eq_def] at hfinish
    split at hfinish <;> cases hfinish
    exact hlegible
  intro t ht
  obtain ⟨i, hi, ht⟩ := List.mem_flatMap.1 ht
  obtain ⟨tree, htree, hi⟩ := exists_of_mem_mapM hitems hi
  obtain ⟨type, htype, rfl⟩ := SourceItem.exists_of_mem_types hi ht
  exact hdeclared type (List.mem_flatMap.2 ⟨tree, htree, htype⟩)

end NativeBinding
