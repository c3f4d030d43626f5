import NativeBinding.Proofs.Binding.Tags
import NativeBinding.Proofs.Decl.Source

/-!
Names of property accessors. A name inside `#[getter(...)]` or `#[setter(...)]` is tested as a whole
but for a line feed at its end, and what a stem leaves of the name of a function is only tested for
being there. So the external name is an identifier unless one of these two shows.
-/

namespace NativeBinding

open Grammar (IsIdent IsName isIdentRest isName_cons_iff)

theorem isPropertyName_iff {n : String} : isPropertyName n ↔
    IsIdent n.toList ∨ ∃ w, IsIdent w ∧ n.toList = w ++ ['\n'] := by
  simp only [isPropertyName, Bool.or_eq_true, Bool.and_eq_true, beq_iff_eq,
    Grammar.identLength_eq_length_iff]
  refine or_congr_right ⟨?_, ?_⟩
  · rintro ⟨hlast, hfront⟩
    obtain ⟨w, hn⟩ := List.getLast?_eq_some_iff.1 hlast
    rw [hn, List.dropLast_concat] at hfront
    exact ⟨w, hfront, hn⟩
  · rintro ⟨w, hw, hn⟩
    rw [hn, List.dropLast_concat]
    exact ⟨List.getLast?_concat, hw⟩

theorem toList_unraw_append {n : String} {w rest : List Char} (hn : n.toList = w ++ rest)
    (hw : IsIdent w) (hrest : rest.head? ≠ some '#') :
    ∃ w', IsName w' ∧ (unraw n).toList = w' ++ rest := by
  rcases hw with hw | ⟨w', rfl, hw'⟩
  · refine ⟨w, hw, ?_⟩
    rw [unraw]
    split
    · next heq => exact absurd (hn.symm.trans heq) (hw.append_ne_raw (fun _ => hrest) _)
    · exact hn
  · refine ⟨w', hw', ?_⟩
    rw [unraw, hn]
    simp

/-- A name that passes the test is a name without its raw mark, up to a line feed at its end. -/
theorem unraw_of_isPropertyName {n : String} (h : isPropertyName n) :
    ∃ w, IsName w ∧
      (unraw n).toList = if n.toList.getLast? = some '\n' then w ++ ['\n'] else w := by
  rcases isPropertyName_iff.1 h with hn | ⟨w, hw, hn⟩
  · have hlast : n.toList.getLast? ≠ some '\n' := fun hlast =>
      hn.not_mem (by decide) (by decide) (List.mem_of_mem_getLast? hlast)
    exact ⟨_, isName_unraw hn, (if_neg hlast).symm⟩
  · obtain ⟨w', hw', htext⟩ := toList_unraw_append hn hw (by decide)
    exact ⟨w', hw', by rw [htext, hn, List.getLast?_concat, if_pos rfl]⟩

def AttrArg.assignsName : AttrArg → Bool
  | assign p _ _ => p.segments == ["name"]
  | path _ | literal _ => false

def Attribute.isNameOverride (a : Attribute) : Bool :=
  match a.form with
  | .word => false
  | .value _ => a.name == "name"
  | .list args => a.name == "export" && args.any AttrArg.assignsName

namespace Attribute

variable {a : Attribute} {n : String}

theorem mem_givenNames (h : n ∈ a.givenNames) (hoverride : a.isNameOverride = false) :
    (a.name = "getter" ∨ a.name = "setter") ∧
      ∃ args, a.form = .list args ∧ n ∈ args.filterMap AttrArg.bareName? := by
  rw [givenNames] at h
  rw [isNameOverride] at hoverride
  split at h
  · cases h
  · next l hform =>
    have hname : a.name ≠ "name" := by simpa [hform] using hoverride
    rw [if_neg hname] at h
    cases h
  · next args hform =>
    split at h
    · next htag => exact ⟨htag, args, hform, h⟩
    · split at h
      · next hexport =>
        obtain ⟨arg, harg, hvalue⟩ := List.mem_filterMap.1 h
        simp only [hform, hexport, beq_self_eq_true, Bool.true_and, List.any_eq_false] at hoverride
        cases arg with
        | assign p value span =>
          have hsegments : p.segments ≠ ["name"] := by
            simpa [AttrArg.assignsName] using hoverride _ harg
          simp [AttrArg.namedValue?, hsegments] at hvalue
        | path p => cases hvalue
        | literal l => cases hvalue
      · cases h

theorem propertyName_mem_contributions {args : List AttrArg}
    (htag : a.name = "getter" ∨ a.name = "setter") (hform : a.form = .list args) :
    a.propertyName args ∈ a.contributions := by
  obtain ⟨kind, hkind⟩ := exists_contributions_of_property htag
  rw [hkind rfl hform]
  simp

theorem isPropertyName_of_propertyName {args : List AttrArg} {span : Span}
    (h : a.propertyName args = .name n span) :
    isPropertyName n ∨ ∃ p, .path p ∈ args ∧ p.segments = [n] := by
  rw [propertyName.eq_def] at h
  split at h
  · next p =>
    split at h
    · next hsegments =>
      cases h
      exact .inr ⟨p, List.mem_singleton_self _, hsegments⟩
    · cases h
  · split at h
    · cases h
    · split at h
      · next hname =>
        cases h
        exact .inl hname
      · cases h
  · cases h
  · cases h

theorem isPropertyName_of_mem_givenNames (h : n ∈ a.givenNames)
    (hoverride : a.isNameOverride = false) (hfindings : ∀ f, .finding f ∉ a.contributions)
    (hsegments : ∀ {args p s}, a.form = .list args → .path p ∈ args → s ∈ p.segments →
      IsIdent s.toList) : isPropertyName n := by
  obtain ⟨htag, args, hform, hn⟩ := mem_givenNames h hoverride
  have hmem := propertyName_mem_contributions htag hform
  rcases a.propertyName_spec args with ⟨n', span, hname⟩ | ⟨f, hfinding⟩
  · rw [filterMap_bareName? hname, List.mem_singleton] at hn
    obtain rfl := hn
    rcases isPropertyName_of_propertyName hname with htested | ⟨p, hp, hpath⟩
    · exact htested
    · refine isPropertyName_iff.2 (.inl (hsegments hform hp ?_))
      rw [hpath]
      exact List.mem_singleton_self _
  · exact absurd (hfinding ▸ hmem) (hfindings f)

end Attribute

theorem ExternallyNamed.of_property {kind : Dispatch} {given : Option String}
    {native name stem : String} (h : ExternallyNamed kind given native name)
    (hkind : kind = .getter ∧ stem = "get_" ∨ kind = .setter ∧ stem = "set_") :
    (∃ n, given = some n ∧ name = unraw n) ∨
      given = none ∧ (unraw native = stem ++ name ∧ name ≠ "" ∨
        name = unraw native ∧ ∀ rest, unraw native ≠ stem ++ rest) := by
  cases h with
  | constructor h | callOperator h => rcases hkind with ⟨rfl, -⟩ | ⟨rfl, -⟩ <;> cases h
  | given _ hgiven => exact .inl ⟨_, hgiven, rfl⟩
  | property hgiven hstem hnative hrest =>
    refine .inr ⟨hgiven, .inl ⟨?_, hrest⟩⟩
    rcases hkind with ⟨rfl, rfl⟩ | ⟨rfl, rfl⟩
    · obtain ⟨-, rfl⟩ := hstem.resolve_right fun hsetter => nomatch hsetter.1
      exact hnative
    · obtain ⟨-, rfl⟩ := hstem.resolve_left fun hgetter => nomatch hgetter.1
      exact hnative
  | own hgiven _ hgetter hsetter =>
    refine .inr ⟨hgiven, .inr ⟨rfl, ?_⟩⟩
    rcases hkind with ⟨rfl, rfl⟩ | ⟨rfl, rfl⟩
    · exact hgetter rfl
    · exact hsetter rfl

/-- Characters of names, one at least, and at most one line feed behind them. -/
def IsWordLine (cs : List Char) : Prop :=
  ∃ w, w ≠ [] ∧ (∀ c ∈ w, isIdentRest c) ∧ (cs = w ∨ cs = w ++ ['\n'])

theorem Grammar.IsName.isWordLine {w : List Char} (h : IsName w) {cs : List Char}
    (hcs : cs = w ∨ cs = w ++ ['\n']) : IsWordLine cs := by
  refine ⟨w, ?_, h.forall_rest, hcs⟩
  obtain ⟨c, cs, rfl, -⟩ := h
  exact List.cons_ne_nil c cs

theorem not_isName_line {w : List Char} : ¬ IsName (w ++ ['\n']) := fun h =>
  absurd (h.forall_rest '\n' (List.mem_append_right _ (List.mem_singleton_self _))) (by decide)

theorem isName_of_isPropertyName {n : String} (h : isPropertyName n) :
    IsWordLine (unraw n).toList ∧
      (IsName (unraw n).toList ↔ n.toList.getLast? ≠ some '\n') := by
  obtain ⟨w, hw, htext⟩ := unraw_of_isPropertyName h
  rw [htext]
  split
  · next hlast => exact ⟨hw.isWordLine (.inr rfl), iff_of_false not_isName_line (absurd hlast)⟩
  · next hlast => exact ⟨hw.isWordLine (.inl rfl), iff_of_true hw hlast⟩

theorem isName_behind_stem {stem rest : String} (h : IsName (stem ++ rest).toList)
    (hne : rest ≠ "") : IsWordLine rest.toList ∧
      (IsName rest.toList ↔ ¬ rest.toList.head?.any Char.isDigit) := by
  have hall : ∀ c ∈ rest.toList, isIdentRest c := by
    intro c hc
    refine h.forall_rest c ?_
    rw [String.toList_append]
    exact List.mem_append_right _ hc
  have hrest : rest.toList ≠ [] := by simpa using hne
  refine ⟨⟨_, hrest, hall, .inl rfl⟩, ?_⟩
  obtain ⟨c, cs, heq⟩ := List.exists_cons_of_ne_nil hrest
  rw [heq] at hall ⊢
  rw [isName_cons_iff hall]
  simp

theorem FnDecl.isPropertyName_of_mem_givenNames {text : String} {file : Option String}
    {f : SourceFile} (hparse : SourceFile.parse text file = .ok f) {d : FnDecl}
    (hd : .fn d ∈ f.declarations) (hsummary : (Summary.ofAttributes d.attrs).findings = [])
    (hoverride : ∀ a ∈ d.attrs, a.isNameOverride = false) {n : String}
    (hn : n ∈ givenNames d.attrs) : isPropertyName n := by
  obtain ⟨a, ha, hn⟩ := List.mem_flatMap.1 hn
  have hfindings : ∀ f, .finding f ∉ a.contributions := fun f hf =>
    Summary.no_finding_of_ofAttributes hsummary f (List.mem_flatMap.2 ⟨a, ha, hf⟩)
  exact Attribute.isPropertyName_of_mem_givenNames hn (hoverride a ha) hfindings
    fun hform hp hs => Decl.isIdent_segment_of_parse hparse hd ha hform hp hs

/-- The external name of an accessor whose name stands in no option is an identifier, unless a given
name ends in a line feed or, without one, a digit follows the stem of the native name. -/
theorem SourceFile.isName_externalName_iff {text : String} {file : Option String} {f : SourceFile}
    (hparse : SourceFile.parse text file = .ok f) {d : FnDecl} (hd : .fn d ∈ f.declarations)
    {types : List String} {plan : CallPlan} (h : d.verdict types = .accepted plan) {stem : String}
    (hkind : plan.dispatch = .getter ∧ stem = "get_" ∨ plan.dispatch = .setter ∧ stem = "set_")
    (hoverride : ∀ a ∈ d.attrs, a.isNameOverride = false) :
    IsWordLine plan.externalName.toList ∧
      (IsName plan.externalName.toList ↔
        (∀ n ∈ givenNames d.attrs, n.toList.getLast? ≠ some '\n') ∧
        (givenNames d.attrs = [] → ∀ rest, unraw d.name = stem ++ rest →
          ¬ rest.toList.head?.any Char.isDigit)) := by
  have hnative : IsName (unraw d.name).toList :=
    isName_unraw (FnDecl.isIdent_of_parse hparse hd).1
  have haccepted := (Decl.verdict_fn types d).trans h
  have hsummary : (Summary.ofAttributes d.attrs).findings = [] :=
    (FnDecl.verdict_eq_accepted_iff.1 h).1.summary
  have hnamed : ExternallyNamed plan.dispatch (givenNames d.attrs).head? d.name plan.externalName :=
    Decl.externallyNamed_of_accepted haccepted
  rcases hnamed.of_property hkind with ⟨n, hgiven, hname⟩ | ⟨hgiven, hname⟩
  · -- There is one given name, and it has passed the test.
    have hnames : givenNames d.attrs = [n] := by
      have hlength := Summary.length_givenNames_le hsummary
      obtain ⟨ns, hns⟩ := List.head?_eq_some_iff.1 hgiven
      rw [hns] at hlength ⊢
      simpa using hlength
    have htested : isPropertyName n := FnDecl.isPropertyName_of_mem_givenNames hparse hd hsummary
      hoverride (hnames ▸ List.mem_singleton_self n)
    obtain ⟨hline, hiff⟩ := isName_of_isPropertyName htested
    rw [hname, hnames]
    exact ⟨hline, hiff.trans ⟨fun hlast => ⟨by simpa using hlast, nofun⟩,
      fun hfree => hfree.1 n (List.mem_singleton_self n)⟩⟩
  · have hnames : givenNames d.attrs = [] := List.head?_eq_none_iff.1 hgiven
    rw [hnames]
    rcases hname with ⟨hstem, hne⟩ | ⟨hown, hstem⟩
    · obtain ⟨hline, hiff⟩ := isName_behind_stem (hstem ▸ hnative) hne
      refine ⟨hline, hiff.trans ⟨fun hdigit => ⟨nofun, fun _ rest hrest => ?_⟩, fun hfree =>
        hfree.2 rfl _ hstem⟩⟩
      have hsame : stem.toList ++ plan.externalName.toList = stem.toList ++ rest.toList := by
        rw [← String.toList_append, ← String.toList_append, ← hstem, hrest]
      rwa [← List.append_cancel_left hsame]
    · rw [hown]
      exact ⟨hnative.isWordLine (.inl rfl),
        iff_of_true hnative ⟨nofun, fun _ rest hrest => absurd hrest (hstem rest)⟩⟩

def accessorName (found : FnDecl × CallPlan) : Dispatch × Bool × String :=
  (found.2.dispatch, found.1.attrs.any Attribute.isNameOverride, found.2.externalName)

theorem SourceFile.isName_externalName_of_letter : ∃ f d plan,
    SourceFile.parse "impl A \x7b #[getter] fn r#get_x1(&self) -> usize; \x7d" = .ok f ∧
    .fn d ∈ f.declarations ∧ d.verdict defaultContextTypes = .accepted plan ∧
    (plan.dispatch = .getter ∧ "get_" = "get_" ∨ plan.dispatch = .setter ∧ "get_" = "set_") ∧
    (∀ a ∈ d.attrs, a.isNameOverride = false) ∧ plan.externalName = "x1" ∧
    (IsName plan.externalName.toList ↔
      (∀ n ∈ givenNames d.attrs, n.toList.getLast? ≠ some '\n') ∧
      (givenNames d.attrs = [] → ∀ rest, unraw d.name = "get_" ++ rest →
        ¬ rest.toList.head?.any Char.isDigit)) := by
  have hname : (acceptedFn? "impl A \x7b #[getter] fn r#get_x1(&self) -> usize; \x7d").map
      accessorName = some (.getter, false, "x1") := by decide +kernel
  obtain ⟨⟨d, plan⟩, hfound, hplan⟩ := Option.map_eq_some_iff.1 hname
  obtain ⟨f, hf, hd, h⟩ := exists_of_acceptedFn? hfound
  simp only [accessorName, Prod.mk.injEq, List.any_eq_false, Bool.not_eq_true] at hplan
  obtain ⟨hdispatch, hoverride, hexternal⟩ := hplan
  have hkind : plan.dispatch = .getter ∧ "get_" = "get_" ∨
      plan.dispatch = .setter ∧ "get_" = "set_" := .inl ⟨hdispatch, rfl⟩
  exact ⟨f, d, plan, hf, hd, h, hkind, hoverride, hexternal,
    (SourceFile.isName_externalName_iff hf hd h hkind hoverride).2⟩

def SourceFile.MisnamesGetter (text : String) : Prop :=
  ∃ f d plan, SourceFile.parse text = .ok f ∧ .fn d ∈ f.declarations ∧
    d.verdict defaultContextTypes = .accepted plan ∧ plan.dispatch = .getter ∧
    (∀ a ∈ d.attrs, a.isNameOverride = false) ∧ ¬ IsName plan.externalName.toList

theorem SourceFile.misnamesGetter_of_accepted {text name : String}
    (hshown : (acceptedFn? text).map accessorName = some (.getter, false, name))
    (hname : ¬ IsName name.toList) : MisnamesGetter text := by
  obtain ⟨⟨d, plan⟩, hfound, hplan⟩ := Option.map_eq_some_iff.1 hshown
  obtain ⟨f, hf, hd, h⟩ := exists_of_acceptedFn? hfound
  simp only [accessorName, Prod.mk.injEq, List.any_eq_false, Bool.not_eq_true] at hplan
  obtain ⟨hdispatch, hoverride, rfl⟩ := hplan
  exact ⟨f, d, plan, hf, hd, h, hdispatch, hoverride, hname⟩

theorem SourceFile.not_isName_externalName :
    MisnamesGetter "#[getter(\"x\\n\")] fn f(&self);" ∧
      MisnamesGetter "#[getter] fn get_1x(&self);" := by
  constructor
  · refine @misnamesGetter_of_accepted _ "x\n" (by decide +kernel) ?_
    rw [show "x\n".toList = ['x'] ++ ['\n'] by simp]
    exact not_isName_line
  · refine @misnamesGetter_of_accepted _ "1x" (by decide +kernel) ?_
    have hrest : ['1', 'x'].all isIdentRest := by decide
    rw [show "1x".toList = ['1', 'x'] by simp, isName_cons_iff (List.all_eq_true.1 hrest)]
    decide

end NativeBinding
