import NativeBinding.Proofs.Binding.ArgItems

/-!
What attributes contribute, and what a summary keeps of it: all marks in order, and every finding.
Without findings the marks are those of the items of the `args` lists.
-/

namespace NativeBinding

def Contribution.mark? : Contribution → Option ArgMark
  | mark m => some m
  | _ => none

theorem foldl_append {σ γ β : Type} {step : σ → γ → σ} {f : σ → List β} {g : γ → Option β}
    (h : ∀ s c, f (step s c) = f s ++ (g c).toList) (cs : List γ) (s : σ) :
    f (cs.foldl step s) = f s ++ cs.filterMap g := by
  induction cs generalizing s with
  | nil => simp
  | cons c cs ih =>
    rw [List.foldl_cons, ih, h, List.append_assoc]
    cases hc : g c <;> simp [hc]

namespace Summary

theorem take_marks (s : Summary) (c : Contribution) :
    (s.take c).marks = s.marks ++ c.mark?.toList := by
  cases c with
  | kind _ _ | name _ _ => simp only [take]; split <;> simp [report, Contribution.mark?]
  | signature _ _ => simp only [take]; split <;> simp [report, Contribution.mark?]
  | mark _ | docLine _ | deprecation _ | passthrough _ | finding _ =>
    simp [take, Contribution.mark?]

theorem take_findings (s : Summary) (c : Contribution) :
    ∃ fs, (s.take c).findings = s.findings ++ fs ∧ ∀ f, c = .finding f → f ∈ fs := by
  cases c with
  | kind _ _ | name _ _ => simp only [take]; split <;> simp [report]
  | signature _ _ => simp only [take]; split <;> simp [report]
  | mark _ | docLine _ | deprecation _ | passthrough _ => simp [take]
  | finding f => exact ⟨[f], rfl, fun _ h => by cases h; exact List.mem_singleton.2 rfl⟩

theorem foldl_take_findings (cs : List Contribution) (s : Summary) :
    ∃ fs, (cs.foldl take s).findings = s.findings ++ fs ∧ ∀ f, .finding f ∈ cs → f ∈ fs := by
  induction cs generalizing s with
  | nil => exact ⟨[], by simp, by simp⟩
  | cons c cs ih =>
    obtain ⟨gs, hgs, hmem⟩ := take_findings s c
    obtain ⟨fs, hfs, hrest⟩ := ih (s.take c)
    refine ⟨gs ++ fs, by rw [List.foldl_cons, hfs, hgs, List.append_assoc], fun f hf => ?_⟩
    rcases List.mem_cons.1 hf with hf | hf
    · exact List.mem_append_left _ (hmem f hf.symm)
    · exact List.mem_append_right _ (hrest f hf)

theorem checkName_marks (s : Summary) : s.checkName.marks = s.marks := by
  rw [checkName]
  split
  · split <;> rfl
  · rfl

theorem checkName_findings (s : Summary) : ∃ fs, s.checkName.findings = s.findings ++ fs := by
  rw [checkName]
  split
  · split
    · exact ⟨_, rfl⟩
    · exact ⟨[], by simp⟩
  · exact ⟨[], by simp⟩

theorem ofAttributes_marks (attrs : List Attribute) :
    (ofAttributes attrs).marks =
      (attrs.flatMap Attribute.contributions).filterMap Contribution.mark? := by
  rw [ofAttributes, checkName_marks, foldl_append take_marks]
  rfl

theorem no_finding_of_ofAttributes {attrs : List Attribute} (h : (ofAttributes attrs).findings = [])
    (f : Finding) : .finding f ∉ attrs.flatMap Attribute.contributions := by
  intro hf
  obtain ⟨gs, hgs⟩ := checkName_findings ((attrs.flatMap Attribute.contributions).foldl take {})
  obtain ⟨fs, hfs, hmem⟩ := foldl_take_findings (attrs.flatMap Attribute.contributions) {}
  rw [ofAttributes, hgs, hfs] at h
  have := hmem f hf
  simp_all

end Summary

namespace Attribute

theorem contributions_of_args {a : Attribute} {items : List AttrArg} (hname : a.name = "args")
    (hform : a.form = .list items) : a.contributions = argsContributions items := by
  have hdisabled : disabledTags.contains "args" = false := by decide
  have hlookup : dispatchTags.lookup "args" = none := by decide
  simp only [contributions, hname, hform, hdisabled, hlookup, Bool.false_eq_true, if_false]

theorem contributions_of_export {a : Attribute} {items : List AttrArg} (hname : a.name = "export")
    (hform : a.form = .list items) : a.contributions = items.map exportOption := by
  have hdisabled : disabledTags.contains "export" = false := by decide
  have hlookup : dispatchTags.lookup "export" = none := by decide
  simp only [contributions, hname, hform, hdisabled, hlookup, Bool.false_eq_true, if_false]

theorem exists_contributions_of_property {tag : String} (htag : tag = "getter" ∨ tag = "setter") :
    ∃ kind, ∀ {a : Attribute} {args : List AttrArg}, a.name = tag → a.form = .list args →
      a.contributions = (if a.inner then [.fail .innerProperty a.span] else []) ++
        [.kind kind a.path.span, a.propertyName args] := by
  have hproperty : propertyTags.contains tag := by simpa [propertyTags] using htag
  have hkind : ∃ kind, ∀ a : Attribute, a.name = tag → a.contributions = a.kindTag kind none := by
    rcases htag with rfl | rfl
    · exact ⟨.getter, fun a hname => by rw [contributions, hname]; rfl⟩
    · exact ⟨.setter, fun a hname => by rw [contributions, hname]; rfl⟩
  obtain ⟨kind, hkind⟩ := hkind
  refine ⟨kind, fun hname hform => ?_⟩
  rw [hkind _ hname, kindTag.eq_def]
  simp only [hname, hform, hproperty, Bool.true_and, if_true, List.nil_append]

theorem contributions_of_argItems {a : Attribute} (h : a.argItems ≠ []) :
    a.contributions = argsContributions a.argItems := by
  rw [argItems] at h ⊢
  split at h
  · next items hname hform => exact contributions_of_args hname hform
  · contradiction

def isDoc (a : Attribute) : Bool :=
  match a.name, a.form with
  | "doc", .value ⟨.str _, _⟩ => true
  | _, _ => false

theorem propertyName_spec (a : Attribute) (args : List AttrArg) :
    (∃ n span, a.propertyName args = .name n span) ∨ ∃ f, a.propertyName args = .finding f := by
  rw [propertyName.eq_def]
  split
  · split
    · exact .inl ⟨_, _, rfl⟩
    · exact .inr ⟨_, rfl⟩
  · split
    · exact .inr ⟨_, rfl⟩
    · split
      · exact .inl ⟨_, _, rfl⟩
      · exact .inr ⟨_, rfl⟩
  · exact .inr ⟨_, rfl⟩
  · exact .inr ⟨_, rfl⟩

theorem exportOption_spec (arg : AttrArg) :
    (∃ n span, exportOption arg = .name n span) ∨ ∃ f, exportOption arg = .finding f := by
  rw [exportOption.eq_def]
  split
  · split
    · split
      · exact .inl ⟨_, _, rfl⟩
      · exact .inr ⟨_, rfl⟩
    · exact .inr ⟨_, rfl⟩
  · exact .inr ⟨_, rfl⟩
  · exact .inr ⟨_, rfl⟩

theorem mem_argsContributions {items : List AttrArg} {c : Contribution}
    (h : c ∈ argsContributions items) : (∃ m, c = .mark m) ∨ ∃ f, c = .finding f := by
  obtain ⟨o, -, ho⟩ := List.mem_filterMap.1 h
  cases o with
  | mark m => exact .inl ⟨m, (Option.some.inj ho).symm⟩
  | separator => cases ho
  | fault f => exact .inr ⟨f, (Option.some.inj ho).symm⟩

theorem kindTag_some (a : Attribute) (kind : Dispatch) (other : String) :
    a.kindTag kind (some other) =
      .deprecation s!"`#[{a.name}]` is deprecated; use `{other}` instead" :: a.kindTag kind none :=
  rfl

theorem kind_mem_kindTag (a : Attribute) (kind : Dispatch) :
    .kind kind a.path.span ∈ a.kindTag kind none := by
  rw [kindTag.eq_def]
  refine List.mem_append_right _ ?_
  split
  · simp
  · split
    · simp
    · split <;> simp
  · simp

theorem mem_kindTag {a : Attribute} {kind : Dispatch} {c : Contribution}
    (h : c ∈ a.kindTag kind none) : c = .kind kind a.path.span ∨ (∃ n span, c = .name n span) ∨
      ∃ f, c = .finding f := by
  rw [kindTag.eq_def] at h
  rcases List.mem_append.1 h with h | h
  · simp only [List.nil_append] at h
    split at h
    · exact .inr (.inr ⟨_, List.mem_singleton.1 h⟩)
    · cases h
  · split at h
    · simp only [List.mem_cons, List.not_mem_nil, or_false] at h
      exact h.symm.imp_right fun h => .inr ⟨_, h⟩
    · next args _ =>
      split at h
      · simp only [List.mem_cons, List.not_mem_nil, or_false] at h
        refine h.imp_right fun h => ?_
        rw [h]
        exact a.propertyName_spec args
      · split at h
        · exact .inl (List.mem_singleton.1 h)
        · simp only [List.mem_cons, List.not_mem_nil, or_false] at h
          exact h.symm.imp_right fun h => .inr ⟨_, h⟩
    · exact .inl (List.mem_singleton.1 h)

/-- What an attribute can contribute. -/
inductive Contributes (a : Attribute) : List Contribution → Prop
  | disabled (f : Finding) : Contributes a [.finding f]
  | tag (kind : Dispatch) : Contributes a (a.kindTag kind none)
  | formerTag (kind : Dispatch) (other : String) (hforced : kind.rules.forcedName?.isSome) :
      Contributes a (a.kindTag kind (some other))
  | args : Contributes a (argsContributions a.argItems)
  | options (items : List AttrArg) : Contributes a (items.map exportOption)
  | formerName (notice name : String) : Contributes a [.deprecation notice, .name name a.span]
  | malformedName (f : Finding) : Contributes a [.finding f]
  | signature (r : Option SignatureRequest) : Contributes a [.signature r a.span]
  | docLine (line : String) (hdoc : a.isDoc) : Contributes a [.docLine line]
  | other : Contributes a [.passthrough a]

/-- The deprecated tags all force a name. -/
theorem forcedName_of_replacement {tag other : String} {kind : Dispatch}
    (h : dispatchTags.lookup tag = some (kind, some other)) : kind.rules.forcedName?.isSome := by
  have hall : ∀ e ∈ dispatchTags, e.2.2.isSome → e.2.1.rules.forcedName?.isSome := by decide
  obtain ⟨l₁, l₂, heq, -⟩ := List.lookup_eq_some_iff.1 h
  exact hall (tag, kind, some other) (by rw [heq]; simp) rfl

theorem contributes (a : Attribute) : a.Contributes a.contributions := by
  rw [contributions]
  split
  · exact .disabled _
  · split
    · next kind replacement h =>
      cases replacement with
      | none => exact .tag kind
      | some other => exact .formerTag kind other (forcedName_of_replacement h)
    · split
      · next items hname hform =>
        have hitems : a.argItems = items := by simp only [argItems, hname, hform]
        exact hitems ▸ .args
      · exact .options _
      · rw [formerName]
        split
        · exact .formerName _ _
        · exact .malformedName _
      · rw [signatureContribution]
        split
        · exact .signature _
        · exact .signature _
        · exact .signature _
      · next hname hform => exact .docLine _ (by simp [isDoc, hname, hform])
      · exact .other

theorem mark_mem_contributions {a : Attribute} {m : ArgMark} (h : .mark m ∈ a.contributions) :
    .mark m ∈ argsContributions a.argItems := by
  have hcontributes := a.contributes
  generalize a.contributions = cs at h hcontributes
  cases hcontributes with
  | args => exact h
  | tag kind => simpa using mem_kindTag h
  | formerTag kind other =>
    rw [kindTag_some] at h
    simpa using mem_kindTag ((List.mem_cons.1 h).resolve_left nofun)
  | options items =>
    obtain ⟨arg, -, hoption⟩ := List.mem_map.1 h
    rcases exportOption_spec arg with ⟨n, span, hname⟩ | ⟨f, hfinding⟩
    · rw [hname] at hoption
      cases hoption
    · rw [hfinding] at hoption
      cases hoption
  | disabled _ | formerName _ _ | malformedName _ | signature _ | docLine _ _ | other => simp at h

end Attribute

theorem Attribute.filterMap_mark?_contributions (a : Attribute) :
    a.contributions.filterMap Contribution.mark? =
      (readArgs a.argItems).filterMap ItemOutcome.mark? := by
  cases hitems : a.argItems with
  | nil =>
    rw [readArgs, ArgsState.readAll, List.filterMap_nil, List.filterMap_eq_nil_iff]
    intro c hc
    cases c with
    | mark m =>
      have hmark := mark_mem_contributions hc
      rw [hitems] at hmark
      cases hmark
    | _ => rfl
  | cons item items =>
    rw [← hitems, contributions_of_argItems (by simp [hitems]), argsContributions,
      List.filterMap_filterMap]
    congr 1
    funext o
    cases o <;> rfl

namespace Summary

variable {attrs : List Attribute}

theorem marks_eq (attrs : List Attribute) : (ofAttributes attrs).marks =
    attrs.flatMap fun a => (readArgs a.argItems).filterMap ItemOutcome.mark? := by
  rw [ofAttributes_marks, List.filterMap_flatMap]
  exact congrArg attrs.flatMap (funext Attribute.filterMap_mark?_contributions)

theorem no_fault_of_ofAttributes (h : (ofAttributes attrs).findings = []) {a : Attribute}
    (ha : a ∈ attrs) (f : Finding) : .fault f ∉ readArgs a.argItems := by
  intro hf
  cases hitems : a.argItems with
  | nil =>
    rw [hitems] at hf
    cases hf
  | cons item items =>
    refine no_finding_of_ofAttributes h f (List.mem_flatMap.2 ⟨a, ha, ?_⟩)
    rw [Attribute.contributions_of_argItems (by simp [hitems])]
    exact List.mem_filterMap.2 ⟨_, hf, rfl⟩

end Summary

def itemNames (attrs : List Attribute) : List String :=
  attrs.flatMap fun a => a.argItems.filterMap AttrArg.param?

theorem Summary.marks_map_name {attrs : List Attribute}
    (h : (Summary.ofAttributes attrs).findings = []) :
    (Summary.ofAttributes attrs).marks.map ArgMark.name = itemNames attrs := by
  rw [marks_eq, List.map_flatMap, itemNames]
  refine List.flatMap_congr fun a ha => ?_
  exact ArgsState.names_readAll (no_fault_of_ofAttributes h ha)

def starredNames (attrs : List Attribute) : List String :=
  attrs.flatMap fun a => a.argItems.filterMap AttrArg.starred?

theorem Summary.starred_mark_iff {attrs : List Attribute}
    (h : (Summary.ofAttributes attrs).findings = []) (name : String) :
    (∃ m ∈ (Summary.ofAttributes attrs).marks, m.name = name ∧ m.role = .variadicPositional) ↔
      name ∈ starredNames attrs := by
  rw [marks_eq, starredNames]
  simp only [List.mem_flatMap, List.mem_filterMap]
  constructor
  · rintro ⟨m, ⟨a, ha, o, ho, hmark⟩, rfl, hrole⟩
    obtain ⟨item, hitem, s, rfl⟩ := ArgsState.mem_readAll ho
    refine ⟨a, ha, item, hitem, ?_⟩
    have hmeans := s.read_means item
    cases hread : s.read item with
    | mark m' =>
      rw [hread] at hmark hmeans
      obtain rfl := Option.some.inj hmark
      cases hmeans with
      | mark _ hname hrole' hdefault =>
        exact AttrArg.starred?_eq_some_iff.2 ⟨hname, AttrArg.text?_of_roleIf (hrole' ▸ hrole)⟩
    | _ => simp [hread, ItemOutcome.mark?] at hmark
  · rintro ⟨a, ha, item, hitem, hstar⟩
    obtain ⟨hname, htext⟩ := AttrArg.starred?_eq_some_iff.1 hstar
    obtain ⟨before, after, hsplit⟩ := List.append_of_mem hitem
    have hfault := no_fault_of_ofAttributes h ha
    rw [hsplit] at hfault
    obtain ⟨m, hm, hname', hrole, -⟩ := ArgsState.exists_mark_of_split hfault
      (AttrArg.isSeparator_of_param? hname)
    refine ⟨m, ⟨a, ha, _, hsplit ▸ hm, rfl⟩, Option.some.inj (hname'.symm.trans hname), ?_⟩
    rw [hrole, AttrArg.roleIf, if_pos htext]

end NativeBinding
