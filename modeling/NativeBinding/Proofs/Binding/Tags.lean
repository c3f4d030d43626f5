import NativeBinding.Proofs.Binding.Constants
import NativeBinding.Proofs.Binding.Parameters
import NativeBinding.Proofs.Binding.Summaries

/-!
What the attributes of an accepted declaration settle. Its kind of dispatch is that of its one tag,
its external name that of its one name unless the kind forces another, and it has a signature if one
was asked for. Tags, names and requests are read off the attributes here, without classification.
-/

namespace NativeBinding

def AttrArg.bareName? : AttrArg → Option String
  | path p =>
      match p.segments with
      | [name] => some name
      | _ => none
  | literal l => l.str?
  | assign .. => none

def AttrArg.namedValue? : AttrArg → Option String
  | assign p value _ => if p.segments = ["name"] then value.str? else none
  | _ => none

namespace Attribute

/-- The kind that an attribute asks for. -/
def tagKind? (a : Attribute) : Option Dispatch :=
  match a.name with
  | "new" | "__new__" => some .constructor
  | "call" | "__call__" => some .callOperator
  | "classmethod" => some .classMethod
  | "staticmethod" => some .staticMethod
  | "classattr" => some .classAttribute
  | "getter" => some .getter
  | "setter" => some .setter
  | _ => none

def givenNames (a : Attribute) : List String :=
  match a.form with
  | .word => []
  | .value l => if a.name = "name" then l.str?.toList else []
  | .list args =>
      if a.name = "getter" ∨ a.name = "setter" then args.filterMap AttrArg.bareName?
      else if a.name = "export" then args.filterMap AttrArg.namedValue?
      else []

/-- Whether classification knows an attribute, by its name and its form. -/
def isKnown (a : Attribute) : Bool :=
  disabledTags.contains a.name || a.tagKind?.isSome || a.name == "text_signature" ||
    match a.form with
    | .word => false
    | .list _ => a.name == "args" || a.name == "export"
    | .value l => a.name == "name" || (a.name == "doc" && l.str?.isSome)

end Attribute

def tagKinds (attrs : List Attribute) : List Dispatch :=
  attrs.filterMap Attribute.tagKind?

def givenNames (attrs : List Attribute) : List String :=
  attrs.flatMap Attribute.givenNames

def RequestsSignature (attrs : List Attribute) : Prop :=
  ∃ a ∈ attrs, a.name = "text_signature"

namespace Attribute

open Contribution

theorem lookup_dispatchTags (a : Attribute) :
    (dispatchTags.lookup a.name).map (·.1) = a.tagKind? := by
  rw [tagKind?]
  split
  case h_10 =>
    rw [Option.map_eq_none_iff, List.lookup_eq_none_iff]
    simp only [dispatchTags, List.forall_mem_cons]
    simp_all
  all_goals simp_all [dispatchTags, List.lookup_cons]

inductive Sorts (a : Attribute) : List Contribution → Prop
  | disabled (hname : a.name ∈ disabledTags) : Sorts a [.finding ⟨.initDisabled, a.span⟩]
  | tag (kind : Dispatch) (replacement : Option String) (hkind : a.tagKind? = some kind) :
      Sorts a (a.kindTag kind replacement)
  | args (items : List AttrArg) (hname : a.name = "args") (hform : a.form = .list items) :
      Sorts a (argsContributions items)
  | options (items : List AttrArg) (hname : a.name = "export") (hform : a.form = .list items) :
      Sorts a (items.map exportOption)
  | formerName (l : Literal) (hname : a.name = "name") (hform : a.form = .value l) :
      Sorts a (a.formerName l)
  | signature (hname : a.name = "text_signature") : Sorts a [a.signatureContribution]
  | docLine (line : String) (span : Span) (hname : a.name = "doc")
      (hform : a.form = .value ⟨.str line, span⟩) : Sorts a [.docLine line]
  | other (hknown : a.isKnown = false) : Sorts a [.passthrough a]

theorem sorts (a : Attribute) : a.Sorts a.contributions := by
  have hkind := a.lookup_dispatchTags
  rw [contributions]
  split
  · next hdisabled => exact .disabled (List.contains_iff_mem.1 hdisabled)
  · next hdisabled =>
    split
    · next kind replacement hlookup =>
      rw [hlookup] at hkind
      exact .tag kind replacement hkind.symm
    · next hlookup =>
      rw [hlookup, Option.map_none] at hkind
      split
      · next hname hform => exact .args _ hname hform
      · next hname hform => exact .options _ hname hform
      · next hname hform => exact .formerName _ hname hform
      · next hname => exact .signature hname
      · next hname hform => exact .docLine _ _ hname hform
      · next hargs hexport hformer hsigned hdoc =>
        refine .other ?_
        rw [isKnown, ← hkind]
        cases hform : a.form with
        | word => simp_all
        | list args => simp_all
        | value l =>
          obtain ⟨value, span⟩ := l
          cases value <;> simp_all [Literal.str?]

theorem tagKind?_eq_none {a : Attribute}
    (h : a.name ∈ disabledTags ++ ["args", "export", "name", "text_signature", "doc"]) :
    a.tagKind? = none := by
  rw [← lookup_dispatchTags, Option.map_eq_none_iff]
  have hothers : ∀ tag ∈ disabledTags ++ ["args", "export", "name", "text_signature", "doc"],
      dispatchTags.lookup tag = none := by decide
  exact hothers a.name h

theorem filterMap_bareName? {a : Attribute} {args : List AttrArg} {n : String} {span : Span}
    (h : a.propertyName args = .name n span) : args.filterMap AttrArg.bareName? = [n] := by
  rw [propertyName.eq_def] at h
  split at h
  · split at h
    · next hsegments =>
      cases h
      simp [AttrArg.bareName?, hsegments]
    · cases h
  · split at h
    · cases h
    · next hstr =>
      split at h <;> cases h
      simp [AttrArg.bareName?, hstr]
  · cases h
  · cases h

theorem namedValue?_of_exportOption {arg : AttrArg} {n : String} {span : Span}
    (h : exportOption arg = .name n span) : arg.namedValue? = some n := by
  rw [exportOption.eq_def] at h
  split at h
  · split at h
    · next hname =>
      split at h <;> cases h
      simp_all [AttrArg.namedValue?]
    · cases h
  · cases h
  · cases h

theorem filterMap_kind?_kindTag (a : Attribute) (kind : Dispatch) (replacement : Option String) :
    (a.kindTag kind replacement).filterMap kind? = [(kind, a.path.span)] := by
  have hname (args : List AttrArg) : (a.propertyName args).kind? = none := by
    rcases a.propertyName_spec args with ⟨n, span, h⟩ | ⟨f, h⟩ <;> rw [h] <;> rfl
  have hcurrent : (a.kindTag kind none).filterMap kind? = [(kind, a.path.span)] := by
    have hinner : (if propertyTags.contains a.name && a.inner then
        [fail .innerProperty a.span] else []).filterMap kind? = [] := by
      split <;> rfl
    rw [kindTag.eq_def, List.filterMap_append, List.filterMap_append, hinner]
    simp only [List.filterMap_nil, List.nil_append]
    split
    · rfl
    · split
      · simp only [List.filterMap_cons, hname]
        rfl
      · split <;> rfl
    · rfl
  cases replacement with
  | none => exact hcurrent
  | some other => exact hcurrent

theorem filterMap_name?_kindTag {a : Attribute} {kind : Dispatch} {replacement : Option String}
    (h : ∀ f, .finding f ∉ a.kindTag kind replacement) :
    ((a.kindTag kind replacement).filterMap name?).map (·.1) =
      if a.name = "getter" ∨ a.name = "setter" then a.givenNames else [] := by
  have hproperty : propertyTags.contains a.name = true ↔ a.name = "getter" ∨ a.name = "setter" := by
    simp [propertyTags]
  have hcurrent (h : ∀ f, .finding f ∉ a.kindTag kind none) :
      ((a.kindTag kind none).filterMap name?).map (·.1) =
        if a.name = "getter" ∨ a.name = "setter" then a.givenNames else [] := by
    rw [kindTag.eq_def] at h ⊢
    simp only [List.nil_append, List.mem_append, not_or, forall_and] at h ⊢
    rw [if_neg fun hinner => h.1 ⟨_, _⟩ (by rw [if_pos hinner]; exact List.mem_singleton_self _)]
    have h := h.2
    split at h
    · exact absurd (List.mem_cons_self) (h _)
    · next args hform =>
      simp only [givenNames, hform, ← hproperty]
      split
      · next hproperty =>
        rw [if_pos hproperty] at h
        rcases a.propertyName_spec args with ⟨n, span, hname⟩ | ⟨f, hfinding⟩
        · rw [filterMap_bareName? hname, hname]
          rfl
        · simp [hfinding] at h
      · next hproperty =>
        rw [if_neg hproperty] at h
        split at h
        · rfl
        · exact absurd List.mem_cons_self (h _)
    · next hform =>
      simp [givenNames, hform, name?]
  cases replacement with
  | none => exact hcurrent h
  | some other =>
    exact hcurrent fun f hf => h f (List.mem_cons_of_mem _ hf)

theorem filterMap_eq_nil_of_mem_argsContributions {β : Type} {g : Contribution → Option β}
    (hmark : ∀ m, g (.mark m) = none) (hfinding : ∀ f, g (.finding f) = none)
    (items : List AttrArg) : (argsContributions items).filterMap g = [] := by
  rw [List.filterMap_eq_nil_iff]
  intro c hc
  rcases mem_argsContributions hc with ⟨m, rfl⟩ | ⟨f, rfl⟩
  · exact hmark m
  · exact hfinding f

section

variable {β : Type} {g : Contribution → Option β} {a : Attribute}

theorem filterMap_kindTag_eq_nil (hkind : ∀ k span, g (.kind k span) = none)
    (hname : ∀ n span, g (.name n span) = none) (hfinding : ∀ f, g (.finding f) = none)
    (hnotice : ∀ n, g (.deprecation n) = none) (kind : Dispatch) (replacement : Option String) :
    (a.kindTag kind replacement).filterMap g = [] := by
  have hcurrent : ∀ c ∈ a.kindTag kind none, g c = none := by
    intro c hc
    rcases mem_kindTag hc with rfl | ⟨n, span, rfl⟩ | ⟨f, rfl⟩
    · exact hkind _ _
    · exact hname n span
    · exact hfinding f
  rw [List.filterMap_eq_nil_iff]
  cases replacement with
  | none => exact hcurrent
  | some other =>
    rw [kindTag_some, List.forall_mem_cons]
    exact ⟨hnotice _, hcurrent⟩

theorem filterMap_exportOption_eq_nil (hname : ∀ n span, g (.name n span) = none)
    (hfinding : ∀ f, g (.finding f) = none) (items : List AttrArg) :
    (items.map exportOption).filterMap g = [] := by
  rw [List.filterMap_map, List.filterMap_eq_nil_iff]
  intro arg _
  rcases exportOption_spec arg with ⟨n, span, h⟩ | ⟨f, h⟩
  · exact (congrArg g h).trans (hname n span)
  · exact (congrArg g h).trans (hfinding f)

end

def kindRequest? (a : Attribute) : Option (Dispatch × Span) :=
  a.tagKind?.map (·, a.path.span)

theorem filterMap_kind?_contributions (a : Attribute) :
    a.contributions.filterMap kind? = a.kindRequest?.toList := by
  rw [kindRequest?, ← lookup_dispatchTags, contributions]
  split
  · next hdisabled =>
    have hlookup : ∀ tag ∈ disabledTags, dispatchTags.lookup tag = none := by decide
    rw [hlookup a.name (List.contains_iff_mem.1 hdisabled)]
    rfl
  · split
    · next hlookup =>
      rw [filterMap_kind?_kindTag, hlookup]
      rfl
    · next hlookup =>
      rw [hlookup, Option.map_none, Option.map_none, Option.toList_none]
      split
      · exact filterMap_eq_nil_of_mem_argsContributions (fun _ => rfl) (fun _ => rfl) _
      · rw [List.filterMap_map, List.filterMap_eq_nil_iff]
        intro arg _
        rcases exportOption_spec arg with ⟨n, span, h⟩ | ⟨f, h⟩ <;> simp [h, kind?]
      · rw [formerName]
        split <;> rfl
      · rw [signatureContribution]
        split <;> rfl
      · rfl
      · rfl

theorem filterMap_exportOption {items : List AttrArg}
    (h : ∀ f, .finding f ∉ items.map exportOption) :
    ((items.map exportOption).filterMap name?).map (·.1) =
      items.filterMap AttrArg.namedValue? := by
  rw [List.filterMap_map, List.map_filterMap]
  refine List.filterMap_congr fun arg harg => ?_
  rcases exportOption_spec arg with ⟨n, span, hname⟩ | ⟨f, hfinding⟩
  · simp [hname, name?, namedValue?_of_exportOption hname]
  · exact absurd (hfinding ▸ List.mem_map_of_mem harg) (h f)

theorem givenNames_eq_nil_of_tag {a : Attribute} {found : Dispatch × Option String}
    (htag : dispatchTags.lookup a.name = some found)
    (hname : ¬ (a.name = "getter" ∨ a.name = "setter")) : a.givenNames = [] := by
  have hothers : ∀ tag ∈ ["name", "export"], dispatchTags.lookup tag = none := by decide
  have hne : a.name ≠ "name" ∧ a.name ≠ "export" := by
    constructor <;> rintro heq <;> simp [heq, hothers] at htag
  rw [givenNames]
  split
  · rfl
  · rw [if_neg hne.1]
  · rw [if_neg hname, if_neg hne.2]

theorem filterMap_name?_contributions {a : Attribute} (h : ∀ f, .finding f ∉ a.contributions) :
    (a.contributions.filterMap name?).map (·.1) = a.givenNames := by
  have hproperty : ∀ tag ∈ ["getter", "setter"], dispatchTags.lookup tag ≠ none := by decide
  rw [contributions] at h ⊢
  split at h
  · simp [fail] at h
  · next henabled =>
    rw [if_neg henabled]
    split at h
    · next kind replacement hlookup =>
      rw [filterMap_name?_kindTag h]
      split
      · rfl
      · next hname => exact (givenNames_eq_nil_of_tag hlookup hname).symm
    · next hlookup =>
      have hne : ¬ (a.name = "getter" ∨ a.name = "setter") := by
        rintro (heq | heq) <;> exact hproperty a.name (by simp [heq]) hlookup
      split at h
      · next hname hform =>
        rw [filterMap_eq_nil_of_mem_argsContributions (fun _ => rfl) (fun _ => rfl)]
        simp [givenNames, hname, hform]
      · next hname hform =>
        rw [filterMap_exportOption h]
        simp [givenNames, hname, hform]
      · next l hname hform =>
        rw [formerName] at h ⊢
        split at h
        · next n hstr =>
          simp only [givenNames, hname, hform, hstr, if_true]
          rfl
        · simp [fail] at h
      · next hname =>
        rw [signatureContribution]
        split <;> simp_all [givenNames, name?]
      · next hname hform => simp [givenNames, hname, hform, name?]
      · next hargs hexport hformer _ _ =>
        rw [givenNames]
        cases hform : a.form <;> simp_all [name?]

theorem contributions_of_text_signature {a : Attribute} (hname : a.name = "text_signature") :
    a.contributions = [a.signatureContribution] := by
  have hdisabled : disabledTags.contains "text_signature" = false := by decide
  have hlookup : dispatchTags.lookup "text_signature" = none := by decide
  simp only [contributions, hname, hdisabled, hlookup, Bool.false_eq_true, if_false]

theorem signature_mem_contributions_iff (a : Attribute) :
    (∃ r span, .signature r span ∈ a.contributions) ↔ a.name = "text_signature" := by
  constructor
  · rintro ⟨r, span, h⟩
    rw [contributions] at h
    split at h
    · simp [fail] at h
    · split at h
      · next kind replacement _ =>
        cases replacement with
        | none => simpa using mem_kindTag h
        | some other =>
          rw [kindTag_some] at h
          simpa using mem_kindTag (List.mem_of_ne_of_mem (by simp) h)
      · split at h
        · simpa using mem_argsContributions h
        · obtain ⟨arg, -, hoption⟩ := List.mem_map.1 h
          rcases exportOption_spec arg with ⟨n, span, hname⟩ | ⟨f, hfinding⟩ <;> simp_all
        · rw [formerName] at h
          split at h <;> simp [fail] at h
        · assumption
        · simp at h
        · simp at h
  · intro hname
    rw [contributions_of_text_signature hname, signatureContribution]
    split <;> simp

end Attribute

namespace Summary

open Contribution

theorem filterMap_kinds (attrs : List Attribute) :
    (contributions attrs).filterMap kind? = attrs.filterMap Attribute.kindRequest? := by
  rw [contributions, List.filterMap_flatMap, List.filterMap_eq_flatMap_toList]
  exact List.flatMap_congr fun a _ => a.filterMap_kind?_contributions

theorem map_kinds (attrs : List Attribute) :
    ((contributions attrs).filterMap kind?).map (·.1) = tagKinds attrs := by
  rw [filterMap_kinds, List.map_filterMap, tagKinds]
  refine List.filterMap_congr fun a _ => ?_
  rw [Attribute.kindRequest?, Option.map_map]
  exact Option.map_id'

theorem dispatch_ofAttributes (attrs : List Attribute) :
    (ofAttributes attrs).dispatch = (tagKinds attrs).head?.getD .plain := by
  rw [dispatch, ofAttributes_kind, ← map_kinds, List.head?_map]

variable {attrs : List Attribute}

theorem map_names (h : (ofAttributes attrs).findings = []) :
    ((contributions attrs).filterMap name?).map (·.1) = givenNames attrs := by
  rw [contributions, List.filterMap_flatMap, List.map_flatMap, givenNames]
  refine List.flatMap_congr fun a ha => ?_
  exact Attribute.filterMap_name?_contributions fun f hf =>
    no_finding_of_ofAttributes h f (List.mem_flatMap.2 ⟨a, ha, hf⟩)

theorem name_ofAttributes (h : (ofAttributes attrs).findings = []) :
    (ofAttributes attrs).name.map (·.1) = (givenNames attrs).head? := by
  rw [ofAttributes_name, ← map_names h, List.head?_map]

theorem length_tagKinds_le (h : (ofAttributes attrs).findings = []) :
    (tagKinds attrs).length ≤ 1 := by
  have hsettled := ((ofAttributes_findings_eq_nil_iff attrs).1 h).1.kind
  rw [← map_kinds, List.length_map]
  simpa using hsettled

theorem length_givenNames_le (h : (ofAttributes attrs).findings = []) :
    (givenNames attrs).length ≤ 1 := by
  have hsettled := ((ofAttributes_findings_eq_nil_iff attrs).1 h).1.name
  rw [← map_names h, List.length_map]
  simpa using hsettled

theorem givenNames_eq_nil (h : (ofAttributes attrs).findings = [])
    (hforced : (ofAttributes attrs).dispatch.rules.forcedName?.isSome) : givenNames attrs = [] := by
  have hnone := ((ofAttributes_findings_eq_nil_iff attrs).1 h).2
  rw [← List.head?_eq_none_iff, ← name_ofAttributes h, Option.map_eq_none_iff]
  cases hkind : (ofAttributes attrs).kind with
  | none =>
    rw [dispatch, hkind] at hforced
    cases hforced
  | some k =>
    rw [dispatch, hkind] at hforced
    by_contra hname
    obtain ⟨n, hn⟩ := Option.ne_none_iff_exists'.1 hname
    have := hnone k n hkind hn
    simp_all

theorem not_disabled (h : (ofAttributes attrs).findings = []) {a : Attribute} (ha : a ∈ attrs) :
    a.name ∉ disabledTags := by
  intro hdisabled
  refine no_finding_of_ofAttributes h ⟨.initDisabled, a.span⟩ (List.mem_flatMap.2 ⟨a, ha, ?_⟩)
  rw [Attribute.contributions, if_pos (List.contains_iff_mem.2 hdisabled)]
  exact List.mem_singleton_self _

theorem signature_isSome_iff (h : (ofAttributes attrs).findings = []) :
    (ofAttributes attrs).signature.isSome ↔ RequestsSignature attrs := by
  have hformed := ((ofAttributes_findings_eq_nil_iff attrs).1 h).1.wellFormed
  rw [ofAttributes_signature]
  constructor
  · intro hsome
    obtain ⟨r, hr⟩ := Option.isSome_iff_exists.1 hsome
    obtain ⟨c, hc, hcr⟩ := List.mem_filterMap.1 (List.mem_of_mem_head? hr)
    obtain ⟨a, ha, hc⟩ := List.mem_flatMap.1 hc
    cases c with
    | signature r' span => exact ⟨a, ha, a.signature_mem_contributions_iff.1 ⟨r', span, hc⟩⟩
    | _ => cases hcr
  · rintro ⟨a, ha, hname⟩
    obtain ⟨r, span, hc⟩ := a.signature_mem_contributions_iff.2 hname
    have hmem := List.mem_flatMap.2 ⟨a, ha, hc⟩
    cases r with
    | none => exact absurd hmem (hformed span)
    | some r =>
      have hr : r ∈ (contributions attrs).filterMap signature? :=
        List.mem_filterMap.2 ⟨_, hmem, rfl⟩
      cases hsignatures : (contributions attrs).filterMap signature? with
      | nil => simp [hsignatures] at hr
      | cons r' rs => rfl

end Summary

/-- The external name of a declaration of some kind: a forced name, the one its attributes give,
what follows `get_` or `set_` in the name of a property accessor, or its own name. -/
inductive ExternallyNamed (kind : Dispatch) (given : Option String) (native : String) :
    String → Prop
  | constructor (hkind : kind = .constructor) : ExternallyNamed kind given native "__new__"
  | callOperator (hkind : kind = .callOperator) : ExternallyNamed kind given native "__call__"
  | given {name : String} (hkind : kind ∉ [.constructor, .callOperator])
      (hgiven : given = some name) : ExternallyNamed kind given native (unraw name)
  | property {stem rest : String} (hgiven : given = none)
      (hkind : kind = .getter ∧ stem = "get_" ∨ kind = .setter ∧ stem = "set_")
      (hnative : unraw native = stem ++ rest) (hrest : rest ≠ "") :
      ExternallyNamed kind given native rest
  | own (hgiven : given = none) (hkind : kind ∉ [.constructor, .callOperator])
      (hgetter : kind = .getter → ∀ rest, unraw native ≠ "get_" ++ rest)
      (hsetter : kind = .setter → ∀ rest, unraw native ≠ "set_" ++ rest) :
      ExternallyNamed kind given native (unraw native)

theorem propertyName?_eq_some_iff {stem native rest : String} :
    propertyName? stem native = some rest ↔ native = stem ++ rest := by
  rw [propertyName?, ← String.toList_inj, String.toList_append]
  split
  · next hprefix =>
    obtain ⟨cs, hcs⟩ := List.isPrefixOf_iff_prefix.1 hprefix
    rw [← hcs, ← String.length_toList, List.drop_left, Option.some.injEq,
      List.append_cancel_left_eq, ← String.toList_inj, String.toList_ofList]
  · next hprefix =>
    refine iff_of_false nofun fun heq => hprefix ?_
    rw [heq, List.isPrefixOf_iff_prefix]
    exact List.prefix_append _ _

theorem propertyName?_eq_none_iff {stem native : String} :
    propertyName? stem native = none ↔ ∀ rest, native ≠ stem ++ rest := by
  simp only [ne_eq, ← propertyName?_eq_some_iff, Option.eq_none_iff_forall_ne_some]

theorem externallyNamed_property {kind : Dispatch} {given : Option String} {native stem : String}
    (hname : kind.rules.name = .property stem)
    (hkind : kind = .getter ∧ stem = "get_" ∨ kind = .setter ∧ stem = "set_")
    (h : (externalName kind.rules given (unraw native)).2 = []) :
    ExternallyNamed kind given native (externalName kind.rules given (unraw native)).1 := by
  have hfree : kind ∉ [.constructor, .callOperator] := by
    rcases hkind with ⟨rfl, -⟩ | ⟨rfl, -⟩ <;> simp
  cases given with
  | some name =>
    simp only [externalName, hname]
    exact .given hfree rfl
  | none =>
    simp only [externalName, hname] at h ⊢
    cases hrest : propertyName? stem (unraw native) with
    | none =>
      rw [propertyName?_eq_none_iff] at hrest
      refine .own rfl hfree ?_ ?_
      · rintro rfl
        rcases hkind with ⟨-, rfl⟩ | ⟨hkind, -⟩
        · exact hrest
        · cases hkind
      · rintro rfl
        rcases hkind with ⟨hkind, -⟩ | ⟨-, rfl⟩
        · cases hkind
        · exact hrest
    | some rest =>
      simp only [hrest] at h ⊢
      split at h
      · cases h
      · next hempty =>
        rw [if_neg hempty]
        exact .property rfl hkind (propertyName?_eq_some_iff.1 hrest) (by simpa using hempty)

theorem externallyNamed {kind : Dispatch} {given : Option String} {native : String}
    (h : (externalName kind.rules given (unraw native)).2 = []) :
    ExternallyNamed kind given native (externalName kind.rules given (unraw native)).1 := by
  cases kind with
  | constructor => exact .constructor rfl
  | callOperator => exact .callOperator rfl
  | getter => exact externallyNamed_property rfl (.inl ⟨rfl, rfl⟩) h
  | setter => exact externallyNamed_property rfl (.inr ⟨rfl, rfl⟩) h
  | plain | classMethod | staticMethod | classAttribute =>
    cases given with
    | some name => exact .given (by simp) rfl
    | none => exact .own rfl (by simp) nofun nofun

def Dispatch.isSigned : Dispatch → Bool
  | plain | classMethod | staticMethod => true
  | constructor | callOperator | classAttribute | getter | setter => false

theorem isSome_signature_textsOf {kind : Dispatch} {s : Summary} {d : Decl}
    {params : List PlannedParam} (h : (textsOf kind.rules s d params).findings = []) :
    (textsOf kind.rules s d params).signature.isSome = s.signature.isSome ∧
      (s.signature.isSome → kind.isSigned) := by
  rw [textsOf] at h ⊢
  cases hrequest : s.signature with
  | none => simp
  | some request =>
    cases hsignature : signatureOf kind.rules request params with
    | error f => simp [hrequest, hsignature] at h
    | ok text =>
      refine ⟨by simp [hsignature], fun _ => ?_⟩
      cases kind <;> first
        | rfl
        | cases hsignature

def Decl.params : Decl → List Param
  | fn d => d.params
  | const _ => []

/-- What the attributes of a declaration settle in its plan. -/
structure FollowsAttributes (d : Decl) (plan : CallPlan) : Prop where
  enabled : ∀ a ∈ d.attrs, a.name ∉ ["init", "__init__"]
  oneTag : (tagKinds d.attrs).length ≤ 1
  dispatch : plan.dispatch = (tagKinds d.attrs).head?.getD .plain
  const : ∀ c, d = .const c → plan.dispatch = .classAttribute
  oneName : (givenNames d.attrs).length ≤ 1
  noName : plan.dispatch = .constructor ∨ plan.dispatch = .callOperator → givenNames d.attrs = []
  externalName :
    ExternallyNamed plan.dispatch (givenNames d.attrs).head? d.name plan.externalName
  signature : plan.signature.isSome ↔ RequestsSignature d.attrs
  signed : RequestsSignature d.attrs →
    plan.dispatch = .plain ∨ plan.dispatch = .classMethod ∨ plan.dispatch = .staticMethod
  /-- A class attribute has no parameters, handles of the runtime included. -/
  noParams : plan.dispatch = .classAttribute → d.params = [] ∧ plan.nativeParams = []

/-- The part of an accepted plan that functions and constants share: the kind and the texts are
those of the summary, which is without findings. -/
structure TakesTexts (plan : CallPlan) (s : Summary) (t : Texts) : Prop where
  summary : s.findings = []
  dispatch : plan.dispatch = s.dispatch
  texts : t.findings = []
  name : plan.externalName = t.name
  signature : plan.signature = t.signature
  doc : plan.doc = t.doc

theorem Decl.takesTexts {types : List String} {d : Decl} {plan : CallPlan}
    (h : d.verdict types = .accepted plan) : ∃ params, TakesTexts plan
      (.ofAttributes d.attrs) (textsOf plan.dispatch.rules (.ofAttributes d.attrs) d params) := by
  cases d with
  | fn d =>
    rw [verdict_fn] at h
    obtain ⟨haccepted, rfl⟩ := FnDecl.verdict_eq_accepted_iff.1 h
    exact ⟨d.passed types, haccepted.summary, rfl, haccepted.texts, rfl, rfl, rfl⟩
  | const c =>
    rw [verdict_const] at h
    obtain ⟨haccepted, rfl⟩ := ConstDecl.verdict_eq_accepted_iff.1 h
    have hdispatch := ConstDecl.dispatchFindings_eq_nil_iff.1 haccepted.dispatch
    exact ⟨[], haccepted.summary, hdispatch.symm, haccepted.texts, rfl, c.signature_texts.symm,
      rfl⟩

theorem Decl.noParams_of_accepted {types : List String} {d : Decl} {plan : CallPlan}
    (h : d.verdict types = .accepted plan) (hkind : plan.dispatch = .classAttribute) :
    d.params = [] ∧ plan.nativeParams = [] := by
  cases d with
  | const c =>
    rw [verdict_const] at h
    obtain ⟨-, rfl⟩ := ConstDecl.verdict_eq_accepted_iff.1 h
    exact ⟨rfl, rfl⟩
  | fn d =>
    rw [verdict_fn] at h
    obtain ⟨haccepted, rfl⟩ := FnDecl.verdict_eq_accepted_iff.1 h
    have hdispatch : d.summary.dispatch = .classAttribute := hkind
    have hrest : d.rest = [] := by
      have hsurplus := haccepted.surplus
      rw [FnDecl.surplusFindings, hdispatch] at hsurplus
      cases hrest : d.rest with
      | nil => rfl
      | cons p ps => simp [hrest, Dispatch.rules] at hsurplus
    refine ⟨?_, by simp [FnDecl.plan, FnDecl.planned, hrest, namedParams]⟩
    rw [FnDecl.rest_eq_drop haccepted, hdispatch] at hrest
    exact hrest

theorem Decl.externallyNamed_of_accepted {types : List String} {d : Decl} {plan : CallPlan}
    (h : d.verdict types = .accepted plan) :
    ExternallyNamed plan.dispatch (givenNames d.attrs).head? d.name plan.externalName := by
  obtain ⟨params, htakes⟩ := Decl.takesTexts h
  have hderived : (externalName plan.dispatch.rules
      ((Summary.ofAttributes d.attrs).name.map (·.1)) (unraw d.name)).2 = [] := by
    have htexts := htakes.texts
    simp only [textsOf, List.append_eq_nil_iff, List.map_eq_nil_iff] at htexts
    exact htexts.1.1.1
  rw [htakes.name, ← Summary.name_ofAttributes htakes.summary]
  exact externallyNamed hderived

theorem Decl.followsAttributes {types : List String} {d : Decl} {plan : CallPlan}
    (h : d.verdict types = .accepted plan) : FollowsAttributes d plan := by
  obtain ⟨params, htakes⟩ := Decl.takesTexts h
  have hsummary := htakes.summary
  have hsignature := isSome_signature_textsOf htakes.texts
  have hrequest := Summary.signature_isSome_iff hsummary
  constructor
  case enabled => exact fun a ha => Summary.not_disabled hsummary ha
  case oneTag => exact Summary.length_tagKinds_le hsummary
  case dispatch => rw [htakes.dispatch, Summary.dispatch_ofAttributes]
  case const =>
    rintro c rfl
    rw [verdict_const] at h
    obtain ⟨-, rfl⟩ := ConstDecl.verdict_eq_accepted_iff.1 h
    rfl
  case oneName => exact Summary.length_givenNames_le hsummary
  case noName =>
    rw [htakes.dispatch]
    rintro (hkind | hkind) <;> exact Summary.givenNames_eq_nil hsummary (by rw [hkind]; rfl)
  case externalName => exact Decl.externallyNamed_of_accepted h
  case signature => rw [htakes.signature, hsignature.1, hrequest]
  case signed =>
    intro hrequests
    have hsigned := hsignature.2 (hrequest.2 hrequests)
    cases hkind : plan.dispatch <;> simp_all [Dispatch.isSigned]
  case noParams => exact Decl.noParams_of_accepted h

theorem Decl.followsAttributes_of_getter : ∃ f d plan,
    SourceFile.parse "impl A \x7b #[getter] fn r#get_size(&self) -> usize; \x7d" = .ok f ∧
      .fn d ∈ f.declarations ∧ d.verdict defaultContextTypes = .accepted plan ∧
      FollowsAttributes (.fn d) plan ∧ plan.externalName = "size" := by
  have hname : (acceptedFn? "impl A \x7b #[getter] fn r#get_size(&self) -> usize; \x7d").map
      (fun found => found.2.externalName) = some "size" := by decide +kernel
  obtain ⟨⟨d, plan⟩, hfound, hplan⟩ := Option.map_eq_some_iff.1 hname
  obtain ⟨f, hf, hd, h⟩ := exists_of_acceptedFn? hfound
  have haccepted := (Decl.verdict_fn defaultContextTypes d).trans h
  exact ⟨f, d, plan, hf, hd, h, Decl.followsAttributes haccepted, hplan⟩

end NativeBinding
