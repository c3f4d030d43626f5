import NativeBinding.Proofs.Binding.CStrings
import NativeBinding.Proofs.Binding.Codes

/-!
The first one wins. A kind, a name and a signature are set by the first attribute that asks for them
in a form that is accepted, and every later request becomes one finding; documentation and unknown
attributes are kept in order, and the unknown ones matter for nothing else. The requests are read
off the attributes here, without classification.
-/

namespace NativeBinding

def AttrArg.propertyName? : AttrArg → Option (String × Span)
  | path p =>
      match p.segments with
      | [name] => some (name, p.span)
      | _ => none
  | literal l => (l.str?.filter isPropertyName).map (·, l.span)
  | assign .. => none

def AttrArg.exportName? : AttrArg → Option (String × Span)
  | assign p value span => if p.segments = ["name"] then value.str?.map (·, span) else none
  | _ => none

namespace Attribute

/-- The well-formed names that an attribute gives, each with its place. -/
def overrides (a : Attribute) : List (String × Span) :=
  match a.form with
  | .word => []
  | .value l => if a.name = "name" then (l.str?.map (·, a.span)).toList else []
  | .list args =>
      if a.name = "getter" ∨ a.name = "setter" then
        match args with
        | [arg] => arg.propertyName?.toList
        | _ => []
      else if a.name = "export" then args.filterMap AttrArg.exportName?
      else []

def asksSignature (a : Attribute) : Bool :=
  a.name == "text_signature"

def signatureRequest? (a : Attribute) : Option SignatureRequest :=
  match a.form with
  | .word => some ⟨none, a.span⟩
  | .value l => l.str?.map fun text => ⟨some text, l.span⟩
  | .list _ => none

end Attribute

namespace Contribution

/-- A signature that is asked for, well-formed or not. -/
def signed? : Contribution → Option (Option SignatureRequest × Span)
  | signature request span => some (request, span)
  | _ => none

def passthrough? : Contribution → Option Attribute
  | passthrough a => some a
  | _ => none

end Contribution

namespace Attribute

open Contribution

theorem name?_propertyName (a : Attribute) (args : List AttrArg) :
    (a.propertyName args).name?.toList =
      match args with
      | [arg] => arg.propertyName?.toList
      | _ => [] := by
  rw [propertyName.eq_def]
  split
  · next p =>
    simp only [AttrArg.propertyName?]
    cases p.segments with
    | nil => rfl
    | cons name rest => cases rest <;> rfl
  · next l =>
    simp only [AttrArg.propertyName?]
    split
    · next hstr => rw [hstr]; rfl
    · next name hstr =>
      rw [hstr, Option.filter_some]
      split <;> rfl
  · rfl
  · next hpath hliteral hassign =>
    split
    · next arg =>
      cases arg with
      | path p => exact absurd rfl (hpath p)
      | assign p value span => exact absurd rfl (hassign p value span)
      | literal l => exact absurd rfl (hliteral l)
    · rfl

theorem name?_exportOption (arg : AttrArg) : (exportOption arg).name? = arg.exportName? := by
  rw [exportOption.eq_def]
  split
  · next p value span =>
    simp only [AttrArg.exportName?, beq_iff_eq]
    split
    · split
      · next hstr => rw [hstr]; rfl
      · next hstr => rw [hstr]; rfl
    · rfl
  · rfl
  · rfl

theorem filterMap_name?_tag {a : Attribute} {kind : Dispatch} (hkind : a.tagKind? = some kind)
    (replacement : Option String) :
    (a.kindTag kind replacement).filterMap name? = a.overrides := by
  have hothers : a.name ≠ "name" ∧ a.name ≠ "export" := by
    constructor <;> intro hname <;>
      rw [tagKind?_eq_none (by simp [hname])] at hkind <;> cases hkind
  have hproperty : propertyTags.contains a.name = true ↔ a.name = "getter" ∨ a.name = "setter" := by
    simp [propertyTags]
  have hcurrent : (a.kindTag kind none).filterMap name? = a.overrides := by
    have hinner : (if propertyTags.contains a.name && a.inner then
        [fail .innerProperty a.span] else []).filterMap name? = [] := by
      split <;> rfl
    rw [kindTag.eq_def, List.filterMap_append, List.filterMap_append, hinner, overrides]
    simp only [List.filterMap_nil, List.nil_append, ← hproperty, if_neg hothers.1,
      if_neg hothers.2]
    split
    · next hform => simp only [hform]; rfl
    · next args hform =>
      simp only [hform]
      split
      · rw [← name?_propertyName a args, filterMap_cons_toList, filterMap_cons_toList]
        exact List.append_nil _
      · split <;> rfl
    · next hform => simp only [hform]; rfl
  cases replacement with
  | none => exact hcurrent
  | some other => exact hcurrent

theorem filterMap_name?_overrides (a : Attribute) :
    a.contributions.filterMap name? = a.overrides := by
  have h := a.sorts
  generalize a.contributions = cs at h
  cases h with
  | disabled hname =>
    simp only [disabledTags, List.mem_cons, List.not_mem_nil, or_false] at hname
    rcases hname with hname | hname <;> cases hform : a.form <;>
      simp [overrides, hname, hform, name?]
  | tag kind replacement hkind => exact filterMap_name?_tag hkind replacement
  | args items hname hform =>
    rw [filterMap_eq_nil_of_mem_argsContributions (fun _ => rfl) (fun _ => rfl)]
    simp [overrides, hname, hform]
  | options items hname hform =>
    rw [List.filterMap_map]
    simp only [overrides, hname, hform]
    exact List.filterMap_congr fun arg _ => name?_exportOption arg
  | formerName l hname hform =>
    simp only [overrides, hname, hform, if_true]
    rw [Attribute.formerName]
    split
    · next hstr => rw [hstr]; rfl
    · next hstr => rw [hstr]; rfl
  | signature hname =>
    rw [signatureContribution]
    split <;> simp_all [overrides, name?]
  | docLine line span hname hform => simp [overrides, hname, hform, name?]
  | other hknown =>
    have hproperty : ¬ (a.name = "getter" ∨ a.name = "setter") := by
      rintro (hname | hname) <;> simp [isKnown, tagKind?, hname] at hknown
    rw [overrides]
    cases hform : a.form <;> simp_all [isKnown, name?]

theorem filterMap_signed?_contributions (a : Attribute) : a.contributions.filterMap signed? =
    if a.asksSignature then [(a.signatureRequest?, a.span)] else [] := by
  have h := a.sorts
  generalize a.contributions = cs at h
  cases h with
  | disabled hname =>
    simp only [disabledTags, List.mem_cons, List.not_mem_nil, or_false] at hname
    rcases hname with hname | hname <;> simp [asksSignature, hname, signed?]
  | tag kind replacement hkind =>
    rw [filterMap_kindTag_eq_nil (fun _ _ => rfl) (fun _ _ => rfl) (fun _ => rfl) fun _ => rfl,
      if_neg]
    intro hname
    rw [tagKind?_eq_none (by simp [beq_iff_eq.1 hname])] at hkind
    cases hkind
  | args items hname hform =>
    rw [filterMap_eq_nil_of_mem_argsContributions (fun _ => rfl) (fun _ => rfl)]
    simp [asksSignature, hname]
  | options items hname hform =>
    rw [filterMap_exportOption_eq_nil (fun _ _ => rfl) fun _ => rfl]
    simp [asksSignature, hname]
  | formerName l hname hform =>
    rw [Attribute.formerName]
    split <;> simp [asksSignature, hname, signed?, fail]
  | signature hname =>
    rw [signatureContribution, signatureRequest?]
    cases hform : a.form <;> simp [asksSignature, hname, signed?]
  | docLine line span hname hform => simp [asksSignature, hname, signed?]
  | other hknown =>
    rw [if_neg (by simp_all [isKnown, asksSignature])]
    rfl

theorem contributions_of_unknown {a : Attribute} (hknown : a.isKnown = false) :
    a.contributions = [.passthrough a] := by
  have h := a.sorts
  generalize a.contributions = cs at h
  cases h with
  | other => rfl
  | tag kind replacement hkind => simp [isKnown, hkind] at hknown
  | disabled hname => simp [isKnown, hname] at hknown
  | args items hname hform | options items hname hform | formerName l hname hform =>
    simp [isKnown, hname, hform] at hknown
  | signature hname => simp [isKnown, hname] at hknown
  | docLine line span hname hform => simp [isKnown, hname, hform, Literal.str?] at hknown

theorem filterMap_passthrough?_of_known {a : Attribute} (hknown : a.isKnown) :
    a.contributions.filterMap passthrough? = [] := by
  have h := a.sorts
  generalize a.contributions = cs at h
  cases h with
  | other hunknown => exact absurd hknown (by simp [hunknown])
  | tag kind replacement hkind =>
    exact filterMap_kindTag_eq_nil (fun _ _ => rfl) (fun _ _ => rfl) (fun _ => rfl) (fun _ => rfl)
      kind replacement
  | args items hname hform =>
    exact filterMap_eq_nil_of_mem_argsContributions (fun _ => rfl) (fun _ => rfl) items
  | options items hname hform =>
    exact filterMap_exportOption_eq_nil (fun _ _ => rfl) (fun _ => rfl) items
  | formerName l hname hform =>
    rw [Attribute.formerName]
    split <;> rfl
  | signature hname =>
    rw [signatureContribution]
    split <;> rfl
  | disabled _ | docLine _ _ _ _ => rfl

end Attribute

def laterFindings {α : Type} (fault : Span → Fault) : List (α × Span) → List Finding
  | [] => []
  | first :: others => others.map fun other => ⟨fault first.2, other.2⟩

theorem laterFindings_append {α : Type} (fault : Span → Fault) (held given : Option (α × Span))
    (rest : List (α × Span)) : laterFindings fault (held.toList ++ (given.toList ++ rest)) =
      laterFindings fault (held.toList ++ given.toList) ++
        laterFindings fault ((held.or given).toList ++ rest) := by
  cases held <;> cases given <;> rfl

/-- The findings on requests for a signature, of which the first well-formed one is met. -/
def laterSignatures (met : Bool) (signed : List (Option SignatureRequest × Span)) : List Finding :=
  (if met then signed else (signed.dropWhile (·.1.isNone)).tail).map (⟨.secondSignature, ·.2⟩)

theorem laterSignatures_cons (met : Bool) (request : Option SignatureRequest) (span : Span)
    (rest : List (Option SignatureRequest × Span)) :
    laterSignatures met ((request, span) :: rest) =
      (if met then [⟨.secondSignature, span⟩] else []) ++
        laterSignatures (met || request.isSome) rest := by
  cases met <;> cases request <;> simp [laterSignatures]

namespace Summary

open Contribution

def reported (s : Summary) (code : String) : List Finding :=
  s.findings.filter (·.fault.code == code)

theorem reported_take_finding {f : Finding} (hf : f.fault.isSingle) (code : String)
    (hcode : code ∈ repeatCodes) (s : Summary) :
    (s.take (.finding f)).reported code = s.reported code := by
  have hne : (f.fault.code == code) = false := by
    rw [beq_eq_false_iff_ne]
    exact fun heq => Fault.code_notMem_of_isSingle hf (heq ▸ hcode)
  simp [take, reported, hne]

theorem reported_take_kind (s : Summary) {c : Contribution} (hc : c.IsSingle) :
    (s.take c).reported "duplicate-binding-kind" = s.reported "duplicate-binding-kind" ++
      laterFindings .secondKind (s.kind.toList ++ c.kind?.toList) := by
  have hheld : laterFindings .secondKind s.kind.toList = [] := by cases s.kind <;> rfl
  cases c with
  | kind k span =>
    rw [take]
    split
    · next hkind => simp [reported, report, Fault.code, hkind, kind?, laterFindings]
    · next hkind => simp [reported, hkind, kind?, laterFindings]
  | finding f =>
    simp [reported_take_finding hc "duplicate-binding-kind" (by decide), kind?, hheld]
  | name _ _ | signature _ _ =>
    simp only [take]
    split <;> simp [reported, report, Fault.code, kind?, hheld]
  | mark _ | docLine _ | deprecation _ | passthrough _ => simp [take, reported, kind?, hheld]

theorem reported_take_name (s : Summary) {c : Contribution} (hc : c.IsSingle) :
    (s.take c).reported "duplicate-name-override" = s.reported "duplicate-name-override" ++
      laterFindings .secondName (s.name.toList ++ c.name?.toList) := by
  have hheld : laterFindings .secondName s.name.toList = [] := by cases s.name <;> rfl
  cases c with
  | name n span =>
    rw [take]
    split
    · next hname => simp [reported, report, Fault.code, hname, name?, laterFindings]
    · next hname => simp [reported, hname, name?, laterFindings]
  | finding f =>
    simp [reported_take_finding hc "duplicate-name-override" (by decide), name?, hheld]
  | kind _ _ | signature _ _ =>
    simp only [take]
    split <;> simp [reported, report, Fault.code, name?, hheld]
  | mark _ | docLine _ | deprecation _ | passthrough _ => simp [take, reported, name?, hheld]

theorem reported_foldl_take {α : Type} {field : Summary → Option (α × Span)}
    {given : Contribution → Option (α × Span)} {fault : Span → Fault} {code : String}
    (hfield : ∀ s c, field (take s c) = (field s).or (given c))
    (hstep : ∀ s c, c.IsSingle → (take s c).reported code =
      s.reported code ++ laterFindings fault ((field s).toList ++ (given c).toList))
    {cs : List Contribution} (hcs : ∀ c ∈ cs, c.IsSingle) (s : Summary) :
    (cs.foldl take s).reported code =
      s.reported code ++ laterFindings fault ((field s).toList ++ cs.filterMap given) := by
  induction cs generalizing s with
  | nil =>
    rw [List.foldl_nil, List.filterMap_nil]
    cases field s <;> simp [laterFindings]
  | cons c cs ih =>
    rw [List.forall_mem_cons] at hcs
    rw [List.foldl_cons, ih hcs.2, hstep s c hcs.1, hfield, filterMap_cons_toList,
      laterFindings_append, List.append_assoc]

theorem reported_signature_foldl_take {cs : List Contribution} (hcs : ∀ c ∈ cs, c.IsSingle)
    (s : Summary) : (cs.foldl take s).reported "duplicate-text-signature" =
      s.reported "duplicate-text-signature" ++
        laterSignatures s.signature.isSome (cs.filterMap signed?) := by
  induction cs generalizing s with
  | nil => cases h : s.signature.isSome <;> simp [laterSignatures]
  | cons c cs ih =>
    rw [List.forall_mem_cons] at hcs
    rw [List.foldl_cons, ih hcs.2]
    cases c with
    | signature request span =>
      rw [List.filterMap_cons, signed?, laterSignatures_cons, take_signature, ← List.append_assoc]
      congr 1
      · cases hsignature : s.signature <;> cases request <;>
          simp [take, hsignature, reported, report, Fault.code]
      · cases s.signature <;> cases request <;> rfl
    | finding f =>
      rw [reported_take_finding hcs.1 "duplicate-text-signature" (by decide)]
      rfl
    | kind _ _ | name _ _ =>
      rw [List.filterMap_cons_none rfl, take]
      split <;> simp [reported, report, Fault.code]
    | mark _ | docLine _ | deprecation _ | passthrough _ => rfl

theorem reported_checkName {code : String} (hcode : code ∈ repeatCodes) (s : Summary) :
    s.checkName.reported code = s.reported code := by
  have hne : ("name-not-allowed" == code) = false := by
    rw [beq_eq_false_iff_ne]
    rintro rfl
    exact absurd hcode (by decide)
  rw [checkName]
  split
  · split
    · simp [report, reported, Fault.code, hne]
    · rfl
  · rfl

def known (s : Summary) : Summary :=
  { s with passthrough := [] }

theorem take_passthrough (s : Summary) (c : Contribution) :
    (s.take c).passthrough = s.passthrough ++ c.passthrough?.toList := by
  cases c with
  | kind _ _ | name _ _ | signature _ _ => simp only [take]; split <;> simp [report, passthrough?]
  | mark _ | docLine _ | deprecation _ | passthrough _ | finding _ => simp [take, passthrough?]

theorem known_take (s : Summary) (c : Contribution) :
    (s.take c).known = if c.passthrough?.isSome then s.known else s.known.take c := by
  cases c with
  | kind _ _ =>
    rcases h : s.kind with _ | ⟨k, first⟩ <;> simp [take, known, h, report, passthrough?]
  | name _ _ =>
    rcases h : s.name with _ | ⟨n, first⟩ <;> simp [take, known, h, report, passthrough?]
  | signature r _ =>
    rcases h : s.signature with _ | first <;> cases r <;>
      simp [take, known, h, report, passthrough?]
  | mark _ | docLine _ | deprecation _ | passthrough _ | finding _ => rfl

theorem known_foldl_take (cs : List Contribution) (s : Summary) :
    (cs.foldl take s).known =
      (cs.filter fun c => !c.passthrough?.isSome).foldl take s.known := by
  induction cs generalizing s with
  | nil => rfl
  | cons c cs ih =>
    rw [List.foldl_cons, ih, known_take, List.filter_cons]
    cases c.passthrough?.isSome <;> rfl

theorem known_checkName (s : Summary) : s.checkName.known = s.known.checkName := by
  obtain ⟨kind, name, marks, signature, docLines, deprecations, passthrough, findings⟩ := s
  rcases kind with _ | ⟨k, first⟩
  · rfl
  · rcases name with _ | ⟨n, span⟩
    · rfl
    · simp only [checkName, known]
      split <;> rfl

theorem contributions_filter_isKnown (attrs : List Attribute) :
    contributions (attrs.filter Attribute.isKnown) =
      (contributions attrs).filter fun c => !c.passthrough?.isSome := by
  induction attrs with
  | nil => rfl
  | cons a attrs ih =>
    rw [contributions_cons, List.filter_append, List.filter_cons]
    cases hknown : a.isKnown with
    | true =>
      have hnone := List.filterMap_eq_nil_iff.1 (Attribute.filterMap_passthrough?_of_known hknown)
      have hself : (a.contributions.filter fun c => !c.passthrough?.isSome) = a.contributions := by
        refine List.filter_eq_self.2 fun c hc => ?_
        rw [hnone c hc]
        rfl
      rw [if_pos rfl, contributions_cons, ih, hself]
    | false =>
      rw [if_neg Bool.false_ne_true, Attribute.contributions_of_unknown hknown, ih]
      rfl

theorem ofAttributes_filter_isKnown (attrs : List Attribute) :
    ofAttributes (attrs.filter Attribute.isKnown) = (ofAttributes attrs).known := by
  have hfilter := contributions_filter_isKnown attrs
  rw [contributions, contributions] at hfilter
  rw [ofAttributes, ofAttributes, known_checkName, known_foldl_take, hfilter]
  rfl

theorem filterMap_passthrough (attrs : List Attribute) :
    (contributions attrs).filterMap passthrough? = attrs.filter fun a => !a.isKnown := by
  induction attrs with
  | nil => rfl
  | cons a attrs ih =>
    rw [contributions_cons, List.filterMap_append, ih, List.filter_cons]
    cases hknown : a.isKnown with
    | true => rw [Attribute.filterMap_passthrough?_of_known hknown]; rfl
    | false => rw [Attribute.contributions_of_unknown hknown]; rfl

theorem ofAttributes_passthrough (attrs : List Attribute) :
    (ofAttributes attrs).passthrough = attrs.filter fun a => !a.isKnown := by
  obtain ⟨fs, h, -⟩ := ofAttributes_eq attrs
  rw [h, foldl_append take_passthrough, filterMap_passthrough]
  rfl

end Summary

/-- What a summary keeps of a list of attributes. The requests for a kind, a name or a signature
stand in order, so the head of the list wins and the others are later ones. -/
structure Summary.KeepsFirst (s : Summary) (attrs : List Attribute) : Prop where
  kind : s.kind = (attrs.filterMap Attribute.kindRequest?).head?
  laterKinds : s.reported "duplicate-binding-kind" =
    laterFindings .secondKind (attrs.filterMap Attribute.kindRequest?)
  name : s.name = (attrs.flatMap Attribute.overrides).head?
  laterNames : s.reported "duplicate-name-override" =
    laterFindings .secondName (attrs.flatMap Attribute.overrides)
  signature : s.signature =
    (attrs.filter Attribute.asksSignature).findSome? Attribute.signatureRequest?
  /-- After the first well-formed request every attribute counts, well-formed or not. -/
  laterSignatures : s.reported "duplicate-text-signature" =
    ((attrs.filter Attribute.asksSignature).dropWhile (·.signatureRequest?.isNone)).tail.map
      fun a => ⟨.secondSignature, a.span⟩
  docLines : s.docLines = docTexts attrs
  passthrough : s.passthrough = attrs.filter fun a => !a.isKnown
  /-- Without the unknown attributes all other fields are the same. -/
  withoutUnknown : Summary.ofAttributes (attrs.filter Attribute.isKnown) =
    { s with passthrough := [] }

namespace Summary

open Contribution

theorem filterMap_names (attrs : List Attribute) :
    (contributions attrs).filterMap name? = attrs.flatMap Attribute.overrides := by
  rw [contributions, List.filterMap_flatMap]
  exact List.flatMap_congr fun a _ => a.filterMap_name?_overrides

theorem filterMap_signed (attrs : List Attribute) : (contributions attrs).filterMap signed? =
    (attrs.filter Attribute.asksSignature).map fun a => (a.signatureRequest?, a.span) := by
  induction attrs with
  | nil => rfl
  | cons a attrs ih =>
    rw [contributions_cons, List.filterMap_append, ih, a.filterMap_signed?_contributions,
      List.filter_cons]
    cases a.asksSignature <;> rfl

theorem filterMap_signature (attrs : List Attribute) :
    (contributions attrs).filterMap signature? =
      (attrs.filter Attribute.asksSignature).filterMap Attribute.signatureRequest? := by
  have hsigned : signature? = fun c => c.signed?.bind (·.1) := by
    funext c
    cases c <;> rfl
  rw [hsigned, ← List.filterMap_filterMap, filterMap_signed, List.filterMap_map]
  rfl

theorem isSingle_of_mem {attrs : List Attribute} : ∀ c ∈ contributions attrs, c.IsSingle := by
  intro c hc
  obtain ⟨a, -, hc⟩ := List.mem_flatMap.1 hc
  exact a.isSingle_contributions c hc

theorem reported_ofAttributes {code : String} (hcode : code ∈ repeatCodes)
    (attrs : List Attribute) : (ofAttributes attrs).reported code =
      ((contributions attrs).foldl take {}).reported code :=
  reported_checkName hcode _

theorem laterSignatures_signed (attrs : List Attribute) :
    laterSignatures false (attrs.map fun a => (a.signatureRequest?, a.span)) =
      (attrs.dropWhile (·.signatureRequest?.isNone)).tail.map
        fun a => ⟨.secondSignature, a.span⟩ := by
  rw [laterSignatures, if_neg Bool.false_ne_true, List.dropWhile_map, ← List.map_tail,
    List.map_map]
  rfl

theorem keepsFirst (attrs : List Attribute) : (ofAttributes attrs).KeepsFirst attrs where
  kind := by rw [ofAttributes_kind, filterMap_kinds]
  laterKinds := by
    rw [reported_ofAttributes (by decide), ← filterMap_kinds,
      reported_foldl_take take_kind (fun s c => reported_take_kind s) isSingle_of_mem]
    rfl
  name := by rw [ofAttributes_name, filterMap_names]
  laterNames := by
    rw [reported_ofAttributes (by decide), ← filterMap_names,
      reported_foldl_take take_name (fun s c => reported_take_name s) isSingle_of_mem]
    rfl
  signature := by
    rw [ofAttributes_signature, filterMap_signature, List.head?_filterMap]
  laterSignatures := by
    rw [reported_ofAttributes (by decide),
      reported_signature_foldl_take isSingle_of_mem, filterMap_signed, ← laterSignatures_signed]
    rfl
  docLines := docLines_ofAttributes attrs
  passthrough := ofAttributes_passthrough attrs
  withoutUnknown := ofAttributes_filter_isKnown attrs

end Summary

end NativeBinding
