import NativeBinding.Proofs.Binding.Tags

/-!
The texts of an accepted plan as C strings. Name and documentation get one NUL, at their end, since
neither holds one. A signature is never looked at for itself: it holds no NUL because it is a part
of the documentation.
-/

namespace NativeBinding

def NulFree (s : String) : Prop :=
  '\x00' ∉ s.toList

theorem nulFree_append {s t : String} : NulFree (s ++ t) ↔ NulFree s ∧ NulFree t := by
  simp [NulFree]

/-- A text with one NUL, at its end. -/
def IsCString (s : String) : Prop :=
  s.toList.count '\x00' = 1 ∧ s.toList.getLast? = some '\x00'

theorem NulFree.isCString_push {s : String} (h : NulFree s) : IsCString (s.push '\x00') := by
  rw [IsCString, String.toList_push, List.count_append, List.count_eq_zero.2 h]
  simp

theorem nameFaults_eq_nil_iff {name : String} :
    nameFaults name = [] ↔ name ≠ "" ∧ NulFree name := by
  rw [nameFaults, NulFree]
  by_cases hempty : name = ""
  · simp [hempty]
  · by_cases hnul : '\x00' ∈ name.toList <;> simp [hempty, hnul]

def Attribute.docText? (a : Attribute) : Option String :=
  match a.form with
  | .value l => if a.name = "doc" then l.str? else none
  | _ => none

def docTexts (attrs : List Attribute) : List String :=
  attrs.filterMap Attribute.docText?

def dropSpace (line : String) : String :=
  if line.toList.head? = some ' ' then String.ofList line.toList.tail else line

theorem renderDoc_eq (lines : List String) :
    renderDoc lines = "\n".intercalate (lines.map dropSpace) := by
  rw [renderDoc]
  congr 2
  funext line
  rw [dropSpace]
  split
  · next rest heq => simp [heq]
  · next hspace =>
    rw [if_neg]
    intro hhead
    obtain ⟨rest, hrest⟩ := List.head?_eq_some_iff.1 hhead
    exact hspace rest hrest

namespace Attribute

open Contribution

theorem filterMap_docLine?_contributions (a : Attribute) :
    a.contributions.filterMap docLine? = a.docText?.toList := by
  have h := a.sorts
  generalize a.contributions = cs at h
  cases h with
  | disabled hname =>
    simp only [disabledTags, List.mem_cons, List.not_mem_nil, or_false] at hname
    rcases hname with hname | hname <;> cases hform : a.form <;>
      simp [docText?, hname, hform, docLine?]
  | tag kind replacement hkind =>
    have hname : a.name ≠ "doc" := by
      intro hname
      rw [tagKind?_eq_none (by simp [hname])] at hkind
      cases hkind
    rw [filterMap_kindTag_eq_nil (fun _ _ => rfl) (fun _ _ => rfl) (fun _ => rfl) fun _ => rfl]
    cases hform : a.form <;> simp [docText?, hname, hform]
  | args items hname hform =>
    rw [filterMap_eq_nil_of_mem_argsContributions (fun _ => rfl) (fun _ => rfl)]
    simp [docText?, hform]
  | options items hname hform =>
    rw [filterMap_exportOption_eq_nil (fun _ _ => rfl) fun _ => rfl]
    simp [docText?, hform]
  | formerName l hname hform =>
    rw [Attribute.formerName]
    split <;> simp [docText?, hname, hform, docLine?, fail]
  | signature hname =>
    rw [signatureContribution]
    cases hform : a.form <;> simp [docText?, hname, hform, docLine?]
  | docLine line span hname hform => simp [docText?, hname, hform, docLine?, Literal.str?]
  | other hknown =>
    cases hform : a.form <;> simp_all [isKnown, docText?, docLine?]

end Attribute

theorem Summary.docLines_ofAttributes (attrs : List Attribute) :
    (ofAttributes attrs).docLines = docTexts attrs := by
  rw [ofAttributes_docLines, contributions, List.filterMap_flatMap, docTexts,
    List.filterMap_eq_flatMap_toList]
  exact List.flatMap_congr fun a _ => a.filterMap_docLine?_contributions

theorem exists_findings_textsOf (rules : DispatchRules) (s : Summary) (d : Decl)
    (params : List PlannedParam) : ∃ derived refused span, (textsOf rules s d params).findings =
      derived ++ (nameFaults (textsOf rules s d params).name).map (⟨·, span⟩) ++ refused ++
        if (textsOf rules s d params).doc.toList.contains '\x00' then [⟨.nulInDoc, d.span⟩]
        else [] :=
  ⟨_, _, _, rfl⟩

theorem nulFree_of_textsOf {rules : DispatchRules} {s : Summary} {d : Decl}
    {params : List PlannedParam} (h : (textsOf rules s d params).findings = []) :
    (textsOf rules s d params).name ≠ "" ∧ NulFree (textsOf rules s d params).name ∧
      NulFree (textsOf rules s d params).doc := by
  obtain ⟨derived, refused, span, heq⟩ := exists_findings_textsOf rules s d params
  simp only [heq, List.append_eq_nil_iff, List.map_eq_nil_iff] at h
  obtain ⟨⟨⟨-, hname⟩, -⟩, hdoc⟩ := h
  obtain ⟨hne, hfree⟩ := nameFaults_eq_nil_iff.1 hname
  refine ⟨hne, hfree, fun hnul => ?_⟩
  rw [if_pos (List.contains_iff_mem.2 hnul)] at hdoc
  cases hdoc

/-- What the C strings of a plan rest on. -/
structure HasCStrings (d : Decl) (plan : CallPlan) : Prop where
  ne : plan.externalName ≠ ""
  name : NulFree plan.externalName
  doc : NulFree plan.doc
  signature : ∀ text, plan.signature = some text → NulFree text
  cName : IsCString plan.cName
  cDoc : IsCString plan.cDoc
  /-- A signature stands before the documentation, behind the name that it is for. -/
  signed : ∀ text, plan.signature = some text → plan.doc =
    plan.externalName ++ text ++ "\n--\n\n" ++ "\n".intercalate ((docTexts d.attrs).map dropSpace)

theorem Decl.hasCStrings {types : List String} {d : Decl} {plan : CallPlan}
    (h : d.verdict types = .accepted plan) : HasCStrings d plan := by
  obtain ⟨params, htakes⟩ := Decl.takesTexts h
  obtain ⟨hne, hname, hdoc⟩ := nulFree_of_textsOf htakes.texts
  rw [← htakes.name] at hne hname
  rw [← htakes.doc] at hdoc
  have hsigned : ∀ text, plan.signature = some text → plan.doc =
      plan.externalName ++ text ++ "\n--\n\n" ++
        "\n".intercalate ((docTexts d.attrs).map dropSpace) := by
    intro text htext
    rw [htakes.signature] at htext
    rw [htakes.doc, htakes.name, ← renderDoc_eq, ← Summary.docLines_ofAttributes]
    exact congrArg (docText _ _) htext
  constructor
  case ne => exact hne
  case name => exact hname
  case doc => exact hdoc
  case signature =>
    intro text htext
    rw [hsigned text htext, nulFree_append, nulFree_append, nulFree_append] at hdoc
    exact hdoc.1.1.2
  case cName => exact hname.isCString_push
  case cDoc => exact hdoc.isCString_push
  case signed => exact hsigned

theorem Decl.hasCStrings_of_written_signature : ∃ f d plan,
    SourceFile.parse ("/// One.\n#[doc = \"  two\"] #[text_signature = \"(a, /)\"] " ++
      "#[staticmethod] fn r#f(a: T);") = .ok f ∧ .fn d ∈ f.declarations ∧
    d.verdict defaultContextTypes = .accepted plan ∧ HasCStrings (.fn d) plan ∧
    plan.cDoc = "f(a, /)\n--\n\nOne.\n two\x00" := by
  have hdoc : (acceptedFn? ("/// One.\n#[doc = \"  two\"] #[text_signature = \"(a, /)\"] " ++
      "#[staticmethod] fn r#f(a: T);")).map (fun found => found.2.cDoc) =
        some "f(a, /)\n--\n\nOne.\n two\x00" := by decide +kernel
  obtain ⟨⟨d, plan⟩, hfound, hplan⟩ := Option.map_eq_some_iff.1 hdoc
  obtain ⟨f, hf, hd, h⟩ := exists_of_acceptedFn? hfound
  have haccepted := (Decl.verdict_fn defaultContextTypes d).trans h
  exact ⟨f, d, plan, hf, hd, h, Decl.hasCStrings haccepted, hplan⟩

end NativeBinding
