import Mathlib.Data.List.Basic
import Mathlib.Tactic.MkIffOfInductiveProp
import NativeBinding.Proofs.Binding.Classification

/-!
What a summary holds of its contributions, field by field: the first dispatch kind, the first name
and the first well-formed signature request, and everything else in order. It is without findings
exactly if no contribution is a finding and none asks for what another has taken.
-/

namespace NativeBinding

namespace Contribution

def kind? : Contribution → Option (Dispatch × Span)
  | kind k span => some (k, span)
  | _ => none

def name? : Contribution → Option (String × Span)
  | name n span => some (n, span)
  | _ => none

def signature? : Contribution → Option SignatureRequest
  | signature r _ => r
  | _ => none

def docLine? : Contribution → Option String
  | docLine line => some line
  | _ => none

def deprecation? : Contribution → Option String
  | deprecation notice => some notice
  | _ => none

def settlesName : Contribution → Bool
  | kind k _ => k.rules.forcedName?.isSome
  | name _ _ => true
  | _ => false

end Contribution

open Contribution

theorem filterMap_cons_toList {α β : Type} (g : α → Option β) (a : α) (as : List α) :
    (a :: as).filterMap g = (g a).toList ++ as.filterMap g := by
  cases h : g a <;> simp [h]

theorem foldl_or {σ γ β : Type} {step : σ → γ → σ} {f : σ → Option β} {g : γ → Option β}
    (h : ∀ s c, f (step s c) = (f s).or (g c)) (cs : List γ) (s : σ) :
    f (cs.foldl step s) = (f s).or (cs.filterMap g).head? := by
  induction cs generalizing s with
  | nil => simp
  | cons c cs ih =>
    rw [List.foldl_cons, ih, h, Option.or_assoc]
    cases hc : g c <;> simp [hc]

namespace Summary

theorem take_kind (s : Summary) (c : Contribution) : (s.take c).kind = s.kind.or c.kind? := by
  cases c with
  | kind _ _ => simp only [take]; split <;> simp_all [report, kind?]
  | name _ _ | signature _ _ => simp only [take]; split <;> simp [report, kind?]
  | mark _ | docLine _ | deprecation _ | passthrough _ | finding _ => simp [take, kind?]

theorem take_name (s : Summary) (c : Contribution) : (s.take c).name = s.name.or c.name? := by
  cases c with
  | name _ _ => simp only [take]; split <;> simp_all [report, name?]
  | kind _ _ | signature _ _ => simp only [take]; split <;> simp [report, name?]
  | mark _ | docLine _ | deprecation _ | passthrough _ | finding _ => simp [take, name?]

theorem take_signature (s : Summary) (c : Contribution) :
    (s.take c).signature = s.signature.or c.signature? := by
  cases c with
  | signature _ _ => simp only [take]; split <;> simp_all [report, signature?]
  | kind _ _ | name _ _ => simp only [take]; split <;> simp [report, signature?]
  | mark _ | docLine _ | deprecation _ | passthrough _ | finding _ => simp [take, signature?]

theorem take_docLines (s : Summary) (c : Contribution) :
    (s.take c).docLines = s.docLines ++ c.docLine?.toList := by
  cases c with
  | kind _ _ | name _ _ | signature _ _ => simp only [take]; split <;> simp [report, docLine?]
  | mark _ | docLine _ | deprecation _ | passthrough _ | finding _ => simp [take, docLine?]

theorem take_deprecations (s : Summary) (c : Contribution) :
    (s.take c).deprecations = s.deprecations ++ c.deprecation?.toList := by
  cases c with
  | kind _ _ | name _ _ | signature _ _ => simp only [take]; split <;> simp [report, deprecation?]
  | mark _ | docLine _ | deprecation _ | passthrough _ | finding _ => simp [take, deprecation?]

theorem checkName_eq (s : Summary) : ∃ fs, s.checkName = { s with findings := s.findings ++ fs } ∧
    (fs = [] ↔ ∀ k n, s.kind = some k → s.name = some n → k.1.rules.forcedName? = none) := by
  rw [checkName]
  split
  · next kind span name span' hkind hname =>
    split
    · next hforced => exact ⟨_, rfl, by simp_all [Option.isSome_iff_ne_none]⟩
    · next hforced => exact ⟨[], by simp, by simp_all⟩
  · next hnone =>
    refine ⟨[], by simp, iff_of_true rfl ?_⟩
    rintro ⟨k, span⟩ ⟨n, span'⟩ hkind hname
    exact absurd hname (hnone k span n span' hkind)

section

variable (attrs : List Attribute)

def contributions : List Contribution :=
  attrs.flatMap Attribute.contributions

theorem contributions_cons (a : Attribute) :
    contributions (a :: attrs) = a.contributions ++ contributions attrs :=
  List.flatMap_cons

theorem ofAttributes_eq : ∃ fs, ofAttributes attrs =
      { (contributions attrs).foldl take {} with
        findings := ((contributions attrs).foldl take {}).findings ++ fs } ∧
    (fs = [] ↔ ∀ k n, ((contributions attrs).foldl take {}).kind = some k →
      ((contributions attrs).foldl take {}).name = some n → k.1.rules.forcedName? = none) :=
  checkName_eq _

theorem ofAttributes_kind :
    (ofAttributes attrs).kind = ((contributions attrs).filterMap kind?).head? := by
  obtain ⟨fs, h, -⟩ := ofAttributes_eq attrs
  rw [h, foldl_or take_kind]
  rfl

theorem ofAttributes_name :
    (ofAttributes attrs).name = ((contributions attrs).filterMap name?).head? := by
  obtain ⟨fs, h, -⟩ := ofAttributes_eq attrs
  rw [h, foldl_or take_name]
  rfl

theorem ofAttributes_signature :
    (ofAttributes attrs).signature =
      ((contributions attrs).filterMap signature?).head? := by
  obtain ⟨fs, h, -⟩ := ofAttributes_eq attrs
  rw [h, foldl_or take_signature]
  rfl

theorem ofAttributes_docLines :
    (ofAttributes attrs).docLines = (contributions attrs).filterMap docLine? := by
  obtain ⟨fs, h, -⟩ := ofAttributes_eq attrs
  rw [h, foldl_append take_docLines]
  rfl

theorem ofAttributes_deprecations :
    (ofAttributes attrs).deprecations = (contributions attrs).filterMap deprecation? := by
  obtain ⟨fs, h, -⟩ := ofAttributes_eq attrs
  rw [h, foldl_append take_deprecations]
  rfl

end

/-- Contributions that a summary takes without a finding: at most one sets what can be set once,
counting what the summary has. -/
@[mk_iff]
structure Settled (s : Summary) (cs : List Contribution) : Prop where
  kind : s.kind.toList.length + (cs.filterMap kind?).length ≤ 1
  name : s.name.toList.length + (cs.filterMap name?).length ≤ 1
  signature : s.signature.toList.length + (cs.filterMap signature?).length ≤ 1
  wellFormed : ∀ span, .signature none span ∉ cs
  findings : ∀ f, .finding f ∉ cs

theorem settled_singleton_iff {s : Summary} {c : Contribution} : Settled s [c] ↔
    s.kind.toList.length + c.kind?.toList.length ≤ 1 ∧
    s.name.toList.length + c.name?.toList.length ≤ 1 ∧
    s.signature.toList.length + c.signature?.toList.length ≤ 1 ∧
    (∀ span, .signature none span ≠ c) ∧ ∀ f, .finding f ≠ c := by
  simp only [settled_iff, filterMap_cons_toList, List.filterMap_nil, List.append_nil,
    List.mem_singleton, ne_eq]

theorem take_findings_eq_nil_iff (s : Summary) (c : Contribution) :
    (s.take c).findings = [] ↔ s.findings = [] ∧ Settled s [c] := by
  have hone {β : Type} (o : Option β) : o.toList.length ≤ 1 := Option.length_toList_le
  rw [settled_singleton_iff]
  cases c with
  | kind _ _ => cases h : s.kind <;> simp [take, report, h, hone, kind?, name?, signature?]
  | name _ _ => cases h : s.name <;> simp [take, report, h, hone, kind?, name?, signature?]
  | signature r _ =>
    cases h : s.signature <;> cases r <;>
      simp [take, report, h, hone, kind?, name?, signature?]
  | mark _ | docLine _ | deprecation _ | passthrough _ | finding _ =>
    simp [take, hone, kind?, name?, signature?]

theorem settled_cons_iff {s : Summary} {c : Contribution} {cs : List Contribution} :
    Settled s (c :: cs) ↔ Settled s [c] ∧ Settled (s.take c) cs := by
  have hor {β : Type} (a b : Option β) (n : Nat) :
      a.toList.length + (b.toList.length + n) ≤ 1 ↔
        a.toList.length + b.toList.length ≤ 1 ∧ (a.or b).toList.length + n ≤ 1 := by
    cases a <;> cases b <;>
      simp only [Option.toList_none, Option.toList_some, Option.none_or, Option.some_or,
        List.length_nil, List.length_singleton] <;> omega
  rw [settled_singleton_iff, settled_iff, settled_iff]
  simp only [filterMap_cons_toList, List.length_append, take_kind, take_name, take_signature, hor,
    List.mem_cons, not_or, forall_and, ne_eq]
  tauto

theorem foldl_take_findings_eq_nil_iff (cs : List Contribution) (s : Summary) :
    (cs.foldl take s).findings = [] ↔ s.findings = [] ∧ Settled s cs := by
  induction cs generalizing s with
  | nil => simp [settled_iff, Option.length_toList_le]
  | cons c cs ih =>
    rw [List.foldl_cons, ih, take_findings_eq_nil_iff, and_assoc, ← settled_cons_iff]

theorem ofAttributes_findings_eq_nil_iff (attrs : List Attribute) :
    (ofAttributes attrs).findings = [] ↔ Settled {} (contributions attrs) ∧
      ∀ k n, (ofAttributes attrs).kind = some k → (ofAttributes attrs).name = some n →
        k.1.rules.forcedName? = none := by
  obtain ⟨fs, h, hforced⟩ := ofAttributes_eq attrs
  rw [h]
  simp only [List.append_eq_nil_iff, hforced, foldl_take_findings_eq_nil_iff, true_and]

end Summary

end NativeBinding
