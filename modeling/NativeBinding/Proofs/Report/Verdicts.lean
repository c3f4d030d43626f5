import NativeBinding.Proofs.Binding.Lookups
import NativeBinding.Proofs.Grammar.Masked
import NativeBinding.Proofs.Report.Ties

/-!
Verdicts on the declarations of a parsed text. Each declaration is settled: there is a plan and
nothing to report, or no plan and something to report. What is reported is an error of a known kind,
found while attributes are classified or while the plan is assembled, and it points at a character
of the text.
-/

namespace NativeBinding

open Grammar (Token Reads Position.past)

structure Span.StartsAtChar (file : Option String) (text : List Char) (s : Span) : Prop where
  file : s.file = file
  known : s.known
  place : ∃ before c after, text = before ++ c :: after ∧
    s.line = some ((Position.past .start before).line : Int) ∧
      s.column = some ((Position.past .start before).column : Int)

/-- The mask moves nothing, so the character stands in the text before masking as well. -/
theorem StartsIn.startsAtChar {file : Option String} {text : List Char} {ts : List Token} {s : Span}
    (h : StartsIn file ts s) {state : Grammar.State} {p : Position}
    (hreads : Reads .start .start (Body.mask text) ts state p []) : s.StartsAtChar file text := by
  obtain ⟨hfile, t, ht, hline, hcolumn⟩ := h
  obtain ⟨n, hn, hstart⟩ := hreads.exists_start ht
  rw [Body.mask_length] at hn
  rw [Body.mask_eq_maskFrom, Grammar.past_take_maskFrom] at hstart
  constructor
  case file => exact hfile
  case known => rw [Span.known, hline, Option.isSome_some]
  case place =>
    refine ⟨text.take n, text[n], text.drop (n + 1), ?_, ?_, ?_⟩
    · rw [← List.drop_eq_getElem_cons hn, List.take_append_drop]
    · rw [hline, hstart]
    · rw [hcolumn, hstart]

/-- A verdict is one of two: a plan without diagnostics, or diagnostics without a plan. -/
inductive Verdict.Decided (v : Verdict) : Prop
  | assembled (state : v.state = "ASSEMBLED") (plan : v.plan?.isSome) (quiet : v.diagnostics = [])
  | rejected (state : v.state = "REJECTED") (plan : v.plan? = none) (loud : v.diagnostics ≠ [])

/-- What a diagnostic on a declaration of a text is. -/
structure Diagnostic.OnDeclaration (file : Option String) (text : List Char) (x : Diagnostic) :
    Prop where
  severity : x.isError
  kind : x.kind.isSome
  phase : x.phase = some "classify" ∨ x.phase = some "assemble"
  span : x.span.StartsAtChar file text

theorem Fault.phase_cases (f : Fault) : f.phase = "classify" ∨ f.phase = "assemble" := by
  rw [phase.eq_def]
  split <;> simp

theorem Finding.onDeclaration {file : Option String} {text : List Char} {f : Finding}
    (h : f.span.StartsAtChar file text) : f.diagnostic.OnDeclaration file text := by
  constructor
  case severity => rfl
  case kind => rfl
  case phase => rcases f.fault.phase_cases with h | h <;> simp [diagnostic, h]
  case span => exact h

theorem Verdict.decided_of (plan : CallPlan) (fs : List Finding) :
    (Verdict.of plan fs).Decided := by
  cases fs with
  | nil => exact .assembled rfl rfl rfl
  | cons f fs => exact .rejected rfl rfl (List.cons_ne_nil _ _)

theorem Decl.verdict_decided (types : List String) (d : Decl) : (d.verdict types).Decided := by
  cases d <;> exact Verdict.decided_of _ _

theorem Decl.Lies.findings_startIn {file : Option String} {own head ts : List Token} {d : Decl}
    (h : d.Lies file own head) (hown : own ⊆ ts) (hhead : head ⊆ ts) (types : List String) :
    AllStartIn file ts ((d.verdict types).findings.map Finding.span) := by
  obtain ⟨before, after, heq, hbefore, hafter⟩ := d.findings_split types
  intro s hs
  obtain ⟨f, hf, rfl⟩ := List.mem_map.1 hs
  rw [heq, List.mem_append, List.mem_append] at hf
  rcases hf with (hf | hf) | hf
  · exact (h.spans _ (hbefore f hf)).mono hown
  · exact (h.block _ (List.mem_map_of_mem hf)).mono hhead
  · exact (h.spans _ (hafter f hf)).mono hown

theorem SourceFile.settled_of_parse {file : Option String} {text : String} {f : SourceFile}
    (h : SourceFile.parse text file = .ok f) {d : Decl} (hd : d ∈ f.declarations)
    (types : List String) :
    d.verdictChecked types = .ok (d.verdict types) ∧ (d.verdict types).Decided ∧
      ∀ x ∈ (d.verdict types).diagnostics, x.OnDeclaration file text.toList := by
  refine ⟨d.verdictChecked_eq types, d.verdict_decided types, ?_⟩
  obtain ⟨ts, s, p, items, hreads, -, htokens, hitems⟩ := exists_reads_of_parse h
  obtain ⟨i, hi, hd⟩ := List.mem_flatMap.1 hd
  obtain ⟨t, ht, hi⟩ := exists_of_mem_mapM hitems hi
  have hsub : t.tokens ⊆ ts := fun x hx => htokens ▸ List.mem_flatMap.2 ⟨t, ht, hx⟩
  have hstarts := (SourceItem.declarations_lie hi hd).findings_startIn hsub hsub types
  intro x hx
  obtain ⟨f, hf, rfl⟩ := List.mem_map.1 hx
  exact Finding.onDeclaration ((hstarts _ (List.mem_map_of_mem hf)).startsAtChar hreads)

theorem SourceFile.settled_of_missing_receiver : ∃ f d,
    (SourceFile.parse "\n#[getter(\"\")] fn g();" (some "lib") = .ok f ∧ d ∈ f.declarations) ∧
      (d.verdict []).diagnostics.length = 2 ∧ d.verdictChecked [] = .ok (d.verdict []) ∧
      (d.verdict []).Decided ∧
      ∀ x ∈ (d.verdict []).diagnostics,
        x.OnDeclaration (some "lib") "\n#[getter(\"\")] fn g();".toList := by
  have hlengths : (SourceFile.parse "\n#[getter(\"\")] fn g();" (some "lib")).toOption.map
      (·.declarations.map fun d => (d.verdict []).diagnostics.length) = some [2] := by
    decide +kernel
  obtain ⟨f, hf, hlengths⟩ := Option.map_eq_some_iff.1 hlengths
  obtain ⟨d, hd, hlength⟩ := List.map_eq_singleton_iff.1 hlengths
  have hf := eq_ok_of_toOption hf
  have hmem : d ∈ f.declarations := hd ▸ List.mem_singleton_self d
  exact ⟨f, d, ⟨hf, hmem⟩, hlength, settled_of_parse hf hmem []⟩

end NativeBinding
