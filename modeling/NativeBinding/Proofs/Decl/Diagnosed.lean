import NativeBinding.Proofs.Decl.Literals
import NativeBinding.Proofs.Decl.Oversized
import NativeBinding.Report.Basic

/-!
Texts and their diagnostics. A text gives a file and no diagnostic, or no file and one diagnostic,
with one exception: an integer with too many digits, if no string before it has a bad escape, ends
the parse with neither.
-/

namespace NativeBinding

open Grammar (ItemTree Token)

/-- What is reported of a text that is rejected: one error at a place in its file. -/
structure Diagnostic.OfParser (file : Option String) (d : Diagnostic) : Prop where
  error : d.isError
  kind : d.kind = some .parseError
  code : d.code = some "parse-error"
  phase : d.phase = some "parser"
  file : d.span.file = file
  line : d.span.line.isSome
  column : d.span.column.isSome

/-- The file that a text declares or the diagnostics of the text; neither if an integer of it has
too many digits. -/
def SourceFile.parseText (text : String) (file : Option String) :
    Except Number.Oversized (Option SourceFile × List Diagnostic) :=
  match parse text file with
  | .ok f => .ok (some f, [])
  | .error (.rejected cause span) => .ok (none, [cause.diagnostic span])
  | .error (.oversized e) => .error e

theorem Source.reading_eq_of_text {s : Source} {text : String} (h : s.text = .ok text) :
    s.reading = (SourceFile.parseText text (some s.path.text)).map fun r =>
      match r.1, r.2 with
      | none, d :: _ => .failure d
      | f, _ => .declarations ((f.toList.flatMap SourceFile.declarations).filter Decl.isExported) := by
  rw [reading, h, SourceFile.parseText]
  dsimp only
  cases SourceFile.parse text (some s.path.text) with
  | ok f => simp [Except.map]
  | error e => cases e <;> rfl

variable {file : Option String}

theorem ParseCause.ofParser_diagnostic (cause : ParseCause) {span : Span} (hfile : span.file = file)
    (hline : span.line.isSome) (hcolumn : span.column.isSome) :
    (cause.diagnostic span).OfParser file where
  error := rfl
  kind := rfl
  code := rfl
  phase := rfl
  file := hfile
  line := hline
  column := hcolumn

theorem Grammar.Token.span_of_badLiteral {t : Token} {cause : EscapeError} {span : Span}
    (h : t.badLiteral? file = some (.escape cause span)) :
    span = .between file t.start t.stop := by
  rw [badLiteral?] at h
  split at h
  · obtain ⟨e, -, he⟩ := Option.map_eq_some_iff.1 h
    cases he
    rfl
  · split at h <;> cases h
  · cases h

theorem Grammar.Token.oversized_of_badLiteral {t : Token} {e : Number.Oversized}
    (h : t.badLiteral? file = some (.oversized e)) :
    t.kind = .number ∧ '.' ∉ t.text.toList ∧ e.digits = (unsigned t.text.toList).length ∧
      Number.maxDigits < e.digits := by
  rw [badLiteral?] at h
  split at h
  · obtain ⟨e, -, he⟩ := Option.map_eq_some_iff.1 h
    cases he
  · next hkind =>
    split at h
    · next hlong =>
      cases h
      exact ⟨hkind, hlong.1, rfl, hlong.2⟩
    · cases h
  · cases h

namespace SourceFile

/-- Every text gives a file alone or a diagnostic alone, or has an integer with too many digits
before any string with a bad escape. -/
theorem parseText_cases (text : String) (file : Option String) :
    (∃ items f, Grammar.read text.toList = .ok items ∧
      (Grammar.fileNode items).literals.findSome? (Token.badLiteral? file) = none ∧
      f.file = file ∧ parseText text file = .ok (some f, [])) ∨
    (∃ d : Diagnostic, d.OfParser file ∧ parseText text file = .ok (none, [d]) ∧
      ((∃ e, Grammar.read text.toList = .error e) ∨
        ∃ items cause span, Grammar.read text.toList = .ok items ∧
          (Grammar.fileNode items).literals.findSome? (Token.badLiteral? file) =
            some (.escape cause span))) ∨
    (∃ items e, Grammar.read text.toList = .ok items ∧
      (Grammar.fileNode items).literals.findSome? (Token.badLiteral? file) =
        some (.oversized e) ∧
      parseText text file = .error e) := by
  cases hread : Grammar.read text.toList with
  | error e =>
    refine .inr (.inl ⟨(ParseCause.unexpected e.cause).diagnostic (.at file e.position),
      ParseCause.ofParser_diagnostic _ rfl rfl rfl, ?_, .inl ⟨e, rfl⟩⟩)
    rw [parseText, parse, hread]
  | ok items =>
    have herror := error?_ofTrees file items
    have hparse : parse text file = (ofTrees file items).mapError ParseError.ofLiteral := by
      rw [parse, hread]
    cases hfirst : (Grammar.fileNode items).literals.findSome? (Token.badLiteral? file) with
    | none =>
      obtain ⟨f, hf⟩ := error?_eq_none_iff.1 (herror.trans hfirst)
      refine .inl ⟨items, f, rfl, hfirst, ?_, ?_⟩
      · obtain ⟨is, -, heq⟩ := bind_eq_ok_iff.1 hf
        cases heq
        rfl
      · rw [parseText, hparse, hf]
        rfl
    | some b =>
      have hb := error?_eq_some_iff.1 (herror.trans hfirst)
      cases b with
      | escape cause span =>
        obtain ⟨t, -, ht⟩ := List.exists_of_findSome?_eq_some hfirst
        obtain rfl := Token.span_of_badLiteral ht
        refine .inr (.inl ⟨(ParseCause.escape cause).diagnostic (.between file t.start t.stop),
          ParseCause.ofParser_diagnostic _ rfl rfl rfl, ?_, .inr ⟨items, _, _, rfl, hfirst⟩⟩)
        rw [parseText, hparse, hb]
        rfl
      | oversized e =>
        refine .inr (.inr ⟨items, e, rfl, hfirst, ?_⟩)
        rw [parseText, hparse, hb]
        rfl

theorem parseText_ones : ¬ ∀ text file, ∃ r, parseText text file = .ok r := by
  intro h
  obtain ⟨r, hr⟩ := h (numberText (ones (Number.maxDigits + 1))) none
  rw [parseText, parse_ones] at hr
  cases hr

end SourceFile

end NativeBinding
