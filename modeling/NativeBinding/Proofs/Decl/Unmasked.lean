import NativeBinding.Decl.Parse
import NativeBinding.Proofs.Grammar.Masked

/-!
Declaration files that need no mask. Such a file is parsed as it stands unless the mask takes one
of its blocks or initializers for a body; its tokens tell whether it does.
-/

namespace NativeBinding

open Grammar

def SourceFile.parseUnmasked (text : String) (file : Option String := none) :
    Except ParseError SourceFile :=
  match readMasked text.toList text.toList with
  | .error e => .error (.rejected (.unexpected e.cause) (.at file e.position))
  | .ok items => (SourceFile.ofTrees file items).mapError ParseError.ofLiteral

namespace Grammar

/-- The quotes, comments and braces of an initializer are closed in it. -/
def Token.Closed (t : Token) : Prop :=
  t.kind = .initializer → Body.Complete t.text.toList

theorem read_iff_kept {text : List Char} {items : List ItemTree}
    (h : readMasked text text = .ok items)
    (hclosed : ∀ t ∈ items.flatMap ItemTree.tokens, t.Closed) :
    read text = .ok items ↔ Kept false none (items.flatMap ItemTree.tokens) := by
  obtain ⟨ts, s, p, hreads, hfinish⟩ := readMasked_eq_ok_iff.1 h
  have htokens := hreads.items_tokens hfinish
  have hnesting : nesting 0 (items.flatMap ItemTree.tokens) = some 0 :=
    Balanced.flatMap ItemTree.balanced items 0
  rw [htokens] at hclosed hnesting ⊢
  rw [← hreads.mask_iff rfl (.start text) hclosed hnesting false, ← Body.mask_eq_maskFrom, read,
    readMasked_eq_ok_iff]
  constructor
  · rintro ⟨ts', s', p', hreads', hfinish'⟩
    obtain rfl : ts' = ts := (hreads'.items_tokens hfinish').symm.trans htokens
    obtain rfl : s' = s := Option.some.inj (hreads'.feeds.symm.trans hreads.feeds)
    rw [hreads'.past_eq rfl, past_mask] at hreads'
    rwa [hreads.past_eq rfl]
  · intro hmasked
    exact ⟨ts, s, p, hmasked, hfinish⟩

theorem Token.closed_of_plain {t : Token}
    (h : t.kind = .initializer →
      t.text.toList.all fun c => Body.isPlain c && c != '{' && c != '}') :
    t.Closed := by
  intro hkind
  have hall := List.all_eq_true.1 (h hkind)
  simp only [Bool.and_eq_true, bne_iff_ne] at hall
  exact Body.complete_of_plain (fun c hc => (hall c hc).1.1) (fun hc => (hall _ hc).1.2 rfl)
    fun hc => (hall _ hc).2 rfl

end Grammar

/-- The mask changes what is read of a file that needs none exactly if it does not keep the tokens,
and only then can it change what the file declares. -/
theorem SourceFile.parse_eq_parseUnmasked {text : String} {items : List ItemTree}
    (h : readMasked text.toList text.toList = .ok items)
    (hclosed : ∀ t ∈ items.flatMap ItemTree.tokens, t.Closed) :
    (read text.toList = .ok items ↔ Kept false none (items.flatMap ItemTree.tokens)) ∧
      (Kept false none (items.flatMap ItemTree.tokens) →
        ∀ file, SourceFile.parse text file = SourceFile.parseUnmasked text file) := by
  have hiff := read_iff_kept h hclosed
  refine ⟨hiff, fun hkept file => ?_⟩
  rw [parse, parseUnmasked, hiff.2 hkept, h]

theorem SourceFile.parse_eq_parseUnmasked_of_empty_body :
    let text := "impl A { const N: u8 = 1; fn f(x: [T; 2]) { /* x */ } }"
    ∃ items, (readMasked text.toList text.toList = .ok items ∧
        ∀ t ∈ items.flatMap ItemTree.tokens, t.Closed) ∧
      (read text.toList = .ok items ↔ Kept false none (items.flatMap ItemTree.tokens)) ∧
      (Kept false none (items.flatMap ItemTree.tokens) →
        ∀ file, SourceFile.parse text file = SourceFile.parseUnmasked text file) := by
  intro text
  have hplain : (readMasked text.toList text.toList).toOption.map (fun items =>
      (items.flatMap ItemTree.tokens).all fun t => t.kind != .initializer ||
        t.text.toList.all fun c => Body.isPlain c && c != '{' && c != '}') = some true := by
    decide +kernel
  cases h : readMasked text.toList text.toList with
  | error e => simp [h, Except.toOption] at hplain
  | ok items =>
    have hclosed : ∀ t ∈ items.flatMap ItemTree.tokens, t.Closed := by
      intro t ht
      simp only [h, Except.toOption, Option.map_some, Option.some.injEq, List.all_eq_true] at hplain
      refine Token.closed_of_plain fun hkind => ?_
      simpa [hkind] using hplain t ht
    exact ⟨items, ⟨rfl, hclosed⟩, SourceFile.parse_eq_parseUnmasked h hclosed⟩

theorem SourceFile.not_parse_eq_parseUnmasked :
    ¬ ∀ (text : String) (file : Option String) (f : SourceFile),
      SourceFile.parseUnmasked text file = .ok f → SourceFile.parse text file = .ok f := by
  intro hall
  let text := "impl r#fn { #[staticmethod] fn g(); }"
  have hunmasked : (SourceFile.parseUnmasked text).toOption.map (·.declarations.length) =
      some 1 := by decide +kernel
  have hmasked : (SourceFile.parse text).toOption.map (·.declarations.length) = some 0 := by
    decide +kernel
  cases h : SourceFile.parseUnmasked text with
  | error e => simp [h, Except.toOption] at hunmasked
  | ok f =>
    rw [hall text none f h] at hmasked
    rw [h, hmasked] at hunmasked
    cases hunmasked

end NativeBinding
