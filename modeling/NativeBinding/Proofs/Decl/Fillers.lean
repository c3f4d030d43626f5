import NativeBinding.Proofs.Decl.Opaque
import NativeBinding.Proofs.Grammar.InsertionRun

/-!
White space and comments between tokens. A source declares the same with a filler at a place between
two of its tokens, up to spans. A comment is text where it goes on with a comment to the end of its
line or with an initializer.
-/

namespace NativeBinding

open Grammar Body

def Span.unplaced (s : Span) : Span :=
  if s.known then .between s.file .start .start else s

theorem Grammar.bare_moves (file : Option String) : bare.Moves file Span.unplaced where
  text hkind l := if_neg hkind
  value l := by
    change Text.strip (String.ofList (Text.strip l.text.toList)).toList = _
    rw [String.toList_ofList, Grammar.strip_strip]
  between _ _ := rfl
  unknown := rfl

/-- A place in a source: between two tokens, before the first or behind the last. The reader stops
there or before the white space that the place is in. -/
def Boundary (pre post : List Char) (before after : List Token) : Prop :=
  ∃ u x s p cs r q, pre = u ++ x ∧ (∀ c ∈ x, isGapSpace c) ∧ cs.length = (x ++ post).length ∧
    Reads .start .start (mask (pre ++ post)) before s p cs ∧ Reads s p cs after r q []

/-- The filler `g` says nothing at a place. A comment to the end of its line before it has ended with
that line, and a block comment does not go with a slash in a body. An initializer before it goes up
to its semicolon, so only white space is nothing there, and two slashes behind an equals sign start
one. A word `fn` that is joined to another word is none to the mask. -/
structure Insignificant (pre g post : List Char) (before after : List Token) : Prop where
  filler : Filler g
  doc : ∀ t ∈ before.getLast?, t.kind = .docComment → t.stop = Position.past .start pre →
    g.head? = some '\n'
  lines : LinesEnd g .start .start (mask (pre ++ post)) post.length
  slash : ['/', '*'] <+: g → ∀ as bs,
    cells (pre ++ post) = as ++ ⟨'/', false⟩ :: bs → bs.length ≠ post.length
  value : (∃ t ∈ before.getLast?, t.kind = .initializer) → ∀ c ∈ g, isGapSpace c
  equals : (∃ t ∈ after.head?, t.kind = .initializer) → ¬ ['/', '/'] <+: g
  words : ∀ t ∈ before.getLast?, ∀ u ∈ after.head?, t.stop = u.start → t.endsWord → u.startsWord →
    t.text.toList ≠ ['f', 'n'] ∧ u.text.toList ≠ ['f', 'n']
  closes : Closes .start (pre ++ post) (before ++ after)

section

variable {x g post cs : List Char} {s r : State} {p q : Position} {ts us : List Token}

theorem Grammar.Reads.starts_initializer (h : Reads s p cs us r q []) (hfinish : r.finish?.isSome)
    (hinit : .initializer ∈ s.expects) : ∃ t ∈ us.head?, t.kind = .initializer := by
  obtain ⟨place, colon, type, eq, rfl⟩ := State.constEquals_of_expects hinit
  have hfeeds := h.feeds
  cases us with
  | nil =>
    obtain rfl : State.constEquals place colon type eq = r := by simpa using hfeeds
    cases hfinish
  | cons t us =>
    obtain ⟨s₁, hfeed, -⟩ := Option.bind_eq_some_iff.1 hfeeds
    refine ⟨t, rfl, ?_⟩
    obtain ⟨k, l⟩ := t
    cases k <;> first
      | rfl
      | cases hfeed

theorem Insignificant.joint {u : List Char} (h : Insignificant (u ++ x) g post ts us)
    (hblank : ∀ c ∈ x, isGapSpace c) (hlen : cs.length = (x ++ post).length)
    (hbefore : Reads .start .start (mask (u ++ (x ++ post))) ts s p cs)
    (hafter : Reads s p cs us r q []) (hfinish : r.finish?.isSome) :
    Joint x g post s p cs us r := by
  have htokens : s.tokens = ts := hbefore.tokens
  have hplace := hbefore.place_eq hlen
  refine ⟨hblank, h.filler, hlen, ⟨q, hafter⟩, hfinish, ?_, ?_, ?_, ?_⟩
  · rintro rfl t ht hkind rfl
    rw [htokens] at ht
    refine h.doc t ht hkind ?_
    rw [hplace, List.append_nil]
  · rw [htokens]
    exact h.value
  · exact fun hprefix hinit => h.equals (hafter.starts_initializer hfinish hinit) hprefix
  · rw [htokens]
    exact h.words

theorem Insignificant.approach {u : List Char} (h : Insignificant (u ++ x) g post ts us)
    (hreads : Reads .start .start (mask (u ++ (x ++ post))) (ts ++ us) r q [])
    {items : List ItemTree} (hfinish : r.finish? = some items) :
    Approach x g post us false none u .start .start ts := by
  have hbalanced : Balanced (ts ++ us) := by
    rw [← hreads.items_tokens hfinish]
    exact Balanced.flatMap ItemTree.balanced items
  obtain ⟨-, -, hlines, hslash, -, -, -, hcloses⟩ := h
  rw [List.append_assoc] at hlines hslash hcloses
  rw [mask_eq_maskFrom] at hlines
  exact ⟨.start _, hcloses, ⟨0, hbalanced 0⟩, hlines, hslash⟩

theorem Insignificant.read {pre : List Char} {before after : List Token}
    (h : Insignificant pre g post before after) (hplace : Boundary pre post before after)
    {items : List ItemTree} (hread : Grammar.read (pre ++ post) = .ok items) :
    ∃ items', Grammar.read (pre ++ (g ++ post)) = .ok items' ∧
      items'.map (ItemTree.relabel bare) = items.map (ItemTree.relabel bare) := by
  obtain ⟨u, x, s, p, cs, r, q, rfl, hblank, hlen, hbefore, hafter⟩ := hplace
  rw [List.append_assoc] at hread hbefore ⊢
  obtain ⟨ts, r', q', hreads, hfinish⟩ := readMasked_eq_ok_iff.1 hread
  -- The reading to the end goes through the place.
  obtain ⟨us, rfl, hrest⟩ := (hbefore.rest_iff (Nat.zero_le _)).1 hreads
  obtain ⟨us, rfl, hend⟩ := (hafter.rest_iff (Nat.zero_le _)).1 hrest
  obtain ⟨rfl, rfl, rfl, -⟩ := hend.eq_of_length rfl
  rw [List.append_nil] at hreads
  have hjoint := h.joint hblank hlen hbefore hafter (by simp [hfinish])
  rw [mask_eq_maskFrom] at hbefore
  have hends := hbefore.ends_insert hjoint (h.approach hreads hfinish)
  obtain ⟨ts', r'', q'', hreads', hsame⟩ := hends .start
  obtain ⟨items', hfinish', hitems⟩ := hsame.finish hfinish
  refine ⟨items', ?_, hitems⟩
  rw [Grammar.read, readMasked_eq_ok_iff, mask_eq_maskFrom]
  exact ⟨ts', r'', q'', hreads', hfinish'⟩

/-- Up to spans, a source declares the same with a filler at a place. -/
theorem SourceFile.parse_filler {pre : List Char} {before after : List Token} {file : Option String}
    {f : SourceFile} (hparse : SourceFile.parse (String.ofList (pre ++ post)) file = .ok f)
    (hplace : Boundary pre post before after) (h : Insignificant pre g post before after) :
    ∃ f', SourceFile.parse (String.ofList (pre ++ (g ++ post))) file = .ok f' ∧
      f'.respan Span.unplaced = f.respan Span.unplaced := by
  simp only [parse_eq_ok_iff, String.toList_ofList] at hparse ⊢
  obtain ⟨items, hread, htrees⟩ := hparse
  obtain ⟨items', hread', hitems⟩ := h.read hplace hread
  have hmoves := bare_moves file
  have hsame : mapBoth (BadLiteral.respan Span.unplaced) (SourceFile.respan Span.unplaced)
      (ofTrees file items') = .ok (f.respan Span.unplaced) := by
    rw [← ofTrees_relabel hmoves, hitems, ofTrees_relabel hmoves, htrees, mapBoth_ok]
  cases htrees' : ofTrees file items' with
  | error e => simp [htrees'] at hsame
  | ok f' => exact ⟨f', ⟨items', hread', htrees'⟩, by simpa [htrees'] using hsame⟩

end

def tokensAround? (j k : Nat) (pre post : List Char) : Option (List Token × List Token) :=
  match readPieces j .start .start (mask (pre ++ post)) with
  | some (before, s, p, cs) =>
      if cs.length = post.length then
        match readPieces k s p cs with
        | some (after, _, _, []) => some (before, after)
        | _ => none
      else none
  | none => none

section

variable {j k : Nat} {pre g post : List Char} {before after : List Token}

theorem boundary_of_tokensAround? (h : tokensAround? j k pre post = some (before, after)) :
    Boundary pre post before after := by
  rw [tokensAround?] at h
  split at h
  · next ts s p cs hbefore =>
    split at h
    · next hlen =>
      split at h
      · next us r q hafter =>
        cases h
        exact ⟨pre, [], s, p, cs, r, q, by simp, nofun, by simpa using hlen,
          reads_of_readPieces hbefore, reads_of_readPieces hafter⟩
      · cases h
    · cases h
  · cases h

theorem linesEnd_of_no_slash (h : '/' ∉ pre) :
    LinesEnd g .start .start (mask (pre ++ post)) post.length := by
  intro ts s p w rest hreads hlen
  exfalso
  obtain ⟨v, hv, -⟩ := hreads.exists_append
  rw [mask_eq_maskFrom] at hv
  have hlt : v.length < pre.length := by
    have := congrArg List.length hv
    simp only [length_maskFrom, List.length_append, List.length_cons] at this
    omega
  have hslash : (maskFrom false none (pre ++ post))[v.length]? = some '/' := by simp [hv]
  have := getElem?_of_maskFrom hslash (by decide)
  rw [List.getElem?_append_left hlt] at this
  exact h (List.mem_of_getElem? this)

theorem slash_of_no_slash (h : '/' ∉ pre) {as bs : List Cell}
    (hcells : cells (pre ++ post) = as ++ ⟨'/', false⟩ :: bs) : bs.length ≠ post.length := by
  intro hlen
  have hchars := congrArg (List.map (·.char)) hcells
  rw [cells_char, List.map_append, List.map_cons] at hchars
  have hlt : as.length < pre.length := by
    have := congrArg List.length hchars
    simp only [List.length_append, List.length_map, List.length_cons] at this
    omega
  have hslash : (pre ++ post)[as.length]? = some '/' := by simp [hchars]
  rw [List.getElem?_append_left hlt] at hslash
  exact h (List.mem_of_getElem? hslash)

theorem insignificant_of_no_slash (hg : Filler g) (hslash : '/' ∉ pre)
    (hkinds : (before ++ after).all fun t => t.kind != .initializer && t.kind != .docComment)
    (hlast : before.getLast?.all fun t => !t.endsWord) : Insignificant pre g post before after := by
  have hkind {t : Token} (ht : t ∈ before ++ after) :
      t.kind ≠ .initializer ∧ t.kind ≠ .docComment := by
    simpa using List.all_eq_true.1 hkinds t ht
  have hbefore {t : Token} (ht : t ∈ before.getLast?) := hkind (t := t)
    (List.mem_append_left _ (List.mem_of_getLast? ht))
  refine ⟨hg, fun t ht hdoc => absurd hdoc (hbefore ht).2, linesEnd_of_no_slash hslash,
    fun _ _ _ => slash_of_no_slash hslash, ?_, ?_, ?_, fun t ht hinit => absurd hinit (hkind ht).1⟩
  · rintro ⟨t, ht, hinit⟩
    exact absurd hinit (hbefore ht).1
  · rintro ⟨t, ht, hinit⟩
    exact absurd hinit (hkind (List.mem_append_right _ (List.mem_of_head? ht))).1
  · intro t ht u hu hstop hword
    rw [ht] at hlast
    simp [hword] at hlast

end

theorem SourceFile.parse_filler_quotes :
    let pre := "impl A \x7b fn f()".toList
    let g := "/* \" \x7d */".toList
    let post := " \x7b '\x7d' \x7d fn g(); \x7d".toList
    ∃ before after f, (SourceFile.parse (String.ofList (pre ++ post)) = .ok f ∧
        Boundary pre post before after ∧ Insignificant pre g post before after) ∧
      f.declarations.map Decl.name = ["f", "g"] ∧
      ∃ f', SourceFile.parse (String.ofList (pre ++ (g ++ post))) = .ok f' ∧
        f'.respan Span.unplaced = f.respan Span.unplaced := by
  intro pre g post
  have hrun : ∃ ts ∈ tokensAround? 11 13 pre post,
      ((ts.1 ++ ts.2).all fun t => t.kind != .initializer && t.kind != .docComment) ∧
      ts.1.getLast?.all fun t => !t.endsWord := by decide +kernel
  have hnames : (SourceFile.parse (String.ofList (pre ++ post))).toOption.map
      (·.declarations.map Decl.name) = some ["f", "g"] := by decide +kernel
  obtain ⟨⟨before, after⟩, htokens, hkinds, hlast⟩ := hrun
  obtain ⟨f, hf, hnames⟩ := Option.map_eq_some_iff.1 hnames
  have hparse := eq_ok_of_toOption hf
  have hplace := boundary_of_tokensAround? htokens
  have hg : Filler g := .block (w := " \" \x7d ".toList) (by decide)
  have h : Insignificant pre g post before after :=
    insignificant_of_no_slash hg (by decide) hkinds hlast
  exact ⟨before, after, f, ⟨hparse, hplace, h⟩, hnames, SourceFile.parse_filler hparse hplace h⟩

def Attribute.text? (a : Attribute) : Option String :=
  match a.form with
  | .value l => l.str?
  | _ => none

theorem Attribute.text?_respan (μ : Span → Span) (a : Attribute) :
    (a.respan μ).text? = a.text? := by
  obtain ⟨path, _ | args | l, inner, s⟩ := a <;> rfl

def Decl.verbatim : Decl → List String
  | fn d => d.attrs.filterMap Attribute.text?
  | const d => d.attrs.filterMap Attribute.text? ++ [d.value]

theorem Decl.verbatim_respan (μ : Span → Span) (d : Decl) : (d.respan μ).verbatim = d.verbatim := by
  have hattrs (as : List Attribute) : (as.map (Attribute.respan μ)).filterMap Attribute.text? =
      as.filterMap Attribute.text? := by
    rw [List.filterMap_map]
    exact List.filterMap_congr fun a _ => a.text?_respan μ
  cases d with
  | fn d => exact hattrs d.attrs
  | const d => exact congrArg (· ++ [d.value]) (hattrs d.attrs)

def verbatim? (text : List Char) : Option (List (List String)) :=
  (SourceFile.parse (String.ofList text)).toOption.map (·.declarations.map Decl.verbatim)

/-- With the filler `g` at a place, an accepted source is rejected or declares something else. -/
def Matters (pre g post : List Char) : Prop :=
  Filler g ∧ ∃ before after f, Boundary pre post before after ∧
    SourceFile.parse (String.ofList (pre ++ post)) = .ok f ∧
    ∀ f', SourceFile.parse (String.ofList (pre ++ (g ++ post))) = .ok f' →
      f'.respan Span.unplaced ≠ f.respan Span.unplaced

theorem matters_of_verbatim {j k : Nat} {pre g post : List Char} (hg : Filler g)
    (hplace : (tokensAround? j k pre post).isSome) (hsome : (verbatim? (pre ++ post)).isSome)
    (hne : verbatim? (pre ++ (g ++ post)) ≠ verbatim? (pre ++ post)) : Matters pre g post := by
  obtain ⟨⟨before, after⟩, htokens⟩ := Option.isSome_iff_exists.1 hplace
  obtain ⟨texts, htexts⟩ := Option.isSome_iff_exists.1 hsome
  obtain ⟨f, hf, rfl⟩ := Option.map_eq_some_iff.1 htexts
  refine ⟨hg, before, after, f, boundary_of_tokensAround? htokens, eq_ok_of_toOption hf,
    fun f' hf' hsame => hne ?_⟩
  have hdecls := congrArg SourceFile.declarations hsame
  rw [SourceFile.declarations_respan, SourceFile.declarations_respan] at hdecls
  have hverbatim := congrArg (List.map Decl.verbatim) hdecls
  simp only [List.map_map, Function.comp_def, Decl.verbatim_respan] at hverbatim
  rw [htexts, verbatim?, hf']
  exact congrArg some hverbatim

/-- A comment goes on with a doc comment, a line comment or an initializer before it, is the
initializer itself after the equals sign, and is one with a slash in a body. -/
theorem SourceFile.filler_matters :
    Matters "/// a".toList "/* b */".toList "\nfn f();".toList ∧
    Matters "// a".toList "/* b\n */".toList "\nfn f();".toList ∧
    Matters "//".toList "/* b */".toList "\nfn f();".toList ∧
    Matters "const N: T = 5".toList "/* b */".toList ";".toList ∧
    Matters "const N: T =".toList "// b\n".toList " 5;".toList ∧
    Matters "fn f() \x7b a /".toList "/* b */".toList "\x7d".toList := by
  have hblock : Filler "/* b */".toList := .block (w := " b ".toList) (by decide)
  have hbroken : Filler "/* b\n */".toList := .block (w := " b\n ".toList) (by decide)
  have hline : Filler "// b\n".toList := .line (w := " b".toList) (by decide) (by decide)
  refine ⟨?_, ?_, ?_, ?_, ?_, ?_⟩
  · exact matters_of_verbatim (j := 1) (k := 7) hblock (by decide +kernel) (by decide +kernel)
      (by decide +kernel)
  · exact matters_of_verbatim (j := 1) (k := 7) hbroken (by decide +kernel) (by decide +kernel)
      (by decide +kernel)
  · exact matters_of_verbatim (j := 1) (k := 7) hblock (by decide +kernel) (by decide +kernel)
      (by decide +kernel)
  · exact matters_of_verbatim (j := 10) (k := 1) hblock (by decide +kernel) (by decide +kernel)
      (by decide +kernel)
  · exact matters_of_verbatim (j := 8) (k := 3) hline (by decide +kernel) (by decide +kernel)
      (by decide +kernel)
  · exact matters_of_verbatim (j := 8) (k := 1) hblock (by decide +kernel) (by decide +kernel)
      (by decide +kernel)

end NativeBinding
