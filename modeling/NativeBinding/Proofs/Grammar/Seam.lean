import NativeBinding.Proofs.Grammar.Words

/-!
Pieces at a seam. A lexeme or a comment is scanned alike whether the text after it goes on with the
same character or with white space or a comment instead.
-/

namespace NativeBinding.Grammar

open Text

/-- A text goes on with the same character as another, or with a gap. -/
def Near (rest rest' : List Char) : Prop :=
  rest'.head? = rest.head? ∨ ∃ c ∈ rest'.head?, c = '/' ∨ isGapSpace c

theorem Near.not {rest rest' : List Char} (h : Near rest rest') {p : Char → Bool}
    (hp : ['/', ' ', '\t', '\x0c', '\r', '\n'].all fun c => !p c)
    (hrest : ∀ c ∈ rest.head?, p c = false) : ∀ c ∈ rest'.head?, p c = false := by
  rw [List.all_eq_true] at hp
  rcases h with heq | ⟨c, hc, hgap⟩
  · rwa [heq]
  · intro d hd
    obtain rfl := Option.mem_unique hc hd
    rcases hgap with rfl | hspace
    · simpa using hp '/' (by simp)
    · rcases isGapSpace_cases hspace with rfl | rfl | rfl | rfl | rfl <;> simpa using hp _ (by simp)

/-- What a piece asks of the texts after it. A comment to the end of its line ends with the line,
the letter `r` is not followed by a raw mark nor a number by a point. -/
structure Kind.Seam (k : Kind) (w rest rest' : List Char) : Prop where
  near : Near rest rest'
  line : k = .terminal .docComment ∨ k = .gap .lineComment →
    rest'.head? = rest.head? ∨ rest'.head? = some '\n'
  raw : w = ['r'] → rest.head? ≠ some '#'
  point : k = .terminal .number → rest.head? ≠ some '.'

section

variable {w rest rest' : List Char}

theorem length_takeWhile_append_iff {p : Char → Bool} :
    ((w ++ rest).takeWhile p).length = w.length ↔
      (∀ c ∈ w, p c) ∧ ∀ c ∈ rest.head?, p c = false := by
  constructor
  · intro h
    have hw : (w ++ rest).takeWhile p = w := by
      rw [← take_length_takeWhile, h, List.take_left]
    have hrest : (w ++ rest).dropWhile p = rest := by
      rw [← drop_length_takeWhile, h, List.drop_left]
    refine ⟨fun c hc => List.mem_takeWhile_imp (l := w ++ rest) (by rwa [hw]), fun c hc => ?_⟩
    have hstop := List.head?_dropWhile_not p (w ++ rest)
    rw [hrest, hc] at hstop
    simpa using hstop
  · rintro ⟨hw, hrest⟩
    rw [takeWhile_of_stop hw hrest]

theorem Kind.eq_opening_append {k : Kind} (h : k.length (w ++ rest) = some w.length) :
    ∃ v, w = k.opening ++ v := by
  have hpre := opening_spec h
  rw [List.take_left] at hpre
  obtain ⟨v, hv⟩ := hpre
  exact ⟨v, hv.symm⟩

theorem line_iff (opening : List Char) {length : List Char → Option Nat}
    (hlength : ∀ {cs n}, length cs = some n ↔
      ∃ r, cs = opening ++ r ∧ n = (r.takeWhile (· != '\n')).length + opening.length) :
    length (w ++ rest) = some w.length ↔ ∃ v, w = opening ++ v ∧
      (∀ c ∈ v, (c != '\n') = true) ∧ ∀ c ∈ rest.head?, (c != '\n') = false := by
  rw [hlength]
  constructor
  · rintro ⟨r, heq, hlen⟩
    have hopening : opening <+: w :=
      List.prefix_of_prefix_length_le ⟨r, heq.symm⟩ ⟨rest, rfl⟩ (hlen ▸ Nat.le_add_left ..)
    obtain ⟨v, rfl⟩ := hopening
    rw [List.append_assoc] at heq
    obtain rfl := List.append_cancel_left heq
    rw [List.length_append, Nat.add_comm] at hlen
    exact ⟨v, rfl, length_takeWhile_append_iff.1 (Nat.add_right_cancel hlen).symm⟩
  · rintro ⟨v, rfl, hv⟩
    refine ⟨v ++ rest, List.append_assoc .., ?_⟩
    rw [length_takeWhile_append_iff.2 hv, List.length_append, Nat.add_comm]

theorem lineComment_iff : Gap.lineComment.length (w ++ rest) = some w.length ↔
    ∃ v, w = '/' :: '/' :: v ∧ (∀ c ∈ v, (c != '\n') = true) ∧
      ∀ c ∈ rest.head?, (c != '\n') = false :=
  line_iff ['/', '/'] Gap.lineComment_eq_some_iff

theorem docComment_iff : docCommentLength (w ++ rest) = some w.length ↔
    ∃ v, w = '/' :: '/' :: '/' :: v ∧ (∀ c ∈ v, (c != '\n') = true) ∧
      ∀ c ∈ rest.head?, (c != '\n') = false :=
  line_iff ['/', '/', '/'] docCommentLength_eq_some_iff

theorem unsignedLength_next {cs : List Char} {n : Nat} (h : unsignedLength cs = some n) :
    ∀ c ∈ (cs.drop n).head?, isDigit c = false := by
  obtain ⟨whole, hw, rfl | ⟨rest, fraction, hdrop, hf, rfl⟩⟩ := unsignedLength_cases h
  · have hstop := head?_drop_takeWhile isDigit cs
    rwa [hw] at hstop
  · have hstop := head?_drop_takeWhile isDigit rest
    rw [hf] at hstop
    rwa [← List.drop_drop, hdrop, List.drop_succ_cons]

theorem numberLength_next {cs : List Char} {n : Nat} (h : numberLength cs = some n) :
    ∀ c ∈ (cs.drop n).head?, isDigit c = false := by
  rcases numberLength_cases h with hm | ⟨rest, m, rfl, hm, rfl⟩
  · exact unsignedLength_next hm
  · rw [List.drop_succ_cons]
    exact unsignedLength_next hm

theorem take_append_eq (w rest rest' : List Char) :
    (w ++ rest).take w.length = (w ++ rest').take w.length := by
  rw [List.take_left, List.take_left]

theorem blockComment_append (h : Gap.blockComment.length (w ++ rest) = some w.length)
    (rest' : List Char) : Gap.blockComment.length (w ++ rest') = some w.length := by
  obtain ⟨v, rfl⟩ := Kind.eq_opening_append (k := .gap .blockComment) h
  obtain ⟨cs, m, heq, hm, hlen⟩ := Gap.blockComment_eq_some_iff.1 h
  cases heq
  have hlen : v.length + 2 = m + 2 := hlen
  obtain rfl := Nat.add_right_cancel hlen
  exact Gap.blockComment_eq_some_iff.2
    ⟨v ++ rest', v.length, rfl, commentRest_of_take hm (take_append_eq v rest rest'), rfl⟩

theorem stringLength_append (h : stringLength (w ++ rest) = some w.length) (rest' : List Char) :
    stringLength (w ++ rest') = some w.length := by
  obtain ⟨v, rfl⟩ := Kind.eq_opening_append (k := .terminal .string) h
  obtain ⟨cs, m, heq, hm, hlen⟩ := stringLength_eq_some_iff.1 h
  cases heq
  obtain rfl : v.length = m := Nat.add_right_cancel hlen
  exact stringLength_eq_some_iff.2
    ⟨v ++ rest', v.length, rfl, stringRest_of_take hm (take_append_eq v rest rest'), rfl⟩

theorem identLength_seam (h : identLength (w ++ rest) = some w.length) (hnear : Near rest rest')
    (hraw : w = ['r'] → rest.head? ≠ some '#') : identLength (w ++ rest') = some w.length := by
  have hw := isIdent_take h
  have hnext := (identLength_spec h).2
  rw [List.take_left] at hw
  rw [List.drop_left] at hnext
  refine hw.identLength_append (hnear.not (by decide) hnext) fun hr heq => ?_
  have hnot := hnear.not (p := (· == '#')) (by decide) fun c hc => by
    have := hraw hr
    rw [hc] at this
    simpa using this
  exact absurd (hnot '#' heq) (by decide)

theorem lifetimeLength_seam (h : lifetimeLength (w ++ rest) = some w.length)
    (hnear : Near rest rest') : lifetimeLength (w ++ rest') = some w.length := by
  have hw := isLifetime_take h
  have hnext := (lifetimeLength_spec h).2
  rw [List.take_left] at hw
  rw [List.drop_left] at hnext
  obtain ⟨name, rfl, hname⟩ := hw
  rw [List.cons_append, lifetimeLength, hname.nameLength (hnear.not (by decide) hnext)]
  rfl

theorem numberLength_seam (h : numberLength (w ++ rest) = some w.length) (hnear : Near rest rest')
    (hpoint : rest.head? ≠ some '.') : numberLength (w ++ rest') = some w.length := by
  have hw := isNumber_take h
  have hnext := numberLength_next h
  rw [List.take_left] at hw
  rw [List.drop_left] at hnext
  have hnot := hnear.not (p := (· == '.')) (by decide) fun c hc => by
    rw [hc] at hpoint
    simpa using hpoint
  exact hw.numberLength_append (hnear.not (by decide +kernel) hnext)
    fun heq => absurd (hnot '.' heq) (by decide)

theorem Kind.length_seam {k : Kind} (hinit : k ≠ .terminal .initializer) (hspace : k ≠ .gap .space)
    (h : k.length (w ++ rest) = some w.length) (hseam : k.Seam w rest rest') :
    k.length (w ++ rest') = some w.length := by
  have hline (hk : k = .terminal .docComment ∨ k = .gap .lineComment)
      (hrest : ∀ c ∈ rest.head?, (c != '\n') = false) : ∀ c ∈ rest'.head?, (c != '\n') = false := by
    rcases hseam.line hk with heq | heq
    · rwa [heq]
    · rw [heq]
      simp
  cases k with
  | gap g =>
    cases g with
    | space => exact absurd rfl hspace
    | blockComment => exact blockComment_append h rest'
    | lineComment =>
      obtain ⟨v, rfl, hv, hrest⟩ := lineComment_iff.1 h
      exact lineComment_iff.2 ⟨v, rfl, hv, hline (Or.inr rfl) hrest⟩
  | terminal t =>
    have h : t.lexemeLength (w ++ rest) = some w.length := h
    change t.lexemeLength (w ++ rest') = some w.length
    cases t with
    | initializer => exact absurd rfl hinit
    | docComment =>
      obtain ⟨v, rfl, hv, hrest⟩ := docComment_iff.1 h
      exact docComment_iff.2 ⟨v, rfl, hv, hline (Or.inl rfl) hrest⟩
    | ident => exact identLength_seam h hseam.near hseam.raw
    | lifetime => exact lifetimeLength_seam h hseam.near
    | string => exact stringLength_append h rest'
    | number => exact numberLength_seam h hseam.near (hseam.point rfl)
    | _ =>
      refine Terminal.lexemeLength_of_take (by rfl) (by simp) ?_
      rw [← take_append_eq w rest rest', ← Terminal.take_of_spelling (by rfl) h]

end

def Kind.classes : List Kind :=
  [.terminal .docComment, .terminal .ident, .terminal .lifetime, .terminal .string,
   .gap .blockComment, .terminal .number, .gap .space, .terminal .initializer, .gap .lineComment]

theorem priority_eq : priority = Kind.classes ++ Terminal.spelled.map .terminal := rfl

theorem identLength_cons (c : Char) (cs : List Char) :
    (identLength (c :: cs)).isSome = isIdentStart c := by
  have hname : (nameLength (c :: cs)).isSome = isIdentStart c := by
    rw [nameLength]
    split <;> simp [*]
  rw [identLength.eq_def]
  split
  · next rest heq =>
    cases heq
    cases nameLength rest <;> simp [hname]
    decide
  · exact hname

theorem Gap.space_length_cons (c : Char) (cs : List Char) :
    (Gap.space.length (c :: cs)).isSome = isGapSpace c := by
  rw [Gap.length]
  · by_cases hc : isGapSpace c <;> simp [hc]

theorem unsignedLength_cons (c : Char) (cs : List Char) :
    (unsignedLength (c :: cs)).isSome = isDigit c := by
  by_cases hc : isDigit c
  · rw [unsignedLength, List.takeWhile_cons_of_pos hc, hc, List.length_cons]
    dsimp only
    split
    · split <;> rfl
    · rfl
  · rw [unsignedLength, List.takeWhile_cons_of_neg hc]
    simp [hc]

theorem numberLength_cons {c : Char} (hc : c ≠ '-') (cs : List Char) :
    (numberLength (c :: cs)).isSome = isDigit c := by
  rw [numberLength.eq_def]
  split
  · next heq => exact absurd (List.cons.inj heq).1 hc
  · exact unsignedLength_cons c cs

theorem docComment_eq_none_iff {cs : List Char} :
    docCommentLength ('/' :: '/' :: cs) = none ↔ cs.head? ≠ some '/' := by
  rw [docCommentLength.eq_def]
  split
  · next heq =>
    cases heq
    simp
  · next hnone =>
    refine iff_of_true rfl fun hslash => ?_
    obtain ⟨w, rfl⟩ := List.head?_eq_some_iff.1 hslash
    exact hnone w rfl

section

variable {w rest rest' : List Char} {k : Kind}

theorem Kind.slash_cases {v : List Char} (hinit : k ≠ .terminal .initializer)
    (hk : k.length ('/' :: v ++ rest) = some ('/' :: v).length) :
    (k = .terminal .docComment ∧ ∃ u, v = '/' :: '/' :: u) ∨
      (k = .gap .blockComment ∧ ∃ u, v = '*' :: u) ∨ k = .gap .lineComment ∧ ∃ u, v = '/' :: u := by
  obtain ⟨u, hu⟩ := eq_opening_append hk
  rcases Kind.starts_slash hk with rfl | rfl | rfl | rfl
  · exact Or.inl ⟨rfl, u, (List.cons.inj hu).2⟩
  · exact absurd rfl hinit
  · exact Or.inr (Or.inl ⟨rfl, u, (List.cons.inj hu).2⟩)
  · exact Or.inr (Or.inr ⟨rfl, u, (List.cons.inj hu).2⟩)

section

variable {c : Char} {v : List Char} (hinit : k ≠ .terminal .initializer)
  (hk : k.length (c :: v ++ rest) = some (c :: v).length)

include hinit hk

theorem docComment_none_seam (hseam : k.Seam (c :: v) rest rest') (hne : k ≠ .terminal .docComment)
    (h : docCommentLength (c :: v ++ rest) = none) :
    docCommentLength (c :: v ++ rest') = none := by
  refine Option.eq_none_iff_forall_ne_some.2 fun n hn => ?_
  obtain ⟨cs, heq, -⟩ := docCommentLength_eq_some_iff.1 hn
  obtain ⟨rfl, htail⟩ := List.cons.inj heq
  rcases Kind.slash_cases hinit hk with ⟨rfl, -⟩ | ⟨-, u, rfl⟩ | ⟨rfl, u, rfl⟩
  · exact hne rfl
  · cases htail
  · -- A line comment, which only a third slash would make a doc comment.
    rw [List.cons_append, List.cons_append, docComment_eq_none_iff] at h
    cases u with
    | nil =>
      obtain rfl : rest' = '/' :: cs := (List.cons.inj htail).2
      rcases hseam.line (Or.inr rfl) with heq | heq
      · exact h heq.symm
      · cases heq
    | cons d u =>
      cases htail
      exact h rfl

theorem lifetime_none_seam (hne : k ≠ .terminal .lifetime) :
    lifetimeLength (c :: v ++ rest') = none := by
  refine Option.eq_none_iff_forall_ne_some.2 fun n hn => ?_
  obtain ⟨cs, m, heq, -⟩ := lifetimeLength_eq_some_iff.1 hn
  cases heq
  exact (Kind.starts_tick hk).elim hne hinit

theorem string_none_seam (hne : k ≠ .terminal .string) :
    stringLength (c :: v ++ rest') = none := by
  refine Option.eq_none_iff_forall_ne_some.2 fun n hn => ?_
  obtain ⟨cs, m, heq, -⟩ := stringLength_eq_some_iff.1 hn
  cases heq
  exact (Kind.starts_quote hk).elim hne hinit

theorem blockComment_none_seam (hne : k ≠ .gap .blockComment) :
    Gap.blockComment.length (c :: v ++ rest') = none := by
  refine Option.eq_none_iff_forall_ne_some.2 fun n hn => ?_
  obtain ⟨cs, m, heq, -⟩ := Gap.blockComment_eq_some_iff.1 hn
  obtain ⟨rfl, htail⟩ := List.cons.inj heq
  rcases Kind.slash_cases hinit hk with ⟨-, u, rfl⟩ | ⟨rfl, -⟩ | ⟨-, u, rfl⟩
  · cases htail
  · exact absurd rfl hne
  · cases htail

theorem number_none_seam (hne : k ≠ .terminal .number)
    (h : numberLength (c :: v ++ rest) = none) : numberLength (c :: v ++ rest') = none := by
  by_cases hc : c = '-'
  · subst hc
    rcases Kind.starts_minus hk with rfl | rfl | rfl
    · exact absurd rfl hne
    · -- An arrow.
      have htext := Terminal.take_of_spelling (t := .arrow) rfl hk
      rw [List.take_left] at htext
      obtain ⟨-, rfl⟩ := List.cons.inj htext
      rfl
    · exact absurd rfl hinit
  · rw [← Option.not_isSome_iff_eq_none, List.cons_append, numberLength_cons hc] at h ⊢
    exact h

theorem lineComment_none_seam (hne : k ≠ .gap .lineComment)
    (h : Gap.lineComment.length (c :: v ++ rest) = none) :
    Gap.lineComment.length (c :: v ++ rest') = none := by
  refine Option.eq_none_iff_forall_ne_some.2 fun n hn => ?_
  obtain ⟨cs, heq, -⟩ := Gap.lineComment_eq_some_iff.1 hn
  obtain ⟨rfl, htail⟩ := List.cons.inj heq
  rcases Kind.slash_cases hinit hk with ⟨-, u, rfl⟩ | ⟨-, u, rfl⟩ | ⟨rfl, -⟩
  · cases h
  · cases htail
  · exact hne rfl

end

/-- A kind with a rule of its own fits before other text only if it fits. -/
theorem Kind.length_eq_none_seam (hinit : k ≠ .terminal .initializer) (hw : w ≠ [])
    (hk : k.length (w ++ rest) = some w.length) (hseam : k.Seam w rest rest') {k' : Kind}
    (hclass : k' ∈ classes) (hinit' : k' ≠ .terminal .initializer)
    (h : k'.length (w ++ rest) = none) : k'.length (w ++ rest') = none := by
  obtain ⟨c, v, rfl⟩ := List.exists_cons_of_ne_nil hw
  have hne : k ≠ k' := by
    rintro rfl
    rw [hk] at h
    cases h
  simp only [classes, List.mem_cons, List.not_mem_nil, or_false] at hclass
  rcases hclass with rfl | rfl | rfl | rfl | rfl | rfl | rfl | rfl | rfl
  · exact docComment_none_seam hinit hk hseam hne h
  · change identLength (c :: (v ++ rest)) = none at h
    change identLength (c :: (v ++ rest')) = none
    rwa [← Option.not_isSome_iff_eq_none, identLength_cons] at h ⊢
  · exact lifetime_none_seam hinit hk hne
  · exact string_none_seam hinit hk hne
  · exact blockComment_none_seam hinit hk hne
  · exact number_none_seam hinit hk hne h
  · change Gap.space.length (c :: (v ++ rest)) = none at h
    change Gap.space.length (c :: (v ++ rest')) = none
    rwa [← Option.not_isSome_iff_eq_none, Gap.space_length_cons] at h ⊢
  · exact absurd rfl hinit'
  · exact lineComment_none_seam hinit hk hne h

theorem findSome?_congr {α β : Type} {f g : α → Option β} {as : List α} {b : β}
    (h : as.findSome? f = some b) (hnone : ∀ a ∈ as, f a = none → g a = none)
    (hsome : ∀ a ∈ as, f a = some b → g a = some b) : as.findSome? g = some b := by
  induction as with
  | nil => cases h
  | cons a as ih =>
    rw [List.findSome?_cons] at h ⊢
    cases ha : f a with
    | none =>
      rw [ha] at h
      rw [hnone a List.mem_cons_self ha]
      exact ih h (fun b hb => hnone b (List.mem_cons_of_mem a hb))
        fun b hb => hsome b (List.mem_cons_of_mem a hb)
    | some b' =>
      rw [ha] at h
      cases h
      rw [hsome a List.mem_cons_self ha]

theorem fit_eq_some_iff {expected : List Terminal} {cs : List Char} {k k' : Kind} {n : Nat} :
    fit expected cs k = some (k', n) ↔
      k' = k ∧ k.length cs = some n ∧ ∀ t, k = .terminal t → t ∈ expected := by
  cases k with
  | gap g =>
    rw [fit, Option.map_eq_some_iff]
    constructor
    · rintro ⟨m, hm, heq⟩
      cases heq
      exact ⟨rfl, hm, fun t h => by cases h⟩
    · rintro ⟨rfl, hm, -⟩
      exact ⟨n, hm, rfl⟩
  | terminal t =>
    rw [fit]
    split
    · next ht =>
      rw [Option.map_eq_some_iff]
      constructor
      · rintro ⟨m, hm, heq⟩
        cases heq
        exact ⟨rfl, hm, by rintro _ ⟨⟩; simpa using ht⟩
      · rintro ⟨rfl, hm, -⟩
        exact ⟨n, hm, rfl⟩
    · next ht =>
      refine iff_of_false (by simp) ?_
      rintro ⟨-, -, hmem⟩
      exact ht (by simpa using hmem t rfl)

theorem Terminal.eq_colons_of_longer : ∀ t ∈ spelled, ∀ t' ∈ spelled, ∀ word ∈ t.spelling?,
    ∀ word' ∈ t'.spelling?, word.toList <+: word'.toList → word.length < word'.length →
      t = .colon ∧ t' = .colons := by
  decide +kernel

theorem Terminal.exists_spelling {t : Terminal} (h : t ∈ spelled) :
    ∃ word, t.spelling? = some word := by
  cases t <;> first
    | exact ⟨_, rfl⟩
    | exact absurd h (by decide)

theorem Terminal.length_eq_none_seam {t t' : Terminal} (ht : t ∈ spelled) (ht' : t' ∈ spelled)
    (hlen : t.lexemeLength (w ++ rest) = some w.length) (hnear : Near rest rest')
    (h : t'.lexemeLength (w ++ rest) = none) : t'.lexemeLength (w ++ rest') = none := by
  obtain ⟨word, hword⟩ := exists_spelling ht
  obtain ⟨word', hword'⟩ := exists_spelling ht'
  have htext := take_of_spelling hword hlen
  rw [List.take_left] at htext
  by_contra hsome
  rw [← ne_eq, Option.ne_none_iff_exists'] at hsome
  obtain ⟨m, hm⟩ := hsome
  have htext' := take_of_spelling hword' hm
  have hbound := (lexemeLength_bound hm).2
  have hlen' : word'.length = m := by
    rw [← String.length_toList, ← htext', List.length_take_of_le hbound]
  rcases Nat.lt_or_ge w.length m with hlong | hshort
  · have hpre : word.toList <+: word'.toList := by
      rw [← htext, ← htext']
      exact List.prefix_take_iff.2 ⟨List.prefix_append _ _, Nat.le_of_lt hlong⟩
    obtain ⟨rfl, rfl⟩ := eq_colons_of_longer t ht t' ht' word hword word' hword' hpre (by
      rw [← String.length_toList, ← htext, hlen']
      exact hlong)
    cases hword
    cases hword'
    obtain rfl : w = [':'] := htext
    obtain rfl : m = 2 := hlen'.symm
    have hnot := hnear.not (p := (· == ':')) (by decide) fun c hc => by
      rw [beq_eq_false_iff_ne]
      rintro rfl
      obtain ⟨r, rfl⟩ := List.head?_eq_some_iff.1 hc
      cases h
    cases rest' with
    | nil => cases htext'
    | cons c r =>
      obtain rfl : c = ':' := by simpa using htext'
      exact absurd (hnot ':' rfl) (by decide)
  · rw [lexemeLength_of_take hword' (Nat.le_trans hshort (by simp)) (by
      rw [← htext', List.take_append_of_le_length hshort,
        List.take_append_of_le_length hshort])] at h
    cases h

theorem fit_eq_none_seam {expected : List Terminal} {k' : Kind} (hinit : .initializer ∉ expected)
    (hlength : k' ≠ .terminal .initializer → k'.length (w ++ rest) = none →
      k'.length (w ++ rest') = none) (h : fit expected (w ++ rest) k' = none) :
    fit expected (w ++ rest') k' = none := by
  rw [Option.eq_none_iff_forall_ne_some] at h ⊢
  rintro ⟨a, n⟩ hfit
  obtain ⟨rfl, hn, hmem⟩ := fit_eq_some_iff.1 hfit
  have hk : a ≠ .terminal .initializer := by
    rintro rfl
    exact hinit (hmem _ rfl)
  cases hrest : a.length (w ++ rest) with
  | none =>
    rw [hlength hk hrest] at hn
    cases hn
  | some m => exact h (a, m) (fit_eq_some_iff.2 ⟨rfl, hrest, hmem⟩)

theorem find_seam {expected : List Terminal} (hinit : .initializer ∉ expected)
    (hspace : k ≠ .gap .space)
    (h : priority.findSome? (fit expected (w ++ rest)) = some (k, w.length))
    (hseam : k.Seam w rest rest') :
    priority.findSome? (fit expected (w ++ rest')) = some (k, w.length) := by
  obtain ⟨hk, hmem⟩ := length_of_fit h
  have hk' : k ≠ .terminal .initializer := by
    rintro rfl
    exact hinit (hmem _ rfl)
  have hw : w ≠ [] := by
    rintro rfl
    cases k with
    | gap g => exact absurd (Gap.length_bound hk).1 (by simp)
    | terminal t => exact absurd (Terminal.lexemeLength_bound hk).1 (by simp)
  have hfits : ∀ a, fit expected (w ++ rest) a = some (k, w.length) →
      fit expected (w ++ rest') a = some (k, w.length) := by
    intro a ha
    obtain ⟨rfl, hlen, hmem⟩ := fit_eq_some_iff.1 ha
    exact fit_eq_some_iff.2 ⟨rfl, Kind.length_seam hk' hspace hlen hseam, hmem⟩
  have hclasses : ∀ a ∈ Kind.classes, fit expected (w ++ rest) a = none →
      fit expected (w ++ rest') a = none := fun a ha =>
    fit_eq_none_seam hinit (Kind.length_eq_none_seam hk' hw hk hseam ha)
  rw [priority_eq, List.findSome?_append] at h ⊢
  cases hclass : Kind.classes.findSome? (fit expected (w ++ rest)) with
  | some b =>
    rw [hclass] at h
    cases h
    rw [findSome?_congr hclass hclasses fun a _ => hfits a]
    rfl
  | none =>
    rw [hclass] at h
    have hnone : Kind.classes.findSome? (fit expected (w ++ rest')) = none := by
      rw [List.findSome?_eq_none_iff] at hclass ⊢
      exact fun a ha => hclasses a ha (hclass a ha)
    obtain ⟨a, ha, hfit⟩ := List.exists_of_findSome?_eq_some h
    obtain ⟨t, ht, rfl⟩ := List.mem_map.1 ha
    obtain ⟨rfl, -, -⟩ := fit_eq_some_iff.1 hfit
    rw [hnone]
    refine findSome?_congr h (fun a ha => ?_) fun a _ => hfits a
    obtain ⟨t', ht', rfl⟩ := List.mem_map.1 ha
    exact fit_eq_none_seam hinit fun _ => Terminal.length_eq_none_seam ht ht' hk hseam.near

theorem find_of_scan_gap {expected : List Terminal} {cs : List Char} {n : Nat}
    (h : scan expected cs = .gap n) :
    ∃ g, priority.findSome? (fit expected cs) = some (.gap g, n) := by
  rw [scan_eq] at h
  split at h
  · next hfind =>
    cases h
    exact ⟨_, hfind⟩
  all_goals cases h

theorem find_of_scan_lexeme {expected : List Terminal} {cs : List Char} {t : Terminal} {n : Nat}
    (h : scan expected cs = .lexeme t n) :
    ∃ t', priority.findSome? (fit expected cs) = some (.terminal t', n) ∧
      (t' = t ∨ t' = .ident) := by
  rw [scan_eq] at h
  split at h
  · cases h
  · next hfind =>
    cases h
    exact ⟨_, hfind, Or.inr rfl⟩
  · next hfind =>
    cases h
    exact ⟨_, hfind, Or.inl rfl⟩
  · cases h

theorem Kind.Seam.to_ident {t : Terminal} (h : (Kind.terminal t).Seam w rest rest') :
    (Kind.terminal .ident).Seam w rest rest' :=
  ⟨h.near, fun hk => by simp at hk, h.raw, nofun⟩

theorem scan_lexeme_seam {expected : List Terminal} {t : Terminal} (hinit : .initializer ∉ expected)
    (h : scan expected (w ++ rest) = .lexeme t w.length)
    (hseam : (Kind.terminal t).Seam w rest rest') :
    scan expected (w ++ rest') = .lexeme t w.length := by
  obtain ⟨t', hfind, ht'⟩ := find_of_scan_lexeme h
  have hseam' : (Kind.terminal t').Seam w rest rest' := by
    rcases ht' with rfl | rfl
    · exact hseam
    · exact hseam.to_ident
  have hterminal : Kind.terminal t' ≠ .gap .space := nofun
  rw [← h, scan_eq, scan_eq, find_seam hinit hterminal hfind hseam', hfind]
  cases t' <;> simp

theorem scan_gap_seam {expected : List Terminal} {g : Gap} (hinit : .initializer ∉ expected)
    (h : priority.findSome? (fit expected (w ++ rest)) = some (.gap g, w.length))
    (hspace : g ≠ .space) (hseam : (Kind.gap g).Seam w rest rest') :
    scan expected (w ++ rest') = .gap w.length := by
  rw [scan_eq, find_seam hinit (by simpa using hspace) h hseam]

end

end NativeBinding.Grammar
