import NativeBinding.Proofs.Body.Masking
import NativeBinding.Proofs.Grammar.Lexemes

/-!
How far a reader looks. Except for the initializer of a constant, a lexeme or a gap at the head of a
text is decided before the first brace or inside an inert region, so two texts that are alike up to
there are read alike.
-/

namespace NativeBinding.Grammar

open Text Body

section

variable {prev : Option Char} {u v : List Char}

theorem eq_of_region (h : Alike prev u v) {n : Nat} (hn : inertLength prev u = some n)
    (hle : u.length ≤ n) : u = v := by
  obtain ⟨htake, hdrop⟩ := h.region n hn
  rw [List.drop_eq_nil_of_le hle] at hdrop
  rw [List.take_of_length_le hle] at htake
  rw [htake, ← List.append_nil (v.take n), ← hdrop.nil_right, List.take_append_drop]

theorem eq_append_of_isPrefixOf {w cs : List Char} (h : w.isPrefixOf cs) :
    ∃ rest, cs = w ++ rest := by
  obtain ⟨rest, rfl⟩ := List.isPrefixOf_iff_prefix.1 h
  exact ⟨rest, rfl⟩

/-- Both texts start with a word without braces, or neither does. -/
theorem starts_or_not (h : Agree u v) {w : List Char} (hw : '{' ∉ w) :
    (∃ a b, u = w ++ a ∧ v = w ++ b) ∨ (¬ w.isPrefixOf u ∧ ¬ w.isPrefixOf v) := by
  by_cases hu : w.isPrefixOf u
  · have hv := hu
    rw [h.isPrefixOf_eq hw] at hv
    obtain ⟨a, ha⟩ := eq_append_of_isPrefixOf hu
    obtain ⟨b, hb⟩ := eq_append_of_isPrefixOf hv
    exact Or.inl ⟨a, b, ha, hb⟩
  · exact Or.inr ⟨hu, by rwa [h.isPrefixOf_eq hw] at hu⟩

theorem nameLength_agree (h : Agree u v) : nameLength u = nameLength v := by
  cases h with
  | refl => rfl
  | brace => rfl
  | cons c rest => rw [nameLength, nameLength, rest.takeWhile_eq (by decide)]

theorem identLength_agree (h : Agree u v) : identLength u = identLength v := by
  have hname := nameLength_agree h
  rcases starts_or_not h (w := ['r', '#']) (by decide) with ⟨a, b, rfl, rfl⟩ | ⟨hu, hv⟩
  · have hrest : Agree a b := h.drop (n := 2) (by simp)
    simp only [List.cons_append, List.nil_append, identLength] at *
    rw [nameLength_agree hrest, hname]
  · have plain {cs : List Char} (hcs : ¬ ['r', '#'].isPrefixOf cs) :
        identLength cs = nameLength cs := by
      unfold identLength
      split
      · exact absurd (by simp) hcs
      · rfl
    rw [plain hu, plain hv, hname]

theorem unsignedLength_agree (h : Agree u v) : unsignedLength u = unsignedLength v := by
  have htake := h.takeWhile_eq (p := isDigit) (by decide)
  rw [unsignedLength, unsignedLength, ← htake]
  split
  · rfl
  · next whole hw =>
    have hdrop : Agree (u.drop (whole + 1)) (v.drop (whole + 1)) := by
      refine h.drop fun hmem => ?_
      have := takeWhile_take (Nat.le_of_eq hw.symm) _ hmem
      revert this
      decide
    generalize u.drop (whole + 1) = a at hdrop
    generalize v.drop (whole + 1) = b at hdrop
    cases hdrop with
    | refl => rfl
    | brace => rfl
    | cons c rest =>
      by_cases hc : c = '.'
      · subst hc
        simp only [rest.takeWhile_eq (p := isDigit) (by decide)]
      · simp [hc]

theorem numberLength_agree (h : Agree u v) : numberLength u = numberLength v := by
  rcases starts_or_not h (w := ['-']) (by decide) with ⟨a, b, rfl, rfl⟩ | ⟨hu, hv⟩
  · have hrest : Agree a b := h.drop (n := 1) (by simp)
    simp only [List.cons_append, List.nil_append, numberLength]
    rw [unsignedLength_agree hrest]
  · have plain {cs : List Char} (hcs : ¬ ['-'].isPrefixOf cs) :
        numberLength cs = unsignedLength cs := by
      unfold numberLength
      split
      · exact absurd (by simp) hcs
      · rfl
    rw [plain hu, plain hv, unsignedLength_agree h]

theorem lifetimeLength_agree (h : Agree u v) : lifetimeLength u = lifetimeLength v := by
  rcases starts_or_not h (w := ['\'']) (by decide) with ⟨a, b, rfl, rfl⟩ | ⟨hu, hv⟩
  · have hrest : Agree a b := h.drop (n := 1) (by simp)
    simp only [List.cons_append, List.nil_append, lifetimeLength]
    rw [nameLength_agree hrest]
  · have none_of {cs : List Char} := @Kind.length_eq_none_of_opening cs (.terminal .lifetime)
    exact (none_of hu).trans (none_of hv).symm

theorem stringLength_alike (h : Alike prev u v) : stringLength u = stringLength v := by
  rcases starts_or_not h.agree (w := ['"']) (by decide) with ⟨a, b, rfl, rfl⟩ | ⟨hu, hv⟩
  · have hregion : inertLength prev ('"' :: a) = some (1 + quotedLength a) := rfl
    simp only [List.cons_append, List.nil_append] at *
    cases hrest : stringRest a with
    | none =>
      have hlen : quotedLength a = a.length := by rw [quotedLength_eq, hrest]; rfl
      rw [eq_of_region h hregion (by simp only [List.length_cons, hlen]; omega)]
    | some n =>
      have hlen : quotedLength a = n := by rw [quotedLength_eq, hrest]; rfl
      have htake := (h.region _ hregion).1
      rw [hlen, Nat.add_comm, List.take_succ_cons, List.take_succ_cons] at htake
      rw [stringLength, stringLength, hrest, stringRest_of_take hrest (List.cons.inj htake).2]
  · have none_of {cs : List Char} := @Kind.length_eq_none_of_opening cs (.terminal .string)
    exact (none_of hu).trans (none_of hv).symm

theorem blockComment_alike (h : Alike prev u v) :
    Gap.blockComment.length u = Gap.blockComment.length v := by
  rcases starts_or_not h.agree (w := ['/', '*']) (by decide) with ⟨a, b, rfl, rfl⟩ | ⟨hu, hv⟩
  · have hregion : inertLength prev ('/' :: '*' :: a) = some (2 + throughMark ['*', '/'] a) := rfl
    simp only [List.cons_append, List.nil_append] at *
    cases hrest : commentRest a with
    | none =>
      have hlen : throughMark ['*', '/'] a = a.length := by rw [throughMark_eq, hrest]; rfl
      rw [eq_of_region h hregion (by simp only [List.length_cons, hlen]; omega)]
    | some n =>
      have hlen : throughMark ['*', '/'] a = n := by rw [throughMark_eq, hrest]; rfl
      have htake := (h.region _ hregion).1
      rw [hlen, Nat.add_comm] at htake
      have htake : a.take n = b.take n := by simpa using htake
      rw [Gap.length, Gap.length, hrest, commentRest_of_take hrest htake]
  · have none_of {cs : List Char} := @Kind.length_eq_none_of_opening cs (.gap .blockComment)
    exact (none_of hu).trans (none_of hv).symm

theorem takeWhile_eq_of_take {p : Char → Bool} {cs ds : List Char}
    (htake : cs.take (cs.takeWhile p).length = ds.take (cs.takeWhile p).length)
    (hhead : (cs.drop (cs.takeWhile p).length).head? = (ds.drop (cs.takeWhile p).length).head?) :
    cs.takeWhile p = ds.takeWhile p := by
  induction cs generalizing ds with
  | nil =>
    cases ds with
    | nil => rfl
    | cons d ds => simp at hhead
  | cons c cs ih =>
    cases ds with
    | nil =>
      by_cases hc : p c <;> simp [hc] at htake hhead
    | cons d ds =>
      by_cases hc : p c
      · simp only [List.takeWhile_cons, hc, if_true, List.length_cons, List.take_succ_cons,
          List.drop_succ_cons, List.cons.injEq] at htake hhead
        obtain ⟨rfl, htake⟩ := htake
        simp [hc, ih htake hhead]
      · obtain rfl : c = d := by simpa [hc] using hhead
        simp [hc]

theorem lineRest_eq {a b : List Char} (h : Alike prev ('/' :: '/' :: a) ('/' :: '/' :: b)) :
    a.takeWhile (· != '\n') = b.takeWhile (· != '\n') := by
  obtain ⟨htake, hdrop⟩ := h.region (2 + (a.takeWhile (· != '\n')).length) rfl
  rw [Nat.add_comm] at htake hdrop
  exact takeWhile_eq_of_take (by simpa using htake) (by simpa using hdrop.head?_eq)

theorem lineComment_alike (h : Alike prev u v) :
    Gap.lineComment.length u = Gap.lineComment.length v := by
  rcases starts_or_not h.agree (w := ['/', '/']) (by decide) with ⟨a, b, rfl, rfl⟩ | ⟨hu, hv⟩
  · simp only [List.cons_append, List.nil_append, Gap.length] at *
    rw [lineRest_eq h]
  · have none_of {cs : List Char} := @Kind.length_eq_none_of_opening cs (.gap .lineComment)
    exact (none_of hu).trans (none_of hv).symm

theorem docCommentLength_alike (h : Alike prev u v) : docCommentLength u = docCommentLength v := by
  rcases starts_or_not h.agree (w := ['/', '/', '/']) (by decide) with ⟨a, b, rfl, rfl⟩ | ⟨hu, hv⟩
  · simp only [List.cons_append, List.nil_append, docCommentLength] at *
    have hline := congrArg List.length (lineRest_eq h)
    simp only [List.takeWhile_cons] at hline
    simp only [Option.some.injEq]
    simpa using hline
  · have none_of {cs : List Char} := @Kind.length_eq_none_of_opening cs (.terminal .docComment)
    exact (none_of hu).trans (none_of hv).symm

theorem spellingLength_agree (h : Agree u v) {word : String}
    (hword : '{' ∉ word.toList ∨ word.toList = ['{']) :
    spellingLength word u = spellingLength word v := by
  rw [spellingLength, spellingLength]
  rcases hword with hword | hword
  · rw [h.isPrefixOf_eq hword]
  · have hhead (cs : List Char) : ['{'].isPrefixOf cs = (cs.head? == some '{') := by
      cases cs with
      | nil => rfl
      | cons c cs => simp [List.isPrefixOf, BEq.comm]
    rw [hword, hhead, hhead, h.head?_eq]

theorem Kind.length_alike (h : Alike prev u v) (k : Kind) (hk : k ≠ .terminal .initializer) :
    k.length u = k.length v := by
  cases k with
  | gap g =>
    cases g with
    | blockComment => exact blockComment_alike h
    | space =>
      rw [Kind.length, Kind.length, Gap.length, Gap.length,
        h.agree.takeWhile_eq (p := isGapSpace) (by decide)]
    | lineComment => exact lineComment_alike h
  | terminal t =>
    cases t with
    | docComment => exact docCommentLength_alike h
    | ident => exact identLength_agree h.agree
    | lifetime => exact lifetimeLength_agree h.agree
    | string => exact stringLength_alike h
    | number => exact numberLength_agree h.agree
    | initializer => exact absurd rfl hk
    | lbrace => exact spellingLength_agree h.agree (Or.inr rfl)
    | _ => exact spellingLength_agree h.agree (Or.inl (by decide))

theorem Gap.length_alike (h : Alike prev u v) (g : Gap) : g.length u = g.length v :=
  Kind.length_alike h (.gap g) nofun

theorem Kind.take_alike (h : Alike prev u v) (k : Kind) (hk : k ≠ .terminal .initializer) {n : Nat}
    (hn : k.length u = some n) : u.take n = v.take n := by
  have unbraced {p : Char → Prop} (hp : ¬ p '{') (hall : ∀ c ∈ u.take n, p c) :
      u.take n = v.take n :=
    h.agree.take_eq fun hmem => hp (hall _ hmem)
  by_cases hregion : k.isRegion
  · exact (h.region n (Kind.inertLength_eq k hregion hn prev)).1
  · cases k with
    | gap g =>
      cases g with
      | space => exact unbraced (p := (isGapSpace ·)) (by decide) (Gap.space_chars hn)
      | _ => exact absurd rfl hregion
    | terminal t =>
      have hn : t.lexemeLength u = some n := hn
      cases t with
      | docComment | string => exact absurd rfl hregion
      | initializer => exact absurd rfl hk
      | ident =>
        obtain ⟨⟨raw, name, htext, hraw, -, hname⟩, -⟩ := identLength_spec hn
        refine h.agree.take_eq ?_
        rw [htext]
        intro hmem
        rcases List.mem_append.1 hmem with hmem | hmem
        · rcases hraw with rfl | rfl <;> simp at hmem
        · exact absurd (hname _ hmem) (by decide)
      | lifetime =>
        obtain ⟨⟨name, htext, -, hname⟩, -⟩ := lifetimeLength_spec hn
        refine h.agree.take_eq ?_
        rw [htext]
        intro hmem
        rcases List.mem_cons.1 hmem with hmem | hmem
        · exact absurd hmem (by decide)
        · exact absurd (hname _ hmem) (by decide)
      | number =>
        exact unbraced (p := fun c => isDigit c ∨ c = '.' ∨ c = '-') (by decide)
          (numberLength_chars hn)
      | lbrace =>
        have hv : Terminal.lbrace.lexemeLength v = some n := by
          rw [← hn]
          exact (Kind.length_alike h _ hk).symm
        rw [Terminal.take_of_spelling (by rfl) hn, Terminal.take_of_spelling (by rfl) hv]
      | _ =>
        refine h.agree.take_eq ?_
        rw [Terminal.take_of_spelling (by rfl) hn]
        decide

theorem scan_alike (h : Alike prev u v) {expected : List Terminal}
    (hexpected : .initializer ∉ expected) : scan expected u = scan expected v := by
  have hfit : fit expected u = fit expected v := by
    funext k
    cases k with
    | gap g =>
      have hg : g.length u = g.length v := Gap.length_alike h g
      rw [fit, fit, hg]
    | terminal t =>
      rw [fit, fit]
      split
      · next ht =>
        have ht : t ≠ .initializer := by
          rintro rfl
          exact hexpected (by simpa using ht)
        have ht : t.lexemeLength u = t.lexemeLength v :=
          Kind.length_alike h (.terminal t) (by simpa using ht)
        rw [ht]
      · rfl
  rw [scan_eq, scan_eq, ← hfit]
  split
  · rfl
  · next n hfind =>
    rw [Kind.take_alike h (.terminal .ident) (by decide) (length_of_fit hfind).1]
  · rfl
  · rfl

end

end NativeBinding.Grammar
