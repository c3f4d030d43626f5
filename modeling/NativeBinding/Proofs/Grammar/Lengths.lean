import NativeBinding.Proofs.Grammar.Spelling

/-!
What the rules of the lexemes and gaps measure: which texts each of them fits, and how long it is
there. No lexeme and no gap is empty, and none is longer than the text.
-/

namespace NativeBinding.Grammar

open Text

variable {cs : List Char} {n : Nat}

theorem nameLength_eq_some_iff : nameLength cs = some n ↔
    ∃ c rest, cs = c :: rest ∧ isIdentStart c ∧ n = (rest.takeWhile isIdentRest).length + 1 := by
  constructor
  · intro h
    rw [nameLength.eq_def] at h
    split at h
    · next c rest =>
      split at h
      · next hc =>
        cases h
        exact ⟨c, rest, rfl, hc, rfl⟩
      · cases h
    · cases h
  · rintro ⟨c, rest, rfl, hc, rfl⟩
    rw [nameLength, if_pos hc]

/-- A raw mark counts only before a name; else its `r` is one. -/
theorem identLength_cases (h : identLength cs = some n) : nameLength cs = some n ∨
    ∃ rest m, cs = 'r' :: '#' :: rest ∧ nameLength rest = some m ∧ n = m + 2 := by
  rw [identLength.eq_def] at h
  split at h
  · next rest =>
    rcases Option.or_eq_some_iff.1 h with hraw | ⟨-, hname⟩
    · obtain ⟨m, hm, rfl⟩ := Option.map_eq_some_iff.1 hraw
      exact Or.inr ⟨rest, m, rfl, hm, rfl⟩
    · exact Or.inl hname
  · exact Or.inl h

theorem lifetimeLength_eq_some_iff : lifetimeLength cs = some n ↔
    ∃ rest m, cs = '\'' :: rest ∧ nameLength rest = some m ∧ n = m + 1 := by
  constructor
  · intro h
    rw [lifetimeLength.eq_def] at h
    split at h
    · obtain ⟨m, hm, rfl⟩ := Option.map_eq_some_iff.1 h
      exact ⟨_, m, rfl, hm, rfl⟩
    · cases h
  · rintro ⟨rest, m, rfl, hm, rfl⟩
    rw [lifetimeLength, hm]
    rfl

theorem stringLength_eq_some_iff : stringLength cs = some n ↔
    ∃ rest m, cs = '"' :: rest ∧ stringRest rest = some m ∧ n = m + 1 := by
  constructor
  · intro h
    rw [stringLength.eq_def] at h
    split at h
    · obtain ⟨m, hm, rfl⟩ := Option.map_eq_some_iff.1 h
      exact ⟨_, m, rfl, hm, rfl⟩
    · cases h
  · rintro ⟨rest, m, rfl, hm, rfl⟩
    rw [stringLength, hm]
    rfl

theorem unsignedLength_cases (h : unsignedLength cs = some n) :
    ∃ whole, (cs.takeWhile isDigit).length = whole + 1 ∧ (n = whole + 1 ∨
      ∃ rest fraction, cs.drop (whole + 1) = '.' :: rest ∧
        (rest.takeWhile isDigit).length = fraction + 1 ∧ n = whole + 1 + (fraction + 1 + 1)) := by
  rw [unsignedLength] at h
  split at h
  · cases h
  · next whole hwhole =>
    refine ⟨whole, hwhole, ?_⟩
    split at h
    · next rest hrest =>
      split at h
      · cases h
        exact Or.inl rfl
      · next fraction hfraction =>
        cases h
        exact Or.inr ⟨rest, fraction, hrest, hfraction, by omega⟩
    · cases h
      exact Or.inl rfl

theorem numberLength_cases (h : numberLength cs = some n) : unsignedLength cs = some n ∨
    ∃ rest m, cs = '-' :: rest ∧ unsignedLength rest = some m ∧ n = m + 1 := by
  rw [numberLength.eq_def] at h
  split at h
  · obtain ⟨m, hm, rfl⟩ := Option.map_eq_some_iff.1 h
    exact Or.inr ⟨_, m, rfl, hm, rfl⟩
  · exact Or.inl h

theorem docCommentLength_eq_some_iff : docCommentLength cs = some n ↔
    ∃ rest, cs = '/' :: '/' :: '/' :: rest ∧ n = (rest.takeWhile (· != '\n')).length + 3 := by
  constructor
  · intro h
    rw [docCommentLength.eq_def] at h
    split at h
    · cases h
      exact ⟨_, rfl, Nat.add_comm ..⟩
    · cases h
  · rintro ⟨rest, rfl, rfl⟩
    rw [docCommentLength, Nat.add_comm]

theorem Gap.blockComment_eq_some_iff : Gap.blockComment.length cs = some n ↔
    ∃ rest m, cs = '/' :: '*' :: rest ∧ commentRest rest = some m ∧ n = m + 2 := by
  constructor
  · intro h
    rw [Gap.length.eq_def] at h
    split at h
    · obtain ⟨m, hm, rfl⟩ := Option.map_eq_some_iff.1 h
      exact ⟨_, m, rfl, hm, rfl⟩
    all_goals simp_all
  · rintro ⟨rest, m, rfl, hm, rfl⟩
    rw [Gap.length, hm]
    rfl

theorem Gap.lineComment_eq_some_iff : Gap.lineComment.length cs = some n ↔
    ∃ rest, cs = '/' :: '/' :: rest ∧ n = (rest.takeWhile (· != '\n')).length + 2 := by
  constructor
  · intro h
    rw [Gap.length.eq_def] at h
    split at h
    · simp_all
    · simp_all
    · cases h
      exact ⟨_, rfl, Nat.add_comm ..⟩
    · cases h
  · rintro ⟨rest, rfl, rfl⟩
    rw [Gap.length, Nat.add_comm]

theorem Gap.space_eq_some_iff : Gap.space.length cs = some n ↔
    (cs.takeWhile isGapSpace).length = n ∧ 0 < n := by
  rw [Gap.length]
  · split
    · next hzero =>
      rw [hzero]
      exact iff_of_false nofun fun h => by omega
    · next m hm =>
      rw [hm, Option.some.injEq]
      exact ⟨fun h => ⟨h, by omega⟩, And.left⟩

theorem initializerLength_eq_some_iff : initializerLength cs = some n ↔
    ∃ c rest, cs = c :: rest ∧ c ≠ ';' ∧ isBlank c = false ∧
      n = (rest.takeWhile (· != ';')).length + 1 := by
  constructor
  · intro h
    rw [initializerLength.eq_def] at h
    split at h
    · next c rest =>
      split at h
      · cases h
      · next hc =>
        cases h
        rw [Bool.or_eq_true, not_or, beq_iff_eq, Bool.not_eq_true] at hc
        exact ⟨c, rest, rfl, hc.1, hc.2, Nat.add_comm ..⟩
    · cases h
  · rintro ⟨c, rest, rfl, hc, hblank, rfl⟩
    rw [initializerLength, if_neg (by simp [hc, hblank]), Nat.add_comm]

def Kind.startsWith : Kind → Char → Bool
  | .terminal .ident, c => isIdentStart c
  | .terminal .lifetime, c => c == '\''
  | .terminal .string, c => c == '"'
  | .terminal .number, c => isDigit c || c == '-'
  | .terminal .initializer, c => c != ';' && !isBlank c
  | .terminal .docComment, c | .gap .blockComment, c | .gap .lineComment, c => c == '/'
  | .gap .space, c => isGapSpace c
  | .terminal t, c => t.spelling?.any (·.toList.head? == some c)

theorem nameLength_starts {c : Char} (h : nameLength (c :: cs) = some n) : isIdentStart c := by
  obtain ⟨d, rest, heq, hd, -⟩ := nameLength_eq_some_iff.1 h
  rwa [(List.cons.inj heq).1]

theorem unsignedLength_starts {c : Char} (h : unsignedLength (c :: cs) = some n) : isDigit c := by
  obtain ⟨whole, hwhole, -⟩ := unsignedLength_cases h
  cases hc : isDigit c with
  | true => rfl
  | false =>
    rw [List.takeWhile_cons_of_neg (by simp [hc])] at hwhole
    cases hwhole

theorem spellingLength_starts {word : String} (hw : 0 < word.length) {c : Char}
    (h : spellingLength word (c :: cs) = some n) : word.toList.head? = some c := by
  rw [spellingLength] at h
  split at h
  · next hpre =>
    obtain ⟨rest, hrest⟩ := List.isPrefixOf_iff_prefix.1 hpre
    cases hword : word.toList with
    | nil =>
      rw [← String.length_toList, hword] at hw
      cases hw
    | cons d w =>
      rw [hword] at hrest
      rw [(List.cons.inj hrest).1]
      rfl
  · cases h

theorem Kind.startsWith_of_length {k : Kind} {c : Char} (h : k.length (c :: cs) = some n) :
    k.startsWith c := by
  cases k with
  | terminal t =>
    have h : t.lexemeLength (c :: cs) = some n := h
    cases t with
    | ident =>
      rcases identLength_cases h with hname | ⟨rest, m, heq, -⟩
      · exact nameLength_starts hname
      · cases heq
        decide
    | lifetime =>
      obtain ⟨rest, m, heq, -⟩ := lifetimeLength_eq_some_iff.1 h
      cases heq
      rfl
    | string =>
      obtain ⟨rest, m, heq, -⟩ := stringLength_eq_some_iff.1 h
      cases heq
      rfl
    | number =>
      rcases numberLength_cases h with hdigits | ⟨rest, m, heq, -⟩
      · rw [startsWith, unsignedLength_starts hdigits]
        rfl
      · cases heq
        decide
    | initializer =>
      have h : initializerLength (c :: cs) = some n := h
      obtain ⟨d, rest, heq, hd, hblank, -⟩ := initializerLength_eq_some_iff.1 h
      cases heq
      simp [startsWith, hd, hblank]
    | docComment =>
      obtain ⟨rest, heq, -⟩ := docCommentLength_eq_some_iff.1 h
      cases heq
      rfl
    | _ => exact beq_iff_eq.2 (spellingLength_starts (by decide) h)
  | gap g =>
    cases g with
    | blockComment =>
      obtain ⟨rest, m, heq, -⟩ := Gap.blockComment_eq_some_iff.1 h
      cases heq
      rfl
    | lineComment =>
      obtain ⟨rest, heq, -⟩ := Gap.lineComment_eq_some_iff.1 h
      cases heq
      rfl
    | space =>
      obtain ⟨hn, hpos⟩ := Gap.space_eq_some_iff.1 h
      rw [startsWith]
      cases hc : isGapSpace c with
      | true => rfl
      | false =>
        rw [List.takeWhile_cons_of_neg (by simp [hc])] at hn
        exact absurd hn.symm (Nat.ne_of_gt hpos)

theorem Kind.mem_priority (k : Kind) : k ∈ priority := by
  cases k with
  | terminal t => cases t <;> decide
  | gap g => cases g <;> decide

theorem isGapSpace_cases {c : Char} (h : isGapSpace c) :
    c = ' ' ∨ c = '\t' ∨ c = '\x0c' ∨ c = '\r' ∨ c = '\n' := by
  simpa [isGapSpace, or_assoc] using h

theorem Kind.mem_of_length {k : Kind} {c : Char} (ks : List Kind)
    (hks : ∀ k ∈ priority, k.startsWith c → k ∈ ks) (h : k.length (c :: cs) = some n) : k ∈ ks :=
  hks k k.mem_priority (Kind.startsWith_of_length h)

section

variable {k : Kind}

theorem Kind.starts_quote (h : k.length ('"' :: cs) = some n) :
    k = .terminal .string ∨ k = .terminal .initializer := by
  simpa using Kind.mem_of_length [.terminal .string, .terminal .initializer]
    (by decide) h

theorem Kind.starts_hash (h : k.length ('#' :: cs) = some n) :
    k = .terminal .hash ∨ k = .terminal .initializer := by
  simpa using Kind.mem_of_length [.terminal .hash, .terminal .initializer] (by decide) h

theorem Kind.starts_tick (h : k.length ('\'' :: cs) = some n) :
    k = .terminal .lifetime ∨ k = .terminal .initializer := by
  simpa using Kind.mem_of_length [.terminal .lifetime, .terminal .initializer]
    (by decide) h

theorem Kind.starts_slash (h : k.length ('/' :: cs) = some n) :
    k = .terminal .docComment ∨ k = .terminal .initializer ∨ k = .gap .blockComment ∨
      k = .gap .lineComment := by
  simpa using Kind.mem_of_length
    [.terminal .docComment, .terminal .initializer, .gap .blockComment, .gap .lineComment]
    (by decide) h

theorem Kind.starts_minus (h : k.length ('-' :: cs) = some n) :
    k = .terminal .number ∨ k = .terminal .arrow ∨ k = .terminal .initializer := by
  simpa using Kind.mem_of_length [.terminal .number, .terminal .arrow, .terminal .initializer]
    (by decide) h

theorem Kind.starts_r (h : k.length ('r' :: cs) = some n) :
    k = .terminal .ident ∨ k = .terminal .initializer := by
  simpa using Kind.mem_of_length [.terminal .ident, .terminal .initializer] (by decide) h

theorem Kind.starts_point (h : k.length ('.' :: cs) = some n) : k = .terminal .initializer := by
  simpa using Kind.mem_of_length [.terminal .initializer] (by decide) h

theorem Kind.starts_space {c : Char} (hc : isGapSpace c) (h : k.length (c :: cs) = some n) :
    k = .gap .space := by
  rcases isGapSpace_cases hc with rfl | rfl | rfl | rfl | rfl <;>
    simpa using Kind.mem_of_length [.gap .space] (by decide) h

end

theorem Gap.starts {g : Gap} {c : Char} (h : g.length (c :: cs) = some n) :
    c = '/' ∨ isGapSpace c := by
  have hstart := Kind.startsWith_of_length (k := .gap g) h
  cases g with
  | space => exact Or.inr hstart
  | blockComment | lineComment => exact Or.inl (beq_iff_eq.1 hstart)

theorem Gap.starts_slash {g : Gap} (hg : g ≠ .space) {c : Char} (h : g.length (c :: cs) = some n) :
    c = '/' := by
  have hstart := Kind.startsWith_of_length (k := .gap g) h
  cases g with
  | space => exact absurd rfl hg
  | blockComment | lineComment => exact beq_iff_eq.1 hstart

/-- The characters that all texts of a kind have at their head. -/
def Kind.opening : Kind → List Char
  | .terminal .docComment => ['/', '/', '/']
  | .terminal .lifetime => ['\'']
  | .terminal .string => ['"']
  | .gap .blockComment => ['/', '*']
  | .gap .lineComment => ['/', '/']
  | _ => []

theorem Kind.opening_spec {k : Kind} (h : k.length cs = some n) : k.opening <+: cs.take n := by
  unfold opening
  split
  · obtain ⟨rest, rfl, rfl⟩ := docCommentLength_eq_some_iff.1 h
    exact ⟨_, rfl⟩
  · obtain ⟨rest, m, rfl, -, rfl⟩ := lifetimeLength_eq_some_iff.1 h
    exact ⟨_, rfl⟩
  · obtain ⟨rest, m, rfl, -, rfl⟩ := stringLength_eq_some_iff.1 h
    exact ⟨_, rfl⟩
  · obtain ⟨rest, m, rfl, -, rfl⟩ := Gap.blockComment_eq_some_iff.1 h
    exact ⟨_, rfl⟩
  · obtain ⟨rest, rfl, rfl⟩ := Gap.lineComment_eq_some_iff.1 h
    exact ⟨_, rfl⟩
  · exact List.nil_prefix

theorem Kind.length_eq_none_of_opening {k : Kind} (h : ¬ k.opening.isPrefixOf cs) :
    k.length cs = none :=
  Option.eq_none_iff_forall_ne_some.2 fun n hn =>
    h (List.isPrefixOf_iff_prefix.2 ((opening_spec hn).trans (List.take_prefix n cs)))

theorem takeWhile_length_le (p : Char → Bool) (cs : List Char) :
    (cs.takeWhile p).length ≤ cs.length :=
  (List.takeWhile_sublist p).length_le

theorem nameLength_bound (h : nameLength cs = some n) : 0 < n ∧ n ≤ cs.length := by
  obtain ⟨c, rest, rfl, -, rfl⟩ := nameLength_eq_some_iff.1 h
  have := takeWhile_length_le isIdentRest rest
  simp only [List.length_cons]
  omega

theorem identLength_bound (h : identLength cs = some n) : 0 < n ∧ n ≤ cs.length := by
  rcases identLength_cases h with hname | ⟨rest, m, rfl, hm, rfl⟩
  · exact nameLength_bound hname
  · have := nameLength_bound hm
    simp only [List.length_cons]
    omega

theorem stringRest_bound (h : stringRest cs = some n) : 0 < n ∧ n ≤ cs.length := by
  fun_induction stringRest cs generalizing n with
  | case1 c cs ih =>
    obtain ⟨m, hm, rfl⟩ := Option.map_eq_some_iff.1 h
    have := ih hm
    simp only [List.length_cons]
    omega
  | case2 => cases h
  | case3 cs =>
    cases h
    simp
  | case4 c cs _ _ _ ih =>
    obtain ⟨m, hm, rfl⟩ := Option.map_eq_some_iff.1 h
    have := ih hm
    simp only [List.length_cons]
    omega
  | case5 => cases h

theorem commentRest_bound (h : commentRest cs = some n) : 0 < n ∧ n ≤ cs.length := by
  fun_induction commentRest cs generalizing n with
  | case1 cs =>
    cases h
    simp
  | case2 c cs _ ih =>
    obtain ⟨m, hm, rfl⟩ := Option.map_eq_some_iff.1 h
    have := ih hm
    simp only [List.length_cons]
    omega
  | case3 => cases h

theorem unsignedLength_bound (h : unsignedLength cs = some n) : 0 < n ∧ n ≤ cs.length := by
  have hwhole := takeWhile_length_le isDigit cs
  obtain ⟨whole, hw, rfl | ⟨rest, fraction, hdrop, hf, rfl⟩⟩ := unsignedLength_cases h
  · omega
  · have hfraction := takeWhile_length_le isDigit rest
    have hlen := congrArg List.length hdrop
    simp only [List.length_drop, List.length_cons] at hlen
    omega

theorem spellingLength_bound {word : String} (hw : 0 < word.length)
    (h : spellingLength word cs = some n) : 0 < n ∧ n ≤ cs.length := by
  rw [spellingLength] at h
  split at h
  · next hpre =>
    have hle := (List.isPrefixOf_iff_prefix.1 hpre).length_le
    rw [String.length_toList] at hle
    cases h
    exact ⟨hw, hle⟩
  · cases h

theorem Terminal.lexemeLength_bound {t : Terminal} (h : t.lexemeLength cs = some n) :
    0 < n ∧ n ≤ cs.length := by
  cases t with
  | docComment =>
    obtain ⟨rest, rfl, rfl⟩ := docCommentLength_eq_some_iff.1 h
    have := takeWhile_length_le (· != '\n') rest
    simp only [List.length_cons]
    omega
  | ident => exact identLength_bound h
  | lifetime =>
    obtain ⟨rest, m, rfl, hm, rfl⟩ := lifetimeLength_eq_some_iff.1 h
    have := nameLength_bound hm
    simp only [List.length_cons]
    omega
  | string =>
    obtain ⟨rest, m, rfl, hm, rfl⟩ := stringLength_eq_some_iff.1 h
    have := stringRest_bound hm
    simp only [List.length_cons]
    omega
  | number =>
    rcases numberLength_cases h with hm | ⟨rest, m, rfl, hm, rfl⟩
    · exact unsignedLength_bound hm
    · have := unsignedLength_bound hm
      simp only [List.length_cons]
      omega
  | initializer =>
    obtain ⟨c, rest, rfl, -, -, rfl⟩ := initializerLength_eq_some_iff.1 h
    have := takeWhile_length_le (· != ';') rest
    simp only [List.length_cons]
    omega
  | _ => exact spellingLength_bound (by decide) h

theorem Gap.length_bound {g : Gap} (h : g.length cs = some n) : 0 < n ∧ n ≤ cs.length := by
  cases g with
  | blockComment =>
    obtain ⟨rest, m, rfl, hm, rfl⟩ := Gap.blockComment_eq_some_iff.1 h
    have := commentRest_bound hm
    simp only [List.length_cons]
    omega
  | space =>
    obtain ⟨rfl, hpos⟩ := Gap.space_eq_some_iff.1 h
    exact ⟨hpos, takeWhile_length_le isGapSpace cs⟩
  | lineComment =>
    obtain ⟨rest, rfl, rfl⟩ := Gap.lineComment_eq_some_iff.1 h
    have := takeWhile_length_le (· != '\n') rest
    simp only [List.length_cons]
    omega

end NativeBinding.Grammar
