import NativeBinding.Proofs.Grammar.Following

/-!
Writing for a reader. A name, a lifetime or a number is scanned as a whole if what comes next cannot
belong to it, a mark if no longer one is expected in its place, and a name counts as a word only
where that word is expected.
-/

namespace NativeBinding.Grammar

open Text

def IsName (w : List Char) : Prop :=
  ∃ c cs, w = c :: cs ∧ isIdentStart c ∧ ∀ d ∈ cs, isIdentRest d

def IsIdent (w : List Char) : Prop :=
  IsName w ∨ ∃ name, w = 'r' :: '#' :: name ∧ IsName name

theorem isIdent_of_all {c : Char} {cs : List Char} (h : isIdentStart c && cs.all isIdentRest) :
    IsIdent (c :: cs) := by
  rw [Bool.and_eq_true, List.all_eq_true] at h
  exact Or.inl ⟨c, cs, rfl, h⟩

theorem IsIdent.head {w : List Char} (h : IsIdent w) : w.head?.any isIdentStart := by
  rcases h with ⟨c, cs, rfl, hc, -⟩ | ⟨name, rfl, -⟩
  · exact hc
  · rfl

theorem IsName.forall_rest {w : List Char} (h : IsName w) : ∀ c ∈ w, isIdentRest c := by
  obtain ⟨c, cs, rfl, hc, hcs⟩ := h
  exact List.forall_mem_cons.2 ⟨isIdentRest_of_isIdentStart hc, hcs⟩

theorem IsName.not_mem {w : List Char} (h : IsName w) {c : Char} (hc : isIdentRest c = false) :
    c ∉ w := by
  intro hmem
  rw [h.forall_rest c hmem] at hc
  cases hc

theorem IsIdent.not_mem {w : List Char} (h : IsIdent w) {c : Char} (hc : isIdentRest c = false)
    (hmark : c ≠ '#') : c ∉ w := by
  rcases h with h | ⟨name, rfl, h⟩
  · exact h.not_mem hc
  · have hr : c ≠ 'r' := by
      rintro rfl
      exact absurd hc (by decide)
    simp [hr, hmark, h.not_mem hc]

theorem isIdentStart_iff {c : Char} (h : isIdentRest c) : isIdentStart c ↔ c.isDigit = false := by
  have hdisjoint : isIdentStart c → c.isDigit = false := by
    intro hstart
    delta isIdentStart Char.isAlpha Char.isUpper Char.isLower at hstart
    rw [Char.isDigit, ← Bool.not_eq_true]
    simp only [Bool.or_eq_true, Bool.and_eq_true, decide_eq_true_eq, beq_iff_eq, ge_iff_le,
      UInt32.le_iff_toNat_le] at hstart ⊢
    rintro ⟨-, hdigit⟩
    change c.toNat ≤ 57 at hdigit
    rcases hstart with (⟨hstart, -⟩ | ⟨hstart, -⟩) | rfl
    · change 65 ≤ c.toNat at hstart
      omega
    · change 97 ≤ c.toNat at hstart
      omega
    · exact absurd hdigit (by decide)
  refine ⟨hdisjoint, fun hdigit => ?_⟩
  simpa [isIdentRest, isIdentStart, Char.isAlphanum, hdigit] using h

theorem isName_cons_iff {c : Char} {cs : List Char} (h : ∀ d ∈ c :: cs, isIdentRest d) :
    IsName (c :: cs) ↔ c.isDigit = false := by
  rw [List.forall_mem_cons] at h
  rw [← isIdentStart_iff h.1]
  constructor
  · rintro ⟨d, ds, heq, hd, -⟩
    cases heq
    exact hd
  · exact fun hc => ⟨c, cs, rfl, hc, h.2⟩

def IsLifetime (w : List Char) : Prop :=
  ∃ name, w = '\'' :: name ∧ IsName name

def IsDigits (w : List Char) : Prop :=
  w ≠ [] ∧ ∀ c ∈ w, isDigit c

def IsUnsigned (w : List Char) : Prop :=
  IsDigits w ∨ ∃ whole fraction, w = whole ++ '.' :: fraction ∧ IsDigits whole ∧ IsDigits fraction

def IsNumber (w : List Char) : Prop :=
  IsUnsigned w ∨ ∃ u, w = '-' :: u ∧ IsUnsigned u

def stops : List Char :=
  [',', '>', ')', ']', ';', ' ', ':', '<']

def Stops (rest : List Char) : Prop :=
  ∃ c cs, rest = c :: cs ∧ c ∈ stops

theorem not_of_stops {p : Char → Bool} (hp : stops.all fun c => !p c) {rest : List Char}
    (h : Stops rest) : ∀ c ∈ rest.head?, p c = false := by
  obtain ⟨c, cs, rfl, hc⟩ := h
  rintro _ ⟨⟩
  simpa using List.all_eq_true.1 hp c hc

theorem takeWhile_of_stop {p : Char → Bool} {w rest : List Char} (hw : ∀ c ∈ w, p c)
    (hrest : ∀ c ∈ rest.head?, p c = false) : (w ++ rest).takeWhile p = w := by
  rw [List.takeWhile_append_of_pos hw]
  cases rest with
  | nil => simp
  | cons c rest => simp [hrest c rfl]

theorem isName_take {cs : List Char} {n : Nat} (h : nameLength cs = some n) :
    IsName (cs.take n) := by
  obtain ⟨c, rest, rfl, hc, rfl⟩ := nameLength_eq_some_iff.1 h
  exact ⟨c, _, rfl, hc, takeWhile_take (Nat.le_refl _)⟩

theorem isIdent_take {cs : List Char} {n : Nat} (h : identLength cs = some n) :
    IsIdent (cs.take n) := by
  rcases identLength_cases h with hname | ⟨rest, m, rfl, hname, rfl⟩
  · exact Or.inl (isName_take hname)
  · exact Or.inr ⟨_, rfl, isName_take hname⟩

theorem isLifetime_take {cs : List Char} {n : Nat} (h : lifetimeLength cs = some n) :
    IsLifetime (cs.take n) := by
  obtain ⟨rest, m, rfl, hm, rfl⟩ := lifetimeLength_eq_some_iff.1 h
  exact ⟨_, rfl, isName_take hm⟩

theorem isDigits_take {cs : List Char} {k : Nat} (h : (cs.takeWhile isDigit).length = k + 1) :
    IsDigits (cs.take (k + 1)) := by
  refine ⟨fun hnil => ?_, takeWhile_take (Nat.le_of_eq h.symm)⟩
  rw [List.take_eq_nil_iff] at hnil
  rcases hnil with hnil | rfl
  · cases hnil
  · cases h

theorem isUnsigned_take {cs : List Char} {n : Nat} (h : unsignedLength cs = some n) :
    IsUnsigned (cs.take n) := by
  obtain ⟨whole, hw, rfl | ⟨rest, fraction, hdrop, hf, rfl⟩⟩ := unsignedLength_cases h
  · exact Or.inl (isDigits_take hw)
  · refine Or.inr ⟨_, _, ?_, isDigits_take hw, isDigits_take hf⟩
    rw [List.take_add, hdrop, List.take_succ_cons]

theorem isNumber_take {cs : List Char} {n : Nat} (h : numberLength cs = some n) :
    IsNumber (cs.take n) := by
  rcases numberLength_cases h with hm | ⟨rest, m, rfl, hm, rfl⟩
  · exact Or.inl (isUnsigned_take hm)
  · exact Or.inr ⟨_, rfl, isUnsigned_take hm⟩

section

variable {w rest : List Char}

theorem IsName.nameLength (hw : IsName w) (hrest : ∀ c ∈ rest.head?, isIdentRest c = false) :
    nameLength (w ++ rest) = some w.length := by
  obtain ⟨c, cs, rfl, hc, hcs⟩ := hw
  rw [List.cons_append, Grammar.nameLength, if_pos hc, takeWhile_of_stop hcs hrest]
  rfl

/-- A name has no raw mark, neither inside nor, if it is the letter `r`, right after it. -/
theorem IsName.append_ne_raw (hw : IsName w) (hrest : w = ['r'] → rest.head? ≠ some '#')
    (name : List Char) : w ++ rest ≠ 'r' :: '#' :: name := by
  obtain ⟨c, cs, rfl, -, hcs⟩ := hw
  intro heq
  rw [List.cons_append, List.cons.injEq] at heq
  cases cs with
  | nil => exact hrest (by rw [heq.1]) (congrArg List.head? heq.2)
  | cons d cs =>
    obtain rfl : d = '#' := (List.cons.inj heq.2).1
    exact absurd (hcs '#' List.mem_cons_self) (by decide)

theorem IsName.ne_raw (hw : IsName w) (name : List Char) : w ≠ 'r' :: '#' :: name := by
  simpa using @IsName.append_ne_raw w [] hw (fun _ => nofun) name

theorem IsIdent.identLength_append (hw : IsIdent w)
    (hstop : ∀ c ∈ rest.head?, isIdentRest c = false)
    (hmark : w = ['r'] → rest.head? ≠ some '#') :
    Grammar.identLength (w ++ rest) = some w.length := by
  rcases hw with hw | ⟨name, rfl, hname⟩
  · rw [Grammar.identLength.eq_def]
    split
    · next heq => exact absurd heq (hw.append_ne_raw hmark _)
    · exact hw.nameLength hstop
  · rw [List.cons_append, List.cons_append, Grammar.identLength, hname.nameLength hstop]
    rfl

theorem IsIdent.identLength (hw : IsIdent w) (hrest : Stops rest) :
    identLength (w ++ rest) = some w.length := by
  have hmark : rest.head? ≠ some '#' := fun heq =>
    absurd (not_of_stops (p := (· == '#')) (by decide) hrest '#' heq) (by decide)
  exact hw.identLength_append (not_of_stops (by decide) hrest) fun _ => hmark

theorem IsIdent.identLength_self (hw : IsIdent w) : Grammar.identLength w = some w.length := by
  simpa using @IsIdent.identLength_append w [] hw nofun fun _ => nofun

theorem identLength_eq_length_iff : Grammar.identLength w = some w.length ↔ IsIdent w :=
  ⟨fun h => by simpa using isIdent_take h, IsIdent.identLength_self⟩

theorem IsLifetime.lifetimeLength (hw : IsLifetime w) (hrest : Stops rest) :
    lifetimeLength (w ++ rest) = some w.length := by
  obtain ⟨name, rfl, hname⟩ := hw
  rw [List.cons_append, Grammar.lifetimeLength, hname.nameLength (not_of_stops (by decide) hrest)]
  rfl

theorem IsDigits.takeWhile (hw : IsDigits w) (hrest : ∀ c ∈ rest.head?, isDigit c = false) :
    ∃ k, ((w ++ rest).takeWhile isDigit).length = k + 1 ∧ w.length = k + 1 := by
  obtain ⟨hne, hall⟩ := hw
  rw [takeWhile_of_stop hall hrest]
  obtain ⟨k, hk⟩ := Nat.exists_eq_succ_of_ne_zero (fun h => hne (List.length_eq_zero_iff.1 h))
  exact ⟨k, hk, hk⟩

theorem IsUnsigned.unsignedLength_append (hw : IsUnsigned w)
    (hstop : ∀ c ∈ rest.head?, isDigit c = false) (hpoint : rest.head? ≠ some '.') :
    unsignedLength (w ++ rest) = some w.length := by
  rcases hw with hw | ⟨whole, fraction, rfl, hwhole, hfraction⟩
  · obtain ⟨k, hk, hlen⟩ := hw.takeWhile hstop
    rw [Grammar.unsignedLength, hk]
    dsimp only
    rw [← hlen, List.drop_left]
    split
    · exact absurd rfl hpoint
    · rfl
  · rw [List.append_assoc, List.cons_append]
    have hpoint : ∀ c ∈ ('.' :: (fraction ++ rest)).head?, isDigit c = false := by
      rintro _ ⟨⟩
      decide
    obtain ⟨k, hk, hlen⟩ := hwhole.takeWhile hpoint
    obtain ⟨j, hj, hlen'⟩ := hfraction.takeWhile hstop
    rw [Grammar.unsignedLength, hk]
    dsimp only
    rw [← hlen, List.drop_left]
    simp only [hj, List.length_append, List.length_cons, hlen', Option.some.injEq]
    omega

theorem IsUnsigned.head (hw : IsUnsigned w) : ∃ c cs, w = c :: cs ∧ isDigit c := by
  have digits {w : List Char} (hw : IsDigits w) : ∃ c cs, w = c :: cs ∧ isDigit c := by
    obtain ⟨c, cs, rfl⟩ := List.exists_cons_of_ne_nil hw.1
    exact ⟨c, cs, rfl, hw.2 c List.mem_cons_self⟩
  rcases hw with hw | ⟨whole, fraction, rfl, hwhole, -⟩
  · exact digits hw
  · obtain ⟨c, cs, rfl, hc⟩ := digits hwhole
    exact ⟨c, _, rfl, hc⟩

theorem IsNumber.numberLength_append (hw : IsNumber w)
    (hstop : ∀ c ∈ rest.head?, isDigit c = false) (hpoint : rest.head? ≠ some '.') :
    Grammar.numberLength (w ++ rest) = some w.length := by
  rcases hw with hw | ⟨u, rfl, hu⟩
  · rw [Grammar.numberLength.eq_def]
    split
    · next r heq =>
      obtain ⟨c, cs, rfl, hc⟩ := hw.head
      obtain rfl : c = '-' := (List.cons.inj heq).1
      exact absurd hc (by decide +kernel)
    · exact hw.unsignedLength_append hstop hpoint
  · rw [List.cons_append, Grammar.numberLength, hu.unsignedLength_append hstop hpoint]
    rfl

theorem IsNumber.numberLength (hw : IsNumber w) (hrest : Stops rest) :
    numberLength (w ++ rest) = some w.length := by
  refine hw.numberLength_append (not_of_stops (by decide +kernel) hrest) fun heq => ?_
  exact absurd (not_of_stops (p := (· == '.')) (by decide) hrest '.' heq) (by decide)

end

def Terminal.Spells (k : Terminal) (w : List Char) : Prop :=
  ∃ word, k.spelling? = some word ∧ word.toList = w

theorem Terminal.mem_spelled {k : Terminal} {w : List Char} (h : k.Spells w) : k ∈ spelled := by
  obtain ⟨word, hword, -⟩ := h
  cases k <;> first
    | (cases hword; done)
    | decide

theorem identKind_eq_ident_iff {expected : List Terminal} {w : List Char} :
    identKind expected w = .ident ↔ ∀ k ∈ expected, ¬ k.Spells w := by
  have hmatches {k : Terminal} : (expected.contains k && k.spelling?.any (·.toList == w)) = true ↔
      k ∈ expected ∧ k.Spells w := by
    simp [Terminal.Spells, Option.any_eq_true]
  rw [identKind]
  cases hfind : Terminal.spelled.find? fun t =>
      expected.contains t && t.spelling?.any (·.toList == w) with
  | none =>
    rw [List.find?_eq_none] at hfind
    simp only [Option.getD_none, true_iff]
    exact fun k hk hspells => hfind k (Terminal.mem_spelled hspells) (hmatches.2 ⟨hk, hspells⟩)
  | some k =>
    have hfound := List.find?_some hfind
    obtain ⟨hk, hspells⟩ := hmatches.1 hfound
    refine iff_of_false ?_ fun h => h k hk hspells
    rintro rfl
    obtain ⟨word, hword, -⟩ := hspells
    cases hword

theorem Terminal.find_spelling {k : Terminal} {word : String} (h : k.spelling? = some word) :
    spelled.find? (·.spelling? == some word) = some k := by
  cases k <;> cases h <;> rfl

theorem Terminal.Spells.unique {k k' : Terminal} {w : List Char} (h : k.Spells w)
    (h' : k'.Spells w) : k = k' := by
  obtain ⟨word, hword, rfl⟩ := h
  obtain ⟨word', hword', heq⟩ := h'
  obtain rfl := String.toList_inj.1 heq
  exact Option.some.inj ((find_spelling hword).symm.trans (find_spelling hword'))

theorem identKind_eq_of_spells {expected : List Terminal} {k : Terminal} {w : List Char}
    (hk : k ∈ expected) (hw : k.Spells w) : identKind expected w = k := by
  have hne : identKind expected w ≠ .ident := fun h => identKind_eq_ident_iff.1 h k hk hw
  rw [identKind] at hne ⊢
  cases hfind : Terminal.spelled.find? fun t =>
      expected.contains t && t.spelling?.any (·.toList == w) with
  | none =>
    rw [hfind] at hne
    exact absurd rfl hne
  | some k' =>
    have hfound := List.find?_some hfind
    simp only [Bool.and_eq_true, Option.any_eq_true, beq_iff_eq] at hfound
    exact (hw.unique hfound.2).symm

inductive Mark : Char → Terminal → Prop
  | amp : Mark '&' .amp
  | lparen : Mark '(' .lparen
  | rparen : Mark ')' .rparen
  | plus : Mark '+' .plus
  | comma : Mark ',' .comma
  | semicolon : Mark ';' .semicolon
  | less : Mark '<' .less
  | greater : Mark '>' .greater
  | lbracket : Mark '[' .lbracket
  | rbracket : Mark ']' .rbracket
  | lbrace : Mark '{' .lbrace
  | rbrace : Mark '}' .rbrace

theorem Mark.length {c : Char} {k : Terminal} (h : Mark c k) (cs : List Char) :
    k.lexemeLength (c :: cs) = some 1 := by
  cases h <;> rfl

theorem Mark.only {c : Char} {k t : Terminal} (h : Mark c k) {cs : List Char} {n : Nat}
    (ht : t.lexemeLength (c :: cs) = some n) : t = k ∨ t = .initializer := by
  cases h <;> cases t <;> first
    | exact Or.inl rfl
    | exact Or.inr rfl
    | cases ht

theorem Mark.not_gap {c : Char} {k : Terminal} (h : Mark c k) : c ≠ '/' ∧ isGapSpace c = false := by
  cases h <;> decide

section

variable {expected : List Terminal} {w rest cs : List Char}

theorem fit_terminal {k : Terminal} {n : Nat} (hk : k ∈ expected)
    (h : k.lexemeLength cs = some n) : fit expected cs (.terminal k) = some (.terminal k, n) := by
  rw [fit, if_pos (by simpa using hk), h]
  rfl

theorem scan_of_find {k : Terminal} {n : Nat} (hk : k ≠ .ident)
    (h : priority.findSome? (fit expected cs) = some (.terminal k, n)) :
    scan expected cs = .lexeme k n := by
  rw [scan_eq, h]
  cases k <;> first
    | rfl
    | exact absurd rfl hk

theorem scan_mark {c : Char} {k : Terminal} (h : Mark c k) (hk : k ∈ expected)
    (hinit : .initializer ∉ expected) : scan expected (c :: cs) = .lexeme k 1 := by
  have hfit := fit_terminal hk (h.length cs)
  have hsome : (priority.findSome? (fit expected (c :: cs))).isSome := by
    rw [List.findSome?_isSome_iff]
    refine ⟨.terminal k, ?_, by rw [hfit]; rfl⟩
    cases h <;> decide
  obtain ⟨⟨k', n⟩, hfind⟩ := Option.isSome_iff_exists.1 hsome
  obtain ⟨hlength, hmem⟩ := length_of_fit hfind
  have hkind : k' = .terminal k := by
    cases k' with
    | gap g =>
      rcases Gap.starts hlength with hc | hc
      · exact absurd hc h.not_gap.1
      · simp [h.not_gap.2] at hc
    | terminal t =>
      rcases h.only hlength with rfl | rfl
      · rfl
      · exact absurd (hmem _ rfl) hinit
  subst hkind
  obtain rfl : 1 = n := Option.some.inj ((h.length cs).symm.trans hlength)
  refine scan_of_find ?_ hfind
  cases h <;> decide

theorem scan_spaces (expected : List Terminal) {c : Char} (hc : isGapSpace c) (cs : List Char) :
    scan expected (c :: cs) = .gap ((c :: cs).takeWhile isGapSpace).length := by
  have hother {k : Kind} (hk : k ≠ .gap .space) : fit expected (c :: cs) k = none :=
    fit_eq_none (Option.eq_none_iff_forall_ne_some.2 fun _ hn => hk (Kind.starts_space hc hn))
  have hspace : fit expected (c :: cs) (.gap .space) =
      some (.gap .space, ((c :: cs).takeWhile isGapSpace).length) := by
    rw [fit, Gap.space_eq_some_iff.2 ⟨rfl, by simp [hc]⟩]
    rfl
  rw [scan_eq, priority]
  simp only [List.cons_append, List.findSome?_cons, hother, hspace, ne_eq, reduceCtorEq,
    Kind.gap.injEq, not_false_eq_true]

theorem scan_space {c : Char} (hc : isGapSpace c = false) :
    scan expected (' ' :: c :: cs) = .gap 1 := by
  have hblank : isGapSpace ' ' := by decide
  rw [scan_spaces expected hblank, List.takeWhile_cons_of_pos hblank,
    List.takeWhile_cons_of_neg (by simp [hc])]
  rfl

theorem scan_ident (h : .ident ∈ expected) (hw : IsIdent w) (hrest : Stops rest) :
    scan expected (w ++ rest) = .lexeme (identKind expected w) w.length := by
  -- Only the kinds before it in priority can stand in the way of a lexeme.
  have hdoc : fit expected (w ++ rest) (.terminal .docComment) = none := by
    rcases hw with ⟨c, cs, rfl, hc, -⟩ | ⟨name, rfl, -⟩
    · refine fit_eq_none_of_start (beq_eq_false_iff_ne.2 ?_)
      rintro rfl
      exact absurd hc (by decide)
    · exact fit_eq_none_of_start (by decide)
  have hfind : priority.findSome? (fit expected (w ++ rest)) =
      some (.terminal .ident, w.length) := by
    rw [priority, List.cons_append, List.findSome?_cons, hdoc, List.cons_append,
      List.findSome?_cons, fit_terminal h (hw.identLength hrest)]
  rw [scan_eq, hfind]
  dsimp only
  rw [List.take_left]

theorem scan_lifetime (h : .lifetime ∈ expected) (hw : IsLifetime w) (hrest : Stops rest) :
    scan expected (w ++ rest) = .lexeme .lifetime w.length := by
  have hlength := fit_terminal h (hw.lifetimeLength hrest)
  obtain ⟨name, rfl, -⟩ := hw
  have hother {k : Kind} (hk : k.startsWith '\'' = false) :
      fit expected ('\'' :: name ++ rest) k = none := fit_eq_none_of_start hk
  refine scan_of_find (by decide) ?_
  simp only [priority, List.cons_append, List.findSome?_cons] at hlength hother ⊢
  rw [hother (by decide), hother (by decide), hlength]

theorem not_isDigit_of_isIdentStart {c : Char} (h : isIdentStart c) : isDigit c = false := by
  have hbound : 58 ≤ c.toNat ∧ c.toNat < 1632 := by
    delta isIdentStart Char.isAlpha Char.isUpper Char.isLower at h
    simp only [Bool.or_eq_true, Bool.and_eq_true, decide_eq_true_eq, beq_iff_eq, ge_iff_le,
      UInt32.le_iff_toNat_le] at h
    rcases h with (h | h) | rfl
    · change 65 ≤ c.toNat ∧ c.toNat ≤ 90 at h
      omega
    · change 97 ≤ c.toNat ∧ c.toNat ≤ 122 at h
      omega
    · decide
  have hfind : zeros.find? (fun z => z ≤ c.toNat && c.toNat < z + 10) = none := by
    rw [List.find?_eq_none]
    intro z hz
    have hz' : z = 48 ∨ 1632 ≤ z := by
      revert z
      decide
    simp only [Bool.and_eq_true, decide_eq_true_eq, not_and]
    omega
  rw [isDigit, digitValue?, hfind]
  rfl

theorem scan_number (h : .number ∈ expected) (hw : IsNumber w) (hrest : Stops rest) :
    scan expected (w ++ rest) = .lexeme .number w.length := by
  have hlength := fit_terminal h (hw.numberLength hrest)
  obtain ⟨c, cs, hcons, hc⟩ : ∃ c cs, w ++ rest = c :: cs ∧ (isDigit c ∨ c = '-') := by
    rcases hw with hw | ⟨u, rfl, -⟩
    · obtain ⟨c, cs, rfl, hc⟩ := hw.head
      exact ⟨c, _, rfl, Or.inl hc⟩
    · exact ⟨'-', _, rfl, Or.inr rfl⟩
  rw [hcons] at hlength ⊢
  have hother {k : Kind} (hdigit : ∀ d, k.startsWith d → isDigit d = false)
      (hminus : k.startsWith '-' = false) : fit expected (c :: cs) k = none := by
    refine fit_eq_none_of_start ?_
    rcases hc with hc | rfl
    · cases hk : k.startsWith c with
      | false => rfl
      | true =>
        rw [hdigit c hk] at hc
        cases hc
    · exact hminus
  have sign {d : Char} (hd : isDigit d = false) : ∀ c, c == d → isDigit c = false :=
    fun c hc => by rwa [beq_iff_eq.1 hc]
  have hdoc : fit expected (c :: cs) (.terminal .docComment) = none :=
    hother (sign (by decide +kernel)) (by decide)
  have hident : fit expected (c :: cs) (.terminal .ident) = none :=
    hother (fun _ => not_isDigit_of_isIdentStart) (by decide)
  have hlifetime : fit expected (c :: cs) (.terminal .lifetime) = none :=
    hother (sign (by decide +kernel)) (by decide)
  have hstring : fit expected (c :: cs) (.terminal .string) = none :=
    hother (sign (by decide +kernel)) (by decide)
  have hblock : fit expected (c :: cs) (.gap .blockComment) = none :=
    hother (sign (by decide +kernel)) (by decide)
  refine scan_of_find (by decide) ?_
  simp only [priority, List.cons_append, List.findSome?_cons, hdoc, hident, hlifetime, hstring,
    hblock, hlength]

end

section

variable {s s₁ s₂ : State} {p p₁ p₂ : Position} {cs cs₁ cs₂ w : List Char} {ts ts' : List Token}

theorem Reads.trans (h : Reads s p cs ts s₁ p₁ cs₁) (h' : Reads s₁ p₁ cs₁ ts' s₂ p₂ cs₂) :
    Reads s p cs (ts ++ ts') s₂ p₂ cs₂ := by
  induction h with
  | done => exact h'
  | gap hscan _ ih => exact .gap hscan (ih h')
  | lexeme hscan hfeed _ ih => exact .lexeme hscan hfeed (ih h')

theorem Reads.next {kind : Terminal} (hscan : scan s.expects (w ++ cs) = .lexeme kind w.length)
    (hfeed : s.feed (tokenAt kind p w) = some s₁) :
    Reads s p (w ++ cs) [tokenAt kind p w] s₁ (Position.past p w) cs :=
  (Reads.cons_iff hscan (Nat.le_refl _) hfeed).2 .done

/-- What a token is known to be where `expected` may stand. -/
structure Token.Fits (expected : List Terminal) (t : Token) : Prop where
  ident : t.kind = .ident → IsIdent t.text.toList ∧ ∀ k ∈ expected, ¬ k.Spells t.text.toList
  lifetime : t.kind = .lifetime → IsLifetime t.text.toList
  number : t.kind = .number → IsNumber t.text.toList

theorem identKind_of_scan {expected : List Terminal} {n : Nat}
    (h : scan expected cs = .lexeme .ident n) : identKind expected (cs.take n) = .ident := by
  rw [scan_eq] at h
  split at h
  · cases h
  · rw [Piece.lexeme.injEq] at h
    rw [← h.2]
    exact h.1
  · next t m hother _ =>
    cases h
    exact absurd rfl hother
  · cases h

theorem fits_of_scan {expected : List Terminal} {kind : Terminal} {n : Nat}
    (h : scan expected cs = .lexeme kind n) : (tokenAt kind p (cs.take n)).Fits expected := by
  have hlength := (scan_lexeme_kind h).2
  have htext : (tokenAt kind p (cs.take n)).text.toList = cs.take n := String.toList_ofList
  constructor
  · rintro rfl
    rw [htext]
    exact ⟨isIdent_take hlength, identKind_eq_ident_iff.1 (identKind_of_scan h)⟩
  · rintro rfl
    rw [htext]
    exact isLifetime_take hlength
  · rintro rfl
    rw [htext]
    exact isNumber_take hlength

/-- What holds at the start and is kept by each token that fits holds at the end. -/
theorem Reads.induct {P : State → Prop} (h : Reads s p cs ts s₁ p₁ cs₁)
    (hstep : ∀ s s' t, P s → t.Fits s.expects → s.feed t = some s' → P s') (hs : P s) : P s₁ := by
  induction h with
  | done => exact hs
  | gap _ _ ih => exact ih hs
  | lexeme hscan hfeed _ ih => exact ih (hstep _ _ _ hs (fits_of_scan hscan) hfeed)

end

end NativeBinding.Grammar
