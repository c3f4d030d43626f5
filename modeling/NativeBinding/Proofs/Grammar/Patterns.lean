import Mathlib.Computability.Language
import NativeBinding.Proofs.Grammar.Words

/-!
The patterns of terminals and gaps as languages of characters, and texts as sequences of words of
these patterns. What a reader takes as a lexeme or as a gap is a word of its pattern, so a text that
is read to its end splits into gaps and the lexemes that were read.
-/

namespace NativeBinding.Grammar

open Text
open scoped Computability

def one (p : Char → Bool) : Language Char :=
  {w | ∃ c, p c ∧ w = [c]}

def exactly (w : List Char) : Language Char :=
  {w}

def maybe {α : Type} (l : Language α) : Language α :=
  1 + l

def namePattern : Language Char :=
  one isIdentStart * (one isIdentRest)∗

def digitsPattern : Language Char :=
  one isDigit * (one isDigit)∗

def stringItem : Language Char :=
  one (fun c => c != '"' && c != '\\') + exactly ['\\'] * one fun _ => true

def Terminal.pattern : Terminal → Language Char
  | docComment => exactly ['/', '/', '/'] * (one (· != '\n'))∗
  | ident => maybe (exactly ['r', '#']) * namePattern
  | lifetime => exactly ['\''] * namePattern
  | string => exactly ['"'] * (stringItem∗ * exactly ['"'])
  | number => maybe (exactly ['-']) * (digitsPattern * maybe (exactly ['.'] * digitsPattern))
  | initializer => one (fun c => c != ';' && !isBlank c) * (one (· != ';'))∗
  | word => {w | word.Spells w}

/-- A block comment ends at the first mark that closes it. -/
def Gap.pattern : Gap → Language Char
  | space => one isGapSpace * (one isGapSpace)∗
  | lineComment => exactly ['/', '/'] * (one (· != '\n'))∗
  | blockComment =>
      {w | ∃ body, w = '/' :: '*' :: (body ++ ['*', '/']) ∧ ¬ ['*', '/'] <:+: body ++ ['*']}

theorem mem_one {p : Char → Bool} {c : Char} (h : p c) : [c] ∈ one p :=
  ⟨c, h, rfl⟩

theorem mem_exactly (w : List Char) : w ∈ exactly w :=
  rfl

theorem mem_kstar_one {p : Char → Bool} {w : List Char} (h : ∀ c ∈ w, p c) : w ∈ (one p)∗ := by
  have hflatten : w = (w.map ([·])).flatten := by
    rw [← List.flatMap_def, List.flatMap_singleton']
  refine Language.mem_kstar.2 ⟨w.map ([·]), hflatten, fun u hu => ?_⟩
  obtain ⟨c, hc, rfl⟩ := List.mem_map.1 hu
  exact mem_one (h c hc)

theorem cons_mem_one_mul {p q : Char → Bool} {c : Char} {w : List Char} (hc : p c)
    (hw : ∀ d ∈ w, q d) : c :: w ∈ one p * (one q)∗ :=
  Language.append_mem_mul (mem_one hc) (mem_kstar_one hw)

theorem append_mem_kstar {α : Type} {l : Language α} {u v : List α} (hu : u ∈ l) (hv : v ∈ l∗) :
    u ++ v ∈ l∗ :=
  Set.mem_of_mem_of_subset (Language.append_mem_mul hu hv) (mul_kstar_le_kstar (a := l))

theorem nil_mem_maybe {α : Type} (l : Language α) : [] ∈ maybe l :=
  Or.inl rfl

theorem mem_maybe {α : Type} {l : Language α} {w : List α} (h : w ∈ l) : w ∈ maybe l :=
  Or.inr h

theorem IsName.mem_pattern {w : List Char} (h : IsName w) : w ∈ namePattern := by
  obtain ⟨c, cs, rfl, hc, hcs⟩ := h
  exact cons_mem_one_mul hc hcs

theorem IsDigits.mem_pattern {w : List Char} (h : IsDigits w) : w ∈ digitsPattern := by
  obtain ⟨c, cs, rfl⟩ := List.exists_cons_of_ne_nil h.1
  rw [IsDigits, List.forall_mem_cons] at h
  exact cons_mem_one_mul h.2.1 h.2.2

theorem IsIdent.mem_pattern {w : List Char} (h : IsIdent w) : w ∈ Terminal.ident.pattern := by
  rcases h with h | ⟨name, rfl, h⟩
  · exact Language.append_mem_mul (nil_mem_maybe _) h.mem_pattern
  · exact Language.append_mem_mul (mem_maybe (mem_exactly ['r', '#'])) h.mem_pattern

theorem IsLifetime.mem_pattern {w : List Char} (h : IsLifetime w) :
    w ∈ Terminal.lifetime.pattern := by
  obtain ⟨name, rfl, h⟩ := h
  exact Language.append_mem_mul (mem_exactly ['\'']) h.mem_pattern

theorem IsUnsigned.mem_pattern {w : List Char} (h : IsUnsigned w) :
    w ∈ digitsPattern * maybe (exactly ['.'] * digitsPattern) := by
  rcases h with h | ⟨whole, fraction, rfl, hwhole, hfraction⟩
  · rw [← List.append_nil w]
    exact Language.append_mem_mul h.mem_pattern (nil_mem_maybe _)
  · exact Language.append_mem_mul hwhole.mem_pattern
      (mem_maybe (Language.append_mem_mul (mem_exactly ['.']) hfraction.mem_pattern))

theorem IsNumber.mem_pattern {w : List Char} (h : IsNumber w) : w ∈ Terminal.number.pattern := by
  rcases h with h | ⟨u, rfl, h⟩
  · exact Language.append_mem_mul (nil_mem_maybe _) h.mem_pattern
  · exact Language.append_mem_mul (mem_maybe (mem_exactly ['-'])) h.mem_pattern

theorem take_stringRest {cs : List Char} {n : Nat} (h : stringRest cs = some n) :
    cs.take n ∈ stringItem∗ * exactly ['"'] := by
  have step {u v : List Char} (hu : u ∈ stringItem) (hv : v ∈ stringItem∗ * exactly ['"']) :
      u ++ v ∈ stringItem∗ * exactly ['"'] := by
    obtain ⟨a, ha, b, hb, rfl⟩ := Language.mem_mul.1 hv
    rw [← List.append_assoc]
    exact Language.append_mem_mul (append_mem_kstar hu ha) hb
  fun_induction stringRest cs generalizing n with
  | case1 c cs ih =>
    obtain ⟨m, hm, rfl⟩ := Option.map_eq_some_iff.1 h
    have hitem : ['\\', c] ∈ stringItem :=
      Or.inr (Language.append_mem_mul (mem_exactly ['\\']) (mem_one rfl))
    exact step hitem (ih hm)
  | case2 => cases h
  | case3 cs =>
    cases h
    exact Language.append_mem_mul (Language.nil_mem_kstar _) (mem_exactly ['"'])
  | case4 c cs hescape hlast hquote ih =>
    have hc : c ≠ '\\' := by
      rintro rfl
      cases cs with
      | nil => exact hlast rfl rfl
      | cons d cs => exact hescape d cs rfl rfl
    obtain ⟨m, hm, rfl⟩ := Option.map_eq_some_iff.1 h
    have hitem : [c] ∈ stringItem := Or.inl (mem_one (by simpa [hc] using hquote))
    exact step hitem (ih hm)
  | case5 => cases h

theorem take_commentRest {cs : List Char} {n : Nat} (h : commentRest cs = some n) :
    ∃ body, cs.take n = body ++ ['*', '/'] ∧ ¬ ['*', '/'] <:+: body ++ ['*'] := by
  fun_induction commentRest cs generalizing n with
  | case1 cs =>
    cases h
    exact ⟨[], rfl, fun hinfix => absurd hinfix.length_le (by simp)⟩
  | case2 c cs hne ih =>
    obtain ⟨m, hm, rfl⟩ := Option.map_eq_some_iff.1 h
    obtain ⟨body, htake, hfree⟩ := ih hm
    refine ⟨c :: body, by rw [List.take_succ_cons, htake, List.cons_append], fun hinfix => ?_⟩
    rcases List.infix_cons_iff.1 hinfix with hprefix | hinfix
    · -- The mark would stand at the head of the text.
      obtain ⟨rest, hrest⟩ := hprefix
      obtain ⟨rfl, hbody⟩ : '*' = c ∧ '/' :: rest = body ++ ['*'] := by simpa using hrest
      cases body with
      | nil => cases hbody
      | cons d body =>
        cases hbody
        cases cs with
        | nil => simp at htake
        | cons e cs =>
          cases m with
          | zero => simp at htake
          | succ m =>
            obtain ⟨rfl, -⟩ : e = '/' ∧ _ := by simpa using htake
            exact hne cs rfl rfl
    · exact hfree hinfix
  | case3 => cases h

theorem Terminal.take_mem_pattern {t : Terminal} {cs : List Char} {n : Nat}
    (h : t.lexemeLength cs = some n) : cs.take n ∈ t.pattern := by
  have spelled (hspelling : t.spelling?.isSome) : cs.take n ∈ {w | t.Spells w} := by
    obtain ⟨word, hword⟩ := Option.isSome_iff_exists.1 hspelling
    exact ⟨word, hword, (Terminal.take_of_spelling hword h).symm⟩
  cases t with
  | docComment =>
    obtain ⟨rest, rfl, rfl⟩ := docCommentLength_eq_some_iff.1 h
    simp only [List.take_succ_cons, take_length_takeWhile]
    exact Language.append_mem_mul (mem_exactly ['/', '/', '/'])
      (mem_kstar_one fun _ => List.mem_takeWhile_imp)
  | ident => exact (isIdent_take h).mem_pattern
  | lifetime => exact (isLifetime_take h).mem_pattern
  | string =>
    obtain ⟨rest, m, rfl, hm, rfl⟩ := stringLength_eq_some_iff.1 h
    exact Language.append_mem_mul (mem_exactly ['"']) (take_stringRest hm)
  | number => exact (isNumber_take h).mem_pattern
  | initializer =>
    obtain ⟨⟨c, w, htake, hc, hblank, hw⟩, -⟩ := initializerLength_spec h
    rw [htake]
    refine cons_mem_one_mul (by simp [hc, hblank]) fun d hd => ?_
    rw [bne_iff_ne]
    rintro rfl
    exact hw hd
  | _ => exact spelled rfl

theorem Gap.take_mem_pattern {g : Gap} {cs : List Char} {n : Nat} (h : g.length cs = some n) :
    cs.take n ∈ g.pattern := by
  cases g with
  | blockComment =>
    obtain ⟨rest, m, rfl, hm, rfl⟩ := Gap.blockComment_eq_some_iff.1 h
    obtain ⟨body, htake, hfree⟩ := take_commentRest hm
    exact ⟨body, by rw [List.take_succ_cons, List.take_succ_cons, htake], hfree⟩
  | space =>
    have hchars := Gap.space_chars h
    obtain ⟨c, w, htake⟩ := List.exists_cons_of_ne_nil (take_ne_nil (Gap.length_bound h))
    rw [htake, List.forall_mem_cons] at hchars
    rw [htake]
    exact cons_mem_one_mul hchars.1 hchars.2
  | lineComment =>
    obtain ⟨rest, rfl, rfl⟩ := Gap.lineComment_eq_some_iff.1 h
    simp only [List.take_succ_cons, take_length_takeWhile]
    exact Language.append_mem_mul (mem_exactly ['/', '/'])
      (mem_kstar_one fun _ => List.mem_takeWhile_imp)

/-- A text from a place on, split into gaps and lexemes; the tokens are the lexemes, with the places
they have in the text. -/
inductive Splits : Position → List Char → List Token → Prop
  | done {p : Position} : Splits p [] []
  | gap {p : Position} {g : Gap} {w cs : List Char} {ts : List Token} (hw : w ∈ g.pattern)
      (rest : Splits (Position.past p w) cs ts) : Splits p (w ++ cs) ts
  | lexeme {p : Position} {k : Terminal} {w cs : List Char} {ts : List Token} (hw : w ∈ k.pattern)
      (rest : Splits (Position.past p w) cs ts) : Splits p (w ++ cs) (tokenAt k p w :: ts)

theorem Reads.splits {s s' : State} {p p' : Position} {cs : List Char} {ts : List Token}
    (h : Reads s p cs ts s' p' []) : Splits p cs ts := by
  generalize hend : ([] : List Char) = rest at h
  induction h with
  | done =>
    subst hend
    exact .done
  | @gap _ _ p _ cs _ ts n hscan _ ih =>
    obtain ⟨g, hg⟩ := scan_gap hscan
    rw [← List.take_append_drop n cs]
    exact .gap (Gap.take_mem_pattern hg) (ih hend)
  | @lexeme _ _ _ p _ cs _ ts k n hscan _ _ ih =>
    have hsplit := Splits.lexeme (Terminal.take_mem_pattern (scan_lexeme_kind hscan).2) (ih hend)
    rwa [List.take_append_drop] at hsplit

end NativeBinding.Grammar
