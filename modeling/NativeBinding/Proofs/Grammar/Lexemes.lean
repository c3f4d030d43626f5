import Mathlib.Data.List.TakeWhile
import NativeBinding.Body.Mask
import NativeBinding.Proofs.Grammar.Reading

/-!
What lexemes consist of, and which of them are inert regions of the text they stand in.
-/

namespace NativeBinding.Grammar

open Text Body

theorem isIdentRest_of_isIdentStart {c : Char} (h : isIdentStart c) : isIdentRest c := by
  simp only [isIdentStart, isIdentRest, Char.isAlphanum, Bool.or_eq_true] at *
  rcases h with h | h
  · exact Or.inl (Or.inl h)
  · exact Or.inr h

theorem isWord_of_isIdentRest {c : Char} (h : isIdentRest c) : isWord c := by
  simp only [isIdentRest, Bool.or_eq_true, beq_iff_eq] at h
  rcases h with h | rfl
  · exact isWord_of_isAlphanum h
  · decide

theorem take_length_takeWhile (p : Char → Bool) (cs : List Char) :
    cs.take (cs.takeWhile p).length = cs.takeWhile p :=
  (List.prefix_iff_eq_take.1 (List.takeWhile_prefix p)).symm

theorem drop_length_takeWhile (p : Char → Bool) (cs : List Char) :
    cs.drop (cs.takeWhile p).length = cs.dropWhile p := by
  have h := congrArg (List.drop (cs.takeWhile p).length)
    (show cs.takeWhile p ++ cs.dropWhile p = cs from List.takeWhile_append_dropWhile)
  rw [List.drop_left] at h
  exact h.symm

theorem head?_drop_takeWhile (p : Char → Bool) (cs : List Char) :
    ∀ c ∈ (cs.drop (cs.takeWhile p).length).head?, p c = false := by
  intro c hc
  rw [drop_length_takeWhile] at hc
  have hstop := List.head?_dropWhile_not p cs
  rw [hc] at hstop
  simpa using hstop

theorem nameLength_spec {cs : List Char} {n : Nat} (h : nameLength cs = some n) :
    (∀ c ∈ cs.take n, isIdentRest c) ∧ ∀ c, (cs.drop n).head? = some c → isIdentRest c = false := by
  obtain ⟨c, rest, rfl, hc, rfl⟩ := nameLength_eq_some_iff.1 h
  rw [List.take_succ_cons, List.drop_succ_cons, take_length_takeWhile]
  refine ⟨fun d hd => ?_, head?_drop_takeWhile _ rest⟩
  rcases List.mem_cons.1 hd with rfl | hd
  · exact isIdentRest_of_isIdentStart hc
  · exact List.mem_takeWhile_imp hd

theorem identLength_spec {cs : List Char} {n : Nat} (h : identLength cs = some n) :
    (∃ raw name, cs.take n = raw ++ name ∧ (raw = [] ∨ raw = ['r', '#']) ∧ name ≠ [] ∧
      ∀ c ∈ name, isIdentRest c) ∧ ∀ c, (cs.drop n).head? = some c → isIdentRest c = false := by
  rcases identLength_cases h with hname | ⟨rest, m, rfl, hname, rfl⟩
  · obtain ⟨hall, hnext⟩ := nameLength_spec hname
    exact ⟨⟨[], _, rfl, Or.inl rfl, take_ne_nil (nameLength_bound hname), hall⟩, hnext⟩
  · obtain ⟨hall, hnext⟩ := nameLength_spec hname
    exact ⟨⟨['r', '#'], _, rfl, Or.inr rfl, take_ne_nil (nameLength_bound hname), hall⟩, hnext⟩

theorem takeWhile_take {p : Char → Bool} {cs : List Char} {k : Nat}
    (hk : k ≤ (cs.takeWhile p).length) : ∀ c ∈ cs.take k, p c := by
  intro c hc
  have hinit : cs.take k <+: cs.takeWhile p :=
    List.prefix_of_prefix_length_le (List.take_prefix _ _) (List.takeWhile_prefix _)
      (Nat.le_trans (List.length_take_le _ _) hk)
  exact List.mem_takeWhile_imp (hinit.subset hc)

theorem unsignedLength_chars {cs : List Char} {n : Nat} (h : unsignedLength cs = some n) :
    ∀ c ∈ cs.take n, isDigit c ∨ c = '.' := by
  obtain ⟨whole, hw, hn⟩ := unsignedLength_cases h
  have hdigits : ∀ c ∈ cs.take (whole + 1), isDigit c := takeWhile_take (Nat.le_of_eq hw.symm)
  rcases hn with rfl | ⟨rest, fraction, hdrop, hf, rfl⟩
  · exact fun c hc => Or.inl (hdigits c hc)
  · intro c hc
    rw [List.take_add, hdrop, List.take_succ_cons] at hc
    rcases List.mem_append.1 hc with hc | hc
    · exact Or.inl (hdigits c hc)
    · rcases List.mem_cons.1 hc with rfl | hc
      · exact Or.inr rfl
      · exact Or.inl (takeWhile_take (Nat.le_of_eq hf.symm) c hc)

theorem numberLength_chars {cs : List Char} {n : Nat} (h : numberLength cs = some n) :
    ∀ c ∈ cs.take n, isDigit c ∨ c = '.' ∨ c = '-' := by
  have unsigned {cs : List Char} {n : Nat} (h : unsignedLength cs = some n) :
      ∀ c ∈ cs.take n, isDigit c ∨ c = '.' ∨ c = '-' := fun c hc =>
    (unsignedLength_chars h c hc).imp_right Or.inl
  rcases numberLength_cases h with hm | ⟨rest, m, rfl, hm, rfl⟩
  · exact unsigned hm
  · intro c hc
    rcases List.mem_cons.1 hc with rfl | hc
    · exact Or.inr (Or.inr rfl)
    · exact unsigned hm c hc

theorem spellingLength_spec {word : String} {cs : List Char} {n : Nat}
    (h : spellingLength word cs = some n) : cs.take n = word.toList := by
  rw [spellingLength] at h
  split at h
  · next hpre =>
    cases h
    rw [← String.length_toList]
    exact (List.prefix_iff_eq_take.1 (List.isPrefixOf_iff_prefix.1 hpre)).symm
  · cases h

theorem quotedLength_eq {cs : List Char} :
    quotedLength cs = (stringRest cs).getD cs.length := by
  fun_induction stringRest cs with
  | case1 c cs ih =>
    rw [quotedLength, ih]
    cases stringRest cs <;> simp
  | case2 => rfl
  | case3 => rfl
  | case4 c cs h1 h2 h3 ih =>
    rw [quotedLength, ih]
    · cases stringRest cs <;> simp
    all_goals simp_all
  | case5 => rfl

theorem throughMark_eq {cs : List Char} :
    throughMark ['*', '/'] cs = (commentRest cs).getD cs.length := by
  fun_induction commentRest cs with
  | case1 => rfl
  | case2 c cs h ih =>
    have hpre : ['*', '/'].isPrefixOf (c :: cs) = false := by
      rw [← Bool.not_eq_true]
      intro hpre
      obtain ⟨rest, hrest⟩ := List.isPrefixOf_iff_prefix.1 hpre
      cases hrest
      exact h _ rfl rfl
    rw [throughMark, if_neg (by simp [hpre]), ih]
    cases commentRest cs <;> simp
  | case3 => rfl

theorem stringRest_of_take {cs ds : List Char} {n : Nat} (h : stringRest cs = some n)
    (htake : cs.take n = ds.take n) : stringRest ds = some n := by
  fun_induction stringRest cs generalizing ds n with
  | case1 c cs ih =>
    obtain ⟨m, hm, rfl⟩ := Option.map_eq_some_iff.1 h
    rcases ds with _ | ⟨d, _ | ⟨e, ds⟩⟩
    · simp at htake
    · simp at htake
    · simp only [List.take_succ_cons, List.cons.injEq] at htake
      obtain ⟨rfl, rfl, htake⟩ := htake
      simp [stringRest, ih hm htake]
  | case2 => cases h
  | case3 cs =>
    cases h
    cases ds with
    | nil => simp at htake
    | cons d ds =>
      obtain rfl : '"' = d := by simpa using htake
      rfl
  | case4 c cs hescape hlast hquote ih =>
    have hc : c ≠ '\\' := by
      rintro rfl
      cases cs with
      | nil => exact hlast rfl rfl
      | cons d cs => exact hescape d cs rfl rfl
    obtain ⟨m, hm, rfl⟩ := Option.map_eq_some_iff.1 h
    cases ds with
    | nil => simp at htake
    | cons d ds =>
      simp only [List.take_succ_cons, List.cons.injEq] at htake
      obtain ⟨rfl, htake⟩ := htake
      rw [stringRest, ih hm htake]
      · rfl
      · exact fun _ _ h => absurd h hc
      · exact fun h => absurd h hc
      · exact hquote
  | case5 => cases h

theorem commentRest_of_take {cs ds : List Char} {n : Nat} (h : commentRest cs = some n)
    (htake : cs.take n = ds.take n) : commentRest ds = some n := by
  fun_induction commentRest cs generalizing ds n with
  | case1 cs =>
    cases h
    rcases ds with _ | ⟨d, _ | ⟨e, ds⟩⟩
    · simp at htake
    · simp at htake
    · simp only [List.take_succ_cons, List.cons.injEq] at htake
      obtain ⟨rfl, rfl, -⟩ := htake
      rfl
  | case2 c cs hne ih =>
    obtain ⟨m, hm, rfl⟩ := Option.map_eq_some_iff.1 h
    cases ds with
    | nil => simp at htake
    | cons d ds =>
      simp only [List.take_succ_cons, List.cons.injEq] at htake
      obtain ⟨rfl, htake⟩ := htake
      have hds : ∀ rest, c = '*' → ds ≠ '/' :: rest := by
        rintro rest rfl rfl
        have hpos := (commentRest_bound hm).1
        obtain ⟨k, rfl⟩ := Nat.exists_eq_succ_of_ne_zero (Nat.ne_of_gt hpos)
        cases cs with
        | nil => cases hm
        | cons e cs =>
          obtain ⟨rfl, -⟩ : e = '/' ∧ _ := by simpa using htake
          exact hne cs rfl rfl
      rw [commentRest, ih hm htake]
      · rfl
      · exact fun rest hc hd => hds rest hc hd
  | case3 => cases h

def Kind.isRegion : Kind → Bool
  | .terminal .docComment | .terminal .string | .gap .blockComment | .gap .lineComment => true
  | _ => false

theorem Kind.inertLength_eq (k : Kind) (hk : k.isRegion) {cs : List Char} {n : Nat}
    (h : k.length cs = some n) (prev : Option Char) : inertLength prev cs = some n := by
  unfold isRegion at hk
  split at hk
  · obtain ⟨rest, rfl, rfl⟩ := docCommentLength_eq_some_iff.1 h
    simp [inertLength]
    omega
  · obtain ⟨rest, m, rfl, hm, rfl⟩ := stringLength_eq_some_iff.1 h
    simp [inertLength, quotedLength_eq, hm]
    omega
  · obtain ⟨rest, m, rfl, hm, rfl⟩ := Gap.blockComment_eq_some_iff.1 h
    simp [inertLength, throughMark_eq, hm]
    omega
  · obtain ⟨rest, rfl, rfl⟩ := Gap.lineComment_eq_some_iff.1 h
    simp [inertLength]
    omega
  · cases hk

theorem Gap.space_chars {cs : List Char} {n : Nat} (h : Gap.space.length cs = some n) :
    ∀ c ∈ cs.take n, isGapSpace c := by
  obtain ⟨hn, -⟩ := Gap.space_eq_some_iff.1 h
  exact takeWhile_take (Nat.le_of_eq hn.symm)

theorem lifetimeLength_spec {cs : List Char} {n : Nat} (h : lifetimeLength cs = some n) :
    (∃ name, cs.take n = '\'' :: name ∧ name ≠ [] ∧ ∀ c ∈ name, isIdentRest c) ∧
      ∀ c, (cs.drop n).head? = some c → isIdentRest c = false := by
  obtain ⟨rest, m, rfl, hm, rfl⟩ := lifetimeLength_eq_some_iff.1 h
  obtain ⟨hall, hnext⟩ := nameLength_spec hm
  exact ⟨⟨_, rfl, take_ne_nil (nameLength_bound hm), hall⟩, hnext⟩

theorem Terminal.take_of_spelling {t : Terminal} {word : String} (hword : t.spelling? = some word)
    {cs : List Char} {n : Nat} (h : t.lexemeLength cs = some n) : cs.take n = word.toList := by
  cases t <;> cases hword <;> exact spellingLength_spec h

theorem Terminal.lexemeLength_of_take {t : Terminal} {word : String}
    (hword : t.spelling? = some word) {cs : List Char} {n : Nat} (hn : n ≤ cs.length)
    (h : word.toList = cs.take n) : t.lexemeLength cs = some n := by
  have hspelled : spellingLength word cs = some n := by
    have hlen : word.length = n := by
      rw [← String.length_toList, h, List.length_take_of_le hn]
    rw [spellingLength, if_pos, hlen]
    rw [List.isPrefixOf_iff_prefix, h]
    exact List.take_prefix _ _
  cases t <;> cases hword <;> exact hspelled

theorem scan_lexeme_kind {expected : List Terminal} {cs : List Char} {kind : Terminal} {n : Nat}
    (h : scan expected cs = .lexeme kind n) : kind ∈ expected ∧ kind.lexemeLength cs = some n := by
  obtain ⟨t, ht, hn, rfl | ⟨rfl, rfl⟩⟩ := scan_lexeme h
  · exact ⟨ht, hn⟩
  · rw [identKind]
    cases hfind : Terminal.spelled.find? fun t =>
        expected.contains t && t.spelling?.any (·.toList == cs.take n) with
    | none => exact ⟨ht, hn⟩
    | some k =>
      have hk := List.find?_some hfind
      simp only [Bool.and_eq_true, List.contains_iff_mem, Option.any_eq_true, beq_iff_eq] at hk
      obtain ⟨hmem, word, hword, htext⟩ := hk
      exact ⟨hmem, Terminal.lexemeLength_of_take hword (Terminal.lexemeLength_bound hn).2 htext⟩

theorem initializerLength_spec {cs : List Char} {n : Nat} (h : initializerLength cs = some n) :
    (∃ c w, cs.take n = c :: w ∧ c ≠ ';' ∧ isBlank c = false ∧ ';' ∉ w) ∧
      (cs.drop n = [] ∨ ∃ rest, cs.drop n = ';' :: rest) := by
  obtain ⟨c, rest, rfl, hc, hblank, rfl⟩ := initializerLength_eq_some_iff.1 h
  rw [List.take_succ_cons, List.drop_succ_cons, take_length_takeWhile]
  refine ⟨⟨c, _, rfl, hc, hblank, fun hmem => ?_⟩, ?_⟩
  · simpa using List.mem_takeWhile_imp hmem
  · have hstop := head?_drop_takeWhile (· != ';') rest
    cases hdrop : rest.drop (rest.takeWhile (· != ';')).length with
    | nil => exact Or.inl rfl
    | cons d after =>
      rw [hdrop] at hstop
      obtain rfl : d = ';' := by simpa using hstop
      exact Or.inr ⟨after, rfl⟩

theorem initializerLength_append {c : Char} {w rest : List Char} (hc : c ≠ ';')
    (hblank : isBlank c = false) (hw : ';' ∉ w) (hrest : rest = [] ∨ ∃ r, rest = ';' :: r) :
    initializerLength (c :: w ++ rest) = some (c :: w).length := by
  have hall : ∀ d ∈ w, (d != ';') = true := by
    intro d hd
    rw [bne_iff_ne]
    rintro rfl
    exact hw hd
  have htake : (w ++ rest).takeWhile (· != ';') = w := by
    rw [List.takeWhile_append_of_pos hall]
    rcases hrest with rfl | ⟨r, rfl⟩ <;> simp
  rw [List.cons_append, initializerLength, htake]
  simp [hc, hblank, Nat.add_comm]

end NativeBinding.Grammar
