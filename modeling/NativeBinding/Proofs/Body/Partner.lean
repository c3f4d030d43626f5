import Mathlib.Order.Bounds.Basic
import NativeBinding.Proofs.Body.Layout

/-!
The partner of a brace. A text is cut into inert regions and single characters. The brace that
closes another one is the first single brace at which the single braces so far balance; if there is
no such brace, none is found. Every region is within the text, however it ends.
-/

namespace NativeBinding.Body

open Text

theorem throughMark_le (mark cs : List Char) : throughMark mark cs ≤ cs.length := by
  induction cs with
  | nil => rfl
  | cons c cs ih =>
    rw [throughMark]
    split
    · next hmark => exact (List.isPrefixOf_iff_prefix.1 hmark).length_le
    · exact Nat.succ_le_succ ih

theorem quotedLength_le (cs : List Char) : quotedLength cs ≤ cs.length := by
  fun_induction quotedLength cs with
  | case1 => rfl
  | case2 c cs ih => simpa using ih
  | case3 cs => simp
  | case4 c cs _ _ ih => simpa using ih

theorem rawLength_le {cs : List Char} {n : Nat} (h : rawLength cs = some n) : n ≤ cs.length := by
  obtain ⟨hashes, body, rfl, -, rfl⟩ := rawLength_eq_some_iff.1 h
  have hbody := throughMark_le ('"' :: hashes) body
  simp only [List.length_append, List.length_cons]
  omega

theorem inertLength_le {prev : Option Char} {cs : List Char} {n : Nat}
    (h : inertLength prev cs = some n) : n ≤ cs.length := by
  rw [inertLength.eq_def] at h
  split at h
  · next cs =>
    cases h
    have hline := (List.takeWhile_prefix (l := cs) (· != '\n')).length_le
    simp only [List.length_cons]
    omega
  · next cs =>
    cases h
    have hblock := throughMark_le ['*', '/'] cs
    simp only [List.length_cons]
    omega
  · split at h
    · cases h
    · obtain ⟨m, hm, rfl⟩ := Option.map_eq_some_iff.1 h
      exact Nat.succ_le_succ (rawLength_le hm)
  · next cs =>
    cases h
    have hquoted := quotedLength_le cs
    simp only [List.length_cons]
    omega
  · obtain ⟨m, hm, rfl⟩ := Option.map_eq_some_iff.1 h
    exact Nat.succ_le_succ (charText_of_charLength hm).2
  · cases h

inductive Piece
  | region (chars : List Char)
  | single (c : Char)
  deriving DecidableEq

namespace Piece

def chars : Piece → List Char
  | region chars => chars
  | single c => [c]

def cells : Piece → List Cell
  | region chars => run true chars
  | single c => [⟨c, false⟩]

def rise : Piece → Int
  | region _ => 0
  | single c => if c = '{' then 1 else if c = '}' then -1 else 0

end Piece

def charsOf (ps : List Piece) : List Char :=
  ps.flatMap Piece.chars

def balance : List Piece → Int
  | [] => 0
  | p :: ps => p.rise + balance ps

/-- A text, after a character before it, is cut into regions and single characters: a region
wherever one starts. -/
inductive Cut : Option Char → List Char → List Piece → Prop
  | nil (prev : Option Char) : Cut prev [] []
  | region {prev : Option Char} {text : List Char} {n : Nat} {ps : List Piece}
      (h : inertLength prev text = some n)
      (rest : Cut (lastOf prev (text.take n)) (text.drop n) ps) :
      Cut prev text (.region (text.take n) :: ps)
  | single {prev : Option Char} {c : Char} {text : List Char} {ps : List Piece}
      (h : inertLength prev (c :: text) = none) (rest : Cut (some c) text ps) :
      Cut prev (c :: text) (.single c :: ps)

/-- The place, counted from `i` on, of a single closing brace among some pieces, at which all braces
balance; `d` of them are open before the pieces. -/
def BalancesAt (d : Int) (i : Nat) (ps : List Piece) (j : Nat) : Prop :=
  ∃ before after, ps = before ++ .single '}' :: after ∧ j = i + (charsOf before).length ∧
    d + balance (before ++ [.single '}']) = 0

section

variable {prev : Option Char} {text : List Char} {ps : List Piece} {d : Int} {i j : Nat}

@[simp] theorem charsOf_nil : charsOf [] = [] := rfl

@[simp] theorem charsOf_cons (p : Piece) (ps : List Piece) :
    charsOf (p :: ps) = p.chars ++ charsOf ps := rfl

theorem charsOf_append (ps qs : List Piece) : charsOf (ps ++ qs) = charsOf ps ++ charsOf qs :=
  List.flatMap_append

@[simp] theorem balance_cons (p : Piece) (ps : List Piece) :
    balance (p :: ps) = p.rise + balance ps := rfl

theorem exists_cut (prev : Option Char) (text : List Char) : ∃ ps, Cut prev text ps := by
  -- By the length of the text, since a region is passed as a whole.
  generalize hlen : text.length = len
  induction len using Nat.strongRecOn generalizing prev text with
  | ind len ih =>
    cases text with
    | nil => exact ⟨[], .nil prev⟩
    | cons c text =>
      cases h : inertLength prev (c :: text) with
      | none =>
        obtain ⟨ps, hps⟩ := ih text.length (by simp [← hlen]) (some c) text rfl
        exact ⟨_, .single h hps⟩
      | some n =>
        have hpos := inertLength_pos h
        obtain ⟨ps, hps⟩ := ih ((c :: text).drop n).length
          (by rw [List.length_drop, hlen]; simp at hlen; omega)
          (lastOf prev ((c :: text).take n)) _ rfl
        exact ⟨_, .region h hps⟩

theorem Cut.unique {qs : List Piece} (h : Cut prev text ps) (h' : Cut prev text qs) : ps = qs := by
  induction h generalizing qs with
  | nil =>
    cases h' with
    | nil => rfl
    | region hregion => cases hregion
  | region hregion _ ih =>
    cases h' with
    | nil => cases hregion
    | region hregion' rest =>
      obtain rfl := Option.some.inj (hregion.symm.trans hregion')
      rw [ih rest]
    | single hnone => simp [hnone] at hregion
  | single hnone _ ih =>
    cases h' with
    | region hregion => simp [hnone] at hregion
    | single _ rest => rw [ih rest]

theorem Cut.charsOf_eq (h : Cut prev text ps) : charsOf ps = text := by
  induction h with
  | nil => rfl
  | region _ _ ih =>
    rw [charsOf_cons, ih]
    exact List.take_append_drop _ _
  | single _ _ ih =>
    rw [charsOf_cons, ih]
    rfl

theorem Cut.cellsFrom_eq (h : Cut prev text ps) :
    cellsFrom 0 prev text = ps.flatMap Piece.cells := by
  induction h with
  | nil => rfl
  | region hregion _ ih =>
    rw [cellsFrom_inert hregion, ih]
    rfl
  | single hnone _ ih =>
    rw [cellsFrom_live hnone, ih]
    rfl

theorem BalancesAt.le (h : BalancesAt d i ps j) : i ≤ j := by
  obtain ⟨before, after, -, rfl, -⟩ := h
  exact Nat.le_add_right _ _

theorem BalancesAt.getElem? (h : BalancesAt d i ps j) (hps : Cut prev (text.drop i) ps) :
    text[j]? = some '}' := by
  obtain ⟨before, after, rfl, rfl, -⟩ := h
  have htext := hps.charsOf_eq
  rw [charsOf_append] at htext
  rw [← List.getElem?_drop, ← htext, List.getElem?_append_right (Nat.le_refl _), Nat.sub_self]
  rfl

theorem not_balancesAt_nil : ¬ BalancesAt d i [] j := by
  rintro ⟨before, after, h, -⟩
  simp at h

theorem balancesAt_cons {p : Piece} : BalancesAt d i (p :: ps) j ↔
    (p = .single '}' ∧ d = 1 ∧ j = i) ∨
      BalancesAt (d + p.rise) (i + p.chars.length) ps j := by
  constructor
  · rintro ⟨before, after, hps, rfl, hbalance⟩
    cases before with
    | nil =>
      cases hps
      refine .inl ⟨rfl, ?_, rfl⟩
      simp [balance, Piece.rise] at hbalance
      omega
    | cons q before =>
      cases hps
      refine .inr ⟨before, after, rfl, ?_, ?_⟩
      · simp [Nat.add_assoc]
      · rwa [List.cons_append, balance_cons, ← Int.add_assoc] at hbalance
  · rintro (⟨rfl, rfl, rfl⟩ | ⟨before, after, rfl, rfl, hbalance⟩)
    · exact ⟨[], ps, rfl, rfl, by simp [balance, Piece.rise]⟩
    · refine ⟨p :: before, after, rfl, ?_, ?_⟩
      · simp [Nat.add_assoc]
      · rwa [List.cons_append, balance_cons, ← Int.add_assoc]

theorem closing_piece (d : Nat) (p : Piece) (cs : List Cell) :
    (p = .single '}' ∧ d = 0 ∧ closing d (p.cells ++ cs) = some 0) ∨
      ¬ (p = .single '}' ∧ d = 0) ∧ ∃ e : Nat, (e : Int) = d + p.rise ∧
        closing d (p.cells ++ cs) = (closing e cs).map (· + p.chars.length) := by
  cases p with
  | region w =>
    refine .inr ⟨by simp, d, by simp [Piece.rise], ?_⟩
    rw [Piece.cells, closing_append (depthAfter_inert d w), length_run]
    rfl
  | single c =>
    by_cases hopen : c = '{'
    · subst hopen
      exact .inr ⟨by simp, d + 1, by simp [Piece.rise], by simp [Piece.cells, closing, Piece.chars]⟩
    · by_cases hclose : c = '}'
      · subst hclose
        cases d with
        | zero => exact .inl ⟨rfl, rfl, by simp [Piece.cells, closing]⟩
        | succ d =>
          refine .inr ⟨by simp, d, ?_, by simp [Piece.cells, closing, Piece.chars]⟩
          simp only [Piece.rise, hopen, if_false, if_true]
          omega
      · exact .inr ⟨by simp [hclose], d, by simp [Piece.rise, hopen, hclose],
          by simp [Piece.cells, closing, Piece.chars, hopen, hclose]⟩

theorem closing_pieces (d i : Nat) (ps : List Piece) :
    (∀ n, closing d (ps.flatMap Piece.cells) = some n →
        IsLeast {j | BalancesAt (d + 1) i ps j} (i + n)) ∧
      (closing d (ps.flatMap Piece.cells) = none → ∀ j, ¬ BalancesAt (d + 1) i ps j) := by
  induction ps generalizing d i with
  | nil => exact ⟨fun n h => by simp [closing] at h, fun _ _ => not_balancesAt_nil⟩
  | cons p ps ih =>
    rw [List.flatMap_cons]
    obtain ⟨rfl, rfl, hclosing⟩ | ⟨hpiece, e, he, hclosing⟩ :=
      closing_piece d p (ps.flatMap Piece.cells)
    · rw [hclosing]
      refine ⟨?_, fun h => by cases h⟩
      rintro n ⟨⟩
      exact ⟨balancesAt_cons.2 (.inl ⟨rfl, rfl, rfl⟩), fun j hj => hj.le⟩
    · -- The piece closes nothing, so the places are those of the pieces after it.
      have hplaces (j : Nat) : BalancesAt (d + 1) i (p :: ps) j ↔
          BalancesAt (e + 1) (i + p.chars.length) ps j := by
        rw [balancesAt_cons, show (d : Int) + 1 + p.rise = e + 1 by omega]
        refine or_iff_right ?_
        rintro ⟨hp, hd, -⟩
        exact hpiece ⟨hp, by omega⟩
      obtain ⟨hsome, hnone⟩ := ih e (i + p.chars.length)
      simp only [hplaces, hclosing]
      constructor
      · intro n h
        obtain ⟨m, hm, rfl⟩ := Option.map_eq_some_iff.1 h
        have hleast := hsome m hm
        rwa [Nat.add_assoc, Nat.add_comm p.chars.length] at hleast
      · intro h
        exact hnone (Option.map_eq_none_iff.1 h)

theorem closingBrace?_pieces (h : Cut prev (text.drop i) ps) (hbrace : text[i]? = some '{') :
    (∀ j, closingBrace? text i = some j → IsLeast {j | BalancesAt 0 i ps j} j) ∧
      (closingBrace? text i = none → ∀ j, ¬ BalancesAt 0 i ps j) := by
  have htext : text.drop i = '{' :: text.drop (i + 1) := by
    obtain ⟨hi, hbrace⟩ := List.getElem?_eq_some_iff.1 hbrace
    rw [List.drop_eq_getElem_cons hi, hbrace]
  rw [htext] at h
  cases h with
  | region hregion => simp [inertLength] at hregion
  | @single _ _ _ ps _ rest =>
    have hplaces (j : Nat) : BalancesAt 0 i (.single '{' :: ps) j ↔
        BalancesAt ((0 : Nat) + 1) (i + 1) ps j := by
      rw [balancesAt_cons]
      exact or_iff_right (by simp)
    obtain ⟨hsome, hnone⟩ := closing_pieces 0 (i + 1) ps
    rw [closingBrace?, hbrace, rest.cellsFrom_eq]
    simp only [hplaces]
    constructor
    · intro j h
      obtain ⟨n, hn, rfl⟩ := Option.map_eq_some_iff.1 h
      exact hsome n hn
    · intro h
      exact hnone (Option.map_eq_none_iff.1 h)

end

/-- The search for the brace that closes the one at `i`, on the cut of the text from there. -/
structure FindsPartner (text : List Char) (i : Nat) : Prop where
  cut : ∃! ps, Cut (text.take i).getLast? (text.drop i) ps
  found {ps : List Piece} (h : Cut (text.take i).getLast? (text.drop i) ps) (j : Nat) :
    closingBrace? text i = some j ↔ IsLeast {j | BalancesAt 0 i ps j} j
  missing {ps : List Piece} (h : Cut (text.take i).getLast? (text.drop i) ps) :
    closingBrace? text i = none ↔ ∀ j, ¬ BalancesAt 0 i ps j
  within {j : Nat} (h : closingBrace? text i = some j) : i < j ∧ text[j]? = some '}'
  /-- Where the mask looks for a closing brace, this is the search. -/
  masked {as cs : List Cell} (h : cells text = as ++ ⟨'{', false⟩ :: cs) (hi : as.length = i) :
    (closing 0 cs).map (i + 1 + ·) = closingBrace? text i
  regions {k n : Nat} (h : inertLength (text.take k).getLast? (text.drop k) = some n) :
    0 < n ∧ k + n ≤ text.length

theorem findsPartner {text : List Char} {i : Nat} (hbrace : text[i]? = some '{') :
    FindsPartner text i where
  cut := by
    obtain ⟨ps, hps⟩ := exists_cut (text.take i).getLast? (text.drop i)
    exact ⟨ps, hps, fun qs hqs => hqs.unique hps⟩
  found {ps} hps j := by
    obtain ⟨hsome, hnone⟩ := closingBrace?_pieces hps hbrace
    refine ⟨hsome j, fun hleast => ?_⟩
    cases h : closingBrace? text i with
    | none => exact absurd hleast.1 (hnone h j)
    | some k => rw [(hsome k h).unique hleast]
  missing {ps} hps := by
    obtain ⟨hsome, hnone⟩ := closingBrace?_pieces hps hbrace
    refine ⟨hnone, fun hno => ?_⟩
    cases h : closingBrace? text i with
    | none => rfl
    | some k => exact absurd (hsome k h).1 (hno k)
  within {j} h := by
    obtain ⟨ps, hps⟩ := exists_cut (text.take i).getLast? (text.drop i)
    have hbalance := ((closingBrace?_pieces hps hbrace).1 j h).1
    have hclose := hbalance.getElem? hps
    refine ⟨Nat.lt_of_le_of_ne hbalance.le ?_, hclose⟩
    rintro rfl
    rw [hbrace] at hclose
    simp at hclose
  masked {as cs} h hi := by
    rw [← hi, closingBrace?_of_live h]
  regions {k n} h := by
    have hpos := inertLength_pos h
    have hle := inertLength_le h
    rw [List.length_drop] at hle
    omega

theorem findsPartner_of_hidden_braces :
    let text := ("a \x7b '\x7d' r#\"\x7d\"\x7d\"# /* \x7d */ " ++
      "\x7b \"\\\"\x7d\" \x7d // \x7d\n \x7d \x7d").toList
    text[2]? = some '{' ∧ closingBrace? text 2 = some 41 ∧ FindsPartner text 2 := by
  intro text
  have hbrace : text[2]? = some '{' := by decide +kernel
  exact ⟨hbrace, by decide +kernel, findsPartner hbrace⟩

example : closingBrace? "\x7b \"\x7d\\".toList 0 = none := by
  decide +kernel

end NativeBinding.Body
