import NativeBinding.Proofs.Body.Complete
import NativeBinding.Proofs.Body.Reach

/-!
The layout of a masked text. The mask keeps every line feed and writes nothing but spaces, and only
between braces that it keeps. A masked text is masked to itself: where the mask has written, spaces
follow a brace, so no literal starts there that the text does not have.
-/

namespace NativeBinding.Body

open Text

/-- The place of the brace that closes the brace at `i`. Inert regions are looked for from there. -/
def closingBrace? (text : List Char) (i : Nat) : Option Nat :=
  (closing 0 (cellsFrom 0 text[i]? (text.drop (i + 1)))).map (i + 1 + ·)

theorem closingBrace?_of_live {text : List Char} {as cs : List Cell}
    (h : cells text = as ++ ⟨'{', false⟩ :: cs) :
    closingBrace? text as.length = (closing 0 cs).map (as.length + 1 + ·) := by
  obtain ⟨rest, htext, hrest⟩ := cellsFrom_split h
  have hbrace : text[as.length]? = some '{' := by
    rw [htext, List.getElem?_append_right (by simp)]
    simp
  have hdrop : text.drop (as.length + 1) = rest := by
    rw [htext, List.drop_append, List.drop_of_length_le (by simp)]
    simp
  rw [closingBrace?, hbrace, hdrop, ← hrest]

theorem closingBrace?_of_cells {text : List Char} {as body bs : List Cell}
    (h : cells text = as ++ ⟨'{', false⟩ :: (body ++ ⟨'}', false⟩ :: bs))
    (hbody : depthAfter 0 body = some 0) :
    closingBrace? text as.length = some (as.length + 1 + body.length) := by
  rw [closingBrace?_of_live h, closing_of_balanced hbody]
  rfl

/-- A place inside a body of some cells, whose braces stay in what the cells become. -/
def InBody (cs : List Cell) (out : List Char) (i : Nat) : Prop :=
  ∃ as body bs, cs = as ++ ⟨'{', false⟩ :: (body ++ ⟨'}', false⟩ :: bs) ∧
    depthAfter 0 body = some 0 ∧ as.length < i ∧ i < as.length + 1 + body.length ∧
    out[as.length]? = some '{' ∧ out[as.length + 1 + body.length]? = some '}'

theorem InBody.append {cs us : List Cell} {out w : List Char} {i : Nat} (h : InBody cs out i)
    (hlen : w.length = us.length) : InBody (us ++ cs) (w ++ out) (us.length + i) := by
  obtain ⟨as, body, bs, rfl, hdepth, hleft, hright, hopen, hclose⟩ := h
  refine ⟨us ++ as, body, bs, by simp, hdepth, ?_, ?_, ?_, ?_⟩
  · simpa using hleft
  · simp only [List.length_append]
    omega
  · rw [List.length_append, ← hlen, List.getElem?_append_right (by omega), Nat.add_sub_cancel_left]
    exact hopen
  · rw [List.length_append, ← hlen, List.getElem?_append_right (by omega),
      show w.length + as.length + 1 + body.length - w.length = as.length + 1 + body.length by omega]
    exact hclose

theorem inBody_of_changed {cs : List Cell} {b : Bool} {prev : Option Char} {i : Nat}
    (h : (maskCells (.scan b) prev cs)[i]? ≠ (cs.map (·.char))[i]?) :
    InBody cs (maskCells (.scan b) prev cs) i := by
  -- By the number of cells, since a body is passed as a whole.
  generalize hlen : cs.length = len
  induction len using Nat.strongRecOn generalizing cs b prev i with
  | ind len ih =>
    cases cs with
    | nil => exact absurd (by rw [maskCells]; rfl) h
    | cons c cs =>
      by_cases hbody : b = true ∧ c = ⟨'{', false⟩
      · obtain ⟨rfl, rfl⟩ := hbody
        cases hclosing : closing 0 cs with
        | none =>
          rw [maskCells_brace, hclosing] at h
          exact absurd rfl h
        | some n =>
          obtain ⟨body, bs, rfl, rfl, hdepth⟩ := exists_of_closing hclosing
          rw [maskCells_body hdepth] at h ⊢
          rcases Nat.lt_or_ge i (body.length + 2) with hi | hi
          · have hne : i ≠ 0 ∧ i ≠ body.length + 1 := by
              constructor
              · rintro rfl
                exact h rfl
              · rintro rfl
                exact h (by simp)
            exact ⟨[], body, bs, rfl, hdepth, by simp; omega, by simp; omega, rfl, by
              simp [Nat.add_comm 1]⟩
          · obtain ⟨j, rfl⟩ := Nat.exists_eq_add_of_le hi
            have hlen' : ('{' :: ((body.map (·.char)).map blankOut ++ ['}'])).length =
                (⟨'{', false⟩ :: (body ++ [⟨'}', false⟩]) : List Cell).length := by simp
            have hrest : (maskCells (.scan false) (some '}') bs)[j]? ≠ (bs.map (·.char))[j]? := by
              intro hsame
              refine h ?_
              rw [show body.length + 2 + j = body.length + (j + 1) + 1 by omega,
                List.getElem?_cons_succ, List.map_cons, List.getElem?_cons_succ, List.map_append,
                List.getElem?_append_right (by simp), List.getElem?_append_right (by simp)]
              simpa using hsame
            have := (ih bs.length (by rw [← hlen]; simp; omega) hrest rfl).append hlen'
            simpa using this
      · rw [maskCells_cons hbody] at h ⊢
        cases i with
        | zero => exact absurd rfl h
        | succ i =>
          have hrest := ih cs.length (by simp [← hlen]) (by simpa using h) rfl
          have := hrest.append (show [c.char].length = [c].length from rfl)
          rwa [List.length_singleton, Nat.add_comm] at this

theorem blankOut_eq (c : Char) : blankOut c = ' ' ∨ blankOut c = '\n' := by
  rw [blankOut]
  split
  · next hline => exact .inr (beq_iff_eq.1 hline)
  · exact .inl rfl

/-- Two texts that are the same, or the same up to a brace after which the second goes on with a
space or a line feed. -/
inductive Sketch : List Char → List Char → Prop
  | refl (text : List Char) : Sketch text text
  | blank (u v : List Char) {c : Char} (hc : c = ' ' ∨ c = '\n') : Sketch ('{' :: u) ('{' :: c :: v)
  | cons (c : Char) {u v : List Char} (rest : Sketch u v) : Sketch (c :: u) (c :: v)

theorem sketch_maskCells (b : Bool) (prev : Option Char) (cs : List Cell) :
    Sketch (cs.map (·.char)) (maskCells (.scan b) prev cs) := by
  generalize hlen : cs.length = len
  induction len using Nat.strongRecOn generalizing cs b prev with
  | ind len ih =>
    cases cs with
    | nil =>
      rw [maskCells]
      exact .refl _
    | cons c cs =>
      by_cases hbody : b = true ∧ c = ⟨'{', false⟩
      · obtain ⟨rfl, rfl⟩ := hbody
        cases hclosing : closing 0 cs with
        | none =>
          rw [maskCells_brace, hclosing]
          exact .refl _
        | some n =>
          obtain ⟨body, bs, rfl, rfl, hdepth⟩ := exists_of_closing hclosing
          rw [maskCells_body hdepth]
          cases body with
          | nil =>
            have hlt : bs.length < len := by
              simp only [← hlen, List.nil_append, List.length_cons]
              omega
            exact .cons _ (.cons _ (ih bs.length hlt _ _ _ rfl))
          | cons a body =>
            exact .blank _ _ (blankOut_eq a.char)
      · rw [maskCells_cons hbody]
        exact .cons _ (ih cs.length (by simp [← hlen]) _ _ _ rfl)

theorem sketch_maskFrom (b : Bool) (prev : Option Char) (text : List Char) :
    Sketch text (maskFrom b prev text) := by
  have h := sketch_maskCells b prev (cellsFrom 0 prev text)
  rwa [cellsFrom_char] at h

namespace Sketch

variable {u v : List Char}

theorem eq_cons_of_ne {c : Char} (h : Sketch u (c :: v)) (hc : c ≠ '{') :
    ∃ u', u = c :: u' ∧ Sketch u' v := by
  cases h with
  | refl => exact ⟨v, rfl, .refl _⟩
  | blank u v _ => exact absurd rfl hc
  | cons c h => exact ⟨_, rfl, h⟩

theorem eq_cons_of_visible {c d : Char} (h : Sketch u (c :: d :: v)) (hd : d ≠ ' ' ∧ d ≠ '\n') :
    ∃ u', u = c :: u' ∧ Sketch u' (d :: v) := by
  cases h with
  | refl => exact ⟨_, rfl, .refl _⟩
  | blank u v hblank => exact absurd hblank (not_or.2 hd)
  | cons c h => exact ⟨_, rfl, h⟩

theorem eq_append {w : List Char} (h : Sketch u (w ++ v)) (hw : '{' ∉ w) :
    ∃ u', u = w ++ u' ∧ Sketch u' v := by
  induction w generalizing u with
  | nil => exact ⟨u, rfl, h⟩
  | cons c w ih =>
    simp only [List.mem_cons, not_or] at hw
    obtain ⟨u₁, rfl, h₁⟩ := h.eq_cons_of_ne (Ne.symm hw.1)
    obtain ⟨u', rfl, hrest⟩ := ih h₁ hw.2
    exact ⟨u', rfl, hrest⟩

theorem eq_append_of_charText {w : List Char} (h : Sketch u (w ++ v)) (hw : CharText w) :
    ∃ u', u = w ++ u' := by
  cases hw with
  | @plain c hslash hquote hline =>
    obtain ⟨u₁, rfl, h₁⟩ := h.eq_cons_of_visible (by decide)
    obtain ⟨u', rfl, -⟩ := eq_append (w := ['\'']) h₁ (by decide)
    exact ⟨u', rfl⟩
  | @escape c hline =>
    obtain ⟨u₁, rfl, h₁⟩ := h.eq_cons_of_ne (by decide)
    obtain ⟨u₂, rfl, h₂⟩ := eq_cons_of_visible h₁ (by decide)
    obtain ⟨u', rfl, -⟩ := eq_append (w := ['\'']) h₂ (by decide)
    exact ⟨u', rfl⟩
  | @byte a b ha hb =>
    have hnone : '{' ∉ ['\\', 'x', a, b, '\''] := by
      simp only [List.mem_cons, List.not_mem_nil, or_false, not_or]
      exact ⟨by decide, by decide, (ne_of_holds ha (by decide)).symm,
        (ne_of_holds hb (by decide)).symm, by decide⟩
    obtain ⟨u', rfl, -⟩ := h.eq_append hnone
    exact ⟨u', rfl⟩
  | @braced run hrun hpos hlen =>
    obtain ⟨c, run, rfl⟩ := List.exists_cons_of_length_pos hpos
    have hvisible : c ≠ ' ' ∧ c ≠ '\n' :=
      ⟨ne_of_holds (p := fun c => isHex c || c == '_') (hrun c List.mem_cons_self) (by decide),
        ne_of_holds (p := fun c => isHex c || c == '_') (hrun c List.mem_cons_self) (by decide)⟩
    have hnone : '{' ∉ (c :: run) ++ ['}', '\''] := by
      rw [List.mem_append, not_or]
      exact ⟨fun hmem => absurd (hrun _ hmem) (by decide), by decide⟩
    obtain ⟨u₁, rfl, h₁⟩ := h.eq_cons_of_ne (by decide)
    obtain ⟨u₂, rfl, h₂⟩ := h₁.eq_cons_of_ne (by decide)
    obtain ⟨u₃, rfl, h₃⟩ := eq_cons_of_visible h₂ hvisible
    obtain ⟨u', rfl, -⟩ := h₃.eq_append hnone
    exact ⟨u', rfl⟩

/-- No inert region starts in the second text that does not start in the first. -/
theorem inertLength_ne_none (h : Sketch u v) {prev : Option Char} {n : Nat}
    (hn : inertLength prev v = some n) : inertLength prev u ≠ none := by
  rw [inertLength.eq_def] at hn
  split at hn
  · obtain ⟨u₁, rfl, -⟩ := eq_append (w := ['/', '/']) h (by decide)
    exact Option.some_ne_none _
  · obtain ⟨u₁, rfl, -⟩ := eq_append (w := ['/', '*']) h (by decide)
    exact Option.some_ne_none _
  · next cs =>
    split at hn
    · cases hn
    · next hprev =>
      obtain ⟨m, hm, -⟩ := Option.map_eq_some_iff.1 hn
      obtain ⟨hashes, body, rfl, hall, -⟩ := rawLength_eq_some_iff.1 hm
      obtain ⟨u₁, rfl, h₁⟩ := h.eq_cons_of_ne (by decide)
      have hopen : '{' ∉ hashes := fun hmem => absurd (hall _ hmem) (by decide)
      obtain ⟨u₂, rfl, h₂⟩ := h₁.eq_append hopen
      obtain ⟨u₃, rfl, -⟩ := h₂.eq_cons_of_ne (by decide)
      simp [inertLength, hprev, rawLength_append hall]
  · obtain ⟨u₁, rfl, -⟩ := h.eq_cons_of_ne (by decide)
    exact Option.some_ne_none _
  · next cs =>
    obtain ⟨m, hm, -⟩ := Option.map_eq_some_iff.1 hn
    obtain ⟨htext, -⟩ := charText_of_charLength hm
    obtain ⟨u₁, rfl, h₁⟩ := h.eq_cons_of_ne (by decide)
    rw [← List.take_append_drop m cs] at h₁
    obtain ⟨u₂, rfl⟩ := h₁.eq_append_of_charText htext
    simp [inertLength, charLength_append htext]
  · cases hn

end Sketch

theorem inertLength_maskFrom (b : Bool) (prev : Option Char) (text : List Char) :
    inertLength prev (maskFrom b prev text) = inertLength prev text := by
  cases h : inertLength prev text with
  | none =>
    by_contra hsome
    obtain ⟨n, hn⟩ := Option.ne_none_iff_exists'.1 hsome
    exact (sketch_maskFrom b prev text).inertLength_ne_none hn h
  | some n =>
    have halike := alike_maskFrom b prev text
    rcases Nat.lt_or_ge n text.length with hlt | hge
    · refine inertLength_of_take h hlt (halike.region n h).1 fun _ => ?_
      rw [← List.head?_drop, ← List.head?_drop]
      exact (halike.region n h).2.head?_eq
    · rw [← Grammar.eq_of_region halike h hge, h]

theorem startsFn_eq (cs : List Cell) : startsFn cs =
    (['f', 'n'].isPrefixOf (cs.map (·.char)) &&
      !(((cs.map (·.char)).drop 2).head?.any fun c => isWord c)) := by
  rcases cs with _ | ⟨c, _ | ⟨d, rest⟩⟩
  · rfl
  · simp [startsFn, List.isPrefixOf]
  · cases rest <;> simp [startsFn, List.isPrefixOf, Bool.beq_comm, Bool.and_assoc]

theorem startsFn_of_agree {cs ds : List Cell} (h : Agree (cs.map (·.char)) (ds.map (·.char))) :
    startsFn cs = startsFn ds := by
  rw [startsFn_eq, startsFn_eq, h.isPrefixOf_eq (by decide)]
  by_cases hfn : ['f', 'n'].isPrefixOf (ds.map (·.char))
  · have hcs : (cs.map (·.char)).take 2 = ['f', 'n'] := by
      rw [← h.isPrefixOf_eq (by decide)] at hfn
      exact (List.prefix_iff_eq_take.1 (List.isPrefixOf_iff_prefix.1 hfn)).symm
    rw [(h.drop (n := 2) (by rw [hcs]; decide)).head?_eq]
  · rw [Bool.not_eq_true] at hfn
    rw [hfn, Bool.false_and, Bool.false_and]

theorem map_blankOut {w : List Char} (hw : ∀ c ∈ w, c = ' ' ∨ c = '\n') : w.map blankOut = w := by
  refine (List.map_congr_left fun c hc => ?_).trans (List.map_id w)
  rcases hw c hc with rfl | rfl <;> rfl

theorem flagAfter_of_agree {b : Bool} {prev : Option Char} {c : Char} {u v : List Char}
    (h : Agree u v) : flagAfter b prev ⟨c, false⟩ (cellsFrom 0 (some c) u) =
      flagAfter b prev ⟨c, false⟩ (cellsFrom 0 (some c) v) := by
  rw [flagAfter, flagAfter, startsFn_of_agree]
  simpa only [List.map_cons, cellsFrom_char] using h.cons c

theorem maskFrom_blank {w : List Char} (hw : ∀ c ∈ w, c = ' ' ∨ c = '\n') (prev : Option Char)
    (rest : List Char) : maskFrom true prev ('{' :: (w ++ '}' :: rest)) =
      '{' :: (w.map blankOut ++ '}' :: maskFrom false (some '}') rest) := by
  have hplain : ∀ c ∈ w, isPlain c := fun c hc => by
    rcases hw c hc with rfl | rfl <;> decide
  have hnone {d : Char} (hd : d ≠ ' ' ∧ d ≠ '\n') : d ∉ w := fun hmem =>
    (hw d hmem).elim hd.1 hd.2
  have hcells : cellsFrom 0 (some '{') (w ++ '}' :: rest) =
      run false w ++ ⟨'}', false⟩ :: cellsFrom 0 (some '}') rest := by
    rw [cellsFrom_plain hplain, cellsFrom_rbrace]
  exact maskFrom_body hcells (length_run _ _)
    (depthAfter_live (hnone (by decide)) (hnone (by decide)) 0) prev

theorem maskFrom_live {b : Bool} {prev : Option Char} {c : Char} {text : List Char}
    (h : inertLength prev (c :: text) = none) (hbody : ¬ (b = true ∧ c = '{')) :
    maskFrom b prev (c :: text) =
      c :: maskFrom (flagAfter b prev ⟨c, false⟩ (cellsFrom 0 (some c) text)) (some c) text := by
  rw [maskFrom, cellsFrom_live h, maskCells_cons (by simpa using hbody)]
  rfl

theorem maskFrom_maskFrom (b : Bool) (prev : Option Char) (text : List Char) :
    maskFrom b prev (maskFrom b prev text) = maskFrom b prev text := by
  -- By the length of the text, since inert regions and bodies are passed as a whole.
  generalize hlen : text.length = len
  induction len using Nat.strongRecOn generalizing b prev text with
  | ind len ih =>
    have hregion := inertLength_maskFrom b prev text
    cases text with
    | nil => rw [maskFrom_nil, maskFrom_nil]
    | cons c text =>
      cases h : inertLength prev (c :: text) with
      | some n =>
        rw [h] at hregion
        rcases Nat.lt_or_ge n (c :: text).length with hlt | hge
        · have htaken : ((c :: text).take n).length = n := List.length_take_of_le (by omega)
          have hpos := inertLength_pos h
          have hmasked := maskFrom_inert h b
          rw [maskFrom_inert hregion, hmasked, List.take_append_of_le_length (by omega),
            List.take_take, Nat.min_self, List.drop_append_of_le_length (by omega),
            List.drop_eq_nil_of_le (by omega), List.nil_append,
            ih _ (by rw [← hlen, List.length_drop]; omega) _ _ _ rfl]
        · have hsame := Grammar.eq_of_region (alike_maskFrom b prev _) h hge
          rw [← hsame, ← hsame]
      | none =>
        rw [h] at hregion
        by_cases hbody : b = true ∧ c = '{'
        · obtain ⟨rfl, rfl⟩ := hbody
          cases hclosing : closing 0 (cellsFrom 0 (some '{') text) with
          | none =>
            have hsame : maskFrom true prev ('{' :: text) = '{' :: text := by
              rw [maskFrom, cellsFrom_brace, maskCells_brace, hclosing]
              simp only [cellsFrom_char]
            rw [hsame, hsame]
          | some n =>
            obtain ⟨body, bs, hcells, -, hdepth⟩ := exists_of_closing hclosing
            obtain ⟨rest, rfl, rfl⟩ := cellsFrom_split hcells
            have hblank : ∀ c ∈ (body.map (·.char)).map blankOut, c = ' ' ∨ c = '\n' := by
              intro c hc
              obtain ⟨d, -, rfl⟩ := List.mem_map.1 hc
              exact blankOut_eq d
            rw [maskFrom_body hcells (by simp) hdepth, maskFrom_blank hblank,
              ih rest.length (by rw [← hlen]; simp; omega) _ _ _ rfl, map_blankOut hblank]
        · rw [maskFrom_live h hbody] at hregion ⊢
          rw [maskFrom_live hregion hbody, ← flagAfter_of_agree (agree_maskFrom _ _ text),
            ih text.length (by simp [← hlen]) _ _ _ rfl]

/-- What a text shares with what the mask makes of it. -/
structure KeepsLayout (text out : List Char) : Prop where
  length : out.length = text.length
  lines : ∀ i : Nat, out[i]? = some '\n' ↔ text[i]? = some '\n'
  chars : ∀ (i : Nat) (c : Char), out[i]? = some c → c = ' ' ∨ text[i]? = some c
  /-- A change stands between two braces that are kept, of which one closes the other. -/
  changed : ∀ i : Nat, out[i]? ≠ text[i]? → ∃ l r, l < i ∧ i < r ∧ closingBrace? text l = some r ∧
    text[l]? = some '{' ∧ out[l]? = some '{' ∧ text[r]? = some '}' ∧ out[r]? = some '}'
  again : mask out = out

theorem getElem?_mask {text : List Char} {i : Nat} {d : Char} (h : (mask text)[i]? = some d) :
    ∃ c, text[i]? = some c ∧ (d = c ∨ d = blankOut c) := by
  obtain ⟨a, ha, hchar⟩ := getElem?_maskCells h
  refine ⟨a.char, ?_, hchar⟩
  rw [← cells_char text, List.getElem?_map, ha]
  rfl

theorem blankOut_eq_newline_iff {c : Char} : blankOut c = '\n' ↔ c = '\n' := by
  rw [blankOut]
  split
  · exact Iff.rfl
  · next hline => exact iff_of_false (by decide) (by simpa using hline)

theorem keepsLayout (text : List Char) : KeepsLayout text (mask text) where
  length := mask_length text
  lines i := by
    constructor
    · intro h
      obtain ⟨d, hd, hline | hline⟩ := getElem?_mask h
      · rw [hd, hline]
      · rw [hd, blankOut_eq_newline_iff.1 hline.symm]
    · intro h
      have hi : i < (mask text).length := by
        rw [mask_length]
        exact (List.getElem?_eq_some_iff.1 h).1
      obtain ⟨d, hd, hmasked⟩ := getElem?_mask (List.getElem?_eq_getElem hi)
      obtain rfl : d = '\n' := Option.some.inj (hd.symm.trans h)
      rw [List.getElem?_eq_getElem hi]
      exact congrArg some (hmasked.elim id id)
  chars i c h := by
    obtain ⟨d, hd, rfl | rfl⟩ := getElem?_mask h
    · exact .inr hd
    · rw [blankOut]
      split
      · exact .inr hd
      · exact .inl rfl
  changed i h := by
    have hcells : (mask text)[i]? ≠ ((cells text).map (·.char))[i]? := by rwa [cells_char]
    obtain ⟨as, body, bs, hcells, hdepth, hleft, hright, hopen, hclose⟩ := inBody_of_changed hcells
    refine ⟨as.length, as.length + 1 + body.length, hleft, hright,
      closingBrace?_of_cells hcells hdepth, ?_, hopen, ?_, hclose⟩
    · rw [← cells_char text, hcells]
      simp
    · rw [← cells_char text, hcells]
      simp [Nat.add_assoc, Nat.add_comm 1]
  again := maskFrom_maskFrom false none text

end NativeBinding.Body
