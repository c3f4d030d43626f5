import NativeBinding.Proofs.Body.Cells

/-!
What the mask does with each run. Until the signature of a function is under way nothing changes;
after that the first live brace decides: either what it encloses becomes blank, or it is never
closed and the rest of the text stays.
-/

namespace NativeBinding.Body

open Text

/-- The mask of a text that starts outside of bodies and inert regions. -/
def maskFrom (inSignature : Bool) (prev : Option Char) (text : List Char) : List Char :=
  maskCells (.scan inSignature) prev (cellsFrom 0 prev text)

theorem mask_eq_maskFrom (text : List Char) : mask text = maskFrom false none text := rfl

@[simp] theorem maskFrom_nil (b : Bool) (prev : Option Char) : maskFrom b prev [] = [] := by
  simp [maskFrom, cellsFrom, maskCells]

theorem length_cellsFrom (n : Nat) (prev : Option Char) (text : List Char) :
    (cellsFrom n prev text).length = text.length := by
  have h := congrArg List.length (cellsFrom_char n prev text)
  rwa [List.length_map] at h

theorem length_maskFrom (b : Bool) (prev : Option Char) (text : List Char) :
    (maskFrom b prev text).length = text.length := by
  rw [maskFrom, maskCells_length, length_cellsFrom]

theorem maskCells_inert (b : Bool) (prev : Option Char) (w : List Char) (cs : List Cell) :
    maskCells (.scan b) prev (run true w ++ cs) = w ++ maskCells (.scan b) (lastOf prev w) cs := by
  induction w generalizing prev with
  | nil => rfl
  | cons c w ih => simp [maskCells, ih]

theorem maskCells_copy (prev : Option Char) (cs : List Cell) :
    maskCells .copy prev cs = cs.map (·.char) := by
  induction cs generalizing prev with
  | nil => simp [maskCells]
  | cons c cs ih => simp [maskCells, ih]

def isQuiet (c : Char) : Bool :=
  c != ';' && c != '{' && c != 'f'

theorem maskCells_quiet_cons (b : Bool) (prev : Option Char) {c : Char} (hc : isQuiet c)
    (cs : List Cell) :
    maskCells (.scan b) prev (⟨c, false⟩ :: cs) = c :: maskCells (.scan b) (some c) cs := by
  simp only [isQuiet, Bool.and_eq_true, bne_iff_ne] at hc
  have hstarts : startsFn (⟨c, false⟩ :: cs) = false := by
    cases cs with
    | nil => rfl
    | cons d cs => simp [startsFn, hc.2]
  simp [maskCells, hstarts, hc.1.1, hc.1.2]

theorem maskCells_quiet {w : List Char} (hw : ∀ c ∈ w, isQuiet c) (b : Bool) (prev : Option Char)
    (cs : List Cell) :
    maskCells (.scan b) prev (run false w ++ cs) = w ++ maskCells (.scan b) (lastOf prev w) cs := by
  induction w generalizing prev with
  | nil => rfl
  | cons c w ih =>
    rw [run_cons, List.cons_append, maskCells_quiet_cons b prev (hw c List.mem_cons_self),
      ih fun d hd => hw d (List.mem_cons_of_mem _ hd)]
    rfl

theorem maskCells_semicolon (b : Bool) (prev : Option Char) (cs : List Cell) :
    maskCells (.scan b) prev (⟨';', false⟩ :: cs) =
      ';' :: maskCells (.scan false) (some ';') cs := by
  have hstarts : startsFn (⟨';', false⟩ :: cs) = false := by
    cases cs <;> simp [startsFn]
  cases b <;> simp [maskCells, hstarts]

theorem maskCells_word_rest {w : List Char} (hw : ∀ c ∈ w, isWord c) (b : Bool)
    {prev : Option Char} (hprev : prev.any isWord) (cs : List Cell) :
    maskCells (.scan b) prev (run false w ++ cs) = w ++ maskCells (.scan b) (lastOf prev w) cs := by
  induction w generalizing prev with
  | nil => rfl
  | cons c w ih =>
    have hc := hw c List.mem_cons_self
    have hsemi : c ≠ ';' := ne_of_holds hc (by decide)
    have hbrace : c ≠ '{' := ne_of_holds hc (by decide)
    have ih := ih (fun d hd => hw d (List.mem_cons_of_mem _ hd)) (show (some c).any isWord from hc)
    simp [maskCells, hprev, hsemi, hbrace, ih]

/-- Whether a text between two others opens a signature. It must not be joined to a word before it
nor continued by one after it. -/
def opensSignature (joined : Bool) (text : List Char) (continued : Bool) : Bool :=
  !joined && text == ['f', 'n'] && !continued

theorem maskCells_word {w : List Char} (hw : ∀ c ∈ w, isWord c) (b : Bool) (prev : Option Char)
    {cs : List Cell} (hcut : w = ['f'] → (cs.head?.map (·.char)) ≠ some 'n') :
    maskCells (.scan b) prev (run false w ++ cs) =
      w ++ maskCells (.scan (b || opensSignature (prev.any isWord) w
        (cs.head?.any fun c => isWord c.char))) (lastOf prev w) cs := by
  cases w with
  | nil => simp [opensSignature]
  | cons c w =>
    have hc := hw c List.mem_cons_self
    have hrest : ∀ d ∈ w, isWord d := fun d hd => hw d (List.mem_cons_of_mem _ hd)
    have hsemi : c ≠ ';' := ne_of_holds hc (by decide)
    have hbrace : c ≠ '{' := ne_of_holds hc (by decide)
    have hstarts : (!prev.any isWord && startsFn (⟨c, false⟩ :: (run false w ++ cs))) =
        opensSignature (prev.any isWord) (c :: w) (cs.head?.any fun c => isWord c.char) := by
      rw [opensSignature, Bool.and_assoc]
      congr 1
      cases w with
      | nil =>
        cases cs with
        | nil => simp [startsFn]
        | cons d cs =>
          by_cases hf : c = 'f'
          · subst hf
            have hd : d.char ≠ 'n' := by simpa using hcut rfl
            simp [startsFn, hd]
          · simp [startsFn, hf]
      | cons d w =>
        cases w with
        | nil => cases cs <;> simp [startsFn, Bool.and_assoc]
        | cons e w =>
          have he : isWord e := hrest e (by simp)
          simp [startsFn, he]
    have hpass := maskCells_word_rest hrest (b || opensSignature (prev.any isWord) (c :: w)
      (cs.head?.any fun c => isWord c.char)) (show (some c).any isWord from hc) cs
    rw [run_cons, List.cons_append, maskCells.eq_def]
    simp only [hstarts]
    rw [List.cons_append, lastOf_cons, ← hpass]
    cases opensSignature (prev.any isWord) (c :: w) (cs.head?.any fun c => isWord c.char) <;>
      simp [hsemi, hbrace]

theorem maskCells_blank (prev : Option Char) (as bs : List Cell) :
    maskCells (.blank as.length) prev (as ++ bs) =
      (as.map (·.char)).map blankOut ++
        maskCells (.blank 0) (lastOf prev (as.map (·.char))) bs := by
  induction as generalizing prev with
  | nil => rfl
  | cons a as ih => simp [maskCells, ih]

theorem cellsFrom_split {n : Nat} {prev : Option Char} {text : List Char} {as bs : List Cell}
    {c : Char} (h : cellsFrom n prev text = as ++ ⟨c, false⟩ :: bs) :
    ∃ rest, text = as.map (·.char) ++ c :: rest ∧ bs = cellsFrom 0 (some c) rest := by
  induction as generalizing n prev text with
  | nil =>
    cases text with
    | nil => simp [cellsFrom] at h
    | cons d text =>
      cases n with
      | succ n => simp [cellsFrom] at h
      | zero =>
        rw [cellsFrom] at h
        split at h
        · simp at h
        · cases h
          exact ⟨text, rfl, rfl⟩
  | cons a as ih =>
    cases text with
    | nil => simp [cellsFrom] at h
    | cons d text =>
      have further {m : Nat} {inert : Bool}
          (h : ⟨d, inert⟩ :: cellsFrom m (some d) text = a :: as ++ ⟨c, false⟩ :: bs) :
          ∃ rest, d :: text = (a :: as).map (·.char) ++ c :: rest ∧
            bs = cellsFrom 0 (some c) rest := by
        cases List.cons.inj h with
        | intro ha has =>
          obtain ⟨rest, rfl, hbs⟩ := ih has
          exact ⟨rest, by simp [← ha], hbs⟩
      cases n with
      | succ n =>
        rw [cellsFrom] at h
        exact further h
      | zero =>
        rw [cellsFrom] at h
        split at h
        · exact further h
        · exact further h

theorem maskCells_brace_outside (prev : Option Char) (cs : List Cell) :
    maskCells (.scan false) prev (⟨'{', false⟩ :: cs) =
      '{' :: maskCells (.scan false) (some '{') cs := by
  have hstarts : startsFn (⟨'{', false⟩ :: cs) = false := by
    cases cs <;> simp [startsFn]
  simp [maskCells, hstarts]

theorem maskCells_brace (prev : Option Char) (cs : List Cell) :
    maskCells (.scan true) prev (⟨'{', false⟩ :: cs) =
      '{' :: match closing 0 cs with
        | some n => maskCells (.blank n) (some '{') cs
        | none => cs.map (·.char) := by
  have hstarts : startsFn (⟨'{', false⟩ :: cs) = false := by
    cases cs <;> simp [startsFn]
  simp only [maskCells, hstarts]
  cases closing 0 cs <;> simp [maskCells_copy]

theorem maskCells_body {as : List Cell} (h : depthAfter 0 as = some 0) (prev : Option Char)
    (rest : List Cell) :
    maskCells (.scan true) prev (⟨'{', false⟩ :: (as ++ ⟨'}', false⟩ :: rest)) =
      '{' :: ((as.map (·.char)).map blankOut ++
        '}' :: maskCells (.scan false) (some '}') rest) := by
  rw [maskCells_brace, closing_of_balanced h]
  dsimp only
  rw [maskCells_blank]
  simp [maskCells]

theorem cellsFrom_brace (prev : Option Char) (text : List Char) :
    cellsFrom 0 prev ('{' :: text) = ⟨'{', false⟩ :: cellsFrom 0 (some '{') text :=
  cellsFrom_plain_cons (by decide) prev text

theorem cellsFrom_rbrace (prev : Option Char) (text : List Char) :
    cellsFrom 0 prev ('}' :: text) = ⟨'}', false⟩ :: cellsFrom 0 (some '}') text :=
  cellsFrom_plain_cons (by decide) prev text

theorem maskFrom_body {body rest : List Char} {as : List Cell}
    (hcells : cellsFrom 0 (some '{') (body ++ '}' :: rest) =
      as ++ ⟨'}', false⟩ :: cellsFrom 0 (some '}') rest)
    (hlen : as.length = body.length) (h : depthAfter 0 as = some 0) (prev : Option Char) :
    maskFrom true prev ('{' :: (body ++ '}' :: rest)) =
      '{' :: (body.map blankOut ++ '}' :: maskFrom false (some '}') rest) := by
  have hchars : as.map (·.char) = body := by
    have h := congrArg (List.map (·.char)) hcells
    rw [cellsFrom_char, List.map_append] at h
    exact (List.append_inj_left h (by simp [hlen])).symm
  rw [maskFrom, cellsFrom_brace, hcells, maskCells_body h, hchars]
  rfl

theorem getElem?_maskCells {mode : Mode} {prev : Option Char} {cs : List Cell} {i : Nat} {d : Char}
    (h : (maskCells mode prev cs)[i]? = some d) :
    ∃ a, cs[i]? = some a ∧ (d = a.char ∨ d = blankOut a.char) := by
  induction cs generalizing mode prev i with
  | nil =>
    rw [maskCells] at h
    cases h
  | cons a cs ih =>
    rcases mode with b | (_ | left) | _
    all_goals
      rw [maskCells] at h
      cases i with
      | zero =>
        simp only [List.getElem?_cons_zero, Option.some.injEq] at h
        exact ⟨a, rfl, by simp [h]⟩
      | succ i => exact ih (by simpa using h)

theorem getElem?_of_maskFrom {b : Bool} {prev : Option Char} {text : List Char} {i : Nat} {d : Char}
    (h : (maskFrom b prev text)[i]? = some d) (hd : d ≠ ' ') : text[i]? = some d := by
  obtain ⟨a, ha, hchar⟩ := getElem?_maskCells h
  have htext : text[i]? = some a.char := by
    rw [← cellsFrom_char 0 prev text, List.getElem?_map, ha]
    rfl
  rw [htext]
  rcases hchar with rfl | hblank
  · rfl
  · rw [blankOut] at hblank
    split at hblank
    · rw [hblank]
    · exact absurd hblank hd

theorem not_mem_maskCells {c : Char} (hc : c ≠ ' ') {cs : List Cell} (h : c ∉ cs.map (·.char))
    (mode : Mode) (prev : Option Char) : c ∉ maskCells mode prev cs := by
  induction cs generalizing mode prev with
  | nil =>
    rw [maskCells]
    exact List.not_mem_nil
  | cons d cs ih =>
    simp only [List.map_cons, List.mem_cons, not_or] at h
    have hblank : c ≠ blankOut d.char := by
      rw [blankOut]
      split
      · exact h.1
      · exact hc
    rcases mode with b | (_ | left) | _
    all_goals
      rw [maskCells, List.mem_cons, not_or]
      first
        | exact ⟨h.1, ih h.2 _ _⟩
        | exact ⟨hblank, ih h.2 _ _⟩

theorem not_mem_maskFrom {c : Char} (hc : c ≠ ' ') {text : List Char} (h : c ∉ text) (b : Bool)
    (prev : Option Char) : c ∉ maskFrom b prev text :=
  not_mem_maskCells hc (by rwa [cellsFrom_char]) _ prev

theorem maskCells_of_no_brace {cs : List Cell} (h : '{' ∉ cs.map (·.char)) (b : Bool)
    (prev : Option Char) : maskCells (.scan b) prev cs = cs.map (·.char) := by
  induction cs generalizing b prev with
  | nil => simp [maskCells]
  | cons c cs ih =>
    simp only [List.map_cons, List.mem_cons, not_or] at h
    have hbrace : (c.char == '{') = false := by simpa using Ne.symm h.1
    simp only [maskCells, hbrace, Bool.and_false, List.map_cons, List.cons.injEq, true_and]
    repeat' split
    all_goals first
      | exact ih h.2 _ _
      | contradiction

theorem mask_of_no_brace {text : List Char} (h : '{' ∉ text) : mask text = text := by
  have hchars : (cells text).map (·.char) = text := cells_char text
  rw [mask, maskCells_of_no_brace (by rwa [hchars]), hchars]

inductive Agree : List Char → List Char → Prop
  | refl (text : List Char) : Agree text text
  | brace (u v : List Char) : Agree ('{' :: u) ('{' :: v)
  | cons (c : Char) {u v : List Char} (rest : Agree u v) : Agree (c :: u) (c :: v)

namespace Agree

variable {u v : List Char}

theorem head?_eq (h : Agree u v) : u.head? = v.head? := by
  cases h <;> rfl

theorem takeWhile_eq (h : Agree u v) {p : Char → Bool} (hp : p '{' = false) :
    u.takeWhile p = v.takeWhile p := by
  induction h with
  | refl => rfl
  | brace => simp [hp]
  | cons c _ ih => simp only [List.takeWhile_cons, ih]

theorem drop (h : Agree u v) {n : Nat} (hn : '{' ∉ u.take n) : Agree (u.drop n) (v.drop n) := by
  induction h generalizing n with
  | refl => exact .refl _
  | brace =>
    cases n with
    | zero => exact .brace _ _
    | succ n => simp at hn
  | cons c rest ih =>
    cases n with
    | zero => exact .cons c rest
    | succ n =>
      simp only [List.take_succ_cons, List.mem_cons, not_or] at hn
      exact ih hn.2

theorem isPrefixOf_eq (h : Agree u v) {w : List Char} (hw : '{' ∉ w) :
    w.isPrefixOf u = w.isPrefixOf v := by
  induction h generalizing w with
  | refl => rfl
  | brace =>
    cases w with
    | nil => rfl
    | cons c w =>
      simp only [List.mem_cons, not_or] at hw
      have hc : (c == '{') = false := by simpa using Ne.symm hw.1
      simp [List.isPrefixOf, hc]
  | cons c _ ih =>
    cases w with
    | nil => rfl
    | cons d w =>
      simp only [List.mem_cons, not_or] at hw
      simp [List.isPrefixOf, ih hw.2]

theorem take_eq (h : Agree u v) {n : Nat} (hn : '{' ∉ u.take n) : u.take n = v.take n := by
  induction h generalizing n with
  | refl => rfl
  | brace =>
    cases n with
    | zero => rfl
    | succ n => simp at hn
  | cons c _ ih =>
    cases n with
    | zero => rfl
    | succ n =>
      simp only [List.take_succ_cons, List.mem_cons, not_or] at hn
      simp [ih hn.2]

theorem nil_right (h : Agree [] v) : v = [] := by
  cases h
  rfl

end Agree

/-- The same text to a reader at its head: an inert region there is the same as a whole. -/
structure Alike (prev : Option Char) (u v : List Char) : Prop where
  agree : Agree u v
  region : ∀ n, inertLength prev u = some n → u.take n = v.take n ∧ Agree (u.drop n) (v.drop n)

theorem agree_maskCells (b : Bool) (prev : Option Char) (cs : List Cell) :
    Agree (cs.map (·.char)) (maskCells (.scan b) prev cs) := by
  induction cs generalizing b prev with
  | nil =>
    rw [maskCells]
    exact .refl _
  | cons c cs ih =>
    obtain ⟨char, inert⟩ := c
    by_cases hbrace : inert = false ∧ char = '{'
    · obtain ⟨rfl, rfl⟩ := hbrace
      rw [maskCells]
      exact .brace _ _
    · rw [maskCells]
      refine .cons _ ?_
      repeat' split
      all_goals first
        | exact ih _ _
        | simp_all

theorem agree_maskFrom (b : Bool) (prev : Option Char) (text : List Char) :
    Agree text (maskFrom b prev text) := by
  have h := agree_maskCells b prev (cellsFrom 0 prev text)
  rwa [cellsFrom_char] at h

theorem maskFrom_inert {prev : Option Char} {text : List Char} {n : Nat}
    (h : inertLength prev text = some n) (b : Bool) :
    maskFrom b prev text =
      text.take n ++ maskFrom b (lastOf prev (text.take n)) (text.drop n) := by
  rw [maskFrom, cellsFrom_inert h, maskCells_inert]
  rfl

theorem alike_maskFrom (b : Bool) (prev : Option Char) (text : List Char) :
    Alike prev text (maskFrom b prev text) := by
  refine ⟨agree_maskFrom b prev text, fun n hn => ?_⟩
  rw [maskFrom_inert hn]
  rcases Nat.le_total n text.length with hle | hle
  · have hlen : (text.take n).length = n := List.length_take_of_le hle
    rw [List.take_append_of_le_length (Nat.le_of_eq hlen.symm), List.drop_append_of_le_length
      (Nat.le_of_eq hlen.symm), List.take_take, Nat.min_self,
      List.drop_eq_nil_of_le (Nat.le_of_eq hlen)]
    exact ⟨rfl, agree_maskFrom b _ _⟩
  · simp [List.drop_eq_nil_of_le hle, List.take_of_length_le hle, Agree.refl]

end NativeBinding.Body
