import NativeBinding.Proofs.Body.Masking

/-!
Complete texts. The quotes and comments of a complete text end in it and its braces match, so that
what follows is masked as if nothing had been open. The character before a text shows only in whether
it ends a word.
-/

namespace NativeBinding.Body

open Text

section

variable {prev prev' : Option Char}

theorem cellsFrom_congr (h : prev.any isWord = prev'.any isWord) (text : List Char) :
    cellsFrom 0 prev text = cellsFrom 0 prev' text := by
  cases text with
  | nil => simp [cellsFrom]
  | cons c text =>
    have hinert : inertLength prev (c :: text) = inertLength prev' (c :: text) := by
      rw [inertLength.eq_def, inertLength.eq_def, h]
    rw [cellsFrom, cellsFrom, hinert]

theorem maskCells_congr (h : prev.any isWord = prev'.any isWord) (b : Bool) (cs : List Cell) :
    maskCells (.scan b) prev cs = maskCells (.scan b) prev' cs := by
  cases cs with
  | nil => simp [maskCells]
  | cons c cs => rw [maskCells, maskCells, h]

theorem maskFrom_congr (h : prev.any isWord = prev'.any isWord) (b : Bool) (text : List Char) :
    maskFrom b prev text = maskFrom b prev' text := by
  rw [maskFrom, maskFrom, cellsFrom_congr h, maskCells_congr h]

end

theorem Cell.depth?_add {d e : Nat} {c : Cell} (h : c.depth? d = some e) (k : Nat) :
    c.depth? (d + k) = some (e + k) := by
  obtain ⟨char, inert⟩ := c
  cases inert with
  | true => simpa [Cell.depth?] using h
  | false =>
    by_cases hopen : char = '{'
    · simp only [Cell.depth?, hopen, Bool.false_eq_true, if_false, beq_self_eq_true, if_true,
        Option.some.injEq] at h ⊢
      omega
    · by_cases hclose : char = '}'
      · subst hclose
        cases d with
        | zero => cases h
        | succ d =>
          cases h
          rw [Nat.succ_add]
          rfl
      · simpa [Cell.depth?, hopen, hclose] using h

theorem depthAfter_add {d e : Nat} {cs : List Cell} (h : depthAfter d cs = some e) (k : Nat) :
    depthAfter (d + k) cs = some (e + k) := by
  induction cs generalizing d with
  | nil =>
    cases h
    rfl
  | cons c cs ih =>
    obtain ⟨f, hf, h⟩ := Option.bind_eq_some_iff.1 h
    rw [depthAfter, Cell.depth?_add hf]
    exact ih h

theorem exists_closing {d e k : Nat} {cs : List Cell} (h : depthAfter (k + (d + 1)) cs = some e)
    (he : e ≤ d) : ∃ n, closing k cs = some n := by
  induction cs generalizing k with
  | nil =>
    cases h
    omega
  | cons c cs ih =>
    obtain ⟨f, hf, h⟩ := Option.bind_eq_some_iff.1 h
    rw [closing_cons]
    cases hk : c.depth? k with
    | none => exact ⟨0, rfl⟩
    | some k' =>
      have hf' := Cell.depth?_add hk (d + 1)
      rw [hf] at hf'
      cases hf'
      obtain ⟨n, hn⟩ := ih h
      exact ⟨n + 1, by simp [hn]⟩

def flagAfter (b : Bool) (prev : Option Char) (c : Cell) (rest : List Cell) : Bool :=
  if c.inert then b
  else if !prev.any isWord && startsFn (c :: rest) then true
  else b && c.char != ';'

theorem maskCells_cons {b : Bool} {c : Cell} (hc : ¬ (b = true ∧ c = ⟨'{', false⟩))
    (prev : Option Char) (rest : List Cell) :
    maskCells (.scan b) prev (c :: rest) =
      c.char :: maskCells (.scan (flagAfter b prev c rest)) (some c.char) rest := by
  obtain ⟨char, inert⟩ := c
  rw [maskCells, flagAfter]
  cases inert with
  | true => rfl
  | false =>
    by_cases hstarts : (!prev.any isWord && startsFn (⟨char, false⟩ :: rest)) = true
    · simp only [hstarts, Bool.false_eq_true, if_false, if_true]
    · by_cases hsemi : char = ';'
      · subst hsemi
        cases b <;> simp [hstarts]
      · have hbrace : (b && char == '{') = false := by
          cases b <;> simp_all
        have hother : (char != ';') = true := by simpa using hsemi
        simp [hstarts, hsemi, hbrace, hother]

theorem startsFn_append {cs rest : List Cell}
    (hrest : (rest.head?.any fun c => isWord c.char) = false) :
    startsFn (cs ++ rest) = startsFn cs := by
  have not_word {c : Cell} {cs : List Cell} (hcs : rest = c :: cs) {w : Char} (hw : isWord w) :
      c.char ≠ w := by
    rintro rfl
    rw [hcs, List.head?_cons, Option.any_some, hw] at hrest
    cases hrest
  -- By how much of the word the cells before the seam hold.
  rcases cs with _ | ⟨c, _ | ⟨d, _ | ⟨e, cs⟩⟩⟩
  · rcases rest with _ | ⟨c, _ | ⟨d, rest⟩⟩
    · rfl
    · rfl
    · simp [startsFn, not_word rfl (show isWord 'f' by decide)]
  · cases rest with
    | nil => rfl
    | cons d rest => simp [startsFn, not_word rfl (show isWord 'n' by decide)]
  · simp [startsFn, hrest]
  · simp [startsFn]

/-- Beyond cells whose braces match, the mask looks for a signature or a body again. -/
theorem maskCells_append {d : Nat} {cs rest : List Cell} (hbalanced : depthAfter d cs = some 0)
    (hrest : (rest.head?.any fun c => isWord c.char) = false) (b : Bool) (prev : Option Char) :
    ∃ b', maskCells (.scan b) prev (cs ++ rest) = maskCells (.scan b) prev cs ++
      maskCells (.scan b') (lastOf prev (cs.map (·.char))) rest := by
  -- By the number of cells, since a body is passed as a whole.
  generalize hlen : cs.length = len
  induction len using Nat.strongRecOn generalizing cs d b prev with
  | ind len ih =>
    cases cs with
    | nil => exact ⟨b, by simp [maskCells]⟩
    | cons c cs =>
      obtain ⟨e, he, htail⟩ := Option.bind_eq_some_iff.1 hbalanced
      by_cases hbody : b = true ∧ c = ⟨'{', false⟩
      · obtain ⟨rfl, rfl⟩ := hbody
        obtain rfl : d + 1 = e := by simpa [Cell.depth?] using he
        have hcs : depthAfter (0 + (d + 1)) cs = some 0 := by rwa [Nat.zero_add]
        obtain ⟨n, hn⟩ := exists_closing hcs (Nat.zero_le d)
        obtain ⟨as, bs, rfl, rfl, has⟩ := exists_of_closing hn
        have hshift : depthAfter (d + 1) as = some (d + 1) := by
          simpa using depthAfter_add has (d + 1)
        have hbs : depthAfter d bs = some 0 := by
          rw [depthAfter_append hshift] at htail
          exact htail
        obtain ⟨b', hb'⟩ := ih bs.length (by rw [← hlen]; simp; omega) hbs false (some '}') rfl
        refine ⟨b', ?_⟩
        rw [List.cons_append, List.append_assoc, List.cons_append, maskCells_body has,
          maskCells_body has, hb']
        simp [lastOf_append]
      · obtain ⟨b', hb'⟩ := ih cs.length (by simp [← hlen]) htail (flagAfter b prev c cs)
          (some c.char) rfl
        have hflag : flagAfter b prev c (cs ++ rest) = flagAfter b prev c cs := by
          have hstarts : startsFn (c :: cs ++ rest) = startsFn (c :: cs) := startsFn_append hrest
          rw [List.cons_append] at hstarts
          rw [flagAfter, flagAfter, hstarts]
        refine ⟨b', ?_⟩
        rw [List.cons_append, maskCells_cons hbody, maskCells_cons hbody, hflag, hb']
        rfl

/-- Up to a semicolon, quotes and comments end in the text, and its braces match. -/
structure Complete (w : List Char) : Prop where
  ends : ∀ rest, cellsFrom 0 none (w ++ ';' :: rest) =
    cells w ++ ⟨';', false⟩ :: cellsFrom 0 (some ';') rest
  balanced : depthAfter 0 (cells w) = some 0

theorem complete_of_plain {w : List Char} (hw : ∀ c ∈ w, isPlain c) (hopen : '{' ∉ w)
    (hclose : '}' ∉ w) : Complete w := by
  have hcells : cells w = run false w := by
    have h := cellsFrom_plain hw none []
    rwa [List.append_nil, cellsFrom, List.append_nil] at h
  refine ⟨fun rest => ?_, ?_⟩
  · rw [hcells, cellsFrom_plain hw, cellsFrom_plain_cons (by decide)]
  · rw [hcells]
    exact depthAfter_live hopen hclose 0

theorem maskFrom_complete {w : List Char} (h : Complete w) (b : Bool) {prev : Option Char}
    (hprev : prev.any isWord = false) (rest : List Char) :
    maskFrom b prev (w ++ ';' :: rest) =
      maskFrom b none w ++ ';' :: maskFrom false (some ';') rest := by
  have hprev : prev.any isWord = (none : Option Char).any isWord := hprev
  have hsemi : ((⟨';', false⟩ :: cellsFrom 0 (some ';') rest).head?.any fun c => isWord c.char) =
      false := by
    simp only [List.head?_cons, Option.any_some]
    decide
  rw [maskFrom_congr hprev, maskFrom, h.ends]
  obtain ⟨b', hb'⟩ := maskCells_append h.balanced hsemi b none
  rw [hb', maskCells_semicolon]
  rfl

end NativeBinding.Body
