import NativeBinding.Body.Mask

/-!
The cells of a text, one run at a time. A run is a stretch of a text whose cells are all inert, or
all live. The lemmas here say which stretches are runs, and how braces are counted over them.
-/

namespace NativeBinding.Body

open Text

def lastOf : Option Char → List Char → Option Char
  | prev, [] => prev
  | _, c :: cs => lastOf (some c) cs

@[simp] theorem lastOf_nil (prev : Option Char) : lastOf prev [] = prev := rfl

@[simp] theorem lastOf_cons (prev : Option Char) (c : Char) (cs : List Char) :
    lastOf prev (c :: cs) = lastOf (some c) cs := rfl

theorem lastOf_append (prev : Option Char) (u v : List Char) :
    lastOf prev (u ++ v) = lastOf (lastOf prev u) v := by
  induction u generalizing prev with
  | nil => rfl
  | cons c u ih => exact ih _

theorem lastOf_eq_getLast? {w : List Char} (hw : w ≠ []) (prev : Option Char) :
    lastOf prev w = w.getLast? := by
  induction w generalizing prev with
  | nil => exact absurd rfl hw
  | cons c w ih =>
    cases w with
    | nil => rfl
    | cons d w => rw [lastOf_cons, ih (by simp), List.getLast?_cons_cons]

def run (inert : Bool) (w : List Char) : List Cell :=
  w.map (⟨·, inert⟩)

@[simp] theorem run_nil (inert : Bool) : run inert [] = [] := rfl

@[simp] theorem run_cons (inert : Bool) (c : Char) (w : List Char) :
    run inert (c :: w) = ⟨c, inert⟩ :: run inert w := rfl

@[simp] theorem run_append (inert : Bool) (u v : List Char) :
    run inert (u ++ v) = run inert u ++ run inert v :=
  List.map_append

@[simp] theorem length_run (inert : Bool) (w : List Char) : (run inert w).length = w.length :=
  List.length_map _

theorem inertLength_pos {prev : Option Char} {cs : List Char} {n : Nat}
    (h : inertLength prev cs = some n) : 0 < n := by
  rw [inertLength.eq_def] at h
  split at h
  · cases h
    omega
  · cases h
    omega
  · split at h
    · cases h
    · obtain ⟨m, -, rfl⟩ := Option.map_eq_some_iff.1 h
      omega
  · cases h
    omega
  · obtain ⟨m, -, rfl⟩ := Option.map_eq_some_iff.1 h
    omega
  · cases h

theorem cellsFrom_skip (n : Nat) (prev : Option Char) (cs : List Char) :
    cellsFrom n prev cs =
      run true (cs.take n) ++ cellsFrom 0 (lastOf prev (cs.take n)) (cs.drop n) := by
  induction n generalizing prev cs with
  | zero => simp
  | succ n ih =>
    cases cs with
    | nil => simp [cellsFrom]
    | cons c cs => simp [cellsFrom, ih]

theorem cellsFrom_inert {prev : Option Char} {cs : List Char} {n : Nat}
    (h : inertLength prev cs = some n) :
    cellsFrom 0 prev cs =
      run true (cs.take n) ++ cellsFrom 0 (lastOf prev (cs.take n)) (cs.drop n) := by
  obtain ⟨m, rfl⟩ := Nat.exists_eq_succ_of_ne_zero (Nat.ne_of_gt (inertLength_pos h))
  cases cs with
  | nil => simp [inertLength] at h
  | cons c cs =>
    rw [cellsFrom, h]
    dsimp only
    rw [cellsFrom_skip]
    simp

theorem cellsFrom_live {prev : Option Char} {c : Char} {cs : List Char}
    (h : inertLength prev (c :: cs) = none) :
    cellsFrom 0 prev (c :: cs) = ⟨c, false⟩ :: cellsFrom 0 (some c) cs := by
  rw [cellsFrom, h]

theorem inertLength_eq_none {prev : Option Char} {c : Char} {cs : List Char} (hslash : c ≠ '/')
    (hquote : c ≠ '"') (htick : c ≠ '\'') (hraw : c = 'r' → prev.any isWord ∨ rawLength cs = none) :
    inertLength prev (c :: cs) = none := by
  rw [inertLength.eq_def]
  split
  · simp_all
  · simp_all
  · next heq =>
    cases heq
    rcases hraw rfl with hprev | hnone
    · rw [if_pos hprev]
    · simp [hnone]
  · simp_all
  · simp_all
  · rfl

theorem forall_mem_of_all {p : Char → Prop} [DecidablePred p] {w : List Char}
    (h : w.all fun c => decide (p c)) : ∀ c ∈ w, p c := by
  simpa using h

def isPlain (c : Char) : Bool :=
  c != '/' && c != '"' && c != '\'' && c != 'r'

theorem cellsFrom_plain_cons {c : Char} (hc : isPlain c) (prev : Option Char) (cs : List Char) :
    cellsFrom 0 prev (c :: cs) = ⟨c, false⟩ :: cellsFrom 0 (some c) cs := by
  simp only [isPlain, Bool.and_eq_true, bne_iff_ne] at hc
  exact cellsFrom_live (inertLength_eq_none hc.1.1.1 hc.1.1.2 hc.1.2 fun h => absurd h hc.2)

theorem cellsFrom_plain {w : List Char} (hw : ∀ c ∈ w, isPlain c) (prev : Option Char)
    (cs : List Char) :
    cellsFrom 0 prev (w ++ cs) = run false w ++ cellsFrom 0 (lastOf prev w) cs := by
  induction w generalizing prev with
  | nil => rfl
  | cons c w ih =>
    rw [List.cons_append, cellsFrom_plain_cons (hw c List.mem_cons_self),
      ih fun d hd => hw d (List.mem_cons_of_mem _ hd)]
    rfl

theorem ne_of_holds {p : Char → Bool} {c d : Char} (hc : p c) (hd : p d = false) : c ≠ d := by
  rintro rfl
  rw [hc] at hd
  cases hd

/-- In a word, nothing after its first character starts an inert region. -/
theorem cellsFrom_word_rest {w : List Char} (hw : ∀ c ∈ w, isWord c) {prev : Option Char}
    (hprev : prev.any isWord) (cs : List Char) :
    cellsFrom 0 prev (w ++ cs) = run false w ++ cellsFrom 0 (lastOf prev w) cs := by
  induction w generalizing prev with
  | nil => rfl
  | cons c w ih =>
    have hc := hw c List.mem_cons_self
    rw [List.cons_append, cellsFrom_live (inertLength_eq_none (ne_of_holds hc (by decide))
      (ne_of_holds hc (by decide)) (ne_of_holds hc (by decide)) fun _ => Or.inl hprev),
      ih (fun d hd => hw d (List.mem_cons_of_mem _ hd)) (show (some c).any isWord from hc)]
    rfl

theorem rawLength_eq_none {cs : List Char} (h : ∀ c, cs.head? = some c → c ≠ '#' ∧ c ≠ '"') :
    rawLength cs = none := by
  cases cs with
  | nil => rfl
  | cons c cs =>
    obtain ⟨hhash, hquote⟩ := h c rfl
    have hnone : ((c :: cs).takeWhile (· == '#')) = [] := by
      simp [hhash]
    rw [rawLength, hnone]
    simp only [List.length_nil, List.drop_zero]
    split
    · next body heq =>
      cases heq
      exact absurd rfl hquote
    · rfl

/-- Whether some text after a word can make a raw string of its last letter. -/
def opensRaw (cs : List Char) : Bool :=
  cs.head?.any fun c => c == '#' || c == '"'

theorem cellsFrom_word {w : List Char} (hw : ∀ c ∈ w, isWord c) (prev : Option Char)
    {cs : List Char} (hraw : w = ['r'] → opensRaw cs = false) :
    cellsFrom 0 prev (w ++ cs) = run false w ++ cellsFrom 0 (lastOf prev w) cs := by
  cases w with
  | nil => rfl
  | cons c w =>
    have hc := hw c List.mem_cons_self
    have hrest : ∀ d ∈ w, isWord d := fun d hd => hw d (List.mem_cons_of_mem _ hd)
    have hnone : c = 'r' → rawLength (w ++ cs) = none := by
      rintro rfl
      apply rawLength_eq_none
      intro d hd
      cases w with
      | nil =>
        have := hraw rfl
        rw [List.nil_append] at hd
        rw [opensRaw, hd] at this
        simpa using this
      | cons e w =>
        cases hd
        have hd := hrest d List.mem_cons_self
        exact ⟨ne_of_holds hd (by decide), ne_of_holds hd (by decide)⟩
    rw [List.cons_append, cellsFrom_live (inertLength_eq_none (ne_of_holds hc (by decide))
      (ne_of_holds hc (by decide)) (ne_of_holds hc (by decide)) fun h => Or.inr (hnone h)),
      cellsFrom_word_rest hrest (show (some c).any isWord from hc)]
    rfl

def Cell.depth? (depth : Nat) (c : Cell) : Option Nat :=
  if c.inert then some depth
  else if c.char == '{' then some (depth + 1)
  else if c.char == '}' then
    match depth with
    | 0 => none
    | depth + 1 => some depth
  else some depth

def depthAfter : Nat → List Cell → Option Nat
  | depth, [] => some depth
  | depth, c :: cs => (c.depth? depth).bind (depthAfter · cs)

theorem closing_cons (d : Nat) (c : Cell) (cs : List Cell) :
    closing d (c :: cs) =
      match c.depth? d with
      | none => some 0
      | some d' => (closing d' cs).map (· + 1) := by
  obtain ⟨char, inert⟩ := c
  cases inert with
  | true => simp [closing, Cell.depth?]
  | false =>
    by_cases hopen : char = '{'
    · simp [closing, Cell.depth?, hopen]
    · by_cases hclose : char = '}'
      · cases d <;> simp [closing, Cell.depth?, hclose]
      · simp [closing, Cell.depth?, hopen, hclose]

theorem Cell.eq_of_depth?_eq_none {d : Nat} {c : Cell} (h : c.depth? d = none) :
    d = 0 ∧ c = ⟨'}', false⟩ := by
  obtain ⟨char, inert⟩ := c
  cases inert with
  | true => simp [Cell.depth?] at h
  | false =>
    by_cases hopen : char = '{'
    · simp [Cell.depth?, hopen] at h
    · by_cases hclose : char = '}'
      · cases d <;> simp_all [Cell.depth?]
      · simp [Cell.depth?, hopen, hclose] at h

theorem depthAfter_append {d d' : Nat} {as : List Cell} (h : depthAfter d as = some d')
    (bs : List Cell) : depthAfter d (as ++ bs) = depthAfter d' bs := by
  induction as generalizing d with
  | nil =>
    cases h
    rfl
  | cons a as ih =>
    obtain ⟨e, he, h⟩ := Option.bind_eq_some_iff.1 h
    rw [List.cons_append, depthAfter, he]
    exact ih h

theorem closing_append {d d' : Nat} {as : List Cell} (h : depthAfter d as = some d')
    (bs : List Cell) : closing d (as ++ bs) = (closing d' bs).map (· + as.length) := by
  induction as generalizing d with
  | nil =>
    cases h
    simp
  | cons a as ih =>
    obtain ⟨e, he, h⟩ := Option.bind_eq_some_iff.1 h
    rw [List.cons_append, closing_cons, he]
    dsimp only
    rw [ih h]
    cases closing d' bs <;> simp [Nat.add_assoc]

theorem closing_of_balanced {as : List Cell} (h : depthAfter 0 as = some 0) (bs : List Cell) :
    closing 0 (as ++ ⟨'}', false⟩ :: bs) = some as.length := by
  rw [closing_append h]
  simp [closing]

theorem exists_of_closing {d : Nat} {cs : List Cell} {n : Nat} (h : closing d cs = some n) :
    ∃ as bs, cs = as ++ ⟨'}', false⟩ :: bs ∧ as.length = n ∧ depthAfter d as = some 0 := by
  induction cs generalizing d n with
  | nil => cases h
  | cons c cs ih =>
    rw [closing_cons] at h
    cases he : c.depth? d with
    | none =>
      obtain ⟨rfl, rfl⟩ := Cell.eq_of_depth?_eq_none he
      rw [he] at h
      cases h
      exact ⟨[], cs, rfl, rfl, rfl⟩
    | some e =>
      rw [he] at h
      obtain ⟨m, hm, rfl⟩ := Option.map_eq_some_iff.1 h
      obtain ⟨as, bs, rfl, rfl, hdepth⟩ := ih hm
      refine ⟨c :: as, bs, rfl, rfl, ?_⟩
      rw [depthAfter, he]
      exact hdepth

theorem closing_append_eq_none {d : Nat} {as bs : List Cell} (h : closing d (as ++ bs) = none) :
    ∃ e, depthAfter d as = some e ∧ closing e bs = none := by
  induction as generalizing d with
  | nil => exact ⟨d, rfl, h⟩
  | cons a as ih =>
    rw [List.cons_append, closing_cons] at h
    cases he : a.depth? d with
    | none =>
      rw [he] at h
      cases h
    | some e =>
      rw [he] at h
      obtain ⟨e', hdepth, hclosing⟩ := ih (Option.map_eq_none_iff.1 h)
      refine ⟨e', ?_, hclosing⟩
      rw [depthAfter, he]
      exact hdepth

theorem depthAfter_inert (d : Nat) (w : List Char) : depthAfter d (run true w) = some d := by
  induction w with
  | nil => rfl
  | cons c w ih => simpa [depthAfter, Cell.depth?] using ih

theorem depthAfter_live {w : List Char} (hopen : '{' ∉ w) (hclose : '}' ∉ w) (d : Nat) :
    depthAfter d (run false w) = some d := by
  induction w with
  | nil => rfl
  | cons c w ih =>
    simp only [List.mem_cons, not_or] at hopen hclose
    simp [depthAfter, Cell.depth?, ih hopen.2 hclose.2, Ne.symm hopen.1, Ne.symm hclose.1]

end NativeBinding.Body
