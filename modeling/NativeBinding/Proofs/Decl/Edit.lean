import NativeBinding.Proofs.Decl.Respan
import NativeBinding.Proofs.Grammar.Moved

/-!
Edits. Where a stretch of a text is replaced, what stands before it stays where it is, and what
stands after it moves with the end of the stretch.
-/

namespace NativeBinding

open Grammar

def Position.shift (q r p : Position) : Position :=
  if p.line = q.line then ⟨r.line, r.column + (p.column - q.column)⟩
  else ⟨r.line + (p.line - q.line), p.column⟩

instance (p q : Position) : Decidable (p.Before q) :=
  inferInstanceAs (Decidable (_ ∨ _))

/-- Where a stretch starts, where it ends and where its replacement ends. -/
structure Edit where
  start : Position
  stop : Position
  stop' : Position

namespace Edit

variable (e : Edit)

def moveStart (p : Position) : Position :=
  if p.Before e.start then p else .shift e.stop e.stop' p

def moveStop (p : Position) : Position :=
  if e.start.Before p then .shift e.stop e.stop' p else p

def moveSpan (s : Span) : Span :=
  match s.line, s.column, s.endLine, s.endColumn with
  | some line, some column, some endLine, some endColumn =>
      .between s.file (e.moveStart ⟨line.toNat, column.toNat⟩)
        (e.moveStop ⟨endLine.toNat, endColumn.toNat⟩)
  | _, _, _, _ => s

def relabelling : Relabelling :=
  fun _ l => ⟨l.text, e.moveStart l.start, e.moveStop l.stop⟩

def replace (p : Position) (old new : List Char) : Edit :=
  ⟨p, Position.past p old, Position.past p new⟩

theorem moves (file : Option String) : e.relabelling.Moves file e.moveSpan where
  text _ _ := rfl
  value _ := rfl
  between _ _ := rfl
  unknown := rfl

end Edit

theorem Position.Before.not_before {p q : Position} (h : p.Before q) : ¬ q.Before p := by
  unfold Before at *
  omega

theorem Position.not_before_past (p : Position) (cs : List Char) :
    ¬ (Position.past p cs).Before p := by
  cases cs with
  | nil =>
    intro h
    exact h.ne rfl
  | cons c cs => exact (before_past p (List.cons_ne_nil c cs)).not_before

theorem Position.shift_self (q r : Position) : shift q r q = r := by
  simp [shift]

theorem Position.shift_after {q p : Position} (h : ¬ p.Before q) (r : Position) (c : Char) :
    shift q r (p.after c) = (shift q r p).after c := by
  unfold Before at h
  unfold shift after
  by_cases hc : c = '\n'
  · subst hc
    have hline : p.line + 1 ≠ q.line := by omega
    simp only [beq_self_eq_true, if_true, hline, if_false]
    split
    · next heq =>
      dsimp only
      congr 1
      omega
    · dsimp only
      congr 1
      omega
  · have hc : (c == '\n') = false := by simpa using hc
    simp only [hc, Bool.false_eq_true, if_false]
    split
    · dsimp only
      congr 1
      omega
    · rfl

theorem Position.shift_past {q p : Position} (h : ¬ p.Before q) (r : Position) (cs : List Char) :
    shift q r (Position.past p cs) = Position.past (shift q r p) cs := by
  induction cs generalizing p with
  | nil => rfl
  | cons c cs ih =>
    have hafter : ¬ (p.after c).Before q := by
      intro hback
      exact h ((p.before_after c).trans hback)
    rw [past_cons, past_cons, ih hafter, shift_after h]

theorem Edit.relabel_eq_self {e : Edit} {t : Token} (hstart : t.start.Before e.start)
    (hstop : ¬ e.start.Before t.stop) : t.relabel e.relabelling = t := by
  have hstart' : e.moveStart t.start = t.start := if_pos hstart
  have hstop' : e.moveStop t.stop = t.stop := if_neg hstop
  change Token.mk t.kind ⟨t.text, e.moveStart t.start, e.moveStop t.stop⟩ = _
  rw [hstart', hstop']
  rfl

theorem Edit.carries (p : Position) (old new : List Char) :
    (replace p old new).relabelling.Carries (Position.past p old) (Position.past p new) := by
  intro kind u w hw
  let q := Position.past p old
  have hq : ¬ (Position.past q u).Before q := Position.not_before_past q u
  have hstart : ¬ (Position.past q u).Before p := by
    rw [← past_append]
    exact Position.not_before_past p (old ++ u)
  have hstop : p.Before (Position.past (Position.past q u) w) := by
    rw [← past_append, ← past_append]
    exact before_past p (by simp [hw])
  have hmoved : Position.shift q (Position.past p new) (Position.past q u) =
      Position.past (Position.past p new) u := by
    rw [Position.shift_past (fun h => h.ne rfl), Position.shift_self]
  have hstart' : (replace p old new).moveStart (Position.past q u) =
      Position.past (Position.past p new) u := (if_neg hstart).trans hmoved
  have hstop' : (replace p old new).moveStop (Position.past (Position.past q u) w) =
      Position.past (Position.past (Position.past p new) u) w := by
    rw [← hmoved, ← Position.shift_past hq]
    exact if_pos hstop
  change Token.mk kind ⟨_, (replace p old new).moveStart (Position.past q u),
    (replace p old new).moveStop (Position.past (Position.past q u) w)⟩ = _
  rw [hstart', hstop']
  rfl

theorem Grammar.Reads.stops {s s' : State} {p p' : Position} {cs cs' : List Char} {ts : List Token}
    (h : Reads s p cs ts s' p' cs') :
    ¬ p'.Before p ∧ ∀ t ∈ ts, t.start.Before p' ∧ ¬ p'.Before t.stop := by
  induction h with
  | done =>
    refine ⟨fun hp => hp.ne rfl, ?_⟩
    intro t ht
    cases ht
  | @gap _ _ p p' cs _ _ n hscan _ ih =>
    have hp := before_past p (take_ne_nil (scan_gap_bound hscan))
    exact ⟨fun hback => ih.1 (hback.trans hp), ih.2⟩
  | @lexeme _ _ _ p p' cs _ _ kind n hscan _ _ ih =>
    have hp := before_past p (take_ne_nil (scan_lexeme_bound hscan))
    refine ⟨fun hback => ih.1 (hback.trans hp), ?_⟩
    intro t ht
    rcases List.mem_cons.1 ht with rfl | ht
    · refine ⟨?_, ih.1⟩
      have hle := ih.1
      change p.Before _
      unfold Position.Before at hp hle ⊢
      omega
    · exact ih.2 t ht

end NativeBinding
