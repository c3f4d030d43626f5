import NativeBinding.Proofs.Decl.Source
import NativeBinding.Proofs.Grammar.Completion
import NativeBinding.Proofs.Grammar.Course

/-!
Where a text is rejected. A text that the grammar does not take is read up to some place: what
stands before it is the beginning of a sentence, and the report names the place and what stands
there, or the last lexeme if the text ends.
-/

namespace NativeBinding

namespace Grammar

open Body (maskFrom)

variable {s : State} {last p : Position} {source cs : List Char}

/-- How reading stops before a text: it is at an end where a file may not end, at a lexeme that
does not go on from the state, or at what is no lexeme or gap there. -/
inductive Fails (s : State) (last p : Position) (source : List Char) : List Char → Failure → Prop
  | ending (hfinish : s.finish? = none) : Fails s last p source [] ⟨.ending, last⟩
  | token {cs : List Char} {kind : Terminal} {n : Nat}
      (hscan : scan s.expects cs = .lexeme kind n)
      (hfeed : s.feed (tokenAt kind p (cs.take n)) = none) :
      Fails s last p source cs ⟨.token (String.ofList (cs.take n)), p⟩
  | misfit {c : Char} {cs : List Char} (hscan : scan s.expects (c :: cs) = .unknown) :
      Fails s last p source (c :: cs) (misfit p source c cs)

theorem fails_of_nil {f : Failure} (h : readFrom 0 s last p source [] = .error f) :
    Fails s last p source [] f := by
  rw [readFrom] at h
  split at h
  · cases h
  · next hfinish =>
    cases h
    exact .ending hfinish

theorem fails_of_readFrom {f : Failure} (h : readFrom 0 s last p source cs = .error f) :
    ∃ ts s' w rest, cs = w ++ rest ∧ Reads s p cs ts s' (Position.past p w) rest ∧
      Fails s' (lastStart last ts) (Position.past p w) (source.drop w.length) rest f := by
  obtain ⟨ts, s', p', rest, hreads, hstuck⟩ := exists_stuck s p cs
  obtain ⟨w, rfl, rfl⟩ := hreads.exists_append
  rw [hreads.readFrom_eq, List.length_append, Nat.add_sub_cancel] at h
  refine ⟨ts, s', w, rest, rfl, hreads, ?_⟩
  cases hstuck with
  | ending => exact fails_of_nil h
  | token hscan hfeed =>
    rw [readFrom_lexeme hscan, hfeed] at h
    cases h
    exact .token hscan hfeed
  | misfit hscan =>
    rw [readFrom_misfit hscan] at h
    cases h
    exact .misfit hscan

theorem scan_ne_unknown (expected : List Terminal) (cs : List Char) :
    scan expected (' ' :: cs) ≠ .unknown := by
  intro h
  rw [scan_eq] at h
  split at h
  · cases h
  · cases h
  · cases h
  · next hnone =>
    have hspace := List.findSome?_eq_none_iff.1 hnone (.gap .space) (by decide)
    rw [fit, Gap.length, List.takeWhile_cons_of_pos (by decide), List.length_cons] at hspace
    cases hspace

theorem scanAnything_bound {n : Nat} (h : scanAnything cs = some n) : 0 < n ∧ n ≤ cs.length := by
  obtain ⟨t, -, ht⟩ := List.exists_of_findSome?_eq_some h
  exact Terminal.lexemeLength_bound ht

theorem ofList_take_ne_empty {n : Nat} (h : 0 < n ∧ n ≤ cs.length) :
    String.ofList (cs.take n) ≠ "" := by
  intro heq
  have hnil := congrArg String.toList heq
  rw [String.toList_ofList] at hnil
  exact take_ne_nil h hnil

/-- What stands in a text and its masked form at the place that a report names. -/
def Unexpected.Shows (text masked : List Char) (k : Nat) (ts : List Token) : Unexpected → Prop
  | .ending => lastStart .start ts = Position.past .start (text.take k)
  | .token w => w ≠ "" ∧ w.toList <+: masked.drop k
  | .character c => text[k]? = some c ∧ masked[k]? = some c

/-- A report on a text that is not read to its end: `k` characters stand before the place it names,
and `ts` are the lexemes read before it. -/
structure Unexpected.At (text : List Char) (file : Option String) (u : Unexpected) (span : Span)
    (k : Nat) (ts : List Token) : Prop where
  inside : k ≤ text.length
  place : span = .at file (Position.past .start (text.take k))
  shows : u.Shows text (Body.mask text) k ts
  reads : ∃ s p rest, Reads .start .start (Body.mask text) ts s p rest ∧
    if u = .ending then rest = [] else rest = (Body.mask text).drop k
  sentence : ∃ d : Derivation, d.symbol = .nonterminal .start ∧ d.Valid ∧ ts <+: d.tokens

end Grammar

namespace SourceFile

theorem exists_failure_of_rejected {text : String} {file : Option String} {u : Grammar.Unexpected}
    {span : Span} (h : parse text file = .error (.rejected (.unexpected u) span)) :
    ∃ f, Grammar.read text.toList = .error f ∧ u = f.cause ∧ span = .at file f.position := by
  rw [parse] at h
  split at h
  · next f hread =>
    cases h
    exact ⟨f, hread, rfl, rfl⟩
  · next items _ =>
    cases hitems : ofTrees file items with
    | ok f => rw [hitems] at h; cases h
    | error b => rw [hitems] at h; cases b <;> cases h

/-- The place of a report is one of the text, what it shows stands there, and the lexemes before it
are the beginning of a sentence. -/
theorem place_of_rejected {text : String} {file : Option String} {u : Grammar.Unexpected}
    {span : Span} (h : parse text file = .error (.rejected (.unexpected u) span)) :
    ∃ k ts, u.At text.toList file span k ts := by
  obtain ⟨f, hread, rfl, rfl⟩ := exists_failure_of_rejected h
  obtain ⟨ts, s, w, rest, hmask, hreads, hfails⟩ := Grammar.fails_of_readFrom hread
  have hlength : (Body.mask text.toList).length = text.toList.length := Body.mask_length _
  have hw : w.length ≤ text.toList.length := by
    rw [← hlength, hmask, List.length_append]
    exact Nat.le_add_right ..
  have hdrop : rest = (Body.mask text.toList).drop w.length := by
    rw [hmask, List.drop_left]
  -- Masking moves nothing, so a place in the masked text is the same place in the text.
  have hpast (k : Nat) : Grammar.Position.past .start ((Body.mask text.toList).take k) =
      Grammar.Position.past .start (text.toList.take k) := by
    rw [Body.mask_eq_maskFrom, Grammar.past_take_maskFrom]
  have hplace : Grammar.Position.past .start w =
      Grammar.Position.past .start (text.toList.take w.length) := by
    rw [← hpast, hmask, List.take_left]
  have hsentence := hreads.exists_derivation
  cases hfails with
  | ending hfinish =>
    have hlast : ∃ k ≤ text.toList.length, Grammar.lastStart .start ts =
        Grammar.Position.past .start (text.toList.take k) := by
      rw [Grammar.lastStart]
      cases ht : ts.getLast? with
      | none => exact ⟨0, Nat.zero_le _, rfl⟩
      | some t =>
        obtain ⟨k, hk, hstart⟩ := hreads.exists_start (List.mem_of_getLast? ht)
        exact ⟨k, hlength ▸ Nat.le_of_lt hk, hstart.trans (hpast k)⟩
    obtain ⟨k, hk, hlast⟩ := hlast
    exact ⟨k, ts, hk, congrArg (Span.at file) hlast, hlast, ⟨s, _, [], hreads, by rw [if_pos rfl]⟩,
      hsentence⟩
  | @token _ kind n hscan _ =>
    refine ⟨w.length, ts, hw, congrArg (Span.at file) hplace, ⟨?_, ?_⟩, ⟨s, _, rest, hreads, ?_⟩,
      hsentence⟩
    · exact Grammar.ofList_take_ne_empty (Grammar.scan_lexeme_bound hscan)
    · rw [String.toList_ofList, ← hdrop]
      exact List.take_prefix ..
    · rwa [if_neg (by simp)]
  | @misfit c cs hscan =>
    rw [Grammar.misfit]
    cases hany : Grammar.scanAnything (c :: cs) with
    | some n =>
      refine ⟨w.length, ts, hw, congrArg (Span.at file) hplace, ⟨?_, ?_⟩,
        ⟨s, _, c :: cs, hreads, ?_⟩, hsentence⟩
      · exact Grammar.ofList_take_ne_empty (Grammar.scanAnything_bound hany)
      · rw [String.toList_ofList, ← hdrop]
        exact List.take_prefix ..
      · rwa [if_neg (by simp)]
    | none =>
      -- No blank is there, and any other character stands in the text before masking as well.
      have hmasked : (Body.mask text.toList)[w.length]? = some c := by
        rw [hmask, List.getElem?_append_right (Nat.le_refl _), Nat.sub_self]
        rfl
      have hspace : c ≠ ' ' := by
        rintro rfl
        exact Grammar.scan_ne_unknown _ _ hscan
      have hsource : text.toList[w.length]? = some c :=
        Body.getElem?_of_maskFrom hmasked hspace
      have hhead : (text.toList.drop w.length).head? = some c := by
        rw [List.head?_drop, hsource]
      refine ⟨w.length, ts, hw, congrArg (Span.at file) hplace, ?_, ⟨s, _, c :: cs, hreads, ?_⟩,
        hsentence⟩
      · rw [hhead]
        exact ⟨hsource, hmasked⟩
      · rwa [if_neg (by simp)]

theorem place_of_rejected_parameter :
    let text := "fn g() { @ }\nfn f(;"
    parse text = .error (.rejected (.unexpected (.token ";")) (.at none ⟨2, 6⟩)) ∧
      ∃ k ts, (Grammar.Unexpected.token ";").At text.toList none (.at none ⟨2, 6⟩) k ts := by
  intro text
  have herror : error? (parse text) =
      some (.rejected (.unexpected (.token ";")) (.at none ⟨2, 6⟩)) := by
    decide +kernel
  have hparse := error?_eq_some_iff.1 herror
  exact ⟨hparse, place_of_rejected hparse⟩

end SourceFile

end NativeBinding
