import NativeBinding.Proofs.Decl.RoundTrip

/-!
Integers in attributes. The grammar takes an integer of any length, so a text is read to its end
whatever the length of an integer in it; but an integer with too many digits has no value, and then
nothing of the text is declared.
-/

namespace NativeBinding

open Grammar

def numberText (number : String) : String :=
  "#[x = " ++ number ++ "] fn f();"

def OneNumber (number : String) (s : State) : Prop :=
  ∃ hash opens route eq l closes fn,
    s = .item (.file [⟨[.written hash none opens (.value route eq (.number l)) closes],
      .member (.fn fn)⟩]) [] ∧ l.text = number

theorem reaches_numberText {number : String} (h : IsNumber number.toList) :
    Reaches .start (numberText number).toList (OneNumber number) [] := by
  rw [numberText, String.toList_append, String.toList_append, List.append_assoc]
  change Reaches _ (['#'] ++ '[' :: (['x'] ++ ' ' :: (['='] ++ ' ' ::
    (number.toList ++ ']' :: ' ' :: (['f', 'n'] ++ ' ' :: (['f'] ++ ['(', ')', ';'])))))) _ _
  refine .lexeme (k := .hash) rfl fun _ _ => ⟨_, rfl, ?_⟩
  refine .mark .lbracket (by simp [State.expects]) fun _ => ⟨_, rfl, ?_⟩
  refine .lexeme (k := .ident) rfl fun _ _ => ⟨_, rfl, ?_⟩
  refine .space ⟨'=', _, rfl, by decide⟩ ?_
  refine .lexeme (k := .equals) rfl fun _ _ => ⟨_, rfl, ?_⟩
  refine .space (h.opens.append _) ?_
  refine .number (by simp [State.expects, literalStart]) h (stops_mark (by decide) _)
    fun _ hl => ⟨_, rfl, ?_⟩
  refine .mark .rbracket (by simp [State.expects]) fun _ => ⟨_, rfl, ?_⟩
  refine .space ⟨'f', _, rfl, by decide⟩ ?_
  refine .lexeme (k := .fnWord) rfl fun _ _ => ⟨_, rfl, ?_⟩
  refine .space ⟨'f', _, rfl, by decide⟩ ?_
  refine .lexeme (k := .ident) rfl fun _ _ => ⟨_, rfl, ?_⟩
  refine .mark .lparen (by simp [State.expects]) fun _ => ⟨_, rfl, ?_⟩
  refine .mark .rparen (by simp [State.expects]) fun _ => ⟨_, rfl, ?_⟩
  refine .mark .semicolon (by simp [ParamPlace.finish, State.expects]) fun _ => ⟨_, rfl, .done ?_⟩
  exact ⟨_, _, _, _, _, _, _, rfl, String.toList_inj.1 hl⟩

theorem intOfDigits_of_long {w : List Char} (h : IsDigits w)
    (hlong : Number.maxDigits < w.length) : Number.intOfDigits w = .error ⟨w.length⟩ := by
  rw [Number.intOfDigits.eq_def]
  split
  · exact absurd (h.2 '-' List.mem_cons_self) (by decide +kernel)
  · rw [Number.natOfDigits, if_neg (Nat.not_le.2 hlong)]
    rfl

theorem literal_of_long {file : Option String} {l : Lexeme .number} (h : IsDigits l.text.toList)
    (hlong : Number.maxDigits < l.text.toList.length) :
    Literal.ofTree file (.number l) = .error (.oversized ⟨l.text.toList.length⟩) := by
  have hpoint : '.' ∉ l.text.toList :=
    fun hmem => absurd (h.2 '.' hmem) (by decide +kernel)
  simp only [Literal.ofTree, List.contains_iff_mem, hpoint, if_false, intOfDigits_of_long h hlong]

theorem SourceFile.parse_of_long {digits : String} (h : IsDigits digits.toList)
    (hlong : Number.maxDigits < digits.toList.length) (file : Option String) :
    parse (numberText digits) file = .error (.oversized ⟨digits.toList.length⟩) := by
  have hnumber : IsNumber digits.toList := Or.inl (Or.inl h)
  obtain ⟨ts, s, p, hreads, hash, opens, route, eq, l, closes, fn, rfl, rfl⟩ :=
    reaches_numberText hnumber .start
  have hbrace : Braceless (numberText l.text) :=
    .append (.append (by decide) hnumber.no_brace) (by decide)
  have hread : Grammar.read (numberText l.text).toList = .ok
      [⟨[.written hash none opens (.value route eq (.number l)) closes], .member (.fn fn)⟩] := by
    rw [Grammar.read, Body.mask_of_no_brace hbrace]
    exact readMasked_eq_ok_iff.2 ⟨ts, _, p, hreads, rfl⟩
  rw [parse, hread]
  simp only [ofTrees, SourceItem.ofTree, Decl.ofTree, Attribute.ofTree, Attribute.ofMeta,
    List.mapM_cons, literal_of_long h hlong]
  rfl

def ones (n : Nat) : String :=
  String.ofList (List.replicate n '1')

theorem toList_ones (n : Nat) : (ones n).toList = List.replicate n '1' :=
  String.toList_ofList

theorem isDigits_ones {n : Nat} (hn : 0 < n) : IsDigits (ones n).toList := by
  rw [toList_ones]
  refine ⟨fun hnil => ?_, fun c hc => ?_⟩
  · rw [List.replicate_eq_nil_iff] at hnil
    omega
  · rw [List.eq_of_mem_replicate hc]
    decide +kernel

theorem SourceFile.parse_ones (file : Option String) :
    parse (numberText (ones (Number.maxDigits + 1))) file =
      .error (.oversized ⟨Number.maxDigits + 1⟩) := by
  have hlength : (ones (Number.maxDigits + 1)).toList.length = Number.maxDigits + 1 := by
    rw [toList_ones, List.length_replicate]
  rw [parse_of_long (isDigits_ones (Nat.succ_pos _)) (hlength ▸ Nat.lt_succ_self _), hlength]

end NativeBinding
