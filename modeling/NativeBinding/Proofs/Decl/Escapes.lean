import NativeBinding.Proofs.Grammar.Patterns
import NativeBinding.Decl.Parse
import Mathlib.Data.List.TakeWhile

/-!
What string literals say. The escapes are given as a relation between spellings and characters, and a
content is read from the left: a character is kept, an escape is replaced, a line break behind a
backslash is dropped with the blanks after it. Decoding computes this reading, and it fails at the
first backslash at which the reading is stuck.
-/

namespace NativeBinding

open Text Grammar

theorem Text.scalar?_toNat (c : Char) : scalar? c.toNat = some c := by
  rw [scalar?, dif_pos (show c.toNat.isValidChar from c.valid)]
  congr 1
  apply Char.ext
  exact UInt32.ofNat_toNat

theorem Text.scalar?_eq_some_iff {n : Nat} {c : Char} : scalar? n = some c ↔ c.toNat = n := by
  constructor
  · intro h
    rw [scalar?] at h
    split at h
    · next hvalid =>
      have hsize : n < UInt32.size := by
        rcases hvalid with hlt | hlt
        · exact Nat.lt_trans hlt (by decide)
        · exact Nat.lt_trans hlt.2 (by decide)
      rw [← Option.some.inj h]
      exact UInt32.toNat_ofNat_of_lt' hsize
    · cases h
  · rintro rfl
    exact scalar?_toNat c

namespace Escape

def simples : List (Char × Char) :=
  [('n', '\n'), ('r', '\r'), ('t', '\t'), ('\\', '\\'), ('0', '\x00'), ('\'', '\''), ('"', '"')]

/-- What may stand in the braces of `\u`: one to eight digits and underscores, a digit first. -/
structure IsCode (digits : List Char) : Prop where
  head : digits.head?.any isHex
  all : ∀ c ∈ digits, isHex c || c == '_'
  short : digits.length ≤ 8

inductive Spelling : List Char → Char → Prop
  | simple {a c : Char} : (a, c) ∈ simples → Spelling [a] c
  | byte {a b c : Char} : isHex a → isHex b → c.toNat = hexToNat [a, b] → c.toNat ≤ 0x7f →
      Spelling ['x', a, b] c
  | code {digits : List Char} {c : Char} : IsCode digits →
      c.toNat = hexToNat (digits.filter (· != '_')) →
      Spelling ('u' :: '\x7b' :: (digits ++ ['\x7d'])) c

/-- A text after a backslash, what its head stands for and the rest. -/
inductive Step : List Char → List Char → List Char → Prop
  | character {w rest : List Char} {c : Char} : Spelling w c → Step (w ++ rest) [c] rest
  | lineBreak {blanks rest : List Char} : (∀ c ∈ blanks, isContinuation c) →
      (∀ c ∈ rest.head?, ¬ isContinuation c) → Step ('\n' :: (blanks ++ rest)) [] rest

/-- A content, what some of it from the left stands for and the rest. -/
inductive Reads : List Char → List Char → List Char → Prop
  | done {rest : List Char} : Reads rest [] rest
  | plain {c : Char} {cs out rest : List Char} : c ≠ '\\' → Reads cs out rest →
      Reads (c :: cs) (c :: out) rest
  | escape {cs out cs' out' rest : List Char} : Step cs out cs' → Reads cs' out' rest →
      Reads ('\\' :: cs) (out ++ out') rest

def Foreign (cs : List Char) : Prop :=
  ∀ out rest, ¬ Step cs out rest

/-- A text after a backslash is spoken of by the whole of an escape if only the value of that is
wrong, else by its first character. -/
inductive Named : EscapeError → List Char → Prop
  | notScalar {digits rest : List Char} : IsCode digits →
      Named (.notScalar digits) ('u' :: '\x7b' :: (digits ++ '\x7d' :: rest))
  | notAscii {a b : Char} {rest : List Char} : isHex a → isHex b →
      Named (.notAscii [a, b]) ('x' :: a :: b :: rest)
  | unknown {c : Char} {cs : List Char} :
      (∀ digits rest, IsCode digits → c :: cs ≠ 'u' :: '\x7b' :: (digits ++ '\x7d' :: rest)) →
      (∀ a b rest, isHex a → isHex b → c :: cs ≠ 'x' :: a :: b :: rest) →
      Named (.unknown c) (c :: cs)

/-- A text with each character written plainly or as an escape. -/
inductive Spells : List Char → List Char → Prop
  | nil : Spells [] []
  | plain {c : Char} {content text : List Char} : c ≠ '"' → c ≠ '\\' → Spells content text →
      Spells (c :: content) (c :: text)
  | escape {w content text : List Char} {c : Char} : Spelling w c → Spells content text →
      Spells ('\\' :: (w ++ content)) (c :: text)

end Escape

def EscapeError.written : EscapeError → List Char
  | notScalar digits => 'u' :: '\x7b' :: (digits ++ ['\x7d'])
  | notAscii digits => 'x' :: digits
  | unknown c => [c]

theorem EscapeError.message_eq (e : EscapeError) :
    ∃ complaint, e.message = complaint ++ " '\\" ++ String.ofList e.written ++ "'" := by
  cases e with
  | notScalar digits =>
    have hlabel : "invalid unicode escape '\\u\x7b" =
        "invalid unicode escape" ++ " '\\" ++ "u\x7b" := by decide
    have hwritten : String.ofList ('u' :: '\x7b' :: (digits ++ ['\x7d'])) =
        "u\x7b" ++ (String.ofList digits ++ "\x7d") := by
      rewrite [← String.ofList_append, ← String.ofList_append]
      rfl
    have hclose : "\x7d'" = "\x7d" ++ "'" := by decide
    refine ⟨"invalid unicode escape", ?_⟩
    change "invalid unicode escape '\\u\x7b" ++ String.ofList digits ++ "\x7d'" =
      _ ++ String.ofList ('u' :: '\x7b' :: (digits ++ ['\x7d'])) ++ _
    rewrite [hlabel, hwritten, hclose]
    simp only [String.append_assoc]
  | notAscii digits =>
    have hlabel : "out of range hex escape '\\x" =
        "out of range hex escape" ++ " '\\" ++ String.singleton 'x' := by decide
    refine ⟨"out of range hex escape", ?_⟩
    change "out of range hex escape '\\x" ++ String.ofList digits ++ "'" =
      _ ++ String.ofList ('x' :: digits) ++ _
    rewrite [hlabel, String.ofList_cons, ← String.append_assoc]
    exact rfl
  | unknown c => exact ⟨"unknown character escape", rfl⟩

namespace Escape

variable {content cs out rest : List Char}

theorem unicodeDigits?_eq_some_iff {digits : List Char} :
    unicodeDigits? cs = some digits ↔
      IsCode digits ∧ ∃ rest, cs = 'u' :: '\x7b' :: (digits ++ '\x7d' :: rest) := by
  constructor
  · intro h
    rw [unicodeDigits?.eq_def] at h
    split at h
    · next tail =>
      simp only [Option.ite_none_right_eq_some, Option.some.injEq, Bool.and_eq_true,
        decide_eq_true_eq, beq_iff_eq] at h
      obtain ⟨⟨⟨hshort, hhead⟩, hclose⟩, hdigits⟩ := h
      rw [hdigits] at hshort hhead hclose
      have hsplit : digits ++ tail.drop digits.length = tail := by
        rw [← hdigits]
        exact List.prefix_iff_eq_append.1 (List.takeWhile_prefix _)
      obtain ⟨rest, hrest⟩ := List.head?_eq_some_iff.1 hclose
      refine ⟨⟨hhead, fun c hc => ?_, hshort⟩, rest, by rw [← hrest, hsplit]⟩
      exact List.mem_takeWhile_imp (p := fun c => isHex c || c == '_') (hdigits ▸ hc)
    · cases h
  · rintro ⟨hcode, rest, rfl⟩
    have htake : (digits ++ '\x7d' :: rest).takeWhile (fun c => isHex c || c == '_') = digits := by
      rw [List.takeWhile_append_of_pos hcode.all, List.takeWhile_cons_of_neg (by decide),
        List.append_nil]
    rw [unicodeDigits?]
    simp only [htake]
    rw [if_pos]
    simp [hcode.short, hcode.head]

theorem byteDigits?_eq_some_iff {digits : List Char} :
    byteDigits? cs = some digits ↔
      ∃ a b rest, digits = [a, b] ∧ isHex a ∧ isHex b ∧ cs = 'x' :: a :: b :: rest := by
  rw [byteDigits?.eq_def]
  split
  · next a b tail =>
    simp only [Option.ite_none_right_eq_some, Option.some.injEq, Bool.and_eq_true]
    constructor
    · rintro ⟨⟨ha, hb⟩, rfl⟩
      exact ⟨a, b, tail, rfl, ha, hb, rfl⟩
    · rintro ⟨a', b', rest, rfl, ha, hb, heq⟩
      injection heq with _ heq
      injection heq with haa heq
      injection heq with hbb _
      subst haa hbb
      exact ⟨⟨ha, hb⟩, rfl⟩
  · next hnot =>
    simp only [false_iff, not_exists, reduceCtorEq]
    rintro a b rest ⟨-, -, -, heq⟩
    exact hnot a b rest heq

theorem simple?_eq_some_iff {a c : Char} : simple? a = some c ↔ (a, c) ∈ simples := by
  rw [simple?.eq_def]
  split <;> simp_all [simples, eq_comm]

theorem read_of_step (h : Step cs out rest) : ∃ n, read cs = .ok (out, n) ∧ cs.drop n = rest := by
  cases h with
  | character hw =>
    cases hw with
    | @simple a c hmem =>
      refine ⟨1, ?_, rfl⟩
      simp only [simples, List.mem_cons, Prod.mk.injEq, List.not_mem_nil, or_false] at hmem
      rcases hmem with ⟨rfl, rfl⟩ | ⟨rfl, rfl⟩ | ⟨rfl, rfl⟩ | ⟨rfl, rfl⟩ | ⟨rfl, rfl⟩ | ⟨rfl, rfl⟩ |
        ⟨rfl, rfl⟩ <;> rfl
    | @byte a b c ha hb hvalue hascii =>
      have hunicode : unicodeDigits? ('x' :: a :: b :: rest) = none := rfl
      have hbyte := byteDigits?_eq_some_iff.2 ⟨a, b, rest, rfl, ha, hb, rfl⟩
      refine ⟨3, ?_, rfl⟩
      simp only [List.cons_append, List.nil_append, read, hunicode, hbyte,
        scalar?_eq_some_iff.2 hvalue, if_pos (Nat.lt_succ_of_le hascii)]
    | @code digits c hcode hvalue =>
      have hunicode := unicodeDigits?_eq_some_iff.2 ⟨hcode, rest, rfl⟩
      refine ⟨digits.length + 3, ?_, ?_⟩
      · simp only [List.cons_append, List.append_assoc, List.nil_append, read, hunicode,
          scalar?_eq_some_iff.2 hvalue]
      · simp
  | @lineBreak blanks rest hblanks hstop =>
    have htake : (blanks ++ rest).takeWhile isContinuation = blanks := by
      rw [List.takeWhile_append_of_pos hblanks, List.takeWhile_eq_nil_iff.2, List.append_nil]
      exact fun hlen => hstop _ (List.head?_eq_getElem? ▸ List.getElem?_eq_getElem hlen)
    refine ⟨1 + blanks.length, ?_, by simp [Nat.add_comm 1]⟩
    have hunicode : unicodeDigits? ('\n' :: (blanks ++ rest)) = none := rfl
    have hbyte : byteDigits? ('\n' :: (blanks ++ rest)) = none := rfl
    simp only [read, hunicode, hbyte, htake]

theorem step_of_read {n : Nat} (hne : cs ≠ []) (h : read cs = .ok (out, n)) :
    Step cs out (cs.drop n) := by
  rw [read.eq_def] at h
  split at h
  · next digits hunicode =>
    obtain ⟨hcode, rest, rfl⟩ := unicodeDigits?_eq_some_iff.1 hunicode
    split at h
    · next c hc =>
      cases h
      have hw : Step _ [c] rest := .character (.code hcode (scalar?_eq_some_iff.1 hc))
      simpa using hw
    · cases h
  · split at h
    · next digits hbyte =>
      obtain ⟨a, b, rest, rfl, ha, hb, rfl⟩ := byteDigits?_eq_some_iff.1 hbyte
      split at h
      · next c hc =>
        split at h
        · next hascii =>
          cases h
          exact .character (.byte ha hb (scalar?_eq_some_iff.1 hc) (Nat.le_of_lt_succ hascii))
        · cases h
      · cases h
    · split at h
      · exact absurd rfl hne
      · next tail _ _ =>
        cases h
        have hdrop : tail.drop (tail.takeWhile isContinuation).length =
            tail.dropWhile isContinuation := by
          exact (List.append_cancel_left_eq ..).mp
            ((List.prefix_iff_eq_append.1 (List.takeWhile_prefix _)).trans
              List.takeWhile_append_dropWhile.symm)
        have hstop : ∀ c ∈ (tail.dropWhile isContinuation).head?, ¬ isContinuation c := by
          intro c hc
          have hnot := List.head?_dropWhile_not isContinuation tail
          rw [Option.mem_def.1 hc] at hnot
          simp [hnot]
        have hblanks : ∀ c ∈ tail.takeWhile isContinuation, isContinuation c :=
          fun _ => List.mem_takeWhile_imp
        have hbreak := Step.lineBreak hblanks hstop
        rw [List.takeWhile_append_dropWhile] at hbreak
        rwa [Nat.add_comm, List.drop_succ_cons, hdrop]
      · next a tail _ _ _ =>
        split at h
        · next c hc =>
          cases h
          exact .character (w := [a]) (.simple (simple?_eq_some_iff.1 hc))
        · cases h

/-- Where no escape is read there is none, and the report names what stands there. -/
theorem named_of_read {e : EscapeError} (h : read cs = .error e) : Named e cs := by
  rw [read.eq_def] at h
  split at h
  · next digits hunicode =>
    obtain ⟨hcode, rest, rfl⟩ := unicodeDigits?_eq_some_iff.1 hunicode
    split at h
    · cases h
    · cases h
      exact .notScalar hcode
  · next hunicode =>
    split at h
    · next digits hbyte =>
      obtain ⟨a, b, rest, rfl, ha, hb, rfl⟩ := byteDigits?_eq_some_iff.1 hbyte
      have hnamed : Named (.notAscii [a, b]) ('x' :: a :: b :: rest) := .notAscii ha hb
      split at h
      · split at h
        · cases h
        · cases h
          exact hnamed
      · cases h
        exact hnamed
    · next hbyte =>
      split at h
      · cases h
      · cases h
      · split at h
        · cases h
        · cases h
          refine .unknown (fun digits rest hcode heq => ?_) fun a b rest ha hb heq => ?_
          · rw [unicodeDigits?_eq_some_iff.2 ⟨hcode, rest, heq⟩] at hunicode
            cases hunicode
          · rw [byteDigits?_eq_some_iff.2 ⟨a, b, rest, rfl, ha, hb, heq⟩] at hbyte
            cases hbyte

theorem foreign_of_read {e : EscapeError} (h : read cs = .error e) : Foreign cs := by
  intro out rest hstep
  obtain ⟨n, hread, -⟩ := read_of_step hstep
  rw [h] at hread
  cases hread

theorem read_of_named {e : EscapeError} (hforeign : Foreign cs) (h : Named e cs) :
    read cs = .error e := by
  cases h with
  | @notScalar digits rest hcode =>
    have hunicode := unicodeDigits?_eq_some_iff.2 ⟨hcode, rest, rfl⟩
    cases hvalue : scalar? (hexToNat (digits.filter (· != '_'))) with
    | none => simp only [read, hunicode, hvalue]
    | some c =>
      have hw : Step _ [c] rest := .character (.code hcode (scalar?_eq_some_iff.1 hvalue))
      exact absurd (by simpa using hw) (hforeign [c] rest)
  | @notAscii a b rest ha hb =>
    have hunicode : unicodeDigits? ('x' :: a :: b :: rest) = none := rfl
    have hbyte := byteDigits?_eq_some_iff.2 ⟨a, b, rest, rfl, ha, hb, rfl⟩
    cases hvalue : scalar? (hexToNat [a, b]) with
    | none => simp only [read, hunicode, hbyte, hvalue]
    | some c =>
      have hascii : ¬ c.toNat < 128 := fun hlt => hforeign [c] rest
        (.character (.byte ha hb (scalar?_eq_some_iff.1 hvalue) (Nat.le_of_lt_succ hlt)))
      simp only [read, hunicode, hbyte, hvalue, if_neg hascii]
  | @unknown c cs hcode hbyte =>
    have hunicode? : unicodeDigits? (c :: cs) = none :=
      Option.eq_none_iff_forall_ne_some.2 fun digits h =>
        let ⟨hdigits, rest, heq⟩ := unicodeDigits?_eq_some_iff.1 h
        hcode digits rest hdigits heq
    have hbyte? : byteDigits? (c :: cs) = none :=
      Option.eq_none_iff_forall_ne_some.2 fun digits h =>
        let ⟨a, b, rest, _, ha, hb, heq⟩ := byteDigits?_eq_some_iff.1 h
        hbyte a b rest ha hb heq
    cases hread : read (c :: cs) with
    | ok r => exact absurd (step_of_read (List.cons_ne_nil _ _) hread) (hforeign _ _)
    | error e =>
      simp only [read, hunicode?, hbyte?] at hread
      split at hread
      · cases hread
      · cases hread
      · next heq =>
        split at hread
        · cases hread
        · rw [← (List.cons.inj heq).1] at hread
          exact hread ▸ rfl

theorem decodeFrom_eq (n : Nat) (cs : List Char) : decodeFrom n cs = decode (cs.drop n) := by
  induction n generalizing cs with
  | zero => rfl
  | succ n ih =>
    cases cs with
    | nil => rfl
    | cons c cs => rw [decodeFrom, ih, List.drop_succ_cons]

theorem decode_plain {c : Char} (h : c ≠ '\\') (cs : List Char) :
    decode (c :: cs) = (decode cs).map (c :: ·) := by
  rw [decode, decodeFrom, if_neg (by simpa using h)]
  rfl

theorem decode_of_read {n : Nat} (h : read cs = .ok (out, n)) :
    decode ('\\' :: cs) = (decode (cs.drop n)).map (out ++ ·) := by
  rw [decode, decodeFrom, if_pos (by decide), h, ← decodeFrom_eq]

theorem decode_of_error {e : EscapeError} (h : read cs = .error e) :
    decode ('\\' :: cs) = .error e := by
  rw [decode, decodeFrom, if_pos (by decide), h]

theorem decode_of_reads (h : Reads content out rest) :
    decode content = (decode rest).map (out ++ ·) := by
  induction h with
  | @done rest => cases decode rest <;> rfl
  | @plain _ _ _ rest hc _ ih =>
    rw [decode_plain hc, ih]
    cases decode rest <;> rfl
  | @escape _ _ _ _ rest hstep _ ih =>
    obtain ⟨n, hread, hdrop⟩ := read_of_step hstep
    rw [decode_of_read hread, hdrop, ih]
    cases decode rest with
    | error e => rfl
    | ok cs => exact congrArg Except.ok (List.append_assoc ..).symm

theorem exists_reads (content : List Char) : ∃ out rest, Reads content out rest ∧
    (rest = [] ∨ rest = ['\\'] ∨ ∃ w e, rest = '\\' :: w ∧ read w = .error e) := by
  induction hlen : content.length using Nat.strong_induction_on generalizing content with
  | _ len ih =>
    cases content with
    | nil => exact ⟨[], [], .done, .inl rfl⟩
    | cons c cs =>
      have hshort {ds : List Char} (h : ds.length ≤ cs.length) := ih ds.length
        (hlen ▸ Nat.lt_succ_of_le h) ds rfl
      by_cases hc : c = '\\'
      · subst hc
        by_cases hne : cs = []
        · exact ⟨[], _, .done, .inr (.inl (hne ▸ rfl))⟩
        cases hread : read cs with
        | error e => exact ⟨[], _, .done, .inr (.inr ⟨cs, e, rfl, hread⟩)⟩
        | ok r =>
          have hstep := step_of_read hne hread
          obtain ⟨out, rest, hreads, hend⟩ := hshort (List.length_drop (l := cs) ▸ Nat.sub_le ..)
          exact ⟨_, rest, .escape hstep hreads, hend⟩
      · obtain ⟨out, rest, hreads, hend⟩ := hshort Nat.le.refl
        exact ⟨_, rest, .plain hc hreads, hend⟩

theorem stringRest_append {w : List Char} (hw : ∀ c ∈ w, c ≠ '"' ∧ c ≠ '\\') (cs : List Char) :
    stringRest (w ++ cs) = (stringRest cs).map (· + w.length) := by
  induction w with
  | nil => simp
  | cons c w ih =>
    obtain ⟨⟨hquote, hbackslash⟩, hw⟩ := List.forall_mem_cons.1 hw
    have hcons : stringRest (c :: (w ++ cs)) = (stringRest (w ++ cs)).map (· + 1) := by
      rw [stringRest.eq_def]
      split <;> simp_all
    rw [List.cons_append, hcons, ih hw, Option.map_map]
    rfl

theorem not_mark_of_isHex {c : Char} (h : isHex c) : c ≠ '"' ∧ c ≠ '\\' := by
  constructor <;> rintro rfl <;> exact absurd h (by decide)

theorem Step.stringRest_eq (h : Step cs out rest) : ∃ n, cs.length = n + rest.length ∧
    ∀ tail, stringRest ('\\' :: (cs ++ tail)) =
      (stringRest (rest ++ tail)).map (· + (n + 1)) := by
  have main (a : Char) (u rest : List Char) (hu : ∀ c ∈ u, c ≠ '"' ∧ c ≠ '\\') :
      ∃ n, (a :: (u ++ rest)).length = n + rest.length ∧
        ∀ tail, stringRest ('\\' :: (a :: (u ++ rest) ++ tail)) =
          (stringRest (rest ++ tail)).map (· + (n + 1)) := by
    refine ⟨u.length + 1, by simp [Nat.add_right_comm], fun tail => ?_⟩
    rw [List.cons_append, stringRest, List.append_assoc, stringRest_append hu, Option.map_map]
    rfl
  cases h with
  | character hw =>
    cases hw with
    | @simple a c _ => exact main a [] rest (by simp)
    | @byte a b _ ha hb =>
      exact main 'x' [a, b] rest (by simp [not_mark_of_isHex ha, not_mark_of_isHex hb])
    | @code digits _ hcode =>
      refine main 'u' ('\x7b' :: (digits ++ ['\x7d'])) rest ?_
      have hdigits : ∀ c ∈ digits, c ≠ '"' ∧ c ≠ '\\' := by
        intro c hc
        have hall := hcode.all c hc
        rw [Bool.or_eq_true, beq_iff_eq] at hall
        rcases hall with hhex | rfl
        · exact not_mark_of_isHex hhex
        · decide
      simpa [or_imp, forall_and] using hdigits
  | @lineBreak blanks _ hblanks =>
    refine main '\n' blanks rest fun c hc => ?_
    constructor <;> rintro rfl <;> exact absurd (hblanks _ hc) (by decide)

theorem Reads.stringRest_eq (h : Reads content out rest)
    (hstring : stringRest (content ++ ['"']) = some (content.length + 1)) :
    stringRest (rest ++ ['"']) = some (rest.length + 1) := by
  induction h with
  | done => exact hstring
  | @plain c cs out rest hc _ ih =>
    refine ih ?_
    by_cases hquote : c = '"'
    · subst hquote
      cases hstring
    · have hcons := stringRest_append (w := [c]) (by simp [hquote, hc]) (cs ++ ['"'])
      rw [List.cons_append, ← List.singleton_append, hcons] at hstring
      simpa using hstring
  | @escape cs out cs' out' rest hstep _ ih =>
    obtain ⟨n, hlen, heq⟩ := hstep.stringRest_eq
    refine ih ?_
    rw [List.cons_append, heq, Option.map_eq_some_iff] at hstring
    obtain ⟨m, hm, hsum⟩ := hstring
    rw [hm, List.length_cons, hlen] at *
    exact congrArg some (by omega)

theorem Spells.reads {text : List Char} (h : Spells content text) : Reads content text [] := by
  induction h with
  | nil => exact .done
  | plain _ hc _ ih => exact .plain hc ih
  | escape hw _ ih => exact .escape (.character hw) ih

theorem Spells.stringRest_eq {text : List Char} (h : Spells content text) (tail : List Char) :
    stringRest (content ++ '"' :: tail) = some (content.length + 1) := by
  induction h with
  | nil => rfl
  | @plain c content text hquote hc _ ih =>
    have hcons := stringRest_append (w := [c]) (by simp [hquote, hc]) (content ++ '"' :: tail)
    rw [List.cons_append, ← List.singleton_append, hcons, ih]
    rfl
  | @escape w content text c hw _ ih =>
    have hstep : Step (w ++ content) [c] content := .character hw
    obtain ⟨n, hlen, heq⟩ := hstep.stringRest_eq
    rw [List.cons_append, heq, ih, List.length_cons, hlen, Option.map_some, Option.some.injEq]
    omega

theorem Named.written {e : EscapeError} (h : Named e rest) : e.written <+: rest := by
  cases h with
  | @notScalar digits rest _ => exact ⟨rest, by simp [EscapeError.written]⟩
  | @notAscii a b rest _ _ => exact ⟨rest, rfl⟩
  | @unknown c cs _ _ => exact ⟨cs, rfl⟩

theorem exists_reads_of_string (h : stringRest (content ++ ['"']) = some (content.length + 1)) :
    ∃ out rest, Reads content out rest ∧
      (rest = [] ∨ ∃ w e, rest = '\\' :: w ∧ read w = .error e) := by
  obtain ⟨out, rest, hreads, rfl | rfl | herror⟩ := exists_reads content
  · exact ⟨out, [], hreads, .inl rfl⟩
  · cases hreads.stringRest_eq h
  · exact ⟨out, rest, hreads, .inr herror⟩

theorem decode_eq_ok_iff (h : stringRest (content ++ ['"']) = some (content.length + 1))
    {text : List Char} : decode content = .ok text ↔ Reads content text [] := by
  constructor
  · intro hdecode
    obtain ⟨out, rest, hreads, rfl | ⟨w, e, rfl, herror⟩⟩ := exists_reads_of_string h
    · rw [decode_of_reads hreads] at hdecode
      have htext : out = text := (List.append_nil out).symm.trans (Except.ok.inj hdecode)
      exact htext ▸ hreads
    · rw [decode_of_reads hreads, decode_of_error herror] at hdecode
      cases hdecode
  · intro hreads
    exact (decode_of_reads hreads).trans (congrArg Except.ok (List.append_nil text))

theorem decode_eq_error_iff {e : EscapeError} : decode content = .error e ↔
    ∃ text rest, Reads content text ('\\' :: rest) ∧ Foreign rest ∧ Named e rest := by
  constructor
  · intro hdecode
    obtain ⟨out, rest, hreads, hend⟩ := exists_reads content
    rw [decode_of_reads hreads] at hdecode
    rcases hend with rfl | rfl | ⟨w, e', rfl, herror⟩
    · cases hdecode
    · cases hdecode
    · rw [decode_of_error herror] at hdecode
      cases hdecode
      exact ⟨out, w, hreads, foreign_of_read herror, named_of_read herror⟩
  · rintro ⟨text, rest, hreads, hforeign, hnamed⟩
    rw [decode_of_reads hreads, decode_of_error (read_of_named hforeign hnamed)]
    rfl

theorem exists_error_of_foreign (h : stringRest (content ++ ['"']) = some (content.length + 1))
    {text : List Char} (hreads : Reads content text ('\\' :: rest)) (hforeign : Foreign rest) :
    ∃ e, decode content = .error e := by
  have hne : rest ≠ [] := by
    rintro rfl
    cases hreads.stringRest_eq h
  rw [decode_of_reads hreads]
  cases hread : read rest with
  | ok r => exact absurd (step_of_read hne hread) (hforeign _ _)
  | error e => exact ⟨e, by rw [decode_of_error hread]; rfl⟩

end Escape

theorem stringRest_unquote {l : Lexeme .string}
    (h : Terminal.string.lexemeLength l.text.toList = some l.text.toList.length) :
    stringRest (unquote l.text ++ ['"']) = some ((unquote l.text).length + 1) := by
  obtain ⟨cs, n, hcs, hn, hlen⟩ := stringLength_eq_some_iff.1 h
  obtain rfl : cs.length = n := by
    rw [hcs] at hlen
    exact Nat.succ_inj.1 hlen
  have hmem := take_stringRest hn
  rw [List.take_length] at hmem
  obtain ⟨content, -, quote, rfl, rfl⟩ := Language.mem_mul.1 hmem
  rw [unquote, hcs, List.tail_cons, List.dropLast_concat, hn, List.length_append]
  rfl

theorem Literal.ofTree_eq_ok_iff {file : Option String} {l : Lexeme .string} {v : Literal} :
    Literal.ofTree file (.string l) = .ok v ↔
      ∃ text, Escape.decode (unquote l.text) = .ok text ∧
        v = ⟨.str (String.ofList text), l.span file⟩ := by
  rw [Literal.ofTree]
  cases Escape.decode (unquote l.text) <;> simp [eq_comm]

theorem Literal.ofTree_eq_error_iff {file : Option String} {l : Lexeme .string} {b : BadLiteral} :
    Literal.ofTree file (.string l) = .error b ↔
      ∃ e, Escape.decode (unquote l.text) = .error e ∧
        ParseError.ofLiteral b = .rejected (.escape e) (l.span file) := by
  rw [Literal.ofTree]
  cases b <;> cases Escape.decode (unquote l.text) <;> simp [ParseError.ofLiteral, eq_comm]

/-- A string has a value just if its content is read to the end, and then its value is what was
read. It is rejected just if the reading comes to a backslash with no escape behind it, at the place
of the string, with a message that shows what stands behind that backslash. A text may be written
with any escapes that stand for its characters. -/
theorem Literal.string_reads (file : Option String) (l : Lexeme .string)
    (h : Terminal.string.lexemeLength l.text.toList = some l.text.toList.length) :
    (∀ v, Literal.ofTree file (.string l) = .ok v ↔
      ∃ text, Escape.Reads (unquote l.text) text [] ∧
        v = ⟨.str (String.ofList text), l.span file⟩) ∧
    ((∃ b, Literal.ofTree file (.string l) = .error b) ↔
      ∃ text rest, Escape.Reads (unquote l.text) text ('\\' :: rest) ∧ Escape.Foreign rest) ∧
    (∀ b, Literal.ofTree file (.string l) = .error b ↔
      ∃ e text rest, Escape.Reads (unquote l.text) text ('\\' :: rest) ∧ Escape.Foreign rest ∧
        Escape.Named e rest ∧ ParseError.ofLiteral b = .rejected (.escape e) (l.span file)) ∧
    (∀ e rest, Escape.Named e rest → e.written <+: rest ∧ ∃ complaint,
      (ParseCause.escape e).message = complaint ++ " '\\" ++ String.ofList e.written ++ "'") ∧
    ∀ content text, Escape.Spells content text → ∀ spelled : Lexeme .string,
      spelled.text.toList = '"' :: (content ++ ['"']) →
      Terminal.string.lexemeLength spelled.text.toList = some spelled.text.toList.length ∧
      Literal.ofTree file (.string spelled) =
        .ok ⟨.str (String.ofList text), spelled.span file⟩ := by
  have hstring := stringRest_unquote h
  refine ⟨fun v => ?_, ⟨?_, ?_⟩, fun b => ?_, fun e rest hnamed => ⟨hnamed.written, e.message_eq⟩,
    fun content text hspells spelled hspelled => ⟨?_, ?_⟩⟩
  · simp only [ofTree_eq_ok_iff, Escape.decode_eq_ok_iff hstring]
  · rintro ⟨b, hb⟩
    obtain ⟨e, hdecode, -⟩ := ofTree_eq_error_iff.1 hb
    obtain ⟨text, rest, hreads, hforeign, -⟩ := Escape.decode_eq_error_iff.1 hdecode
    exact ⟨text, rest, hreads, hforeign⟩
  · rintro ⟨text, rest, hreads, hforeign⟩
    obtain ⟨e, hdecode⟩ := Escape.exists_error_of_foreign hstring hreads hforeign
    exact ⟨.escape e (l.span file), ofTree_eq_error_iff.2 ⟨e, hdecode, rfl⟩⟩
  · simp only [ofTree_eq_error_iff, Escape.decode_eq_error_iff, ← exists_and_right, and_assoc]
  · have hlength := hspells.stringRest_eq []
    rw [Terminal.lexemeLength, hspelled, stringLength, hlength]
    simp
  · have hunquote : unquote spelled.text = content := by
      rw [unquote, hspelled, List.tail_cons, List.dropLast_concat]
    rw [ofTree_eq_ok_iff, hunquote]
    exact ⟨text, (Escape.decode_eq_ok_iff (hspells.stringRest_eq [])).2 hspells.reads, rfl⟩

theorem Literal.string_reads_until_unknown :
    let l : Lexeme .string := ⟨"\"a\\x41\\\n  \\q\"", ⟨1, 1⟩, ⟨2, 6⟩⟩
    Terminal.string.lexemeLength l.text.toList = some l.text.toList.length ∧
      Literal.ofTree none (.string l) = .error (.escape (.unknown 'q') (l.span none)) := by
  intro l
  have hstring : Terminal.string.lexemeLength l.text.toList = some l.text.toList.length := by
    decide
  have hunquote : unquote l.text =
      ['a', '\\', 'x', '4', '1', '\\', '\n', ' ', ' ', '\\', 'q'] := by decide
  have hbreak : Escape.Step ('\n' :: ([' ', ' '] ++ ['\\', 'q'])) [] ['\\', 'q'] :=
    .lineBreak (by simp [Escape.isContinuation]) (by simp [Escape.isContinuation])
  have hreads : Escape.Reads (unquote l.text) ['a', 'A'] ['\\', 'q'] :=
    hunquote ▸ .plain (by decide) (.escape (.character (w := ['x', '4', '1']) (c := 'A')
      (.byte (by decide) (by decide) (by decide) (by decide))) (.escape hbreak .done))
  have hread : Escape.read ['q'] = .error (.unknown 'q') := by decide
  exact ⟨hstring, ((string_reads none l hstring).2.2.1 _).2 ⟨_, _, _, hreads,
    Escape.foreign_of_read hread, Escape.named_of_read hread, rfl⟩⟩

end NativeBinding
