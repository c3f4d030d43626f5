import NativeBinding.Proofs.Decl.Escapes
import NativeBinding.Proofs.Decl.Oversized
import NativeBinding.Proofs.Report.Runs

/-!
Runs that an integer ends. Two files in a directory, the first with a static method, the second with
an integer of too many digits: the first is in order, but a run over both has nothing to show for
it.
-/

namespace NativeBinding

def ascii (text : String) : List UInt8 :=
  text.toList.map fun c => c.toNat.toUInt8

namespace Text

theorem Utf8.decodeFrom_ascii {cs : List Char} (h : ∀ c ∈ cs, c.toNat < 0x80) (position : Nat) :
    decodeFrom 0 position (cs.map fun c => c.toNat.toUInt8) = .ok cs := by
  induction cs generalizing position with
  | nil => rfl
  | cons c cs ih =>
    rw [List.forall_mem_cons] at h
    have hbyte : c.toNat.toUInt8.toNat = c.toNat := Nat.mod_eq_of_lt (by omega)
    rw [List.map_cons, decodeFrom, first, hbyte, if_pos h.1]
    simp [ih h.2, scalar?_toNat, Except.map]

theorem normalizeLines_eq_self {cs : List Char} (h : '\r' ∉ cs) : normalizeLines cs = cs := by
  induction cs with
  | nil => rfl
  | cons c cs ih =>
    rw [List.mem_cons, not_or] at h
    rw [normalizeLines.eq_def]
    split
    · next heq => cases heq
    · next heq => exact absurd (List.cons.inj heq).1.symm h.1
    · next heq => exact absurd (List.cons.inj heq).1.symm h.1
    · next heq =>
      obtain ⟨rfl, rfl⟩ := List.cons.inj heq
      rw [ih h.2]

end Text

theorem Source.ofBytes_ascii (path : Path) {text : String}
    (h : ∀ c ∈ text.toList, c.toNat < 0x80 ∧ c ≠ '\r') :
    Source.ofBytes path (.ok (ascii text)) = ⟨path, .ok text⟩ := by
  have hlines : '\r' ∉ text.toList := fun hmem => (h _ hmem).2 rfl
  rw [ofBytes, ascii, Text.Utf8.decode, Text.Utf8.decodeFrom_ascii fun c hc => (h c hc).1]
  dsimp only
  rw [Text.normalizeLines_eq_self hlines, String.ofList_toList]

theorem plain_of_all {cs : List Char} (h : cs.all fun c => c.toNat < 0x80 ∧ c ≠ '\r') :
    ∀ c ∈ cs, c.toNat < 0x80 ∧ c ≠ '\r' :=
  fun c hc => of_decide_eq_true (List.all_eq_true.1 h c hc)

theorem plain_numberText_ones (n : Nat) :
    ∀ c ∈ (numberText (ones n)).toList, c.toNat < 0x80 ∧ c ≠ '\r' := by
  rw [numberText, String.toList_append, String.toList_append, toList_ones]
  simp only [List.forall_mem_append]
  refine ⟨⟨plain_of_all (by decide), fun c hc => ?_⟩, plain_of_all (by decide)⟩
  obtain rfl := List.eq_of_mem_replicate hc
  decide

def longDirectory : Surroundings where
  location := .ofString "/"
  read path :=
    if path = .ofString "a" then .ok (ascii "#[staticmethod] fn g();")
    else if path = .ofString "b" then .ok (ascii (numberText (ones (Number.maxDigits + 1))))
    else .error .missing

theorem longDirectory_oversized : (longDirectory.source (.ofString "b")).Oversized := by
  have hne : Path.ofString "b" ≠ .ofString "a" := by decide +kernel
  have hread : longDirectory.read (.ofString "b") =
      .ok (ascii (numberText (ones (Number.maxDigits + 1)))) := by
    dsimp only [longDirectory]
    rw [if_neg hne, if_pos rfl]
  rw [Surroundings.source, hread, Source.ofBytes_ascii _ (plain_numberText_ones _)]
  exact ⟨_, _, rfl, SourceFile.parse_ones _⟩

def longOptions : Options :=
  ⟨[.ofString "a", .ofString "b"], true, none, [], none, false⟩

theorem longOptions_ofArgs : Options.ofArgs ["--json", "a", "b"] = .ok longOptions := by
  rfl

theorem longOptions_uses : longOptions.Uses longDirectory .standard := by
  have ha : Path.ofString CommandLine.configName ≠ .ofString "a" := by decide +kernel
  have hb : Path.ofString CommandLine.configName ≠ .ofString "b" := by decide +kernel
  have hread : longDirectory.read (.ofString CommandLine.configName) = .error .missing := by
    dsimp only [longDirectory]
    rw [if_neg ha, if_neg hb]
  refine ⟨none, ?_, rfl⟩
  rw [CommandLine.configFile, longOptions]
  dsimp only
  rw [hread]

end NativeBinding
