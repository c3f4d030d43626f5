import NativeBinding.Proofs.Binding.CallingOrder
import NativeBinding.Proofs.Binding.Places

/-!
The outcomes of the items of an `args` list. What an item comes to depends on the items before it
only through two facts: whether one of them opened the keyword-only part, as the separator or a
variadic positional mark does, and whether one of them closed the list, as a variadic keyword does.
Every item has one outcome, so each one that is refused is reported once, and the accepted ones
stand in calling order.
-/

namespace NativeBinding

/-- An item that is accepted at some place: the separator, a name, or a name with a text that is not
blank. -/
def AttrArg.isWellFormed : AttrArg → Bool
  | .literal l => l.str? == some "*"
  | .path p => p.segments.length == 1
  | .assign p value _ =>
      p.segments.length == 1 && value.str?.any fun text => !(Text.strip text.toList).isEmpty

theorem AttrArg.keywordOnly_of_roleIf {item : AttrArg} {keywordOnly : Bool}
    (h : item.roleIf keywordOnly = .keywordOnly) : keywordOnly = true := by
  unfold roleIf at h
  split_ifs at h with _ _ hkeyword
  exact hkeyword

theorem AttrArg.positional_of_roleIf {item : AttrArg} {keywordOnly : Bool}
    (h : item.roleIf keywordOnly = .positional) : keywordOnly = false := by
  unfold roleIf at h
  split_ifs at h with _ _ hkeyword
  exact Bool.eq_false_iff.2 hkeyword

namespace ItemOutcome

def finding? : ItemOutcome → Option Finding
  | fault f => some f
  | mark _ | separator => none

def isAccepted : ItemOutcome → Bool
  | mark _ | separator => true
  | fault _ => false

@[simp] theorem isAccepted_mark (m : ArgMark) : (mark m).isAccepted = true := rfl

@[simp] theorem isAccepted_separator : separator.isAccepted = true := rfl

@[simp] theorem isAccepted_fail (f : Fault) (span : Span) : (fail f span).isAccepted = false := rfl

def opens : ItemOutcome → Bool
  | separator => true
  | mark m => m.role == .variadicPositional
  | fault _ => false

def closes : ItemOutcome → Bool
  | mark m => m.role == .variadicKeyword
  | separator | fault _ => false

/-- What an item may come to where the keyword-only part is `opened` or not, and the list `closed`
or not. -/
structure Suits (opened closed : Bool) (item : AttrArg) (o : ItemOutcome) : Prop where
  means : ArgsState.Means opened item o
  accepted : o.isAccepted ↔
    item.isWellFormed ∧ closed = false ∧ ¬ (opened = true ∧ item.opensKeywords)
  within : o.spans ⊆ item.spans

/-- One outcome for each item, in order, each as the ones before it allow. -/
inductive Sequence : Bool → Bool → List AttrArg → List ItemOutcome → Prop
  | nil (opened closed : Bool) : Sequence opened closed [] []
  | cons {opened closed : Bool} {item : AttrArg} {items : List AttrArg} {o : ItemOutcome}
      {os : List ItemOutcome} (head : o.Suits opened closed item)
      (tail : Sequence (opened || o.opens) (closed || o.closes) items os) :
      Sequence opened closed (item :: items) (o :: os)

end ItemOutcome

namespace ArgsState

variable (s : ArgsState) (span : Span) (name : String)

theorem isAccepted_beforeKwargs (o : ItemOutcome) :
    (s.beforeKwargs span o).isAccepted = (!s.kwargs.isSome && o.isAccepted) := by
  rw [beforeKwargs]
  cases s.kwargs <;> rfl

theorem isAccepted_readSeparator :
    (s.readSeparator span).isAccepted = (!s.kwargs.isSome && !s.keywordOnly) := by
  rw [readSeparator, keywordOnly]
  by_cases hseparator : s.separator
  · simp [hseparator]
  · cases hvarargs : s.varargs with
    | none => simp [hseparator, isAccepted_beforeKwargs]
    | some varargs => simp [hseparator]

theorem isAccepted_readVarargs :
    (s.readVarargs name span).isAccepted = (!s.kwargs.isSome && !s.keywordOnly) := by
  rw [readVarargs, keywordOnly]
  cases hvarargs : s.varargs with
  | some varargs => simp
  | none =>
    by_cases hseparator : s.separator
    · simp [hseparator]
    · simp [hseparator, isAccepted_beforeKwargs]

theorem isAccepted_readKwargs : (s.readKwargs name span).isAccepted = !s.kwargs.isSome := by
  rw [readKwargs]
  cases s.kwargs <;> rfl

theorem isAccepted_readDefault (text : String) (valueSpan : Span) :
    (s.readDefault name text valueSpan span).isAccepted =
      (!s.kwargs.isSome && !(Text.strip text.toList).isEmpty) := by
  rw [readDefault, isAccepted_beforeKwargs]
  congr 1
  by_cases hblank : (Text.strip text.toList).isEmpty
  · rw [if_pos hblank, hblank]
    rfl
  · rw [if_neg hblank, Bool.eq_false_iff.2 hblank]
    rfl

theorem isAccepted_readAssign (value : Literal) (pathSpan : Span) :
    (s.readAssign name value span).isAccepted =
      ((value.str?.any fun text => !(Text.strip text.toList).isEmpty) && !s.kwargs.isSome &&
        !(s.keywordOnly && (AttrArg.assign ⟨[name], pathSpan⟩ value span).opensKeywords)) := by
  have hparam : (AttrArg.assign ⟨[name], pathSpan⟩ value span).param? = some name := rfl
  have hopens : (AttrArg.assign ⟨[name], pathSpan⟩ value span).opensKeywords =
      decide (value.str? = some "*") := AttrArg.opensKeywords_eq_of_param? hparam
  rw [hopens, readAssign]
  cases htext : value.str? with
  | none => rfl
  | some text =>
    by_cases hstar : text = "*"
    · have hvisible : (Text.strip ['*']).isEmpty = false := by decide
      subst hstar
      simp [isAccepted_readVarargs, hvisible]
    · by_cases hstars : text = "**"
      · have hvisible : Text.strip ['*', '*'] ≠ [] := by decide
        subst hstars
        simp [isAccepted_readKwargs, hvisible]
      · simp [hstar, hstars, isAccepted_readDefault, Bool.and_comm]

theorem isAccepted_read (item : AttrArg) : (s.read item).isAccepted =
    (item.isWellFormed && !s.kwargs.isSome && !(s.keywordOnly && item.opensKeywords)) := by
  cases item with
  | literal l =>
    by_cases hstar : l.str? = some "*"
    · simp [read, hstar, isAccepted_readSeparator, AttrArg.isWellFormed, AttrArg.opensKeywords,
        AttrArg.isSeparator]
    · simp [read, hstar, AttrArg.isWellFormed]
  | path p =>
    rcases p with ⟨_ | ⟨name, _ | ⟨second, rest⟩⟩, pathSpan⟩
    · simp [read, AttrArg.isWellFormed]
    · simp [read, isAccepted_beforeKwargs, AttrArg.isWellFormed, AttrArg.opensKeywords,
        AttrArg.isSeparator, AttrArg.starred?]
    · simp [read, AttrArg.isWellFormed]
  | assign p value span =>
    rcases p with ⟨_ | ⟨name, _ | ⟨second, rest⟩⟩, pathSpan⟩
    · simp [read, AttrArg.isWellFormed]
    · simp [read, isAccepted_readAssign s span name value pathSpan, AttrArg.isWellFormed]
    · simp [read, AttrArg.isWellFormed]

theorem suits_read (item : AttrArg) :
    (s.read item).Suits s.keywordOnly s.kwargs.isSome item where
  means := s.read_means item
  accepted := by
    rw [isAccepted_read]
    simp [and_assoc, imp_iff_not_or]
  within := s.read_spans item

theorem keywordOnly_step (o : ItemOutcome) :
    (s.after o).keywordOnly = (s.keywordOnly || o.opens) := by
  cases o with
  | separator => simp [after, keywordOnly, ItemOutcome.opens]
  | mark m => cases hform : m.form <;>
      simp [after, hform, keywordOnly, ItemOutcome.opens, ArgMark.role]
  | fault f => simp [after, ItemOutcome.opens]

theorem kwargs_step (o : ItemOutcome) :
    (s.after o).kwargs.isSome = (s.kwargs.isSome || o.closes) := by
  cases o with
  | separator => simp [after, ItemOutcome.closes]
  | mark m => cases hform : m.form <;> simp [after, hform, ItemOutcome.closes, ArgMark.role]
  | fault f => simp [after, ItemOutcome.closes]

theorem sequence_readAll (items : List AttrArg) :
    ItemOutcome.Sequence s.keywordOnly s.kwargs.isSome items (s.readAll items) := by
  induction items generalizing s with
  | nil => exact .nil _ _
  | cons item items ih =>
    rw [readAll]
    apply ItemOutcome.Sequence.cons (s.suits_read item)
    rw [← keywordOnly_step, ← kwargs_step]
    exact ih (s.after (s.read item))

end ArgsState

namespace ItemOutcome

variable {opened closed : Bool} {item : AttrArg} {items : List AttrArg} {o : ItemOutcome}
  {os : List ItemOutcome}

theorem Suits.opened_eq_false (h : o.Suits opened closed item) (ho : o.opens) :
    opened = false := by
  have haccepted : o.isAccepted := by
    cases o with
    | mark m => rfl
    | separator => rfl
    | fault f => cases ho
  obtain ⟨-, -, hplace⟩ := h.accepted.1 haccepted
  have hitem : item.opensKeywords := by
    cases h.means with
    | fault f => cases ho
    | separator hsep => simp [AttrArg.opensKeywords, hsep]
    | mark m hname hrole hdefault =>
      have hstar : item.text? = some "*" :=
        AttrArg.text?_of_roleIf (hrole.symm.trans (beq_iff_eq.1 ho))
      rw [AttrArg.opensKeywords_eq_of_param? hname, hstar]
      rfl
  rw [Bool.eq_false_iff]
  exact fun hopened => hplace ⟨hopened, hitem⟩

theorem Sequence.length_eq (h : Sequence opened closed items os) : os.length = items.length := by
  induction h with
  | nil => rfl
  | cons head tail ih => simp [ih]

theorem Sequence.countP_opens_le (h : Sequence opened closed items os) :
    os.countP opens ≤ if opened then 0 else 1 := by
  induction h with
  | nil => simp
  | @cons opened closed item items o os head tail ih =>
    rw [List.countP_cons]
    by_cases ho : o.opens
    · rw [head.opened_eq_false ho, if_pos ho, if_neg Bool.false_ne_true]
      rw [ho, Bool.or_true, if_pos rfl] at ih
      omega
    · rw [if_neg ho]
      rwa [Bool.eq_false_iff.2 ho, Bool.or_false] at ih

theorem Suits.opened_of_role {m : ArgMark} (h : (mark m).Suits opened closed item) :
    closed = false ∧ (m.role = .keywordOnly → opened = true) ∧
      (m.role = .positional → opened = false) := by
  obtain ⟨-, hclosed, -⟩ := h.accepted.1 rfl
  have hrole : m.role = item.roleIf opened := by
    cases h.means with
    | mark m hname hrole hdefault => exact hrole
  refine ⟨hclosed, fun hkeyword => ?_, fun hpositional => ?_⟩
  · exact AttrArg.keywordOnly_of_roleIf (hrole.symm.trans hkeyword)
  · exact AttrArg.positional_of_roleIf (hrole.symm.trans hpositional)

/-- The accepted marks stand in calling order. What has been opened or closed is missing. -/
theorem Sequence.roles_eq (h : Sequence opened closed items os) :
    ∃ a b c e, (os.filterMap mark?).map ArgMark.role = orderedRoles a b c e ∧ b ≤ 1 ∧ e ≤ 1 ∧
      (opened = true → a = 0 ∧ b = 0) ∧ (closed = true → a = 0 ∧ b = 0 ∧ c = 0 ∧ e = 0) := by
  induction h with
  | nil => exact ⟨0, 0, 0, 0, by simp [orderedRoles]⟩
  | @cons opened closed item items o os head tail ih =>
    obtain ⟨a, b, c, e, hroles, hb, he, hopened, hclosed⟩ := ih
    cases o with
    | separator | fault =>
      refine ⟨a, b, c, e, hroles, hb, he, fun h => hopened (by simp [h]), fun h => hclosed ?_⟩
      simp [h]
    | mark m =>
      obtain ⟨hfree, hkeyword, hpositional⟩ := head.opened_of_role
      rw [List.filterMap_cons_some (f := mark?) rfl, List.map_cons, hroles]
      cases hr : m.role with
      | positional =>
        obtain rfl := hpositional hr
        refine ⟨a + 1, b, c, e, by simp [orderedRoles, List.replicate_succ], hb, he, ?_⟩
        simp [hfree]
      | variadicPositional =>
        obtain rfl := head.opened_eq_false (by simp [opens, hr])
        obtain ⟨rfl, rfl⟩ := hopened (by simp [opens, hr])
        refine ⟨0, 1, c, e, by simp [orderedRoles], Nat.le_refl 1, he, ?_⟩
        simp [hfree]
      | keywordOnly =>
        obtain rfl := hkeyword hr
        obtain ⟨rfl, rfl⟩ := hopened rfl
        refine ⟨0, 0, c + 1, e, by simp [orderedRoles, List.replicate_succ], hb, he, ?_⟩
        simp [hfree]
      | variadicKeyword =>
        obtain ⟨rfl, rfl, rfl, rfl⟩ := hclosed (by simp [closes, hr])
        refine ⟨0, 0, 0, 1, by simp [orderedRoles], hb, Nat.le_refl 1, ?_⟩
        simp [hfree]

end ItemOutcome

def ItemOutcome.contribution? : ItemOutcome → Option Contribution
  | mark m => some (.mark m)
  | separator => none
  | fault f => some (.finding f)

theorem Summary.foldl_take_outcomes (os : List ItemOutcome) (s : Summary) :
    (os.filterMap ItemOutcome.contribution?).foldl take s =
      { s with
        marks := s.marks ++ os.filterMap ItemOutcome.mark?
        findings := s.findings ++ os.filterMap ItemOutcome.finding? } := by
  induction os generalizing s with
  | nil => simp
  | cons o os ih =>
    cases o with
    | separator => exact ih s
    | mark | fault =>
      rw [List.filterMap_cons_some (f := ItemOutcome.contribution?) rfl, List.foldl_cons, ih]
      simp only [take, List.append_assoc]
      rfl

/-- What becomes of the items of a list, from one summary to the next. -/
structure AccountsForItems (items : List AttrArg) (s s' : Summary) (outcomes : List ItemOutcome) :
    Prop where
  sequence : ItemOutcome.Sequence false false items outcomes
  length : outcomes.length = items.length
  /-- Every mark is appended and every finding is reported; nothing else changes. -/
  taken : s' =
    { s with
      marks := s.marks ++ outcomes.filterMap ItemOutcome.mark?
      findings := s.findings ++ outcomes.filterMap ItemOutcome.finding? }
  order : InCallingOrder ((outcomes.filterMap ItemOutcome.mark?).map ArgMark.role)
  opens : outcomes.countP ItemOutcome.opens ≤ 1

theorem Attribute.accountsForItems {a : Attribute} {items : List AttrArg} (hname : a.name = "args")
    (hform : a.form = .list items) (s : Summary) :
    ∃ outcomes, AccountsForItems items s (a.contributions.foldl Summary.take s) outcomes := by
  have hsequence : ItemOutcome.Sequence false false items (readArgs items) :=
    ArgsState.sequence_readAll {} items
  obtain ⟨b, c, d, e, hroles, hc, he, -⟩ := hsequence.roles_eq
  refine ⟨readArgs items, hsequence, hsequence.length_eq, ?_, ⟨b, c, d, e, hroles, hc, he⟩,
    hsequence.countP_opens_le⟩
  rw [Attribute.contributions_of_args hname hform]
  exact Summary.foldl_take_outcomes (readArgs items) s

def argsRead? (text : String) : Option (List Role × List String) :=
  match Decl.parse text with
  | .ok d =>
      d.attrs.head?.bind fun a =>
        match a.name == "args", a.form with
        | true, .list _ =>
            let s := a.contributions.foldl Summary.take {}
            some (s.marks.map ArgMark.role, s.findings.map (·.fault.code))
        | _, _ => none
  | .error _ => none

theorem exists_of_argsRead? {text : String} {read : List Role × List String}
    (h : argsRead? text = some read) : ∃ d a items, Decl.parse text = .ok d ∧ a ∈ d.attrs ∧
      a.name = "args" ∧ a.form = .list items ∧
      (a.contributions.foldl Summary.take {}).marks.map ArgMark.role = read.1 ∧
      (a.contributions.foldl Summary.take {}).findings.map (·.fault.code) = read.2 := by
  rw [argsRead?] at h
  split at h
  · next d hd =>
    obtain ⟨a, ha, h⟩ := Option.bind_eq_some_iff.1 h
    split at h
    · next items hname hform =>
      cases h
      exact ⟨d, a, items, hd, List.mem_of_mem_head? ha, beq_iff_eq.1 hname, hform, rfl, rfl⟩
    · cases h
  · cases h

theorem Attribute.accountsForItems_of_misplaced : ∃ d a items outcomes,
    Decl.parse ("#[args(a, a::b, r#c = \"1\", \"*\", \"*\", d, v = \"*\", e = 2, f = \" \", " ++
      "k = \"**\", g, \"*\", true)] fn f();") = .ok d ∧ a ∈ d.attrs ∧ a.name = "args" ∧
      a.form = .list items ∧
      AccountsForItems items {} (a.contributions.foldl Summary.take {}) outcomes ∧
      (outcomes.filterMap ItemOutcome.mark?).map ArgMark.role =
        [.positional, .positional, .keywordOnly, .variadicKeyword] ∧
      (outcomes.filterMap ItemOutcome.finding?).map (·.fault.code) =
        ["args-item", "duplicate-separator", "varargs-after-separator", "default-type",
          "empty-default", "args-after-kwargs", "duplicate-separator", "args-item"] := by
  have hread : argsRead? ("#[args(a, a::b, r#c = \"1\", \"*\", \"*\", d, v = \"*\", e = 2, " ++
      "f = \" \", k = \"**\", g, \"*\", true)] fn f();") =
        some ([.positional, .positional, .keywordOnly, .variadicKeyword],
          ["args-item", "duplicate-separator", "varargs-after-separator", "default-type",
            "empty-default", "args-after-kwargs", "duplicate-separator", "args-item"]) := by
    decide +kernel
  obtain ⟨d, a, items, hd, ha, hname, hform, hroles, hcodes⟩ := exists_of_argsRead? hread
  obtain ⟨outcomes, h⟩ := accountsForItems hname hform {}
  rw [h.taken] at hroles hcodes
  exact ⟨d, a, items, outcomes, hd, ha, hname, hform, h, hroles, hcodes⟩

end NativeBinding
