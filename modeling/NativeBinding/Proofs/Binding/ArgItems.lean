import Mathlib.Data.List.Basic
import NativeBinding.Binding.Summary

/-!
What the items of an `args` list say. Each item but the separator names a parameter. It denotes a
role, which depends on whether a separator or a variadic positional parameter stands before it, and
may hold a default. A list without faults reads as exactly what its items say.
-/

namespace NativeBinding

def Attribute.argItems (a : Attribute) : List AttrArg :=
  match a.name, a.form with
  | "args", .list items => items
  | _, _ => []

namespace AttrArg

def starred? : AttrArg → Option String
  | .assign ⟨[name], _⟩ value _ => if value.str? = some "*" then some name else none
  | _ => none

def param? : AttrArg → Option String
  | .path ⟨[name], _⟩ | .assign ⟨[name], _⟩ _ _ => some name
  | _ => none

def text? : AttrArg → Option String
  | .assign _ value _ => value.str?
  | .path _ | .literal _ => none

def isSeparator : AttrArg → Bool
  | .literal l => l.str? == some "*"
  | .path _ | .assign .. => false

/-- Whether the items behind one are keyword-only. -/
def opensKeywords (item : AttrArg) : Bool :=
  item.isSeparator || item.starred?.isSome

def roleIf (keywordOnly : Bool) (item : AttrArg) : Role :=
  if item.text? = some "*" then .variadicPositional
  else if item.text? = some "**" then .variadicKeyword
  else if keywordOnly then .keywordOnly
  else .positional

/-- The role that an item denotes behind the items `before` of its list. -/
def roleAfter (before : List AttrArg) (item : AttrArg) : Role :=
  item.roleIf (before.any opensKeywords)

def default? (item : AttrArg) : Option String :=
  item.text?.filter fun text => text != "*" && text != "**"

theorem starred?_eq_some_iff {item : AttrArg} {name : String} :
    item.starred? = some name ↔ item.param? = some name ∧ item.text? = some "*" := by
  rcases item with ⟨segments, span⟩ | ⟨⟨segments, span⟩, value, whole⟩ | l
  · simp [starred?, text?]
  · rcases segments with _ | ⟨n, _ | ⟨m, segments⟩⟩ <;> simp [starred?, param?, text?, and_comm]
  · simp [starred?, text?]

theorem param?_of_isSeparator {item : AttrArg} (h : item.isSeparator) : item.param? = none := by
  cases item <;> simp_all [isSeparator, param?]

theorem isSeparator_of_param? {item : AttrArg} {name : String} (h : item.param? = some name) :
    item.isSeparator = false := by
  cases hsep : item.isSeparator with
  | false => rfl
  | true => simp [param?_of_isSeparator hsep] at h

theorem text?_of_roleIf {item : AttrArg} {keywordOnly : Bool}
    (h : item.roleIf keywordOnly = .variadicPositional) : item.text? = some "*" := by
  by_contra hstar
  rw [roleIf, if_neg hstar] at h
  split at h
  · cases h
  · split at h <;> cases h

theorem opensKeywords_eq_of_param? {item : AttrArg} {name : String}
    (h : item.param? = some name) : item.opensKeywords = decide (item.text? = some "*") := by
  rw [opensKeywords, isSeparator_of_param? h, Bool.false_or]
  cases hstar : item.starred? with
  | none =>
    have : item.text? ≠ some "*" := fun htext => by
      simp [starred?_eq_some_iff.2 ⟨h, htext⟩] at hstar
    simp [this]
  | some n => simp [(starred?_eq_some_iff.1 hstar).2]

end AttrArg

def ItemOutcome.mark? : ItemOutcome → Option ArgMark
  | .mark m => some m
  | .separator | .fault _ => none

namespace ArgsState

/-- What an item can be read as: a fault, or what it means. -/
inductive Means (keywordOnly : Bool) (item : AttrArg) : ItemOutcome → Prop
  | fault (f : Finding) : Means keywordOnly item (.fault f)
  | separator (h : item.isSeparator) : Means keywordOnly item .separator
  | mark (m : ArgMark) (hname : item.param? = some m.name)
      (hrole : m.role = item.roleIf keywordOnly) (hdefault : m.default? = item.default?) :
      Means keywordOnly item (.mark m)

variable {s : ArgsState} {item : AttrArg} {items : List AttrArg}

theorem Means.beforeKwargs {o : ItemOutcome} (h : Means s.keywordOnly item o) (span : Span) :
    Means s.keywordOnly item (s.beforeKwargs span o) := by
  rw [ArgsState.beforeKwargs]
  split
  · exact .fault _
  · exact h

theorem ordinary_means {name : String} {default? : Option String} {span : Span}
    (hname : item.param? = some name) (hstar : item.text? ≠ some "*")
    (hstars : item.text? ≠ some "**") (hdefault : item.default? = default?) :
    Means s.keywordOnly item (.mark ⟨name, s.ordinary default?, span⟩) := by
  refine .mark _ hname ?_ ?_
  · rw [AttrArg.roleIf, if_neg hstar, if_neg hstars, ordinary]
    split <;> rfl
  · rw [hdefault, ordinary]
    split <;> rfl

theorem read_means (s : ArgsState) (item : AttrArg) : Means s.keywordOnly item (s.read item) := by
  cases item with
  | literal l =>
    simp only [read]
    split
    · next hstar =>
      rw [readSeparator]
      split
      · exact .fault _
      · split
        · exact .fault _
        · exact Means.beforeKwargs (.separator (show (AttrArg.literal l).isSeparator from hstar)) _
    · exact .fault _
  | path p =>
    obtain ⟨segments, span⟩ := p
    simp only [read]
    split
    · next name =>
      have htext : (AttrArg.path ⟨[name], span⟩).text? = none := rfl
      exact (ordinary_means rfl (by simp [htext]) (by simp [htext]) rfl).beforeKwargs _
    · exact .fault _
  | assign p value span =>
    obtain ⟨segments, pathSpan⟩ := p
    simp only [read]
    split
    · next name =>
      rw [readAssign]
      split
      · exact .fault _
      · next text htext =>
        have hitem : (AttrArg.assign ⟨[name], pathSpan⟩ value span).text? = some text := htext
        split
        · next hstar =>
          obtain rfl := beq_iff_eq.1 hstar
          rw [readVarargs]
          split
          · exact .fault _
          · split
            · exact .fault _
            · exact Means.beforeKwargs (.mark _ rfl (by simp [AttrArg.roleIf, hitem]; rfl)
                (by simp [AttrArg.default?, hitem]; rfl)) _
        · next hstar =>
          split
          · next hstars =>
            obtain rfl := beq_iff_eq.1 hstars
            rw [readKwargs]
            split
            · exact .fault _
            · exact .mark _ rfl (by simp [AttrArg.roleIf, hitem]; rfl)
                (by simp [AttrArg.default?, hitem]; rfl)
          · next hstars =>
            rw [readDefault]
            refine Means.beforeKwargs ?_ _
            split
            · exact .fault _
            · refine ordinary_means rfl ?_ ?_ ?_
              · simpa [hitem] using hstar
              · simpa [hitem] using hstars
              · simp_all [AttrArg.default?]
    · exact .fault _

theorem mem_readAll {o : ItemOutcome} (h : o ∈ s.readAll items) :
    ∃ item ∈ items, ∃ s' : ArgsState, o = s'.read item := by
  induction items generalizing s with
  | nil => cases h
  | cons item items ih =>
    rcases List.mem_cons.1 h with rfl | h
    · exact ⟨item, List.mem_cons_self, s, rfl⟩
    · obtain ⟨item', hmem, hread⟩ := ih h
      exact ⟨item', List.mem_cons_of_mem _ hmem, hread⟩

def advance (s : ArgsState) (items : List AttrArg) : ArgsState :=
  items.foldl (fun s item => s.after (s.read item)) s

theorem readAll_append (s : ArgsState) (xs ys : List AttrArg) :
    s.readAll (xs ++ ys) = s.readAll xs ++ (s.advance xs).readAll ys := by
  induction xs generalizing s with
  | nil => rfl
  | cons x xs ih =>
    simp only [List.cons_append, readAll, ih, advance, List.foldl_cons]

theorem keywordOnly_after (h : ∀ f, s.read item ≠ .fault f) :
    (s.after (s.read item)).keywordOnly = (s.keywordOnly || item.opensKeywords) := by
  have hmeans := s.read_means item
  generalize s.read item = o at h hmeans
  cases hmeans with
  | fault f => exact absurd rfl (h f)
  | separator hsep => simp [after, keywordOnly, AttrArg.opensKeywords, hsep]
  | mark m hname hrole hdefault =>
    rw [AttrArg.opensKeywords_eq_of_param? hname]
    by_cases hstar : item.text? = some "*"
    · rw [AttrArg.roleIf, if_pos hstar] at hrole
      cases hform : m.form <;> simp_all [ArgMark.role, after, keywordOnly]
    · have hne : m.role ≠ .variadicPositional := fun hvariadic =>
        hstar (AttrArg.text?_of_roleIf (hrole ▸ hvariadic))
      cases hform : m.form <;> simp_all [ArgMark.role, after, keywordOnly]

theorem keywordOnly_advance (h : ∀ f, .fault f ∉ s.readAll items) :
    (s.advance items).keywordOnly = (s.keywordOnly || items.any AttrArg.opensKeywords) := by
  induction items generalizing s with
  | nil => simp [advance]
  | cons item items ih =>
    simp only [readAll, List.mem_cons, not_or] at h
    rw [advance, List.foldl_cons, ← advance, ih fun f => (h f).2,
      keywordOnly_after fun f hf => (h f).1 hf.symm, List.any_cons, Bool.or_assoc]

theorem names_readAll (h : ∀ f, .fault f ∉ s.readAll items) :
    ((s.readAll items).filterMap ItemOutcome.mark?).map ArgMark.name =
      items.filterMap AttrArg.param? := by
  induction items generalizing s with
  | nil => rfl
  | cons item items ih =>
    simp only [readAll, List.mem_cons, not_or] at h
    have hrest := ih fun f => (h f).2
    have hmeans := s.read_means item
    have hitem : ∀ f, s.read item ≠ .fault f := fun f hf => (h f).1 hf.symm
    rw [readAll]
    generalize s.read item = o at hrest hmeans hitem
    cases hmeans with
    | fault f => exact absurd rfl (hitem f)
    | separator hsep =>
      rw [List.filterMap_cons_none rfl, hrest,
        List.filterMap_cons_none (AttrArg.param?_of_isSeparator hsep)]
    | mark m hname hrole hdefault =>
      rw [List.filterMap_cons_some (f := ItemOutcome.mark?) rfl, List.map_cons, hrest,
        List.filterMap_cons_some hname]

theorem exists_mark_of_split {before after : List AttrArg}
    (h : ∀ f, .fault f ∉ s.readAll (before ++ item :: after)) (hsep : item.isSeparator = false) :
    ∃ m, .mark m ∈ s.readAll (before ++ item :: after) ∧ item.param? = some m.name ∧
      m.role = item.roleIf (s.keywordOnly || before.any AttrArg.opensKeywords) ∧
      m.default? = item.default? := by
  rw [readAll_append, readAll] at h ⊢
  have hbefore : ∀ f, .fault f ∉ s.readAll before := fun f hf => h f (List.mem_append_left _ hf)
  have hmeans := (s.advance before).read_means item
  rw [keywordOnly_advance hbefore] at hmeans
  generalize (s.advance before).read item = o at h hmeans
  cases hmeans with
  | fault f => exact absurd (List.mem_append_right _ List.mem_cons_self) (h f)
  | separator hseparator => simp [hseparator] at hsep
  | mark m hname hrole hdefault =>
    exact ⟨m, List.mem_append_right _ List.mem_cons_self, hname, hrole, hdefault⟩

end ArgsState

end NativeBinding
