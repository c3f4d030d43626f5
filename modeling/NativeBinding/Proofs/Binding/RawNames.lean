import Mathlib.Data.List.Forall2
import NativeBinding.Proofs.Binding.MarkTable
import NativeBinding.Proofs.Binding.PropertyNames

/-!
Raw marks of names. It makes no difference to the binding of a function whether its name, its
parameters, the items of its `args` lists and the names in its other attributes are written raw.
Every stage compares and passes on names without their mark, so two runs are followed here that
agree up to the spelling of names, and in their findings up to the names that these quote.
-/

namespace NativeBinding

open Grammar (IsIdent IsName)

def IsRaw (name : String) : Prop :=
  ['r', '#'] <+: name.toList

instance : DecidablePred IsRaw :=
  fun name => inferInstanceAs (Decidable (['r', '#'] <+: name.toList))

inductive Respelled : String → String → Prop
  | same (name : String) : Respelled name name
  | marked {name : String} (h : ¬ IsRaw name) : Respelled name ("r#" ++ name)
  | unmarked {name : String} (h : ¬ IsRaw name) : Respelled ("r#" ++ name) name

theorem unraw_mark (name : String) : unraw ("r#" ++ name) = name := by
  simp [unraw]

theorem unraw_of_not_isRaw {name : String} (h : ¬ IsRaw name) : unraw name = name := by
  rw [unraw]
  split
  · next rest heq => exact absurd ⟨rest, heq.symm⟩ h
  · rfl

theorem Respelled.unraw_eq {n n' : String} (h : Respelled n n') : unraw n = unraw n' := by
  cases h with
  | same => rfl
  | marked h => rw [unraw_mark, unraw_of_not_isRaw h]
  | unmarked h => rw [unraw_mark, unraw_of_not_isRaw h]

theorem toList_eq_unraw (n : String) :
    n.toList = (unraw n).toList ∨ n.toList = 'r' :: '#' :: (unraw n).toList := by
  by_cases h : IsRaw n
  · obtain ⟨rest, hrest⟩ := h
    exact .inr (by simp [unraw, ← hrest])
  · exact .inl (by rw [unraw_of_not_isRaw h])

theorem isPropertyName_iff_unraw {n : String} : isPropertyName n ↔
    ∃ w, IsName w ∧ ((unraw n).toList = w ∨ (unraw n).toList = w ++ ['\n']) := by
  constructor
  · intro h
    obtain ⟨w, hw, htext⟩ := unraw_of_isPropertyName h
    refine ⟨w, hw, ?_⟩
    split at htext
    · exact .inr htext
    · exact .inl htext
  · rintro ⟨w, hw, htext⟩
    have hraw : IsIdent ('r' :: '#' :: w) := .inr ⟨w, rfl, hw⟩
    rw [isPropertyName_iff]
    rcases toList_eq_unraw n with hn | hn <;> rcases htext with htext | htext <;> rw [hn, htext]
    · exact .inl (.inl hw)
    · exact .inr ⟨w, .inl hw, rfl⟩
    · exact .inl hraw
    · exact .inr ⟨_, hraw, rfl⟩

theorem isPropertyName_congr {n n' : String} (h : unraw n = unraw n') :
    isPropertyName n = isPropertyName n' := by
  rw [Bool.eq_iff_iff, isPropertyName_iff_unraw, isPropertyName_iff_unraw, h]

/-- Spellings of an argument in the list of an attribute: the name of an `args` item, the name in
`getter` and `setter`, and the text of `name = "..."` in `export`. -/
inductive AttrArg.Respelled (tag : String) : AttrArg → AttrArg → Prop
  | same (arg : AttrArg) : Respelled tag arg arg
  | path {n n' : String} (htag : tag ∈ ["args", "getter", "setter"])
      (h : NativeBinding.Respelled n n') (span : Span) :
      Respelled tag (.path ⟨[n], span⟩) (.path ⟨[n'], span⟩)
  | item {n n' : String} (htag : tag = "args") (h : NativeBinding.Respelled n n') (span : Span)
      (value : Literal) (whole : Span) :
      Respelled tag (.assign ⟨[n], span⟩ value whole) (.assign ⟨[n'], span⟩ value whole)
  | text {n n' : String} (htag : tag ∈ ["getter", "setter"]) (h : NativeBinding.Respelled n n')
      (span : Span) : Respelled tag (.literal ⟨.str n, span⟩) (.literal ⟨.str n', span⟩)
  | option {n n' : String} (htag : tag = "export") (h : NativeBinding.Respelled n n')
      (span valueSpan whole : Span) :
      Respelled tag (.assign ⟨["name"], span⟩ ⟨.str n, valueSpan⟩ whole)
        (.assign ⟨["name"], span⟩ ⟨.str n', valueSpan⟩ whole)

inductive Attribute.Respelled : Attribute → Attribute → Prop
  | same (a : Attribute) : Respelled a a
  | list {path : AttrPath} {args args' : List AttrArg} (inner : Bool) (span : Span)
      (h : List.Forall₂ (AttrArg.Respelled path.text) args args') :
      Respelled ⟨path, .list args, inner, span⟩ ⟨path, .list args', inner, span⟩

inductive Param.Respelled : Param → Param → Prop
  | same (p : Param) : Respelled p p
  | typed {n n' : String} (h : NativeBinding.Respelled n n') (mutable : Bool) (type : TypeExpr)
      (attrs : List Attribute) (span : Span) :
      Respelled (.typed ⟨.name n mutable, type, attrs, span⟩)
        (.typed ⟨.name n' mutable, type, attrs, span⟩)

/-- Two spellings of a function. Each name is written as it likes. -/
structure FnDecl.Respelled (d d' : FnDecl) : Prop where
  name : NativeBinding.Respelled d.name d'.name
  params : List.Forall₂ Param.Respelled d.params d'.params
  attrs : List.Forall₂ Attribute.Respelled d.attrs d'.attrs
  eq : d' = { d with name := d'.name, params := d'.params, attrs := d'.attrs }

def codes (fs : List Finding) : List String :=
  fs.map (·.fault.code)

theorem isSome_cases {α : Type} {o o' : Option α} (h : o.isSome = o'.isSome) :
    (o = none ∧ o' = none) ∨ ∃ a a', o = some a ∧ o' = some a' := by
  cases o <;> cases o' <;> simp_all

structure ArgMark.Agrees (m m' : ArgMark) : Prop where
  name : unraw m.name = unraw m'.name
  form : m.form = m'.form
  span : m.span = m'.span

inductive ItemOutcome.Agrees : ItemOutcome → ItemOutcome → Prop
  | mark {m m' : ArgMark} (h : m.Agrees m') : Agrees (.mark m) (.mark m')
  | separator : Agrees .separator .separator
  | fault {f f' : Finding} (h : f.fault.code = f'.fault.code) : Agrees (.fault f) (.fault f')

namespace ArgsState

structure Agrees (s s' : ArgsState) : Prop where
  separator : s.separator = s'.separator
  varargs : s.varargs.isSome = s'.varargs.isSome
  kwargs : s.kwargs.isSome = s'.kwargs.isSome

namespace Agrees

variable {s s' : ArgsState} {n n' : String} (h : s.Agrees s') (hn : unraw n = unraw n')
  (span : Span)
include h

theorem beforeKwargs {o o' : ItemOutcome} (ho : o.Agrees o') :
    (s.beforeKwargs span o).Agrees (s'.beforeKwargs span o') := by
  rcases isSome_cases h.kwargs with ⟨hs, hs'⟩ | ⟨k, k', hs, hs'⟩
  · simpa only [ArgsState.beforeKwargs, hs, hs'] using ho
  · simp only [ArgsState.beforeKwargs, hs, hs']
    exact .fault rfl

theorem ordinary (default? : Option String) : s.ordinary default? = s'.ordinary default? := by
  rw [ArgsState.ordinary, ArgsState.ordinary, keywordOnly, keywordOnly, h.separator, h.varargs]

theorem readSeparator : (s.readSeparator span).Agrees (s'.readSeparator span) := by
  rw [ArgsState.readSeparator, ArgsState.readSeparator, h.separator]
  split
  · exact .fault rfl
  · rcases isSome_cases h.varargs with ⟨hs, hs'⟩ | ⟨v, v', hs, hs'⟩
    · simpa only [hs, hs'] using h.beforeKwargs span .separator
    · simp only [hs, hs']
      exact .fault rfl

include hn

theorem readVarargs : (s.readVarargs n span).Agrees (s'.readVarargs n' span) := by
  rcases isSome_cases h.varargs with ⟨hs, hs'⟩ | ⟨v, v', hs, hs'⟩
  · simp only [ArgsState.readVarargs, hs, hs', h.separator]
    split
    · exact .fault rfl
    · exact h.beforeKwargs span (.mark ⟨hn, rfl, rfl⟩)
  · simp only [ArgsState.readVarargs, hs, hs']
    exact .fault rfl

theorem readKwargs : (s.readKwargs n span).Agrees (s'.readKwargs n' span) := by
  rcases isSome_cases h.kwargs with ⟨hs, hs'⟩ | ⟨k, k', hs, hs'⟩
  · simp only [ArgsState.readKwargs, hs, hs']
    exact .mark ⟨hn, rfl, rfl⟩
  · simp only [ArgsState.readKwargs, hs, hs']
    exact .fault rfl

theorem readAssign (value : Literal) :
    (s.readAssign n value span).Agrees (s'.readAssign n' value span) := by
  rw [ArgsState.readAssign, ArgsState.readAssign]
  split
  · exact .fault rfl
  · split
    · exact h.readVarargs hn span
    · split
      · exact h.readKwargs hn span
      · refine h.beforeKwargs span ?_
        split
        · exact .fault rfl
        · exact .mark ⟨hn, h.ordinary _, rfl⟩

theorem readPath : (s.read (.path ⟨[n], span⟩)).Agrees (s'.read (.path ⟨[n'], span⟩)) :=
  h.beforeKwargs span (.mark ⟨hn, h.ordinary none, rfl⟩)

omit hn

theorem read {item item' : AttrArg} (hitem : AttrArg.Respelled "args" item item') :
    (s.read item).Agrees (s'.read item') := by
  cases hitem with
  | same =>
    rcases item with ⟨segments, span⟩ | ⟨⟨segments, span⟩, value, whole⟩ | l
    · rcases segments with _ | ⟨n, _ | ⟨m, segments⟩⟩
      · exact .fault rfl
      · exact h.readPath rfl span
      · exact .fault rfl
    · rcases segments with _ | ⟨n, _ | ⟨m, segments⟩⟩
      · exact .fault rfl
      · exact h.readAssign rfl whole value
      · exact .fault rfl
    · rw [ArgsState.read, ArgsState.read]
      split
      · exact h.readSeparator l.span
      · exact .fault rfl
  | path _ hn span => exact h.readPath hn.unraw_eq span
  | item _ hn span value whole => exact h.readAssign hn.unraw_eq whole value
  | text htag => exact absurd htag (by decide)
  | option htag => exact absurd htag (by decide)

theorem after {o o' : ItemOutcome} (ho : o.Agrees o') : (s.after o).Agrees (s'.after o') := by
  cases ho with
  | separator => exact ⟨rfl, h.varargs, h.kwargs⟩
  | fault => exact h
  | mark hm =>
    rw [ArgsState.after, ArgsState.after, hm.form]
    split
    · exact ⟨h.separator, rfl, h.kwargs⟩
    · exact ⟨h.separator, h.varargs, rfl⟩
    · exact h
    · exact h

theorem readAll {items items' : List AttrArg}
    (hitems : List.Forall₂ (AttrArg.Respelled "args") items items') :
    List.Forall₂ ItemOutcome.Agrees (s.readAll items) (s'.readAll items') := by
  induction hitems generalizing s s' with
  | nil => exact .nil
  | cons hitem _ ih => exact .cons (h.read hitem) (ih (h.after (h.read hitem)))

end Agrees

end ArgsState

inductive Contribution.Agrees : Contribution → Contribution → Prop
  | same (c : Contribution) : Agrees c c
  | name {n n' : String} (h : unraw n = unraw n') (span : Span) :
      Agrees (.name n span) (.name n' span)
  | mark {m m' : ArgMark} (h : m.Agrees m') : Agrees (.mark m) (.mark m')
  | finding {f f' : Finding} (h : f.fault.code = f'.fault.code) : Agrees (.finding f) (.finding f')

namespace Attribute

variable {args args' : List AttrArg}

theorem agrees_argsContributions (h : List.Forall₂ (AttrArg.Respelled "args") args args') :
    List.Forall₂ Contribution.Agrees (argsContributions args) (argsContributions args') := by
  have hread : List.Forall₂ ItemOutcome.Agrees (readArgs args) (readArgs args') :=
    ArgsState.Agrees.readAll ⟨rfl, rfl, rfl⟩ h
  refine List.rel_filterMap (fun o o' ho => ?_) hread
  cases ho with
  | mark hm => exact .some (.mark hm)
  | separator => exact .none
  | fault hf => exact .some (.finding hf)

theorem agrees_exportOption {arg arg' : AttrArg} (h : AttrArg.Respelled "export" arg arg') :
    (exportOption arg).Agrees (exportOption arg') := by
  cases h with
  | same => exact .same _
  | option _ hn span valueSpan whole => exact .name hn.unraw_eq whole
  | path htag | item htag | text htag => exact absurd htag (by decide)

theorem agrees_propertyName {tag : String} (htag : tag = "getter" ∨ tag = "setter")
    {a a' : Attribute} (hspan : a.span = a'.span)
    (h : List.Forall₂ (AttrArg.Respelled tag) args args') :
    (a.propertyName args).Agrees (a'.propertyName args') := by
  have hcount : (Contribution.fail .propertyNameCount a.span).Agrees
      (.fail .propertyNameCount a'.span) := .finding rfl
  have hsame (args : List AttrArg) : a.propertyName args = a'.propertyName args := by
    rw [propertyName.eq_def, propertyName.eq_def, hspan]
  cases h with
  | nil => exact hcount
  | cons harg hrest =>
    cases hrest with
    | cons => simpa [propertyName] using hcount
    | nil =>
      cases harg with
      | same =>
        rw [hsame]
        exact .same _
      | path _ hn span => exact .name hn.unraw_eq span
      | text _ hn span =>
        simp only [propertyName, Literal.str?, isPropertyName_congr hn.unraw_eq]
        split
        · exact .name hn.unraw_eq span
        · exact .finding rfl
      | item hargs | option hargs => rcases htag with rfl | rfl <;> exact absurd hargs (by decide)

/-- The lists of other attributes hold no name that can be respelled. -/
theorem eq_of_respelled {tag : String} (htag : tag ∉ ["args", "getter", "setter", "export"])
    (h : List.Forall₂ (AttrArg.Respelled tag) args args') : args = args' := by
  rw [← List.forall₂_eq_eq_eq]
  refine h.imp fun arg arg' harg => ?_
  cases harg with
  | same => rfl
  | path hmem | text hmem => exact absurd hmem (by simp_all)
  | item hmem | option hmem => exact absurd hmem (by rintro rfl; simp at htag)

theorem Respelled.contributions {a a' : Attribute} (h : a.Respelled a') :
    List.Forall₂ Contribution.Agrees a.contributions a'.contributions := by
  have hsame (cs : List Contribution) : List.Forall₂ Contribution.Agrees cs cs :=
    List.forall₂_same.2 fun c _ => .same c
  cases h with
  | same => exact hsame _
  | @list path args args' inner span hargs =>
    let a (args : List AttrArg) : Attribute := ⟨path, .list args, inner, span⟩
    change List.Forall₂ _ (a args).contributions (a args').contributions
    have hname (args : List AttrArg) : (a args).name = path.text := rfl
    by_cases hitems : path.text = "args"
    · rw [contributions_of_args ((hname args).trans hitems) rfl,
        contributions_of_args ((hname args').trans hitems) rfl]
      exact agrees_argsContributions (hitems ▸ hargs)
    · by_cases hexport : path.text = "export"
      · rw [contributions_of_export ((hname args).trans hexport) rfl,
          contributions_of_export ((hname args').trans hexport) rfl]
        exact List.rel_map (fun _ _ harg => agrees_exportOption harg) (hexport ▸ hargs)
      · by_cases htag : path.text = "getter" ∨ path.text = "setter"
        · obtain ⟨kind, hkind⟩ := exists_contributions_of_property htag
          rw [hkind (hname args) rfl, hkind (hname args') rfl]
          exact List.rel_append (hsame _)
            (.cons (.same _) (.cons (agrees_propertyName htag rfl hargs) .nil))
        · rw [eq_of_respelled (by simp_all) hargs]
          exact hsame _

end Attribute

def bareName (n : String × Span) : String × Span :=
  (unraw n.1, n.2)

namespace Summary

/-- One summary, up to the spelling of names and the names that findings quote. -/
structure Agrees (s s' : Summary) : Prop where
  kind : s.kind = s'.kind
  name : s.name.map bareName = s'.name.map bareName
  marks : List.Forall₂ ArgMark.Agrees s.marks s'.marks
  signature : s.signature = s'.signature
  docLines : s.docLines = s'.docLines
  deprecations : s.deprecations = s'.deprecations
  findings : codes s.findings = codes s'.findings

namespace Agrees

variable {s s' : Summary} (h : s.Agrees s')
include h

theorem name_cases : (s.name = none ∧ s'.name = none) ∨
    ∃ n n' span, s.name = some (n, span) ∧ s'.name = some (n', span) := by
  rcases isSome_cases (by simpa using congrArg Option.isSome h.name) with hnone | ⟨n, n', hs, hs'⟩
  · exact .inl hnone
  · have hbare : bareName n = bareName n' := by simpa [hs, hs'] using h.name
    refine .inr ⟨n.1, n'.1, n.2, hs, ?_⟩
    rw [hs', (Prod.mk.inj hbare).2]

theorem report {f f' : Fault} (hcode : f.code = f'.code) (span span' : Span) :
    (s.report f span).Agrees (s'.report f' span') :=
  { h with findings := by simpa [codes, Summary.report, hcode] using h.findings }

theorem take_name {n n' : String} (hn : unraw n = unraw n') (span : Span) :
    (s.take (.name n span)).Agrees (s'.take (.name n' span)) := by
  rcases h.name_cases with ⟨hs, hs'⟩ | ⟨m, m', first, hs, hs'⟩
  · simp only [take, hs, hs']
    exact { h with name := by simp [bareName, hn] }
  · simp only [take, hs, hs']
    exact h.report rfl span span

theorem take_finding {f f' : Finding} (hcode : f.fault.code = f'.fault.code) :
    (s.take (.finding f)).Agrees (s'.take (.finding f')) :=
  { h with findings := by simpa [codes, take, hcode] using h.findings }

theorem take {c c' : Contribution} (hc : c.Agrees c') : (s.take c).Agrees (s'.take c') := by
  cases hc with
  | name hn span => exact h.take_name hn span
  | finding hcode => exact h.take_finding hcode
  | mark hm => exact { h with marks := List.rel_append h.marks (.cons hm .nil) }
  | same =>
    cases c with
    | name n span => exact h.take_name rfl span
    | finding f => exact h.take_finding rfl
    | mark m => exact { h with marks := List.rel_append h.marks (.cons ⟨rfl, rfl, rfl⟩ .nil) }
    | kind kind span =>
      simp only [Summary.take, h.kind]
      split
      · exact h.report rfl span span
      · exact { h with kind := rfl }
    | signature request span =>
      simp only [Summary.take, h.signature]
      split
      · exact h.report rfl span span
      · exact { h with signature := rfl }
      · exact h.report rfl span span
    | docLine line => exact { h with docLines := congrArg (· ++ [line]) h.docLines }
    | deprecation notice => exact { h with deprecations := congrArg (· ++ [notice]) h.deprecations }
    | passthrough a => exact { h with }

theorem checkName : s.checkName.Agrees s'.checkName := by
  rcases h.name_cases with ⟨hs, hs'⟩ | ⟨n, n', span, hs, hs'⟩
  · simpa [Summary.checkName, hs, hs'] using h
  · cases hkind : s'.kind with
    | none => simpa only [Summary.checkName, hs, hs', h.kind, hkind] using h
    | some kind =>
      simp only [Summary.checkName, hs, hs', h.kind, hkind]
      split
      · exact h.report rfl span span
      · exact h

end Agrees

theorem agrees_ofAttributes {attrs attrs' : List Attribute}
    (h : List.Forall₂ Attribute.Respelled attrs attrs') :
    (ofAttributes attrs).Agrees (ofAttributes attrs') := by
  have hstart : Agrees {} {} := ⟨rfl, rfl, .nil, rfl, rfl, rfl, rfl⟩
  have hcontributions := List.rel_flatMap h fun _ _ ha => Attribute.Respelled.contributions ha
  exact (List.rel_foldl (fun _ _ hs _ _ hc => hs.take hc) hstart hcontributions).checkName

end Summary

theorem ArgMark.role_congr {m m' : ArgMark} (h : m.form = m'.form) : m.role = m'.role := by
  rw [role, role, h]

theorem ArgMark.default?_congr {m m' : ArgMark} (h : m.form = m'.form) :
    m.default? = m'.default? := by
  rw [default?, default?, h]

theorem ArgMark.code_conflict {first first' later later' : ArgMark} (h : first.form = first'.form)
    (hlater : later.form = later'.form) :
    (first.conflict later).code = (first'.conflict later').code := by
  rw [conflict, conflict, role_congr h, role_congr hlater, default?_congr h, default?_congr hlater]
  split
  · rfl
  · split <;> rfl

namespace MarkTable

def Agrees (t t' : MarkTable) : Prop :=
  ∀ key, (t.entries.lookup key).map ArgMark.form = (t'.entries.lookup key).map ArgMark.form

namespace Agrees

variable {t t' : MarkTable} (h : t.Agrees t')
include h

theorem lookup_cases (key : String) :
    (t.entries.lookup key = none ∧ t'.entries.lookup key = none) ∨
      ∃ m m', t.entries.lookup key = some m ∧ t'.entries.lookup key = some m' ∧
        m.form = m'.form := by
  have hkey := h key
  rcases isSome_cases (by simpa using congrArg Option.isSome hkey) with hnone | ⟨m, m', hm, hm'⟩
  · exact .inl hnone
  · exact .inr ⟨m, m', hm, hm', by simpa [hm, hm'] using hkey⟩

theorem contains (name : String) : t.contains name = t'.contains name := by
  rcases h.lookup_cases (unraw name) with ⟨hm, hm'⟩ | ⟨m, m', hm, hm', -⟩ <;>
    simp [MarkTable.contains, find?, hm, hm']

theorem roleOf (name : String) : t.roleOf name = t'.roleOf name := by
  rcases h.lookup_cases (unraw name) with ⟨hm, hm'⟩ | ⟨m, m', hm, hm', hform⟩
  · simp [MarkTable.roleOf, find?, hm, hm']
  · simp [MarkTable.roleOf, find?, hm, hm', ArgMark.role_congr hform]

theorem defaultOf (name : String) : t.defaultOf name = t'.defaultOf name := by
  rcases h.lookup_cases (unraw name) with ⟨hm, hm'⟩ | ⟨m, m', hm, hm', hform⟩
  · simp [MarkTable.defaultOf, find?, hm, hm']
  · simp [MarkTable.defaultOf, find?, hm, hm', ArgMark.default?_congr hform]

variable (known : List String) (receiver receiver' : Option String)

theorem add {m m' : ArgMark} (hm : m.Agrees m') :
    (t.add known receiver m).1.Agrees (t'.add known receiver' m').1 ∧
      codes (t.add known receiver m).2 = codes (t'.add known receiver' m').2 := by
  -- Known names and keys carry no raw mark, so both tables refuse a mark or both enter it.
  simp only [MarkTable.add, hm.name]
  split
  · exact ⟨h, rfl⟩
  · rcases h.lookup_cases (unraw m'.name) with ⟨hs, hs'⟩ | ⟨first, first', hs, hs', hform⟩
    · simp only [hs, hs']
      refine ⟨fun key => ?_, trivial⟩
      rw [lookup_append_single, lookup_append_single]
      rcases h.lookup_cases key with ⟨hk, hk'⟩ | ⟨k, k', hk, hk', hkey⟩
      · rw [hk, hk']
        split <;> simp [hm.form]
      · simpa [hk, hk'] using hkey
    · simp only [hs, hs']
      exact ⟨h, congrArg (fun code => [code]) (ArgMark.code_conflict hform hm.form)⟩

theorem addAll {ms ms' : List ArgMark} (hms : List.Forall₂ ArgMark.Agrees ms ms') :
    (t.addAll known receiver ms).1.Agrees (t'.addAll known receiver' ms').1 ∧
      codes (t.addAll known receiver ms).2 = codes (t'.addAll known receiver' ms').2 := by
  induction hms generalizing t t' with
  | nil => exact ⟨h, rfl⟩
  | cons hm _ ih =>
    obtain ⟨htable, hadd⟩ := h.add known receiver receiver' hm
    obtain ⟨hrest, hcodes⟩ := ih htable
    refine ⟨hrest, ?_⟩
    simp only [MarkTable.addAll, codes, List.map_append] at hadd hcodes ⊢
    rw [hadd, hcodes]

end Agrees

end MarkTable

theorem filterMap_eq_of_forall₂ {α β : Type} {R : α → α → Prop} {g : α → Option β}
    (hg : ∀ {a a'}, R a a' → g a = g a') {l l' : List α} (h : List.Forall₂ R l l') :
    l.filterMap g = l'.filterMap g := by
  induction h with
  | nil => rfl
  | cons ha _ ih => rw [List.filterMap_cons, List.filterMap_cons, hg ha, ih]

structure NamedAgrees (named named' : String × TypedParam) : Prop where
  name : unraw named.1 = unraw named'.1
  type : named.2.type = named'.2.type
  span : named.2.span = named'.2.span

theorem NamedAgrees.planParam_eq {named named' : String × TypedParam} (h : NamedAgrees named named')
    {table table' : MarkTable} (htable : table.Agrees table') (types : List String) :
    planParam types table named = planParam types table' named' := by
  simp only [planParam, h.name, h.type, h.span, htable.roleOf, htable.defaultOf]

theorem MarkTable.Agrees.contextFindings_eq {table table' : MarkTable} (h : table.Agrees table')
    (params : List PlannedParam) :
    contextFindings table params = contextFindings table' params := by
  simp only [contextFindings, h.contains]

namespace Param.Respelled

section

variable {p p' : Param} (h : p.Respelled p')
include h

theorem span_eq : p.span = p'.span := by
  cases h <;> rfl

theorem isSelf_eq : p.isSelf = p'.isSelf := by
  cases h <;> rfl

theorem ofFirst_eq (label : String) (span : Option Span) (selfType : Option String)
    (policy : ReceiverPolicy) : Resolution.ofFirst label span selfType policy (some p) =
      Resolution.ofFirst label span selfType policy (some p') := by
  cases h with
  | same => rfl
  | typed => cases policy <;> rfl

end

variable {ps ps' : List Param} (h : List.Forall₂ Param.Respelled ps ps')
include h

theorem tail : List.Forall₂ Param.Respelled ps.tail ps'.tail := by
  simpa only [List.drop_one] using List.forall₂_drop 1 h

theorem span_head_eq : ps.head?.map span = ps'.head?.map span := by
  cases h with
  | nil => rfl
  | cons hp _ => exact congrArg some hp.span_eq

theorem strayReceivers_eq : strayReceivers ps = strayReceivers ps' := by
  have hfilter {qs qs' : List Param} (h : List.Forall₂ Param.Respelled qs qs') :
      (qs.filter isSelf).map span = (qs'.filter isSelf).map span := by
    induction h with
    | nil => rfl
    | cons hq _ ih =>
      simp only [List.filter_cons, hq.isSelf_eq]
      split <;> simp [hq.span_eq, ih]
  have hspans := congrArg (List.map (Finding.mk .unexpectedReceiver)) (hfilter (tail h))
  rw [List.map_map, List.map_map] at hspans
  exact hspans

theorem resolve_eq (kind : Dispatch) (span : Option Span) (selfType : Option String) :
    kind.resolve ps span selfType = kind.resolve ps' span selfType := by
  rw [Dispatch.resolve, Dispatch.resolve, strayReceivers_eq h]
  cases h with
  | nil => rfl
  | cons hp _ => simp only [List.head?_cons, hp.ofFirst_eq]

theorem implArgumentFindings_eq : implArgumentFindings ps = implArgumentFindings ps' :=
  filterMap_eq_of_forall₂ (fun hp => by cases hp <;> rfl) h

theorem patternFindings_eq : patternFindings ps = patternFindings ps' :=
  filterMap_eq_of_forall₂ (fun hp => by cases hp <;> rfl) h

theorem namedParams_agree : List.Forall₂ NamedAgrees (namedParams ps) (namedParams ps') := by
  refine List.rel_filterMap (fun p p' hp => ?_) h
  cases hp with
  | typed hn => exact .some ⟨hn.unraw_eq, rfl, rfl⟩
  | same =>
    cases p with
    | self => exact .none
    | typed p =>
      cases hname : p.name? with
      | none => simpa only [hname] using .none
      | some n => simpa only [hname] using .some ⟨rfl, rfl, rfl⟩

end Param.Respelled

theorem externalName_congr {given given' : Option String} (h : given.map unraw = given'.map unraw)
    (rules : DispatchRules) (native : String) :
    externalName rules given native = externalName rules given' native := by
  cases given <;> cases given' <;> cases hname : rules.name <;> simp_all [externalName]

theorem Summary.Agrees.textsOf_eq {s s' : Summary} (h : s.Agrees s') {d d' : Decl}
    (hname : unraw d.name = unraw d'.name) (hnameSpan : d.nameSpan = d'.nameSpan)
    (hspan : d.span = d'.span) (rules : DispatchRules) (params : List PlannedParam) :
    textsOf rules s d params = textsOf rules s' d' params := by
  have hgiven : (s.name.map (·.1)).map unraw = (s'.name.map (·.1)).map unraw := by
    have hbare := congrArg (Option.map Prod.fst) h.name
    rw [Option.map_map, Option.map_map] at hbare ⊢
    exact hbare
  have hgivenSpan : s.name.map (·.2) = s'.name.map (·.2) := by
    have hbare := congrArg (Option.map Prod.snd) h.name
    rw [Option.map_map, Option.map_map] at hbare
    exact hbare
  simp only [textsOf, hname, hnameSpan, hspan, h.signature, h.docLines, hgivenSpan,
    externalName_congr hgiven]

namespace FnDecl.Respelled

variable {d d' : FnDecl} (h : d.Respelled d')
include h

theorem summary : d.summary.Agrees d'.summary :=
  Summary.agrees_ofAttributes h.attrs

theorem dispatch_eq : d.summary.dispatch = d'.summary.dispatch := by
  rw [Summary.dispatch, Summary.dispatch, h.summary.kind]

theorem resolution_eq : d.resolution = d'.resolution := by
  have hspan : d'.span = d.span := by rw [h.eq]
  have hblock : d'.selfType? = d.selfType? := by rw [h.eq]; rfl
  rw [FnDecl.resolution, FnDecl.resolution, h.dispatch_eq, hspan, hblock,
    Param.Respelled.resolve_eq h.params]

theorem rest : List.Forall₂ Param.Respelled d.rest d'.rest := by
  rw [FnDecl.rest, FnDecl.rest, h.resolution_eq]
  split
  · exact Param.Respelled.tail h.params
  · exact h.params

theorem marking : d.marking.1.Agrees d'.marking.1 ∧ codes d.marking.2 = codes d'.marking.2 := by
  have hnames : ((namedParams d.rest).map (·.1)).map unraw =
      ((namedParams d'.rest).map (·.1)).map unraw := by
    rw [List.map_map, List.map_map, ← List.forall₂_eq_eq_eq]
    exact List.rel_map (fun _ _ hn => hn.name) (Param.Respelled.namedParams_agree h.rest)
  -- The receivers may be spelled differently, which only the note of a finding shows.
  rw [FnDecl.marking, FnDecl.marking, MarkTable.build, MarkTable.build, hnames]
  exact MarkTable.Agrees.addAll (fun _ => rfl) _ _ _ h.summary.marks

theorem planned_eq (types : List String) : d.planned types = d'.planned types := by
  rw [FnDecl.planned, FnDecl.planned, ← List.forall₂_eq_eq_eq]
  exact List.rel_map (fun _ _ hn => hn.planParam_eq h.marking.1 types)
    (Param.Respelled.namedParams_agree h.rest)

theorem texts_eq (types : List String) : d.texts types = d'.texts types := by
  have hnameSpan : d'.nameSpan = d.nameSpan := by rw [h.eq]
  have hspan : d'.span = d.span := by rw [h.eq]
  rw [FnDecl.texts, FnDecl.texts, FnDecl.passed, FnDecl.passed, h.dispatch_eq, h.planned_eq]
  have hname : unraw (Decl.fn d).name = unraw (Decl.fn d').name := h.name.unraw_eq
  exact h.summary.textsOf_eq hname hnameSpan.symm hspan.symm _ _

theorem surplusFindings_eq : d.surplusFindings = d'.surplusFindings := by
  have hfinding := congrArg (Option.map (Finding.mk .classAttributeArguments))
    (Param.Respelled.span_head_eq h.rest)
  rw [Option.map_map, Option.map_map] at hfinding
  rw [FnDecl.surplusFindings, FnDecl.surplusFindings, h.dispatch_eq]
  split
  · rfl
  · exact congrArg Option.toList hfinding

theorem plan_eq (types : List String) :
    d'.plan types = { d.plan types with nativeName := d'.name } := by
  have hresult : d'.result = d.result := by rw [h.eq]
  have hspan : d'.span = d.span := by rw [h.eq]
  rw [FnDecl.plan, FnDecl.plan, h.dispatch_eq, h.resolution_eq, h.texts_eq, h.planned_eq,
    h.summary.deprecations, hresult, hspan]

end FnDecl.Respelled

theorem Verdict.codes_of (plan : CallPlan) (fs : List Finding) :
    (Verdict.of plan fs).diagnostics.map (·.code) = (codes fs).map some := by
  cases fs <;> simp [Verdict.of, diagnostics, findings, codes, Finding.diagnostic]

theorem Verdict.state_of (plan : CallPlan) (fs : List Finding) :
    (Verdict.of plan fs).state = if codes fs = [] then "ASSEMBLED" else "REJECTED" := by
  cases fs <;> simp [Verdict.of, state, codes]

theorem FnDecl.Respelled.codes_eq {d d' : FnDecl} (h : d.Respelled d') (types : List String) :
    ∃ fs fs', d.verdict types = .of (d.plan types) fs ∧
      d'.verdict types = .of (d'.plan types) fs' ∧ codes fs = codes fs' := by
  refine ⟨_, _, FnDecl.verdict_eq types d, FnDecl.verdict_eq types d', ?_⟩
  have hasync : d'.asyncFindings = d.asyncFindings := by rw [h.eq]; rfl
  have hgenerics : d'.generics = d.generics := by rw [h.eq]
  have hblock : d'.block = d.block := by rw [h.eq]
  have hresult : d'.result = d.result := by rw [h.eq]
  have hsummary : d.summary.findings.map (·.fault.code) = d'.summary.findings.map (·.fault.code) :=
    h.summary.findings
  have hmarking : d.marking.2.map (·.fault.code) = d'.marking.2.map (·.fault.code) := h.marking.2
  simp only [codes, List.map_append, hasync, hgenerics, hblock, hresult, hsummary, hmarking,
    Param.Respelled.implArgumentFindings_eq h.params, h.resolution_eq, h.surplusFindings_eq,
    Param.Respelled.patternFindings_eq h.rest, h.planned_eq, FnDecl.passed, h.texts_eq,
    h.marking.1.contextFindings_eq]

/-- A function is bound the same way however its names are spelled, but for the native name. -/
theorem FnDecl.verdict_respelled {d d' : FnDecl} (h : d.Respelled d') (types : List String) :
    (d'.verdict types).state = (d.verdict types).state ∧
      (d'.verdict types).diagnostics.map (·.code) = (d.verdict types).diagnostics.map (·.code) ∧
      ∀ plan, d.verdict types = .accepted plan →
        d'.verdict types = .accepted { plan with nativeName := d'.name } := by
  obtain ⟨fs, fs', hverdict, hverdict', hcodes⟩ := h.codes_eq types
  rw [hverdict, hverdict']
  refine ⟨?_, ?_, fun plan hplan => ?_⟩
  · rw [Verdict.state_of, Verdict.state_of, hcodes]
  · rw [Verdict.codes_of, Verdict.codes_of, hcodes]
  · obtain ⟨rfl, rfl⟩ := Verdict.of_eq_accepted_iff.1 hplan
    have hnone : fs' = [] := by simpa [codes] using hcodes
    rw [hnone, h.plan_eq]
    rfl

def exportedMethod (native item param given : String) : FnDecl where
  name := native
  params := [.typed ⟨.name param false, .path ["T"] [] [] {}, [], {}⟩]
  result := none
  attrs :=
    [⟨⟨["staticmethod"], {}⟩, .word, false, {}⟩,
      ⟨⟨["args"], {}⟩, .list [.path ⟨[item], {}⟩], false, {}⟩,
      ⟨⟨["export"], {}⟩, .list [.assign ⟨["name"], {}⟩ ⟨.str given, {}⟩ {}], false, {}⟩]
  generics := []
  asyncSpan := none
  block := none
  nameSpan := {}
  span := {}

theorem FnDecl.verdict_respelled_of_export : ∃ (d d' : FnDecl) (plan : CallPlan), d.Respelled d' ∧
    d.name = "f" ∧ d'.name = "r#f" ∧ d.verdict defaultContextTypes = .accepted plan ∧
    plan.externalName = "g" ∧
    d'.verdict defaultContextTypes = .accepted { plan with nativeName := "r#f" } := by
  have hname : ((exportedMethod "f" "a" ("r#" ++ "a") ("r#" ++ "g")).verdict
      defaultContextTypes).plan?.map (·.externalName) = some "g" := by decide +kernel
  have h : (exportedMethod "f" "a" ("r#" ++ "a") ("r#" ++ "g")).Respelled
      (exportedMethod ("r#" ++ "f") ("r#" ++ "a") "a" "g") := by
    constructor
    case name => exact .marked (by decide)
    case params => exact .cons (.typed (.unmarked (by decide)) ..) .nil
    case attrs =>
      refine .cons (.same _) (.cons (.list _ _ (.cons (.path ?_ (.marked ?_) _) .nil))
        (.cons (.list _ _ (.cons (.option ?_ (.unmarked ?_) ..) .nil)) .nil)) <;> decide
    case eq => rfl
  obtain ⟨plan, hplan, hexternal⟩ := Option.map_eq_some_iff.1 hname
  have haccepted : (exportedMethod "f" "a" ("r#" ++ "a") ("r#" ++ "g")).verdict
      defaultContextTypes = .accepted plan := by
    generalize FnDecl.verdict _ _ = v at hplan
    cases v with
    | accepted p => exact congrArg _ (Option.some.inj hplan)
    | rejected => cases hplan
  exact ⟨_, _, plan, h, rfl, rfl, haccepted, hexternal,
    (FnDecl.verdict_respelled h defaultContextTypes).2.2 plan haccepted⟩

end NativeBinding
