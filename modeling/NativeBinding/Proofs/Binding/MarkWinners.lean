import NativeBinding.Proofs.Binding.RawNames

/-!
Tables built from any marks. Of the marks that name one parameter the first wins: it alone is
entered, and every question about the parameter is answered from it. Each other mark makes one
finding. A mark without a parameter is reported as such; one that comes too late is reported by what
it and the winner say together.
-/

namespace NativeBinding

namespace ArgMark

def Opposed (x y : ArgMark) : Prop :=
  (x.form = .variadicPositional ∧ y.form = .variadicKeyword) ∨
    (x.form = .variadicKeyword ∧ y.form = .variadicPositional)

def IsVariadic (m : ArgMark) : Prop :=
  m.form = .variadicPositional ∨ m.form = .variadicKeyword

def DefaultsVariadic (x y : ArgMark) : Prop :=
  (x.IsVariadic ∨ y.IsVariadic) ∧ (x.default? ≠ none ∨ y.default? ≠ none)

inductive Clash (winner m : ArgMark) : Fault → Prop
  | opposed (h : Opposed winner m) : Clash winner m (.variadicConflict m.name winner.span)
  | default (h : ¬ Opposed winner m) (hdefault : DefaultsVariadic winner m) :
      Clash winner m (.defaultOnVariadic m.name winner.span)
  | again (h : ¬ Opposed winner m) (hdefault : ¬ DefaultsVariadic winner m) :
      Clash winner m (.secondMark m.name winner.span)

theorem opposed_iff (x y : ArgMark) : Opposed x y ↔
    (x.role.isVariadic && y.role.isVariadic && x.role != y.role) = true := by
  unfold Opposed role
  cases x.form <;> cases y.form <;> simp [Role.isVariadic]

theorem isVariadic_iff (m : ArgMark) : m.IsVariadic ↔ m.role.isVariadic = true := by
  unfold IsVariadic role
  cases m.form <;> simp [Role.isVariadic]

theorem defaultsVariadic_iff (x y : ArgMark) : DefaultsVariadic x y ↔
    ((x.role.isVariadic || y.role.isVariadic) &&
      (x.default?.isSome || y.default?.isSome)) = true := by
  rw [DefaultsVariadic, isVariadic_iff, isVariadic_iff]
  simp [Option.ne_none_iff_isSome]

theorem clash_conflict (winner m : ArgMark) : Clash winner m (winner.conflict m) := by
  rw [conflict]
  by_cases hopposed : Opposed winner m
  · rw [if_pos ((opposed_iff winner m).1 hopposed)]
    exact .opposed hopposed
  · rw [if_neg (mt (opposed_iff winner m).2 hopposed)]
    by_cases hdefault : DefaultsVariadic winner m
    · rw [if_pos ((defaultsVariadic_iff winner m).1 hdefault)]
      exact .default hopposed hdefault
    · rw [if_neg (mt (defaultsVariadic_iff winner m).2 hdefault)]
      exact .again hopposed hdefault

end ArgMark

namespace MarkTable

section

variable (params : List String)

/-- The first of some marks that names a parameter. Names that no parameter has are nobody's. -/
def winner? (marks : List ArgMark) (name : String) : Option ArgMark :=
  if name ∈ params.map unraw then marks.find? fun m => unraw m.name == name else none

theorem winner?_append (before : List ArgMark) (m : ArgMark) (name : String) :
    winner? params (before ++ [m]) name = (winner? params before name).or
      (if name = unraw m.name ∧ name ∈ params.map unraw then some m else none) := by
  unfold winner?
  by_cases hknown : name ∈ params.map unraw
  · by_cases hname : name = unraw m.name
    · simp [hknown, ← hname]
    · simp [hknown, hname, Ne.symm hname]
  · simp [hknown]

theorem winner?_eq_none_of_append {before : List ArgMark} {m : ArgMark} {name : String}
    (h : winner? params (before ++ [m]) name = none) : winner? params before name = none := by
  rw [winner?_append, Option.or_eq_none_iff] at h
  exact h.1

theorem winner?_isSome_iff (marks : List ArgMark) (name : String) :
    (winner? params marks name).isSome ↔
      name ∈ params.map unraw ∧ ∃ m ∈ marks, unraw m.name = name := by
  unfold winner?
  by_cases hknown : name ∈ params.map unraw
  · simp [hknown]
  · simp [hknown]

end

inductive Refused (params : List String) (receiver : Option String) (before : List ArgMark)
    (m : ArgMark) : Finding → Prop
  /-- No parameter has the name. It is noted if the receiver has it; an empty receiver name is
  none. -/
  | unknown {isReceiver : Bool} (hname : unraw m.name ∉ params.map unraw)
      (hreceiver : isReceiver ↔ ∃ r, receiver = some r ∧ r ≠ "" ∧ unraw r = unraw m.name) :
      Refused params receiver before m ⟨.unknownParameter (unraw m.name) isReceiver, m.span⟩
  | clash {winner : ArgMark} {f : Fault}
      (hwinner : winner? params before (unraw m.name) = some winner)
      (hclash : winner.Clash m f) : Refused params receiver before m ⟨f, m.span⟩

/-- What becomes of marks in order, behind the marks `before`: each is entered or reported. -/
inductive Settles (params : List String) (receiver : Option String) :
    List ArgMark → List ArgMark → List (String × ArgMark) → List Finding → Prop
  | nil (before : List ArgMark) : Settles params receiver before [] [] []
  | enter {before ms : List ArgMark} {m : ArgMark} {entries : List (String × ArgMark)}
      {found : List Finding} (hknown : unraw m.name ∈ params.map unraw)
      (hfirst : winner? params before (unraw m.name) = none)
      (rest : Settles params receiver (before ++ [m]) ms entries found) :
      Settles params receiver before (m :: ms) ((unraw m.name, m) :: entries) found
  | refuse {before ms : List ArgMark} {m : ArgMark} {f : Finding}
      {entries : List (String × ArgMark)} {found : List Finding}
      (hrefused : Refused params receiver before m f)
      (rest : Settles params receiver (before ++ [m]) ms entries found) :
      Settles params receiver before (m :: ms) entries (f :: found)

section

variable {params : List String} {receiver : Option String} {before ms : List ArgMark}
  {entries : List (String × ArgMark)} {found : List Finding}

theorem Settles.length_add (h : Settles params receiver before ms entries found) :
    entries.length + found.length = ms.length := by
  induction h with
  | nil => rfl
  | enter hknown hfirst rest ih =>
    simp only [List.length_cons]
    omega
  | refuse hrefused rest ih =>
    simp only [List.length_cons]
    omega

theorem Settles.winner?_eq_none (h : Settles params receiver before ms entries found) {key : String}
    (hkey : key ∈ entries.map Prod.fst) : winner? params before key = none := by
  induction h with
  | nil => simp at hkey
  | enter hknown hfirst rest ih =>
    rcases List.mem_cons.1 hkey with rfl | hkey
    · exact hfirst
    · exact winner?_eq_none_of_append params (ih hkey)
  | refuse hrefused rest ih => exact winner?_eq_none_of_append params (ih hkey)

theorem Settles.keys_nodup (h : Settles params receiver before ms entries found) :
    (entries.map Prod.fst).Nodup := by
  induction h with
  | nil => simp
  | enter hknown hfirst rest ih =>
    rw [List.map_cons, List.nodup_cons]
    refine ⟨fun hmem => ?_, ih⟩
    have := rest.winner?_eq_none hmem
    rw [winner?_append, if_pos ⟨rfl, hknown⟩, Option.or_eq_none_iff] at this
    cases this.2
  | refuse hrefused rest ih => exact ih

end

section

variable {params : List String} {t : MarkTable} {before : List ArgMark}

def receiverKey (receiver : Option String) : Option String :=
  (receiver.filter (!·.isEmpty)).map unraw

/-- A table that holds the winners among some marks. -/
def Holds (params : List String) (t : MarkTable) (marks : List ArgMark) : Prop :=
  ∀ key, t.entries.lookup key = winner? params marks key

theorem receiverKey_iff (receiver : Option String) (name : String) :
    (receiverKey receiver == some name) = true ↔
      ∃ r, receiver = some r ∧ r ≠ "" ∧ unraw r = name := by
  unfold receiverKey
  cases receiver with
  | none => simp
  | some r =>
    by_cases hempty : r = ""
    · simp [hempty]
    · simp [Option.filter_some, hempty]

theorem add_cases (h : t.Holds params before) (receiver : Option String) (m : ArgMark) :
    (unraw m.name ∈ params.map unraw ∧ winner? params before (unraw m.name) = none ∧
        t.add (params.map unraw) (receiverKey receiver) m =
          (⟨t.entries ++ [(unraw m.name, m)]⟩, [])) ∨
      ∃ f, Refused params receiver before m f ∧
        t.add (params.map unraw) (receiverKey receiver) m = (t, [f]) := by
  by_cases hknown : unraw m.name ∈ params.map unraw
  · have hcontains : (params.map unraw).contains (unraw m.name) = true :=
      List.contains_iff_mem.2 hknown
    cases hwinner : winner? params before (unraw m.name) with
    | none =>
      have hlookup := (h (unraw m.name)).trans hwinner
      refine .inl ⟨hknown, rfl, ?_⟩
      simp only [add, hcontains, hlookup, Bool.not_true, Bool.false_eq_true, if_false]
    | some winner =>
      have hlookup := (h (unraw m.name)).trans hwinner
      refine .inr ⟨⟨winner.conflict m, m.span⟩, .clash hwinner (winner.clash_conflict m), ?_⟩
      simp only [add, hcontains, hlookup, Bool.not_true, Bool.false_eq_true, if_false]
  · have hcontains : (params.map unraw).contains (unraw m.name) = false := by
      rw [← Bool.not_eq_true, List.contains_iff_mem]
      exact hknown
    refine .inr ⟨_, .unknown hknown (receiverKey_iff receiver (unraw m.name)), ?_⟩
    simp only [add, hcontains, Bool.not_false, if_true]

theorem Holds.enter (h : t.Holds params before) {m : ArgMark}
    (hknown : unraw m.name ∈ params.map unraw) :
    Holds params ⟨t.entries ++ [(unraw m.name, m)]⟩ (before ++ [m]) := by
  intro key
  rw [lookup_append_single, h key, winner?_append]
  by_cases hkey : key = unraw m.name
  · rw [if_pos hkey, if_pos ⟨hkey, hkey ▸ hknown⟩]
  · rw [if_neg hkey, if_neg fun hboth => hkey hboth.1]

theorem Holds.refuse (h : t.Holds params before) {receiver : Option String} {m : ArgMark}
    {f : Finding} (hrefused : Refused params receiver before m f) :
    t.Holds params (before ++ [m]) := by
  intro key
  rw [h key, winner?_append]
  cases hrefused with
  | unknown hname _ =>
    have hneither : ¬ (key = unraw m.name ∧ key ∈ params.map unraw) := by
      rintro ⟨rfl, hknown⟩
      exact hname hknown
    rw [if_neg hneither, Option.or_none]
  | clash hwinner _ =>
    by_cases hkey : key = unraw m.name
    · rw [hkey, hwinner]
      rfl
    · rw [if_neg fun hboth => hkey hboth.1, Option.or_none]

theorem settles_addAll (h : t.Holds params before) (receiver : Option String) (ms : List ArgMark) :
    ∃ t' entries found,
      t.addAll (params.map unraw) (receiverKey receiver) ms = (t', found) ∧
      t'.entries = t.entries ++ entries ∧ Settles params receiver before ms entries found ∧
      t'.Holds params (before ++ ms) := by
  induction ms generalizing t before with
  | nil => exact ⟨t, [], [], rfl, by simp, .nil before, by simpa using h⟩
  | cons m ms ih =>
    rcases add_cases h receiver m with ⟨hknown, hfirst, hadd⟩ | ⟨f, hrefused, hadd⟩
    · obtain ⟨t', entries, found, hrun, hentries, hsettles, hholds⟩ := ih (h.enter hknown)
      refine ⟨t', (unraw m.name, m) :: entries, found, ?_, ?_, .enter hknown hfirst hsettles, ?_⟩
      · simp only [addAll, hadd, hrun, List.nil_append]
      · rw [hentries, List.append_assoc]
        rfl
      · rwa [List.append_assoc] at hholds
    · obtain ⟨t', entries, found, hrun, hentries, hsettles, hholds⟩ := ih (h.refuse hrefused)
      refine ⟨t', entries, f :: found, ?_, hentries, .refuse hrefused hsettles, ?_⟩
      · simp only [addAll, hadd, hrun, List.singleton_append]
      · rwa [List.append_assoc] at hholds

end

/-- Every question about a name is answered from one mark, or from none. -/
structure Answers (t : MarkTable) (name : String) (winner : Option ArgMark) : Prop where
  find? : t.find? name = winner
  contains : t.contains name = winner.isSome
  default? : t.defaultOf name = winner.bind ArgMark.default?
  role : t.roleOf name = (winner.map ArgMark.role).getD .positional
  marksAs : ∀ r, t.marksAs name r ↔ ∃ m, winner = some m ∧ m.role = r

theorem answers_of_find? {t : MarkTable} {name : String} {winner : Option ArgMark}
    (h : t.find? name = winner) : t.Answers name winner where
  find? := h
  contains := by rw [MarkTable.contains, h]
  default? := by rw [defaultOf, h]
  role := by rw [roleOf, h]
  marksAs r := by
    rw [MarkTable.marksAs, h, Option.any_eq_true]
    simp

/-- What becomes of the marks that a table is built from. -/
structure Conserves (marks : List ArgMark) (params : List String) (receiver : Option String)
    (t : MarkTable) (found : List Finding) : Prop where
  settles : Settles params receiver [] marks t.entries found
  keys : ∀ name, name ∈ t.entries.map Prod.fst ↔
    name ∈ params.map unraw ∧ ∃ m ∈ marks, unraw m.name = name
  keys_nodup : (t.entries.map Prod.fst).Nodup
  entry : ∀ name m, (name, m) ∈ t.entries → winner? params marks name = some m
  size : t.size + found.length = marks.length
  answers : ∀ name, t.Answers name (winner? params marks (unraw name))
  answers_raw : ∀ name, t.Answers ("r#" ++ name) (winner? params marks name)

theorem lookup_of_mem {entries : List (String × ArgMark)} (h : (entries.map Prod.fst).Nodup)
    {name : String} {m : ArgMark} (hmem : (name, m) ∈ entries) : entries.lookup name = some m := by
  induction entries with
  | nil => cases hmem
  | cons e entries ih =>
    rw [List.map_cons, List.nodup_cons] at h
    rcases List.mem_cons.1 hmem with rfl | hmem
    · simp
    · have hne : name ≠ e.1 := fun hname =>
        h.1 (hname ▸ List.mem_map_of_mem hmem)
      rw [List.lookup_cons, beq_eq_false_iff_ne.2 hne]
      exact ih h.2 hmem

theorem conserves_build (marks : List ArgMark) (params : List String) (receiver : Option String) :
    Conserves marks params receiver (build marks params receiver).1
      (build marks params receiver).2 := by
  have hempty : Holds params {} [] := by
    intro key
    simp [winner?]
  obtain ⟨t, entries, found, hrun, hentries, hsettles, hholds⟩ :=
    settles_addAll hempty receiver marks
  rw [List.nil_append] at hentries hholds
  subst hentries
  have hbuild : build marks params receiver = (t, found) := hrun
  rw [hbuild]
  have hentry : ∀ name m, (name, m) ∈ t.entries → winner? params marks name = some m :=
    fun name m hmem => (hholds name).symm.trans (lookup_of_mem hsettles.keys_nodup hmem)
  refine ⟨hsettles, fun name => ?_, hsettles.keys_nodup, hentry, hsettles.length_add,
    fun name => answers_of_find? (hholds (unraw name)), fun name => answers_of_find? ?_⟩
  · rw [← winner?_isSome_iff]
    constructor
    · intro hname
      obtain ⟨e, he, rfl⟩ := List.mem_map.1 hname
      rw [hentry e.1 e.2 he]
      rfl
    · intro hsome
      by_contra hname
      have hnone : t.entries.lookup name = none := by
        apply List.lookup_eq_none_iff.2
        intro e he
        rw [bne_iff_ne]
        rintro rfl
        exact hname (List.mem_map_of_mem he)
      rw [← hholds, hnone] at hsome
      cases hsome
  · rw [MarkTable.find?, unraw_mark]
    exact hholds name

example : (build [⟨"r#a", .variadicPositional, {}⟩, ⟨"b", .positional none, {}⟩,
    ⟨"a", .variadicKeyword, {}⟩, ⟨"a", .positional (some "1"), {}⟩, ⟨"r#a", .keywordOnly none, {}⟩]
      ["a"] (some "r#b")).2.map (fun f => (f.fault.code, f.fault.notes.length)) =
    [("unknown-parameter", 1), ("variadic-conflict", 1), ("default-on-variadic", 1),
      ("duplicate-argument-attribute", 1)] := by decide +kernel

end MarkTable

end NativeBinding
