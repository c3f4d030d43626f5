import NativeBinding.Proofs.Decl.LegibleState
import NativeBinding.Proofs.Decl.Rendered

/-!
Types and their spelling. A declared type of any text that parses is read back, up to its places,
from its spelling as the type of a parameter. So two such types are spelled alike only if they have
the same shape.
-/

namespace NativeBinding

open Grammar

namespace Grammar

variable {w : List Char}

theorem IsIdent.no_brace (h : IsIdent w) : '{' ∉ w :=
  h.not_mem (by decide) (by decide)

theorem IsLifetime.no_brace (h : IsLifetime w) : '{' ∉ w := by
  obtain ⟨name, rfl, h⟩ := h
  have hname : '{' ∉ name := h.not_mem (by decide)
  simpa using hname

theorem IsUnsigned.no_brace (h : IsUnsigned w) : '{' ∉ w := by
  have digits {w : List Char} (h : IsDigits w) : '{' ∉ w :=
    fun hmem => absurd (h.2 _ hmem) (by decide +kernel)
  rcases h with h | ⟨whole, fraction, rfl, hwhole, hfraction⟩
  · exact digits h
  · simp [digits hwhole, digits hfraction]

theorem IsNumber.no_brace (h : IsNumber w) : '{' ∉ w := by
  rcases h with h | ⟨u, rfl, h⟩
  · exact h.no_brace
  · simpa using h.no_brace

end Grammar

abbrev Braceless (s : String) : Prop :=
  '{' ∉ s.toList

theorem Braceless.append {s t : String} (hs : Braceless s) (ht : Braceless t) :
    Braceless (s ++ t) := by
  rw [Braceless, String.toList_append, List.mem_append, not_or]
  exact ⟨hs, ht⟩

theorem Braceless.intercalate {sep : String} (hsep : Braceless sep) {texts : List String}
    (h : ∀ s ∈ texts, Braceless s) : Braceless (sep.intercalate texts) := by
  cases texts with
  | nil => exact List.not_mem_nil
  | cons first rest =>
    rw [Braceless, toList_intercalate_cons, List.mem_append, List.mem_flatMap, not_or]
    refine ⟨h first List.mem_cons_self, ?_⟩
    rintro ⟨s, hs, hmem⟩
    exact (List.mem_append.1 hmem).elim hsep (h s (List.mem_cons_of_mem _ hs))

theorem TypeExpr.Legible.braceless {lead : Lead} {t : TypeExpr} (h : t.Legible lead) :
    Braceless t.render := by
  have all {ts : List TypeExpr} (h : ∀ t ∈ ts, Braceless t.render) :
      ∀ s ∈ renderAll ts, Braceless s := by
    rw [renderAll_eq_map]
    intro s hs
    obtain ⟨t, ht, rfl⟩ := List.mem_map.1 hs
    exact h t ht
  induction h with
  | @path _ segments lifetimes args _ _ hnames _ hlifetimes _ ih =>
    have hinside : ∀ s ∈ lifetimes ++ renderAll args, Braceless s :=
      List.forall_mem_append.2 ⟨fun l hl => (hlifetimes l hl).no_brace, all ih⟩
    rw [render]
    refine Braceless.append (.intercalate (by decide) fun s hs => (hnames s hs).no_brace) ?_
    split
    · decide
    · exact .append (.append (by decide) (.intercalate (by decide) hinside)) (by decide)
  | @ref _ lifetime mutable _ _ _ hlifetime _ ih =>
    cases lifetime with
    | none =>
      rw [render]
      exact .append (.append (by decide) (by cases mutable <;> decide)) ih
    | some l =>
      rw [render]
      exact .append (.append (.append (by decide) (.append (hlifetime l rfl).no_brace (by decide)))
        (by cases mutable <;> decide)) ih
  | tuple _ _ ih =>
    have hitems := all ih
    rw [render]
    split
    · next item heq =>
      rw [heq] at hitems
      exact .append (.append (by decide) (hitems item List.mem_cons_self)) (by decide)
    · exact .append (.append (by decide) (.intercalate (by decide) hitems)) (by decide)
  | @slice _ _ length _ _ _ hlength ih =>
    cases length with
    | none =>
      rw [render]
      exact .append (.append (.append (by decide) ih) (by decide)) (by decide)
    | some n =>
      have hn : Braceless n := (hlength n rfl).elim IsIdent.no_brace IsNumber.no_brace
      rw [render]
      exact .append (.append (.append (by decide) ih) (.append (by decide) hn)) (by decide)
  | @object _ kind bounds lifetimes _ _ _ _ hlifetimes ih =>
    have hinside : ∀ s ∈ renderAll bounds ++ lifetimes, Braceless s :=
      List.forall_mem_append.2 ⟨all ih, fun l hl => (hlifetimes l hl).no_brace⟩
    rw [render]
    exact .append (.append (by cases kind <;> decide) (by decide))
      (.intercalate (by decide) hinside)
  | inferred _ =>
    rw [render]
    decide

def paramText (type : String) : String :=
  "fn f(x: " ++ type ++ ");"

variable (file : Option String)

def OneParam (file : Option String) (t : TypeExpr) (s : State) : Prop :=
  ∃ (fn : FnTree) (pattern : PatternTree) (colon : Lexeme .colon) (tree : TypeTree),
    s = .item (.file [⟨[], .member (.fn fn)⟩]) [] ∧
      fn.params.toList = [⟨[], .typed pattern colon tree⟩] ∧
      (TypeExpr.ofTree file tree).shape = t.shape

theorem reaches_paramText {t : TypeExpr} (h : t.Legible .type) :
    Reaches .start (paramText t.render).toList (OneParam file t) [] := by
  have hreadable : Readable file .type t := h.readable
  rw [paramText, String.toList_append, String.toList_append, List.append_assoc]
  change Reaches _ (['f', 'n'] ++ ' ' :: (['f'] ++ '(' :: (['x'] ++ ([':'] ++ ' ' ::
    (t.render.toList ++ [')', ';']))))) _ _
  refine Reaches.lexeme (k := .fnWord) rfl fun _ _ => ⟨_, rfl, ?_⟩
  refine .space ⟨'f', _, rfl, by decide⟩ ?_
  refine .lexeme (k := .ident) rfl fun _ _ => ⟨_, rfl, ?_⟩
  refine .mark .lparen (by simp [State.expects]) fun _ => ⟨_, rfl, ?_⟩
  refine .lexeme (k := .ident) rfl fun _ _ => ⟨_, rfl, ?_⟩
  refine .lexeme (k := .colon) rfl fun _ _ => ⟨_, rfl, ?_⟩
  refine .space (h.opens.append _) ?_
  refine (hreadable _ _ rfl (stops_mark (by decide) _)).trans ?_
  rintro s ⟨tree, hready, hshape⟩
  refine hready.mark .rparen (by decide) fun _ => ⟨_, rfl, ?_⟩
  refine .mark .semicolon (by simp [ParamPlace.finish, State.expects]) fun _ => ⟨_, rfl, .done ?_⟩
  exact ⟨_, _, _, _, rfl, rfl, hshape⟩

theorem paramText_braceless {t : TypeExpr} (h : t.Legible .type) : Braceless (paramText t.render) :=
  .append (.append (by decide) h.braceless) (by decide)

theorem exists_decl_of_oneParam {fn : FnTree} {pattern : PatternTree} {colon : Lexeme .colon}
    {tree : TypeTree} (hparams : fn.params.toList = [⟨[], .typed pattern colon tree⟩]) :
    ∃ d p, SourceItem.ofTree file ⟨[], .member (.fn fn)⟩ = .ok (.decl (.fn d)) ∧
      d.params = [.typed p] ∧ p.type = .ofTree file tree := by
  obtain ⟨d, hd, hdparams⟩ : ∃ d, FnDecl.ofTree file none [] fn = .ok d ∧
      fn.params.toList.mapM (Param.ofTree file) = .ok d.params := by
    rw [FnDecl.ofTree, hparams]
    exact ⟨_, rfl, rfl⟩
  rw [hparams] at hdparams
  refine ⟨d, _, ?_, (Except.ok.inj hdparams).symm, rfl⟩
  simp only [SourceItem.ofTree, Decl.ofTree, List.mapM_nil, pure_bind, hd]
  rfl

theorem SourceFile.parse_paramText {t : TypeExpr} (h : t.Legible .type) :
    ∃ f d p, SourceFile.parse (paramText t.render) file = .ok f ∧ f.declarations = [.fn d] ∧
      d.params = [.typed p] ∧ p.type.shape = t.shape := by
  obtain ⟨ts, s, pos, hreads, fn, pattern, colon, tree, rfl, hparams, hshape⟩ :=
    reaches_paramText file h .start
  obtain ⟨d, p, hd, hdparams, htype⟩ := exists_decl_of_oneParam file hparams
  refine ⟨⟨[.decl (.fn d)], file⟩, d, p, ?_, rfl, hdparams, by rw [htype, hshape]⟩
  refine parse_eq_ok_iff.2 ⟨[⟨[], .member (.fn fn)⟩], ?_, ofTrees_eq_ok_iff.2 ⟨?_, rfl⟩⟩
  · rw [Grammar.read, Body.mask_of_no_brace (paramText_braceless h)]
    exact readMasked_eq_ok_iff.2 ⟨ts, _, pos, hreads, rfl⟩
  · rw [List.mapM_cons, hd]
    rfl

/-- A declared type is read back from its spelling, and no declared type of another shape is spelled
like it. The types inside declared types are not told apart so: `impl _` has a bound `_`, which is a
path. -/
theorem SourceFile.types_readBack {text : String} {file : Option String} {f : SourceFile}
    (h : SourceFile.parse text file = .ok f) {t : TypeExpr} (ht : t ∈ f.types) :
    (∀ file', ∃ f' d p, SourceFile.parse (paramText t.render) file' = .ok f' ∧
      f'.declarations = [.fn d] ∧ d.params = [.typed p] ∧ p.type.shape = t.shape ∧
      p.type.render = t.render) ∧
    ∀ text' file' f', SourceFile.parse text' file' = .ok f' → ∀ t' ∈ f'.types,
      t'.render = t.render → t'.shape = t.shape := by
  have hlegible := legible_of_parse h t ht
  refine ⟨fun file' => ?_, fun text' file' f' h' t' ht' hrender => ?_⟩
  · obtain ⟨f', d, p, hparse, hd, hp, hshape⟩ := parse_paramText file' hlegible
    refine ⟨f', d, p, hparse, hd, hp, hshape, ?_⟩
    rw [← p.type.render_shape, hshape, t.render_shape]
  · -- Both types are read back from one text.
    obtain ⟨f₁, d₁, p₁, hparse₁, hd₁, hp₁, hshape₁⟩ :=
      parse_paramText none (legible_of_parse h' t' ht')
    obtain ⟨f₂, d₂, p₂, hparse₂, hd₂, hp₂, hshape₂⟩ := parse_paramText none hlegible
    rw [hrender, hparse₂] at hparse₁
    obtain rfl := Except.ok.inj hparse₁
    obtain rfl := Decl.fn.inj (List.singleton_inj.1 (hd₁.symm.trans hd₂))
    obtain rfl := Param.typed.inj (List.singleton_inj.1 (hp₁.symm.trans hp₂))
    rw [← hshape₁, hshape₂]

theorem SourceFile.readBack_of_hoisted_lifetimes :
    let text := "impl m::A<T>::B<'a> \x7b " ++
      "fn f(x: &'a mut [mut; 4], y: dyn F<_> + 'a + G) -> (T); const N: m::dyn = 1; \x7d"
    ∃ f, SourceFile.parse text = .ok f ∧
      f.types.map (·.render) =
        ["m::A::B<'a, T>", "&'a mut [mut; 4]", "dyn F<_> + G + 'a", "(T,)", "m::dyn"] ∧
      ∀ t ∈ f.types, ∃ f' d p, SourceFile.parse (paramText t.render) = .ok f' ∧
        f'.declarations = [.fn d] ∧ d.params = [.typed p] ∧ p.type.shape = t.shape ∧
        p.type.render = t.render := by
  intro text
  have hrenders : (SourceFile.parse text).toOption.map (·.types.map (·.render)) =
      some ["m::A::B<'a, T>", "&'a mut [mut; 4]", "dyn F<_> + G + 'a", "(T,)", "m::dyn"] := by
    decide +kernel
  obtain ⟨f, hf, hrenders⟩ := Option.map_eq_some_iff.1 hrenders
  have hparse : SourceFile.parse text = .ok f := by
    cases h : SourceFile.parse text with
    | error e => simp [h, Except.toOption] at hf
    | ok g => simpa [h, Except.toOption] using hf
  exact ⟨f, hparse, hrenders, fun t ht => (SourceFile.types_readBack hparse ht).1 none⟩

end NativeBinding
